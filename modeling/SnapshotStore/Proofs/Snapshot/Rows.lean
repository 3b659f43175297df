import SnapshotStore.Catalog.Conflict
import SnapshotStore.Proofs.Alike.Building

/-!
# What objects make of rows

An object that writes a row gives one row of one table new fields and a new version, or takes it
away, and leaves all other rows alone. So what any number of such objects make of a row can be said
from the row before, without the rest of the snapshot, and goes along with new identifiers.
-/

namespace SnapshotStore

namespace LogObject

/-- Whether an object creates, updates or deletes a row. -/
def writesRow : LogObject → Bool
  | record .. | update .. | delete .. => true
  | _ => false

/-- The table and the columns that an object names when it writes a row. -/
def schemaUids : LogObject → List Uid
  | record table fields => table :: fields.map Prod.fst
  | update table fields _ => table :: fields.map Prod.fst
  | delete table _ => [table]
  | _ => []

/-- What an object at `uid` makes of a row of a table. -/
def rowAfter (uid table row : Uid) (before : Option Row) : LogObject → Option Row
  | record written fields =>
    if table = written ∧ row = uid then some ⟨uid, uid, Snapshot.keptFields fields⟩ else before
  | update written fields updated =>
    if table = written ∧ row = updated then some ⟨updated, uid, Snapshot.keptFields fields⟩
    else before
  | delete written deleted => if table = written ∧ row = deleted then none else before
  | _ => before

/-- What objects make of a row of a table, one after the other. -/
def rowAfterAll (objects : List (Uid × LogObject)) (table row : Uid) (before : Option Row) :
    Option Row :=
  objects.foldl (fun before o => o.2.rowAfter o.1 table row before) before

end LogObject

/-- A row under new identifiers; its columns have kept theirs. -/
def Row.relabel (f : Uid → Uid) (row : Row) : Row := ⟨f row.uid, f row.version, row.fields⟩

/-- An object and its place under new identifiers. -/
def relabel (f : Uid → Uid) (o : Uid × LogObject) : Uid × LogObject := (f o.1, o.2.mapUids f)

/-! ### Objects in a row -/

namespace LogObject

variable {f : Uid → Uid} {uid table row : Uid} {object : LogObject}
  {objects more : List (Uid × LogObject)}

theorem rowAfter_of_unwritten (before : Option Row) (h : object.row? uid ≠ some row) :
    object.rowAfter uid table row before = before := by
  cases object with
  | record | update | delete => exact if_neg fun heq => h (congrArg some heq.2.symm)
  | _ => rfl

theorem mem_uids_of_row? (h : object.row? uid = some row) : row = uid ∨ row ∈ object.uids := by
  cases object with
  | record => exact .inl (Option.some.inj h).symm
  | update table fields updated =>
    cases h
    exact .inr (List.mem_cons_of_mem _ List.mem_cons_self)
  | delete table deleted =>
    cases h
    exact .inr (List.mem_cons_of_mem _ List.mem_cons_self)
  | _ => cases h

theorem row?_mapUids (f : Uid → Uid) (uid : Uid) (object : LogObject) :
    (object.mapUids f).row? (f uid) = (object.row? uid).map f := by
  cases object <;> rfl

theorem writesRow_mapUids (f : Uid → Uid) (object : LogObject) :
    (object.mapUids f).writesRow = object.writesRow := by
  cases object <;> rfl

theorem rowAfterAll_of_unwritten (before : Option Row)
    (h : ∀ o ∈ objects, o.2.row? o.1 ≠ some row) :
    rowAfterAll objects table row before = before := by
  induction objects with
  | nil => rfl
  | cons o objects ih =>
    rw [rowAfterAll, List.foldl_cons, rowAfter_of_unwritten before (h o List.mem_cons_self)]
    exact ih fun o ho => h o (List.mem_cons_of_mem _ ho)

theorem rowAfterAll_append (before : Option Row) :
    rowAfterAll (objects ++ more) table row before =
      rowAfterAll more table row (rowAfterAll objects table row before) :=
  List.foldl_append ..

/-- Objects that write no row in common may change places. -/
theorem rowAfterAll_comm (before : Option Row)
    (h : ∀ o ∈ objects, ∀ p ∈ more, ∀ row, o.2.row? o.1 = some row → p.2.row? p.1 ≠ some row) :
    rowAfterAll (more ++ objects) table row before =
      rowAfterAll (objects ++ more) table row before := by
  rw [rowAfterAll_append, rowAfterAll_append]
  by_cases hwritten : ∃ o ∈ objects, o.2.row? o.1 = some row
  · obtain ⟨o, ho, hrow⟩ := hwritten
    have hmore : ∀ p ∈ more, p.2.row? p.1 ≠ some row := fun p hp => h o ho p hp row hrow
    rw [rowAfterAll_of_unwritten before hmore, rowAfterAll_of_unwritten _ hmore]
  · have hobjects : ∀ o ∈ objects, o.2.row? o.1 ≠ some row := fun o ho hrow =>
      hwritten ⟨o, ho, hrow⟩
    rw [rowAfterAll_of_unwritten before hobjects, rowAfterAll_of_unwritten _ hobjects]

/-! ### Objects under new identifiers -/

theorem map_fields_eq_self {fields : List Field} (h : ∀ u ∈ fields.map Prod.fst, f u = u) :
    fields.map (fun (column, value) => (f column, value)) = fields := by
  refine (List.map_congr_left fun field hfield => ?_).trans (List.map_id fields)
  exact Prod.ext (h _ (List.mem_map_of_mem hfield)) rfl

/-- What an object makes of a row goes along with new identifiers that keep the schema and tell the
row from the one that is written. -/
theorem rowAfter_relabel (table : Uid) (before : Option Row)
    (hschema : ∀ u ∈ object.schemaUids, f u = u)
    (hrow : ∀ w, object.row? uid = some w → f row = f w → row = w) :
    (object.mapUids f).rowAfter (f uid) table (f row) (before.map (Row.relabel f)) =
      (object.rowAfter uid table row before).map (Row.relabel f) := by
  have hcond : ∀ written w, object.row? uid = some w →
      ((table = written ∧ f row = f w) ↔ (table = written ∧ row = w)) := fun written w hw =>
    and_congr_right fun _ => ⟨hrow w hw, fun heq => congrArg f heq⟩
  cases object with
  | record written fields =>
    obtain ⟨hwritten, hfields⟩ := List.forall_mem_cons.1 hschema
    rw [mapUids, hwritten, map_fields_eq_self hfields, rowAfter, rowAfter, apply_ite (Option.map _)]
    exact ite_congr (propext (hcond written uid rfl)) (fun _ => rfl) fun _ => rfl
  | update written fields updated =>
    obtain ⟨hwritten, hfields⟩ := List.forall_mem_cons.1 hschema
    rw [mapUids, hwritten, map_fields_eq_self hfields, rowAfter, rowAfter, apply_ite (Option.map _)]
    exact ite_congr (propext (hcond written updated rfl)) (fun _ => rfl) fun _ => rfl
  | delete written deleted =>
    have hwritten := hschema written List.mem_cons_self
    rw [mapUids, hwritten, rowAfter, rowAfter, apply_ite (Option.map _)]
    exact ite_congr (propext (hcond written deleted rfl)) (fun _ => rfl) fun _ => rfl
  | _ => rfl

theorem rowAfterAll_relabel (before : Option Row)
    (hschema : ∀ o ∈ objects, ∀ u ∈ o.2.schemaUids, f u = u)
    (hrow : ∀ o ∈ objects, ∀ w, o.2.row? o.1 = some w → f row = f w → row = w) :
    rowAfterAll (objects.map (relabel f)) table (f row) (before.map (Row.relabel f)) =
      (rowAfterAll objects table row before).map (Row.relabel f) := by
  induction objects generalizing before with
  | nil => rfl
  | cons o objects ih =>
    have hfirst := rowAfter_relabel table before (hschema o List.mem_cons_self)
      (hrow o List.mem_cons_self)
    rw [List.map_cons, rowAfterAll, List.foldl_cons, relabel, hfirst]
    exact ih _ (fun o ho => hschema o (List.mem_cons_of_mem _ ho))
      fun o ho => hrow o (List.mem_cons_of_mem _ ho)

theorem mapUids_congr {g : Uid → Uid} (h : ∀ u ∈ object.uids, f u = g u) :
    object.mapUids f = object.mapUids g := by
  have hfields : ∀ {fields : List Field}, (∀ u ∈ fields.map Prod.fst, f u = g u) →
      fields.map (fun (column, value) => (f column, value)) =
        fields.map fun (column, value) => (g column, value) := fun h =>
    List.map_congr_left fun field hfield => Prod.ext (h _ (List.mem_map_of_mem hfield)) rfl
  have hoption : ∀ {u : Option Uid}, (∀ v ∈ u.toList, f v = g v) → u.map f = u.map g := fun h =>
    Option.map_congr fun u hu => h u (Option.mem_toList.2 hu)
  cases object with
  | newTable name => rfl
  | newColumn name type table =>
    rw [mapUids, mapUids, h table List.mem_cons_self]
  | record table fields =>
    obtain ⟨htable, h⟩ := List.forall_mem_cons.1 h
    rw [mapUids, mapUids, htable, hfields h]
  | update table fields row =>
    obtain ⟨htable, h⟩ := List.forall_mem_cons.1 h
    obtain ⟨hrow, h⟩ := List.forall_mem_cons.1 h
    rw [mapUids, mapUids, htable, hrow, hfields h]
  | delete table row =>
    obtain ⟨htable, h⟩ := List.forall_mem_cons.1 h
    rw [mapUids, mapUids, htable, h row List.mem_cons_self]
  | alter table column name type =>
    obtain ⟨htable, h⟩ := List.forall_mem_cons.1 h
    rw [mapUids, mapUids, htable, hoption h]
  | drop target parent =>
    obtain ⟨htarget, h⟩ := List.forall_mem_cons.1 h
    rw [mapUids, mapUids, htarget, hoption h]
  | newIndex definition =>
    obtain ⟨table, primary, columns, references⟩ := definition
    obtain ⟨htable, h⟩ := List.forall_mem_cons.1 h
    obtain ⟨hcolumns, hreferences⟩ := List.forall_mem_append.1 h
    rw [mapUids, mapUids, show f table = g table from htable, List.map_congr_left hcolumns,
      hoption hreferences]
  | dropIndex table columns =>
    obtain ⟨htable, h⟩ := List.forall_mem_cons.1 h
    rw [mapUids, mapUids, htable, List.map_congr_left h]

theorem mapUids_mapUids (g : Uid → Uid) (object : LogObject) :
    (object.mapUids f).mapUids g = object.mapUids (g ∘ f) := by
  cases object <;> simp [mapUids]

end LogObject

/-! ### Rows of a snapshot -/

namespace Snapshot

variable {bound : Nat} {s s' m : Snapshot} {standing : Standing} {u uid v row : Uid} {t : Table}
  {old new : Option Row} {object : LogObject}

/-- The rows of a table once a row of one table is exchanged. -/
def rowsWith (s : Snapshot) (table row : Uid) (new : Option Row) (target v : Uid) : Option Row :=
  if target = table ∧ v = row then new else s.row? target v

theorem row?_of_table (ht : s.table? u = some t) (v : Uid) : s.row? u v = t.rows.get? v := by
  rw [row?, ht]
  rfl

theorem rowsWith_of_table (ht : s.table? u = some t) (v : Uid) :
    s.rowsWith u row new u v = if v = row then new else t.rows.get? v := by
  rw [rowsWith, row?_of_table ht]
  simp only [true_and]

theorem rowsWith_of_ne {target : Uid} (hne : target ≠ u) (v : Uid) :
    s.rowsWith u row new target v = s.row? target v := if_neg fun h => hne h.1

/-- The rows of a table are exchanged along with the trees of its indexes. -/
theorem Catalogued.row?_setRows {table : Uid} {rows : SortedMap Uid Row} (h : Catalogued bound s)
    (ht : s.table? table = some t) (hrekey : s.rekey t row old new = .ok m)
    (hrows : ∀ v, rows.get? v = if v = row then new else t.rows.get? v) (u v : Uid) :
    (m.setTable { t with rows }).row? u v = s.rowsWith table row new u v := by
  have hrekeyed := h.rekeyed (table?_eq_some.1 ht) hrekey
  have huid : t.uid = table := h.table_uid ht
  subst huid
  by_cases hu : u = t.uid
  · subst hu
    have hset : (m.setTable { t with rows }).table? t.uid = some { t with rows } :=
      table?_eq_some.2 (get?_set_self hrekeyed.lawful)
    rw [row?_of_table hset, rowsWith_of_table ht]
    exact hrows v
  · have hset : (m.setTable { t with rows }).table? u = s.table? u :=
      (table?_congr (get?_set_of_ne hrekeyed.lawful hu)).trans (hrekeyed.table?_eq u)
    rw [rowsWith_of_ne hu, row?, row?, hset]

/-- What an installed object makes of the rows. -/
theorem Catalogued.row?_install (h : Catalogued bound s) (hobject : object.writesRow)
    (hinstall : s.install standing uid object = .ok s') (u v : Uid) :
    s'.row? u v = object.rowAfter uid u v (s.row? u v) := by
  cases object with
  | record table fields =>
    obtain ⟨t, m, ht, _, hm, rfl⟩ := insertRow_eq_ok.1 hinstall
    exact h.row?_setRows ht hm ((h.rows (table?_eq_some.1 ht)).lawful.get?_insert uid _) u v
  | update table fields row =>
    obtain ⟨t, old, m, ht, _, _, hm, rfl⟩ := updateRow_eq_ok.1 hinstall
    exact h.row?_setRows ht hm ((h.rows (table?_eq_some.1 ht)).lawful.get?_insert row _) u v
  | delete table row =>
    obtain ⟨t, old, m, ht, _, hm, rfl⟩ := deleteRow_eq_ok.1 hinstall
    have hlawful := (h.rows (table?_eq_some.1 ht)).lawful
    exact h.row?_setRows ht hm (hlawful.get?_erase row) u v
  | _ => cases hobject

/-- What any number of objects make of the rows. -/
theorem Builds.row?_eq {first last : Nat} {objects : List (Uid × LogObject)}
    (h : Builds first s objects last s') (hs : Catalogued first s)
    (hobjects : ∀ o ∈ objects, o.2.writesRow) (u v : Uid) :
    s'.row? u v = LogObject.rowAfterAll objects u v (s.row? u v) := by
  induction h with
  | refl => rfl
  | @step objects mid last m m' standing uid object h hfresh hlast hinstall position ih =>
    have hobject := hobjects _ (List.mem_append_right _ (List.mem_singleton_self _))
    rw [LogObject.rowAfterAll_append, ← ih fun o ho => hobjects o (List.mem_append_left _ ho)]
    exact (h.catalogued hs).row?_install hobject hinstall u v

/-! ### What objects that write rows name -/

namespace Builds

variable {first last : Nat} {objects : List (Uid × LogObject)} {o : Uid × LogObject} {r : Row}
  (h : Builds first s objects last s') (hs : Catalogued first s)
include h hs

/-- The version of a row is that of the row at the start or one of the objects. -/
theorem known_version (hr : s'.row? u v = some r) :
    (∃ r₀, s.row? u v = some r₀ ∧ r.version = r₀.version) ∨ ∃ o ∈ objects, o.1 = r.version := by
  rcases h.row_origin hs hr with
    ⟨r₀, hr₀, hversion | ⟨_, hmem⟩⟩ | ⟨⟨_, hcreated⟩, hversion | ⟨_, hmem⟩⟩
  · exact .inl ⟨r₀, hr₀, hversion⟩
  · exact .inr ⟨_, hmem, rfl⟩
  · exact .inr ⟨_, hcreated, hversion.symm⟩
  · exact .inr ⟨_, hmem, rfl⟩

/-- A row that is written was there at the start or is one of the objects. -/
theorem known_written (ho : o ∈ objects) (hrow : o.2.row? o.1 = some row) :
    row.place < first ∨ ∃ p ∈ objects, p.1 = row := by
  obtain ⟨earlier, mid, m, standing, m', hbuilds, hearlier, hinstall⟩ := h.mem ho
  rcases LogObject.mem_uids_of_row? hrow with rfl | hrow
  · exact .inr ⟨o, ho, rfl⟩
  · refine (hbuilds.known_uids hs hinstall row hrow).imp_right ?_
    exact fun ⟨p, hp, hrow⟩ => ⟨p, hearlier p hp, hrow⟩

variable (hwrites : ∀ o ∈ objects, o.2.writesRow)
include hwrites

/-- Writing rows makes no items. -/
theorem item_below {item : CatalogItem} (hitem : s'.get? u = some item) : u.place < first := by
  cases item with
  | table t =>
    rcases h.table_origin hs (table?_eq_some.2 hitem) with ⟨t, ht, _⟩ | ⟨_, hmem⟩
    · exact hs.below_of_table ht
    · exact absurd (hwrites _ hmem) Bool.false_ne_true
  | column c =>
    rcases h.column_origin hs (column?_eq_some.2 hitem) with ⟨c, hc, _⟩ | ⟨_, _, hmem⟩
    · exact hs.below (column?_eq_some.1 hc)
    · exact absurd (hwrites _ hmem) Bool.false_ne_true
  | index x =>
    rcases h.index_origin hs (index?_eq_some.2 hitem) with ⟨x, hx, _⟩ | hmem
    · exact hs.below (index?_eq_some.1 hx)
    · exact absurd (hwrites _ hmem) Bool.false_ne_true

/-- The tables and columns that the objects name have been there from the start. -/
theorem schema_below (ho : o ∈ objects) : ∀ u ∈ o.2.schemaUids, u.place < first := by
  obtain ⟨earlier, mid, m, standing, m', hbuilds, hearlier, hinstall⟩ := h.mem ho
  have hbelow : ∀ {u item}, m.get? u = some item → u.place < first := fun hitem =>
    hbuilds.item_below hs (fun o ho => hwrites o (hearlier o ho)) hitem
  generalize ho' : o.2 = object at hinstall
  have hwrite : object.writesRow := ho' ▸ hwrites o ho
  cases object with
  | record table fields =>
    obtain ⟨t, _, ht, htyped, _⟩ := insertRow_eq_ok.1 hinstall
    exact List.forall_mem_cons.2
      ⟨hbelow (table?_eq_some.1 ht), uids_of_typed (P := fun u => u.place < first) hbelow htyped⟩
  | update table fields row =>
    obtain ⟨t, _, _, ht, _, htyped, _⟩ := updateRow_eq_ok.1 hinstall
    exact List.forall_mem_cons.2
      ⟨hbelow (table?_eq_some.1 ht), uids_of_typed (P := fun u => u.place < first) hbelow htyped⟩
  | delete table row =>
    obtain ⟨t, _, _, ht, _⟩ := deleteRow_eq_ok.1 hinstall
    exact List.forall_mem_singleton.2 (hbelow (table?_eq_some.1 ht))
  | _ => cases hwrite

end Builds

end Snapshot

end SnapshotStore
