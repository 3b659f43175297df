import SnapshotStore.Proofs.Snapshot.Frame
import SnapshotStore.Proofs.Snapshot.Rows

/-!
# What is written stays

An object that writes a row gives it the fields that are left of a list. They stay as they are until
another object writes the row or drops the column or the table. Both go along with new identifiers
that keep those in question apart.
-/

namespace SnapshotStore

variable {fields : List Field} {column uid table row : Uid}

/-! ### Objects that write fields -/

namespace LogObject

variable {object : LogObject} {f : Uid → Uid} {P : Uid → Prop}

/-- The table, the row and the fields that an object at `uid` writes. -/
def writes? (uid : Uid) : LogObject → Option (Uid × Uid × List Field)
  | record table fields => some (table, uid, fields)
  | update table fields row => some (table, row, fields)
  | _ => none

/-- An object that neither writes a row of a table nor drops a column of it or the table. -/
structure Spares (uid table row column : Uid) (object : LogObject) : Prop where
  unwritten : object.row? uid ≠ some row
  keepsTable : object ≠ .drop table none
  keepsColumn : object ≠ .drop column (some table)

theorem writes?_mapUids (h : object.writes? uid = some (table, row, fields)) (f : Uid → Uid) :
    (object.mapUids f).writes? (f uid) =
      some (f table, f row, fields.map fun (column, value) => (f column, value)) := by
  cases object with
  | record | update =>
    cases h
    rfl
  | _ => cases h

theorem mem_uids_of_writes? (h : object.writes? uid = some (table, row, fields)) :
    table ∈ object.uids ∧ (row = uid ∨ row ∈ object.uids) ∧
      ∀ field ∈ fields, field.1 ∈ object.uids := by
  cases object with
  | record =>
    cases h
    exact ⟨List.mem_cons_self, .inl rfl, fun field hfield =>
      List.mem_cons_of_mem _ (List.mem_map_of_mem hfield)⟩
  | update =>
    cases h
    exact ⟨List.mem_cons_self, .inr (List.mem_cons_of_mem _ List.mem_cons_self),
      fun field hfield =>
        List.mem_cons_of_mem _ (List.mem_cons_of_mem _ (List.mem_map_of_mem hfield))⟩
  | _ => cases h

theorem drop_of_mapUids {target : Uid} {parent : Option Uid}
    (h : object.mapUids f = .drop target parent) :
    ∃ old oldParent, object = .drop old oldParent ∧ f old = target ∧ oldParent.map f = parent := by
  cases object with
  | drop old oldParent =>
    cases h
    exact ⟨old, oldParent, rfl, rfl, rfl⟩
  | newIndex d => cases h
  | _ => cases h

/-- Sparing a field goes along with new identifiers that keep those in question apart. -/
theorem Spares.mapUids (h : object.Spares uid table row column)
    (hf : ∀ {u v}, P u → P v → f u = f v → u = v) (huid : P uid) (huids : ∀ u ∈ object.uids, P u)
    (htable : P table) (hrow : P row) (hcolumn : P column) :
    (object.mapUids f).Spares (f uid) (f table) (f row) (f column) := by
  constructor
  · rw [row?_mapUids]
    intro hwritten
    obtain ⟨u, hu, heq⟩ := Option.map_eq_some_iff.1 hwritten
    have hknown : P u := (mem_uids_of_row? hu).elim (fun heq => heq ▸ huid) (huids u)
    exact h.unwritten (hf hknown hrow heq ▸ hu)
  · intro hdrop
    obtain ⟨target, parent, rfl, htarget, hparent⟩ := drop_of_mapUids hdrop
    cases Option.map_eq_none_iff.1 hparent
    exact h.keepsTable (hf (huids target List.mem_cons_self) htable htarget ▸ rfl)
  · intro hdrop
    obtain ⟨target, parent, rfl, htarget, hparent⟩ := drop_of_mapUids hdrop
    obtain ⟨parent, rfl, hsame⟩ := Option.map_eq_some_iff.1 hparent
    have hmem : parent ∈ (LogObject.drop target (some parent)).uids :=
      List.mem_cons_of_mem _ List.mem_cons_self
    refine h.keepsColumn ?_
    rw [hf (huids target List.mem_cons_self) hcolumn htarget, hf (huids parent hmem) htable hsame]

end LogObject

namespace Snapshot

variable {bound first last : Nat} {s s' m : Snapshot} {standing : Standing} {t : Table} {r : Row}
  {object : LogObject} {objects before after : List (Uid × LogObject)} {o : Uid × LogObject}

/-- The row that an object writes has the fields that are left of the list. -/
theorem Catalogued.row?_of_writes (h : Catalogued bound s)
    (hinstall : s.install standing uid object = .ok s')
    (hwrites : object.writes? uid = some (table, row, fields)) :
    s'.row? table row = some ⟨row, uid, keptFields fields⟩ := by
  cases object with
  | record =>
    cases hwrites
    rw [h.row?_install rfl hinstall]
    exact if_pos ⟨rfl, rfl⟩
  | update =>
    cases hwrites
    rw [h.row?_install rfl hinstall]
    exact if_pos ⟨rfl, rfl⟩
  | _ => cases hwrites

theorem row?_setTable (hm : m.items.Lawful) (ht : t.uid = table) (row : Uid) :
    (m.setTable t).row? table row = t.rows.get? row := by
  subst ht
  exact row?_of_table (table?_eq_some.2 (get?_set_self hm)) row

/-- An object that spares a field of a row leaves it as it is. -/
theorem Catalogued.field_install (h : Catalogued bound s) (hfresh : s.get? uid = none)
    (hinstall : s.install standing uid object = .ok s')
    (hspares : object.Spares uid table row column) (hr : s.row? table row = some r) :
    ∃ r', s'.row? table row = some r' ∧ r'.get column = r.get column := by
  obtain ⟨t, ht, hrow⟩ := row?_eq_some.1 hr
  have huid : t.uid = table := h.table_uid ht
  have hset : ∀ {m : Snapshot} {t' : Table} {r' : Row}, m.items.Lawful → t'.uid = t.uid →
      t'.rows.get? row = some r' → (m.setTable t').row? table row = some r' := by
    intro m t' r' hm hsame hr'
    rw [row?_setTable hm (hsame.trans huid), hr']
  by_cases hsubject : table = object.subject uid
  · cases object with
    | newTable name =>
      obtain rfl : table = uid := hsubject
      exact absurd (table?_eq_some.1 ht) (hfresh ▸ nofun)
    | record | update | delete =>
      refine ⟨r, ?_, rfl⟩
      rw [h.row?_install rfl hinstall, LogObject.rowAfter_of_unwritten _ hspares.unwritten, hr]
    | newColumn name type extended =>
      obtain rfl : table = extended := hsubject
      obtain ⟨_, ht', _, rfl⟩ := createColumn_eq_ok.1 hinstall
      cases ht.symm.trans ht'
      exact ⟨r, hset (lawful_set h.items) rfl hrow, rfl⟩
    | alter altered changed name type =>
      obtain rfl : table = altered := hsubject
      cases changed with
      | none =>
        obtain ⟨_, ht', _, rfl⟩ := renameTable_eq_ok.1 hinstall
        cases ht.symm.trans ht'
        exact ⟨r, hset h.items rfl hrow, rfl⟩
      | some changed =>
        obtain ⟨_, c, _, hc, _, _, rfl⟩ := alterColumn_eq_ok.1 hinstall
        have hne : table ≠ changed := by
          rintro rfl
          cases (table?_eq_some.1 ht).symm.trans (columnOf?_eq_some.1 hc).1
        refine ⟨r, ?_, rfl⟩
        rw [row?, table?_congr (get?_set_of_ne h.items hne)]
        exact hr
    | drop target parent =>
      cases parent with
      | none =>
        obtain rfl : table = target := hsubject
        exact absurd rfl hspares.keepsTable
      | some parent =>
        obtain rfl : table = parent := hsubject
        obtain ⟨_, _, ht', _, _, rfl⟩ := dropColumn_eq_ok.1 hinstall
        cases ht.symm.trans ht'
        have hrows := h.rows (table?_eq_some.1 ht)
        have hne : column ≠ target := fun heq => hspares.keepsColumn (heq ▸ rfl)
        refine ⟨{ r with fields := r.fields.erase target }, ?_, ?_⟩
        · refine hset (lawful_erase h.items) rfl ?_
          rw [get?_rowsWithout hrows, hrow]
          rfl
        · rw [Row.get, Row.get, (hrows.fields hrow).get?_erase_of_ne hne]
    | newIndex d =>
      obtain rfl : table = d.table := hsubject
      obtain ⟨_, _, _, ht', _, _, _, _, _, _, _, rfl⟩ := createIndex_eq_ok.1 hinstall
      cases ht.symm.trans ht'
      exact ⟨r, hset (lawful_set h.items) rfl hrow, rfl⟩
    | dropIndex indexed columns =>
      obtain rfl : table = indexed := hsubject
      obtain ⟨_, _, ht', _, _, rfl⟩ := dropIndex_eq_ok.1 hinstall
      cases ht.symm.trans ht'
      exact ⟨r, hset (lawful_erase h.items) rfl hrow, rfl⟩
  · have howner : (CatalogItem.table t).owner ≠ object.subject uid :=
      fun heq => hsubject (huid.symm.trans heq)
    have ht' := ((h.touches_install hfresh hinstall).get?_iff howner).2 (table?_eq_some.1 ht)
    exact ⟨r, row?_eq_some.2 ⟨t, table?_eq_some.2 ht', hrow⟩, rfl⟩

/-- What one of the objects has written into a field of a row is there at the end if those behind it
spare the field. -/
theorem Builds.field_of_writes (h : Builds first s objects last s') (hs : Catalogued first s)
    (hobjects : objects = before ++ o :: after)
    (hwrites : o.2.writes? o.1 = some (table, row, fields))
    (hspares : ∀ p ∈ after, p.2.Spares p.1 table row column) :
    ∃ r, s'.row? table row = some r ∧ r.get column = (lastGiven? fields column).getD .null := by
  induction h generalizing after with
  | refl => exact absurd hobjects.symm (List.append_ne_nil_of_right_ne_nil _ (List.cons_ne_nil _ _))
  | @step objects mid last m m' standing uid object h hfresh hlast hinstall position ih =>
    have hcatalogued := h.catalogued hs
    -- The last object has written the field itself, or it spares what is there already.
    rcases List.eq_nil_or_concat after with rfl | ⟨after, final, rfl⟩
    · obtain ⟨rfl, heq⟩ := List.append_inj' hobjects rfl
      cases heq
      have hwritten : m'.row? table row = some ⟨row, uid, keptFields fields⟩ :=
        hcatalogued.row?_of_writes hinstall hwrites
      refine ⟨_, hwritten, ?_⟩
      rw [Row.get, get?_keptFields]
    · rw [List.concat_eq_append] at hobjects hspares
      rw [← List.cons_append, ← List.append_assoc] at hobjects
      obtain ⟨hfront, heq⟩ := List.append_inj' hobjects rfl
      cases heq
      obtain ⟨r, hr, hread⟩ := ih hfront fun p hp => hspares p (List.mem_append_left _ hp)
      have hfinal := hspares _ (List.mem_append_right _ (List.mem_singleton_self _))
      obtain ⟨r', hr', hsame⟩ :=
        hcatalogued.field_install (hcatalogued.get?_fresh hfresh) hinstall hfinal hr
      exact ⟨r', hr', hsame.trans hread⟩

end Snapshot

end SnapshotStore
