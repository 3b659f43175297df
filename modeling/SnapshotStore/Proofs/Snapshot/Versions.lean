import SnapshotStore.Catalog.Conflict
import SnapshotStore.Proofs.Snapshot.Building

/-!
# Versions of rows

The version of a row tells which object wrote it last. What an object makes of the versions in a
table can be said without the rest of the snapshot, so the versions after any number of objects are
a fold over them.
-/

namespace SnapshotStore

/-- The version of a row, or none if the table does not have it. -/
def Table.version? (t : Table) (row : Uid) : Option Uid := (t.rows.get? row).map (·.version)

namespace LogObject

variable {uid table row : Uid} {object : LogObject}

/-- The version of a row of a table after an object at `uid`. -/
def versionAfter (uid table row : Uid) (before : Option Uid) : LogObject → Option Uid
  | record written _ => if written = table ∧ uid = row then some uid else before
  | update written _ updated => if written = table ∧ updated = row then some uid else before
  | delete written deleted => if written = table ∧ deleted = row then none else before
  | _ => before

/-- Only an object that writes a row of the table changes its version. -/
theorem versionAfter_of_unwritten (before : Option Uid)
    (h : object.row? uid = some row → object.table? ≠ some table) :
    object.versionAfter uid table row before = before := by
  cases object with
  | record | update | delete =>
    exact if_neg fun ⟨htable, hrow⟩ => h (congrArg some hrow) (congrArg some htable)
  | _ => rfl

theorem foldl_versionAfter_of_unwritten {objects : List (Uid × LogObject)} (before : Option Uid)
    (h : ∀ o ∈ objects, o.2.row? o.1 = some row → o.2.table? ≠ some table) :
    objects.foldl (fun before o => o.2.versionAfter o.1 table row before) before = before := by
  induction objects with
  | nil => rfl
  | cons o objects ih =>
    rw [List.foldl_cons, versionAfter_of_unwritten before (h o List.mem_cons_self)]
    exact ih fun o ho => h o (List.mem_cons_of_mem _ ho)

end LogObject

namespace Snapshot

variable {bound first last : Nat} {s s' m : Snapshot} {standing : Standing} {u uid v : Uid}
  {t t' written changed : Table} {object : LogObject} {objects : List (Uid × LogObject)}

theorem version?_insert {row : Uid} (h : t.rows.Lawful) (r : Row) :
    ({ t with rows := t.rows.insert row r } : Table).version? v =
      if v = row then some r.version else t.version? v := by
  rw [Table.version?, h.get?_insert]
  split <;> rfl

theorem version?_erase {row : Uid} (h : t.rows.Lawful) :
    ({ t with rows := t.rows.erase row } : Table).version? v =
      if v = row then none else t.version? v := by
  rw [Table.version?, SortedMap.Lawful.get?_erase h]
  split <;> rfl

theorem version?_without {column : Uid} {columns : List Uid} (h : RowsKept bound t.rows) :
    ({ t with columns, rows := rowsWithout t column } : Table).version? v = t.version? v := by
  rw [Table.version?, get?_rowsWithout h, Option.map_map]
  rfl

/-- Where one table is exchanged and no other is touched, a table is that one or as it was. -/
theorem table_of_setTable (ht' : (m.setTable changed).table? u = some t') (ht : s.table? u = some t)
    (hwritten : s.table? uid = some written) (huid : written.uid = uid)
    (hsame : changed.uid = written.uid) (hm : m.items.Lawful)
    (hother : ∀ {w t'}, m.table? w = some t' → s.table? w = some t') :
    u = uid ∧ t = written ∧ t' = changed ∨ u ≠ uid ∧ t' = t := by
  rcases get?_setTable_cases hm (table?_eq_some.1 ht') with ⟨heq, hfound⟩ | ⟨hne, hold⟩
  · rw [hsame, huid] at heq
    rw [heq, hwritten] at ht
    exact .inl ⟨heq, (Option.some.inj ht).symm, CatalogItem.table.inj hfound⟩
  · rw [hsame, huid] at hne
    have hold := hother (table?_eq_some.2 hold)
    rw [ht] at hold
    exact .inr ⟨hne, (Option.some.inj hold).symm⟩

/-- If the exchanged table keeps the versions of its rows, all tables do. -/
theorem version?_of_setTable (ht' : (m.setTable changed).table? u = some t')
    (ht : s.table? u = some t) (hwritten : s.table? uid = some written) (huid : written.uid = uid)
    (hsame : changed.uid = written.uid) (hm : m.items.Lawful)
    (hother : ∀ {w t'}, m.table? w = some t' → s.table? w = some t')
    (hversions : changed.version? v = written.version? v) : t'.version? v = t.version? v := by
  rcases table_of_setTable ht' ht hwritten huid hsame hm hother with ⟨_, rfl, rfl⟩ | ⟨_, rfl⟩
  · exact hversions
  · rfl

theorem table?_of_set {item : CatalogItem} (h : s.items.Lawful)
    (ht : (s.set uid item).table? u = some t) (hitem : ∀ t, item ≠ .table t) :
    s.table? u = some t := by
  rcases get?_set_cases h (table?_eq_some.1 ht) with ⟨_, heq⟩ | ⟨_, hold⟩
  · exact absurd heq.symm (hitem t)
  · exact table?_eq_some.2 hold

theorem table?_of_setIndex {x : Index} (h : s.items.Lawful)
    (ht : (s.setIndex x).table? u = some t) : s.table? u = some t :=
  table?_of_set h ht fun _ heq => nomatch heq

theorem table?_of_erase (h : s.items.Lawful) (ht : (s.erase uid).table? u = some t) :
    s.table? u = some t :=
  table?_eq_some.2 (get?_of_get?_erase h (table?_eq_some.1 ht)).2

/-- The rows of a table are exchanged along with the trees of its indexes. -/
theorem Catalogued.version_setRows {table row : Uid} {old new : Option Row}
    {rows : SortedMap Uid Row} {after : Option Uid} (h : Catalogued bound s)
    (ht' : (m.setTable { written with rows }).table? u = some t') (ht : s.table? u = some t)
    (hwritten : s.table? table = some written) (hrekey : s.rekey written row old new = .ok m)
    (hrow : ({ written with rows } : Table).version? v =
      if v = row then after else written.version? v) :
    t'.version? v = if table = u ∧ row = v then after else t.version? v := by
  have hrekeyed := h.rekeyed (table?_eq_some.1 hwritten) hrekey
  rcases table_of_setTable ht' ht hwritten (h.table_uid hwritten) rfl hrekeyed.lawful
    (fun hw => (hrekeyed.table?_eq _).symm.trans hw) with ⟨hu, rfl, rfl⟩ | ⟨hne, rfl⟩
  · rw [hrow]
    exact ite_congr (propext ⟨fun hv => ⟨hu.symm, hv.symm⟩, fun hv => hv.2.symm⟩) (fun _ => rfl)
      fun _ => rfl
  · exact (if_neg fun heq => hne heq.1.symm).symm

/-- What one object makes of the versions in a table that stays. -/
theorem Catalogued.version_install (h : Catalogued bound s) (hfresh : bound ≤ uid.place)
    (hinstall : s.install standing uid object = .ok s') (ht : s.table? u = some t)
    (ht' : s'.table? u = some t') :
    t'.version? v = object.versionAfter uid u v (t.version? v) := by
  have hrows : ∀ {w found}, s.table? w = some found → RowsKept bound found.rows :=
    fun hfound => h.rows (table?_eq_some.1 hfound)
  cases object with
  | newTable name =>
    obtain ⟨_, rfl⟩ := createTable_eq_ok.1 hinstall
    have hitems : ({ s with names := s.names.insert name uid } : Snapshot).items.Lawful := h.items
    rcases get?_setTable_cases hitems (table?_eq_some.1 ht') with ⟨heq, _⟩ | ⟨_, hold⟩
    · rw [table?_eq_some, heq, h.get?_fresh hfresh] at ht
      cases ht
    · have hold : s.table? u = some t' := table?_eq_some.2 hold
      rw [ht] at hold
      cases hold
      rfl
  | newColumn name type table =>
    obtain ⟨found, hfound, _, rfl⟩ := createColumn_eq_ok.1 hinstall
    exact version?_of_setTable ht' ht hfound (h.table_uid hfound) rfl (lawful_set h.items)
      (fun hset => table?_of_set h.items hset fun _ heq => nomatch heq) rfl
  | record table fields =>
    obtain ⟨found, m, hfound, _, hrekey, rfl⟩ := insertRow_eq_ok.1 hinstall
    exact h.version_setRows ht' ht hfound hrekey (version?_insert (hrows hfound).lawful _)
  | update table fields row =>
    obtain ⟨found, _, m, hfound, _, _, hrekey, rfl⟩ := updateRow_eq_ok.1 hinstall
    exact h.version_setRows ht' ht hfound hrekey (version?_insert (hrows hfound).lawful _)
  | delete table row =>
    obtain ⟨found, _, m, hfound, _, hrekey, rfl⟩ := deleteRow_eq_ok.1 hinstall
    exact h.version_setRows ht' ht hfound hrekey (version?_erase (hrows hfound).lawful)
  | alter table column name type =>
    cases column with
    | none =>
      obtain ⟨found, hfound, _, rfl⟩ := renameTable_eq_ok.1 hinstall
      exact version?_of_setTable ht' ht hfound (h.table_uid hfound) rfl h.items (fun h => h) rfl
    | some column =>
      obtain ⟨_, found, _, _, _, _, rfl⟩ := alterColumn_eq_ok.1 hinstall
      rw [table?_of_set h.items ht' fun _ heq => nomatch heq] at ht
      cases ht
      rfl
  | drop target parent =>
    cases parent with
    | none =>
      obtain ⟨found, _, _, rfl⟩ := dropTable_eq_ok.1 hinstall
      have hold := get?_of_erase_foldl h.items (table?_eq_some.1 ht')
      rw [table?_eq_some.1 ht] at hold
      cases hold
      rfl
    | some table =>
      obtain ⟨found, _, hfound, _, _, rfl⟩ := dropColumn_eq_ok.1 hinstall
      exact version?_of_setTable ht' ht hfound (h.table_uid hfound) rfl (lawful_erase h.items)
        (table?_of_erase h.items) (version?_without (hrows hfound))
  | newIndex d =>
    obtain ⟨found, _, _, hfound, _, _, _, _, _, _, _, rfl⟩ := createIndex_eq_ok.1 hinstall
    exact version?_of_setTable ht' ht hfound (h.table_uid hfound) rfl (lawful_set h.items)
      (table?_of_setIndex h.items) rfl
  | dropIndex table columns =>
    obtain ⟨found, _, hfound, _, _, rfl⟩ := dropIndex_eq_ok.1 hinstall
    exact version?_of_setTable ht' ht hfound (h.table_uid hfound) rfl (lawful_erase h.items)
      (table?_of_erase h.items) rfl

/-- What any number of objects make of the versions in a table that stays. -/
theorem Builds.versions (h : Builds first s objects last s') (hs : Catalogued first s)
    (ht : s.table? u = some t) (ht' : s'.table? u = some t') (row : Uid) :
    t'.version? row =
      objects.foldl (fun before o => o.2.versionAfter o.1 u row before) (t.version? row) := by
  induction h generalizing t' with
  | refl =>
    rw [ht] at ht'
    cases ht'
    rfl
  | @step objects mid last m m' standing uid object h hfresh hlast hinstall position ih =>
    have hcatalogued := h.catalogued hs
    have hne : u ≠ uid := fun heq =>
      absurd (heq ▸ hs.below_of_table ht) (Nat.not_lt.2 (Nat.le_trans h.first_le hfresh))
    cases hcatalogued.kept_install hinstall u _ (table?_eq_some.1 ht') with
    | table hbefore _ =>
      have hbefore := table?_eq_some.2 hbefore
      rw [List.foldl_append, List.foldl_cons, List.foldl_nil, ← ih hbefore]
      exact hcatalogued.version_install hfresh hinstall hbefore ht'
    | new heq _ => exact absurd heq hne

/-- Rows that none of the objects wrote keep their versions, and rows that were missing stay so. -/
theorem Builds.version_eq (h : Builds first s objects last s') (hs : Catalogued first s)
    (ht : s.table? u = some t) (ht' : s'.table? u = some t') {row : Uid}
    (hunwritten : ∀ o ∈ objects, o.2.row? o.1 = some row → o.2.table? ≠ some u) :
    t'.version? row = t.version? row := by
  rw [h.versions hs ht ht', LogObject.foldl_versionAfter_of_unwritten _ hunwritten]

end Snapshot

end SnapshotStore
