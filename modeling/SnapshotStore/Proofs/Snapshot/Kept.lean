import SnapshotStore.Proofs.Snapshot.Installed

/-!
# What an installed object leaves as it was

What is there after an object was installed was there before it, unless it is what the object makes.
A table keeps its name and a column its name and type if the object alters nothing in the table, an
index keeps its definition, and a row keeps its version if the object does not write it.
-/

namespace SnapshotStore

namespace LogObject

/-- Whether an object alters a table or a column of it. -/
def alters (table : Uid) : LogObject → Bool
  | alter altered _ _ _ => altered = table
  | _ => false

/-- What an object that defines something makes of its definition. -/
inductive Makes : LogObject → CatalogItem → Prop where
  | table {name : String} {t : Table} (hrows : ∀ row, t.rows.get? row = none) :
      Makes (.newTable name) (.table t)
  | column {name : String} {type : DataType} {table : Uid} {c : Column} (htable : c.table = table) :
      Makes (.newColumn name type table) (.column c)
  | index {d : IndexDefinition} {x : Index} (hdefinition : x.definition = d) :
      Makes (.newIndex d) (.index x)

end LogObject

namespace Snapshot

/-- A row of a table after an object was installed at `uid`, against the table before. -/
inductive RowKept (uid : Uid) (object : LogObject) (t : Table) (row : Uid) (r' : Row) : Prop where
  | same {r : Row} (h : t.rows.get? row = some r) (hversion : r'.version = r.version)
  | updated {r : Row} {fields : List Field} (h : t.rows.get? row = some r)
      (hobject : object = .update t.uid fields row) (hversion : r'.version = uid)
  | new {fields : List Field} (hrow : row = uid) (hobject : object = .record t.uid fields)
      (hversion : r'.version = uid)

/-- A table before and after an object was installed at `uid`. -/
structure TableKept (uid : Uid) (object : LogObject) (t t' : Table) : Prop where
  name : object.alters t.uid = false → t'.name = t.name
  rows : ∀ row r', t'.rows.get? row = some r' → RowKept uid object t row r'

theorem TableKept.of_rows {uid : Uid} {object : LogObject} {t t' : Table} (hname : t'.name = t.name)
    (hrows : t'.rows = t.rows) : TableKept uid object t t' :=
  ⟨fun _ => hname, fun _ _ hr' => .same (hrows ▸ hr') rfl⟩

/-- A column before and after an object was installed. -/
structure ColumnKept (object : LogObject) (c c' : Column) : Prop where
  table : c'.table = c.table
  definition : object.alters c.table = false → c'.name = c.name ∧ c'.type = c.type

theorem ColumnKept.refl (object : LogObject) (c : Column) : ColumnKept object c c :=
  ⟨rfl, fun _ => ⟨rfl, rfl⟩⟩

variable {bound : Nat} {s s' m : Snapshot} {standing : Standing} {u uid : Uid} {t t' : Table}
  {c c' : Column} {object : LogObject}

/-- An item after an object was installed at `uid`, against the snapshot before. -/
inductive ItemKept (uid : Uid) (object : LogObject) (s : Snapshot) (u : Uid) :
    CatalogItem → Prop where
  | table {t t' : Table} (h : s.get? u = some (.table t)) (hkept : TableKept uid object t t') :
      ItemKept uid object s u (.table t')
  | column {c c' : Column} (h : s.get? u = some (.column c)) (hkept : ColumnKept object c c') :
      ItemKept uid object s u (.column c')
  | index {x x' : Index} (h : s.get? u = some (.index x)) (hkept : x'.definition = x.definition) :
      ItemKept uid object s u (.index x')
  | new {item : CatalogItem} (hu : u = uid) (hmakes : object.Makes item) :
      ItemKept uid object s u item

theorem ItemKept.same {item : CatalogItem} (h : s.get? u = some item) :
    ItemKept uid object s u item := by
  cases item with
  | table t => exact .table h (.of_rows rfl rfl)
  | column c => exact .column h (.refl ..)
  | index x => exact .index h rfl

/-- Every item that is there afterwards was there before, or is what the object makes. -/
def Kept (uid : Uid) (object : LogObject) (s s' : Snapshot) : Prop :=
  ∀ u item, s'.get? u = some item → ItemKept uid object s u item

/-- A table is exchanged in a snapshot that has kept everything else. -/
theorem kept_setTable (hm : m.items.Lawful) (ht : s.table? u = some t) (huid : t.uid = u)
    (hsame : t'.uid = t.uid) (hkept : TableKept uid object t t')
    (hother : ∀ v item, m.get? v = some item → ItemKept uid object s v item) :
    Kept uid object s (m.setTable t') := by
  intro v item hitem
  rcases get?_setTable_cases hm hitem with ⟨heq, rfl⟩ | ⟨_, hold⟩
  · rw [hsame, huid] at heq
    exact .table (heq ▸ table?_eq_some.1 ht) hkept
  · exact hother v item hold

/-- The rows of a table are exchanged along with the trees of its indexes. -/
theorem Catalogued.kept_setRows {row : Uid} {old new : Option Row} (h : Catalogued bound s)
    (ht : s.table? u = some t) (hrekey : s.rekey t row old new = .ok m) {rows : SortedMap Uid Row}
    (hrows : ∀ v r', rows.get? v = some r' → RowKept uid object t v r') :
    Kept uid object s (m.setTable { t with rows }) := by
  have hrekeyed := h.rekeyed (table?_eq_some.1 ht) hrekey
  refine kept_setTable hrekeyed.lawful ht (h.table_uid ht) rfl ⟨fun _ => rfl, hrows⟩
    fun v item hitem => ?_
  rcases get?_of_rekeyed hrekeyed v with heq | ⟨x, tree, hold, hx⟩
  · exact .same (heq ▸ hitem)
  · rw [hx] at hitem
    cases hitem
    exact .index hold rfl

theorem get?_of_insert {row v : Uid} {r r' : Row} {rows : SortedMap Uid Row} (h : rows.Lawful)
    (hr' : (rows.insert row r).get? v = some r') :
    v = row ∧ r' = r ∨ rows.get? v = some r' := by
  by_cases heq : v = row
  · rw [heq, h.get?_insert_self] at hr'
    exact .inl ⟨heq, (Option.some.inj hr').symm⟩
  · exact .inr ((h.get?_insert_of_ne heq).symm.trans hr')

theorem Catalogued.kept_createTable {name : String} (h : Catalogued bound s)
    (hinstall : s.createTable uid name = .ok s') : Kept uid (.newTable name) s s' := by
  obtain ⟨_, rfl⟩ := createTable_eq_ok.1 hinstall
  have hitems : ({ s with names := s.names.insert name uid } : Snapshot).items.Lawful := h.items
  intro u item hitem
  rcases get?_setTable_cases hitems hitem with ⟨heq, rfl⟩ | ⟨_, hold⟩
  · exact .new heq (.table fun _ => rfl)
  · exact .same hold

theorem Catalogued.kept_createColumn {name : String} {type : DataType} {table : Uid}
    (h : Catalogued bound s) (hinstall : s.createColumn standing uid name type table = .ok s') :
    Kept uid (.newColumn name type table) s s' := by
  obtain ⟨t, ht, _, rfl⟩ := createColumn_eq_ok.1 hinstall
  have huid := h.table_uid ht
  refine kept_setTable (lawful_set h.items) ht huid rfl (.of_rows rfl rfl) fun u item hitem => ?_
  rcases get?_set_cases h.items hitem with ⟨heq, rfl⟩ | ⟨_, hold⟩
  · exact .new heq (.column huid)
  · exact .same hold

theorem Catalogued.kept_insertRow {table : Uid} {fields : List Field} (h : Catalogued bound s)
    (hinstall : s.insertRow standing uid table fields = .ok s') :
    Kept uid (.record table fields) s s' := by
  obtain ⟨t, m, ht, _, hm, rfl⟩ := insertRow_eq_ok.1 hinstall
  refine h.kept_setRows ht hm fun v r' hr' => ?_
  rcases get?_of_insert (h.rows (table?_eq_some.1 ht)).lawful hr' with ⟨hv, rfl⟩ | hr
  · exact .new hv (by rw [h.table_uid ht]) rfl
  · exact .same hr rfl

theorem Catalogued.kept_updateRow {table row : Uid} {fields : List Field} (h : Catalogued bound s)
    (hinstall : s.updateRow standing uid table fields row = .ok s') :
    Kept uid (.update table fields row) s s' := by
  obtain ⟨t, old, m, ht, hold, _, hm, rfl⟩ := updateRow_eq_ok.1 hinstall
  refine h.kept_setRows ht hm fun v r' hr' => ?_
  rcases get?_of_insert (h.rows (table?_eq_some.1 ht)).lawful hr' with ⟨rfl, rfl⟩ | hr
  · exact .updated hold (by rw [h.table_uid ht]) rfl
  · exact .same hr rfl

theorem Catalogued.kept_deleteRow {table row : Uid} (h : Catalogued bound s)
    (hinstall : s.deleteRow standing table row = .ok s') : Kept uid (.delete table row) s s' := by
  obtain ⟨t, old, m, ht, _, hm, rfl⟩ := deleteRow_eq_ok.1 hinstall
  refine h.kept_setRows ht hm fun v r' hr' => ?_
  exact .same (get?_of_get?_erase (h.rows (table?_eq_some.1 ht)).lawful hr').2 rfl

theorem Catalogued.kept_renameTable {table : Uid} {name : String} {type : Option DataType}
    (h : Catalogued bound s) (hinstall : s.renameTable standing table name = .ok s') :
    Kept uid (.alter table none name type) s s' := by
  obtain ⟨t, ht, _, rfl⟩ := renameTable_eq_ok.1 hinstall
  have huid := h.table_uid ht
  refine kept_setTable (s := s) h.items ht huid rfl
    ⟨fun halters => ?_, fun _ _ hr' => .same hr' rfl⟩ fun _ _ hitem => .same hitem
  rw [LogObject.alters, huid, decide_eq_false_iff_not] at halters
  exact absurd rfl halters

theorem Catalogued.kept_alterColumn {table column : Uid} {name : String} {type : Option DataType}
    (h : Catalogued bound s) (hinstall : s.alterColumn standing table column name type = .ok s') :
    Kept uid (.alter table (some column) name type) s s' := by
  obtain ⟨t, found, ht, hfound, _, _, rfl⟩ := alterColumn_eq_ok.1 hinstall
  obtain ⟨hget, htable⟩ := columnOf?_eq_some.1 hfound
  intro u item hitem
  rcases get?_set_cases h.items hitem with ⟨rfl, rfl⟩ | ⟨_, hold⟩
  · refine ItemKept.column hget ⟨rfl, fun halters => ?_⟩
    rw [LogObject.alters, htable, h.table_uid ht, decide_eq_false_iff_not] at halters
    exact absurd rfl halters
  · exact .same hold

theorem Catalogued.kept_dropTable {target : Uid} (h : Catalogued bound s)
    (hinstall : s.dropTable standing target = .ok s') : Kept uid (.drop target none) s s' := by
  obtain ⟨t, _, _, rfl⟩ := dropTable_eq_ok.1 hinstall
  exact fun u item hitem => .same (get?_of_erase_foldl h.items hitem)

theorem Catalogued.kept_dropColumn {table column : Uid} (h : Catalogued bound s)
    (hinstall : s.dropColumn standing table column = .ok s') :
    Kept uid (.drop column (some table)) s s' := by
  obtain ⟨t, _, ht, _, _, rfl⟩ := dropColumn_eq_ok.1 hinstall
  refine kept_setTable (lawful_erase h.items) ht (h.table_uid ht) rfl
    ⟨fun _ => rfl, fun v r' hr' => ?_⟩ fun u item hitem => ?_
  · rw [get?_rowsWithout (h.rows (table?_eq_some.1 ht))] at hr'
    obtain ⟨r, hr, rfl⟩ := Option.map_eq_some_iff.1 hr'
    exact .same hr rfl
  · exact .same (get?_of_get?_erase h.items hitem).2

theorem Catalogued.kept_createIndex {d : IndexDefinition} (h : Catalogued bound s)
    (hinstall : s.createIndex standing uid d = .ok s') : Kept uid (.newIndex d) s s' := by
  obtain ⟨t, tree, x, ht, _, _, _, _, _, _, hx, rfl⟩ := createIndex_eq_ok.1 hinstall
  obtain ⟨hxuid, hdefinition⟩ := indexRow_fold hx
  refine kept_setTable (lawful_set h.items) ht (h.table_uid ht) rfl (.of_rows rfl rfl)
    fun u item hitem => ?_
  rcases get?_set_cases h.items hitem with ⟨heq, rfl⟩ | ⟨_, hold⟩
  · exact .new (heq.trans hxuid) (.index hdefinition)
  · exact .same hold

theorem Catalogued.kept_dropIndex {table : Uid} {columns : List Uid} (h : Catalogued bound s)
    (hinstall : s.dropIndex standing table columns = .ok s') :
    Kept uid (.dropIndex table columns) s s' := by
  obtain ⟨t, x, ht, _, _, rfl⟩ := dropIndex_eq_ok.1 hinstall
  exact kept_setTable (lawful_erase h.items) ht (h.table_uid ht) rfl (.of_rows rfl rfl)
    fun u item hitem => .same (get?_of_get?_erase h.items hitem).2

theorem Catalogued.kept_install (h : Catalogued bound s)
    (hinstall : s.install standing uid object = .ok s') : Kept uid object s s' := by
  cases object with
  | newTable name => exact h.kept_createTable hinstall
  | newColumn name type table => exact h.kept_createColumn hinstall
  | record table fields => exact h.kept_insertRow hinstall
  | update table fields row => exact h.kept_updateRow hinstall
  | delete table row => exact h.kept_deleteRow hinstall
  | alter table column name type =>
    cases column with
    | none => exact h.kept_renameTable hinstall
    | some column => exact h.kept_alterColumn hinstall
  | drop target parent =>
    cases parent with
    | none => exact h.kept_dropTable hinstall
    | some table => exact h.kept_dropColumn hinstall
  | newIndex definition => exact h.kept_createIndex hinstall
  | dropIndex table columns => exact h.kept_dropIndex hinstall

end Snapshot

end SnapshotStore
