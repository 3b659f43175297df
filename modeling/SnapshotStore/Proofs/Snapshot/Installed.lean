import SnapshotStore.Proofs.Log.RoundTrip
import SnapshotStore.Proofs.Snapshot.Catalogue

/-!
# Installing keeps the catalogue linked

Installing an object at a place that no identifier has reached keeps the catalogue in order,
whatever the kind of the object. It succeeds only if all identifiers in the object are among those
that are there, so that none of them can reach the place of the object.
-/

namespace SnapshotStore.Snapshot

variable {bound : Nat} {s s' m : Snapshot} {standing : Standing} {u uid : Uid} {t : Table}
  {x : Index} {object : LogObject}

/-! ### Rows -/

/-- The rows of a table change along with the trees of its indexes. -/
theorem Catalogued.setRows {row : Uid} {old new : Option Row} (h : Catalogued bound s)
    (ht : s.table? u = some t) (hrekey : s.rekey t row old new = .ok m) {rows : SortedMap Uid Row}
    (hrows : RowsKept bound rows) : Catalogued bound (m.setTable { t with rows }) := by
  have htable := table?_eq_some.1 ht
  have hrekeyed := h.rekeyed htable hrekey
  have hmt : m.get? u = some (.table t) := by
    rw [hrekeyed.kept u, htable]
    rw [index?, htable]
  have huid := h.table_uid ht
  rw [setTable, show ({ t with rows } : Table).uid = u from huid]
  exact (h.of_rekeyed hrekeyed).set hmt rfl rfl fun other hother => CatalogItem.table.inj hother ▸
    hrows

theorem Catalogued.insertRow {table : Uid} {fields : List Field} (h : Catalogued bound s)
    (hfresh : bound ≤ uid.place) (hinstall : s.insertRow standing uid table fields = .ok s') :
    Catalogued (uid.place + 1) s' := by
  obtain ⟨t, m, ht, _, hm, rfl⟩ := insertRow_eq_ok.1 hinstall
  have hmore := h.mono (Nat.le_succ_of_le hfresh)
  exact hmore.setRows ht hm ((hmore.rows (table?_eq_some.1 ht)).insert rfl (Nat.lt_succ_self _)
    (lawful_keptFields fields))

theorem Catalogued.updateRow {table row : Uid} {fields : List Field} (h : Catalogued bound s)
    (hinstall : s.updateRow standing uid table fields row = .ok s') : Catalogued bound s' := by
  obtain ⟨t, old, m, ht, hold, _, hm, rfl⟩ := updateRow_eq_ok.1 hinstall
  have hrows := h.rows (table?_eq_some.1 ht)
  exact h.setRows ht hm (hrows.insert rfl (hrows.below hold) (lawful_keptFields fields))

theorem Catalogued.deleteRow {table row : Uid} (h : Catalogued bound s)
    (hinstall : s.deleteRow standing table row = .ok s') : Catalogued bound s' := by
  obtain ⟨t, old, m, ht, _, hm, rfl⟩ := deleteRow_eq_ok.1 hinstall
  exact h.setRows ht hm ((h.rows (table?_eq_some.1 ht)).erase row)

/-! ### Tables and columns -/

theorem Catalogued.createTable {name : String} (h : Catalogued bound s) (hfresh : bound ≤ uid.place)
    (hinstall : s.createTable uid name = .ok s') : Catalogued (uid.place + 1) s' := by
  obtain ⟨_, rfl⟩ := createTable_eq_ok.1 hinstall
  have hnone : s.links uid = none := by rw [links, h.get?_fresh hfresh, Option.map_none]
  have hitems : ({ s with names := s.names.insert name uid } : Snapshot).items.Lawful := h.items
  refine h.of_changes (Nat.le_succ_of_le hfresh) (lawful_set hitems) (h.names.insert name uid) ?_
    fun v item hv => ?_
  · exact h.linked.addTable hnone fun v => links_set hitems v
  · rcases get?_setTable_cases hitems hv with ⟨rfl, rfl⟩ | ⟨_, hold⟩
    · exact .inr ⟨rfl, Nat.lt_succ_self _, fun t ht => CatalogItem.table.inj ht ▸ rowsKept_empty⟩
    · exact .inl hold

theorem Catalogued.createColumn {name : String} {type : DataType} {table : Uid}
    (h : Catalogued bound s) (hfresh : bound ≤ uid.place)
    (hinstall : s.createColumn standing uid name type table = .ok s') :
    Catalogued (uid.place + 1) s' := by
  obtain ⟨t, ht, _, rfl⟩ := createColumn_eq_ok.1 hinstall
  have huid := h.table_uid ht
  have hget := table?_eq_some.1 ht
  have hnone := h.get?_fresh hfresh
  have hne : table ≠ uid := fun heq => by
    rw [← heq, hget] at hnone
    cases hnone
  have hitems : (s.set uid (.column ⟨uid, name, type, t.uid⟩)).items.Lawful := lawful_set h.items
  refine h.of_changes (Nat.le_succ_of_le hfresh) (lawful_set hitems) h.names ?_ fun v item hv => ?_
  · refine h.linked.addColumn (t := table) (by rw [links, hnone, Option.map_none])
      (links_of_get? hget) fun v => ?_
    rw [setTable, links_set hitems, links_set h.items,
      show ({ t with columns := t.columns ++ [uid] } : Table).uid = table from huid]
    grind [CatalogItem.link]
  · rcases get?_setTable_cases hitems hv with ⟨heq, rfl⟩ | ⟨_, hold⟩
    · have hvt : v = table := heq.trans huid
      refine .inr ⟨heq.symm, Nat.lt_succ_of_lt (Nat.lt_of_lt_of_le (hvt ▸ h.below hget) hfresh),
        fun other hother => ?_⟩
      rw [← CatalogItem.table.inj hother]
      exact (h.rows hget).mono (Nat.le_succ_of_le hfresh)
    · rcases get?_set_cases h.items hold with ⟨rfl, rfl⟩ | ⟨_, hold⟩
      · refine .inr ⟨rfl, Nat.lt_succ_self _, fun _ hother => ?_⟩
        cases hother
      · exact .inl hold

theorem Catalogued.renameTable {table : Uid} {name : String} (h : Catalogued bound s)
    (hinstall : s.renameTable standing table name = .ok s') : Catalogued bound s' := by
  obtain ⟨t, ht, _, rfl⟩ := renameTable_eq_ok.1 hinstall
  have huid := h.table_uid ht
  have hnames : Catalogued bound { s with names := (s.names.erase t.name).insert name table } :=
    ⟨h.items, (SortedMap.Lawful.erase h.names t.name).insert name table, h.own, h.below, h.linked,
      h.rows⟩
  rw [setTable, show ({ t with name } : Table).uid = table from huid]
  exact hnames.set (table?_eq_some.1 ht) rfl rfl fun other hother => CatalogItem.table.inj hother ▸
    (h.rows (table?_eq_some.1 ht) : RowsKept bound t.rows)

theorem Catalogued.alterColumn {table column : Uid} {name : String} {type : Option DataType}
    (h : Catalogued bound s) (hinstall : s.alterColumn standing table column name type = .ok s') :
    Catalogued bound s' := by
  obtain ⟨t, found, _, hfound, _, _, rfl⟩ := alterColumn_eq_ok.1 hinstall
  obtain ⟨hget, _⟩ := columnOf?_eq_some.1 hfound
  exact h.set hget (h.own hget : found.uid = column) rfl fun _ hother => nomatch hother

/-! ### Drops -/

/-- A table without one of its columns or indexes. -/
theorem Catalogued.detach {t' : Table} (h : Catalogued bound s) (ht : s.table? u = some t)
    (huid : t'.uid = t.uid) (hrows : RowsKept bound t'.rows)
    (hlinked : Linked ((s.erase uid).setTable t').links) :
    Catalogued bound ((s.erase uid).setTable t') := by
  refine h.of_changes (Nat.le_refl _) (lawful_set (lawful_erase h.items)) h.names hlinked
    fun v item hv => ?_
  rcases get?_setTable_cases (lawful_erase h.items) hv with ⟨heq, rfl⟩ | ⟨_, hold⟩
  · have hvu : v = u := heq.trans (huid.trans (h.table_uid ht))
    exact .inr ⟨heq.symm, hvu ▸ h.below (table?_eq_some.1 ht),
      fun other hother => CatalogItem.table.inj hother ▸ hrows⟩
  · exact .inl (get?_of_get?_erase h.items hold).2

theorem Catalogued.dropColumn {table : Uid} (h : Catalogued bound s)
    (hinstall : s.dropColumn standing table uid = .ok s') : Catalogued bound s' := by
  obtain ⟨t, column, ht, hcolumn, hfree, rfl⟩ := dropColumn_eq_ok.1 hinstall
  have huid := h.table_uid ht
  have hget := table?_eq_some.1 ht
  obtain ⟨hcolumnget, hcolumntable⟩ := columnOf?_eq_some.1 hcolumn
  refine h.detach ht rfl ((h.rows hget).without uid) ?_
  refine h.linked.dropColumn (t := table) (u := uid) (links_of_get? hget) ?_ (fun v d hv hd => ?_)
    fun v => ?_
  · rw [links_of_get? hcolumnget, CatalogItem.link, hcolumntable, huid]
  · obtain ⟨x, hx, rfl⟩ := links_eq_index hv
    refine hfree x (mem_indexes.2 ⟨t, by rw [huid]; exact ht, v, ?_, index?_eq_some.2 hx⟩)
    exact (h.linked.mem_indexes (links_of_get? hget) v).2 ⟨_, hv, hd⟩
  · have hne : table ≠ uid := fun heq => by
      rw [heq, hcolumnget] at hget
      cases hget
    rw [setTable, links_set (lawful_erase h.items), links_erase h.items,
      show ({ t with
        columns := t.columns.filter (· ≠ uid)
        rows := rowsWithout t uid } : Table).uid = table from huid]
    grind [CatalogItem.link]

theorem Catalogued.dropIndex {table : Uid} {columns : List Uid} (h : Catalogued bound s)
    (hinstall : s.dropIndex standing table columns = .ok s') : Catalogued bound s' := by
  obtain ⟨t, x, ht, hx, _, rfl⟩ := dropIndex_eq_ok.1 hinstall
  have huid := h.table_uid ht
  have hget := table?_eq_some.1 ht
  obtain ⟨t', ht', v, hv, hxv⟩ := mem_indexes.1 (List.mem_of_find?_eq_some hx)
  rw [huid, ht] at ht'
  cases ht'
  have hxuid := h.index_uid hxv
  have hxget := index?_eq_some.1 hxv
  obtain ⟨d, hd, hdtable⟩ := (h.linked.mem_indexes (links_of_get? hget) v).1 hv
  rw [links_of_get? hxget, Option.some.injEq, CatalogItem.link, Link.index.injEq] at hd
  subst hd
  refine h.detach ht rfl (h.rows hget : RowsKept bound t.rows) ?_
  have htlink : s.links x.definition.table = some (.table t.columns t.indexes) := by
    rw [hdtable]
    exact links_of_get? hget
  refine h.linked.dropIndex (d := x.definition) (u := v) htlink (links_of_get? hxget) fun w => ?_
  · have hne : table ≠ v := fun heq => by
      rw [heq, hxget] at hget
      cases hget
    rw [setTable, links_set (lawful_erase h.items), links_erase h.items, hxuid, hdtable,
      show ({ t with indexes := t.indexes.filter (· ≠ v) } : Table).uid = table from huid]
    grind [CatalogItem.link]

theorem Catalogued.dropTable (h : Catalogued bound s)
    (hinstall : s.dropTable standing uid = .ok s') : Catalogued bound s' := by
  obtain ⟨t, ht, _, rfl⟩ := dropTable_eq_ok.1 hinstall
  obtain ⟨hitems, hnames, _⟩ := foldl_erase h.items (t.columns ++ t.indexes)
  have hget : ∀ v, (({ (((t.columns ++ t.indexes).foldl erase s).erase uid) with
      names := ((t.columns ++ t.indexes).foldl erase s).names.erase t.name } : Snapshot)).get? v =
        if v = uid ∨ v ∈ t.columns ∨ v ∈ t.indexes then none else s.get? v := by
    intro v
    simp only [← List.mem_append]
    exact get?_erase_foldl h.items uid _ v
  refine h.of_changes (Nat.le_refl _) (lawful_erase hitems) ?_ ?_ fun v item hv => ?_
  · rw [hnames]
    exact SortedMap.Lawful.erase h.names t.name
  · refine h.linked.dropTable (links_of_get? (table?_eq_some.1 ht)) fun v => ?_
    rw [links, hget]
    split <;> rfl
  · rw [hget] at hv
    split at hv
    · cases hv
    · exact .inl hv

/-! ### Indexes -/

/-- Filling an index changes its tree only. -/
theorem indexRow_fold {d : IndexDefinition} {rows : List Row} {start : Index}
    (h : rows.foldlM (s.indexRow d) start = .ok x) :
    x.uid = start.uid ∧ x.definition = start.definition := by
  refine foldlM_invariant (I := fun y => y.uid = start.uid ∧ y.definition = start.definition)
    (fun y row z _ hy hz => ?_) ⟨rfl, rfl⟩ h
  obtain ⟨_, _, hz⟩ := bind_eq_ok.1 hz
  obtain ⟨tree, _, rfl⟩ := addKey_eq_ok hz
  exact hy

theorem Catalogued.createIndex {d : IndexDefinition} (h : Catalogued bound s)
    (hfresh : bound ≤ uid.place) (hinstall : s.createIndex standing uid d = .ok s') :
    Catalogued (uid.place + 1) s' := by
  obtain ⟨t, tree, x, ht, hcolumns, hlive, _, _, _, _, hx, rfl⟩ := createIndex_eq_ok.1 hinstall
  have huid := h.table_uid ht
  have hget := table?_eq_some.1 ht
  have hnone := h.get?_fresh hfresh
  have hne : d.table ≠ uid := fun heq => by
    rw [← heq, hget] at hnone
    cases hnone
  obtain ⟨hxuid, hxdefinition⟩ := indexRow_fold hx
  have hset : s.setIndex x = s.set uid (.index x) := by rw [setIndex, hxuid]
  rw [hset]
  have hitems : (s.set uid (.index x)).items.Lawful := lawful_set h.items
  refine h.of_changes (Nat.le_succ_of_le hfresh) (lawful_set hitems) h.names ?_ fun v item hv => ?_
  · refine h.linked.addIndex (d := d) (by rw [links, hnone, Option.map_none])
      (links_of_get? hget) hcolumns (fun c hc => ?_) fun v => ?_
    · obtain ⟨column, hcolumn⟩ := Option.isSome_iff_exists.1 (hlive c hc)
      obtain ⟨hcget, hctable⟩ := columnOf?_eq_some.1 hcolumn
      rw [links_of_get? hcget, CatalogItem.link, hctable, huid]
    · rw [setTable, links_set hitems, links_set h.items,
        show ({ t with indexes := t.indexes ++ [uid] } : Table).uid = d.table from huid]
      grind [CatalogItem.link]
  · rcases get?_setTable_cases hitems hv with ⟨heq, rfl⟩ | ⟨_, hold⟩
    · have hvt : v = d.table := heq.trans huid
      refine .inr ⟨heq.symm, Nat.lt_succ_of_lt (Nat.lt_of_lt_of_le (hvt ▸ h.below hget) hfresh),
        fun other hother => ?_⟩
      rw [← CatalogItem.table.inj hother]
      exact (h.rows hget).mono (Nat.le_succ_of_le hfresh)
    · rcases get?_set_cases h.items hold with ⟨rfl, rfl⟩ | ⟨_, hold⟩
      · refine .inr ⟨hxuid, Nat.lt_succ_self _, fun _ hother => ?_⟩
        cases hother
      · exact .inl hold

/-! ### Objects -/

/-- An object installed at a place that no identifier has reached leaves the catalogue in order. -/
theorem Catalogued.install (h : Catalogued bound s) (hfresh : bound ≤ uid.place)
    (hinstall : s.install standing uid object = .ok s') : Catalogued (uid.place + 1) s' := by
  have hle : bound ≤ uid.place + 1 := Nat.le_succ_of_le hfresh
  cases object with
  | newTable name => exact h.createTable hfresh hinstall
  | newColumn name type table => exact h.createColumn hfresh hinstall
  | record table fields => exact h.insertRow hfresh hinstall
  | update table fields row => exact (h.updateRow hinstall).mono hle
  | delete table row => exact (h.deleteRow hinstall).mono hle
  | alter table column name type =>
    cases column with
    | none => exact (h.renameTable hinstall).mono hle
    | some column => exact (h.alterColumn hinstall).mono hle
  | drop target parent =>
    cases parent with
    | none => exact (h.dropTable hinstall).mono hle
    | some table => exact (h.dropColumn hinstall).mono hle
  | newIndex definition => exact h.createIndex hfresh hinstall
  | dropIndex table columns => exact (h.dropIndex hinstall).mono hle

/-! ### Identifiers in an object -/

theorem Catalogued.below_of_table (h : Catalogued bound s) (ht : s.table? u = some t) :
    u.place < bound :=
  h.below (table?_eq_some.1 ht)

theorem uids_of_typed {P : Uid → Prop} {fields : List Field}
    (hitems : ∀ {u item}, s.get? u = some item → P u) (htyped : s.Typed t fields) :
    ∀ v ∈ fields.map Prod.fst, P v := by
  intro v hv
  obtain ⟨field, hfield, rfl⟩ := List.mem_map.1 hv
  obtain ⟨column, hcolumn, _⟩ := htyped field hfield
  exact hitems (columnOf?_eq_some.1 hcolumn).1

/-- An object that can be installed names only what is there: items and rows of its table. -/
theorem Catalogued.uids_of_install {P : Uid → Prop} (h : Catalogued bound s)
    (hitems : ∀ {u item}, s.get? u = some item → P u)
    (hrows : ∀ {u t v row}, s.table? u = some t → t.rows.get? v = some row → P v)
    (hinstall : s.install standing uid object = .ok s') : ∀ v ∈ object.uids, P v := by
  have htable : ∀ {u t}, s.table? u = some t → P u := fun ht => hitems (table?_eq_some.1 ht)
  cases object with
  | newTable name => exact fun _ hv => absurd hv List.not_mem_nil
  | newColumn name type table =>
    obtain ⟨t, ht, _⟩ := createColumn_eq_ok.1 hinstall
    exact List.forall_mem_singleton.2 (htable ht)
  | record table fields =>
    obtain ⟨t, m, ht, htyped, _⟩ := insertRow_eq_ok.1 hinstall
    exact List.forall_mem_cons.2 ⟨htable ht, uids_of_typed hitems htyped⟩
  | update table fields row =>
    obtain ⟨t, old, m, ht, hold, htyped, _⟩ := updateRow_eq_ok.1 hinstall
    have hrow := hrows ht hold
    exact List.forall_mem_cons.2 ⟨htable ht,
      List.forall_mem_cons.2 ⟨hrow, uids_of_typed hitems htyped⟩⟩
  | delete table row =>
    obtain ⟨t, old, m, ht, hold, _⟩ := deleteRow_eq_ok.1 hinstall
    have hrow := hrows ht hold
    exact List.forall_mem_cons.2 ⟨htable ht, List.forall_mem_singleton.2 hrow⟩
  | alter table column name type =>
    cases column with
    | none =>
      obtain ⟨t, ht, _⟩ := renameTable_eq_ok.1 hinstall
      exact List.forall_mem_singleton.2 (htable ht)
    | some column =>
      obtain ⟨t, found, ht, hfound, _⟩ := alterColumn_eq_ok.1 hinstall
      exact List.forall_mem_cons.2 ⟨htable ht,
        List.forall_mem_singleton.2 (hitems (columnOf?_eq_some.1 hfound).1)⟩
  | drop target parent =>
    cases parent with
    | none =>
      obtain ⟨t, ht, _⟩ := dropTable_eq_ok.1 hinstall
      exact List.forall_mem_singleton.2 (htable ht)
    | some table =>
      obtain ⟨t, found, ht, hfound, _⟩ := dropColumn_eq_ok.1 hinstall
      exact List.forall_mem_cons.2 ⟨hitems (columnOf?_eq_some.1 hfound).1,
        List.forall_mem_singleton.2 (htable ht)⟩
  | newIndex d =>
    obtain ⟨t, tree, x, ht, _, hlive, _, _, htarget, _⟩ := createIndex_eq_ok.1 hinstall
    refine List.forall_mem_cons.2 ⟨htable ht,
      List.forall_mem_append.2 ⟨fun c hc => ?_, fun target hreferences => ?_⟩⟩
    · obtain ⟨column, hcolumn⟩ := Option.isSome_iff_exists.1 (hlive c hc)
      exact hitems (columnOf?_eq_some.1 hcolumn).1
    · obtain ⟨p, _, hp, _⟩ := htarget target (Option.mem_toList.1 hreferences)
      exact htable hp
  | dropIndex table columns =>
    obtain ⟨t, x, ht, hx, _⟩ := dropIndex_eq_ok.1 hinstall
    have hcolumns : x.definition.columns = columns :=
      of_decide_eq_true
        (List.find?_some (p := fun x : Index => decide (x.definition.columns = columns)) hx)
    obtain ⟨_, _, v, _, hxv⟩ := mem_indexes.1 (List.mem_of_find?_eq_some hx)
    obtain ⟨_, hlive⟩ := h.linked.columns_of_index (links_of_get? (index?_eq_some.1 hxv))
    refine List.forall_mem_cons.2 ⟨htable ht, fun c hc => ?_⟩
    obtain ⟨column, hcolumn, _⟩ := links_eq_column (hlive c (hcolumns ▸ hc))
    exact hitems hcolumn

theorem Catalogued.uids_below (h : Catalogued bound s)
    (hinstall : s.install standing uid object = .ok s') : ∀ v ∈ object.uids, v.place < bound :=
  h.uids_of_install h.below (fun ht hrow => (h.rows (table?_eq_some.1 ht)).below hrow) hinstall

end SnapshotStore.Snapshot
