import SnapshotStore.Proofs.Catalog.Names
import SnapshotStore.Proofs.Snapshot.Referential

/-!
# The catalogue stays coherent

The map of names finds the tables that are there, columns and indexes of a table are told apart, and
every field of a row is a value of a column of its table that fits the type which the column has by
now. An object that would break this is refused, and one that is installed keeps it: a column that
gets another type has been checked against all rows, and one that goes takes its fields with it.
-/

namespace SnapshotStore.Snapshot

/-- The labels of the items of a snapshot. -/
def labels (s : Snapshot) (u : Uid) : Option Label := (s.get? u).map CatalogItem.label

/-- The value is not null and belongs in a column of the table. -/
def FieldFits (s : Snapshot) (table column : Uid) (value : Value) : Prop :=
  value.isNull = false ∧
    ∃ name type, s.labels column = some (.column table name type) ∧ value.fits type

/-- All fields of a row belong in columns of the table. -/
def RowFits (s : Snapshot) (table : Uid) (row : Row) : Prop :=
  ∀ column value, row.fields.get? column = some value → s.FieldFits table column value

structure Coherent (s : Snapshot) : Prop where
  named : Named s.names.get? s.labels
  fits : ∀ {u t v row}, s.get? u = some (.table t) → t.rows.get? v = some row → s.RowFits u row

variable {bound : Nat} {s s' m : Snapshot} {standing : Standing} {u v uid : Uid} {t : Table}
  {c : Column} {x : Index} {object : LogObject}

/-! ### Labels -/

theorem labels_of_get? {item : CatalogItem} (h : s.get? u = some item) :
    s.labels u = some item.label := by
  rw [labels, h, Option.map_some]

theorem labels_eq_table {name : String} (h : s.labels u = some (.table name)) :
    ∃ t, s.get? u = some (.table t) ∧ t.name = name := by
  obtain ⟨item, hitem, hlabel⟩ := Option.map_eq_some_iff.1 h
  cases item with
  | column | index => cases hlabel
  | table t => exact ⟨t, hitem, Label.table.inj hlabel⟩

theorem labels_eq_column {table : Uid} {name : String} {type : DataType}
    (h : s.labels u = some (.column table name type)) :
    ∃ c, s.get? u = some (.column c) ∧ c.table = table ∧ c.name = name ∧ c.type = type := by
  obtain ⟨item, hitem, hlabel⟩ := Option.map_eq_some_iff.1 h
  cases item with
  | table | index => cases hlabel
  | column c => exact ⟨c, hitem, Label.column.inj hlabel⟩

theorem labels_eq_index {d : IndexDefinition} (h : s.labels u = some (.index d)) :
    ∃ x, s.get? u = some (.index x) ∧ x.definition = d := by
  obtain ⟨item, hitem, hlabel⟩ := Option.map_eq_some_iff.1 h
  cases item with
  | table | column => cases hlabel
  | index x => exact ⟨x, hitem, Label.index.inj hlabel⟩

theorem labels_set (h : s.items.Lawful) (u : Uid) (item : CatalogItem) (v : Uid) :
    (s.set u item).labels v = if v = u then some item.label else s.labels v := by
  rw [labels, labels, get?_set h]
  split <;> rfl

theorem labels_erase (h : s.items.Lawful) (u v : Uid) :
    (s.erase u).labels v = if v = u then none else s.labels v := by
  rw [labels, labels, get?_erase h]
  split <;> rfl

/-- A table is exchanged for one with the same name. -/
theorem labels_setTable (h : s.items.Lawful) (ht : s.labels t.uid = some (.table t.name)) :
    (s.setTable t).labels = s.labels := by
  funext v
  rw [setTable, labels_set h]
  split
  · next heq => rw [heq, ht, CatalogItem.label]
  · rfl

theorem Catalogued.labels_fresh (h : Catalogued bound s) (hfresh : bound ≤ uid.place) :
    s.labels uid = none := by
  rw [labels, h.get?_fresh hfresh, Option.map_none]

theorem labels_of_rekeyed {row : Uid} {old new : Option Row} {indexes : List Uid}
    (h : Rekeyed row old new indexes s m) : m.labels = s.labels := by
  funext u
  rcases get?_of_rekeyed h u with heq | ⟨x, tree, hx, hmx⟩
  · rw [labels, labels, heq]
  · rw [labels, labels, hx, hmx]
    rfl

/-- A column is found under its name. -/
theorem Catalogued.columnNamed?_of_label (h : Catalogued bound s) (ht : s.table? u = some t)
    {name : String} {type : DataType} (hv : s.labels v = some (.column u name type)) :
    ∃ c, s.columnNamed? u name = some c ∧
      ∃ type, s.labels c.uid = some (.column u name type) := by
  obtain ⟨c, hc, htable, hname, _⟩ := labels_eq_column hv
  have hlisted : ∀ w, w ∈ t.columns ↔ s.links w = some (.column u) :=
    h.linked.mem_columns (links_of_get? (table?_eq_some.1 ht))
  have hmem : c ∈ t.columns.filterMap s.column? := List.mem_filterMap.2
    ⟨v, (hlisted v).2 (by rw [links_of_get? hc, ← htable]; rfl), column?_eq_some.2 hc⟩
  have hfound : s.columnNamed? u name = (t.columns.filterMap s.column?).find? (·.name = name) := by
    rw [columnNamed?, ht]
    rfl
  cases hfind : (t.columns.filterMap s.column?).find? (·.name = name) with
  | none => exact absurd (decide_eq_true hname) (List.find?_eq_none.1 hfind c hmem)
  | some other =>
    obtain ⟨w, hw, hother⟩ := List.mem_filterMap.1 (List.mem_of_find?_eq_some hfind)
    have hget := column?_eq_some.1 hother
    obtain ⟨d, hd, hdtable⟩ := links_eq_column ((hlisted w).1 hw)
    rw [hget] at hd
    cases hd
    have hotherName : other.name = name := of_decide_eq_true
      (List.find?_some (p := fun c : Column => decide (c.name = name)) hfind)
    refine ⟨other, hfound.trans hfind, other.type, ?_⟩
    rw [show other.uid = w from h.own hget, labels_of_get? hget, CatalogItem.label, hdtable,
      hotherName]

/-! ### Rows -/

theorem RowFits.mono {row : Row} (h : s.RowFits u row)
    (hcolumns : ∀ c name type, s.labels c = some (.column u name type) →
      s'.labels c = some (.column u name type)) : s'.RowFits u row := by
  intro column value hvalue
  obtain ⟨hnull, name, type, hcolumn, hfits⟩ := h column value hvalue
  exact ⟨hnull, name, type, hcolumns column name type hcolumn, hfits⟩

theorem Typed.rowFits {fields : List Field} (h : s.Typed t fields) (row version : Uid) :
    s.RowFits t.uid ⟨row, version, keptFields fields⟩ := by
  intro column value hvalue
  obtain ⟨hvalue, hmem⟩ := of_lastGiven? ((get?_keptFields fields column).symm.trans hvalue)
  have hnull := Value.isNull_eq_false.2 hvalue
  obtain ⟨c, hc, hfits⟩ := h _ hmem
  obtain ⟨hget, htable⟩ := columnOf?_eq_some.1 hc
  refine ⟨hnull, c.name, c.type, ?_, hfits⟩
  rw [labels_of_get? hget, CatalogItem.label, htable]

/-! ### Changes -/

theorem coherent_empty (name : String) : Coherent (empty name) where
  named := Named.none
  fits := fun h => nomatch h

theorem Coherent.endingAt (h : s.Coherent) (position : Nat) : (s.endingAt position).Coherent :=
  ⟨h.named, h.fits⟩

/-- Tables are there as before or empty, and keep the columns that their rows may have fields of. -/
theorem Coherent.of_columns (h : s.Coherent) (hnamed : Named s'.names.get? s'.labels)
    (htables : ∀ u t', s'.get? u = some (.table t') →
      t'.rows = SortedMap.empty ∨ s.get? u = some (.table t') ∧
        ∀ c name type, s.labels c = some (.column u name type) →
          s'.labels c = some (.column u name type)) : s'.Coherent := by
  refine ⟨hnamed, fun {u t' v row} ht' hrow => ?_⟩
  rcases htables u t' ht' with hempty | ⟨ht, hcolumns⟩
  · rw [hempty] at hrow
    cases hrow
  · exact (h.fits ht hrow).mono hcolumns

/-- A table is exchanged for one with the same name whose rows fit. -/
theorem coherent_setTable (hnamed : Named s.names.get? s.labels) (hitems : s.items.Lawful)
    (ht : s.labels t.uid = some (.table t.name))
    (hother : ∀ u other, u ≠ t.uid → s.get? u = some (.table other) →
      ∀ v row, other.rows.get? v = some row → s.RowFits u row)
    (hrows : ∀ v row, t.rows.get? v = some row → s.RowFits t.uid row) :
    (s.setTable t).Coherent := by
  have hlabels := labels_setTable hitems ht
  refine ⟨by rw [hlabels]; exact hnamed, fun {u found v row} hfound hrow => ?_⟩
  have hfits : s.RowFits u row := by
    rcases get?_setTable_cases hitems hfound with ⟨rfl, heq⟩ | ⟨hne, hold⟩
    · cases heq
      exact hrows v row hrow
    · exact hother u found hne hold v row hrow
  exact hfits.mono fun c name type hc => by rw [hlabels, hc]

theorem Coherent.setTable {t' : Table} (h : s.Coherent) (hitems : s.items.Lawful)
    (ht : s.get? u = some (.table t)) (huid : t'.uid = u) (hname : t'.name = t.name)
    (hrows : ∀ v row, t'.rows.get? v = some row → s.RowFits u row) : (s.setTable t').Coherent := by
  subst huid
  refine coherent_setTable h.named hitems ?_ (fun u other _ hget v row => h.fits hget) hrows
  rw [labels_of_get? ht, CatalogItem.label, hname]

/-- A table gets a column or an index. -/
theorem Coherent.attach {item : CatalogItem} {t' : Table} (h : s.Coherent)
    (hs : Catalogued bound s) (hfresh : bound ≤ uid.place) (hitem : ∀ t, item ≠ .table t)
    (hnamed : Named s.names.get? (s.set uid item).labels) (ht : s.get? u = some (.table t))
    (huid : t'.uid = u) (hname : t'.name = t.name) (hrows : t'.rows = t.rows) :
    ((s.set uid item).setTable t').Coherent := by
  have hkept : ∀ {v found}, s.get? v = some found → v ≠ uid := by
    rintro v found hv rfl
    rw [hs.get?_fresh hfresh] at hv
    cases hv
  have hadded : (s.set uid item).Coherent := by
    refine h.of_columns hnamed fun v other hother => ?_
    rcases get?_set_cases hs.items hother with ⟨_, heq⟩ | ⟨_, hold⟩
    · exact absurd heq.symm (hitem other)
    · refine .inr ⟨hold, fun c _ _ hc => (labels_set hs.items uid item c).trans ?_⟩
      obtain ⟨_, hget, _⟩ := labels_eq_column hc
      rw [if_neg (hkept hget), hc]
  have hget : (s.set uid item).get? u = some (.table t) :=
    (get?_set_of_ne hs.items (hkept ht)).trans ht
  exact hadded.setTable (lawful_set hs.items) hget huid hname fun v row hrow =>
    hadded.fits hget (hrows ▸ hrow)

/-- A table loses a column or an index. -/
theorem Coherent.detach {t' : Table} (h : s.Coherent) (hs : Catalogued bound s)
    (ht : s.get? u = some (.table t)) (hv : ∀ name, s.labels v ≠ some (.table name))
    (hown : ∀ table name type, s.labels v = some (.column table name type) → table = u)
    (huid : t'.uid = u) (hname : t'.name = t.name)
    (hrows : ∀ w row, t'.rows.get? w = some row → (s.erase v).RowFits u row) :
    ((s.erase v).setTable t').Coherent := by
  subst huid
  have hlabels := labels_erase hs.items v
  have htable := labels_of_get? ht
  refine coherent_setTable (h.named.drop hv hlabels) (lawful_erase hs.items) ?_
    (fun w other hne hget i row hrow => ?_) hrows
  · rw [hlabels, if_neg, htable, CatalogItem.label, hname]
    rintro rfl
    exact hv _ htable
  · refine (h.fits (get?_of_get?_erase hs.items hget).2 hrow).mono fun c name type hc => ?_
    rw [hlabels, if_neg, hc]
    rintro rfl
    exact hne (hown _ _ _ hc)

/-! ### Tables and columns -/

theorem Coherent.createTable {name : String} (h : s.Coherent) (hs : Catalogued bound s)
    (hfresh : bound ≤ uid.place) (hinstall : s.createTable uid name = .ok s') : s'.Coherent := by
  obtain ⟨hfree, rfl⟩ := createTable_eq_ok.1 hinstall
  have hnone := hs.labels_fresh hfresh
  have hitems : ({ s with names := s.names.insert name uid } : Snapshot).items.Lawful := hs.items
  have hlabels := labels_set hitems uid (.table ⟨uid, name, [], SortedMap.empty, []⟩)
  refine h.of_columns (h.named.addTable hnone ?_ (hs.names.get?_insert name uid) hlabels)
    fun u t' ht' => ?_
  · simpa [SortedMap.contains] using hfree
  · rcases get?_setTable_cases hitems ht' with ⟨_, heq⟩ | ⟨_, hold⟩
    · cases heq
      exact .inl rfl
    · refine .inr ⟨hold, fun c name type hc => (hlabels c).trans ((if_neg ?_).trans hc)⟩
      rintro rfl
      rw [hnone] at hc
      cases hc

theorem Coherent.createColumn {name : String} {type : DataType} {table : Uid} (h : s.Coherent)
    (hs : Catalogued bound s) (hfresh : bound ≤ uid.place)
    (hinstall : s.createColumn standing uid name type table = .ok s') : s'.Coherent := by
  obtain ⟨t, ht, hfree, rfl⟩ := createColumn_eq_ok.1 hinstall
  have huid := hs.table_uid ht
  subst huid
  have hunused : ∀ v type, s.labels v = some (.column t.uid name type) → v = uid := by
    intro v type hv
    obtain ⟨c, hc, _⟩ := hs.columnNamed?_of_label ht hv
    rw [hfree] at hc
    cases hc
  have hnamed := h.named.setColumn (by simp [hs.labels_fresh hfresh]) hunused
    (labels_set hs.items uid (.column ⟨uid, name, type, t.uid⟩))
  exact h.attach hs hfresh (fun _ heq => nomatch heq) hnamed (table?_eq_some.1 ht) rfl rfl rfl

theorem Coherent.renameTable {table : Uid} {name : String} (h : s.Coherent)
    (hs : Catalogued bound s) (hinstall : s.renameTable standing table name = .ok s') :
    s'.Coherent := by
  obtain ⟨t, ht, hfree, rfl⟩ := renameTable_eq_ok.1 hinstall
  have huid := hs.table_uid ht
  subst huid
  have htable := table?_eq_some.1 ht
  have hitems :
      ({ s with names := (s.names.erase t.name).insert name t.uid } : Snapshot).items.Lawful :=
    hs.items
  have hnames : ∀ m, ((s.names.erase t.name).insert name t.uid).get? m =
      if m = name then some t.uid else if m = t.name then none else s.names.get? m := by
    intro m
    have herased : (s.names.erase t.name).Lawful := SortedMap.Lawful.erase hs.names t.name
    rw [herased.get?_insert, SortedMap.Lawful.get?_erase hs.names]
  have hlabels := labels_set hitems t.uid (.table { t with name })
  have hnamed := h.named.renameTable (labels_of_get? htable) hfree hnames hlabels
  have hcolumns : ∀ u c name type, s.labels c = some (.column u name type) →
      c ≠ t.uid := by
    rintro u c name type hc rfl
    rw [labels_of_get? htable] at hc
    cases hc
  refine ⟨hnamed, fun {u found v row} hfound hrow => ?_⟩
  have hfits : s.RowFits u row := by
    rcases get?_setTable_cases hitems hfound with ⟨rfl, heq⟩ | ⟨_, hold⟩
    · cases heq
      exact h.fits htable hrow
    · exact h.fits hold hrow
  exact hfits.mono fun c name type hc =>
    (hlabels c).trans ((if_neg (hcolumns u c name type hc)).trans hc)

theorem Coherent.alterColumn {table column : Uid} {name : String} {type : Option DataType}
    (h : s.Coherent) (hs : Catalogued bound s)
    (hinstall : s.alterColumn standing table column name type = .ok s') : s'.Coherent := by
  obtain ⟨t, found, ht, hfound, hfree, hfits, rfl⟩ := alterColumn_eq_ok.1 hinstall
  have huid := hs.table_uid ht
  subst huid
  obtain ⟨hget, htable⟩ := columnOf?_eq_some.1 hfound
  have hlabel := labels_of_get? hget
  have hlabels := labels_set hs.items column
    (.column { found with name, type := type.getD found.type })
  have hunused : ∀ v type, s.labels v = some (.column found.table name type) → v = column := by
    intro v type hv
    rw [htable] at hv
    obtain ⟨c, hc, _, hcolumn⟩ := hs.columnNamed?_of_label ht hv
    rw [hfree c hc] at hcolumn
    exact h.named.column hv hcolumn
  refine ⟨h.named.setColumn (by simp [hlabel, CatalogItem.label]) hunused hlabels, ?_⟩
  intro u other v row hother hrow c value hvalue
  have hget' : s.get? u = some (.table other) := by
    rcases get?_set_cases hs.items hother with ⟨_, heq⟩ | ⟨_, hold⟩
    · cases heq
    · exact hold
  obtain ⟨hnull, oldName, oldType, hc, hold⟩ := h.fits hget' hrow c value hvalue
  refine ⟨hnull, ?_⟩
  by_cases heq : c = column
  · -- the new type has been checked against this row
    subst heq
    rw [hlabel] at hc
    cases hc
    rw [htable, table?_eq_some.1 ht] at hget'
    cases hget'
    refine ⟨name, type.getD found.type, by rw [hlabels, if_pos rfl]; rfl, ?_⟩
    cases type with
    | none => exact hold
    | some type =>
      have hrowFits := hfits type rfl row
        ((hs.rows (table?_eq_some.1 ht)).lawful.mem_values_iff.2 ⟨v, hrow⟩)
      rwa [Row.get, hvalue] at hrowFits
  · exact ⟨oldName, oldType, by rw [hlabels, if_neg heq, hc], hold⟩

/-! ### Drops -/

theorem Coherent.dropTable (h : s.Coherent) (hs : Catalogued bound s)
    (hinstall : s.dropTable standing uid = .ok s') : s'.Coherent := by
  obtain ⟨t, ht, _, rfl⟩ := dropTable_eq_ok.1 hinstall
  have hget := table?_eq_some.1 ht
  have hlink := links_of_get? hget
  have hcases : ∀ v ∈ t.columns ++ t.indexes,
      (∃ c, s.get? v = some (.column c) ∧ c.table = uid) ∨ ∃ x, s.get? v = some (.index x) := by
    intro v hv
    rcases List.mem_append.1 hv with hv | hv
    · exact .inl (links_eq_column ((hs.linked.mem_columns hlink v).1 hv))
    · obtain ⟨d, hd, _⟩ := (hs.linked.mem_indexes hlink v).1 hv
      obtain ⟨x, hx, _⟩ := links_eq_index hd
      exact .inr ⟨x, hx⟩
  have hparts : ∀ v ∈ t.columns ++ t.indexes, ∀ name, s.labels v ≠ some (.table name) := by
    intro v hv name hlabel
    obtain ⟨found, hfound, _⟩ := labels_eq_table hlabel
    rcases hcases v hv with ⟨c, hc, _⟩ | ⟨x, hx⟩ <;> simp_all
  have hgets := get?_erase_foldl hs.items uid (t.columns ++ t.indexes)
  have hlabels : ∀ v, (((t.columns ++ t.indexes).foldl erase s).erase uid).labels v =
      if v = uid ∨ v ∈ t.columns ++ t.indexes then none else s.labels v := by
    intro v
    rw [labels, hgets, labels]
    split <;> rfl
  have hnames : ∀ m, (((t.columns ++ t.indexes).foldl erase s).names.erase t.name).get? m =
      if m = t.name then none else s.names.get? m := by
    intro m
    rw [(foldl_erase hs.items _).2.1, SortedMap.Lawful.get?_erase hs.names]
  refine h.of_columns (h.named.dropTable (labels_of_get? hget) hparts hnames hlabels)
    fun u found hfound => .inr ?_
  have hfound : (((t.columns ++ t.indexes).foldl erase s).erase uid).get? u =
    some (.table found) := hfound
  rw [hgets] at hfound
  split at hfound
  · cases hfound
  · next hout =>
    refine ⟨hfound, fun c name type hc => (hlabels c).trans ((if_neg ?_).trans hc)⟩
    -- a column of the table that has gone belongs to no other table
    rintro (rfl | hmem)
    · rw [labels_of_get? hget] at hc
      cases hc
    · obtain ⟨column, hcolumn, htable, _⟩ := labels_eq_column hc
      rcases hcases c hmem with ⟨c', hc', heq⟩ | ⟨x, hx⟩
      · rw [hcolumn] at hc'
        cases hc'
        exact hout (.inl (htable.symm.trans heq))
      · rw [hcolumn] at hx
        cases hx

theorem Coherent.dropColumn {table : Uid} (h : s.Coherent) (hs : Catalogued bound s)
    (hinstall : s.dropColumn standing table uid = .ok s') : s'.Coherent := by
  obtain ⟨t, column, ht, hcolumn, _, rfl⟩ := dropColumn_eq_ok.1 hinstall
  have huid := hs.table_uid ht
  subst huid
  have htable := table?_eq_some.1 ht
  obtain ⟨hget, hown⟩ := columnOf?_eq_some.1 hcolumn
  have hlabel := labels_of_get? hget
  refine h.detach hs htable ?_ ?_ rfl rfl fun w row hrow c value hvalue => ?_
  · rw [hlabel]
    exact fun name heq => nomatch heq
  · intro other name type hother
    rw [hlabel] at hother
    cases hother
    exact hown
  · -- the row has lost its field of this column, and keeps the others
    have hrows := hs.rows htable
    rw [show ({ t with
      columns := t.columns.filter (· ≠ uid)
      rows := rowsWithout t uid } : Table).rows = rowsWithout t uid from rfl,
      get?_rowsWithout hrows] at hrow
    obtain ⟨old, hold, rfl⟩ := Option.map_eq_some_iff.1 hrow
    obtain ⟨hne, hfield⟩ := get?_of_get?_erase (hrows.fields hold) hvalue
    obtain ⟨hnull, name, type, hc, hfits⟩ := h.fits htable hold c value hfield
    exact ⟨hnull, name, type, by rw [labels_erase hs.items, if_neg hne, hc], hfits⟩

theorem Coherent.dropIndex {table : Uid} {columns : List Uid} (h : s.Coherent)
    (hs : Catalogued bound s) (hinstall : s.dropIndex standing table columns = .ok s') :
    s'.Coherent := by
  obtain ⟨t, x, ht, hx, _, rfl⟩ := dropIndex_eq_ok.1 hinstall
  have huid := hs.table_uid ht
  subst huid
  have htable := table?_eq_some.1 ht
  obtain ⟨_, v, hv⟩ := hs.get?_of_mem_indexes (List.mem_of_find?_eq_some hx)
  have hxuid : x.uid = v := hs.own hv
  subst hxuid
  have hlabel := labels_of_get? hv
  refine h.detach hs htable ?_ ?_ rfl rfl fun w row hrow =>
    (h.fits htable hrow).mono fun c name type hc => ?_
  · rw [hlabel]
    exact fun name heq => nomatch heq
  · rw [hlabel]
    exact fun table name type heq => nomatch heq
  · rw [labels_erase hs.items, if_neg, hc]
    rintro rfl
    rw [hlabel] at hc
    cases hc

/-! ### Rows and indexes -/

theorem Coherent.of_rekeyed {row : Uid} {old new : Option Row} {indexes : List Uid}
    (h : s.Coherent) (hrekeyed : Rekeyed row old new indexes s m) : m.Coherent := by
  have hlabels := labels_of_rekeyed hrekeyed
  refine ⟨by rw [hlabels, hrekeyed.names]; exact h.named, fun {u t v row} ht hrow => ?_⟩
  have hold : s.get? u = some (.table t) := by
    rcases get?_of_rekeyed hrekeyed u with heq | ⟨x, tree, _, hx⟩
    · rwa [← heq]
    · rw [hx] at ht
      cases ht
  exact (h.fits hold hrow).mono fun c name type hc => by rw [hlabels, hc]

theorem Coherent.setRows {row : Uid} {old new : Option Row} {rows : SortedMap Uid Row}
    (h : s.Coherent) (hs : Catalogued bound s) (ht : s.table? u = some t)
    (hrekey : s.rekey t row old new = .ok m)
    (hrows : ∀ v r, rows.get? v = some r → s.RowFits u r) :
    (m.setTable { t with rows }).Coherent := by
  have hrekeyed := hs.rekeyed (table?_eq_some.1 ht) hrekey
  have hlater := table?_eq_some.1 ((hrekeyed.table?_eq u).trans ht)
  refine (h.of_rekeyed hrekeyed).setTable hrekeyed.lawful hlater
    (hs.table_uid ht : t.uid = u) rfl fun v r hr => (hrows v r hr).mono fun c name type hc => ?_
  rw [labels_of_rekeyed hrekeyed, hc]

theorem Coherent.insertRow {table : Uid} {fields : List Field} (h : s.Coherent)
    (hs : Catalogued bound s) (hinstall : s.insertRow standing uid table fields = .ok s') :
    s'.Coherent := by
  obtain ⟨t, m, ht, htyped, hm, rfl⟩ := insertRow_eq_ok.1 hinstall
  have huid := hs.table_uid ht
  subst huid
  have htable := table?_eq_some.1 ht
  refine h.setRows hs ht hm fun v r hr => ?_
  rw [(hs.rows htable).lawful.get?_insert] at hr
  split at hr
  · cases hr
    exact htyped.rowFits uid uid
  · exact h.fits htable hr

theorem Coherent.updateRow {table row : Uid} {fields : List Field} (h : s.Coherent)
    (hs : Catalogued bound s) (hinstall : s.updateRow standing uid table fields row = .ok s') :
    s'.Coherent := by
  obtain ⟨t, old, m, ht, _, htyped, hm, rfl⟩ := updateRow_eq_ok.1 hinstall
  have huid := hs.table_uid ht
  subst huid
  have htable := table?_eq_some.1 ht
  refine h.setRows hs ht hm fun v r hr => ?_
  rw [(hs.rows htable).lawful.get?_insert] at hr
  split at hr
  · cases hr
    exact htyped.rowFits row uid
  · exact h.fits htable hr

theorem Coherent.deleteRow {table row : Uid} (h : s.Coherent) (hs : Catalogued bound s)
    (hinstall : s.deleteRow standing table row = .ok s') : s'.Coherent := by
  obtain ⟨t, old, m, ht, _, hm, rfl⟩ := deleteRow_eq_ok.1 hinstall
  have htable := table?_eq_some.1 ht
  exact h.setRows hs ht hm fun v r hr =>
    h.fits htable (get?_of_get?_erase (hs.rows htable).lawful hr).2

theorem Coherent.createIndex {d : IndexDefinition} (h : s.Coherent) (hs : Catalogued bound s)
    (hfresh : bound ≤ uid.place) (hinstall : s.createIndex standing uid d = .ok s') :
    s'.Coherent := by
  obtain ⟨t, tree, x, ht, _, _, hprimary, hcolumns, _, _, hfold, rfl⟩ :=
    createIndex_eq_ok.1 hinstall
  obtain ⟨hxuid, hxdefinition⟩ := indexRow_fold hfold
  have hset : s.setIndex x = s.set uid (.index x) := by rw [setIndex, hxuid]
  rw [hset]
  have htable : t.uid = d.table := hs.table_uid ht
  have hother : ∀ v e, s.labels v = some (.index e) → e.table = d.table →
      ∃ other ∈ s.indexes t.uid, other.definition = e := by
    intro v e hv he
    obtain ⟨other, hget, rfl⟩ := labels_eq_index hv
    exact ⟨other, htable.trans he.symm ▸ hs.mem_indexes_of_get? hget, rfl⟩
  have hlabels := labels_set hs.items uid (.index x)
  rw [CatalogItem.label, hxdefinition] at hlabels
  have hnamed := h.named.addIndex (hs.labels_fresh hfresh)
    (fun v e hv he hd => by
      obtain ⟨other, hmem, rfl⟩ := hother v e hv he
      exact hprimary hd other hmem)
    (fun v e hv he => by
      obtain ⟨other, hmem, rfl⟩ := hother v e hv he
      exact hcolumns other hmem) hlabels
  refine h.attach hs hfresh (fun _ heq => ?_) hnamed (table?_eq_some.1 ht) htable rfl rfl
  cases heq

/-! ### Objects -/

theorem Coherent.install (h : s.Coherent) (hs : Catalogued bound s) (hfresh : bound ≤ uid.place)
    (hinstall : s.install standing uid object = .ok s') : s'.Coherent := by
  cases object with
  | newTable name => exact h.createTable hs hfresh hinstall
  | newColumn name type table => exact h.createColumn hs hfresh hinstall
  | record table fields => exact h.insertRow hs hinstall
  | update table fields row => exact h.updateRow hs hinstall
  | delete table row => exact h.deleteRow hs hinstall
  | alter table column name type =>
    cases column with
    | none => exact h.renameTable hs hinstall
    | some column => exact h.alterColumn hs hinstall
  | drop target parent =>
    cases parent with
    | none => exact h.dropTable hs hinstall
    | some table => exact h.dropColumn hs hinstall
  | newIndex definition => exact h.createIndex hs hfresh hinstall
  | dropIndex table columns => exact h.dropIndex hs hinstall

theorem Builds.coherent {first last : Nat} {objects : List (Uid × LogObject)}
    (hbuilds : Builds first s objects last s') (h : s.Coherent) (hs : Catalogued first s) :
    s'.Coherent := by
  induction hbuilds with
  | refl => exact h
  | step hbuilds hfresh _ hinstall position ih =>
    exact (ih.install (hbuilds.catalogued hs) hfresh hinstall).endingAt position

end SnapshotStore.Snapshot
