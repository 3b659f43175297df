import Mathlib.Data.List.Basic
import SnapshotStore.Proofs.Snapshot.Coherent

/-!
# What one object may change

Every item of a catalogue belongs to a table: the table itself, its columns and its indexes. Each
installation is a chain of changes to items of the one table that the object is about, since the
links of the catalogue keep what is listed with a table apart from the parts of all others. So the
items of other tables stay as they are, and so do the names of those tables.
-/

namespace SnapshotStore

/-- The table that an item belongs to. -/
def CatalogItem.owner : CatalogItem → Uid
  | table t => t.uid
  | column c => c.table
  | index x => x.definition.table

/-- The table that the object at `uid` is about. The definition of a table is about the new one. -/
def LogObject.subject (uid : Uid) (object : LogObject) : Uid := object.table?.getD uid

namespace Snapshot

variable {bound : Nat} {s s' m : Snapshot} {standing : Standing} {table u v uid : Uid} {t : Table}
  {c : Column} {item : CatalogItem} {object : LogObject}

/-- An item under an identifier belongs to the table. -/
def OwnedAt (s : Snapshot) (table v : Uid) : Prop :=
  ∀ item, s.get? v = some item → item.owner = table

/-- Two snapshots differ in items of one table only, and the new ones stand under their own
identifiers. -/
structure Touches (table : Uid) (s s' : Snapshot) : Prop where
  lawful : s'.items.Lawful
  item : ∀ v, s'.get? v = s.get? v ∨
    s.OwnedAt table v ∧ ∀ item, s'.get? v = some item → item.owner = table ∧ item.uid = v

namespace Touches

theorem refl (h : s.items.Lawful) : Touches table s s := ⟨h, fun _ => .inl rfl⟩

/-- The map of names does not matter. -/
theorem of_items (h : Touches table s m) (hitems : s'.items = m.items) : Touches table s s' := by
  have hget : ∀ v, s'.get? v = m.get? v := fun v => congrArg (SortedMap.get? · v) hitems
  refine ⟨hitems ▸ h.lawful, fun v => ?_⟩
  rw [hget]
  exact h.item v

theorem set (h : Touches table s m) (hv : s.OwnedAt table v) (howner : item.owner = table)
    (huid : item.uid = v) : Touches table s (m.set v item) := by
  refine ⟨lawful_set h.lawful, fun u => ?_⟩
  rw [get?_set h.lawful]
  split
  · next heq =>
    subst heq
    refine .inr ⟨hv, fun other hother => ?_⟩
    cases hother
    exact ⟨howner, huid⟩
  · exact h.item u

theorem setTable (h : Touches table s m) (ht : s.OwnedAt table table) (huid : t.uid = table) :
    Touches table s (m.setTable t) :=
  h.set (huid ▸ ht) huid rfl

theorem erase (h : Touches table s m) (hv : s.OwnedAt table v) : Touches table s (m.erase v) := by
  refine ⟨lawful_erase h.lawful, fun u => ?_⟩
  rw [get?_erase h.lawful]
  split
  · next heq => exact .inr ⟨heq ▸ hv, fun _ hother => nomatch hother⟩
  · exact h.item u

theorem foldl_erase {us : List Uid} (h : Touches table s m) (hus : ∀ v ∈ us, s.OwnedAt table v) :
    Touches table s (us.foldl Snapshot.erase m) := by
  induction us generalizing m with
  | nil => exact h
  | cons v us ih =>
    obtain ⟨hv, hus⟩ := List.forall_mem_cons.1 hus
    exact ih (h.erase hv) hus

/-- Items that do not belong to the table are the same. -/
theorem get?_iff (h : Touches table s s') (hother : item.owner ≠ table) :
    s'.get? v = some item ↔ s.get? v = some item := by
  rcases h.item v with hsame | ⟨hold, hnew⟩
  · rw [hsame]
  · exact ⟨fun hitem => absurd (hnew item hitem).1 hother,
      fun hitem => absurd (hold item hitem) hother⟩

end Touches

/-! ### What belongs to a table -/

namespace Catalogued

theorem ownedAt_table (h : Catalogued bound s) (ht : s.table? u = some t) : s.OwnedAt u u := by
  intro item hitem
  cases (table?_eq_some.1 ht).symm.trans hitem
  exact h.table_uid ht

theorem ownedAt_column (h : Catalogued bound s) (ht : s.table? u = some t)
    (hc : s.columnOf? t v = some c) : s.OwnedAt u v := by
  intro item hitem
  obtain ⟨hget, htable⟩ := columnOf?_eq_some.1 hc
  cases hget.symm.trans hitem
  exact htable.trans (h.table_uid ht)

theorem ownedAt_listed (h : Catalogued bound s) (ht : s.table? u = some t)
    (hv : v ∈ t.columns ∨ v ∈ t.indexes) : s.OwnedAt u v := by
  intro item hitem
  have hlinks := links_of_get? (table?_eq_some.1 ht)
  rw [h.linked.mem_columns hlinks, h.linked.mem_indexes hlinks, links_of_get? hitem] at hv
  rcases hv with hv | ⟨d, hv, hd⟩
  · cases item with
    | table | index => cases hv
    | column c => exact Link.column.inj (Option.some.inj hv)
  · cases item with
    | table | column => cases hv
    | index x =>
      exact (congrArg IndexDefinition.table (Link.index.inj (Option.some.inj hv))).trans hd

/-- A table lists all that belongs to it. -/
theorem listed_of_owner (h : Catalogued bound s) (ht : s.table? u = some t)
    (hitem : s.get? v = some item) (howner : item.owner = u) :
    v = u ∨ v ∈ t.columns ++ t.indexes := by
  have hlinks := links_of_get? (table?_eq_some.1 ht)
  rw [List.mem_append, h.linked.mem_columns hlinks, h.linked.mem_indexes hlinks,
    links_of_get? hitem]
  cases item with
  | table t' => exact .inl ((h.own hitem).symm.trans howner)
  | column c => exact .inr (.inl (congrArg (some ∘ Link.column) howner))
  | index x => exact .inr (.inr ⟨x.definition, rfl, howner⟩)

theorem touches_rekeyed {row : Uid} {old new : Option Row} (h : Catalogued bound s)
    (ht : s.table? u = some t) (hm : s.rekey t row old new = .ok m) : Touches u s m := by
  have hrekeyed := h.rekeyed (table?_eq_some.1 ht) hm
  refine ⟨hrekeyed.lawful, fun v => ?_⟩
  by_cases hv : v ∈ t.indexes
  · have howned := h.ownedAt_listed ht (.inr hv)
    rcases get?_of_rekeyed hrekeyed v with hsame | ⟨x, tree, hx, hmx⟩
    · exact .inl hsame
    · refine .inr ⟨howned, fun item hitem => ?_⟩
      cases hmx.symm.trans hitem
      have hown : x.definition.table = u := howned _ hx
      have huid : x.uid = v := h.own hx
      exact ⟨hown, huid⟩
  · exact .inl (hrekeyed.other v hv)

/-- An object touches nothing but items of the table that it is about. -/
theorem touches_install (h : Catalogued bound s) (hfresh : s.get? uid = none)
    (hinstall : s.install standing uid object = .ok s') : Touches (object.subject uid) s s' := by
  have hsame : ∀ {u}, Touches u s s := .refl h.items
  have hnew : ∀ {u}, s.OwnedAt u uid := fun item hitem => nomatch hfresh.symm.trans hitem
  cases object with
  | newTable name =>
    obtain ⟨_, rfl⟩ := createTable_eq_ok.1 hinstall
    have hset : Touches uid s (s.setTable ⟨uid, name, [], SortedMap.empty, []⟩) :=
      hsame.set hnew rfl rfl
    exact hset.of_items rfl
  | newColumn name type table =>
    obtain ⟨t, ht, _, rfl⟩ := createColumn_eq_ok.1 hinstall
    have huid : t.uid = table := h.table_uid ht
    have hset : Touches table s (s.set uid (.column ⟨uid, name, type, t.uid⟩)) :=
      hsame.set hnew huid rfl
    exact hset.setTable (h.ownedAt_table ht) huid
  | record table fields =>
    obtain ⟨t, m, ht, _, hm, rfl⟩ := insertRow_eq_ok.1 hinstall
    have huid : t.uid = table := h.table_uid ht
    exact (h.touches_rekeyed ht hm).setTable (h.ownedAt_table ht) huid
  | update table fields row =>
    obtain ⟨t, old, m, ht, _, _, hm, rfl⟩ := updateRow_eq_ok.1 hinstall
    have huid : t.uid = table := h.table_uid ht
    exact (h.touches_rekeyed ht hm).setTable (h.ownedAt_table ht) huid
  | delete table row =>
    obtain ⟨t, old, m, ht, _, hm, rfl⟩ := deleteRow_eq_ok.1 hinstall
    have huid : t.uid = table := h.table_uid ht
    exact (h.touches_rekeyed ht hm).setTable (h.ownedAt_table ht) huid
  | alter table column name type =>
    cases column with
    | none =>
      obtain ⟨t, ht, _, rfl⟩ := renameTable_eq_ok.1 hinstall
      have huid : t.uid = table := h.table_uid ht
      have hset : Touches table s (s.setTable { t with name }) :=
        hsame.setTable (h.ownedAt_table ht) huid
      exact hset.of_items rfl
    | some column =>
      obtain ⟨t, c, ht, hc, _, _, rfl⟩ := alterColumn_eq_ok.1 hinstall
      obtain ⟨hget, htable⟩ := columnOf?_eq_some.1 hc
      have howner : c.table = table := htable.trans (h.table_uid ht)
      have huid : c.uid = column := h.own hget
      exact hsame.set (h.ownedAt_column ht hc) howner huid
  | drop target parent =>
    cases parent with
    | none =>
      obtain ⟨t, ht, _, rfl⟩ := dropTable_eq_ok.1 hinstall
      have hlisted : ∀ v ∈ t.columns ++ t.indexes, s.OwnedAt target v := fun v hv =>
        h.ownedAt_listed ht (List.mem_append.1 hv)
      have herased : Touches target s (((t.columns ++ t.indexes).foldl erase s).erase target) :=
        (hsame.foldl_erase hlisted).erase (h.ownedAt_table ht)
      exact herased.of_items rfl
    | some table =>
      obtain ⟨t, c, ht, hc, _, rfl⟩ := dropColumn_eq_ok.1 hinstall
      have huid : t.uid = table := h.table_uid ht
      exact (hsame.erase (h.ownedAt_column ht hc)).setTable (h.ownedAt_table ht) huid
  | newIndex d =>
    obtain ⟨t, tree, x, ht, _, _, _, _, _, _, hx, rfl⟩ := createIndex_eq_ok.1 hinstall
    obtain ⟨hindex, hdefinition⟩ := indexRow_fold hx
    have huid : t.uid = d.table := h.table_uid ht
    have howner : x.definition.table = d.table := congrArg IndexDefinition.table hdefinition
    have hset : Touches d.table s (s.setIndex x) := hsame.set (hindex ▸ hnew) howner rfl
    exact hset.setTable (h.ownedAt_table ht) huid
  | dropIndex table columns =>
    obtain ⟨t, x, ht, hx, _, rfl⟩ := dropIndex_eq_ok.1 hinstall
    have huid : t.uid = table := h.table_uid ht
    obtain ⟨_, ht', w, hw, hx⟩ := mem_indexes.1 (List.mem_of_find?_eq_some hx)
    cases (huid ▸ ht').symm.trans ht
    have howned : s.OwnedAt table x.uid := h.index_uid hx ▸ h.ownedAt_listed ht (.inr hw)
    exact (hsame.erase howned).setTable (h.ownedAt_table ht) huid

/-- Only the names that lead to the table that an object is about change. -/
theorem named_install (h : Catalogued bound s) (hnamed : Named s.names.get? s.labels)
    (hinstall : s.install standing uid object = .ok s') (name : String)
    (hu : u ≠ object.subject uid) :
    s'.names.get? name = some u ↔ s.names.get? name = some u := by
  have hsame : s'.names = s.names → (s'.names.get? name = some u ↔ s.names.get? name = some u) :=
    fun heq => by rw [heq]
  have hown : ∀ {t}, s.table? t.uid = some t → s.names.get? t.name = some t.uid := fun ht =>
    hnamed.table.2 (labels_of_get? (table?_eq_some.1 ht))
  cases object with
  | newTable new =>
    obtain ⟨hfree, rfl⟩ := createTable_eq_ok.1 hinstall
    change (s.names.insert new uid).get? name = some u ↔ _
    rw [h.names.get?_insert]
    split
    · next heq =>
      have hnone : s.names.get? name = none := by
        rw [heq]
        exact Option.not_isSome_iff_eq_none.1 (Bool.eq_false_iff.1 hfree)
      rw [hnone]
      exact ⟨fun hsome => absurd (Option.some.inj hsome).symm hu, fun hsome => (nomatch hsome)⟩
    · rfl
  | newColumn _ _ table =>
    obtain ⟨t, _, _, rfl⟩ := createColumn_eq_ok.1 hinstall
    exact hsame rfl
  | record table fields =>
    obtain ⟨t, m, ht, _, hm, rfl⟩ := insertRow_eq_ok.1 hinstall
    exact hsame (h.rekeyed (table?_eq_some.1 ht) hm).names
  | update table fields row =>
    obtain ⟨t, old, m, ht, _, _, hm, rfl⟩ := updateRow_eq_ok.1 hinstall
    exact hsame (h.rekeyed (table?_eq_some.1 ht) hm).names
  | delete table row =>
    obtain ⟨t, old, m, ht, _, hm, rfl⟩ := deleteRow_eq_ok.1 hinstall
    exact hsame (h.rekeyed (table?_eq_some.1 ht) hm).names
  | alter table column new type =>
    cases column with
    | some column =>
      obtain ⟨t, c, _, _, _, _, rfl⟩ := alterColumn_eq_ok.1 hinstall
      exact hsame rfl
    | none =>
      obtain ⟨t, ht, hfree, rfl⟩ := renameTable_eq_ok.1 hinstall
      have huid : t.uid = table := h.table_uid ht
      have hother : ∀ {v}, v = t.uid → some v ≠ some u := fun hv heq =>
        hu ((Option.some.inj heq).symm.trans (hv.trans huid))
      change ((s.names.erase t.name).insert new t.uid).get? name = some u ↔ _
      rw [(SortedMap.Lawful.erase h.names t.name).get?_insert,
        SortedMap.Lawful.get?_erase h.names]
      split
      · next heq =>
        subst heq
        exact ⟨fun hsome => absurd hsome (hother rfl), fun hsome =>
          absurd rfl (hother (hfree u hsome))⟩
      · split
        · next heq =>
          rw [heq, hown (huid.symm ▸ ht)]
          exact ⟨fun hsome => (nomatch hsome), fun hsome => absurd hsome (hother rfl)⟩
        · rfl
  | drop target parent =>
    cases parent with
    | some table =>
      obtain ⟨t, c, _, _, _, rfl⟩ := dropColumn_eq_ok.1 hinstall
      exact hsame rfl
    | none =>
      obtain ⟨t, ht, _, rfl⟩ := dropTable_eq_ok.1 hinstall
      have huid : t.uid = target := h.table_uid ht
      change (((t.columns ++ t.indexes).foldl erase s).names.erase t.name).get? name = some u ↔ _
      rw [(foldl_erase h.items _).2.1, SortedMap.Lawful.get?_erase h.names]
      split
      · next heq =>
        rw [heq, hown (huid.symm ▸ ht)]
        exact ⟨fun hsome => (nomatch hsome), fun hsome =>
          absurd ((Option.some.inj hsome).symm.trans huid) hu⟩
      · rfl
  | newIndex d =>
    obtain ⟨t, tree, x, _, _, _, _, _, _, _, _, rfl⟩ := createIndex_eq_ok.1 hinstall
    exact hsame rfl
  | dropIndex table columns =>
    obtain ⟨t, x, _, _, _, rfl⟩ := dropIndex_eq_ok.1 hinstall
    exact hsame rfl

end Catalogued

/-! ### Other tables, and what changes in one -/

/-- The tables apart from one are the same, with their columns, their indexes and their names. -/
structure SparesOthers (subject : Uid) (s s' : Snapshot) : Prop where
  table : ∀ u, u ≠ subject → s'.table? u = s.table? u
  column : ∀ v c, c.table ≠ subject → (s'.column? v = some c ↔ s.column? v = some c)
  index : ∀ v x, x.definition.table ≠ subject → (s'.index? v = some x ↔ s.index? v = some x)
  indexes : ∀ u, u ≠ subject → s'.indexes u = s.indexes u
  named : ∀ name u, u ≠ subject → (s'.names.get? name = some u ↔ s.names.get? name = some u)

/-- A new index is listed with its table. The table that it refers to, if it is another one, is left
as it is. -/
structure AddsIndex (uid : Uid) (d : IndexDefinition) (s s' : Snapshot) : Prop where
  item : ∃ t x, s.table? d.table = some t ∧ x.uid = uid ∧ x.definition = d ∧
    ∀ v, s'.get? v = if v = d.table then some (.table { t with indexes := t.indexes ++ [uid] })
      else if v = uid then some (.index x) else s.get? v
  names : s'.names = s.names
  referenced : ∀ target, d.references = some target → target ≠ d.table →
    s'.table? target = s.table? target ∧ s'.indexes target = s.indexes target

/-- A table goes with its name and with exactly its own columns and indexes. -/
structure DropsTable (target : Uid) (s s' : Snapshot) : Prop where
  item : ∀ v item, s'.get? v = some item ↔ s.get? v = some item ∧ item.owner ≠ target
  names : ∃ t, s.table? target = some t ∧
    ∀ name, s'.names.get? name = if name = t.name then none else s.names.get? name

/-- A column goes with its place in the table and its field of the rows. -/
structure DropsColumn (table column : Uid) (s s' : Snapshot) : Prop where
  item : ∃ t c rows, s.table? table = some t ∧ s.columnOf? t column = some c ∧
    (∀ v, s'.get? v = if v = column then none
      else if v = table then
        some (.table { t with columns := t.columns.filter (· ≠ column), rows })
      else s.get? v) ∧
    (∀ u, rows.get? u =
      (t.rows.get? u).map fun row => { row with fields := row.fields.erase column }) ∧
    ∀ u row, t.rows.get? u = some row →
      ∀ v, (row.fields.erase column).get? v = if v = column then none else row.fields.get? v
  names : s'.names = s.names

theorem Catalogued.sparesOthers (h : Catalogued bound s) (hnamed : Named s.names.get? s.labels)
    (hfresh : s.get? uid = none) (hinstall : s.install standing uid object = .ok s') :
    SparesOthers (object.subject uid) s s' := by
  have htouches := h.touches_install hfresh hinstall
  have hindex : ∀ v x, x.definition.table ≠ object.subject uid →
      (s'.index? v = some x ↔ s.index? v = some x) := fun v x hother => by
    rw [index?_eq_some, index?_eq_some]
    exact htouches.get?_iff hother
  have htable : ∀ u, u ≠ object.subject uid → s'.table? u = s.table? u := fun u hu => by
    rcases htouches.item u with hsame | ⟨hold, hnew⟩
    · exact table?_congr hsame
    · have hgone : s'.table? u = none := Option.eq_none_iff_forall_not_mem.2 fun t ht =>
        hu ((hnew _ (table?_eq_some.1 ht)).2.symm.trans (hnew _ (table?_eq_some.1 ht)).1)
      have hnone : s.table? u = none := Option.eq_none_iff_forall_not_mem.2 fun t ht =>
        hu ((h.table_uid ht).symm.trans (hold _ (table?_eq_some.1 ht)))
      rw [hgone, hnone]
  refine ⟨htable, fun v c hother => ?_, hindex, fun u hu => ?_,
    fun name u hu => h.named_install hnamed hinstall name hu⟩
  · rw [column?_eq_some, column?_eq_some]
    exact htouches.get?_iff hother
  · rw [indexes, indexes, htable u hu]
    cases ht : s.table? u with
    | none => rfl
    | some t =>
      refine List.filterMap_congr fun v hv => ?_
      rcases htouches.item v with hsame | ⟨hold, _⟩
      · exact index?_congr hsame
      · obtain ⟨d, hd, hdtable⟩ :=
          (h.linked.mem_indexes (links_of_get? (table?_eq_some.1 ht)) v).1 hv
        obtain ⟨x, hx, rfl⟩ := links_eq_index hd
        exact absurd (hdtable.symm.trans (hold _ hx)) hu

theorem Catalogued.addsIndex {d : IndexDefinition} (h : Catalogued bound s)
    (hothers : SparesOthers d.table s s')
    (hinstall : s.install standing uid (.newIndex d) = .ok s') : AddsIndex uid d s s' := by
  obtain ⟨t, tree, x, ht, _, _, _, _, _, _, hx, rfl⟩ := createIndex_eq_ok.1 hinstall
  obtain ⟨hindex, hdefinition⟩ := indexRow_fold hx
  have huid : t.uid = d.table := h.table_uid ht
  have hxuid : x.uid = uid := hindex
  refine ⟨⟨t, x, ht, hxuid, hdefinition, fun v => ?_⟩, rfl, fun target _ hother =>
    ⟨hothers.table target hother, hothers.indexes target hother⟩⟩
  have hset : (s.setIndex x).items.Lawful := lawful_set h.items
  rw [setTable, get?_set hset, setIndex, get?_set h.items, huid, hxuid]

theorem Catalogued.dropsTable {target : Uid} (h : Catalogued bound s)
    (hinstall : s.install standing uid (.drop target none) = .ok s') : DropsTable target s s' := by
  obtain ⟨t, ht, _, rfl⟩ := dropTable_eq_ok.1 hinstall
  refine ⟨fun v item => ?_, t, ht, fun name => ?_⟩
  · have hget : (((t.columns ++ t.indexes).foldl erase s).erase target).get? v = _ :=
      get?_erase_foldl h.items target _ v
    change (((t.columns ++ t.indexes).foldl erase s).erase target).get? v = some item ↔ _
    rw [hget]
    split
    · next hpart =>
      have howned : s.OwnedAt target v := by
        rcases hpart with rfl | hlisted
        · exact h.ownedAt_table ht
        · exact h.ownedAt_listed ht (List.mem_append.1 hlisted)
      exact ⟨fun hsome => (nomatch hsome), fun hitem => absurd (howned item hitem.1) hitem.2⟩
    · next hother =>
      refine ⟨fun hitem => ⟨hitem, fun howner => hother ?_⟩, And.left⟩
      exact h.listed_of_owner ht hitem howner
  · change (((t.columns ++ t.indexes).foldl erase s).names.erase t.name).get? name = _
    rw [(foldl_erase h.items _).2.1, SortedMap.Lawful.get?_erase h.names]

theorem Catalogued.dropsColumn {column : Uid} (h : Catalogued bound s)
    (hinstall : s.install standing uid (.drop column (some table)) = .ok s') :
    DropsColumn table column s s' := by
  obtain ⟨t, c, ht, hc, _, rfl⟩ := dropColumn_eq_ok.1 hinstall
  have hrows := h.rows (table?_eq_some.1 ht)
  have huid : t.uid = table := h.table_uid ht
  have hne : table ≠ column := by
    rintro rfl
    cases (table?_eq_some.1 ht).symm.trans (columnOf?_eq_some.1 hc).1
  refine ⟨⟨t, c, rowsWithout t column, ht, hc, fun v => ?_, fun u => get?_rowsWithout hrows,
    fun u row hrow v => SortedMap.Lawful.get?_erase (hrows.fields hrow) column v⟩, rfl⟩
  rw [setTable, get?_set (lawful_erase h.items), get?_erase h.items, huid]
  by_cases hv : v = column
  · rw [if_pos hv, if_pos hv, if_neg fun heq => hne (heq.symm.trans hv)]
  · rw [if_neg hv, if_neg hv]

end Snapshot

end SnapshotStore
