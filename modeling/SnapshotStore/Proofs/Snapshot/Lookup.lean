import SnapshotStore.Proofs.Snapshot.Cases
import SnapshotStore.Proofs.SortedMap.Laws

/-!
# What a snapshot holds after a change

The catalogue of a snapshot is a finite map: setting an item or erasing one changes what is found
under its identifier and nothing else.
-/

namespace SnapshotStore.Snapshot

variable {s s' : Snapshot} {uid u : Uid} {item : CatalogItem} {t : Table} {c : Column} {x : Index}

/-! ### Kinds of items -/

theorem table?_eq_some : s.table? u = some t ↔ s.get? u = some (.table t) := by
  rw [table?]
  split
  · next found hfound => rw [hfound, Option.some.injEq, Option.some.injEq, CatalogItem.table.injEq]
  · next hnone => exact ⟨fun h => (nomatch h), fun h => absurd h (hnone t)⟩

theorem column?_eq_some : s.column? u = some c ↔ s.get? u = some (.column c) := by
  rw [column?]
  split
  · next found hfound => rw [hfound, Option.some.injEq, Option.some.injEq, CatalogItem.column.injEq]
  · next hnone => exact ⟨fun h => (nomatch h), fun h => absurd h (hnone c)⟩

theorem index?_eq_some : s.index? u = some x ↔ s.get? u = some (.index x) := by
  rw [index?]
  split
  · next found hfound => rw [hfound, Option.some.injEq, Option.some.injEq, CatalogItem.index.injEq]
  · next hnone => exact ⟨fun h => (nomatch h), fun h => absurd h (hnone x)⟩

theorem table?_congr (h : s'.get? u = s.get? u) : s'.table? u = s.table? u := by
  rw [table?, table?, h]

theorem index?_congr (h : s'.get? u = s.get? u) : s'.index? u = s.index? u := by
  rw [index?, index?, h]

theorem columnOf?_eq_some :
    s.columnOf? t u = some c ↔ s.get? u = some (.column c) ∧ c.table = t.uid := by
  rw [columnOf?, Option.filter_eq_some_iff, column?_eq_some, decide_eq_true_iff]

/-! ### Setting and erasing -/

theorem get?_set (h : s.items.Lawful) :
    (s.set uid item).get? u = if u = uid then some item else s.get? u :=
  h.get?_insert uid item u

/-- What is found after setting an item is that item or was there before. -/
theorem get?_set_cases {found : CatalogItem} (h : s.items.Lawful)
    (hu : (s.set uid item).get? u = some found) :
    u = uid ∧ found = item ∨ u ≠ uid ∧ s.get? u = some found := by
  rw [get?_set h] at hu
  split at hu
  · next heq => exact .inl ⟨heq, (Option.some.inj hu).symm⟩
  · next hne => exact .inr ⟨hne, hu⟩

theorem get?_setTable_cases {found : CatalogItem} (h : s.items.Lawful)
    (hu : (s.setTable t).get? u = some found) :
    u = t.uid ∧ found = .table t ∨ u ≠ t.uid ∧ s.get? u = some found :=
  get?_set_cases h hu

theorem get?_set_self (h : s.items.Lawful) : (s.set uid item).get? uid = some item := by
  rw [get?_set h, if_pos rfl]

theorem get?_set_of_ne (h : s.items.Lawful) (hne : u ≠ uid) :
    (s.set uid item).get? u = s.get? u := by
  rw [get?_set h, if_neg hne]

theorem lawful_set (h : s.items.Lawful) : (s.set uid item).items.Lawful := h.insert uid item

theorem get?_erase (h : s.items.Lawful) :
    (s.erase uid).get? u = if u = uid then none else s.get? u :=
  SortedMap.Lawful.get?_erase h uid u

theorem lawful_erase (h : s.items.Lawful) : (s.erase uid).items.Lawful :=
  SortedMap.Lawful.erase h uid

theorem foldl_erase (h : s.items.Lawful) (us : List Uid) :
    (us.foldl erase s).items.Lawful ∧ (us.foldl erase s).names = s.names ∧
      ∀ u, (us.foldl erase s).get? u = if u ∈ us then none else s.get? u := by
  induction us generalizing s with
  | nil => exact ⟨h, rfl, fun _ => (if_neg List.not_mem_nil).symm⟩
  | cons first us ih =>
    obtain ⟨hlawful, hnames, hget⟩ := ih (show (s.erase first).items.Lawful from lawful_erase h)
    refine ⟨hlawful, hnames, fun u => ?_⟩
    rw [List.foldl_cons, hget u, get?_erase h]
    by_cases hfirst : u = first
    · rw [if_pos hfirst, ite_self, if_pos (hfirst ▸ List.mem_cons_self)]
    · by_cases hmem : u ∈ us
      · rw [if_pos hmem, if_pos (List.mem_cons_of_mem _ hmem)]
      · rw [if_neg hmem, if_neg hfirst, if_neg fun h => (List.mem_cons.1 h).elim hfirst hmem]

/-- A table is erased with its parts. -/
theorem get?_erase_foldl (h : s.items.Lawful) (uid : Uid) (us : List Uid) (v : Uid) :
    ((us.foldl erase s).erase uid).get? v = if v = uid ∨ v ∈ us then none else s.get? v := by
  obtain ⟨hlawful, _, hget⟩ := foldl_erase h us
  rw [get?_erase hlawful, hget]
  grind

theorem get?_of_erase_foldl (h : s.items.Lawful) {us : List Uid} {v : Uid} {item : CatalogItem}
    (hitem : ((us.foldl erase s).erase uid).get? v = some item) : s.get? v = some item := by
  rw [get?_erase_foldl h] at hitem
  split at hitem
  · cases hitem
  · exact hitem

/-! ### Indexes of a table -/

theorem mem_indexes {table : Uid} :
    x ∈ s.indexes table ↔ ∃ t, s.table? table = some t ∧ ∃ u ∈ t.indexes, s.index? u = some x := by
  rw [indexes]
  cases s.table? table with
  | none => exact ⟨fun h => absurd h List.not_mem_nil, fun ⟨_, h, _⟩ => (nomatch h)⟩
  | some t =>
    rw [Option.elim_some, List.mem_filterMap]
    exact ⟨fun h => ⟨t, rfl, h⟩, fun ⟨_, heq, h⟩ => Option.some.inj heq ▸ h⟩

theorem mem_foreignKeysInto (h : s.items.Lawful) {table : Uid} :
    x ∈ s.foreignKeysInto table ↔
      (∃ u, s.index? u = some x) ∧ x.definition.references = some table := by
  rw [foreignKeysInto, List.mem_filterMap]
  constructor
  · rintro ⟨item, hitem, hx⟩
    obtain ⟨u, hu⟩ := h.mem_values_iff.1 hitem
    cases item with
    | table t => cases hx
    | column c => cases hx
    | index found =>
      dsimp only at hx
      split at hx
      · next hreferences =>
        cases hx
        exact ⟨⟨u, index?_eq_some.2 hu⟩, hreferences⟩
      · cases hx
  · rintro ⟨⟨u, hu⟩, hreferences⟩
    exact ⟨.index x, h.mem_values_iff.2 ⟨u, index?_eq_some.1 hu⟩, if_pos hreferences⟩

theorem primaryIndex?_eq_some {table : Uid} (h : s.primaryIndex? table = some x) :
    x.definition.primary ∧ ∃ t, s.table? table = some t ∧ ∃ u ∈ t.indexes, s.index? u = some x :=
  ⟨List.find?_some (p := fun x : Index => x.definition.primary) h,
    mem_indexes.1 (List.mem_of_find?_eq_some h)⟩

/-! ### Rows of a table -/

theorem row?_eq_some {table row : Uid} {r : Row} :
    s.row? table row = some r ↔ ∃ t, s.table? table = some t ∧ t.rows.get? row = some r := by
  rw [row?]
  exact Option.bind_eq_some_iff

end SnapshotStore.Snapshot
