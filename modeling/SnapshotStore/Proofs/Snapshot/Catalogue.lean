import SnapshotStore.Proofs.Catalog.Links
import SnapshotStore.Proofs.Snapshot.Fields
import SnapshotStore.Proofs.Snapshot.Rekey

/-!
# The catalogue stays linked

Every item of a snapshot stands under its own identifier, every row under the one of the record that
created it, and all of these are below the place at which the next object may stand. A change of the
catalogue keeps this if what it sets is in order and the links stay.
-/

namespace SnapshotStore.Snapshot

/-- The links of the items of a snapshot. -/
def links (s : Snapshot) (u : Uid) : Option Link := (s.get? u).map CatalogItem.link

/-- The rows of a table, each under its own identifier. -/
structure RowsKept (bound : Nat) (rows : SortedMap Uid Row) : Prop where
  lawful : rows.Lawful
  own : ∀ {u row}, rows.get? u = some row → row.uid = u
  below : ∀ {u row}, rows.get? u = some row → u.place < bound
  fields : ∀ {u row}, rows.get? u = some row → row.fields.Lawful

structure Catalogued (bound : Nat) (s : Snapshot) : Prop where
  items : s.items.Lawful
  names : s.names.Lawful
  own : ∀ {u item}, s.get? u = some item → item.uid = u
  below : ∀ {u item}, s.get? u = some item → u.place < bound
  linked : Linked s.links
  rows : ∀ {u t}, s.get? u = some (.table t) → RowsKept bound t.rows

variable {bound : Nat} {s s' m : Snapshot} {u uid : Uid} {t : Table}
  {c : Column} {x : Index} {object : LogObject}

theorem links_of_get? {item : CatalogItem} (h : s.get? u = some item) :
    s.links u = some item.link := by
  rw [links, h, Option.map_some]

theorem links_eq_column {table : Uid} (h : s.links u = some (.column table)) :
    ∃ c, s.get? u = some (.column c) ∧ c.table = table := by
  obtain ⟨item, hitem, hlink⟩ := Option.map_eq_some_iff.1 h
  cases item with
  | table | index => cases hlink
  | column c => exact ⟨c, hitem, Link.column.inj hlink⟩

theorem links_eq_index {d : IndexDefinition} (h : s.links u = some (.index d)) :
    ∃ x, s.get? u = some (.index x) ∧ x.definition = d := by
  obtain ⟨item, hitem, hlink⟩ := Option.map_eq_some_iff.1 h
  cases item with
  | table | column => cases hlink
  | index x => exact ⟨x, hitem, Link.index.inj hlink⟩

theorem links_eq_table {columns indexes : List Uid}
    (h : s.links u = some (.table columns indexes)) :
    ∃ t, s.get? u = some (.table t) ∧ t.columns = columns ∧ t.indexes = indexes := by
  obtain ⟨item, hitem, hlink⟩ := Option.map_eq_some_iff.1 h
  cases item with
  | column | index => cases hlink
  | table t => exact ⟨t, hitem, Link.table.inj hlink⟩

/-! ### Rows -/

theorem RowsKept.mono {more : Nat} {rows : SortedMap Uid Row} (h : RowsKept bound rows)
    (hle : bound ≤ more) : RowsKept more rows :=
  { h with below := fun hrow => Nat.lt_of_lt_of_le (h.below hrow) hle }

theorem rowsKept_empty : RowsKept bound SortedMap.empty where
  lawful := SortedMap.valid_empty
  own := fun h => nomatch h
  below := fun h => nomatch h
  fields := fun h => nomatch h

theorem RowsKept.insert {rows : SortedMap Uid Row} {row : Row} (h : RowsKept bound rows)
    (hown : row.uid = u) (hbelow : u.place < bound) (hfields : row.fields.Lawful) :
    RowsKept bound (rows.insert u row) := by
  have hget :
      ∀ {v r}, (rows.insert u row).get? v = some r → v = u ∧ r = row ∨ rows.get? v = some r := by
    intro v r hr
    by_cases hv : v = u
    · rw [hv, h.lawful.get?_insert_self] at hr
      exact .inl ⟨hv, (Option.some.inj hr).symm⟩
    · exact .inr ((h.lawful.get?_insert_of_ne hv).symm.trans hr)
  constructor
  · exact h.lawful.insert _ _
  · intro v r hr
    rcases hget hr with ⟨rfl, rfl⟩ | hr
    · exact hown
    · exact h.own hr
  · intro v r hr
    rcases hget hr with ⟨rfl, rfl⟩ | hr
    · exact hbelow
    · exact h.below hr
  · intro v r hr
    rcases hget hr with ⟨rfl, rfl⟩ | hr
    · exact hfields
    · exact h.fields hr

theorem get?_of_get?_erase {K V : Type} [Ord K] [Std.TransOrd K] [Std.LawfulEqOrd K]
    {m : SortedMap K V} {key other : K} {value : V} (h : m.Lawful)
    (hget : (m.erase key).get? other = some value) : other ≠ key ∧ m.get? other = some value := by
  by_cases heq : other = key
  · rw [heq, h.get?_erase_self] at hget
    cases hget
  · exact ⟨heq, (h.get?_erase_of_ne heq).symm.trans hget⟩

theorem RowsKept.erase {rows : SortedMap Uid Row} (h : RowsKept bound rows) (u : Uid) :
    RowsKept bound (rows.erase u) where
  lawful := SortedMap.Lawful.erase h.lawful u
  own := fun hr => h.own (get?_of_get?_erase h.lawful hr).2
  below := fun hr => h.below (get?_of_get?_erase h.lawful hr).2
  fields := fun hr => h.fields (get?_of_get?_erase h.lawful hr).2

theorem get?_rowsWithout (h : RowsKept bound t.rows) :
    (rowsWithout t uid).get? u =
      (t.rows.get? u).map fun row => { row with fields := row.fields.erase uid } :=
  (h.lawful.mapValues (W := Row) fun row => { row with fields := row.fields.erase uid }).2 u

theorem RowsKept.without (h : RowsKept bound t.rows) (uid : Uid) :
    RowsKept bound (rowsWithout t uid) := by
  have hget : ∀ {u r}, (rowsWithout t uid).get? u = some r →
      ∃ row, t.rows.get? u = some row ∧ { row with fields := row.fields.erase uid } = r := by
    intro u r hr
    rw [get?_rowsWithout h] at hr
    exact Option.map_eq_some_iff.1 hr
  constructor
  · exact (h.lawful.mapValues (W := Row) fun row => { row with fields := row.fields.erase uid }).1
  · intro u r hr
    obtain ⟨row, hrow, rfl⟩ := hget hr
    exact (h.own hrow : row.uid = u)
  · intro u r hr
    obtain ⟨row, hrow, rfl⟩ := hget hr
    exact h.below hrow
  · intro u r hr
    obtain ⟨row, hrow, rfl⟩ := hget hr
    exact SortedMap.Lawful.erase (h.fields hrow) uid

/-! ### Changes that leave the links alone -/

theorem catalogued_empty (name : String) : Catalogued 0 (empty name) where
  items := SortedMap.valid_empty
  names := SortedMap.valid_empty
  own := fun h => nomatch h
  below := fun h => nomatch h
  linked := Linked.none
  rows := fun h => nomatch h

theorem Catalogued.mono {more : Nat} (h : Catalogued bound s) (hle : bound ≤ more) :
    Catalogued more s :=
  { h with
    below := fun hitem => Nat.lt_of_lt_of_le (h.below hitem) hle
    rows := fun ht => (h.rows ht).mono hle }

theorem Catalogued.endingAt (h : Catalogued bound s) (position : Nat) :
    Catalogued bound (s.endingAt position) :=
  ⟨h.items, h.names, h.own, h.below, h.linked, h.rows⟩

theorem Catalogued.index_uid (h : Catalogued bound s) (hx : s.index? u = some x) : x.uid = u :=
  h.own (index?_eq_some.1 hx)

theorem Catalogued.rekeyed {row : Uid} {old new : Option Row} (h : Catalogued bound s)
    (ht : s.get? u = some (.table t)) (hrekey : s.rekey t row old new = .ok m) :
    Rekeyed row old new t.indexes s m :=
  rekeyed_of_foldlM h.items (fun _ _ hx => h.index_uid hx) (h.linked.nodup (links_of_get? ht)).2
    (rekey_eq_ok hrekey).1

/-- Only trees of indexes have changed. -/
theorem get?_of_rekeyed {row : Uid} {old new : Option Row} {indexes : List Uid}
    (h : Rekeyed row old new indexes s m) (u : Uid) :
    m.get? u = s.get? u ∨
      ∃ x tree, s.get? u = some (.index x) ∧ m.get? u = some (.index { x with tree }) := by
  by_cases hu : u ∈ indexes
  · cases hx : s.index? u with
    | none => exact .inl (h.kept u hx)
    | some x =>
      obtain ⟨tree, htree, _⟩ := h.moved u hu x hx
      exact .inr ⟨x, tree, index?_eq_some.1 hx, htree⟩
  · exact .inl (h.other u hu)

theorem Rekeyed.table?_eq {row : Uid} {old new : Option Row} {indexes : List Uid}
    (h : Rekeyed row old new indexes s m) (u : Uid) : m.table? u = s.table? u := by
  rcases get?_of_rekeyed h u with heq | ⟨x, tree, hx, hmx⟩
  · exact table?_congr heq
  · rw [table?, table?, hx, hmx]

theorem Catalogued.of_rekeyed {row : Uid} {old new : Option Row} {indexes : List Uid}
    (h : Catalogued bound s) (hrekeyed : Rekeyed row old new indexes s m) : Catalogued bound m := by
  have hget := get?_of_rekeyed hrekeyed
  have hlinks : m.links = s.links := by
    funext u
    rcases hget u with heq | ⟨x, tree, hx, hmx⟩
    · rw [links, links, heq]
    · rw [links, links, hx, hmx]
      rfl
  constructor
  · exact hrekeyed.lawful
  · rw [hrekeyed.names]
    exact h.names
  · intro u item hitem
    rcases hget u with heq | ⟨x, tree, hx, hmx⟩
    · exact h.own (heq ▸ hitem)
    · rw [hmx] at hitem
      cases hitem
      exact (h.own hx : x.uid = u)
  · intro u item hitem
    rcases hget u with heq | ⟨x, tree, hx, hmx⟩
    · exact h.below (heq ▸ hitem)
    · exact h.below hx
  · rw [hlinks]
    exact h.linked
  · intro u t ht
    rcases hget u with heq | ⟨x, tree, hx, hmx⟩
    · exact h.rows (heq ▸ ht)
    · rw [hmx] at ht
      cases ht

/-- Items that are new or changed are in order, and the others are as they were. -/
theorem Catalogued.of_changes {more : Nat} (h : Catalogued bound s) (hle : bound ≤ more)
    (hitems : s'.items.Lawful) (hnames : s'.names.Lawful) (hlinked : Linked s'.links)
    (hchanges : ∀ v item, s'.get? v = some item →
      s.get? v = some item ∨
        item.uid = v ∧ v.place < more ∧ ∀ t, item = .table t → RowsKept more t.rows) :
    Catalogued more s' := by
  constructor
  · exact hitems
  · exact hnames
  · intro v item hv
    rcases hchanges v item hv with hv | hv
    · exact h.own hv
    · exact hv.1
  · intro v item hv
    rcases hchanges v item hv with hv | hv
    · exact Nat.lt_of_lt_of_le (h.below hv) hle
    · exact hv.2.1
  · exact hlinked
  · intro v t hv
    rcases hchanges v _ hv with hv | hv
    · exact (h.rows hv).mono hle
    · exact hv.2.2 t rfl

theorem links_set {item : CatalogItem} (h : s.items.Lawful) (v : Uid) :
    (s.set u item).links v = if v = u then some item.link else s.links v := by
  rw [links, links, get?_set h]
  split <;> rfl

theorem links_erase (h : s.items.Lawful) (v : Uid) :
    (s.erase u).links v = if v = u then none else s.links v := by
  rw [links, links, get?_erase h]
  split <;> rfl

theorem Catalogued.links_set_self {item other : CatalogItem} (h : Catalogued bound s)
    (hitem : s.get? u = some item) (hlink : other.link = item.link) :
    (s.set u other).links = s.links := by
  funext v
  rw [links_set h.items]
  split
  · next heq => rw [heq, hlink, links_of_get? hitem]
  · rfl

/-- An item may be exchanged for one with the same links. -/
theorem Catalogued.set {item other : CatalogItem} (h : Catalogued bound s)
    (hitem : s.get? u = some item) (hown : other.uid = u) (hlink : other.link = item.link)
    (hrows : ∀ t, other = .table t → RowsKept bound t.rows) : Catalogued bound (s.set u other) := by
  have hlinks := h.links_set_self hitem hlink
  refine h.of_changes (Nat.le_refl _) (lawful_set h.items) h.names (hlinks ▸ h.linked)
    fun v found hv => ?_
  rcases get?_set_cases h.items hv with ⟨rfl, rfl⟩ | ⟨_, hold⟩
  · exact .inr ⟨hown, h.below hitem, hrows⟩
  · exact .inl hold

theorem Catalogued.get?_fresh (h : Catalogued bound s) (hfresh : bound ≤ uid.place) :
    s.get? uid = none := by
  cases hitem : s.get? uid with
  | none => rfl
  | some item => exact absurd (h.below hitem) (Nat.not_lt.2 hfresh)

theorem Catalogued.table_uid (h : Catalogued bound s) (ht : s.table? u = some t) : t.uid = u :=
  h.own (table?_eq_some.1 ht)

/-! ### Indexes of a table -/

theorem Catalogued.table_of_index (h : Catalogued bound s) (hx : s.get? u = some (.index x)) :
    ∃ t, s.get? x.definition.table = some (.table t) := by
  obtain ⟨columns, indexes, hlink⟩ := h.linked.table_of_index (links_of_get? hx)
  obtain ⟨t, ht, _⟩ := links_eq_table hlink
  exact ⟨t, ht⟩

theorem Catalogued.mem_indexes_iff (h : Catalogued bound s) (ht : s.get? u = some (.table t))
    {v : Uid} (hx : s.get? v = some (.index x)) : v ∈ t.indexes ↔ x.definition.table = u := by
  rw [h.linked.mem_indexes (links_of_get? ht) v]
  constructor
  · rintro ⟨d, hd, rfl⟩
    rw [links_of_get? hx] at hd
    cases hd
    rfl
  · exact fun heq => ⟨_, links_of_get? hx, heq⟩

theorem Catalogued.columns_ne_nil (h : Catalogued bound s) (hx : s.get? u = some (.index x)) :
    x.definition.columns ≠ [] :=
  (h.linked.columns_of_index (links_of_get? hx)).1

theorem Catalogued.mem_indexes_of_get? (h : Catalogued bound s) (hx : s.get? u = some (.index x)) :
    x ∈ s.indexes x.definition.table := by
  obtain ⟨t, ht⟩ := h.table_of_index hx
  exact mem_indexes.2 ⟨t, table?_eq_some.2 ht, u, (h.mem_indexes_iff ht hx).2 rfl,
    index?_eq_some.2 hx⟩

theorem Catalogued.get?_of_mem_indexes (h : Catalogued bound s) (hx : x ∈ s.indexes u) :
    x.definition.table = u ∧ ∃ v, s.get? v = some (.index x) := by
  obtain ⟨t, ht, v, hv, hxv⟩ := mem_indexes.1 hx
  rw [index?_eq_some] at hxv
  exact ⟨(h.mem_indexes_iff (table?_eq_some.1 ht) hxv).1 hv, v, hxv⟩

end SnapshotStore.Snapshot
