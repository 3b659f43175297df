import SnapshotStore.Proofs.Engine.Arising

/-!
# The integrity of every catalogue

The map of names, the lists in the tables, the entries of columns and indexes and the fields of the
rows all tell the same story, in whichever way a snapshot has come about.
-/

namespace SnapshotStore

namespace Snapshot

/-- The catalogue and the rows of a snapshot fit together. -/
structure Integrity (s : Snapshot) : Prop where
  names : ∀ name u, s.names.get? name = some u ↔ ∃ t, s.table? u = some t ∧ t.name = name
  nodup : ∀ {u t}, s.table? u = some t → t.columns.Nodup ∧ t.indexes.Nodup
  columns : ∀ {u t}, s.table? u = some t →
    ∀ v, v ∈ t.columns ↔ ∃ c, s.column? v = some c ∧ c.table = u
  indexes : ∀ {u t}, s.table? u = some t →
    ∀ v, v ∈ t.indexes ↔ ∃ x, s.index? v = some x ∧ x.definition.table = u
  column_names : ∀ {u v c c'}, s.column? u = some c → s.column? v = some c' →
    c.table = c'.table → c.name = c'.name → u = v
  one_primary : ∀ {u v x y}, s.index? u = some x → s.index? v = some y →
    x.definition.table = y.definition.table → x.definition.primary → y.definition.primary → u = v
  column_lists : ∀ {u v x y}, s.index? u = some x → s.index? v = some y →
    x.definition.table = y.definition.table → x.definition.columns = y.definition.columns → u = v
  keys : ∀ {u x}, s.index? u = some x → x.definition.columns ≠ [] ∧
    ∀ v ∈ x.definition.columns, ∃ c, s.column? v = some c ∧ c.table = x.definition.table
  rows : ∀ {u t v row}, s.table? u = some t → t.rows.get? v = some row → row.uid = v
  fields : ∀ {u t v row column value}, s.table? u = some t → t.rows.get? v = some row →
    row.fields.get? column = some value →
    value.isNull = false ∧ ∃ c, s.column? column = some c ∧ c.table = u ∧ value.fits c.type

variable {bound : Nat} {s : Snapshot}

theorem Coherent.integrity (h : s.Coherent) (hs : Catalogued bound s) : s.Integrity := by
  have hcolumn : ∀ {u c}, s.column? u = some c →
      s.labels u = some (.column c.table c.name c.type) :=
    fun hc => labels_of_get? (column?_eq_some.1 hc)
  have hindex : ∀ {u x}, s.index? u = some x → s.labels u = some (.index x.definition) :=
    fun hx => labels_of_get? (index?_eq_some.1 hx)
  have hlinks : ∀ {u t}, s.table? u = some t → s.links u = some (.table t.columns t.indexes) :=
    fun ht => links_of_get? (table?_eq_some.1 ht)
  constructor
  case names =>
    intro name u
    rw [h.named.table]
    constructor
    · intro hu
      obtain ⟨t, ht, hname⟩ := labels_eq_table hu
      exact ⟨t, table?_eq_some.2 ht, hname⟩
    · rintro ⟨t, ht, rfl⟩
      exact labels_of_get? (table?_eq_some.1 ht)
  case nodup => exact fun ht => hs.linked.nodup (hlinks ht)
  case columns =>
    intro u t ht v
    rw [hs.linked.mem_columns (hlinks ht) v]
    constructor
    · intro hv
      obtain ⟨c, hc, htable⟩ := links_eq_column hv
      exact ⟨c, column?_eq_some.2 hc, htable⟩
    · rintro ⟨c, hc, rfl⟩
      exact links_of_get? (column?_eq_some.1 hc)
  case indexes =>
    intro u t ht v
    rw [hs.linked.mem_indexes (hlinks ht) v]
    constructor
    · rintro ⟨d, hd, htable⟩
      obtain ⟨x, hx, rfl⟩ := links_eq_index hd
      exact ⟨x, index?_eq_some.2 hx, htable⟩
    · rintro ⟨x, hx, htable⟩
      exact ⟨x.definition, links_of_get? (index?_eq_some.1 hx), htable⟩
  case column_names =>
    intro u v c c' hc hc' htable hname
    have hv := hcolumn hc'
    rw [← htable, ← hname] at hv
    exact h.named.column (hcolumn hc) hv
  case one_primary => exact fun hx hy => h.named.primary (hindex hx) (hindex hy)
  case column_lists => exact fun hx hy => h.named.key (hindex hx) (hindex hy)
  case keys =>
    intro u x hx
    obtain ⟨hne, hlive⟩ := hs.linked.columns_of_index (links_of_get? (index?_eq_some.1 hx))
    refine ⟨hne, fun v hv => ?_⟩
    obtain ⟨c, hc, htable⟩ := links_eq_column (hlive v hv)
    exact ⟨c, column?_eq_some.2 hc, htable⟩
  case rows => exact fun ht hrow => (hs.rows (table?_eq_some.1 ht)).own hrow
  case fields =>
    intro u t v row column value ht hrow hvalue
    obtain ⟨hnull, name, type, hlabel, hfits⟩ :=
      h.fits (table?_eq_some.1 ht) hrow column value hvalue
    obtain ⟨c, hc, htable, _, rfl⟩ := labels_eq_column hlabel
    exact ⟨hnull, c, column?_eq_some.2 hc, htable, hfits⟩

end Snapshot

variable {name : String} {objects : List LogObject} {s : Snapshot}

/-- Every snapshot, replayed, published or seen by a transaction, has an intact catalogue. -/
theorem catalogue_intact (h : Arises name objects s) : s.Integrity := by
  obtain ⟨_, hs⟩ := h.catalogued
  exact h.coherent.integrity hs

/-- A transaction renames a table, widens a key column and drops another column that has a value. -/
theorem catalogue_intact_after_alterations :
    let objects := [.newTable "t", .newColumn "a" .integer (.provisional 0),
      .newColumn "b" .string (.provisional 0),
      .newIndex ⟨.provisional 0, true, [.provisional 1], none⟩,
      .record (.provisional 0) [(.provisional 1, .integer 1), (.provisional 2, .string "x")],
      .alter (.provisional 0) (some (.provisional 1)) "c" (some .numeric),
      .drop (.provisional 2) (some (.provisional 0)), .alter (.provisional 0) none "u" none]
    let view := ((Snapshot.empty "db").begin.taking objects).view
    view.Integrity ∧ view.names.get? "t" = none ∧
      ∃ t, view.table? (.provisional 0) = some t ∧ t.name = "u" ∧
        t.columns = [.provisional 1] ∧ t.indexes = [.provisional 3] := by
  intro objects view
  have hrun : Run "db" (.fresh "db") _ := Run.refl.begin List.mem_cons_self objects
  have harises : Arises "db" _ view := .view ⟨_, opened_fresh "db", hrun⟩ (by decide +kernel) rfl
    (List.mem_append_right _ List.mem_cons_self)
  have hfound : (view.table? (.provisional 0)).map (fun t => (t.name, t.columns, t.indexes)) =
      some ("u", [.provisional 1], [.provisional 3]) := by decide +kernel
  obtain ⟨t, ht, heq⟩ := Option.map_eq_some_iff.1 hfound
  obtain ⟨hname, hlists⟩ := Prod.mk.inj heq
  obtain ⟨hcolumns, hindexes⟩ := Prod.mk.inj hlists
  exact ⟨catalogue_intact harises, by decide +kernel, t, ht, hname, hcolumns, hindexes⟩

end SnapshotStore
