import SnapshotStore.Proofs.Alike.Index
import SnapshotStore.Proofs.Order
import SnapshotStore.Snapshot.Install

/-!
# Snapshots over related identifiers

Two snapshots are alike if they say the same about related identifiers: related items stand under
related keys, and names, types and values are the same. The relation need not be the same on all
identifiers. It has to respect their order, and then it is one to one as far as it reaches.
-/

namespace SnapshotStore

variable {R : Uid → Uid → Prop} {u u' v v' : Uid}

/-! ### Identifiers -/

/-- The rows in the trees of indexes are places of identifiers. -/
def RelatedRows (R : Uid → Uid → Prop) (row row' : RowId) : Prop := R ⟨row⟩ ⟨row'⟩

namespace ComparesAlike

variable (hR : ComparesAlike R)
include hR

theorem rows : ComparesAlike (RelatedRows R) := fun _ _ _ _ ha hb => hR _ _ _ _ ha hb

theorem eq_iff (hu : R u u') (hv : R v v') : u = v ↔ u' = v' := by
  have heq : compare u v = .eq ↔ u = v := Std.LawfulEqCmp.compare_eq_iff_eq
  rw [← heq, hR _ _ _ _ hu hv, Std.LawfulEqCmp.compare_eq_iff_eq]

theorem decide_eq (hu : R u u') (hv : R v v') : decide (u = v) = decide (u' = v') :=
  decide_eq_decide.2 (hR.eq_iff hu hv)

theorem list_eq_iff {us us' vs vs' : List Uid} (hus : List.Forall₂ R us us')
    (hvs : List.Forall₂ R vs vs') : us = vs ↔ us' = vs' := by
  induction hus generalizing vs vs' with
  | nil => cases hvs <;> simp
  | cons hfirst _ ih =>
    cases hvs with
    | nil => simp
    | cons hfirst' hvs =>
      rw [List.cons_eq_cons, List.cons_eq_cons, hR.eq_iff hfirst hfirst', ih hvs]

theorem mem_iff {us us' : List Uid} (hus : List.Forall₂ R us us') (hu : R u u') :
    u ∈ us ↔ u' ∈ us' := by
  induction hus with
  | nil => simp
  | cons hfirst _ ih => rw [List.mem_cons, List.mem_cons, hR.eq_iff hu hfirst, ih]

theorem option_eq_iff {x x' : Option Uid} (hx : Option.Rel R x x') (hu : R u u') :
    x = some u ↔ x' = some u' := by
  cases hx with
  | none => simp
  | some hx => rw [Option.some_inj, Option.some_inj, hR.eq_iff hx hu]

theorem filter_ne {us us' : List Uid} (hus : List.Forall₂ R us us') (hu : R u u') :
    List.Forall₂ R (us.filter (· ≠ u)) (us'.filter (· ≠ u')) := by
  refine List.rel_filter (fun a a' ha => ?_) hus
  simpa using not_congr (hR.eq_iff ha hu)

end ComparesAlike

/-! ### Items -/

structure Row.Alike (R : Uid → Uid → Prop) (row row' : Row) : Prop where
  uid : R row.uid row'.uid
  version : R row.version row'.version
  fields : SortedMap.Alike R Eq row.fields row'.fields

structure Table.Alike (R : Uid → Uid → Prop) (t t' : Table) : Prop where
  uid : R t.uid t'.uid
  name : t.name = t'.name
  columns : List.Forall₂ R t.columns t'.columns
  rows : SortedMap.Alike R (Row.Alike R) t.rows t'.rows
  indexes : List.Forall₂ R t.indexes t'.indexes

structure Column.Alike (R : Uid → Uid → Prop) (c c' : Column) : Prop where
  uid : R c.uid c'.uid
  name : c.name = c'.name
  type : c.type = c'.type
  table : R c.table c'.table

structure IndexDefinition.Alike (R : Uid → Uid → Prop) (d d' : IndexDefinition) : Prop where
  table : R d.table d'.table
  primary : d.primary = d'.primary
  columns : List.Forall₂ R d.columns d'.columns
  references : Option.Rel R d.references d'.references

structure Index.Alike (R : Uid → Uid → Prop) (x x' : Index) : Prop where
  uid : R x.uid x'.uid
  definition : x.definition.Alike R x'.definition
  tree : x.tree.Alike (RelatedRows R) x'.tree

inductive CatalogItem.Alike (R : Uid → Uid → Prop) : CatalogItem → CatalogItem → Prop where
  | table {t t' : Table} (h : t.Alike R t') : Alike R (.table t) (.table t')
  | column {c c' : Column} (h : c.Alike R c') : Alike R (.column c) (.column c')
  | index {x x' : Index} (h : x.Alike R x') : Alike R (.index x) (.index x')

/-- Two snapshots say the same about related identifiers; where they end is left open. -/
structure Snapshot.Alike (R : Uid → Uid → Prop) (s s' : Snapshot) : Prop where
  name : s.name = s'.name
  items : SortedMap.Alike R (CatalogItem.Alike R) s.items s'.items
  names : SortedMap.Alike Eq R s.names s'.names

/-! ### Rows and their keys -/

section Ordered

variable (hR : ComparesAlike R) {row row' : Row} {d d' : IndexDefinition}
include hR

theorem Row.Alike.get_eq (h : row.Alike R row') (hu : R u u') : row.get u = row'.get u' := by
  have hvalue := h.fields.get? hR hu
  rw [Row.get, Row.get]
  generalize row.fields.get? u = value, row'.fields.get? u' = value' at hvalue
  cases hvalue with
  | none => rfl
  | some hvalue => exact hvalue

theorem IndexDefinition.Alike.keyOf_eq (h : d.Alike R d') (hrow : row.Alike R row') :
    d.keyOf row = d'.keyOf row' := by
  refine List.forall₂_eq_eq_eq ▸ (List.rel_map (fun _ _ hu => ?_) h.columns)
  exact hrow.get_eq hR hu

end Ordered

theorem IndexDefinition.Alike.keyColumns_eq {d d' : IndexDefinition} (h : d.Alike R d') :
    d.keyColumns = d'.keyColumns := by
  obtain ⟨table, primary, columns, references⟩ := d
  obtain ⟨table', primary', columns', references'⟩ := d'
  obtain ⟨_, rfl, hcolumns, _⟩ := h
  cases hcolumns with
  | nil => rfl
  | cons _ hcolumns => simp [keyColumns, List.map_const', hcolumns.length_eq]

/-! ### Looking things up -/

namespace Snapshot

variable {s s' : Snapshot} (hR : ComparesAlike R) (h : s.Alike R s')
include hR h

theorem get?_alike (hu : R u u') : Option.Rel (CatalogItem.Alike R) (s.get? u) (s'.get? u') :=
  h.items.get? hR hu

theorem table?_alike (hu : R u u') : Option.Rel (Table.Alike R) (s.table? u) (s'.table? u') := by
  have hitem := get?_alike hR h hu
  rw [table?, table?]
  generalize s.get? u = item, s'.get? u' = item' at hitem
  cases hitem with
  | none => exact .none
  | some hitem =>
    cases hitem with
    | table h => exact .some h
    | column | index => exact .none

theorem column?_alike (hu : R u u') :
    Option.Rel (Column.Alike R) (s.column? u) (s'.column? u') := by
  have hitem := get?_alike hR h hu
  rw [column?, column?]
  generalize s.get? u = item, s'.get? u' = item' at hitem
  cases hitem with
  | none => exact .none
  | some hitem =>
    cases hitem with
    | column h => exact .some h
    | table | index => exact .none

theorem index?_alike (hu : R u u') : Option.Rel (Index.Alike R) (s.index? u) (s'.index? u') := by
  have hitem := get?_alike hR h hu
  rw [index?, index?]
  generalize s.get? u = item, s'.get? u' = item' at hitem
  cases hitem with
  | none => exact .none
  | some hitem =>
    cases hitem with
    | index h => exact .some h
    | table | column => exact .none

theorem columnOf?_alike {t t' : Table} (ht : t.Alike R t') (hu : R u u') :
    Option.Rel (Column.Alike R) (s.columnOf? t u) (s'.columnOf? t' u') := by
  refine rel_option_filter (column?_alike hR h hu) fun c c' hc => ?_
  exact hR.decide_eq hc.table ht.uid

theorem columnNamed?_alike (hu : R u u') (name : String) :
    Option.Rel (Column.Alike R) (s.columnNamed? u name) (s'.columnNamed? u' name) := by
  refine rel_option_bind (table?_alike hR h hu) fun t t' ht => ?_
  refine rel_find? (List.rel_filterMap (fun _ _ hc => column?_alike hR h hc) ht.columns) ?_
  exact fun c c' hc => by rw [hc.name]

theorem indexes_alike (hu : R u u') :
    List.Forall₂ (Index.Alike R) (s.indexes u) (s'.indexes u') := by
  have ht := table?_alike hR h hu
  rw [indexes, indexes]
  generalize s.table? u = t, s'.table? u' = t' at ht
  cases ht with
  | none => exact .nil
  | some ht => exact List.rel_filterMap (fun _ _ hx => index?_alike hR h hx) ht.indexes

theorem primaryIndex?_alike (hu : R u u') :
    Option.Rel (Index.Alike R) (s.primaryIndex? u) (s'.primaryIndex? u') :=
  rel_find? (indexes_alike hR h hu) fun _ _ hx => hx.definition.primary

theorem foreignKeysInto_alike (hu : R u u') :
    List.Forall₂ (Index.Alike R) (s.foreignKeysInto u) (s'.foreignKeysInto u') := by
  refine List.rel_filterMap (fun item item' hitem => ?_) h.items.values
  cases hitem with
  | table | column => exact .none
  | index hx =>
    have hreferences := hR.option_eq_iff hx.definition.references hu
    dsimp only
    simp only [hreferences]
    split
    · exact .some hx
    · exact .none

end Snapshot

end SnapshotStore
