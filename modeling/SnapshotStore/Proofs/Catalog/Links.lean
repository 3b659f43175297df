import SnapshotStore.Snapshot.Basic

/-!
# The links of a catalogue

What ties the items of a catalogue together: a table lists its columns and its indexes, a column
knows its table, and an index knows its table and the columns of its key. In a linked catalogue the
lists are exactly the columns and indexes that are there.
-/

namespace SnapshotStore

/-- The part of an item that refers to other items. -/
inductive Link where
  | table (columns indexes : List Uid)
  | column (table : Uid)
  | index (definition : IndexDefinition)

namespace CatalogItem

def link : CatalogItem → Link
  | table t => .table t.columns t.indexes
  | column c => .column c.table
  | index x => .index x.definition

def uid : CatalogItem → Uid
  | table t => t.uid
  | column c => c.uid
  | index x => x.uid

end CatalogItem

structure Linked (links : Uid → Option Link) : Prop where
  nodup : ∀ {u columns indexes},
    links u = some (.table columns indexes) → columns.Nodup ∧ indexes.Nodup
  mem_columns : ∀ {u columns indexes},
    links u = some (.table columns indexes) → ∀ v, v ∈ columns ↔ links v = some (.column u)
  mem_indexes : ∀ {u columns indexes}, links u = some (.table columns indexes) →
    ∀ v, v ∈ indexes ↔ ∃ d, links v = some (.index d) ∧ d.table = u
  table_of_column : ∀ {v u},
    links v = some (.column u) → ∃ columns indexes, links u = some (.table columns indexes)
  table_of_index : ∀ {v d},
    links v = some (.index d) → ∃ columns indexes, links d.table = some (.table columns indexes)
  columns_of_index : ∀ {v d},
    links v = some (.index d) → d.columns ≠ [] ∧ ∀ c ∈ d.columns, links c = some (.column d.table)

namespace Linked

variable {links links' : Uid → Option Link} {u t : Uid} {columns indexes : List Uid}

theorem none : Linked fun _ => none where
  nodup := fun h => nomatch h
  mem_columns := fun h => nomatch h
  mem_indexes := fun h => nomatch h
  table_of_column := fun h => nomatch h
  table_of_index := fun h => nomatch h
  columns_of_index := fun h => nomatch h

/-- A new table has neither columns nor indexes. -/
theorem addTable (h : Linked links) (hfresh : links u = .none)
    (hlinks : ∀ v, links' v = if v = u then some (.table [] []) else links v) : Linked links' := by
  obtain ⟨hnodup, hcolumns, hindexes, hcolumn, hindex, hkeys⟩ := h
  constructor <;> simp only [hlinks] <;> grind

theorem addColumn (h : Linked links) (hfresh : links u = .none)
    (ht : links t = some (.table columns indexes))
    (hlinks : ∀ v, links' v = if v = u then some (.column t)
      else if v = t then some (.table (columns ++ [u]) indexes) else links v) : Linked links' := by
  obtain ⟨hnodup, hcolumns, hindexes, hcolumn, hindex, hkeys⟩ := h
  constructor <;> simp only [hlinks] <;> grind

theorem addIndex {d : IndexDefinition} (h : Linked links) (hfresh : links u = .none)
    (ht : links d.table = some (.table columns indexes)) (hne : d.columns ≠ [])
    (hlive : ∀ c ∈ d.columns, links c = some (.column d.table))
    (hlinks : ∀ v, links' v = if v = u then some (.index d)
      else if v = d.table then some (.table columns (indexes ++ [u])) else links v) :
    Linked links' := by
  obtain ⟨hnodup, hcolumns, hindexes, hcolumn, hindex, hkeys⟩ := h
  constructor <;> simp only [hlinks] <;> grind

/-- A column goes that is no key column. -/
theorem dropColumn (h : Linked links) (ht : links t = some (.table columns indexes))
    (hu : links u = some (.column t))
    (hfree : ∀ v d, links v = some (.index d) → d.table = t → u ∉ d.columns)
    (hlinks : ∀ v, links' v = if v = u then .none
      else if v = t then some (.table (columns.filter (· ≠ u)) indexes) else links v) :
    Linked links' := by
  obtain ⟨hnodup, hcolumns, hindexes, hcolumn, hindex, hkeys⟩ := h
  constructor <;> simp only [hlinks] <;> grind

theorem dropIndex {d : IndexDefinition} (h : Linked links)
    (ht : links d.table = some (.table columns indexes)) (hu : links u = some (.index d))
    (hlinks : ∀ v, links' v = if v = u then .none
      else if v = d.table then some (.table columns (indexes.filter (· ≠ u))) else links v) :
    Linked links' := by
  obtain ⟨hnodup, hcolumns, hindexes, hcolumn, hindex, hkeys⟩ := h
  constructor <;> simp only [hlinks] <;> grind

/-- A table goes with its columns and indexes. -/
theorem dropTable (h : Linked links) (ht : links t = some (.table columns indexes))
    (hlinks : ∀ v, links' v = if v = t ∨ v ∈ columns ∨ v ∈ indexes then .none else links v) :
    Linked links' := by
  obtain ⟨hnodup, hcolumns, hindexes, hcolumn, hindex, hkeys⟩ := h
  constructor <;> simp only [hlinks] <;> grind

end Linked

end SnapshotStore
