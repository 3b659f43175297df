import SnapshotStore.Snapshot.Basic

/-!
# What tells the items of a catalogue apart

Besides their identifiers, tables are told apart by their names, the columns of a table by theirs,
and the indexes of a table by their columns and by which of them is the primary one. The map of
names finds exactly the tables that are there.
-/

namespace SnapshotStore

/-- The part of an item that tells it apart from others. -/
inductive Label where
  | table (name : String)
  | column (table : Uid) (name : String) (type : DataType)
  | index (definition : IndexDefinition)

def CatalogItem.label : CatalogItem → Label
  | table t => .table t.name
  | column c => .column c.table c.name c.type
  | index x => .index x.definition

structure Named (names : String → Option Uid) (labels : Uid → Option Label) : Prop where
  table : ∀ {name u}, names name = some u ↔ labels u = some (.table name)
  column : ∀ {u v table name type type'}, labels u = some (.column table name type) →
    labels v = some (.column table name type') → u = v
  primary : ∀ {u v d e}, labels u = some (.index d) → labels v = some (.index e) →
    d.table = e.table → d.primary → e.primary → u = v
  key : ∀ {u v d e}, labels u = some (.index d) → labels v = some (.index e) →
    d.table = e.table → d.columns = e.columns → u = v

namespace Named

variable {names names' : String → Option Uid} {labels labels' : Uid → Option Label} {u t : Uid}
  {name old : String}

theorem none : Named (fun _ => none) fun _ => none where
  table := ⟨fun h => (nomatch h), fun h => (nomatch h)⟩
  column := fun h => nomatch h
  primary := fun h => nomatch h
  key := fun h => nomatch h

theorem addTable (h : Named names labels) (hfresh : labels u = .none) (hfree : names name = .none)
    (hnames : ∀ m, names' m = if m = name then some u else names m)
    (hlabels : ∀ v, labels' v = if v = u then some (.table name) else labels v) :
    Named names' labels' := by
  obtain ⟨htable, hcolumn, hprimary, hkey⟩ := h
  constructor <;> simp only [hnames, hlabels] <;> grind

theorem renameTable (h : Named names labels) (ht : labels t = some (.table old))
    (hfree : ∀ v, names name = some v → v = t)
    (hnames : ∀ m, names' m = if m = name then some t else if m = old then .none else names m)
    (hlabels : ∀ v, labels' v = if v = t then some (.table name) else labels v) :
    Named names' labels' := by
  have hold : names old = some t := h.table.2 ht
  obtain ⟨htable, hcolumn, hprimary, hkey⟩ := h
  constructor <;> simp only [hnames, hlabels] <;> grind

/-- A column comes, or one that is there gets another name or type. -/
theorem setColumn {type : DataType} (h : Named names labels)
    (hu : ∀ name, labels u ≠ some (.table name))
    (hfree : ∀ v type, labels v = some (.column t name type) → v = u)
    (hlabels : ∀ v, labels' v = if v = u then some (.column t name type) else labels v) :
    Named names labels' := by
  obtain ⟨htable, hcolumn, hprimary, hkey⟩ := h
  constructor <;> simp only [hlabels] <;> grind

theorem addIndex {d : IndexDefinition} (h : Named names labels) (hfresh : labels u = .none)
    (hprimary : ∀ v e, labels v = some (.index e) → e.table = d.table → d.primary →
      e.primary = false)
    (hkey : ∀ v e, labels v = some (.index e) → e.table = d.table → e.columns ≠ d.columns)
    (hlabels : ∀ v, labels' v = if v = u then some (.index d) else labels v) :
    Named names labels' := by
  obtain ⟨htable, hcolumn, hprimary', hkey'⟩ := h
  constructor <;> simp only [hlabels] <;> grind

/-- A column or an index goes. -/
theorem drop (h : Named names labels) (hu : ∀ name, labels u ≠ some (.table name))
    (hlabels : ∀ v, labels' v = if v = u then .none else labels v) : Named names labels' := by
  obtain ⟨htable, hcolumn, hprimary, hkey⟩ := h
  constructor <;> simp only [hlabels] <;> grind

/-- A table goes with items that are not tables. -/
theorem dropTable {parts : List Uid} (h : Named names labels) (ht : labels t = some (.table name))
    (hparts : ∀ v ∈ parts, ∀ name, labels v ≠ some (.table name))
    (hnames : ∀ m, names' m = if m = name then .none else names m)
    (hlabels : ∀ v, labels' v = if v = t ∨ v ∈ parts then .none else labels v) :
    Named names' labels' := by
  have hname : names name = some t := h.table.2 ht
  obtain ⟨htable, hcolumn, hprimary, hkey⟩ := h
  constructor <;> simp only [hnames, hlabels] <;> grind

end Named

end SnapshotStore
