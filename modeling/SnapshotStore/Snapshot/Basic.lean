import SnapshotStore.Error
import SnapshotStore.Index.Basic

/-!
# Snapshots

A snapshot is what the items of the log up to one position amount to: a catalogue of tables, columns
and indexes by their identifiers, the rows of each table, and the names of the tables.
-/

namespace SnapshotStore

/-- A row has the identifier of the record that created it and the version of the object that wrote
its fields last. A field that is missing is null. -/
structure Row where
  uid : Uid
  version : Uid
  fields : SortedMap Uid Value

namespace Row

def get (row : Row) (column : Uid) : Value := (row.fields.get? column).getD .null

end Row

/-- Columns and indexes are in the order of their definition. -/
structure Table where
  uid : Uid
  name : String
  columns : List Uid
  rows : SortedMap Uid Row
  indexes : List Uid

structure Column where
  uid : Uid
  name : String
  type : DataType
  table : Uid

/-- The tree takes the values of the key columns to rows. -/
structure Index where
  uid : Uid
  definition : IndexDefinition
  tree : CompositeIndex Value

namespace IndexDefinition

/-- The values of a row in the columns of an index. -/
def keyOf (d : IndexDefinition) (row : Row) : List Value := d.columns.map row.get

/-- Nulls are never indexed, and only a primary index keeps rows from sharing a key. -/
def keyColumns (d : IndexDefinition) : List KeyColumn :=
  match d.columns with
  | [] => []
  | _ :: columns => columns.map (fun _ => .unique) ++ [if d.primary then .unique else .duplicates]

end IndexDefinition

namespace Index

/-- The rows whose key starts with `start`, in the order of the index. -/
def rows (x : Index) (start : List Value) : List Uid := (x.tree.rows start).map Uid.mk

def inspect (x : Index) : String :=
  let d := x.definition
  "IndexEntry \x7b uid: " ++ x.uid.inspect ++ ", def: IndexDef \x7b table: " ++ d.table.inspect ++
    ", primary: " ++ (if d.primary then "true" else "false") ++ ", columns: " ++ Uid.inspectList d.columns ++
    ", references: " ++ d.references.elim "None" (fun u => "Some(" ++ u.inspect ++ ")") ++
    " \x7d, len: " ++ toString x.tree.size ++ " \x7d"

end Index

inductive CatalogItem where
  | table (table : Table)
  | column (column : Column)
  | index (index : Index)

/-- `position` is the end of the part of the log that the snapshot reflects. -/
structure Snapshot where
  name : String
  items : SortedMap Uid CatalogItem
  names : SortedMap String Uid
  position : Nat

namespace Snapshot

def empty (name : String) : Snapshot := ⟨name, SortedMap.empty, SortedMap.empty, 0⟩

def endingAt (s : Snapshot) (position : Nat) : Snapshot := { s with position }

def get? (s : Snapshot) (uid : Uid) : Option CatalogItem := s.items.get? uid

def contains (s : Snapshot) (uid : Uid) : Bool := (s.get? uid).isSome

def table? (s : Snapshot) (uid : Uid) : Option Table :=
  match s.get? uid with
  | some (.table table) => some table
  | _ => none

def column? (s : Snapshot) (uid : Uid) : Option Column :=
  match s.get? uid with
  | some (.column column) => some column
  | _ => none

def index? (s : Snapshot) (uid : Uid) : Option Index :=
  match s.get? uid with
  | some (.index index) => some index
  | _ => none

/-- The name of a table or a column. -/
def name? (s : Snapshot) (uid : Uid) : Option String :=
  match s.get? uid with
  | some (.table table) => some table.name
  | some (.column column) => some column.name
  | _ => none

def tableNamed? (s : Snapshot) (name : String) : Option Table := (s.names.get? name).bind s.table?

def requireTable (s : Snapshot) (name : String) : Except Error Table :=
  (s.tableNamed? name).elim (.error (.tableNotFound name)) .ok

/-- The tables in the order of their names. -/
def tables (s : Snapshot) : List Table := s.names.values.filterMap s.table?

def columnNamed? (s : Snapshot) (table : Uid) (name : String) : Option Column := do
  let table ← s.table? table
  (table.columns.filterMap s.column?).find? (·.name = name)

def row? (s : Snapshot) (table row : Uid) : Option Row := do
  let table ← s.table? table
  table.rows.get? row

def indexes (s : Snapshot) (table : Uid) : List Index := (s.table? table).elim [] fun table => table.indexes.filterMap s.index?

def primaryIndex? (s : Snapshot) (table : Uid) : Option Index := (s.indexes table).find? (·.definition.primary)

/-- The foreign keys into a table. -/
def foreignKeysInto (s : Snapshot) (table : Uid) : List Index :=
  s.items.values.filterMap fun
    | .index x => if x.definition.references = some table then some x else none
    | _ => none

end Snapshot

end SnapshotStore
