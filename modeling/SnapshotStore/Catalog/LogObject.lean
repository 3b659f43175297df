import SnapshotStore.Catalog.Uid
import SnapshotStore.Value.Basic

/-!
# Log objects

What a transaction collects and the log stores: definitions of tables, columns and indexes,
alterations and drops of them, and rows written, updated and deleted.
-/

namespace SnapshotStore

/-- A column and what a row holds there. -/
abbrev Field := Uid × Value

/-- An index over columns of a table; one that references a table is a foreign key into the primary
index there. -/
structure IndexDefinition where
  table : Uid
  primary : Bool
  columns : List Uid
  references : Option Uid
  deriving DecidableEq

/-- A row is identified by the record that created it. A drop without a parent drops a table, one
with a parent a column of it. -/
inductive LogObject where
  | newTable (name : String)
  | newColumn (name : String) (type : DataType) (table : Uid)
  | record (table : Uid) (fields : List Field)
  | update (table : Uid) (fields : List Field) (row : Uid)
  | delete (table row : Uid)
  | alter (table : Uid) (column : Option Uid) (name : String) (type : Option DataType)
  | drop (target : Uid) (parent : Option Uid)
  | newIndex (definition : IndexDefinition)
  | dropIndex (table : Uid) (columns : List Uid)
  deriving DecidableEq

namespace LogObject

/-- The byte that an object starts with in the log. -/
def tag : LogObject → UInt8
  | newTable .. => 9
  | newColumn .. => 10
  | record .. => 11
  | update .. => 12
  | delete .. => 13
  | alter .. => 14
  | drop .. => 15
  | newIndex .. => 17
  | dropIndex .. => 54

def label : LogObject → String
  | newTable .. => "table"
  | newColumn .. => "column"
  | record .. => "record"
  | update .. => "update"
  | delete .. => "delete"
  | alter .. => "alter"
  | drop .. => "drop"
  | newIndex .. => "index"
  | dropIndex .. => "drop index"

/-- The table that an object belongs to; a definition of a table belongs to none. -/
def table? : LogObject → Option Uid
  | newTable _ => none
  | newColumn _ _ table => some table
  | record table _ => some table
  | update table _ _ => some table
  | delete table _ => some table
  | alter table _ _ _ => some table
  | drop target parent => some (parent.getD target)
  | newIndex definition => some definition.table
  | dropIndex table _ => some table

/-- The object with another identifier for each one that it holds. -/
def mapUids (f : Uid → Uid) : LogObject → LogObject
  | newTable name => newTable name
  | newColumn name type table => newColumn name type (f table)
  | record table fields => record (f table) (fields.map fun (column, value) => (f column, value))
  | update table fields row => update (f table) (fields.map fun (column, value) => (f column, value)) (f row)
  | delete table row => delete (f table) (f row)
  | alter table column name type => alter (f table) (column.map f) name type
  | drop target parent => drop (f target) (parent.map f)
  | newIndex ⟨table, primary, columns, references⟩ => newIndex ⟨f table, primary, columns.map f, references.map f⟩
  | dropIndex table columns => dropIndex (f table) (columns.map f)

/-- What messages show. -/
def text : LogObject → String
  | newTable name => "table " ++ name
  | newColumn name type table => "column " ++ name ++ " " ++ type.name ++ " of " ++ table.text
  | record table fields => "record in " ++ table.text ++ " (" ++ toString fields.length ++ " fields)"
  | update table _ row => "update of " ++ row.text ++ " in " ++ table.text
  | delete table row => "delete of " ++ row.text ++ " in " ++ table.text
  | alter table (some column) name _ => "alter column " ++ column.text ++ " of " ++ table.text ++ " to " ++ name
  | alter table none name _ => "rename table " ++ table.text ++ " to " ++ name
  | drop target (some parent) => "drop " ++ target.text ++ " of " ++ parent.text
  | drop target none => "drop " ++ target.text
  | newIndex definition => "index on " ++ definition.table.text ++ " " ++ Uid.inspectList definition.columns
  | dropIndex table columns => "drop index on " ++ table.text ++ " " ++ Uid.inspectList columns

end LogObject

end SnapshotStore
