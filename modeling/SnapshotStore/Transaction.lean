import SnapshotStore.Snapshot.Install

/-!
# Transactions

A transaction collects steps against a view of its own: the snapshot that it began on with every
step so far installed. It also remembers what it read, so that its commit can tell whether others
have changed that. An operation that fails leaves the transaction as it was.
-/

namespace SnapshotStore

/-- An object that waits for its place in the log, under a provisional identifier. -/
structure Step where
  uid : Uid
  object : LogObject
  deriving DecidableEq

structure Transaction where
  rollbackPoint : Snapshot
  view : Snapshot
  steps : List Step
  reads : ReadSet

def Snapshot.begin (s : Snapshot) : Transaction := ⟨s, s, [], .empty⟩

namespace Transaction

/-- Takes one more step and gives its identifier. -/
def add (tx : Transaction) (object : LogObject) : Except Error (Uid × Transaction) := do
  let uid := Uid.provisional tx.steps.length
  let view ← tx.view.install .proposed uid object
  .ok (uid, { tx with view, steps := tx.steps ++ [⟨uid, object⟩] })

/-! ### Definitions -/

def createTable (tx : Transaction) (name : String) : Except Error (Uid × Transaction) := tx.add (.newTable name)

def addColumn (tx : Transaction) (table : Uid) (name : String) (type : DataType) : Except Error (Uid × Transaction) :=
  tx.add (.newColumn name type table)

/-- A foreign key references the table whose primary index has to hold its keys. -/
def createIndex (tx : Transaction) (definition : IndexDefinition) : Except Error (Uid × Transaction) :=
  tx.add (.newIndex definition)

def renameTable (tx : Transaction) (table : Uid) (name : String) : Except Error (Uid × Transaction) :=
  tx.add (.alter table none name none)

/-- A column keeps its type unless it gets another one. -/
def alterColumn (tx : Transaction) (table column : Uid) (name : String) (type : Option DataType) :
    Except Error (Uid × Transaction) :=
  tx.add (.alter table (some column) name type)

def dropTable (tx : Transaction) (table : Uid) : Except Error (Uid × Transaction) := tx.add (.drop table none)

def dropColumn (tx : Transaction) (table column : Uid) : Except Error (Uid × Transaction) :=
  tx.add (.drop column (some table))

def dropIndex (tx : Transaction) (table : Uid) (columns : List Uid) : Except Error (Uid × Transaction) :=
  tx.add (.dropIndex table columns)

/-! ### Rows -/

/-- The identifier of the step is that of the row from now on. -/
def insert (tx : Transaction) (table : Uid) (fields : List Field) : Except Error (Uid × Transaction) :=
  tx.add (.record table fields)

/-- Lays changes over the fields of a row; a change to null clears a field. The step holds all
fields of the row. -/
def update (tx : Transaction) (table row : Uid) (changes : List Field) : Except Error (Uid × Transaction) := do
  let current ← orError (tx.view.row? table row) (.objectNotFound row)
  let fields := changes.foldl (fun fields (column, value) => fields.insert column value) current.fields
  tx.add (.update table fields.toList row)

def delete (tx : Transaction) (table row : Uid) : Except Error (Uid × Transaction) := tx.add (.delete table row)

/-! ### Reads -/

/-- Remembers that a row or a whole table was read. -/
def noteRead (tx : Transaction) (uid : Uid) : Transaction := { tx with reads := tx.reads.insert uid }

/-- A row that is missing counts as read, too. -/
def readRow (tx : Transaction) (table row : Uid) : Except Error (Option Row × Transaction) := do
  ensure (tx.view.table? table).isSome (.objectNotFound table)
  .ok (tx.view.row? table row, tx.noteRead row)

/-- All rows of a table. -/
def readTable (tx : Transaction) (uid : Uid) : Except Error (List Row × Transaction) := do
  let table ← orError (tx.view.table? uid) (.objectNotFound uid)
  .ok (table.rows.values, tx.noteRead uid)

/-- The rows whose key in an index starts with `start`. A single row is read alone, several of them
or an empty `start` read the whole table, and no row at all reads nothing. -/
def readByKey (tx : Transaction) (uid : Uid) (start : List Value) : Except Error (List Row × Transaction) := do
  let index ← orError (tx.view.index? uid) (.objectNotFound uid)
  let table := index.definition.table
  let found := index.rows start
  let noted := match start, found with
    | [], _ | _, _ :: _ :: _ => tx.noteRead table
    | _, [row] => tx.noteRead row
    | _, [] => tx
  .ok (found.filterMap (tx.view.row? table), noted)

/-! ### Validation -/

/-- How an object that was committed since the transaction began stands against it. -/
def conflict? (tx : Transaction) (committed : LogObject) (uid : Uid) : Option Conflict :=
  if tx.reads.violatedBy committed uid then some (.withReads committed uid)
  else (tx.steps.find? fun step => step.object.conflicts step.uid committed uid).map (.withStep ·.object committed uid)

/-- The transaction can be committed after the given objects only if it conflicts with none. -/
def checkAgainst (tx : Transaction) (committed : List (Uid × LogObject)) : Except Error Unit :=
  match committed.findSome? fun (uid, object) => tx.conflict? object uid with
  | none => .ok ()
  | some conflict => .error (.transactionConflict conflict)

end Transaction

end SnapshotStore
