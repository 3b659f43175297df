import SnapshotStore.Snapshot.Basic

/-!
# Installing objects

Installing an object in a snapshot gives the snapshot after it, or the reason why the object does
not fit. Rows and indexes change together: every row of a table stands in each index of the table
under its key, and every key of a foreign key stands in the primary index that it refers to.
-/

namespace SnapshotStore

/-- Whether an object stands in the log or is only proposed. What a proposed object gets wrong is
its own error; in the log the same is corruption. -/
inductive Standing where
  | committed
  | proposed
  deriving DecidableEq

namespace Standing

def dangling (standing : Standing) (uid : Uid) : Error :=
  match standing with
  | committed => .corruption (.missingObject uid)
  | proposed => .objectNotFound uid

def illDefined (standing : Standing) (fault : DefinitionFault) : Error :=
  match standing with
  | committed => .corruption (.definition fault)
  | proposed => .schema (.definition fault)

end Standing

/-- The value that is there, or else an error. -/
def orError {A : Type} (value : Option A) (error : Error) : Except Error A := value.elim (.error error) .ok

/-- Nothing if a condition holds, or else an error. -/
def ensure (holds : Bool) (error : Error) : Except Error Unit := if holds then .ok () else .error error

namespace Snapshot

def set (s : Snapshot) (uid : Uid) (entry : CatalogItem) : Snapshot := { s with items := s.items.insert uid entry }

def setTable (s : Snapshot) (table : Table) : Snapshot := s.set table.uid (.table table)

def setIndex (s : Snapshot) (x : Index) : Snapshot := s.set x.uid (.index x)

def erase (s : Snapshot) (uid : Uid) : Snapshot := { s with items := s.items.erase uid }

/-- A column of the given table. -/
def columnOf? (s : Snapshot) (table : Table) (uid : Uid) : Option Column := (s.column? uid).filter (·.table = table.uid)

/-! ### Rows -/

/-- The fields that a list of fields amounts to: each must fit its column, nulls are left out, and
the last one of a column counts. -/
def typedFields (s : Snapshot) (standing : Standing) (table : Table) (fields : List Field) : Except Error (SortedMap Uid Value) :=
  fields.foldlM (fun kept (uid, value) => do
    let column ← orError (s.columnOf? table uid) (standing.dangling uid)
    ensure (value.fits column.type) (.typeMismatch column.type value)
    .ok (if value.isNull then kept else kept.insert uid value)) SortedMap.empty

/-- A key of a foreign key stands in the primary index that it refers to. -/
def ensureMatched (s : Snapshot) (x : Index) (key : List Value) : Except Error Unit :=
  match x.definition.references with
  | none => .ok ()
  | some target =>
    ensure ((s.primaryIndex? target).any (·.tree.contains key)) (.referentialViolation (.unmatched key x.uid target))

/-- A primary key that disappears is used by no foreign key. -/
def ensureUnused (s : Snapshot) (table : Uid) (key : List Value) : Except Error Unit :=
  match (s.foreignKeysInto table).find? (·.tree.contains key) with
  | none => .ok ()
  | some x => .error (.referentialViolation (.stillReferenced key table x.uid))

/-- Takes the key of a row out of an index. -/
def dropKey (s : Snapshot) (row : Uid) (x : Index) (key : List Value) : Except Error Index := do
  if x.definition.primary then s.ensureUnused x.definition.table key
  let tree ← (x.tree.erase key row.place).mapError .policyViolation
  .ok { x with tree }

/-- Puts the key of a row into an index. -/
def addKey (row : Uid) (x : Index) (key : List Value) : Except Error Index := do
  let tree ← (x.tree.insert key row.place).mapError .policyViolation
  .ok { x with tree }

/-- Moves a row from its old key to its new one in one index; a key that stays the same is not
touched. -/
def moveKey (row : Uid) (old new : Option Row) (s : Snapshot) (uid : Uid) : Except Error Snapshot :=
  match s.index? uid with
  | none => .ok s
  | some x =>
    match old.map x.definition.keyOf, new.map x.definition.keyOf with
    | none, none => .ok s
    | none, some key => do .ok (s.setIndex (← addKey row x key))
    | some oldKey, none => do .ok (s.setIndex (← s.dropKey row x oldKey))
    | some oldKey, some key =>
      if Value.sameKey oldKey key then .ok s
      else do .ok (s.setIndex (← addKey row (← s.dropKey row x oldKey) key))

/-- Moves a row between its keys in all indexes of its table, and then checks what the new row
refers to. -/
def rekey (s : Snapshot) (table : Table) (row : Uid) (old new : Option Row) : Except Error Snapshot := do
  let s ← table.indexes.foldlM (moveKey row old new) s
  match new with
  | none => .ok s
  | some row =>
    (s.indexes table.uid).forM fun x => s.ensureMatched x (x.definition.keyOf row)
    .ok s

def insertRow (s : Snapshot) (standing : Standing) (uid table : Uid) (fields : List Field) : Except Error Snapshot := do
  let table ← orError (s.table? table) (standing.dangling table)
  let row : Row := ⟨uid, uid, ← s.typedFields standing table fields⟩
  let s ← s.rekey table uid none (some row)
  .ok (s.setTable { table with rows := table.rows.insert uid row })

def updateRow (s : Snapshot) (standing : Standing) (uid table : Uid) (fields : List Field) (row : Uid) : Except Error Snapshot := do
  let table ← orError (s.table? table) (standing.dangling table)
  let old ← orError (table.rows.get? row) (standing.dangling row)
  let new : Row := ⟨row, uid, ← s.typedFields standing table fields⟩
  let s ← s.rekey table row (some old) (some new)
  .ok (s.setTable { table with rows := table.rows.insert row new })

def deleteRow (s : Snapshot) (standing : Standing) (table row : Uid) : Except Error Snapshot := do
  let table ← orError (s.table? table) (standing.dangling table)
  let old ← orError (table.rows.get? row) (standing.dangling row)
  let s ← s.rekey table row (some old) none
  .ok (s.setTable { table with rows := table.rows.erase row })

/-! ### Tables and columns -/

def createTable (s : Snapshot) (uid : Uid) (name : String) : Except Error Snapshot := do
  ensure (!s.names.contains name) (.schema (.tableExists name))
  .ok ({ s with names := s.names.insert name uid }.setTable ⟨uid, name, [], SortedMap.empty, []⟩)

def createColumn (s : Snapshot) (standing : Standing) (uid : Uid) (name : String) (type : DataType) (table : Uid) :
    Except Error Snapshot := do
  let table ← orError (s.table? table) (standing.dangling table)
  ensure (s.columnNamed? table.uid name).isNone (.schema (.columnExists name table.name))
  let s := s.set uid (.column ⟨uid, name, type, table.uid⟩)
  .ok (s.setTable { table with columns := table.columns ++ [uid] })

/-- A table may be given the name that it has. -/
def renameTable (s : Snapshot) (standing : Standing) (table : Uid) (name : String) : Except Error Snapshot := do
  let table ← orError (s.table? table) (standing.dangling table)
  ensure ((s.names.get? name).all (· = table.uid)) (.schema (.tableExists name))
  let names := (s.names.erase table.name).insert name table.uid
  .ok ({ s with names }.setTable { table with name })

/-- A new type must fit every value of the column. -/
def alterColumn (s : Snapshot) (standing : Standing) (table uid : Uid) (name : String) (type : Option DataType) :
    Except Error Snapshot := do
  let table ← orError (s.table? table) (standing.dangling table)
  let column ← orError (s.columnOf? table uid) (standing.dangling uid)
  ensure ((s.columnNamed? table.uid name).all (·.uid = uid)) (.schema (.columnExists name table.name))
  if let some type := type then
    table.rows.values.forM fun row => ensure ((row.get uid).fits type) (.typeMismatch type (row.get uid))
  .ok (s.set uid (.column { column with name, type := type.getD column.type }))

/-- A table goes with its columns and indexes, unless another table refers to it. -/
def dropTable (s : Snapshot) (standing : Standing) (uid : Uid) : Except Error Snapshot := do
  let table ← orError (s.table? uid) (standing.dangling uid)
  match (s.foreignKeysInto uid).find? (·.definition.table ≠ uid) with
  | some x => .error (.referentialViolation (.referencedTable table.name x.uid x.definition.table))
  | none =>
    let s := (table.columns ++ table.indexes).foldl erase s
    .ok { s.erase uid with names := s.names.erase table.name }

/-- A column goes with its field of every row, unless it is a key of an index. -/
def dropColumn (s : Snapshot) (standing : Standing) (table uid : Uid) : Except Error Snapshot := do
  let table ← orError (s.table? table) (standing.dangling table)
  let column ← orError (s.columnOf? table uid) (standing.dangling uid)
  match (s.indexes table.uid).find? (uid ∈ ·.definition.columns) with
  | some x => .error (.referentialViolation (.keyColumn column.name x.uid))
  | none =>
    let rows := table.rows.toList.map fun (key, row) => (key, { row with fields := row.fields.erase uid })
    let columns := table.columns.filter (· ≠ uid)
    .ok ((s.erase uid).setTable { table with columns, rows := SortedMap.ofList rows })

/-! ### Indexes -/

/-- The table that a foreign key refers to has a primary index over as many columns. -/
def checkTarget (s : Snapshot) (standing : Standing) (d : IndexDefinition) (target : Uid) : Except Error Unit := do
  let table ← orError (s.table? target) (standing.dangling target)
  let primary ← orError (s.primaryIndex? target) (standing.illDefined (.noPrimary table.name))
  let expected := primary.definition.columns.length
  ensure (expected = d.columns.length) (standing.illDefined (.columnCount d.columns.length table.name expected))

/-- An index starts with the rows that its table has. -/
def createIndex (s : Snapshot) (standing : Standing) (uid : Uid) (d : IndexDefinition) : Except Error Snapshot := do
  let table ← orError (s.table? d.table) (standing.dangling d.table)
  ensure (!d.columns.isEmpty) (standing.illDefined (.noColumns table.name))
  d.columns.forM fun column => ensure (s.columnOf? table column).isSome (standing.dangling column)
  let existing := s.indexes table.uid
  ensure (!(d.primary && existing.any (·.definition.primary))) (standing.illDefined (.secondPrimary table.name))
  ensure (!existing.any (·.definition.columns = d.columns)) (standing.illDefined (.sameColumns table.name))
  d.references.forM (s.checkTarget standing d)
  let tree ← (CompositeIndex.new d.keyColumns).mapError .policyViolation
  let index ← table.rows.values.foldlM (fun x row => do
    let key := d.keyOf row
    s.ensureMatched x key
    addKey row.uid x key) ⟨uid, d, tree⟩
  .ok ((s.setIndex index).setTable { table with indexes := table.indexes ++ [uid] })

/-- A primary index stays as long as a foreign key refers to its table. -/
def dropIndex (s : Snapshot) (standing : Standing) (table : Uid) (columns : List Uid) : Except Error Snapshot := do
  let table ← orError (s.table? table) (standing.dangling table)
  let found ← orError ((s.indexes table.uid).find? (·.definition.columns = columns)) (standing.illDefined (.noSuchIndex table.name))
  if found.definition.primary then
    match s.foreignKeysInto table.uid with
    | [] => pure ()
    | x :: _ => throw (.referentialViolation (.referencedPrimary table.name x.uid))
  .ok ((s.erase found.uid).setTable { table with indexes := table.indexes.filter (· ≠ found.uid) })

/-! ### Objects -/

/-- The snapshot after the object at `uid`. -/
def install (s : Snapshot) (standing : Standing) (uid : Uid) : LogObject → Except Error Snapshot
  | .newTable name => s.createTable uid name
  | .newColumn name type table => s.createColumn standing uid name type table
  | .record table fields => s.insertRow standing uid table fields
  | .update table fields row => s.updateRow standing uid table fields row
  | .delete table row => s.deleteRow standing table row
  | .alter table none name _ => s.renameTable standing table name
  | .alter table (some column) name type => s.alterColumn standing table column name type
  | .drop target none => s.dropTable standing target
  | .drop target (some table) => s.dropColumn standing table target
  | .newIndex definition => s.createIndex standing uid definition
  | .dropIndex table columns => s.dropIndex standing table columns

end Snapshot

end SnapshotStore
