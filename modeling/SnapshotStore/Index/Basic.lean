import SnapshotStore.Index.Cursor

/-!
# Composite indexes

An index over one or more columns. Only its last column may hold one key for several rows.
-/

namespace SnapshotStore

/-- What the entries of an index are, seen from its first column. -/
inductive IndexKind where
  | oneRow
  | rowSet
  | nested
  deriving DecidableEq

structure CompositeIndex (K : Type) where
  columns : List KeyColumn
  level : Level K columns

structure IndexCursor (K : Type) where
  columns : List KeyColumn
  cursor : LevelCursor K columns

namespace CompositeIndex

variable {K : Type}

/-- The first column other than the last one that allows duplicates, counted from `place`. -/
def innerDuplicates? (place : Nat) : List KeyColumn → Option Nat
  | [] | [_] => none
  | column :: columns => if column.onDuplicate = .allow then some place else innerDuplicates? (place + 1) columns

/-- The empty index over the given columns. -/
def new (columns : List KeyColumn) : Except PolicyViolation (CompositeIndex K) :=
  if columns = [] then .error .noColumns
  else match innerDuplicates? 0 columns with
    | some column => .error (.duplicatesOnInnerColumn column)
    | none => .ok ⟨columns, Level.empty columns⟩

def kind (x : CompositeIndex K) : IndexKind :=
  match x.columns with
  | [column] => if column.onDuplicate = .allow then .rowSet else .oneRow
  | _ => .nested

def pairs (x : CompositeIndex K) : List (List K × RowId) := Level.pairs x.columns x.level

/-- Number of rows, each counted once for every key that it stands under. -/
def size (x : CompositeIndex K) : Nat := Level.size x.columns x.level

def isEmpty (x : CompositeIndex K) : Bool := Level.isEmpty x.columns x.level

/-- The entries between brackets, key components in the given text. -/
def inspect (component : K → String) (x : CompositeIndex K) : String :=
  let entry (key : List K) (row : RowId) : String :=
    "([" ++ ", ".intercalate (key.map component) ++ "], " ++ toString row ++ ")"
  "[" ++ ", ".intercalate (x.pairs.map fun (key, row) => entry key row) ++ "]"

def ensureLength (x : CompositeIndex K) (key : List K) : Except PolicyViolation Unit :=
  if key.length = x.columns.length then .ok () else .error (.keyArity x.columns.length key.length)

def first (x : CompositeIndex K) : Option (IndexCursor K) := (LevelCursor.first x.columns x.level).map (⟨x.columns, ·⟩)

def last (x : CompositeIndex K) : Option (IndexCursor K) := (LevelCursor.last x.columns x.level).map (⟨x.columns, ·⟩)

variable [Ord K]

/-- Whether the key of some entry starts with `start`. -/
def contains (x : CompositeIndex K) (start : List K) : Bool := Level.contains x.columns x.level start

/-- The rows whose key starts with `start`, in the order of the index. -/
def rows (x : CompositeIndex K) (start : List K) : List RowId := Level.rowsUnder x.columns x.level start

/-- The index with a row under a full key. -/
def insert [HasNull K] (x : CompositeIndex K) (key : List K) (row : RowId) : Except PolicyViolation (CompositeIndex K) := do
  x.ensureLength key
  let level ← Level.insert? 0 x.columns x.level key row
  .ok (level.elim x fun level => ⟨x.columns, level⟩)

/-- The index without a row under a full key. -/
def erase (x : CompositeIndex K) (key : List K) (row : RowId) : Except PolicyViolation (CompositeIndex K) := do
  x.ensureLength key
  .ok ((Level.erase? x.columns x.level key row).elim x fun level => ⟨x.columns, level⟩)

/-- The index with a row moved from one key to another. -/
def move [HasNull K] (x : CompositeIndex K) (old new : List K) (row : RowId) : Except PolicyViolation (CompositeIndex K) := do
  (← x.erase old row).insert new row

/-- The cursor over exactly the entries whose key starts with `start`. -/
def under (x : CompositeIndex K) (start : List K) : Option (IndexCursor K) :=
  (LevelCursor.under x.columns x.level start).map (⟨x.columns, ·⟩)

/-- The cursor on the first entry whose key is not below `key`. -/
def seek (x : CompositeIndex K) (key : List K) : Option (IndexCursor K) :=
  (LevelCursor.seek x.columns x.level key).map (⟨x.columns, ·⟩)

end CompositeIndex

namespace IndexCursor

variable {K : Type}

def key (c : IndexCursor K) : List K := LevelCursor.key c.columns c.cursor

def row (c : IndexCursor K) : RowId := LevelCursor.row c.columns c.cursor

def changed (c : IndexCursor K) : Bool := LevelCursor.changed c.columns c.cursor

def next (c : IndexCursor K) : Option (IndexCursor K) := (LevelCursor.next c.columns c.cursor).map (⟨c.columns, ·⟩)

def previous (c : IndexCursor K) : Option (IndexCursor K) :=
  (LevelCursor.previous c.columns c.cursor).map (⟨c.columns, ·⟩)

end IndexCursor

end SnapshotStore
