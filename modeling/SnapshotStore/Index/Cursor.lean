import SnapshotStore.Index.Level

/-!
# Index cursors

A cursor over a level is a cursor over its own map together with a cursor over the level that it
stands on. A pinned one stays on its key. A cursor is marked as changed when the move that made it
went on to another key of the first column.
-/

namespace SnapshotStore

/-- A cursor over one level and, inside it, over the next one. -/
structure CursorStep (Outer Inner : Type) where
  outer : Outer
  inner : Inner
  pinned : Bool
  changed : Bool

def LevelCursor (K : Type) : List KeyColumn → Type
  | [] => SortedMap.Cursor RowId Unit
  | _ :: columns => CursorStep (SortedMap.Cursor (KeyPart K) (Level K columns)) (LevelCursor K columns)

namespace LevelCursor

variable {K : Type}

def first : (columns : List KeyColumn) → Level K columns → Option (LevelCursor K columns)
  | [], rows => SortedMap.first rows
  | _ :: columns, (level : Counted _) => do
    let outer ← SortedMap.first level.entries
    let inner ← first columns outer.value
    some (CursorStep.mk outer inner false false)

def last : (columns : List KeyColumn) → Level K columns → Option (LevelCursor K columns)
  | [], rows => SortedMap.last rows
  | _ :: columns, (level : Counted _) => do
    let outer ← SortedMap.last level.entries
    let inner ← last columns outer.value
    some (CursorStep.mk outer inner false false)

def next : (columns : List KeyColumn) → LevelCursor K columns → Option (LevelCursor K columns)
  | [], rows => SortedMap.Cursor.next rows
  | _ :: columns, (c : CursorStep _ _) =>
    match next columns c.inner with
    | some inner => some { c with inner, changed := false }
    | none =>
      if c.pinned then none
      else do
        let outer ← c.outer.next
        let inner ← first columns outer.value
        some (CursorStep.mk outer inner false true)

def previous : (columns : List KeyColumn) → LevelCursor K columns → Option (LevelCursor K columns)
  | [], rows => SortedMap.Cursor.previous rows
  | _ :: columns, (c : CursorStep _ _) =>
    match previous columns c.inner with
    | some inner => some { c with inner, changed := false }
    | none =>
      if c.pinned then none
      else do
        let outer ← c.outer.previous
        let inner ← last columns outer.value
        some (CursorStep.mk outer inner false true)

def key : (columns : List KeyColumn) → LevelCursor K columns → List K
  | [], _ => []
  | _ :: columns, (c : CursorStep _ _) => c.outer.key.value :: key columns c.inner

def row : (columns : List KeyColumn) → LevelCursor K columns → RowId
  | [], rows => SortedMap.Cursor.key rows
  | _ :: columns, (c : CursorStep _ _) => row columns c.inner

def changed : (columns : List KeyColumn) → LevelCursor K columns → Bool
  | [], _ => false
  | _ :: _, (c : CursorStep _ _) => c.changed

variable [Ord K]

/-- The first entry under the keys that start with `start`, pinned to them. -/
def under : (columns : List KeyColumn) → Level K columns → (start : List K) → Option (LevelCursor K columns)
  | columns, level, [] => first columns level
  | [], _, _ :: _ => none
  | column :: columns, (level : Counted _), head :: rest => do
    let key : KeyPart K := ⟨head, column.direction⟩
    let outer ← SortedMap.seek level.entries key
    if (compare outer.key key).isNe then none
    else
      let inner ← under columns outer.value rest
      some (CursorStep.mk outer inner true false)

/-- The first entry whose key is not below `key`; components beyond the columns do not count. -/
def seek : (columns : List KeyColumn) → Level K columns → (key : List K) → Option (LevelCursor K columns)
  | columns, level, [] => first columns level
  | [], rows, _ :: _ => SortedMap.first rows
  | column :: columns, (level : Counted _), head :: rest => do
    let key : KeyPart K := ⟨head, column.direction⟩
    let outer ← SortedMap.seek level.entries key
    if (compare outer.key key).isEq then
      match seek columns outer.value rest with
      | some inner => some (CursorStep.mk outer inner false false)
      | none =>
        let outer ← outer.next
        let inner ← first columns outer.value
        some (CursorStep.mk outer inner false false)
    else
      let inner ← first columns outer.value
      some (CursorStep.mk outer inner false false)

end LevelCursor

end SnapshotStore
