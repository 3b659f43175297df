import SnapshotStore.Index.Policy
import SnapshotStore.SortedMap.Basic

/-!
# Levels of an index

What an index keeps over a list of columns: nothing but a set of rows where no column is left, and
otherwise a sorted map from the values of the first column to the level of the remaining ones,
together with the number of its pairs. No level below another one is empty.
-/

namespace SnapshotStore

abbrev RowId := Nat

/-- Entries and how many pairs stand below them. -/
structure Counted (Entries : Type) where
  entries : Entries
  count : Nat

/-- The entries with one more pair, which is below `key` now. -/
def Counted.store {A V : Type} [Ord A] (level : Counted (SortedMap A V)) (key : A) (value : V) :
    Counted (SortedMap A V) := ⟨level.entries.insert key value, level.count + 1⟩

def Level (K : Type) : List KeyColumn → Type
  | [] => SortedMap RowId Unit
  | _ :: columns => Counted (SortedMap (KeyPart K) (Level K columns))

namespace Level

variable {K : Type}

def empty : (columns : List KeyColumn) → Level K columns
  | [] => SortedMap.empty
  | _ :: _ => Counted.mk SortedMap.empty 0

/-- Number of rows, each counted once for every key that it stands under. -/
def size : (columns : List KeyColumn) → Level K columns → Nat
  | [], rows => SortedMap.size rows
  | _ :: _, (level : Counted _) => level.count

def isEmpty : (columns : List KeyColumn) → Level K columns → Bool
  | [], rows => SortedMap.isEmpty rows
  | _ :: _, (level : Counted _) => level.count = 0

/-- All keys and rows, in the order of the index. -/
def pairs : (columns : List KeyColumn) → Level K columns → List (List K × RowId)
  | [], rows => (SortedMap.keys rows).map fun row => ([], row)
  | _ :: columns, (level : Counted _) =>
    (SortedMap.toList level.entries).flatMap fun (head, rest) =>
      (pairs columns rest).map fun (key, row) => (head.value :: key, row)

variable [Ord K]

/-- Whether some key starts with `start`. -/
def contains : (columns : List KeyColumn) → Level K columns → (start : List K) → Bool
  | columns, level, [] => !isEmpty columns level
  | [], _, _ :: _ => false
  | column :: columns, (level : Counted _), head :: rest =>
    (SortedMap.get? level.entries ⟨head, column.direction⟩).any fun inner => contains columns inner rest

/-- The rows of all keys that start with `start`, in the order of the index. -/
def rowsUnder : (columns : List KeyColumn) → Level K columns → (start : List K) → List RowId
  | columns, level, [] => (pairs columns level).map Prod.snd
  | [], _, _ :: _ => []
  | column :: columns, (level : Counted _), head :: rest =>
    let key : KeyPart K := ⟨head, column.direction⟩
    match SortedMap.seek level.entries key with
    | some found => if (compare found.key key).isEq then rowsUnder columns found.value rest else []
    | none => []

/-- The level with a row under a key, or nothing if the row is there already or a rule skips it;
`place` is the number of the first column. -/
def insert? [HasNull K] (place : Nat) : (columns : List KeyColumn) → Level K columns → List K → RowId →
    Except PolicyViolation (Option (Level K columns))
  | [], rows, _, row => .ok (if SortedMap.contains rows row then none else some (SortedMap.insert rows row ()))
  | _ :: _, _, [], _ => .ok none
  | column :: columns, (level : Counted _), head :: rest, row =>
    if HasNull.isNull head ∧ column.onNull = .disallow then .error (.nullKey place)
    else if HasNull.isNull head ∧ column.onNull = .ignore then .ok none
    else
      let key : KeyPart K := ⟨head, column.direction⟩
      match SortedMap.get? level.entries key with
      | none => do
        let inner ← insert? (place + 1) columns (empty columns) rest row
        .ok (inner.map (level.store key))
      | some inner =>
        if columns = [] ∧ column.onDuplicate = .ignore then .ok none
        else if columns = [] ∧ column.onDuplicate = .disallow then .error .duplicateKey
        else do
          let inner ← insert? (place + 1) columns inner rest row
          .ok (inner.map (level.store key))

/-- The level without a row under a key, or nothing if it is not there; keys without rows disappear.
-/
def erase? : (columns : List KeyColumn) → Level K columns → List K → RowId → Option (Level K columns)
  | [], rows, _, row => if SortedMap.contains rows row then some (SortedMap.erase rows row) else none
  | _ :: _, _, [], _ => none
  | column :: columns, (level : Counted _), head :: rest, row => do
    let key : KeyPart K := ⟨head, column.direction⟩
    let inner ← erase? columns (← SortedMap.get? level.entries key) rest row
    let entries :=
      if isEmpty columns inner then SortedMap.erase level.entries key else SortedMap.insert level.entries key inner
    some (Counted.mk entries (level.count - 1))

end Level

end SnapshotStore
