import SnapshotStore.Index.Key

/-!
# What an index accepts

Each column of an index says what happens to nulls and to keys that are there already, and in which
direction it is ordered.
-/

namespace SnapshotStore

/-- What happens to a row whose key component is null or is there already. -/
inductive KeyRule where
  | ignore
  | allow
  | disallow
  deriving DecidableEq

structure KeyColumn where
  onDuplicate : KeyRule
  onNull : KeyRule
  direction : Direction
  deriving DecidableEq

namespace KeyColumn

/-- Neither duplicates nor nulls, in ascending order. -/
def unique : KeyColumn := ⟨.disallow, .disallow, .ascending⟩

/-- Duplicates but no nulls, in ascending order. -/
def duplicates : KeyColumn := ⟨.allow, .disallow, .ascending⟩

end KeyColumn

/-- Why an index refuses its columns or a key. -/
inductive PolicyViolation where
  | duplicateKey
  | nullKey (column : Nat)
  | duplicatesOnInnerColumn (column : Nat)
  | noColumns
  | keyArity (expected actual : Nat)
  deriving DecidableEq

def PolicyViolation.message : PolicyViolation → String
  | duplicateKey => "duplicate key"
  | nullKey column => "null key in column " ++ toString column
  | duplicatesOnInnerColumn column => "duplicates allowed on non-last column " ++ toString column
  | noColumns => "index has no columns"
  | keyArity expected actual =>
    "key has " ++ toString actual ++ " components, index expects " ++ toString expected

end SnapshotStore
