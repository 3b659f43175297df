import SnapshotStore.Value.Basic

/-!
# Index keys

A key has one component for each column of an index. A component is compared in the direction of its
column, and keys are compared component by component.
-/

namespace SnapshotStore

/-- Key components that may be null. -/
class HasNull (K : Type) where
  isNull : K → Bool

instance : HasNull Int := ⟨fun _ => false⟩

instance : HasNull Nat := ⟨fun _ => false⟩

instance : HasNull String := ⟨fun _ => false⟩

instance {K : Type} : HasNull (Option K) := ⟨Option.isNone⟩

instance : HasNull Value := ⟨Value.isNull⟩

inductive Direction where
  | ascending
  | descending
  deriving DecidableEq

/-- A key component with the direction of its column. -/
structure KeyPart (K : Type) where
  value : K
  direction : Direction
  deriving DecidableEq

namespace KeyPart

variable {K : Type} [Ord K]

/-- The direction of the first component decides. -/
protected def compare (a b : KeyPart K) : Ordering :=
  match a.direction with
  | .ascending => Ord.compare a.value b.value
  | .descending => Ord.compare b.value a.value

instance : Ord (KeyPart K) := ⟨KeyPart.compare⟩

end KeyPart

/-- The first unequal component decides; a key stands before the keys that it starts. -/
def compareKeys {K : Type} [Ord K] : List (KeyPart K) → List (KeyPart K) → Ordering
  | [], [] => .eq
  | [], _ :: _ => .lt
  | _ :: _, [] => .gt
  | a :: as, b :: bs => (compare a b).then (compareKeys as bs)

end SnapshotStore
