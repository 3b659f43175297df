import SnapshotStore.SortedMap.Bucket

/-!
# The order of a tree, checked

`Bucket.check` walks a tree and reports the first place at which it is not a well-formed part of a
sorted map: a bucket without slots or with too many, slots out of order, a key outside the bounds
that the separators above it set, or a wrong total.
-/

namespace SnapshotStore

inductive BucketFault where
  | slotCount (count : Nat)
  | leafDisorder
  | leafBounds
  | separatorDisorder
  | separatorBounds
  | total (kept found : Nat)
  deriving DecidableEq

def BucketFault.message : BucketFault → String
  | slotCount count => "bucket holds " ++ toString count ++ " slots"
  | leafDisorder => "leaf slots out of order"
  | leafBounds => "leaf key outside its separator range"
  | separatorDisorder => "separators out of order"
  | separatorBounds => "separator outside parent range"
  | total kept found => "cached total " ++ toString kept ++ " but found " ++ toString found

namespace Bucket

variable {K V : Type} [Ord K]

/-- Each key is below the next one. -/
def ascending {A : Type} : List (K × A) → Bool
  | a :: b :: slots => (compare a.1 b.1).isLT && ascending (b :: slots)
  | _ => true

/-- Above `low` and not above `high`. -/
def inBounds (low high : Option K) (key : K) : Bool :=
  low.all (fun low => (compare key low).isGT) && high.all (fun high => (compare key high).isLE)

mutual

/-- The number of entries of a well-formed bucket between its bounds. -/
def check (low high : Option K) : Bucket K V → Except BucketFault Nat
  | leaf entries =>
    if entries.length = 0 ∨ capacity < entries.length then .error (.slotCount entries.length)
    else if !ascending entries then .error .leafDisorder
    else if !entries.all fun entry => inBounds low high entry.1 then .error .leafBounds
    else .ok entries.length
  | inner slots last total =>
    if slots.length = 0 ∨ capacity < slots.length then .error (.slotCount slots.length)
    else if !ascending slots then .error .separatorDisorder
    else do
      let (below, found) ← checkSlots low high low slots
      let found := found + (← last.check below high)
      if found = total then .ok total else .error (.total total found)

/-- The separator below the last child, and the number of entries in front of it. -/
def checkSlots (low high below : Option K) : List (K × Bucket K V) → Except BucketFault (Option K × Nat)
  | [] => .ok (below, 0)
  | (separator, child) :: slots =>
    if !inBounds low high separator then .error .separatorBounds
    else do
      let found ← child.check below (some separator)
      let (below, rest) ← checkSlots low high (some separator) slots
      .ok (below, found + rest)

end

end Bucket

end SnapshotStore
