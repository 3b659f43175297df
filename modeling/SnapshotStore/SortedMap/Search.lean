/-!
# Bisection

Every search in a bucket probes its slots by halving. For an ascending list the places found are the
usual ones; for any list they are fixed by the order of the probes.
-/

namespace SnapshotStore.SortedMap

/-- The last place from `base` on, among `size` places, that `reaches` accepts; `base` itself if it
accepts none. -/
def bisect (reaches : Nat → Bool) (base size : Nat) : Nat :=
  if 2 ≤ size then
    let half := size / 2
    bisect reaches (if reaches (base + half) then base + half else base) (size - half)
  else base
termination_by size

variable {K A : Type} [Ord K]

/-- The number of leading slots whose key is below `key`. -/
def lowerBound (key : K) (slots : List (K × A)) : Nat :=
  let below (place : Nat) : Bool := slots[place]?.any fun slot => (compare slot.1 key).isLT
  let place := bisect below 0 slots.length
  if below place then place + 1 else place

/-- The place of the slot with `key`. -/
def find? (key : K) (slots : List (K × A)) : Option Nat :=
  let reaches (place : Nat) : Bool := slots[place]?.any fun slot => (compare slot.1 key).isLE
  let place := bisect reaches 0 slots.length
  if slots[place]?.any fun slot => (compare slot.1 key).isEq then some place else none

end SnapshotStore.SortedMap
