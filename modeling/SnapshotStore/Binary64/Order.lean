/-!
# The total order of binary64 numbers

Numbers are ordered by sign and then by bit pattern, so that `-0` stands below `0`. The result of an
operation without a value stands below every number.
-/

namespace SnapshotStore.Binary64

/-- The bit of negative numbers. -/
def signBit : Nat := 0x8000000000000000

/-- The place of a number in the total order. -/
def rank (x : Float) : Int :=
  if x.isNaN then -signBit
  else
    let bits := x.toBits.toNat
    if signBit ≤ bits then -(bits % signBit : Nat) - 1 else bits

def compareTotal (x y : Float) : Ordering := compare (rank x) (rank y)

end SnapshotStore.Binary64
