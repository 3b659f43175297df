/-!
# Shortest decimal digits of a binary64 number

Every finite nonzero number is `significand * 2 ^ exponent`. The decimal numbers that read back as
it form an interval around it, closed when the significand is even. `shortest` searches the decimal
grids from the coarsest to the finest and takes the first grid with a point in that interval; of two
such points it takes the nearer one, and the upper one of two equally near.
-/

namespace SnapshotStore.Binary64

/-- The positive number `significand * 2 ^ exponent`. -/
structure Unpacked where
  significand : Nat
  exponent : Int

/-- The leading bit of a significand, which the bit patterns of all but the smallest numbers leave out. -/
def leadingBit : Nat := 0x10000000000000

/-- The number of a bit pattern without its sign; the pattern is that of a finite number. -/
def unpack (bits : Nat) : Unpacked :=
  let fraction := bits % leadingBit
  let biased : Nat := bits / leadingBit % 0x800
  if biased = 0 then ⟨fraction, -1074⟩ else ⟨leadingBit + fraction, (biased : Int) - 1075⟩

/-- The positive decimal number `coefficient * 10 ^ exponent`. -/
structure Digits where
  coefficient : Nat
  exponent : Int

namespace Unpacked

/-- Quarters of the unit in the last place down to the nearest midpoint: the spacing halves below a
power of two. -/
def lowerGap (x : Unpacked) : Nat :=
  if x.significand = leadingBit ∧ -1074 < x.exponent then 1 else 2

/-- Numerator of the number over `denominator`. -/
def numerator (x : Unpacked) : Nat := 4 * x.significand * Nat.pow 2 x.exponent.toNat

def denominator (x : Unpacked) : Nat := 4 * Nat.pow 2 (-x.exponent).toNat

/-- The least power of ten above the number, as an exponent. -/
def magnitude (x : Unpacked) : Int :=
  let whole := x.numerator / x.denominator
  if 0 < whole then (Nat.toDigits 10 whole).length
  else match (List.range 330).find? fun zeros => 0 < x.numerator * Nat.pow 10 (zeros + 1) / x.denominator with
    | some zeros => -zeros
    | none => -330

/-- The best point of the grid `10 ^ exponent` that reads back as the number, if the grid has one.
-/
def onGrid? (x : Unpacked) (exponent : Int) : Option Digits :=
  let up := Nat.pow 10 (-exponent).toNat
  let unit := x.denominator * Nat.pow 10 exponent.toNat
  let step := Nat.pow 2 x.exponent.toNat * up
  let value := x.numerator * up
  let low := value - x.lowerGap * step
  let high := value + 2 * step
  let readsBack (coefficient : Nat) : Bool :=
    if x.significand % 2 = 0 then low ≤ coefficient * unit ∧ coefficient * unit ≤ high
    else low < coefficient * unit ∧ coefficient * unit < high
  let floor := value / unit
  match readsBack floor, readsBack (floor + 1) with
  | false, false => none
  | true, false => some ⟨floor, exponent⟩
  | false, true => some ⟨floor + 1, exponent⟩
  | true, true => some ⟨if unit ≤ 2 * (value % unit) then floor + 1 else floor, exponent⟩

/-- Seventeen digits always suffice. -/
def shortest (x : Unpacked) : Digits :=
  ((List.range 17).findSome? fun count : Nat => x.onGrid? (x.magnitude - (count + 1))).getD ⟨x.significand, x.exponent⟩

end Unpacked

end SnapshotStore.Binary64
