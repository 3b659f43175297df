import SnapshotStore.Binary64.Order
import SnapshotStore.Binary64.Positional

/-!
# Decimal numbers

A decimal is `mantissa * 10 ^ -scale`. Two decimals are compared exactly as long as the mantissa of
the smaller scale can be brought to the larger scale within 128 bits; beyond that the order is that
of their binary64 quotients. A scale that is not positive is written as that quotient.
-/

namespace SnapshotStore

structure Decimal where
  mantissa : Int64
  precision : Int32
  scale : Int32
  deriving DecidableEq

namespace Decimal

/-- `power * base ^ exponent`, squaring the base from one bit of the exponent to the next. -/
def powerBySquaring (base power : Float) (exponent : Nat) : Float :=
  let power := if exponent % 2 = 1 then power * base else power
  if 2 ≤ exponent then powerBySquaring (base * base) power (exponent / 2) else power
termination_by exponent

/-- The power of ten nearest to what repeated squaring reaches; a negative exponent inverts it once
at the end. -/
def powerOfTen (exponent : Int) : Float :=
  let power := powerBySquaring 10 1 exponent.natAbs
  if exponent < 0 then 1 / power else power

/-- The binary64 quotient of a mantissa and the power of ten of its scale. -/
def quotient (mantissa : Int64) (scale : Int32) : Float :=
  Float.ofInt mantissa.toInt / powerOfTen scale.toInt

/-- A mantissa times `10 ^ shift`, if the power and the product fit in 128 bits. -/
def rescale? (mantissa : Int64) (shift : Nat) : Option Int :=
  let product := mantissa.toInt * Nat.pow 10 shift
  let limit : Nat := 0x80000000000000000000000000000000
  if shift ≤ 38 ∧ -limit ≤ product ∧ product < limit then some product else none

/-- The order of two mantissas at their scales. -/
def compareScaled (a : Int64) (aScale : Int32) (b : Int64) (bScale : Int32) : Ordering :=
  let exact :=
    if bScale.toInt ≤ aScale.toInt then
      (rescale? b (aScale.toInt - bScale.toInt).toNat).map fun b => compare a.toInt b
    else
      (rescale? a (bScale.toInt - aScale.toInt).toNat).map fun a => compare a b.toInt
  exact.getD (Binary64.compareTotal (quotient a aScale) (quotient b bScale))

/-- A scale up to 38 is written positionally, a larger one as an exponent. -/
def text (d : Decimal) : String :=
  let mantissa := d.mantissa.toInt
  let scale := d.scale.toInt.toNat
  if d.scale.toInt ≤ 0 then Binary64.positional (quotient d.mantissa d.scale)
  else if 38 < scale then toString mantissa ++ "e-" ++ toString scale
  else
    let sign := if mantissa < 0 then "-" else ""
    let fraction := Binary64.padded scale (mantissa.natAbs % Nat.pow 10 scale)
    sign ++ toString (mantissa.natAbs / Nat.pow 10 scale) ++ "." ++ String.ofList fraction

end Decimal

end SnapshotStore
