import SnapshotStore.Binary64.Order
import SnapshotStore.Binary64.Shortest

/-!
# Positional text of a binary64 number

A number is written with its shortest digits and no exponent: whole numbers have no point, and a
fraction has no trailing zero.
-/

namespace SnapshotStore.Binary64

/-- The digits of a number below `10 ^ places`, with leading zeros up to `places`. -/
def padded (places number : Nat) : List Char :=
  let digits := Nat.toDigits 10 number
  List.replicate (places - digits.length) '0' ++ digits

def Digits.text (d : Digits) : String :=
  if 0 ≤ d.exponent then toString (d.coefficient * Nat.pow 10 d.exponent.toNat)
  else
    let places := (-d.exponent).toNat
    let fraction := ((padded places (d.coefficient % Nat.pow 10 places)).reverse.dropWhile (· = '0')).reverse
    let whole := toString (d.coefficient / Nat.pow 10 places)
    if fraction.isEmpty then whole else whole ++ "." ++ String.ofList fraction

def positional (x : Float) : String :=
  if x.isNaN then "NaN"
  else
    let bits := x.toBits.toNat
    let sign := if signBit ≤ bits then "-" else ""
    if x.isInf then sign ++ "inf"
    else if bits % signBit = 0 then sign ++ "0"
    else sign ++ (unpack (bits % signBit)).shortest.text

end SnapshotStore.Binary64
