import SnapshotStore.Proofs.Order
import SnapshotStore.Value.Basic

/-!
# Values in one line

Decimals of very different scales are compared by their quotients, which may round, so that not all
values stand in one line. With scales from 0 to 19 the comparison is exact: it is that of the
numbers at scale 19.
-/

namespace SnapshotStore

namespace Decimal

def commonScale : Nat := 19

theorem rescale?_eq_some {mantissa : Int64} {shift : Nat} (hshift : shift ≤ commonScale) :
    rescale? mantissa shift = some (mantissa.toInt * Nat.pow 10 shift) := by
  have hpow : Nat.pow 10 shift ≤ 10000000000000000000 := Nat.pow_le_pow_right (by decide) hshift
  have hlow := Int64.le_toInt mantissa
  have hhigh := Int64.toInt_lt mantissa
  generalize hp : Nat.pow 10 shift = power at hpow
  have hbelow : -9223372036854775808 * (power : Int) ≤ mantissa.toInt * power :=
    Int.mul_le_mul_of_nonneg_right (by omega) (by omega)
  have habove : mantissa.toInt * power ≤ 9223372036854775807 * (power : Int) :=
    Int.mul_le_mul_of_nonneg_right (by omega) (by omega)
  rw [rescale?, hp]
  refine if_pos ⟨Nat.le_trans hshift (by decide), ?_, ?_⟩ <;> omega

theorem compare_mul {a b factor : Int} (hfactor : 0 < factor) :
    compare (a * factor) (b * factor) = compare a b := by
  have hlt : a * factor < b * factor ↔ a < b := Int.mul_lt_mul_right hfactor
  have heq : a * factor = b * factor ↔ a = b := Int.mul_eq_mul_right_iff (by omega)
  simp only [compare, compareOfLessAndEq, hlt, heq]

/-- A mantissa of a scale brought to the common one. -/
def atCommonScale (mantissa : Int64) (scale : Int32) :
    Int := mantissa.toInt * Nat.pow 10 (commonScale - scale.toInt.toNat)

theorem compareScaled_eq {a b : Int64} {aScale bScale : Int32}
    (ha : 0 ≤ aScale.toInt ∧ aScale.toInt ≤ commonScale)
    (hb : 0 ≤ bScale.toInt ∧ bScale.toInt ≤ commonScale) :
    compareScaled a aScale b bScale =
      compare (atCommonScale a aScale) (atCommonScale b bScale) := by
  have hpositive : ∀ exponent, (0 : Int) < Nat.pow 10 exponent :=
    fun exponent => Int.natCast_pos.2 (Nat.pow_pos (by decide))
  have hsplit : ∀ first second,
      ((Nat.pow 10 (first + second) : Nat) : Int) = Nat.pow 10 first * Nat.pow 10 second := by
    intro first second
    rw [← Int.natCast_mul]
    exact congrArg _ (Nat.pow_add 10 first second)
  rw [compareScaled, atCommonScale, atCommonScale]
  split
  · next hle =>
    have hshift : commonScale - bScale.toInt.toNat =
        (aScale.toInt - bScale.toInt).toNat + (commonScale - aScale.toInt.toNat) := by
      rw [commonScale] at *
      omega
    rw [rescale?_eq_some (by omega), Option.map_some, Option.getD_some, hshift, hsplit,
      ← Int.mul_assoc, compare_mul (hpositive _)]
  · next hlt =>
    have hshift : commonScale - aScale.toInt.toNat =
        (bScale.toInt - aScale.toInt).toNat + (commonScale - bScale.toInt.toNat) := by
      rw [commonScale] at *
      omega
    rw [rescale?_eq_some (by omega), Option.map_some, Option.getD_some, hshift, hsplit,
      ← Int.mul_assoc, compare_mul (hpositive _)]

end Decimal

namespace Value

/-- The values but decimals with a scale that is negative or beyond the common one. -/
def Comparable : Value → Prop
  | numeric d => 0 ≤ d.scale.toInt ∧ d.scale.toInt ≤ Decimal.commonScale
  | _ => True

instance : DecidablePred Comparable
  | numeric _ => inferInstanceAs (Decidable (_ ∧ _))
  | null | integer _ | string _ | date _ | timeSpan _ | boolean _ =>
    inferInstanceAs (Decidable True)

/-- The place of a value among those of its rank, if it is a number. -/
def number : Value → Int
  | integer n => Decimal.atCommonScale n 0
  | numeric d => Decimal.atCommonScale d.mantissa d.scale
  | date ticks => ticks.toInt
  | timeSpan ticks => ticks.toInt
  | boolean holds => holds.toInt
  | _ => 0

/-- The place of a value among those of its rank, if it is a text. -/
def content : Value → String
  | string text => text
  | _ => ""

section

variable {N : Type} [Ord N]

/-- Values of one rank and with one text are compared as numbers. -/
theorem compareLex_eq [Std.ReflOrd N] (number : Value → N) (a b : Value) (hrank : rank a = rank b)
    (hcontent : content a = content b) :
    compareLex (compareOn rank) (compareLex (compareOn number) (compareOn content)) a b =
      compare (number a) (number b) := by
  rw [compareLex, compareOn, hrank, Std.ReflOrd.compare_self, Ordering.eq_then, compareLex,
    compareOn, compareOn, hcontent, Std.ReflOrd.compare_self, Ordering.then_eq]

/-- Values that are compared by rank, number and text stand in one line. -/
theorem orderedOn_of_compareLex [Std.TransOrd N] (number : Value → N) {P : Value → Prop}
    (h : ∀ {a b}, P a → P b → compare a b =
      compareLex (compareOn rank) (compareLex (compareOn number) (compareOn content)) a b) :
    OrderedOn P := by
  have hlex : Std.TransCmp
      (compareLex (compareOn rank) (compareLex (compareOn number) (compareOn content))) :=
    inferInstance
  constructor
  · intro a b ha hb
    rw [h ha hb, h hb ha]
    exact hlex.eq_swap
  · intro a b c ha hb hc hab hbc
    rw [h ha hb] at hab
    rw [h hb hc] at hbc
    rw [h ha hc]
    exact hlex.isLE_trans hab hbc

end

theorem compare_eq {a b : Value} (ha : a.Comparable) (hb : b.Comparable) :
    compare a b =
      compareLex (compareOn rank) (compareLex (compareOn number) (compareOn content)) a b := by
  have hzero : 0 ≤ (0 : Int32).toInt ∧ (0 : Int32).toInt ≤ Decimal.commonScale := by decide
  cases a <;> cases b <;> try rfl
  case integer.integer a b =>
    rw [compareLex_eq number (integer a) (integer b) rfl rfl]
    exact (Decimal.compare_mul (Int.natCast_pos.2 (Nat.pow_pos (by decide)))).symm
  case integer.numeric a b =>
    exact (Decimal.compareScaled_eq hzero hb).trans
      (compareLex_eq number (integer a) (numeric b) rfl rfl).symm
  case numeric.integer a b =>
    exact (Decimal.compareScaled_eq ha hzero).trans
      (compareLex_eq number (numeric a) (integer b) rfl rfl).symm
  case numeric.numeric a b =>
    exact (Decimal.compareScaled_eq ha hb).trans
      (compareLex_eq number (numeric a) (numeric b) rfl rfl).symm
  case date.date a b => exact (compareLex_eq number (date a) (date b) rfl rfl).symm
  case timeSpan.timeSpan a b => exact (compareLex_eq number (timeSpan a) (timeSpan b) rfl rfl).symm
  case boolean.boolean a b => cases a <;> cases b <;> rfl

/-- Values that can be compared stand in one line. -/
theorem orderedOn_comparable : OrderedOn Comparable := orderedOn_of_compareLex number compare_eq

end Value

end SnapshotStore
