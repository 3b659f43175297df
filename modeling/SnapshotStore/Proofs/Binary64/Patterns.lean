import Mathlib.Algebra.Order.Field.Power
import Mathlib.Algebra.Order.Ring.Rat
import Mathlib.Tactic.Ring
import SnapshotStore.Binary64.Shortest

/-!
# What bit patterns stand for

The pattern of a number without its sign is a place on a grid whose spacing doubles from one power
of two to the next, so that greater numbers have greater patterns. The pattern of infinity stands
for the power of two that is the first to have no pattern of its own.
-/

namespace SnapshotStore.Binary64

/-- The pattern of infinity. -/
def infinity : Nat := 0x7ff0000000000000

/-- The number of a pattern without its sign. -/
def value (bits : Nat) : ℚ := (unpack bits).significand * 2 ^ (unpack bits).exponent

/-- The pattern of `significand * 2 ^ (step - 1074)`. -/
def place (step significand : Nat) : Nat := step * leadingBit + significand

/-- Significands have their leading bit unless the step is the least. -/
def Fits (step significand : Nat) : Prop :=
  (step = 0 ∨ leadingBit ≤ significand) ∧ significand < 2 * leadingBit

variable {bits other step significand : Nat}

theorem value_place (h : Fits step significand) (hplace : place step significand ≤ infinity) :
    value (place step significand) = significand * 2 ^ (step - 1074 : ℤ) := by
  obtain ⟨hleast, hbits⟩ := h
  have hunpack : unpack (place step significand) = ⟨significand, step - 1074⟩ := by
    unfold unpack place infinity leadingBit at *
    by_cases hsmall : significand < 0x10000000000000
    · obtain rfl : step = 0 := by omega
      have hbiased : (0 * 0x10000000000000 + significand) / 0x10000000000000 % 0x800 = 0 := by omega
      rw [if_pos hbiased]
      simp only [Unpacked.mk.injEq]
      omega
    · have hbiased : (step * 0x10000000000000 + significand) / 0x10000000000000 % 0x800 =
          step + 1 := by omega
      rw [hbiased, if_neg (Nat.succ_ne_zero step)]
      simp only [Unpacked.mk.injEq]
      omega
  rw [value, hunpack]

/-- The next power of two has the pattern of a significand that is one too long. -/
theorem place_carry (step : Nat) : place step (2 * leadingBit) = place (step + 1) leadingBit := by
  unfold place leadingBit
  omega

theorem fits_carry (step : Nat) : Fits (step + 1) leadingBit := ⟨.inr (Nat.le_refl _), by decide⟩

theorem value_place_carry (hplace : place step (2 * leadingBit) ≤ infinity) :
    value (place step (2 * leadingBit)) = (2 * leadingBit : Nat) * 2 ^ (step - 1074 : ℤ) := by
  rw [place_carry] at hplace ⊢
  rw [value_place (fits_carry step) hplace]
  push_cast
  rw [add_sub_right_comm, zpow_add₀ two_ne_zero, zpow_one]
  ring

theorem exists_place (bits : Nat) :
    ∃ step significand, bits = place step significand ∧ Fits step significand := by
  refine ⟨bits / leadingBit - 1, bits - (bits / leadingBit - 1) * leadingBit, ?_⟩
  unfold place Fits leadingBit
  omega

/-- From one pattern to the next it is one step. -/
theorem value_succ (h : Fits step significand) (hplace : place step significand < infinity) :
    value (place step significand + 1) =
      value (place step significand) + 2 ^ (step - 1074 : ℤ) := by
  have hsucc : place step significand + 1 = place step (significand + 1) := Nat.add_assoc ..
  have hle : place step (significand + 1) ≤ infinity := hsucc ▸ hplace
  have hvalue : value (place step (significand + 1)) =
      (significand + 1 : Nat) * 2 ^ (step - 1074 : ℤ) := by
    by_cases hcarry : significand + 1 = 2 * leadingBit
    · rw [hcarry] at hle ⊢
      exact value_place_carry hle
    · exact value_place ⟨h.1.imp_right Nat.le_succ_of_le, Nat.lt_of_le_of_ne h.2 hcarry⟩ hle
  rw [hsucc, hvalue, value_place h (Nat.le_of_lt hplace)]
  push_cast
  ring

theorem value_lt_succ (h : bits < infinity) : value bits < value (bits + 1) := by
  obtain ⟨step, significand, rfl, hfits⟩ := exists_place bits
  rw [value_succ hfits h]
  exact lt_add_of_pos_right _ (zpow_pos two_pos _)

theorem value_mono (h : bits ≤ other) (hother : other ≤ infinity) : value bits ≤ value other := by
  induction other, h using Nat.le_induction with
  | base => exact le_rfl
  | succ other _ ih => exact (ih (Nat.le_of_succ_le hother)).trans (value_lt_succ hother).le

theorem lt_of_value_lt (hbits : bits ≤ infinity) (h : value bits < value other) : bits < other :=
  lt_of_not_ge fun hle => not_le_of_gt h (value_mono hle hbits)

/-! ### Significands that are too large for a pattern -/

theorem value_le_of_le_place (h : Fits step significand) (hbits : bits ≤ infinity)
    (hplace : bits ≤ place step significand) :
    value bits ≤ significand * 2 ^ (step - 1074 : ℤ) := by
  rcases Nat.le_or_le (place step significand) infinity with hle | hle
  · rw [← value_place h hle]
    exact value_mono hplace hle
  obtain ⟨hstep, hlong⟩ : 2046 ≤ step ∧ leadingBit ≤ significand := by
    obtain ⟨hleast, hshort⟩ := h
    unfold place infinity leadingBit at *
    omega
  have hinfinity : value infinity = leadingBit * 2 ^ (2046 - 1074 : ℤ) :=
    @value_place 2046 leadingBit (fits_carry 2045) (Nat.le_refl _)
  refine (value_mono hbits (Nat.le_refl _)).trans (hinfinity ▸ ?_)
  have hpow : (2 : ℚ) ^ (2046 - 1074 : ℤ) ≤ 2 ^ (step - 1074 : ℤ) :=
    zpow_le_zpow_right₀ one_le_two (by omega)
  exact mul_le_mul (Nat.cast_le.2 hlong) hpow (zpow_nonneg two_pos.le _) (Nat.cast_nonneg _)

theorem le_value_of_place_lt (h : Fits step significand) (hbits : bits ≤ infinity)
    (hplace : place step significand < bits) :
    (significand + 1) * 2 ^ (step - 1074 : ℤ) ≤ value bits := by
  have hlt : place step significand < infinity := Nat.lt_of_lt_of_le hplace hbits
  rw [add_mul, one_mul, ← value_place h hlt.le, ← value_succ h hlt]
  exact value_mono hplace hbits

/-! ### Spacing -/

/-- The greater a pattern, the less its number grows in one step. -/
theorem value_succ_le {least : Nat} (hleast : 0 < least) (hle : least ≤ leadingBit)
    (hbits : least ≤ bits) (h : bits < infinity) :
    value (bits + 1) ≤ (1 + 1 / least) * value bits := by
  obtain ⟨step, significand, rfl, hfits⟩ := exists_place bits
  have hsignificand : least ≤ significand := by
    obtain ⟨rfl | hlong, _⟩ := hfits
    · rwa [place, Nat.zero_mul, Nat.zero_add] at hbits
    · exact hle.trans hlong
  have hone : (1 : ℚ) ≤ 1 / least * significand := by
    rw [one_div_mul_eq_div, one_le_div₀ (Nat.cast_pos.2 hleast)]
    exact Nat.cast_le.2 hsignificand
  have hstep := le_mul_of_one_le_left (zpow_nonneg two_pos.le (step - 1074 : ℤ)) hone
  rw [value_succ hfits h, add_mul, one_mul, value_place hfits h.le, ← mul_assoc]
  exact add_le_add_right hstep _

end SnapshotStore.Binary64
