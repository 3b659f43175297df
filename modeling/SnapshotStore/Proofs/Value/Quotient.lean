import SnapshotStore.Decimal
import SnapshotStore.Proofs.Binary64.Error

/-!
# Powers of ten and quotients

A power of ten takes one rounding for each factor at most, so up to the greatest one that is finite
it is nearly exact, and so is the quotient of a mantissa by it.
-/

namespace SnapshotStore.Decimal

open Binary64

/-- The greatest power of ten that is finite, as an exponent. -/
def greatestPower : Nat := 308

variable {base power : Float} {a c n : Nat}

theorem one_le_ten_pow (exponent : Nat) : (1 : ℚ) ≤ 10 ^ exponent := one_le_pow₀ (by norm_num)

theorem pow_le_greatest {exponent : Nat} (h : exponent ≤ greatestPower) :
    (10 : ℚ) ^ exponent ≤ 10 ^ (308 : ℤ) := by
  rw [zpow_ofNat]
  exact pow_le_pow_right₀ (by norm_num) h

/-- The base is a power of ten itself; the result has one rounding for each factor of ten. -/
theorem approximates_powerBySquaring (ha : 1 ≤ a) (hbase : Approximates base (a - 1) (10 ^ a))
    (hpower : Approximates power c (10 ^ c)) (hn : c + a * n ≤ greatestPower) :
    Approximates (powerBySquaring base power n) (c + a * n) (10 ^ (c + a * n)) := by
  induction n using Nat.strongRecOn generalizing base power a c with
  | ind n ih =>
    have hsmall : greatestPower = 308 := rfl
    -- The last bit of the exponent takes the base, and the square of the base is left for the rest.
    have hbit : Approximates (if n % 2 = 1 then power * base else power) (c + a * (n % 2))
        (10 ^ (c + a * (n % 2))) := by
      rcases Nat.mod_two_eq_zero_or_one n with heven | hodd
      · rw [heven, if_neg Nat.zero_ne_one]
        exact hpower
      · have hle : a ≤ a * n := Nat.le_mul_of_pos_right a (Nat.pos_of_ne_zero (by omega))
        have hroundings : c + (a - 1) + 1 = c + a * 1 := by omega
        have hproduct := hpower.mul hbase (by omega) (one_le_ten_pow c) (one_le_ten_pow a)
          (by rw [← pow_add]; exact pow_le_greatest (by omega))
        rw [← pow_add, hroundings] at hproduct
        rw [hodd, if_pos rfl, Nat.mul_one]
        rwa [Nat.mul_one] at hproduct
    rw [powerBySquaring]
    split
    · next htwo =>
      have hsplit : c + a * (n % 2) + (a + a) * (n / 2) = c + a * n := by
        conv_rhs => rw [← Nat.div_add_mod n 2]
        ring
      have hle : a + a ≤ a * n := by
        rw [← Nat.mul_two]
        exact Nat.mul_le_mul_left a htwo
      have hroundings : a - 1 + (a - 1) + 1 = a + a - 1 := by omega
      have hsquare := hbase.mul hbase (by omega) (one_le_ten_pow a) (one_le_ten_pow a)
        (by rw [← pow_add]; exact pow_le_greatest (by omega))
      rw [← pow_add, hroundings] at hsquare
      have hrest := ih (n / 2) (Nat.div_lt_self (by omega) one_lt_two) (by omega) hsquare hbit
        (by rw [hsplit]; exact hn)
      rwa [hsplit] at hrest
    · next htwo =>
      have hlast : n % 2 = n := Nat.mod_eq_of_lt (Nat.lt_of_not_le htwo)
      rw [hlast] at hbit ⊢
      exact hbit

theorem approximates_ten : Approximates 10 0 10 := by
  have hfits : Fits 1025 0x14000000000000 := ⟨.inr (by decide), by decide⟩
  have hvalue : value 0x4024000000000000 = 10 := by
    refine (value_place hfits (by decide)).trans ?_
    norm_num
  exact ⟨0x4024000000000000, ⟨by rfl, by decide, by decide⟩, hvalue ▸ .refl 10⟩

/-- The roundings in a power of ten, and in a quotient by one. -/
def powerRoundings : Nat := greatestPower + 1

theorem approximates_powerOfTen {exponent : Int} (h : exponent.natAbs ≤ greatestPower) :
    Approximates (powerOfTen exponent) powerRoundings (10 ^ exponent) := by
  have hpower : Approximates (powerBySquaring 10 1 exponent.natAbs) exponent.natAbs
      (10 ^ exponent.natAbs) := by
    have hsquaring : Approximates _ (0 + 1 * exponent.natAbs) (10 ^ (0 + 1 * exponent.natAbs)) :=
      approximates_powerBySquaring (Nat.le_refl 1) ((pow_one (10 : ℚ)).symm ▸ approximates_ten)
        ((pow_zero (10 : ℚ)).symm ▸ approximates_one) (by omega)
    rwa [Nat.zero_add, Nat.one_mul] at hsquaring
  have hten : (0 : ℚ) ≤ 10 ^ exponent := zpow_nonneg (by norm_num) _
  rw [powerOfTen]
  split
  · next hneg =>
    have hinv : (10 : ℚ) ^ exponent = (10 ^ exponent.natAbs)⁻¹ := by
      rw [← zpow_natCast, ← zpow_neg]
      congr 1
      omega
    rw [hinv] at hten ⊢
    exact (hpower.inv (h.trans (by decide)) (one_le_ten_pow _) (pow_le_greatest h)).mono
      (Nat.succ_le_succ h) hten
  · next hnonneg =>
    have hsame : (10 : ℚ) ^ exponent = 10 ^ exponent.natAbs := by
      rw [← zpow_natCast]
      congr 1
      omega
    rw [hsame] at hten ⊢
    exact hpower.mono (Nat.le_succ_of_le h) hten

/-! ### Quotients -/

/-- The number that a mantissa and a scale stand for. -/
def quantity (mantissa : Int64) (scale : Int32) : ℚ := mantissa.toInt * 10 ^ (-scale.toInt)

/-- The pattern is rounded from a quotient that is nearly the given number. -/
def RoundsNear (x : ℚ) (bits : Nat) : Prop :=
  ∃ y, 0 ≤ y ∧ Near (2 + powerRoundings) x y ∧ Rounds y bits

variable {m : Int64} {scale : Int32} {x x' : ℚ} {bits bits' : Nat}

theorem RoundsNear.le_infinity (h : RoundsNear x bits) : bits ≤ infinity := by
  obtain ⟨y, _, _, hrounds⟩ := h
  exact hrounds.le_infinity

theorem RoundsNear.pos (h : RoundsNear x bits) (hx : (10 : ℚ) ^ (-308 : ℤ) ≤ x) : 0 < bits := by
  obtain ⟨y, hy, hnear, hrounds⟩ := h
  have hle := hrounds.le_of_value_le (by decide) (hnear.value_accurate_le (by decide) hy hx)
  exact Nat.lt_of_lt_of_le (Nat.succ_pos _) hle

/-- Numbers that are far apart have different patterns. -/
theorem RoundsNear.lt (h : RoundsNear x bits) (h' : RoundsNear x' bits')
    (hx : (10 : ℚ) ^ (-308 : ℤ) ≤ x) (hx' : x ≤ 10 ^ (308 : ℤ)) (hfar : 2 ^ 64 * x ≤ x') :
    bits < bits' := by
  obtain ⟨y, hy, hnear, hrounds⟩ := h
  obtain ⟨y', hy', hnear', hrounds'⟩ := h'
  have hmoderate := hnear.moderate (by decide) hy hx hx'
  obtain ⟨hpos, hfinite, hvalue⟩ := hrounds.near hmoderate
  have hxpos : 0 ≤ x := (zpow_nonneg (by norm_num) _).trans hx
  have haccurate : accurate ≤ bits :=
    Nat.le_of_succ_le (hrounds.le_of_value_le (by decide) hmoderate.1)
  have hnext : value (bits + 1) ≤ 9 / 8 * x := by
    have hone : 0 ≤ slack := zero_le_one.trans one_le_slack
    calc value (bits + 1) ≤ slack * value bits :=
          value_succ_le (by decide) (by decide) haccurate hfinite
      _ ≤ slack * (slack ^ (2 + powerRoundings + 1) * x) :=
          mul_le_mul_of_nonneg_left (hnear.trans hvalue).1 hone
      _ = slack ^ (2 + powerRoundings + 2) * x := by ring
      _ ≤ 9 / 8 * x := mul_le_mul_of_nonneg_right (slack_pow_le (by decide)) hxpos
  have hsecond : x' ≤ 9 / 8 * y' :=
    hnear'.2.trans (mul_le_mul_of_nonneg_right (slack_pow_le (by decide)) hy')
  exact hrounds'.le_of_value_le hfinite (by linarith)

/-- A mantissa without its sign is divided by a power of ten. -/
theorem holds_quotient {s : Float.Model.UnpackedFloat.Sign} {dividend : Float}
    (hdividend : Finite dividend s bits) (hnear : Near 2 n (value bits))
    (hscale : scale.toInt.natAbs ≤ greatestPower) :
    ∃ quotient, Holds (dividend / powerOfTen scale.toInt) s quotient ∧
      RoundsNear (n * 10 ^ (-scale.toInt)) quotient := by
  obtain ⟨divisor, hdivisor, hnear'⟩ := approximates_powerOfTen hscale
  obtain ⟨quotient, hholds, hrounds⟩ := hdividend.div hdivisor
  have hpos := value_pos hdividend.pos hdividend.lt_infinity.le
  have hpos' := value_pos hdivisor.pos hdivisor.lt_infinity.le
  refine ⟨quotient, hholds, _, (div_pos hpos hpos').le, ?_, hrounds⟩
  rw [zpow_neg, ← div_eq_mul_inv]
  exact hnear.div hnear' (Nat.cast_nonneg n) (zpow_pos (by norm_num) _) hpos.le hpos'

theorem rank_quotient_of_pos (hm : 0 < m.toInt) (hscale : scale.toInt.natAbs ≤ greatestPower) :
    ∃ bits : Nat, rank (quotient m scale) = bits ∧ RoundsNear (quantity m scale) bits := by
  obtain ⟨n, hn⟩ := Int.eq_ofNat_of_zero_le hm.le
  have hlimit := Int64.toInt_lt m
  obtain ⟨bits, hfinite, hnear⟩ := approximates_ofNat (n := n) (by omega) (by omega)
  obtain ⟨rounded, hholds, hrounds⟩ := holds_quotient hfinite hnear hscale
  refine ⟨rounded, ?_, ?_⟩
  · rw [quotient, hn]
    exact rank_of_positive hholds hrounds.le_infinity
  · rw [quantity, hn]
    exact hrounds

theorem rank_quotient_of_neg (hm : m.toInt < 0) (hscale : scale.toInt.natAbs ≤ greatestPower) :
    ∃ bits : Nat, rank (quotient m scale) = -bits - 1 ∧
      RoundsNear (-quantity m scale) bits := by
  obtain ⟨n, hn⟩ := Int.eq_negSucc_of_lt_zero hm
  have hlimit := Int64.le_toInt m
  obtain ⟨bits, hfinite, hnear⟩ := approximates_ofNat (n := n + 1) (by omega) (by omega)
  obtain ⟨rounded, hholds, hrounds⟩ := holds_quotient hfinite.neg hnear hscale
  refine ⟨rounded, ?_, ?_⟩
  · rw [quotient, hn]
    exact rank_of_negative hholds hrounds.le_infinity
  · rw [quantity, hn, ← neg_mul, Int.negSucc_eq, Int.cast_neg, neg_neg]
    exact_mod_cast hrounds

theorem rank_quotient_of_zero (hm : m.toInt = 0) (hscale : scale.toInt.natAbs ≤ greatestPower) :
    rank (quotient m scale) = 0 := by
  obtain ⟨divisor, hdivisor, -⟩ := approximates_powerOfTen hscale
  have hholds : Holds (0 / powerOfTen scale.toInt) .positive 0 := hdivisor.zero_div
  rw [quotient, hm]
  exact rank_of_positive hholds (by decide)

end SnapshotStore.Decimal
