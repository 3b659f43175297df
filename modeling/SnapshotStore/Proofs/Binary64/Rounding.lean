import SnapshotStore.Proofs.Binary64.Packing

/-!
# Rounding

An operation brings the significand of its exact result to the length that patterns have and then
goes up by one or not. So the pattern of the result is one of the two next to the exact result,
which is all that is needed of rounding here.
-/

namespace SnapshotStore.Binary64

open Float.Model Float.Model.UnpackedFloat

variable {s : Sign} {significand bits other : Nat} {exponent : Int} {accuracy : Accuracy} {x y : ℚ}

/-! ### Shifting a significand -/

theorem mantissa_shiftRight (extended : ExtendedMantissa) (count : Nat) :
    (extended >>> count).mantissa = extended.mantissa / 2 ^ count := by
  induction count with
  | zero => exact (Nat.div_one _).symm
  | succ count ih =>
    change (extended >>> count).mantissa / 2 = _
    rw [ih, Nat.div_div_eq_div_mul, Nat.pow_succ]

theorem roundedMantissa_cases (extended : ExtendedMantissa) :
    extended.roundedMantissa = extended.mantissa ∨
      extended.roundedMantissa = extended.mantissa + 1 := by
  obtain ⟨mantissa, roundBit, stickyBit⟩ := extended
  cases roundBit with
  | false => cases stickyBit <;> exact .inl rfl
  | true =>
    cases stickyBit with
    | false =>
      change mantissa + mantissa % 2 = mantissa ∨ mantissa + mantissa % 2 = mantissa + 1
      omega
    | true => exact .inr rfl

/-- The step of the pattern that a number is rounded to. -/
def stepOf (significand : Nat) (exponent : Int) : Nat := (significand.log2 + exponent + 1022).toNat

/-- The significand of a number after the bits that do not fit in its pattern are dropped. -/
def kept (significand : Nat) (exponent : Int) : Nat :=
  significand / 2 ^ (stepOf significand exponent - 1074 - exponent).toNat

theorem targetExponent_eq :
    Format.binary64.targetExponent (totalExponent significand exponent) =
      stepOf significand exponent - 1074 := by
  have hbits : Format.binary64.mantissaBits = 53 := rfl
  have hleast : Format.binary64.minExponent = -1074 := rfl
  rw [Format.targetExponent, totalExponent, stepOf, hbits, hleast]
  omega

/-- The number has as many bits as a pattern, or fits in the finest grid. -/
def Exact (significand : Nat) (exponent : Int) : Prop :=
  leadingBit ≤ significand ∨ exponent ≤ -1074

theorem Exact.le_step (h : Exact significand exponent) :
    exponent ≤ stepOf significand exponent - 1074 := by
  rw [stepOf]
  rcases h with hlong | hfine
  · have hpos : 0 < significand := Nat.lt_of_lt_of_le (by decide) hlong
    have hlog := (Nat.le_log2 (k := 52) (Nat.ne_of_gt hpos)).2 hlong
    omega
  · omega

theorem Exact.fits_kept (h : Exact significand exponent) :
    Fits (stepOf significand exponent) (kept significand exponent) := by
  have hstep := h.le_step
  rw [kept]
  generalize hcount : (stepOf significand exponent - 1074 - exponent).toNat = count
  have hpow : 0 < 2 ^ count := Nat.two_pow_pos count
  rw [stepOf] at hstep hcount ⊢
  refine ⟨?_, ?_⟩
  · by_cases hleast : significand.log2 + exponent + 1022 ≤ 0
    · exact .inl (Int.toNat_of_nonpos hleast)
    · have hlog : significand.log2 = 52 + count := by omega
      have hne : significand ≠ 0 := by
        rintro rfl
        rw [Nat.log2_zero] at hlog
        omega
      rw [Nat.le_div_iff_mul_le hpow]
      refine .inr (le_trans ?_ (Nat.log2_self_le hne))
      rw [hlog, Nat.pow_add]
      exact Nat.le_refl _
  · have hlog : significand.log2 + 1 ≤ 53 + count := by omega
    rw [Nat.div_lt_iff_lt_mul hpow]
    refine Nat.lt_of_lt_of_le Nat.lt_log2_self ?_
    exact (Nat.pow_le_pow_right two_pos hlog).trans (Nat.le_of_eq (Nat.pow_add ..))

theorem shiftToTargetExponent_eq (h : exponent ≤ stepOf significand exponent - 1074) :
    (shiftToTargetExponent Format.binary64 significand exponent accuracy).1.mantissa =
        kept significand exponent ∧
      (shiftToTargetExponent Format.binary64 significand exponent accuracy).2 =
        stepOf significand exponent - 1074 := by
  rw [shiftToTargetExponent, targetExponent_eq, shiftToExponent]
  refine ⟨?_, ?_⟩
  · refine (mantissa_shiftRight _ _).trans (congrArg (· / _) ?_)
    rcases accuracy with _ | ⟨_ | _ | _⟩ <;> rfl
  · dsimp only
    omega

/-- A significand that fits is not shifted. -/
theorem stepOf_of_fits {step : Nat} (h : Fits step significand) (hpos : 0 < significand) :
    stepOf significand (step - 1074) = step := by
  obtain ⟨hleast, hshort⟩ := h
  have hlog : significand.log2 < 53 := (Nat.log2_lt (Nat.ne_of_gt hpos)).2 hshort
  rw [stepOf]
  rcases hleast with rfl | hlong
  · omega
  · have hlog' := (Nat.le_log2 (k := 52) (Nat.ne_of_gt hpos)).2 hlong
    omega

theorem kept_of_fits {step : Nat} (h : Fits step significand) (hpos : 0 < significand) :
    kept significand (step - 1074) = significand := by
  rw [kept, stepOf_of_fits h hpos, Int.sub_self, Int.toNat_zero, Nat.pow_zero, Nat.div_one]

theorem stepOf_carry (step : Nat) : stepOf (2 * leadingBit) (step - 1074) = step + 1 := by
  have hlog : (2 * leadingBit).log2 = 53 := by
    rw [show 2 * leadingBit = 2 ^ 53 from rfl, Nat.log2_two_pow]
  rw [stepOf, hlog]
  omega

theorem kept_carry (step : Nat) : kept (2 * leadingBit) (step - 1074) = leadingBit := by
  rw [kept, stepOf_carry]
  have hcount : (((step + 1 : Nat) : Int) - 1074 - (step - 1074)).toNat = 1 := by omega
  rw [hcount]
  rfl

/-- Rounding gives the significand that is kept or the next one, and the sign does not matter. -/
theorem toNat_roundWithAccuracy (h : Exact significand exponent) (accuracy : Accuracy) :
    ∃ rounded, (rounded = kept significand exponent ∨ rounded = kept significand exponent + 1) ∧
      ∀ s, (UnpackedFloat.pack Format.binary64
          (roundWithAccuracy Format.binary64 s significand exponent accuracy)).toNat =
        signPattern s + min (place (stepOf significand exponent) rounded) infinity := by
  have hfits := h.fits_kept
  obtain ⟨hmantissa, hexponent⟩ := @shiftToTargetExponent_eq _ _ accuracy h.le_step
  have hrounded := roundedMantissa_cases
    (shiftToTargetExponent Format.binary64 significand exponent accuracy).1
  rw [hmantissa] at hrounded
  refine ⟨_, hrounded, fun s => ?_⟩
  rw [roundWithAccuracy]
  generalize shiftToTargetExponent Format.binary64 significand exponent accuracy = first at *
  obtain ⟨extended, shifted⟩ := first
  dsimp only at hexponent hrounded ⊢
  subst hexponent
  generalize extended.roundedMantissa = rounded at *
  generalize stepOf significand exponent = step at *
  -- The significand may have got too long by one, and then it is shifted once more.
  have hagain : (step : Int) - 1074 ≤ stepOf rounded (step - 1074) - 1074 →
      _ := @shiftToTargetExponent_eq rounded (step - 1074) .exact
  rcases Nat.eq_zero_or_pos rounded with rfl | hpos
  · obtain ⟨hleast, _⟩ := hfits
    obtain rfl : step = 0 := by
      unfold leadingBit at hleast
      omega
    have hzero : kept 0 (((0 : Nat) : Int) - 1074) = 0 := Nat.zero_div _
    obtain ⟨hsame, _⟩ := hagain (by decide)
    rw [hzero] at hsame
    simp only [hsame, dite_true]
    exact toNat_pack_zero
  by_cases hshort : rounded < 2 * leadingBit
  · have hfits : Fits step rounded := ⟨hfits.1.imp_right (by omega), hshort⟩
    obtain ⟨hsame, hstep⟩ := hagain (Int.le_of_eq (by rw [stepOf_of_fits hfits hpos]))
    rw [kept_of_fits hfits hpos] at hsame
    rw [stepOf_of_fits hfits hpos] at hstep
    simp only [hsame, hstep, dif_neg (Nat.ne_of_gt hpos)]
    exact toNat_pack hfits hpos
  · obtain rfl : rounded = 2 * leadingBit := by have := hfits.2; omega
    obtain ⟨hsame, hstep⟩ := hagain (by rw [stepOf_carry]; omega)
    rw [kept_carry] at hsame
    rw [stepOf_carry] at hstep
    simp only [hsame, hstep, dif_neg (by decide : leadingBit ≠ 0)]
    rw [toNat_pack (fits_carry step) (by decide), place_carry]

/-! ### Results between two patterns -/

/-- The pattern is one of the two next to a number. Beyond the greatest pattern stands infinity. -/
structure Rounds (x : ℚ) (bits : Nat) : Prop where
  le_infinity : bits ≤ infinity
  lower : value (bits - 1) ≤ x
  upper : bits < infinity → x < value (bits + 1)

theorem kept_mul_le (h : Exact significand exponent) :
    kept significand exponent * (2 : ℚ) ^ (stepOf significand exponent - 1074 : ℤ) ≤
        significand * 2 ^ exponent ∧
      (significand + 1) * (2 : ℚ) ^ exponent ≤
        (kept significand exponent + 1) * 2 ^ (stepOf significand exponent - 1074 : ℤ) := by
  have hstep := h.le_step
  rw [kept]
  generalize hcount : (stepOf significand exponent - 1074 - exponent).toNat = count
  have hpow : (2 : ℚ) ^ (stepOf significand exponent - 1074 : ℤ) = 2 ^ count * 2 ^ exponent := by
    rw [← zpow_natCast, ← zpow_add₀ two_ne_zero]
    congr 1
    omega
  have hnonneg : (0 : ℚ) ≤ 2 ^ exponent := zpow_nonneg two_pos.le _
  rw [hpow, ← mul_assoc, ← mul_assoc]
  refine ⟨mul_le_mul_of_nonneg_right ?_ hnonneg, mul_le_mul_of_nonneg_right ?_ hnonneg⟩
  · exact_mod_cast Nat.div_mul_le_self significand (2 ^ count)
  · have hlt := Nat.lt_mul_div_succ significand (Nat.two_pow_pos count)
    rw [Nat.mul_comm] at hlt
    exact_mod_cast hlt

theorem exists_rounds (h : Exact significand exponent) (accuracy : Accuracy) :
    ∃ bits, (∀ s, (UnpackedFloat.pack Format.binary64
        (roundWithAccuracy Format.binary64 s significand exponent accuracy)).toNat =
          signPattern s + bits) ∧
      ∀ x : ℚ, significand * 2 ^ exponent ≤ x → x < (significand + 1) * 2 ^ exponent →
        Rounds x bits := by
  obtain ⟨rounded, hrounded, hpack⟩ := toNat_roundWithAccuracy h accuracy
  obtain ⟨hlow, hhigh⟩ := kept_mul_le h
  have hfits := h.fits_kept
  refine ⟨_, hpack, fun x hx hx' => ⟨Nat.min_le_right _ _, ?_, fun hfinite => ?_⟩⟩
  · refine (value_le_of_le_place hfits ?_ ?_).trans (hlow.trans hx)
    · omega
    · unfold place
      omega
  · refine hx'.trans_le (hhigh.trans (le_value_of_place_lt hfits hfinite ?_))
    unfold place at *
    omega

namespace Rounds

theorem le_of_value_le (h : Rounds x bits) (hother : other ≤ infinity) (hle : value other ≤ x) :
    other ≤ bits := by
  rcases Nat.lt_or_ge bits infinity with hfinite | hinfinite
  · exact Nat.le_of_lt_succ (lt_of_value_lt hother (hle.trans_lt (h.upper hfinite)))
  · exact hother.trans hinfinite

theorem le_of_lt_value (h : Rounds x bits) (hlt : x < value other) : bits ≤ other := by
  have hpred : bits - 1 < other :=
    lt_of_value_lt (Nat.le_trans (Nat.sub_le _ _) h.le_infinity) (h.lower.trans_lt hlt)
  omega

end Rounds

end SnapshotStore.Binary64
