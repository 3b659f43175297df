import SnapshotStore.Proofs.Binary64.Operations

/-!
# Rounding errors

From some pattern on, every operation is off by a small factor at most. What a number of roundings
amounts to is a power of that factor, and for a thousand of them that is still close to one.
-/

namespace SnapshotStore.Binary64

open Float.Model Float.Model.UnpackedFloat

/-- From this pattern on, one step is small in comparison. -/
def accurate : Nat := 0x4000000000000

/-- What a rounding may change, as a factor. -/
def slack : ℚ := 1 + 1 / accurate

/-- One number comes from the other by this many roundings. -/
def Near (roundings : Nat) (x y : ℚ) : Prop :=
  y ≤ slack ^ roundings * x ∧ x ≤ slack ^ roundings * y

variable {x x' y y' z : ℚ} {i j roundings bits other : Nat} {f g : Float}

theorem one_le_slack : 1 ≤ slack := le_add_of_nonneg_right (by positivity)

theorem slack_pow_pos (roundings : Nat) : 0 < slack ^ roundings :=
  pow_pos (zero_lt_one.trans_le one_le_slack) _

theorem slack_pow_le (h : roundings ≤ 1000) : slack ^ roundings ≤ 9 / 8 :=
  (pow_le_pow_right₀ one_le_slack h).trans (by decide +kernel)

namespace Near

theorem refl (x : ℚ) : Near 0 x x := by
  rw [Near, pow_zero, one_mul]
  exact ⟨le_rfl, le_rfl⟩

theorem trans (h : Near i x y) (h' : Near j y z) : Near (i + j) x z := by
  refine ⟨h'.1.trans ?_, h.2.trans ?_⟩
  · rw [pow_add, mul_comm (slack ^ i), mul_assoc]
    exact mul_le_mul_of_nonneg_left h.1 (slack_pow_pos j).le
  · rw [pow_add, mul_assoc]
    exact mul_le_mul_of_nonneg_left h'.2 (slack_pow_pos i).le

theorem mono (h : Near i x y) (hij : i ≤ j) (hx : 0 ≤ x) (hy : 0 ≤ y) : Near j x y := by
  have hpow := pow_le_pow_right₀ one_le_slack hij
  exact ⟨h.1.trans (mul_le_mul_of_nonneg_right hpow hx),
    h.2.trans (mul_le_mul_of_nonneg_right hpow hy)⟩

theorem mul (h : Near i x y) (h' : Near j x' y') (hx : 0 ≤ x) (hx' : 0 ≤ x') (hy : 0 ≤ y)
    (hy' : 0 ≤ y') : Near (i + j) (x * x') (y * y') := by
  have hpow := fun roundings => (slack_pow_pos roundings).le
  rw [Near, pow_add, mul_mul_mul_comm _ _ x, mul_mul_mul_comm _ _ y]
  exact ⟨mul_le_mul h.1 h'.1 hy' (mul_nonneg (hpow i) hx),
    mul_le_mul h.2 h'.2 hx' (mul_nonneg (hpow i) hy)⟩

theorem inv (h : Near i x y) (hx : 0 < x) (hy : 0 < y) : Near i x⁻¹ y⁻¹ := by
  have hpow := slack_pow_pos i
  refine ⟨?_, ?_⟩
  · rw [← div_eq_mul_inv, le_div_iff₀ hx, inv_mul_le_iff₀ hy, mul_comm]
    exact h.2
  · rw [← div_eq_mul_inv, le_div_iff₀ hy, inv_mul_le_iff₀ hx, mul_comm]
    exact h.1

theorem div (h : Near i x y) (h' : Near j x' y') (hx : 0 ≤ x) (hx' : 0 < x') (hy : 0 ≤ y)
    (hy' : 0 < y') : Near (i + j) (x / x') (y / y') := by
  rw [div_eq_mul_inv, div_eq_mul_inv]
  exact h.mul (h'.inv hx' hy') hx (inv_nonneg.2 hx'.le) hy (inv_nonneg.2 hy'.le)

end Near

/-! ### Roundings of numbers that are not too small and not too large -/

/-- The patterns next to the number are finite and accurate. -/
def Moderate (x : ℚ) : Prop := value (accurate + 1) ≤ x ∧ x < value (infinity - 1)

theorem value_pos (h : 0 < bits) (hbits : bits ≤ infinity) : 0 < value bits := by
  have hnonneg : 0 ≤ value 0 := mul_nonneg (Nat.cast_nonneg _) (zpow_nonneg two_pos.le _)
  have hone : value 0 < value 1 := value_lt_succ (by decide)
  exact (hnonneg.trans_lt hone).trans_le (value_mono h hbits)

theorem Rounds.near (h : Rounds x bits) (hx : Moderate x) :
    0 < bits ∧ bits < infinity ∧ Near 1 x (value bits) := by
  have hlow : accurate + 1 ≤ bits := h.le_of_value_le (by decide) hx.1
  have hhigh : bits ≤ infinity - 1 := h.le_of_lt_value hx.2
  have hfinite : bits < infinity := Nat.lt_of_le_of_lt hhigh (by decide)
  have hsucc : bits - 1 + 1 = bits := Nat.sub_add_cancel (Nat.le_trans (Nat.le_add_left _ _) hlow)
  refine ⟨Nat.lt_of_lt_of_le (Nat.succ_pos _) hlow, hfinite, ?_, ?_⟩
  · rw [pow_one]
    have hstep : value (bits - 1 + 1) ≤ slack * value (bits - 1) :=
      value_succ_le (by decide) (by decide) (by omega) (by omega)
    rw [hsucc] at hstep
    exact hstep.trans (mul_le_mul_of_nonneg_left h.lower (zero_le_one.trans one_le_slack))
  · rw [pow_one]
    exact (h.upper hfinite).le.trans
      (value_succ_le (by decide) (by decide) (Nat.le_of_succ_le hlow) hfinite)

/-! ### Numbers that approximate others -/

/-- The positive number is the other one up to some roundings. -/
def Approximates (f : Float) (roundings : Nat) (x : ℚ) : Prop :=
  ∃ bits, Finite f .positive bits ∧ Near roundings x (value bits)

theorem Holds.approximates (h : Holds f .positive bits) (hrounds : Rounds y bits)
    (hy : Moderate y) (hx : Near i x y) : Approximates f (i + 1) x := by
  obtain ⟨hpos, hfinite, hnear⟩ := hrounds.near hy
  exact ⟨bits, ⟨h, hpos, hfinite⟩, hx.trans hnear⟩

theorem Approximates.mono (h : Approximates f i x) (hij : i ≤ j) (hx : 0 ≤ x) :
    Approximates f j x := by
  obtain ⟨bits, hfinite, hnear⟩ := h
  exact ⟨bits, hfinite,
    hnear.mono hij hx (value_pos hfinite.pos hfinite.lt_infinity.le).le⟩

/-- Moderate numbers go a little beyond these powers of ten. -/
theorem moderate_powers : value (accurate + 1) ≤ 8 / 9 * (10 : ℚ) ^ (-308 : ℤ) ∧
    9 / 8 * (10 : ℚ) ^ (308 : ℤ) < value (infinity - 1) := by
  decide +kernel

theorem Near.value_accurate_le (h : Near roundings x y) (hroundings : roundings ≤ 1000)
    (hy : 0 ≤ y) (hlow : (10 : ℚ) ^ (-308 : ℤ) ≤ x) : value (accurate + 1) ≤ y := by
  have hxy : x ≤ 9 / 8 * y := h.2.trans (mul_le_mul_of_nonneg_right (slack_pow_le hroundings) hy)
  have hleast := moderate_powers.1
  linarith

/-- Numbers between these bounds stay moderate over many roundings. -/
theorem Near.moderate (h : Near roundings x y) (hroundings : roundings ≤ 1000) (hy : 0 ≤ y)
    (hlow : (10 : ℚ) ^ (-308 : ℤ) ≤ x) (hhigh : x ≤ 10 ^ (308 : ℤ)) : Moderate y := by
  have hx : 0 ≤ x := (zpow_nonneg (by norm_num) _).trans hlow
  have hyx : y ≤ 9 / 8 * x := h.1.trans (mul_le_mul_of_nonneg_right (slack_pow_le hroundings) hx)
  have hgreatest := moderate_powers.2
  exact ⟨h.value_accurate_le hroundings hy hlow, by linarith⟩

theorem least_power_le_one : (10 : ℚ) ^ (-308 : ℤ) ≤ 1 :=
  zpow_le_one_of_nonpos₀ (by norm_num) (by decide)

/-! ### Operations -/

theorem Approximates.mul (hf : Approximates f i x) (hg : Approximates g j y)
    (hroundings : i + j ≤ 1000) (hx : 1 ≤ x) (hy : 1 ≤ y) (hproduct : x * y ≤ 10 ^ (308 : ℤ)) :
    Approximates (f * g) (i + j + 1) (x * y) := by
  obtain ⟨bits, hf, hnear⟩ := hf
  obtain ⟨other, hg, hnear'⟩ := hg
  obtain ⟨product, hholds, hrounds⟩ := hf.mul hg
  have hfpos := value_pos hf.pos hf.lt_infinity.le
  have hgpos := value_pos hg.pos hg.lt_infinity.le
  have hnear := hnear.mul hnear' (zero_le_one.trans hx) (zero_le_one.trans hy) hfpos.le hgpos.le
  refine hholds.approximates hrounds ?_ hnear
  exact hnear.moderate hroundings (mul_pos hfpos hgpos).le
    (least_power_le_one.trans (one_le_mul_of_one_le_of_one_le hx hy)) hproduct

/-- The pattern of one. -/
def oneBits : Nat := 0x3ff0000000000000

theorem value_oneBits : value oneBits = 1 := by
  have hplace : value oneBits = (leadingBit : Nat) * 2 ^ (1022 - 1074 : ℤ) :=
    @value_place 1022 leadingBit (fits_carry 1021) (by decide)
  rw [hplace, leadingBit]
  norm_num

theorem finite_one : Finite 1 .positive oneBits := ⟨by rfl, by decide, by decide⟩

theorem approximates_one : Approximates 1 0 1 := ⟨oneBits, finite_one, value_oneBits ▸ .refl 1⟩

theorem Approximates.inv (hf : Approximates f i x) (hroundings : i ≤ 1000) (hx : 1 ≤ x)
    (hhigh : x ≤ 10 ^ (308 : ℤ)) : Approximates (1 / f) (i + 1) x⁻¹ := by
  obtain ⟨bits, hf, hnear⟩ := hf
  obtain ⟨quotient, hholds, hrounds⟩ := finite_one.div hf
  have hpos := value_pos hf.pos hf.lt_infinity.le
  have hxpos := zero_lt_one.trans_le hx
  rw [value_oneBits, one_div] at hrounds
  have hnear := hnear.inv hxpos hpos
  have hlow : (10 : ℚ) ^ (-308 : ℤ) ≤ x⁻¹ := by
    rw [zpow_neg]
    exact inv_anti₀ hxpos hhigh
  have hone : (1 : ℚ) ≤ 10 ^ (308 : ℤ) := one_le_zpow₀ (by norm_num) (by decide)
  exact hholds.approximates hrounds
    (hnear.moderate hroundings (inv_pos.2 hpos).le hlow ((inv_le_one_of_one_le₀ hx).trans hone))
    hnear

/-- A number that is exact in 53 bits is multiplied by one afterwards. -/
theorem approximates_ofNat {n : Nat} (hpos : 0 < n) (hn : n ≤ 2 ^ 63) :
    Approximates (Float.ofNat n) 2 n := by
  have hone : (1 : ℚ) ≤ n := Nat.one_le_cast.2 hpos
  have hhigh : (n : ℚ) ≤ 10 ^ (308 : ℤ) := calc
    (n : ℚ) ≤ (2 ^ 63 : Nat) := Nat.cast_le.2 hn
    _ ≤ 10 ^ (19 : ℤ) := by norm_num
    _ ≤ 10 ^ (308 : ℤ) := zpow_le_zpow_right₀ (by norm_num) (by decide)
  have hlow : (10 : ℚ) ^ (-308 : ℤ) ≤ n := least_power_le_one.trans hone
  have hmoderate : Moderate (n : ℚ) :=
    (Near.refl (n : ℚ)).moderate (Nat.zero_le _) (zero_le_one.trans hone) hlow hhigh
  change Approximates (Float.ofScientific n false 0) 2 n
  rw [Float.ofScientific]
  split
  · next hshort =>
    obtain ⟨rounded, hholds, hrounds⟩ := holds_toFloat hpos hshort.1
    have hword := hholds.approximates hrounds hmoderate (.refl _)
    have hproduct := hword.mul approximates_one (by decide) hone le_rfl (by rwa [mul_one])
    rw [mul_one] at hproduct
    exact hproduct
  · obtain ⟨rounded, hholds, hrounds⟩ := holds_ofScientific hpos
    exact (hholds.approximates hrounds hmoderate (.refl _)).mono (by decide)
      (zero_le_one.trans hone)

end SnapshotStore.Binary64
