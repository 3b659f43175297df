import SnapshotStore.Proofs.Binary64.Rounding

/-!
# Products and quotients

The product and the quotient of two finite numbers are rounded from the exact ones, and a natural
number is rounded from itself.
-/

namespace SnapshotStore.Binary64

open Float.Model Float.Model.UnpackedFloat

/-- The number has this sign and otherwise this pattern. -/
def Holds (x : Float) (s : Sign) (bits : Nat) : Prop := x.toBits.toNat = signPattern s + bits

/-- A finite number that is not zero. -/
structure Finite (x : Float) (s : Sign) (bits : Nat) : Prop where
  holds : Holds x s bits
  pos : 0 < bits
  lt_infinity : bits < infinity

variable {x y : Float} {s t : Sign} {bits other : Nat}

theorem Finite.unpack (h : Finite x s bits) :
    ∃ (step significand : Nat) (hsignificand : 0 < significand),
      x.toModel.unpack = .finite s significand (step - 1074) hsignificand ∧
      Fits step significand ∧ bits = place step significand ∧
      value bits = significand * 2 ^ (step - 1074 : ℤ) := by
  obtain ⟨step, significand, hsignificand, hunpack, hfits, rfl⟩ :=
    @unpack_finite s bits x.toBits.toBitVec h.holds h.pos h.lt_infinity
  exact ⟨step, significand, hsignificand, hunpack, hfits, rfl,
    value_place hfits h.lt_infinity.le⟩

theorem holds_pack {u : UnpackedFloat}
    (h : (UnpackedFloat.pack Format.binary64 u).toNat = signPattern s + bits) :
    Holds (.ofModel (Float.Model.pack u)) s bits := h

theorem Fits.exact_mul {step step' significand significand' : Nat} (h : Fits step significand)
    (h' : Fits step' significand') (hpos : 0 < significand) (hpos' : 0 < significand') :
    Exact (significand * significand') ((step - 1074) + (step' - 1074)) := by
  rcases h.1 with rfl | hlong
  · rcases h'.1 with rfl | hlong'
    · exact .inr (by decide)
    · exact .inl (hlong'.trans (Nat.le_mul_of_pos_left _ hpos))
  · exact .inl (hlong.trans (Nat.le_mul_of_pos_right _ hpos'))

theorem Finite.mul (hx : Finite x .positive bits) (hy : Finite y .positive other) :
    ∃ product, Holds (x * y) .positive product ∧ Rounds (value bits * value other) product := by
  obtain ⟨step, significand, hpos, hunpack, hfits, -, hvalue⟩ := hx.unpack
  obtain ⟨step', significand', hpos', hunpack', hfits', -, hvalue'⟩ := hy.unpack
  obtain ⟨product, hpack, hrounds⟩ :=
    exists_rounds (hfits.exact_mul hfits' hpos hpos') .exact
  have hproduct : value bits * value other = (significand * significand' : Nat) *
      2 ^ ((step - 1074 : ℤ) + (step' - 1074)) := by
    rw [hvalue, hvalue', zpow_add₀ two_ne_zero]
    push_cast
    ring
  refine ⟨product, ?_, hrounds _ hproduct.ge ?_⟩
  · change Holds (.ofModel (Float.Model.pack
      (UnpackedFloat.mul Format.binary64 x.toModel.unpack y.toModel.unpack))) _ _
    rw [hunpack, hunpack']
    exact holds_pack (hpack .positive)
  · rw [hproduct]
    exact mul_lt_mul_of_pos_right (lt_add_one _) (zpow_pos two_pos _)

/-! ### Quotients -/

/-- A quotient of significands has enough bits once the divided one is long enough. -/
theorem exact_div {significand divisor shift : Nat} {exponent : Int} (hpos : 0 < significand)
    (hdivisor : 0 < divisor)
    (h : divisor.log2 + 53 ≤ significand.log2 + shift ∨ exponent ≤ -1074) :
    Exact ((significand <<< shift) / divisor) exponent := by
  refine h.imp_left fun hlog => ?_
  rw [Nat.le_div_iff_mul_le hdivisor, Nat.shiftLeft_eq]
  calc leadingBit * divisor ≤ 2 ^ 52 * 2 ^ (divisor.log2 + 1) :=
        Nat.mul_le_mul_left _ Nat.lt_log2_self.le
    _ = 2 ^ (divisor.log2 + 53) := by rw [← Nat.pow_add]; congr 1; omega
    _ ≤ 2 ^ (significand.log2 + shift) := Nat.pow_le_pow_right two_pos hlog
    _ = 2 ^ significand.log2 * 2 ^ shift := Nat.pow_add ..
    _ ≤ significand * 2 ^ shift :=
        Nat.mul_le_mul_right _ (Nat.log2_self_le (Nat.ne_of_gt hpos))

/-- The significand and the exponent that a division goes on with. -/
theorem divCore_bounds {significand divisor : Nat} (exponent exponent' : Int)
    (hpos : 0 < significand) (hdivisor : 0 < divisor) :
    ∃ quotient target accuracy,
      divCore Format.binary64 significand exponent divisor exponent' =
        (quotient, target, accuracy) ∧
      Exact quotient target ∧
      quotient * (2 : ℚ) ^ target ≤ significand * 2 ^ exponent / (divisor * 2 ^ exponent') ∧
      significand * 2 ^ exponent / (divisor * 2 ^ exponent') <
        (quotient + 1) * (2 : ℚ) ^ target := by
  refine ⟨_, _, _, rfl, ?_, ?_⟩
  · refine exact_div hpos hdivisor ?_
    have hbits : Format.binary64.mantissaBits = 53 := rfl
    have hleast : Format.binary64.minExponent = -1074 := rfl
    rw [Format.targetExponent, totalExponent, totalExponent, hbits, hleast]
    omega
  generalize Format.binary64.targetExponent
    (totalExponent significand exponent - totalExponent divisor exponent') = wanted
  generalize htarget : min (exponent - exponent') wanted = target
  generalize hshift : (exponent - exponent' - target).toNat = shift
  have hpow : (2 : ℚ) ^ exponent = 2 ^ shift * 2 ^ target * 2 ^ exponent' := by
    rw [← zpow_natCast, ← zpow_add₀ two_ne_zero, ← zpow_add₀ two_ne_zero]
    congr 1
    omega
  have hexact : significand * (2 : ℚ) ^ exponent / (divisor * 2 ^ exponent') =
      ((significand <<< shift : Nat) : ℚ) / divisor * 2 ^ target := by
    rw [hpow, Nat.shiftLeft_eq]
    push_cast
    rw [← mul_assoc, mul_div_mul_right _ _ (zpow_ne_zero _ two_ne_zero), ← mul_assoc,
      mul_div_right_comm]
  have htwo : (0 : ℚ) < 2 ^ target := zpow_pos two_pos _
  have hdivisorQ : (0 : ℚ) < divisor := Nat.cast_pos.2 hdivisor
  rw [hexact]
  refine ⟨mul_le_mul_of_nonneg_right ?_ htwo.le, mul_lt_mul_of_pos_right ?_ htwo⟩
  · exact Nat.cast_div_le
  · rw [div_lt_iff₀ hdivisorQ]
    have hlt := Nat.lt_mul_div_succ (significand <<< shift) hdivisor
    rw [Nat.mul_comm] at hlt
    exact_mod_cast hlt

theorem Finite.div (hx : Finite x s bits) (hy : Finite y .positive other) :
    ∃ quotient, Holds (x / y) s quotient ∧ Rounds (value bits / value other) quotient := by
  obtain ⟨step, significand, hpos, hunpack, hfits, -, hvalue⟩ := hx.unpack
  obtain ⟨step', significand', hpos', hunpack', hfits', -, hvalue'⟩ := hy.unpack
  obtain ⟨kept, target, accuracy, hcore, hexact, hlow, hhigh⟩ :=
    divCore_bounds (step - 1074) (step' - 1074) hpos hpos'
  obtain ⟨quotient, hpack, hrounds⟩ := exists_rounds hexact accuracy
  refine ⟨quotient, ?_, ?_⟩
  · change Holds (.ofModel (Float.Model.pack
      (UnpackedFloat.div Format.binary64 x.toModel.unpack y.toModel.unpack))) _ _
    rw [hunpack, hunpack', UnpackedFloat.div, hcore]
    have hsign : s / .positive = s := by cases s <;> rfl
    rw [hsign]
    exact holds_pack (hpack s)
  · rw [hvalue, hvalue']
    exact hrounds _ hlow hhigh

theorem Finite.neg (h : Finite x .positive bits) : Finite (-x) .negative bits := by
  obtain ⟨step, significand, hpos, hunpack, hfits, hbits, -⟩ := h.unpack
  refine ⟨?_, h.pos, h.lt_infinity⟩
  change Holds (.ofModel (Float.Model.pack x.toModel.unpack.neg)) _ _
  rw [hunpack]
  refine holds_pack ((toNat_pack hfits hpos).trans ?_)
  rw [← hbits, Nat.min_eq_left h.lt_infinity.le]
  rfl

/-! ### Natural numbers -/

theorem exact_shiftLeft {significand shift : Nat} {exponent : Int} (hpos : 0 < significand)
    (h : 52 ≤ significand.log2 + shift ∨ exponent ≤ -1074) :
    Exact (significand <<< shift) exponent := by
  refine h.imp_left fun hlog => ?_
  rw [Nat.shiftLeft_eq]
  calc leadingBit = 2 ^ 52 := rfl
    _ ≤ 2 ^ (significand.log2 + shift) := Nat.pow_le_pow_right two_pos hlog
    _ = 2 ^ significand.log2 * 2 ^ shift := Nat.pow_add ..
    _ ≤ significand * 2 ^ shift :=
        Nat.mul_le_mul_right _ (Nat.log2_self_le (Nat.ne_of_gt hpos))

theorem Finite.zero_div (h : Finite y .positive other) : Holds (0 / y) .positive 0 := by
  obtain ⟨step, significand, hpos, hunpack, -⟩ := h.unpack
  have hzero : (0 : Float).toModel.unpack = .zero .positive := by rfl
  change Holds (.ofModel (Float.Model.pack
    (UnpackedFloat.div Format.binary64 (0 : Float).toModel.unpack y.toModel.unpack))) _ _
  rw [hunpack, hzero]
  exact holds_pack toNat_pack_zero

theorem Exact.rounds_self {significand : Nat} {exponent : Int} (h : Exact significand exponent) :
    ∃ rounded,
      Holds (.ofModel (Float.Model.pack
        (roundWithAccuracy Format.binary64 .positive significand exponent .exact)))
        .positive rounded ∧
      Rounds (significand * 2 ^ exponent) rounded := by
  obtain ⟨rounded, hpack, hrounds⟩ := exists_rounds h .exact
  exact ⟨rounded, holds_pack (hpack .positive),
    hrounds _ le_rfl (mul_lt_mul_of_pos_right (lt_add_one _) (zpow_pos two_pos _))⟩

/-- A number of 53 bits goes through a machine word. -/
theorem holds_toFloat {n : Nat} (hpos : 0 < n) (hshort : n < 2 ^ 53) :
    ∃ rounded, Holds n.toUInt64.toFloat .positive rounded ∧ Rounds n rounded := by
  have hword : n.toUInt64.toNat = n := by
    change n % 2 ^ 64 = n
    exact Nat.mod_eq_of_lt (hshort.trans (by decide))
  have hgreater : compare (n : Int) 0 = .gt := Int.compare_eq_gt.2 (Int.natCast_pos.2 hpos)
  have hlog : n.log2 < 53 := (Nat.log2_lt (Nat.ne_of_gt hpos)).2 hshort
  generalize hshift : (0 - ((stepOf n 0 : Int) - 1074)).toNat = shift
  have hexact : Exact (n <<< shift) (0 - shift) := by
    refine exact_shiftLeft hpos (.inl ?_)
    rw [stepOf] at hshift
    omega
  obtain ⟨rounded, hholds, hrounds⟩ := hexact.rounds_self
  refine ⟨rounded, ?_, ?_⟩
  · have hfloat : n.toUInt64.toFloat = .ofModel (Float.Model.pack
        (roundWithAccuracy Format.binary64 .positive (n <<< shift) (0 - shift) .exact)) := by
      rw [UInt64.toFloat, Float.Model.ofUInt64, UnpackedFloat.ofUInt64, UnpackedFloat.ofNat,
        UnpackedFloat.ofInt, UnpackedFloat.normalize, hword, hgreater]
      dsimp only
      rw [Int.toNat_natCast, UnpackedFloat.round, targetExponent_eq, decreaseExponent, hshift]
    rw [hfloat]
    exact hholds
  · rw [Nat.shiftLeft_eq, zero_sub, zpow_neg, zpow_natCast, Nat.cast_mul, Nat.cast_pow,
      Nat.cast_ofNat, mul_inv_cancel_right₀ (pow_ne_zero _ two_ne_zero)] at hrounds
    exact hrounds

/-- A longer number is brought to 53 bits at once. -/
theorem holds_ofScientific {n : Nat} (hpos : 0 < n) :
    ∃ rounded, Holds (.ofModel (Float.Model.ofScientific n 0)) .positive rounded ∧
      Rounds n rounded := by
  have hexact : Exact ((n <<< 53) * 10 ^ 0) (-53 + 0) := by
    rw [Nat.pow_zero, Nat.mul_one]
    exact exact_shiftLeft hpos (.inl (by omega))
  obtain ⟨rounded, hholds, hrounds⟩ := hexact.rounds_self
  refine ⟨rounded, ?_, ?_⟩
  · have hbits : (2 : Int) ^ Format.binary64.exponentBits = 2048 := rfl
    rw [Float.Model.ofScientific, UnpackedFloat.ofScientific, dif_neg (Nat.ne_of_gt hpos),
      if_neg (by decide), if_neg (by omega), if_pos (Int.le_refl 0)]
    exact hholds
  · have hvalue : (((n <<< 53) * 10 ^ 0 : Nat) : ℚ) * 2 ^ (-53 + 0 : ℤ) = n := by
      rw [Nat.shiftLeft_eq, Nat.pow_zero, Nat.mul_one, add_zero, zpow_neg, zpow_ofNat,
        Nat.cast_mul, Nat.cast_pow, Nat.cast_ofNat]
      exact mul_inv_cancel_right₀ (pow_ne_zero _ two_ne_zero) _
    rwa [hvalue] at hrounds

end SnapshotStore.Binary64
