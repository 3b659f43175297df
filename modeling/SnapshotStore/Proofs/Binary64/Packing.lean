import Mathlib
import SnapshotStore.Binary64.Order
import SnapshotStore.Proofs.Binary64.Patterns

/-!
# Numbers and their patterns

The pattern of a number is that of its sign and the place of its significand and exponent. Packing a
number and unpacking its pattern again gives the number back.
-/

namespace SnapshotStore.Binary64

open Float.Model Float.Model.UnpackedFloat

variable {s : Sign} {bits step significand : Nat} {x : Float}

/-- The pattern of a sign. -/
def signPattern : Sign → Nat
  | .negative => signBit
  | .positive => 0

/-! ### Components -/

theorem toNat_packComponents (exponent : BitVec 11) (fraction : BitVec 52) :
    (packComponents Format.binary64 s exponent fraction).toNat =
      signPattern s + exponent.toNat * leadingBit + fraction.toNat := by
  have happend : (packComponents Format.binary64 s exponent fraction).toNat =
      ((s.toBitVec ++ exponent) ++ fraction).toNat := rfl
  rw [happend, BitVec.toNat_append, BitVec.toNat_append,
    ← Nat.shiftLeft_add_eq_or_of_lt exponent.isLt, ← Nat.shiftLeft_add_eq_or_of_lt fraction.isLt,
    Nat.shiftLeft_eq, Nat.shiftLeft_eq]
  cases s with
  | negative =>
    simp only [Sign.toBitVec, signPattern, signBit, leadingBit, BitVec.toNat_ofNat]
    omega
  | positive =>
    simp only [Sign.toBitVec, signPattern, leadingBit, BitVec.toNat_ofNat]
    omega

theorem sign_packComponents (exponent : BitVec 11) (fraction : BitVec 52) :
    Sign.ofBitVec (unpackSign (packComponents Format.binary64 s exponent fraction)) = s := by
  rw [unpackSign_packComponents, Sign.ofBitVec_toBitVec]

/-- A pattern is made of its sign, its exponent and its fraction. -/
theorem eq_packComponents {pattern : BitVec 64} (h : pattern.toNat = signPattern s + bits)
    (hbits : bits < signBit) :
    pattern =
      packComponents Format.binary64 s (.ofNat 11 (bits / leadingBit)) (.ofNat 52 bits) := by
  refine BitVec.eq_of_toNat_eq ?_
  rw [toNat_packComponents, h, BitVec.toNat_ofNat, BitVec.toNat_ofNat]
  unfold leadingBit signBit at *
  omega

/-! ### Packing -/

/-- A number whose exponent is too large for a pattern is packed as infinity. -/
theorem toNat_pack (hfits : Fits step significand) (hpos : 0 < significand) :
    (UnpackedFloat.pack Format.binary64 (.finite s significand (step - 1074) hpos)).toNat =
      signPattern s + min (place step significand) infinity := by
  obtain ⟨hleast, hbits⟩ := hfits
  have hbiased : ((step - 1074 : ℤ) + Format.binary64.exponentBias +
      Format.binary64.mantissaBitsWithoutImplicit).toNat = step + 1 := by
    have hbias : Format.binary64.exponentBias = 1023 := rfl
    have hwidth : Format.binary64.mantissaBitsWithoutImplicit = 52 := rfl
    omega
  simp only [UnpackedFloat.pack, hbiased]
  split
  · next hlarge =>
    have hlarge : 2048 ≤ step + 2 := hlarge
    have hplace : infinity ≤ place step significand := by
      unfold place infinity leadingBit at *
      omega
    rw [packedInfinity, toNat_packComponents, Nat.min_eq_right hplace]
    rfl
  · next hsmall =>
    have hsmall : ¬2048 ≤ step + 2 := hsmall
    have hplace : place step significand ≤ infinity := by
      unfold place infinity leadingBit at *
      omega
    rw [Nat.min_eq_left hplace]
    split
    · next hlog =>
      have hlog : significand.log2 = 52 := Nat.succ.inj hlog
      have hlong := Nat.log2_self_le (Nat.ne_of_gt hpos)
      rw [hlog] at hlong
      rw [toNat_packComponents, BitVec.toNat_ofNat, BitVec.toNat_ofNat]
      unfold place leadingBit at *
      omega
    · next hlog =>
      have hshort : significand < leadingBit := by
        by_contra hlong
        refine hlog (congrArg (· + 1) ((Nat.log2_eq_iff (Nat.ne_of_gt hpos)).2 ⟨?_, ?_⟩))
        · exact Nat.le_of_not_lt hlong
        · exact hbits
      rw [toNat_packComponents, BitVec.toNat_ofNat, BitVec.toNat_ofNat]
      unfold place leadingBit at *
      omega

theorem toNat_pack_zero :
    (UnpackedFloat.pack Format.binary64 (.zero s)).toNat = signPattern s := by
  cases s <;> rfl

/-! ### Unpacking -/

theorem unpack_finite {pattern : BitVec 64} (h : pattern.toNat = signPattern s + bits)
    (hpos : 0 < bits) (hbits : bits < infinity) :
    ∃ (step significand : Nat) (hsignificand : 0 < significand),
      UnpackedFloat.unpack Format.binary64 pattern =
        .finite s significand (step - 1074) hsignificand ∧
      Fits step significand ∧ bits = place step significand := by
  have hsigned : bits < signBit := Nat.lt_trans hbits (by decide)
  have hbias : Format.binary64.exponentBias = 1023 := rfl
  have hexponent : (BitVec.ofNat 11 (bits / leadingBit)).toNat = bits / leadingBit := by
    rw [BitVec.toNat_ofNat]
    unfold infinity leadingBit at *
    omega
  have hfraction : (BitVec.ofNat 52 bits).toNat = bits % leadingBit := BitVec.toNat_ofNat ..
  have hnotAll : BitVec.ofNat 11 (bits / leadingBit) ≠ -1#11 := by
    intro hall
    have hmax : (-1#11).toNat = 2047 := rfl
    rw [hall, hmax] at hexponent
    unfold infinity leadingBit at *
    omega
  rw [eq_packComponents h hsigned]
  simp only [UnpackedFloat.unpack, unpackExponent_packComponents, unpackMantissa_packComponents,
    sign_packComponents]
  rw [if_neg hnotAll]
  split
  · next hzero =>
    have hquotient : bits / leadingBit = 0 := by
      rw [← hexponent, hzero]
      rfl
    have hshort : bits < leadingBit := (Nat.div_eq_zero_iff_lt (by decide)).1 hquotient
    rw [Nat.mod_eq_of_lt hshort] at hfraction
    have hnonzero : BitVec.ofNat 52 bits ≠ 0#52 := by
      intro hnone
      rw [hnone] at hfraction
      exact Nat.ne_of_gt hpos hfraction.symm
    rw [dif_neg hnonzero]
    refine ⟨0, bits, hpos, ?_, ⟨.inl rfl, by omega⟩, by rw [place]; omega⟩
    rw [UnpackedFloat.finite.injEq, hzero, hbias]
    exact ⟨rfl, hfraction, rfl⟩
  · next hnonzero =>
    have hquotient : bits / leadingBit ≠ 0 := by
      intro hnone
      refine hnonzero (BitVec.eq_of_toNat_eq ?_)
      rw [hexponent, hnone]
      rfl
    refine ⟨bits / leadingBit - 1, leadingBit + bits % leadingBit,
      Nat.add_pos_left (by decide) _, ?_, ?_, ?_⟩
    · rw [UnpackedFloat.finite.injEq, hexponent, hbias]
      refine ⟨rfl, ?_, by omega⟩
      rw [BitVec.toNat_append, ← Nat.shiftLeft_add_eq_or_of_lt (BitVec.isLt _), hfraction]
      rfl
    · have hfractionLt := Nat.mod_lt bits (by decide : 0 < leadingBit)
      exact ⟨.inr (Nat.le_add_right _ _), by omega⟩
    · unfold place leadingBit at *
      omega

/-- Below infinity and at infinity there is no number without a value. -/
theorem isNaN_of_le (h : x.toBits.toNat = signPattern s + bits) (hbits : bits ≤ infinity) :
    x.isNaN = false := by
  have hsigned : bits < signBit := Nat.lt_of_le_of_lt hbits (by decide)
  change (UnpackedFloat.unpack Format.binary64 x.toBits.toBitVec).isNaN = false
  rw [eq_packComponents h hsigned]
  simp only [UnpackedFloat.unpack, unpackExponent_packComponents, unpackMantissa_packComponents,
    sign_packComponents]
  split
  · next hall =>
    split
    · rfl
    · next hfraction =>
      refine absurd (BitVec.eq_of_toNat_eq ?_) hfraction
      have hall := congrArg BitVec.toNat hall
      have hmax : (-1#11).toNat = 2047 := rfl
      rw [hmax, BitVec.toNat_ofNat] at hall
      rw [BitVec.toNat_ofNat, BitVec.toNat_ofNat]
      unfold infinity leadingBit at *
      omega
  · split
    · split <;> rfl
    · rfl

/-! ### The total order -/

theorem rank_of_positive (h : x.toBits.toNat = signPattern .positive + bits)
    (hbits : bits ≤ infinity) : rank x = bits := by
  have hsigned : ¬signBit ≤ bits := Nat.not_le.2 (Nat.lt_of_le_of_lt hbits (by decide))
  have hpattern : x.toBits.toNat = bits := h.trans (Nat.zero_add bits)
  rw [rank, isNaN_of_le h hbits, if_neg Bool.false_ne_true, hpattern]
  exact if_neg hsigned

theorem rank_of_negative (h : x.toBits.toNat = signPattern .negative + bits)
    (hbits : bits ≤ infinity) : rank x = -bits - 1 := by
  have hsigned : bits < signBit := Nat.lt_of_le_of_lt hbits (by decide)
  have hpattern : x.toBits.toNat = signBit + bits := h
  rw [rank, isNaN_of_le h hbits, if_neg Bool.false_ne_true, hpattern]
  refine (if_pos (Nat.le_add_right _ _)).trans ?_
  rw [Nat.add_mod_left, Nat.mod_eq_of_lt hsigned]

end SnapshotStore.Binary64
