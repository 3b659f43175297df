import SnapshotStore.Proofs.Value.Order
import SnapshotStore.Proofs.Value.Quotient

/-!
# Decimals of all scales

Two decimals whose comparison is not exact are far apart, or one of them is zero. So their quotients
are in the order of the decimals as long as the powers of ten are finite.
-/

namespace SnapshotStore.Decimal

open Binary64

variable {m a b : Int64} {scale aScale bScale : Int32} {shift : Nat} {product : Int} {x y : ℚ}

/-! ### Comparisons turned around -/

theorem compareTotal_swap (f g : Float) : compareTotal g f = (compareTotal f g).swap :=
  Std.OrientedOrd.eq_swap

theorem compareScaled_of_scale_eq (h : aScale.toInt = bScale.toInt) :
    compareScaled a aScale b bScale = compare a.toInt b.toInt := by
  rw [compareScaled, if_pos h.ge, h, Int.sub_self, Int.toNat_zero, rescale?_eq_some (Nat.zero_le _)]
  exact congrArg (compare a.toInt) (Int.mul_one b.toInt)

/-- The two comparisons of two decimals take the same way, also beyond the finite powers of ten. -/
theorem compareScaled_swap (a : Int64) (aScale : Int32) (b : Int64) (bScale : Int32) :
    compareScaled b bScale a aScale = (compareScaled a aScale b bScale).swap := by
  rcases lt_trichotomy aScale.toInt bScale.toInt with hlt | heq | hgt
  · rw [compareScaled, if_pos hlt.le, compareScaled, if_neg (Int.not_le.2 hlt)]
    cases rescale? a (bScale.toInt - aScale.toInt).toNat with
    | some product => exact Std.OrientedOrd.eq_swap
    | none => exact compareTotal_swap _ _
  · rw [compareScaled_of_scale_eq heq, compareScaled_of_scale_eq heq.symm]
    exact Std.OrientedOrd.eq_swap
  · rw [compareScaled, if_neg (Int.not_le.2 hgt), compareScaled, if_pos hgt.le]
    cases rescale? b (aScale.toInt - bScale.toInt).toNat with
    | some product => exact Std.OrientedOrd.eq_swap
    | none => exact compareTotal_swap _ _

/-! ### Exact comparisons -/

theorem eq_of_rescale? (h : rescale? m shift = some product) :
    product = m.toInt * Nat.pow 10 shift := by
  rw [rescale?] at h
  exact (Option.ite_some_none_eq_some.1 h).2.symm

theorem quantity_eq (h : scale.toInt ≤ aScale.toInt) :
    quantity m scale = (m.toInt * Nat.pow 10 (aScale.toInt - scale.toInt).toNat : Int) *
      10 ^ (-aScale.toInt) := by
  have hpow : (10 : ℚ) ^ (-scale.toInt) =
      10 ^ (aScale.toInt - scale.toInt).toNat * 10 ^ (-aScale.toInt) := by
    rw [← zpow_natCast, ← zpow_add₀ (by norm_num)]
    congr 1
    omega
  rw [quantity, hpow, ← mul_assoc, Nat.pow_eq]
  push_cast
  rfl

theorem compare_cast (n n' : Int) : compare (n : ℚ) n' = compare n n' := by
  rw [← cmp_eq_compare, ← cmp_eq_compare]
  exact Int.cast_strictMono.cmp_map_eq n n'

theorem compare_quantity (n n' exponent : Int) :
    compare ((n : ℚ) * 10 ^ exponent) (n' * 10 ^ exponent) = compare n n' := by
  have hpow : (0 : ℚ) < 10 ^ exponent := zpow_pos (by norm_num) _
  rw [← cmp_eq_compare, cmp_mul_pos_right hpow, cmp_eq_compare, compare_cast]

/-- Once the mantissa of the smaller scale has been brought to the larger one, both comparisons of
the two decimals are exact. -/
theorem compareScaled_of_rescale? (hle : bScale.toInt ≤ aScale.toInt)
    (h : rescale? b (aScale.toInt - bScale.toInt).toNat = some product) :
    compareScaled a aScale b bScale = compare (quantity a aScale) (quantity b bScale) ∧
      compareScaled b bScale a aScale = compare (quantity b bScale) (quantity a aScale) := by
  have hexact : compareScaled a aScale b bScale =
      compare (quantity a aScale) (quantity b bScale) := by
    rw [compareScaled, if_pos hle, h, quantity_eq hle, ← eq_of_rescale? h, quantity,
      compare_quantity]
    rfl
  refine ⟨hexact, ?_⟩
  rw [compareScaled_swap, hexact]
  exact Std.OrientedOrd.eq_swap.symm

/-! ### Numbers that are far apart -/

/-- The second number is greater by far without their signs. -/
def Far (x y : ℚ) : Prop := 2 ^ 64 * |x| ≤ |y|

theorem le_of_rescale?_eq_none (h : rescale? m shift = none) (hm : m.toInt ≠ 0) :
    2 ^ 127 ≤ m.toInt.natAbs * 10 ^ shift := by
  have hpos : 1 ≤ m.toInt.natAbs := Nat.one_le_iff_ne_zero.2 (Int.natAbs_ne_zero.2 hm)
  have hproduct : (m.toInt * Nat.pow 10 shift).natAbs = m.toInt.natAbs * 10 ^ shift :=
    Int.natAbs_mul ..
  rw [rescale?] at h
  split at h
  · contradiction
  · next hlarge =>
    by_cases hshift : shift ≤ 38
    · omega
    · calc 2 ^ 127 ≤ 10 ^ 39 := by decide
        _ ≤ 10 ^ shift := Nat.pow_le_pow_right (by decide) (Nat.lt_of_not_le hshift)
        _ ≤ m.toInt.natAbs * 10 ^ shift := Nat.le_mul_of_pos_left _ hpos

theorem far_of_rescale?_eq_none (hle : aScale.toInt ≤ bScale.toInt)
    (h : rescale? a (bScale.toInt - aScale.toInt).toNat = none) :
    Far (quantity a aScale) (quantity b bScale) ∨ Far (quantity b bScale) (quantity a aScale) := by
  by_cases ha : a.toInt = 0
  · left
    rw [Far, quantity, ha, Int.cast_zero, zero_mul, abs_zero, mul_zero]
    exact abs_nonneg _
  · right
    have hlarge := le_of_rescale?_eq_none h ha
    have hb : b.toInt.natAbs ≤ 2 ^ 63 := by
      have hlow := Int64.le_toInt b
      have hhigh := Int64.toInt_lt b
      omega
    have hpow : (0 : ℚ) ≤ 10 ^ (-bScale.toInt) := zpow_nonneg (by norm_num) _
    rw [Far, quantity_eq hle, quantity, abs_mul, abs_mul, abs_of_nonneg hpow, ← mul_assoc]
    refine mul_le_mul_of_nonneg_right ?_ hpow
    rw [← Int.cast_abs, ← Int.cast_abs, Int.abs_eq_natAbs, Int.abs_eq_natAbs, Int.natAbs_mul]
    have hfar : 2 ^ 64 * b.toInt.natAbs ≤
        a.toInt.natAbs * 10 ^ (bScale.toInt - aScale.toInt).toNat :=
      (Nat.mul_le_mul_left _ hb).trans ((by decide : 2 ^ 64 * 2 ^ 63 ≤ 2 ^ 127).trans hlarge)
    exact_mod_cast hfar

/-- A comparison is exact or it is that of two quotients of numbers that are far apart. -/
theorem compareScaled_cases (a : Int64) (aScale : Int32) (b : Int64) (bScale : Int32) :
    compareScaled a aScale b bScale = compare (quantity a aScale) (quantity b bScale) ∨
      compareScaled a aScale b bScale =
          compareTotal (quotient a aScale) (quotient b bScale) ∧
        (Far (quantity a aScale) (quantity b bScale) ∨
          Far (quantity b bScale) (quantity a aScale)) := by
  rcases Int.lt_or_le aScale.toInt bScale.toInt with hlt | hle
  · cases hrescale : rescale? a (bScale.toInt - aScale.toInt).toNat with
    | some product => exact .inl (compareScaled_of_rescale? hlt.le hrescale).2
    | none =>
      rw [compareScaled, if_neg (Int.not_le.2 hlt), hrescale]
      exact .inr ⟨rfl, far_of_rescale?_eq_none hlt.le hrescale⟩
  · cases hrescale : rescale? b (aScale.toInt - bScale.toInt).toNat with
    | some product => exact .inl (compareScaled_of_rescale? hle hrescale).1
    | none =>
      rw [compareScaled, if_pos hle, hrescale]
      exact .inr ⟨rfl, (far_of_rescale?_eq_none hle hrescale).symm⟩

/-! ### Quotients of numbers that are far apart -/

/-- The place of a quotient in the total order, for the number that it is rounded from. -/
inductive Placed : ℚ → Int → Prop
  | zero : Placed 0 0
  | positive {x : ℚ} {bits : Nat} (hx : (10 : ℚ) ^ (-308 : ℤ) ≤ x) (h : RoundsNear x bits) :
      Placed x bits
  | negative {x : ℚ} {bits : Nat} (hx : (10 : ℚ) ^ (-308 : ℤ) ≤ x) (h : RoundsNear x bits) :
      Placed (-x) (-bits - 1)

/-- The limits of a quantity whose power of ten is finite. -/
theorem abs_quantity (hscale : scale.toInt.natAbs ≤ greatestPower) :
    |quantity m scale| ≤ 2 ^ 63 * 10 ^ (308 : ℤ) ∧
      (m.toInt ≠ 0 → (10 : ℚ) ^ (-308 : ℤ) ≤ |quantity m scale|) := by
  have hgreatest : greatestPower = 308 := rfl
  have hlow := Int64.le_toInt m
  have hhigh := Int64.toInt_lt m
  have hpow : (0 : ℚ) ≤ 10 ^ (-scale.toInt) := zpow_nonneg (by norm_num) _
  have hmantissa : |(m.toInt : ℚ)| = m.toInt.natAbs := by
    rw [← Int.cast_abs, Int.abs_eq_natAbs, Int.cast_natCast]
  rw [quantity, abs_mul, abs_of_nonneg hpow, hmantissa]
  constructor
  · have hnat : ((m.toInt.natAbs : Nat) : ℚ) ≤ 2 ^ 63 := by
      exact_mod_cast (by omega : m.toInt.natAbs ≤ 2 ^ 63)
    exact mul_le_mul hnat (zpow_le_zpow_right₀ (by norm_num) (by omega)) hpow (by norm_num)
  · intro hm
    have hone : (1 : ℚ) ≤ m.toInt.natAbs :=
      Nat.one_le_cast.2 (Nat.one_le_iff_ne_zero.2 (Int.natAbs_ne_zero.2 hm))
    exact (zpow_le_zpow_right₀ (by norm_num) (by omega)).trans (le_mul_of_one_le_left hpow hone)

theorem placed_quotient (hscale : scale.toInt.natAbs ≤ greatestPower) :
    Placed (quantity m scale) (rank (quotient m scale)) := by
  have hpow : (0 : ℚ) < 10 ^ (-scale.toInt) := zpow_pos (by norm_num) _
  have hleast := (abs_quantity (m := m) hscale).2
  rcases lt_trichotomy m.toInt 0 with hneg | hzero | hpos
  · have hquantity : quantity m scale < 0 :=
      mul_neg_of_neg_of_pos (Int.cast_lt_zero.2 hneg) hpow
    obtain ⟨bits, hrank, hrounds⟩ := rank_quotient_of_neg hneg hscale
    have hleast := hleast hneg.ne
    rw [abs_of_neg hquantity] at hleast
    rw [hrank, ← neg_neg (quantity m scale)]
    exact .negative hleast hrounds
  · rw [rank_quotient_of_zero hzero hscale, quantity, hzero, Int.cast_zero, zero_mul]
    exact .zero
  · have hquantity : 0 < quantity m scale := mul_pos (Int.cast_pos.2 hpos) hpow
    obtain ⟨bits, hrank, hrounds⟩ := rank_quotient_of_pos hpos hscale
    have hleast := hleast hpos.ne'
    rw [abs_of_pos hquantity] at hleast
    rw [hrank]
    exact .positive hleast hrounds

theorem Placed.compare_of_far {r r' : Int} (h : Placed x r) (h' : Placed y r') (hfar : Far x y)
    (hy : |y| ≤ 2 ^ 63 * 10 ^ (308 : ℤ)) : compare r r' = compare x y := by
  have hleast : (0 : ℚ) < 10 ^ (-308 : ℤ) := zpow_pos (by norm_num) _
  -- A number that is far below another one has its quotient below a finite power of ten.
  have hlimit : |x| ≤ 10 ^ (308 : ℤ) := by
    have hgreatest : (0 : ℚ) < 10 ^ (308 : ℤ) := zpow_pos (by norm_num) _
    rw [Far] at hfar
    generalize (10 : ℚ) ^ (308 : ℤ) = greatest at hy hgreatest ⊢
    linarith
  have hlt : r < r' → x < y → compare r r' = compare x y := fun hr hx =>
    (compare_lt_iff_lt.2 hr).trans (compare_lt_iff_lt.2 hx).symm
  have hgt : r' < r → y < x → compare r r' = compare x y := fun hr hx =>
    (compare_gt_iff_gt.2 hr).trans (compare_gt_iff_gt.2 hx).symm
  rw [Far] at hfar
  cases h with
  | zero =>
    cases h' with
    | zero => rfl
    | positive hy' h' =>
      have hpos := h'.pos hy'
      exact hlt (by omega) (hleast.trans_le hy')
    | negative hy' h' => exact hgt (by omega) (neg_neg_of_pos (hleast.trans_le hy'))
  | positive hx h =>
    have hxpos := hleast.trans_le hx
    rw [abs_of_pos hxpos] at hfar hlimit
    cases h' with
    | zero =>
      rw [abs_zero] at hfar
      linarith
    | positive hy' h' =>
      rw [abs_of_pos (hleast.trans_le hy')] at hfar
      have hbits := h.lt h' hx hlimit hfar
      exact hlt (by omega) (by linarith)
    | negative hy' h' => exact hgt (by omega) (by linarith)
  | negative hx h =>
    have hxpos := hleast.trans_le hx
    rw [abs_neg, abs_of_pos hxpos] at hfar hlimit
    cases h' with
    | zero =>
      rw [abs_zero] at hfar
      linarith
    | positive hy' h' => exact hlt (by omega) (by linarith)
    | negative hy' h' =>
      rw [abs_neg, abs_of_pos (hleast.trans_le hy')] at hfar
      have hbits := h.lt h' hx hlimit hfar
      exact hgt (by omega) (by linarith)

theorem compareTotal_quotient (ha : aScale.toInt.natAbs ≤ greatestPower)
    (hb : bScale.toInt.natAbs ≤ greatestPower)
    (hfar : Far (quantity a aScale) (quantity b bScale)) :
    compareTotal (quotient a aScale) (quotient b bScale) =
      compare (quantity a aScale) (quantity b bScale) :=
  (placed_quotient ha).compare_of_far (placed_quotient hb) hfar (abs_quantity hb).1

/-! ### All comparisons -/

/-- Decimals whose powers of ten are finite are in the order of the numbers. -/
theorem compareScaled_eq_compare_quantity (ha : aScale.toInt.natAbs ≤ greatestPower)
    (hb : bScale.toInt.natAbs ≤ greatestPower) :
    compareScaled a aScale b bScale = compare (quantity a aScale) (quantity b bScale) := by
  obtain hexact | ⟨hquotients, hfar | hfar⟩ := compareScaled_cases a aScale b bScale
  · exact hexact
  · rw [hquotients, compareTotal_quotient ha hb hfar]
  · rw [hquotients, compareTotal_swap, compareTotal_quotient hb ha hfar]
    exact Std.OrientedOrd.eq_swap.symm

end SnapshotStore.Decimal
