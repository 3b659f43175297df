import SnapshotStore.Proofs.Value.Scaled

/-!
# How far values stand in one line

Every value is equal to itself, and comparing two values the other way round turns the result
around. That three values stand in one line needs powers of ten that are finite: beyond, one
comparison may round a decimal to zero or infinity where another one is exact.
-/

namespace SnapshotStore.Value

/-- All values but decimals with a scale outside of these bounds. -/
def Scaled (least greatest : Int) : Value → Prop
  | numeric d => least ≤ d.scale.toInt ∧ d.scale.toInt ≤ greatest
  | _ => True

instance (least greatest : Int) : DecidablePred (Scaled least greatest)
  | numeric _ => inferInstanceAs (Decidable (_ ∧ _))
  | null | integer _ | string _ | date _ | timeSpan _ | boolean _ =>
    inferInstanceAs (Decidable True)

/-! ### Two values -/

theorem compare_swap (a b : Value) : compare b a = (compare a b).swap := by
  cases a <;> cases b <;> try rfl
  case integer.integer a b => exact @Std.OrientedOrd.eq_swap Int _ _ b.toInt a.toInt
  case integer.numeric a b => exact Decimal.compareScaled_swap a 0 b.mantissa b.scale
  case numeric.integer a b => exact Decimal.compareScaled_swap a.mantissa a.scale b 0
  case numeric.numeric a b =>
    exact Decimal.compareScaled_swap a.mantissa a.scale b.mantissa b.scale
  case string.string a b => exact @Std.OrientedOrd.eq_swap String _ _ b a
  case date.date a b => exact @Std.OrientedOrd.eq_swap Int _ _ b.toInt a.toInt
  case timeSpan.timeSpan a b => exact @Std.OrientedOrd.eq_swap Int _ _ b.toInt a.toInt
  case boolean.boolean a b => cases a <;> cases b <;> rfl

theorem compare_self (a : Value) : compare a a = .eq := by
  have hswap := compare_swap a a
  cases h : compare a a with
  | eq => rfl
  | lt | gt =>
    rw [h] at hswap
    contradiction

/-! ### Numbers -/

/-- A number as a decimal; an integer has the scale 0. -/
def decimal? : Value → Option Decimal
  | integer n => some ⟨n, 0, 0⟩
  | numeric d => some d
  | _ => none

theorem compare_of_decimal? {a b : Value} {d e : Decimal} (ha : a.decimal? = some d)
    (hb : b.decimal? = some e) :
    compare a b = Decimal.compareScaled d.mantissa d.scale e.mantissa e.scale := by
  cases a <;> cases ha <;> cases b <;> cases hb <;> try rfl
  exact (Decimal.compareScaled_of_scale_eq rfl).symm

/-- The number of a value, with decimals of all scales. -/
def quantity : Value → ℚ
  | integer n => Decimal.quantity n 0
  | numeric d => Decimal.quantity d.mantissa d.scale
  | v => v.number

/-- Two values are compared by rank, number and text as soon as that is so for two numbers. -/
theorem compare_eq_of_numbers {a b : Value}
    (h : ∀ d e, a.decimal? = some d → b.decimal? = some e →
      Decimal.compareScaled d.mantissa d.scale e.mantissa e.scale =
        compare (Decimal.quantity d.mantissa d.scale) (Decimal.quantity e.mantissa e.scale)) :
    compare a b =
      compareLex (compareOn rank) (compareLex (compareOn quantity) (compareOn content)) a b := by
  cases a <;> cases b <;> try rfl
  case integer.integer a b =>
    rw [compareLex_eq quantity (integer a) (integer b) rfl rfl, compare_of_decimal? rfl rfl]
    exact h _ _ rfl rfl
  case integer.numeric a b =>
    rw [compareLex_eq quantity (integer a) (numeric b) rfl rfl, compare_of_decimal? rfl rfl]
    exact h _ _ rfl rfl
  case numeric.integer a b =>
    rw [compareLex_eq quantity (numeric a) (integer b) rfl rfl, compare_of_decimal? rfl rfl]
    exact h _ _ rfl rfl
  case numeric.numeric a b =>
    rw [compareLex_eq quantity (numeric a) (numeric b) rfl rfl, compare_of_decimal? rfl rfl]
    exact h _ _ rfl rfl
  case date.date a b =>
    rw [compareLex_eq quantity (date a) (date b) rfl rfl]
    exact (Decimal.compare_cast a.toInt b.toInt).symm
  case timeSpan.timeSpan a b =>
    rw [compareLex_eq quantity (timeSpan a) (timeSpan b) rfl rfl]
    exact (Decimal.compare_cast a.toInt b.toInt).symm
  case boolean.boolean a b => cases a <;> cases b <;> rfl

/-! ### Finite powers of ten -/

theorem Scaled.natAbs_le {a : Value} {d : Decimal} (h : a.Scaled (-308) 308)
    (ha : a.decimal? = some d) : d.scale.toInt.natAbs ≤ Decimal.greatestPower := by
  have hzero : (0 : Int32).toInt.natAbs ≤ Decimal.greatestPower := by decide
  cases a <;> cases ha
  · exact hzero
  · obtain ⟨hlow, hhigh⟩ := h
    rw [Decimal.greatestPower]
    omega

theorem compare_eq_quantity {a b : Value} (ha : a.Scaled (-308) 308) (hb : b.Scaled (-308) 308) :
    compare a b =
      compareLex (compareOn rank) (compareLex (compareOn quantity) (compareOn content)) a b :=
  compare_eq_of_numbers fun _ _ hd he =>
    Decimal.compareScaled_eq_compare_quantity (ha.natAbs_le hd) (hb.natAbs_le he)

theorem Scaled.mono {least greatest : Int} {a : Value} (h : a.Scaled least greatest)
    (hleast : -308 ≤ least) (hgreatest : greatest ≤ 308) : a.Scaled (-308) 308 := by
  cases a with
  | numeric d => exact ⟨hleast.trans h.1, h.2.trans hgreatest⟩
  | null | integer _ | string _ | date _ | timeSpan _ | boolean _ => trivial

theorem orderedOn_scaled {least greatest : Int} (hleast : -308 ≤ least)
    (hgreatest : greatest ≤ 308) : OrderedOn (Scaled least greatest) :=
  (orderedOn_of_compareLex quantity compare_eq_quantity).mono fun _ ha => ha.mono hleast hgreatest

/-! ### Powers of ten that are not finite -/

/-- The quotients of small decimals are zero, and they still differ from one another. -/
theorem compareScaled_small : Decimal.compareScaled 2 309 0 0 = .eq ∧
    Decimal.compareScaled 0 0 1 309 = .eq ∧ Decimal.compareScaled 2 309 1 309 = .gt := by
  decide +kernel

/-- A zero is divided by zero and then stands below all numbers; two zeros are compared exactly. -/
theorem compareScaled_large : Decimal.compareScaled 0 (-300) 0 (-309) = .eq ∧
    Decimal.compareScaled 0 (-309) (-5) 0 = .lt ∧
    Decimal.compareScaled 0 (-300) (-5) 0 = .gt := by
  decide +kernel

theorem scaled_of_toInt_eq {least greatest scale : Int} {d : Decimal} (h : d.scale.toInt = scale)
    (hleast : least ≤ scale) (hgreatest : scale ≤ greatest) :
    (numeric d).Scaled least greatest := by
  rw [← h] at hleast hgreatest
  exact ⟨hleast, hgreatest⟩

theorem bounds_of_isLE_trans {least greatest : Int} (hleast : least ≤ 0) (hgreatest : 0 ≤ greatest)
    (h : ∀ a b c : Value, a.Scaled least greatest → b.Scaled least greatest →
      c.Scaled least greatest → (compare a b).isLE → (compare b c).isLE → (compare a c).isLE) :
    -308 ≤ least ∧ greatest ≤ 308 := by
  constructor
  · by_contra hlow
    obtain ⟨hab, hbc, hac⟩ := compareScaled_large
    have ha : (-300 : Int32).toInt = -300 := rfl
    have hb : (-309 : Int32).toInt = -309 := rfl
    have hle := h (numeric ⟨0, 0, -300⟩) (numeric ⟨0, 0, -309⟩) (integer (-5))
      (scaled_of_toInt_eq ha (by omega) (by omega)) (scaled_of_toInt_eq hb (by omega) (by omega))
      trivial (congrArg Ordering.isLE hab) (congrArg Ordering.isLE hbc)
    exact absurd (hle.symm.trans (congrArg Ordering.isLE hac)) (by decide)
  · by_contra hhigh
    obtain ⟨hab, hbc, hac⟩ := compareScaled_small
    have hscale : (309 : Int32).toInt = 309 := rfl
    have hle := h (numeric ⟨2, 0, 309⟩) (integer 0) (numeric ⟨1, 0, 309⟩)
      (scaled_of_toInt_eq hscale (by omega) (by omega)) trivial
      (scaled_of_toInt_eq hscale (by omega) (by omega))
      (congrArg Ordering.isLE hab) (congrArg Ordering.isLE hbc)
    exact absurd (hle.symm.trans (congrArg Ordering.isLE hac)) (by decide)

/-! ### Three values -/

/-- Values with scales from -308 to 308 stand in one line, and no wider bounds will do. -/
theorem compare_total {least greatest : Int} (hleast : least ≤ 0) (hgreatest : 0 ≤ greatest) :
    (∀ a : Value, compare a a = .eq) ∧
      (∀ a b : Value, compare b a = (compare a b).swap) ∧
      ((∀ a b c : Value, a.Scaled least greatest → b.Scaled least greatest →
          c.Scaled least greatest → (compare a b).isLE → (compare b c).isLE →
          (compare a c).isLE) ↔
        -308 ≤ least ∧ greatest ≤ 308) := by
  refine ⟨compare_self, compare_swap, bounds_of_isLE_trans hleast hgreatest, ?_⟩
  intro hbounds a b c
  exact (orderedOn_scaled hbounds.1 hbounds.2).isLE_trans

/-- The quotients decide between the first two and the last two of these decimals. -/
theorem compare_total_of_distant :
    (compare (numeric ⟨-1, 0, -308⟩) (numeric ⟨1, 0, 308⟩)).isLE ∧
      (compare (numeric ⟨1, 0, 308⟩) (numeric ⟨1, 0, -308⟩)).isLE ∧
      (compare (numeric ⟨-1, 0, -308⟩) (numeric ⟨1, 0, -308⟩)).isLE := by
  obtain ⟨hab, hbc⟩ : (compare (numeric ⟨-1, 0, -308⟩) (numeric ⟨1, 0, 308⟩)).isLE ∧
      (compare (numeric ⟨1, 0, 308⟩) (numeric ⟨1, 0, -308⟩)).isLE := by decide +kernel
  have htotal := @compare_total (-308) 308 (by decide) (by decide)
  exact ⟨hab, hbc, htotal.2.2.2 (by decide) _ _ _ (by decide) (by decide) (by decide) hab hbc⟩

/-- Two decimals that differ and that are both equal to an integer. -/
theorem compare_not_total : compare (numeric ⟨2, 0, 309⟩) (integer 0) = .eq ∧
    compare (integer 0) (numeric ⟨1, 0, 309⟩) = .eq ∧
    compare (numeric ⟨2, 0, 309⟩) (numeric ⟨1, 0, 309⟩) = .gt :=
  compareScaled_small

end SnapshotStore.Value
