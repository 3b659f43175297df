import SnapshotStore.Proofs.Value.Total

/-!
# Exact comparisons of numbers

Two numbers are compared exactly if the mantissa of the smaller scale, brought to the larger one,
fits in 128 bits, and with scales that differ by 19 at most it always does. So all values whose
scales lie that close together stand in one line, wherever their scales lie: null first, then kind
by kind, with the numbers in the order of what they denote.
-/

namespace SnapshotStore

namespace Decimal

variable {a b : Decimal} {m : Int64} {shift : Nat}

/-- The rational that a decimal denotes. -/
def rational (d : Decimal) : ℚ := d.mantissa.toInt * 10 ^ (-d.scale.toInt)

/-- The power of ten and the mantissa multiplied by it fit in 128 bits. -/
def Rescales (m : Int64) (shift : Nat) : Prop :=
  shift ≤ 38 ∧ -2 ^ 127 ≤ m.toInt * 10 ^ shift ∧ m.toInt * 10 ^ shift < 2 ^ 127

/-- The mantissa of the smaller scale can be brought to the larger scale. -/
def Scalable (a b : Decimal) : Prop :=
  a.scale.toInt ≤ b.scale.toInt ∧ Rescales a.mantissa (b.scale.toInt - a.scale.toInt).toNat ∨
    b.scale.toInt ≤ a.scale.toInt ∧ Rescales b.mantissa (a.scale.toInt - b.scale.toInt).toNat

theorem isSome_rescale? : (rescale? m shift).isSome ↔ Rescales m shift := by
  have hproduct : m.toInt * Nat.pow 10 shift = m.toInt * 10 ^ shift := by
    rw [Nat.pow_eq, Int.natCast_pow]
    rfl
  rw [rescale?, Rescales, Option.isSome_ite, hproduct]
  rfl

theorem scalable_of_le (h : (a.scale.toInt - b.scale.toInt).natAbs ≤ commonScale) :
    a.Scalable b := by
  have hrescales : ∀ {m : Int64} {shift : Nat}, shift ≤ commonScale → Rescales m shift :=
    fun hshift => isSome_rescale?.1 (rescale?_eq_some hshift ▸ rfl)
  rcases le_total a.scale.toInt b.scale.toInt with hle | hle
  · exact .inl ⟨hle, hrescales (by omega)⟩
  · exact .inr ⟨hle, hrescales (by omega)⟩

theorem Scalable.compareScaled_eq (h : a.Scalable b) :
    compareScaled a.mantissa a.scale b.mantissa b.scale =
      compare (quantity a.mantissa a.scale) (quantity b.mantissa b.scale) := by
  rcases h with ⟨hle, h⟩ | ⟨hle, h⟩
  · obtain ⟨product, hproduct⟩ := Option.isSome_iff_exists.1 (isSome_rescale?.2 h)
    exact (compareScaled_of_rescale? hle hproduct).2
  · obtain ⟨product, hproduct⟩ := Option.isSome_iff_exists.1 (isSome_rescale?.2 h)
    exact (compareScaled_of_rescale? hle hproduct).1

end Decimal

namespace Value

variable {P : Value → Prop} {a b : Value} {d e : Decimal}

/-- The scales of any two numbers of a set are at most so far apart; an integer has the scale 0. -/
def ScalesWithin (distance : Nat) (P : Value → Prop) : Prop :=
  ∀ a b d e, P a → P b → decimal? a = some d → decimal? b = some e →
    (d.scale.toInt - e.scale.toInt).natAbs ≤ distance

/-- The values of a set stand in one line, in which all numbers stand as they do among the
rationals. -/
structure Line (P : Value → Prop) : Prop where
  ordered : OrderedOn P
  null_lt : ∀ a, P a → a ≠ null → compare null a = .lt
  lt_of_rank_lt : ∀ a b, P a → P b → rank a < rank b → compare a b = .lt
  compare_numbers : ∀ a b d e, P a → P b → decimal? a = some d → decimal? b = some e →
    compare a b = compare d.rational e.rational
  /-- Equal values are the same, or they are numbers that denote the same rational. -/
  eq_iff : ∀ a b, P a → P b → (compare a b = .eq ↔
    a = b ∨ ∃ d e, decimal? a = some d ∧ decimal? b = some e ∧ d.rational = e.rational)

theorem compare_eq_of_scalable (ha : a.decimal? = some d) (hb : b.decimal? = some e)
    (h : d.Scalable e) : compare a b = compare d.rational e.rational := by
  rw [compare_of_decimal? ha hb]
  exact h.compareScaled_eq

theorem rank_pos_of_ne_null (h : a ≠ null) : rank null < rank a := by
  cases a with
  | null => exact absurd rfl h
  | integer _ | numeric _ | string _ | date _ | timeSpan _ | boolean _ =>
    simp [rank, tag, type?, DataType.tag]

/-- Values of two ranks are compared by these, whatever the values are. -/
theorem compare_of_rank_ne (h : rank a ≠ rank b) : compare a b = compare (rank a) (rank b) := by
  cases a <;> cases b <;> first | rfl | exact absurd rfl h

theorem compare_of_rank_lt (h : rank a < rank b) : compare a b = .lt := by
  rw [compare_of_rank_ne (Nat.ne_of_lt h)]
  exact compare_lt_iff_lt.2 h

/-- Equal values are the same, if they are no numbers. -/
theorem eq_or_numbers_of_compare_eq (h : compare a b = .eq) :
    a = b ∨ ∃ d e, a.decimal? = some d ∧ b.decimal? = some e := by
  have hrank : rank a = rank b := by
    by_contra hne
    rw [compare_of_rank_ne hne] at h
    exact hne (compare_eq_iff_eq.1 h)
  have hticks : ∀ {x y : Int64}, compare x.toInt y.toInt = .eq → x = y :=
    fun heq => Int64.toInt_inj.1 (compare_eq_iff_eq.1 heq)
  cases a <;> cases b <;> try simp [rank, tag, type?, DataType.tag] at hrank
  case null.null => exact .inl rfl
  case integer.integer | integer.numeric | numeric.integer | numeric.numeric =>
    exact .inr ⟨_, _, rfl, rfl⟩
  case string.string => exact .inl (congrArg string (Std.LawfulEqOrd.eq_of_compare h))
  case date.date => exact .inl (congrArg date (hticks h))
  case timeSpan.timeSpan => exact .inl (congrArg timeSpan (hticks h))
  case boolean.boolean a b => cases a <;> cases b <;> first | exact .inl rfl | cases h

/-- Where all numbers can be scaled, the comparison is that of ranks, rationals and texts. -/
theorem line_of_scalable (h : ∀ a b d e, P a → P b → decimal? a = some d → decimal? b = some e →
    d.Scalable e) : Line P := by
  have hnumbers : ∀ a b d e, P a → P b → decimal? a = some d → decimal? b = some e →
      compare a b = compare d.rational e.rational := fun a b d e hPa hPb ha hb =>
    compare_eq_of_scalable ha hb (h a b d e hPa hPb ha hb)
  have hcompare : ∀ {a b}, P a → P b → compare a b =
      compareLex (compareOn rank) (compareLex (compareOn quantity) (compareOn content)) a b :=
    fun hPa hPb => compare_eq_of_numbers fun d e ha hb => (h _ _ d e hPa hPb ha hb).compareScaled_eq
  refine ⟨orderedOn_of_compareLex quantity hcompare,
    fun a _ hne => compare_of_rank_lt (rank_pos_of_ne_null hne),
    fun a b _ _ => compare_of_rank_lt, hnumbers, fun a b hPa hPb => ⟨fun heq => ?_, ?_⟩⟩
  · refine (eq_or_numbers_of_compare_eq heq).imp_right fun ⟨d, e, ha, hb⟩ => ⟨d, e, ha, hb, ?_⟩
    rw [hnumbers a b d e hPa hPb ha hb] at heq
    exact compare_eq_iff_eq.1 heq
  · rintro (rfl | ⟨d, e, ha, hb, heq⟩)
    · exact compare_self a
    · rw [hnumbers a b d e hPa hPb ha hb]
      exact compare_eq_iff_eq.2 heq

/-- Numbers that can be scaled are compared exactly, those with scales at most 19 apart always can,
and so all values with such scales stand in one line. -/
theorem compare_exact :
    (∀ a b d e, decimal? a = some d → decimal? b = some e → d.Scalable e →
      compare a b = compare d.rational e.rational) ∧
    (∀ d e : Decimal, (d.scale.toInt - e.scale.toInt).natAbs ≤ 19 → d.Scalable e) ∧
    ∀ P : Value → Prop, ScalesWithin 19 P → Line P :=
  ⟨fun _ _ _ _ => compare_eq_of_scalable, fun _ _ => Decimal.scalable_of_le,
    fun _ h => line_of_scalable fun a b d e hPa hPb ha hb =>
      Decimal.scalable_of_le (h a b d e hPa hPb ha hb)⟩

/-- The power of ten between the two scales is the greatest one that fits, and those of the set are
too great for a quotient. -/
theorem compare_exact_at_limits :
    compare (numeric ⟨-1, 0, -38⟩) (integer (-9223372036854775808)) =
        compare (Decimal.rational ⟨-1, 0, -38⟩) (Decimal.rational ⟨-9223372036854775808, 0, 0⟩) ∧
      Decimal.Scalable ⟨-9223372036854775808, 0, 400⟩ ⟨9223372036854775807, 0, 419⟩ ∧
      Line fun v => ∀ d, decimal? v = some d → 400 ≤ d.scale.toInt ∧ d.scale.toInt ≤ 419 := by
  obtain ⟨hcompare, hscalable, hline⟩ := compare_exact
  refine ⟨hcompare _ _ _ _ rfl rfl (.inl ⟨by decide, by decide, by decide, by decide⟩),
    hscalable _ _ (by decide), hline _ fun a b d e ha hb hd he => ?_⟩
  have hlow := ha d hd
  have hhigh := hb e he
  omega

end Value

end SnapshotStore
