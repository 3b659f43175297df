import SnapshotStore.Proofs.Snapshot.Cases
import SnapshotStore.Proofs.SortedMap.Laws

/-!
# Lists of fields

A list of fields may name a column more than once, with values and with nulls. The fields that are
left of it are the last values other than null, whatever nulls stand behind them; a map that takes
the fields one after the other has the last ones, nulls or not.
-/

namespace SnapshotStore

/-- What a list of fields has last for a column, be it null. -/
def lastListed? (fields : List Field) (column : Uid) : Option Value := fields.reverse.lookup column

/-- The last value other than null that a list of fields has for a column. -/
def lastGiven? (fields : List Field) (column : Uid) : Option Value :=
  lastListed? (fields.filter fun field => !field.2.isNull) column

variable {fields : List Field} {column : Uid} {value : Value}

/-! ### The last field of a column -/

theorem Value.isNull_eq_false : value.isNull = false ↔ value ≠ .null := by
  cases value with
  | null => exact ⟨nofun, fun h => absurd rfl h⟩
  | _ => exact ⟨fun _ => nofun, fun _ => rfl⟩

theorem lastListed?_cons (field : Field) (fields : List Field) (column : Uid) :
    lastListed? (field :: fields) column =
      (lastListed? fields column).or (if column = field.1 then some field.2 else none) := by
  rw [lastListed?, List.reverse_cons, List.lookup_append]
  refine congrArg (Option.or _) ?_
  rw [List.lookup_cons, List.lookup_nil]
  by_cases heq : column = field.1
  · rw [if_pos heq, heq, beq_self_eq_true]
  · rw [if_neg heq, beq_false_of_ne heq]

theorem lastListed?_eq_none :
    lastListed? fields column = none ↔ ∀ value, (column, value) ∉ fields := by
  rw [lastListed?, List.lookup_eq_none_iff]
  constructor
  · intro h value hmem
    exact bne_iff_ne.1 (h _ (List.mem_reverse.2 hmem)) rfl
  · intro h field hfield
    refine bne_iff_ne.2 fun heq => h field.2 ?_
    rw [heq]
    exact List.mem_reverse.1 hfield

theorem mem_of_lastListed? (h : lastListed? fields column = some value) :
    (column, value) ∈ fields := by
  obtain ⟨front, behind, hfields, _⟩ := List.lookup_eq_some_iff.1 h
  rw [← List.mem_reverse, hfields]
  exact List.mem_append_right _ List.mem_cons_self

theorem of_lastGiven? (h : lastGiven? fields column = some value) :
    value ≠ .null ∧ (column, value) ∈ fields := by
  obtain ⟨hmem, hvalue⟩ := List.mem_filter.1 (mem_of_lastListed? h)
  rw [Bool.not_eq_true', Value.isNull_eq_false] at hvalue
  exact ⟨hvalue, hmem⟩

theorem lastGiven?_eq_none :
    lastGiven? fields column = none ↔ ∀ value, value ≠ .null → (column, value) ∉ fields := by
  rw [lastGiven?, lastListed?_eq_none]
  refine forall_congr' fun value => ?_
  rw [List.mem_filter, Bool.not_eq_true', Value.isNull_eq_false]
  exact ⟨fun h hvalue hmem => h ⟨hmem, hvalue⟩, fun h hmem => h hmem.2 hmem.1⟩

/-- A value that stands last is the last one that is given. -/
theorem lastGiven?_of_lastListed? (h : lastListed? fields column = some value)
    (hvalue : value ≠ .null) : lastGiven? fields column = some value := by
  induction fields with
  | nil => cases h
  | cons field fields ih =>
    rw [lastListed?_cons] at h
    rw [lastGiven?, List.filter_cons]
    cases hrest : lastListed? fields column with
    | some last =>
      rw [hrest, Option.some_or] at h
      have hgiven : lastGiven? fields column = some value := ih (hrest.trans h)
      split
      · rw [lastListed?_cons, ← lastGiven?, hgiven, Option.some_or]
      · exact hgiven
    | none =>
      rw [hrest, Option.none_or, Option.ite_none_right_eq_some] at h
      obtain ⟨hcolumn, hfield⟩ := h
      cases hfield
      have hkept : (!field.2.isNull) = true :=
        Bool.not_eq_true' _ ▸ Value.isNull_eq_false.2 hvalue
      have hnone : lastGiven? fields column = none :=
        lastGiven?_eq_none.2 fun other _ => lastListed?_eq_none.1 hrest other
      rw [if_pos hkept, lastListed?_cons, ← lastGiven?, hnone, Option.none_or, if_pos hcolumn]

/-- The two differ for a column that is listed with a value and with null behind all its values. -/
theorem lastGiven?_eq_lastListed?_iff :
    (lastGiven? fields column).getD .null = (lastListed? fields column).getD .null ↔
      ¬(lastListed? fields column = some .null ∧
        ∃ value, value ≠ .null ∧ (column, value) ∈ fields) := by
  cases hlisted : lastListed? fields column with
  | none =>
    have hgiven : lastGiven? fields column = none :=
      lastGiven?_eq_none.2 fun value _ => lastListed?_eq_none.1 hlisted value
    rw [hgiven]
    exact ⟨fun _ h => (nomatch h.1), fun _ => rfl⟩
  | some last =>
    by_cases hlast : last = .null
    · subst hlast
      cases hgiven : lastGiven? fields column with
      | none =>
        refine ⟨fun _ h => ?_, fun _ => rfl⟩
        obtain ⟨_, value, hvalue, hmem⟩ := h
        exact lastGiven?_eq_none.1 hgiven value hvalue hmem
      | some value =>
        obtain ⟨hvalue, hmem⟩ := of_lastGiven? hgiven
        exact ⟨fun heq => absurd heq hvalue, fun h => absurd ⟨rfl, value, hvalue, hmem⟩ h⟩
    · rw [lastGiven?_of_lastListed? hlisted hlast]
      exact ⟨fun _ h => hlast (Option.some.inj h.1), fun _ => rfl⟩

/-- New identifiers that keep a column apart from the others of a list. -/
theorem lastListed?_map {f : Uid → Uid} (h : ∀ field ∈ fields, f column = f field.1 →
    column = field.1) :
    lastListed? (fields.map fun (column, value) => (f column, value)) (f column) =
      lastListed? fields column := by
  induction fields with
  | nil => rfl
  | cons field fields ih =>
    obtain ⟨hfield, hfields⟩ := List.forall_mem_cons.1 h
    rw [List.map_cons, lastListed?_cons, lastListed?_cons, ih hfields]
    refine congrArg (Option.or _) (ite_congr (propext ⟨hfield, congrArg f⟩) (fun _ => rfl) ?_)
    exact fun _ => rfl

theorem lastGiven?_map {f : Uid → Uid} (h : ∀ field ∈ fields, f column = f field.1 →
    column = field.1) :
    lastGiven? (fields.map fun (column, value) => (f column, value)) (f column) =
      lastGiven? fields column := by
  rw [lastGiven?, List.filter_map]
  exact lastListed?_map fun field hfield => h field (List.mem_filter.1 hfield).1

/-! ### Fields in a map -/

theorem get?_foldl_insert {start : SortedMap Uid Value} (h : start.Lawful) (fields : List Field) :
    (fields.foldl (fun held (column, value) => held.insert column value) start).Lawful ∧
      ∀ column,
        (fields.foldl (fun held (column, value) => held.insert column value) start).get? column =
          (lastListed? fields column).or (start.get? column) := by
  induction fields generalizing start with
  | nil => exact ⟨h, fun _ => rfl⟩
  | cons field fields ih =>
    obtain ⟨hlawful, hget⟩ := ih (h.insert field.1 field.2)
    refine ⟨hlawful, fun column => ?_⟩
    rw [List.foldl_cons, hget, lastListed?_cons, Option.or_assoc, h.get?_insert]
    refine congrArg (Option.or _) ?_
    split <;> rfl

namespace Snapshot

theorem keptFields_eq (fields : List Field) :
    keptFields fields = (fields.filter fun field => !field.2.isNull).foldl
      (fun held (column, value) => held.insert column value) SortedMap.empty := by
  rw [List.foldl_filter, keptFields]
  refine congrArg (fun step => fields.foldl step SortedMap.empty) ?_
  funext held field
  obtain ⟨column, value⟩ := field
  cases hnull : value.isNull <;> simp [hnull]

theorem lawful_keptFields (fields : List Field) : (keptFields fields).Lawful := by
  rw [keptFields_eq]
  exact (get?_foldl_insert SortedMap.valid_empty _).1

theorem get?_keptFields (fields : List Field) (column : Uid) :
    (keptFields fields).get? column = lastGiven? fields column := by
  rw [keptFields_eq, (get?_foldl_insert SortedMap.valid_empty _).2, lastGiven?]
  exact Option.or_none

/-- The fields of a map, each listed once, read as they stand there. -/
theorem get?_keptFields_toList {held : SortedMap Uid Value} (h : held.Lawful) (column : Uid) :
    ((keptFields held.toList).get? column).getD .null = (held.get? column).getD .null := by
  rw [get?_keptFields]
  cases hgiven : lastGiven? held.toList column with
  | some value => rw [h.mem_toList_iff.1 (of_lastGiven? hgiven).2]
  | none =>
    cases hheld : held.get? column with
    | none => rfl
    | some value =>
      by_cases hvalue : value = .null
      · rw [hvalue]
        rfl
      · exact absurd (h.mem_toList_iff.2 hheld) (lastGiven?_eq_none.1 hgiven value hvalue)

end Snapshot

end SnapshotStore
