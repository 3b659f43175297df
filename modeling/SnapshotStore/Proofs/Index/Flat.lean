import SnapshotStore.Index.Basic
import SnapshotStore.Proofs.Index.Key

/-!
# Flat indexes

What an index is without its nesting: a list of keys and rows in which no pair is there twice. Keys
count as one if their components stand at one place in the order. The rules of the columns are those
of a composite index, but read off the whole key: nulls from left to right, then duplicates.
-/

namespace SnapshotStore

instance {K : Type} [Ord K] : (a b : List K) → Decidable (SameKey a b)
  | [], [] => .isTrue trivial
  | [], _ :: _ | _ :: _, [] => .isFalse id
  | a :: as, b :: bs =>
    have : Decidable (SameKey as bs) := instDecidableSameKey as bs
    inferInstanceAs (Decidable (compare a b = .eq ∧ SameKey as bs))

/-- The first null that its column does not allow, counted from `place`, and the column's rule. -/
def barred? {K : Type} [HasNull K] (place : Nat) : List KeyColumn → List K → Option (Nat × KeyRule)
  | column :: columns, head :: rest =>
    if HasNull.isNull head ∧ column.onNull ≠ .allow then some (place, column.onNull)
    else barred? (place + 1) columns rest
  | [], _ | _ :: _, [] => none

/-- The last column decides about keys that are there already. -/
def duplicateRule (columns : List KeyColumn) : KeyRule :=
  (columns.getLast?.map KeyColumn.onDuplicate).getD .allow

/-- A change that is asked of an index. -/
inductive IndexChange (K : Type) where
  | insert (key : List K) (row : RowId)
  | erase (key : List K) (row : RowId)
  | move (old new : List K) (row : RowId)

abbrev FlatIndex (K : Type) := List (List K × RowId)

namespace FlatIndex

variable {K : Type} [Ord K]

def Has (flat : FlatIndex K) (key : List K) (row : RowId) : Prop :=
  ∃ pair ∈ flat, SameKey pair.1 key ∧ pair.2 = row

def HasKey (flat : FlatIndex K) (key : List K) : Prop := ∃ pair ∈ flat, SameKey pair.1 key

instance (flat : FlatIndex K) (key : List K) (row : RowId) : Decidable (flat.Has key row) :=
  inferInstanceAs (Decidable (∃ pair ∈ flat, _))

instance (flat : FlatIndex K) (key : List K) : Decidable (flat.HasKey key) :=
  inferInstanceAs (Decidable (∃ pair ∈ flat, _))

/-- No pair is there twice. -/
def Distinct (flat : FlatIndex K) : Prop :=
  flat.Pairwise fun a b => ¬ (SameKey a.1 b.1 ∧ a.2 = b.2)

def add (flat : FlatIndex K) (key : List K) (row : RowId) : FlatIndex K :=
  if flat.Has key row then flat else flat ++ [(key, row)]

def without (flat : FlatIndex K) (key : List K) (row : RowId) : FlatIndex K :=
  flat.filter fun pair => ¬ (SameKey pair.1 key ∧ pair.2 = row)

def insert [HasNull K] (columns : List KeyColumn) (flat : FlatIndex K) (key : List K)
    (row : RowId) : Except PolicyViolation (FlatIndex K) :=
  if key.length = columns.length then
    match barred? 0 columns key with
    | some (place, .disallow) => .error (.nullKey place)
    | some _ => .ok flat
    | none =>
      if flat.HasKey key then
        match duplicateRule columns with
        | .allow => .ok (flat.add key row)
        | .disallow => .error .duplicateKey
        | .ignore => .ok flat
      else .ok (flat.add key row)
  else .error (.keyArity columns.length key.length)

def erase (columns : List KeyColumn) (flat : FlatIndex K) (key : List K) (row : RowId) :
    Except PolicyViolation (FlatIndex K) :=
  if key.length = columns.length then .ok (flat.without key row)
  else .error (.keyArity columns.length key.length)

def change [HasNull K] (columns : List KeyColumn) (flat : FlatIndex K) :
    IndexChange K → Except PolicyViolation (FlatIndex K)
  | .insert key row => flat.insert columns key row
  | .erase key row => flat.erase columns key row
  | .move old new row => do (← flat.erase columns old row).insert columns new row

/-- What some changes come to, one after the other; those that are refused change nothing. -/
def after [HasNull K] (columns : List KeyColumn) (flat : FlatIndex K)
    (changes : List (IndexChange K)) : FlatIndex K :=
  changes.foldl (fun flat change => (flat.change columns change).toOption.getD flat) flat

/-! ### Sets of pairs -/

variable [Std.TransOrd K] {flat : FlatIndex K} {key other : List K} {row r : RowId}

omit [Ord K] [Std.TransOrd K] in
theorem keyOn_true : KeyOn (fun _ => True) key := fun _ _ => trivial

omit [Std.TransOrd K] in
theorem hasKey_iff : flat.HasKey key ↔ ∃ row, flat.Has key row :=
  ⟨fun ⟨pair, hpair, hsame⟩ => ⟨pair.2, pair, hpair, hsame, rfl⟩,
    fun ⟨_, pair, hpair, hsame, _⟩ => ⟨pair, hpair, hsame⟩⟩

theorem sameKey_comm : SameKey key other ↔ SameKey other key :=
  ⟨.symm (.of_transOrd _) keyOn_true keyOn_true, .symm (.of_transOrd _) keyOn_true keyOn_true⟩

theorem sameKey_congr {a : List K} (h : SameKey key other) : SameKey a key ↔ SameKey a other :=
  ⟨fun ha => ha.trans (.of_transOrd _) keyOn_true keyOn_true keyOn_true h,
    fun ha => ha.trans (.of_transOrd _) keyOn_true keyOn_true keyOn_true (sameKey_comm.1 h)⟩

omit [Std.TransOrd K] in
theorem add_of_not_has (h : ¬ flat.Has key row) : flat.add key row = flat ++ [(key, row)] :=
  if_neg h

theorem has_add :
    (flat.add key row).Has other r ↔ flat.Has other r ∨ SameKey other key ∧ r = row := by
  rw [add]
  split
  · next hhas =>
    refine ⟨.inl, fun h => h.elim id fun ⟨hsame, heq⟩ => ?_⟩
    obtain ⟨pair, hpair, hkey, hrow⟩ := hhas
    exact ⟨pair, hpair, (sameKey_congr hsame).2 hkey, hrow.trans heq.symm⟩
  · simp [Has, or_and_right, exists_or, sameKey_comm, eq_comm]

omit [Std.TransOrd K] in
theorem distinct_add (h : flat.Distinct) : (flat.add key row).Distinct := by
  rw [add]
  split
  · exact h
  · next hhas =>
    refine List.pairwise_append.2 ⟨h, List.pairwise_singleton _ _, fun a ha b hb hsame => ?_⟩
    rw [List.mem_singleton.1 hb] at hsame
    exact hhas ⟨a, ha, hsame⟩

theorem has_without :
    (flat.without key row).Has other r ↔ flat.Has other r ∧ ¬ (SameKey other key ∧ r = row) := by
  have hpair : ∀ pair : List K × RowId, SameKey pair.1 other ∧ pair.2 = r →
      (SameKey pair.1 key ∧ pair.2 = row ↔ SameKey other key ∧ r = row) := by
    rintro pair ⟨hsame, rfl⟩
    rw [sameKey_comm, sameKey_congr hsame, sameKey_comm]
  constructor
  · rintro ⟨pair, hmem, hsame⟩
    obtain ⟨hmem, hkept⟩ := List.mem_filter.1 hmem
    exact ⟨⟨pair, hmem, hsame⟩, fun h => of_decide_eq_true hkept ((hpair pair hsame).2 h)⟩
  · rintro ⟨⟨pair, hmem, hsame⟩, hother⟩
    exact ⟨pair, List.mem_filter.2 ⟨hmem, decide_eq_true fun h => hother ((hpair pair hsame).1 h)⟩,
      hsame⟩

omit [Std.TransOrd K] in
theorem without_eq_self (h : ¬ flat.Has key row) : flat.without key row = flat :=
  List.filter_eq_self.2 fun pair hpair => decide_eq_true fun hsame => h ⟨pair, hpair, hsame⟩

/-- Taking out a pair that is there leaves one pair less. -/
theorem length_without (hdistinct : flat.Distinct) (h : flat.Has key row) :
    (flat.without key row).length + 1 = flat.length := by
  induction flat with
  | nil =>
    obtain ⟨_, hmem, _⟩ := h
    cases hmem
  | cons first flat ih =>
    obtain ⟨hfirst, hrest⟩ := List.pairwise_cons.1 hdistinct
    rw [without, List.filter_cons, ← without]
    by_cases hsame : SameKey first.1 key ∧ first.2 = row
    · have habsent : ¬ FlatIndex.Has flat key row := by
        rintro ⟨pair, hpair, hkey, hrow⟩
        refine hfirst pair hpair ⟨?_, hsame.2.trans hrow.symm⟩
        exact (sameKey_congr (sameKey_comm.1 hkey)).1 hsame.1
      rw [without_eq_self habsent]
      simp [hsame]
    · obtain ⟨pair, hpair, hheld⟩ := h
      rcases List.mem_cons.1 hpair with rfl | hpair
      · exact absurd hheld hsame
      · simp only [hsame, not_false_eq_true, decide_true, if_true, List.length_cons]
        rw [ih hrest ⟨pair, hpair, hheld⟩]

end FlatIndex

end SnapshotStore
