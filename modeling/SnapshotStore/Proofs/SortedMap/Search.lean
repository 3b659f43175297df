import SnapshotStore.Proofs.Order
import SnapshotStore.SortedMap.Search

/-!
# Bisection finds the place

Among slots in ascending order of their keys, halving finds the number of keys below the one
searched for, and the place of that key if there is one.
-/

namespace SnapshotStore.SortedMap

/-- If places are accepted up to some place and refused from there on, the last accepted one is
found. -/
theorem bisect_spec (reaches : Nat → Bool) (hmono : ∀ i j, i ≤ j → reaches j → reaches i)
    (base size : Nat) (hsize : 1 ≤ size) :
    (bisect reaches base size = base ∨ reaches (bisect reaches base size)) ∧
      ∀ place, bisect reaches base size < place → place < base + size → reaches place = false := by
  fun_induction bisect reaches base size with
  | case1 base size h half ih =>
    have hhalf : half < size ∧ size ≤ 2 * half + 1 := by omega
    by_cases hreach : reaches (base + half)
    · simp only [hreach, ↓reduceIte, ↓reduceDIte] at ih ⊢
      obtain ⟨hplace, hrest⟩ := ih (by omega)
      refine ⟨.inr ?_, fun place hlow hhigh => hrest place hlow (by omega)⟩
      rcases hplace with hplace | hplace
      · rw [hplace]
        exact hreach
      · exact hplace
    · simp only [hreach, Bool.false_eq_true, ↓reduceIte, ↓reduceDIte] at ih ⊢
      obtain ⟨hplace, hrest⟩ := ih (by omega)
      refine ⟨hplace, fun place hlow hhigh => ?_⟩
      by_cases hinside : place < base + (size - half)
      · exact hrest place hlow hinside
      · -- what lies past the half that was kept is not before the place refused
        rw [Bool.eq_false_iff]
        exact fun h => hreach (hmono (base + half) place (by omega) h)
  | case2 base size h =>
    exact ⟨.inl rfl, fun place hlow hhigh => by omega⟩

/-- The places accepted are those before the one found, and that one itself unless none is. -/
theorem lt_bisect_iff (reaches : Nat → Bool) (hmono : ∀ i j, i ≤ j → reaches j → reaches i)
    (size : Nat) (hend : ∀ place, size ≤ place → reaches place = false) (place : Nat) :
    (place < if reaches (bisect reaches 0 size) then bisect reaches 0 size + 1
        else bisect reaches 0 size) ↔
      reaches place := by
  rcases Nat.eq_zero_or_pos size with rfl | hsize
  · have hnone : ∀ place, reaches place = false := fun place => hend place (Nat.zero_le _)
    have hzero : bisect reaches 0 0 = 0 := by
      rw [bisect]
      rfl
    simp [hnone, hzero]
  · obtain ⟨hfound, hrest⟩ := bisect_spec reaches hmono 0 size hsize
    have hlater : ∀ later, bisect reaches 0 size < later → reaches later = false := by
      intro later hlow
      by_cases hlength : later < size
      · exact hrest later hlow (by omega)
      · exact hend later (by omega)
    by_cases hreach : reaches (bisect reaches 0 size)
    · rw [if_pos hreach]
      constructor
      · exact fun h => hmono _ _ (by omega) hreach
      · intro h
        refine Nat.lt_succ_of_le (Nat.le_of_not_lt fun hlow => ?_)
        rw [hlater place hlow] at h
        exact Bool.false_ne_true h
    · have hzero : bisect reaches 0 size = 0 := hfound.resolve_right hreach
      rw [if_neg hreach, hzero]
      constructor
      · exact fun h => absurd h (Nat.not_lt_zero _)
      · intro h
        rw [hzero] at hreach
        exact absurd (hmono 0 place (Nat.zero_le _) h) hreach

/-- If a place is accepted, the one found is, and none behind it. -/
theorem reaches_bisect (reaches : Nat → Bool) (hmono : ∀ i j, i ≤ j → reaches j → reaches i)
    (size : Nat) (hend : ∀ place, size ≤ place → reaches place = false) {place : Nat}
    (h : reaches place) : reaches (bisect reaches 0 size) ∧ place ≤ bisect reaches 0 size := by
  have hplace : place < size := by
    refine Nat.lt_of_not_le fun hle => ?_
    rw [hend place hle] at h
    exact Bool.false_ne_true h
  obtain ⟨hfound, hrest⟩ := bisect_spec reaches hmono 0 size (by omega)
  have hle : place ≤ bisect reaches 0 size := by
    refine Nat.le_of_not_lt fun hlt => ?_
    rw [hrest place hlt (by omega)] at h
    exact Bool.false_ne_true h
  refine ⟨hfound.elim (fun hzero => ?_) id, hle⟩
  rw [hzero] at hle ⊢
  rwa [← Nat.le_zero.1 hle]

/-! ### Slots -/

variable {K A : Type}

private theorem any_getElem? (accepts : K → Bool) {slots : List (K × A)} {place : Nat} :
    (slots[place]?.any fun slot => accepts slot.1) ↔
      ∃ slot, slots[place]? = some slot ∧ accepts slot.1 := by
  cases slots[place]? <;> simp

private theorem any_getElem?_of_length_le (accepts : K → Bool) {slots : List (K × A)} (place : Nat)
    (h : slots.length ≤ place) : (slots[place]?.any fun slot => accepts slot.1) = false := by
  rw [List.getElem?_eq_none h]
  rfl

variable [Ord K]

/-- No key is above a later one. -/
def Ascending (slots : List (K × A)) : Prop := slots.Pairwise fun a b => (compare a.1 b.1).isLE

variable {P : K → Prop} {key : K} {slots : List (K × A)}

/-- What is accepted of a slot is accepted of the slots before it, if it passes to lower keys. -/
private theorem any_mono (hP : OrderedOn P) (hkeys : ∀ slot ∈ slots, P slot.1)
    (hsorted : Ascending slots) (accepts : K → Bool)
    (hdown : ∀ a b, P a → P b → (compare a b).isLE → accepts b → accepts a) (i j : Nat)
    (hij : i ≤ j) (hj : slots[j]?.any fun slot => accepts slot.1) :
    slots[i]?.any fun slot => accepts slot.1 := by
  obtain ⟨later, hlater, haccepts⟩ := (any_getElem? accepts).1 hj
  obtain ⟨hjlength, hjslot⟩ := List.getElem?_eq_some_iff.1 hlater
  refine (any_getElem? accepts).2 ⟨slots[i], List.getElem?_eq_getElem (by omega), ?_⟩
  have hmem : slots[i] ∈ slots := List.getElem_mem (by omega)
  have hmemLater : later ∈ slots := List.mem_of_getElem? hlater
  refine hdown _ later.1 (hkeys _ hmem) (hkeys _ hmemLater) ?_ haccepts
  rcases Nat.eq_or_lt_of_le hij with rfl | hlt
  · rw [hjslot, hP.refl (hkeys _ hmemLater)]
    rfl
  · rw [← hjslot]
    exact List.pairwise_iff_getElem.1 hsorted i j (by omega) hjlength hlt

/-- The slots with a lower key are those before the lower bound. -/
theorem lt_lowerBound_iff (hP : OrderedOn P) (hkey : P key) (hkeys : ∀ slot ∈ slots, P slot.1)
    (hsorted : Ascending slots) (place : Nat) :
    place < lowerBound key slots ↔
      ∃ slot, slots[place]? = some slot ∧ compare slot.1 key = .lt := by
  have hdown :
      ∀ a b, P a → P b → (compare a b).isLE → (compare b key).isLT → (compare a key).isLT := by
    intro a b ha hb hab hlt
    rw [Ordering.isLT_iff_eq_lt] at hlt ⊢
    exact hP.lt_of_isLE_of_lt ha hb hkey hab hlt
  have hmono := any_mono hP hkeys hsorted (fun k => (compare k key).isLT) hdown
  have h := lt_bisect_iff _ hmono slots.length
    (any_getElem?_of_length_le (fun k => (compare k key).isLT)) place
  exact h.trans (by simp only [any_getElem? fun k => (compare k key).isLT, Ordering.isLT_iff_eq_lt])

theorem lowerBound_le_length (hP : OrderedOn P) (hkey : P key) (hkeys : ∀ slot ∈ slots, P slot.1)
    (hsorted : Ascending slots) : lowerBound key slots ≤ slots.length := by
  refine Nat.le_of_not_lt fun h => ?_
  obtain ⟨slot, hslot, _⟩ := (lt_lowerBound_iff hP hkey hkeys hsorted slots.length).1 h
  rw [List.getElem?_eq_none (Nat.le_refl _)] at hslot
  cases hslot

theorem lt_of_mem_take_lowerBound (hP : OrderedOn P) (hkey : P key)
    (hkeys : ∀ slot ∈ slots, P slot.1) (hsorted : Ascending slots) {slot : K × A}
    (hslot : slot ∈ slots.take (lowerBound key slots)) : compare slot.1 key = .lt := by
  obtain ⟨place, hplace, rfl⟩ := List.mem_take_iff_getElem.1 hslot
  have hlow : place < lowerBound key slots := by omega
  obtain ⟨found, hfound, hlt⟩ := (lt_lowerBound_iff hP hkey hkeys hsorted place).1 hlow
  rw [List.getElem?_eq_getElem (by omega)] at hfound
  rw [Option.some.inj hfound]
  exact hlt

theorem not_lt_of_mem_drop_lowerBound (hP : OrderedOn P) (hkey : P key)
    (hkeys : ∀ slot ∈ slots, P slot.1) (hsorted : Ascending slots) {slot : K × A}
    (hslot : slot ∈ slots.drop (lowerBound key slots)) : compare slot.1 key ≠ .lt := by
  obtain ⟨place, hplace, rfl⟩ := List.mem_drop_iff_getElem.1 hslot
  intro hlt
  have hlow := (lt_lowerBound_iff hP hkey hkeys hsorted (place + lowerBound key slots)).2
    ⟨_, List.getElem?_eq_getElem (by omega), by simpa only [Nat.add_comm] using hlt⟩
  omega

/-- A place that is found has the key. -/
theorem compare_of_find?_eq_some {place : Nat} (h : find? key slots = some place) :
    ∃ slot, slots[place]? = some slot ∧ compare slot.1 key = .eq := by
  unfold find? at h
  dsimp only at h
  split at h
  · next heq =>
    cases h
    obtain ⟨slot, hslot, hslotkey⟩ := (any_getElem? (fun k => (compare k key).isEq)).1 heq
    exact ⟨slot, hslot, Ordering.isEq_iff_eq_eq.1 hslotkey⟩
  · cases h

/-- Each key is below the later ones. -/
def StrictlyAscending (slots : List (K × A)) : Prop :=
  slots.Pairwise fun a b => compare a.1 b.1 = .lt

theorem StrictlyAscending.ascending (h : StrictlyAscending slots) : Ascending slots :=
  h.imp fun hab => by rw [hab]; rfl

/-- If no place is found, no slot has the key. -/
theorem compare_ne_of_find?_eq_none (hP : OrderedOn P) (hkey : P key)
    (hkeys : ∀ slot ∈ slots, P slot.1) (hsorted : StrictlyAscending slots)
    (h : find? key slots = none) {slot : K × A} (hslot : slot ∈ slots) :
    compare slot.1 key ≠ .eq := by
  intro heq
  obtain ⟨place, hplace, rfl⟩ := List.getElem_of_mem hslot
  have hdown :
      ∀ a b, P a → P b → (compare a b).isLE → (compare b key).isLE → (compare a key).isLE :=
    fun a b ha hb => hP.isLE_trans ha hb hkey
  have hmono := any_mono hP hkeys hsorted.ascending (fun k => (compare k key).isLE) hdown
  have hreach : slots[place]?.any fun slot => (compare slot.1 key).isLE :=
    (any_getElem? (fun k => (compare k key).isLE)).2 ⟨_, List.getElem?_eq_getElem hplace,
      by rw [heq]; rfl⟩
  obtain ⟨hfound, hle⟩ := reaches_bisect _ hmono slots.length
    (any_getElem?_of_length_le (fun k => (compare k key).isLE)) hreach
  unfold find? at h
  dsimp only at h
  generalize bisect _ 0 slots.length = found at h hfound hle
  obtain ⟨last, hlast, hisLE⟩ := (any_getElem? (fun k => (compare k key).isLE)).1 hfound
  obtain ⟨hlength, hlastslot⟩ := List.getElem?_eq_some_iff.1 hlast
  have hmem : last ∈ slots := List.mem_of_getElem? hlast
  -- the place found cannot lie behind the key, since a key behind it is above it
  have hsame : place = found := by
    refine Nat.le_antisymm hle (Nat.le_of_not_lt fun hlt => ?_)
    have habove := List.pairwise_iff_getElem.1 hsorted place found hplace hlength hlt
    rw [hP.congr_left (hkeys _ hslot) hkey (by rw [hlastslot]; exact hkeys _ hmem) heq,
      hlastslot] at habove
    rw [(hP.gt_iff_lt (hkeys _ hmem) hkey).2 habove] at hisLE
    exact Bool.false_ne_true hisLE
  subst hsame
  rw [List.getElem?_eq_getElem hplace, Option.any_some, heq] at h
  exact Option.some_ne_none _ h

end SnapshotStore.SortedMap
