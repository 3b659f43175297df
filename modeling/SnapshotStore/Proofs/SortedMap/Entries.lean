import Mathlib.Algebra.GroupWithZero.Nat
import SnapshotStore.Proofs.SortedMap.Search

/-!
# Ascending association lists

What a sorted map amounts to: a list of entries in strictly ascending order of their keys. Looking
up, inserting and removing are defined on such lists here, and the operations of a tree are these
operations on the list of its entries.
-/

namespace SnapshotStore.Entries

open SortedMap (StrictlyAscending)

variable {K V : Type} [Ord K]

/-- The entry of a key, with the key in the form in which it is stored. -/
def pair? (key : K) (entries : List (K × V)) : Option (K × V) :=
  entries.find? fun entry => (compare entry.1 key).isEq

/-- The value of the entry with a key. -/
def get? (key : K) (entries : List (K × V)) : Option V :=
  (entries.find? fun entry => (compare entry.1 key).isEq).map Prod.snd

/-- A present key stays as it is and takes the new value. -/
def insert (key : K) (value : V) : List (K × V) → List (K × V)
  | [] => [(key, value)]
  | (other, held) :: entries =>
    match compare other key with
    | .lt => (other, held) :: insert key value entries
    | .eq => (other, value) :: entries
    | .gt => (key, value) :: (other, held) :: entries

def erase (key : K) (entries : List (K × V)) : List (K × V) :=
  entries.filter fun entry => !(compare entry.1 key).isEq

/-- The value of a present key changes, and its stored form stays. -/
def replace (key : K) (value : V) (entries : List (K × V)) : List (K × V) :=
  entries.map fun entry => if compare entry.1 key = .eq then (entry.1, value) else entry

/-- A later entry of a key replaces the value of an earlier one. -/
def ofList (entries : List (K × V)) : List (K × V) :=
  entries.foldl (fun held (key, value) => insert key value held) []

variable {P : K → Prop} {key other : K} {value held : V} {entries left right : List (K × V)}

/-! ### Parts of a list -/

theorem get?_eq_map_pair? : get? key entries = (pair? key entries).map Prod.snd := rfl

theorem pair?_eq_none_iff :
    pair? key entries = none ↔ ∀ entry ∈ entries, compare entry.1 key ≠ .eq := by
  simp [pair?, Ordering.isEq_iff_eq_eq]

theorem get?_eq_none_iff :
    get? key entries = none ↔ ∀ entry ∈ entries, compare entry.1 key ≠ .eq := by
  rw [get?_eq_map_pair?, Option.map_eq_none_iff, pair?_eq_none_iff]

theorem get?_append_of_ne_left (h : ∀ entry ∈ left, compare entry.1 key ≠ .eq) :
    get? key (left ++ right) = get? key right := by
  have hnone : (left.find? fun entry => (compare entry.1 key).isEq) = none :=
    pair?_eq_none_iff.2 h
  rw [get?, List.find?_append, hnone, Option.none_or, get?]

theorem get?_append_of_ne_right (h : ∀ entry ∈ right, compare entry.1 key ≠ .eq) :
    get? key (left ++ right) = get? key left := by
  have hnone : (right.find? fun entry => (compare entry.1 key).isEq) = none :=
    pair?_eq_none_iff.2 h
  rw [get?, List.find?_append, hnone, Option.or_none, get?]

theorem insert_append_of_lt (h : ∀ entry ∈ left, compare entry.1 key = .lt) :
    insert key value (left ++ right) = left ++ insert key value right := by
  induction left with
  | nil => rfl
  | cons entry left ih =>
    rw [List.cons_append, insert, h entry List.mem_cons_self]
    exact congrArg (entry :: ·) (ih fun e he => h e (List.mem_cons_of_mem entry he))

theorem insert_append_of_gt (h : ∀ entry ∈ right, compare entry.1 key = .gt) :
    insert key value (left ++ right) = insert key value left ++ right := by
  induction left with
  | nil =>
    cases right with
    | nil => rfl
    | cons entry right =>
      rw [List.nil_append, insert, insert, h entry List.mem_cons_self]
      rfl
  | cons entry left ih =>
    rw [List.cons_append, insert, insert]
    split
    · rw [ih, List.cons_append]
    · rfl
    · rfl

theorem erase_append : erase key (left ++ right) = erase key left ++ erase key right :=
  List.filter_append ..

theorem erase_eq_self (h : ∀ entry ∈ entries, compare entry.1 key ≠ .eq) :
    erase key entries = entries := by
  rw [erase, List.filter_eq_self]
  intro entry hentry
  rw [Bool.not_eq_true', ← Bool.not_eq_true, Ordering.isEq_iff_eq_eq]
  exact h entry hentry

theorem erase_sublist : (erase key entries).Sublist entries := List.filter_sublist

/-! ### Order -/

theorem mem_insert {entry : K × V} (h : entry ∈ insert key value entries) :
    entry = (key, value) ∨ entry ∈ entries ∨
      ∃ held, (entry.1, held) ∈ entries ∧ entry.2 = value := by
  induction entries with
  | nil => exact .inl (List.mem_singleton.1 h)
  | cons first entries ih =>
    rw [insert] at h
    split at h
    · rcases List.mem_cons.1 h with rfl | h
      · exact .inr (.inl List.mem_cons_self)
      · rcases ih h with h | h | ⟨held, h, hvalue⟩
        · exact .inl h
        · exact .inr (.inl (List.mem_cons_of_mem _ h))
        · exact .inr (.inr ⟨held, List.mem_cons_of_mem _ h, hvalue⟩)
    · rcases List.mem_cons.1 h with rfl | h
      · exact .inr (.inr ⟨_, List.mem_cons_self, rfl⟩)
      · exact .inr (.inl (List.mem_cons_of_mem _ h))
    · rcases List.mem_cons.1 h with rfl | h
      · exact .inl rfl
      · exact .inr (.inl h)

theorem key_mem_insert {entry : K × V} (h : entry ∈ insert key value entries) :
    entry.1 = key ∨ ∃ other ∈ entries, other.1 = entry.1 := by
  rcases mem_insert h with rfl | h | ⟨held, h, _⟩
  · exact .inl rfl
  · exact .inr ⟨entry, h, rfl⟩
  · exact .inr ⟨_, h, rfl⟩

theorem length_insert (h : ∀ entry ∈ entries, compare entry.1 key ≠ .eq) :
    (insert key value entries).length = entries.length + 1 := by
  induction entries with
  | nil => rfl
  | cons first entries ih =>
    obtain ⟨hfirst, hrest⟩ := List.forall_mem_cons.1 h
    rw [insert]
    split
    · simp [ih hrest]
    · next heq => exact absurd heq hfirst
    · rfl

theorem strictlyAscending_insert (hP : OrderedOn P) (hkey : P key)
    (hkeys : ∀ entry ∈ entries, P entry.1) (h : StrictlyAscending entries) :
    StrictlyAscending (insert key value entries) := by
  induction entries with
  | nil => exact List.pairwise_singleton _ _
  | cons first entries ih =>
    obtain ⟨hfirst, hrest⟩ := List.pairwise_cons.1 h
    obtain ⟨hfirstkey, hrestkeys⟩ := List.forall_mem_cons.1 hkeys
    rw [insert]
    split
    · next hlt =>
      refine List.pairwise_cons.2 ⟨fun entry hentry => ?_, ih hrestkeys hrest⟩
      rcases key_mem_insert hentry with heq | ⟨other, hother, heq⟩
      · rw [heq]
        exact hlt
      · rw [← heq]
        exact hfirst other hother
    · exact List.pairwise_cons.2 ⟨hfirst, hrest⟩
    · next hgt =>
      have hlt := (hP.gt_iff_lt hfirstkey hkey).1 hgt
      refine List.pairwise_cons.2 ⟨fun entry hentry => ?_, h⟩
      rcases List.mem_cons.1 hentry with rfl | hentry
      · exact hlt
      · exact hP.lt_trans hkey hfirstkey (hrestkeys entry hentry) hlt (hfirst entry hentry)

theorem replace_eq_self (h : ∀ entry ∈ entries, compare entry.1 key ≠ .eq) :
    replace key value entries = entries := by
  conv => rhs; rw [← List.map_id entries]
  exact List.map_congr_left fun entry hentry => if_neg (h entry hentry)

/-- Inserting under a key that is present only changes its value. -/
theorem insert_eq_replace (hP : OrderedOn P) (hkey : P key) (hkeys : ∀ entry ∈ entries, P entry.1)
    (h : StrictlyAscending entries) (hmem : ∃ entry ∈ entries, compare entry.1 key = .eq) :
    insert key value entries = replace key value entries := by
  induction entries with
  | nil => simp at hmem
  | cons first entries ih =>
    obtain ⟨hfirst, hrest⟩ := List.pairwise_cons.1 h
    obtain ⟨hfirstkey, hrestkeys⟩ := List.forall_mem_cons.1 hkeys
    obtain ⟨entry, hentry, heq⟩ := hmem
    have hfound : entry = first ∨ compare first.1 key = .lt := by
      rcases List.mem_cons.1 hentry with rfl | hentry
      · exact .inl rfl
      · rw [← hP.congr_right hfirstkey (hrestkeys entry hentry) hkey heq]
        exact .inr (hfirst entry hentry)
    rw [insert, replace, List.map_cons, ← replace]
    split
    · next hlt =>
      have hmem : ∃ entry ∈ entries, compare entry.1 key = .eq := by
        rcases List.mem_cons.1 hentry with rfl | hentry
        · rw [heq] at hlt
          cases hlt
        · exact ⟨entry, hentry, heq⟩
      rw [ih hrestkeys hrest hmem, if_neg (by rw [hlt]; decide)]
    · next hsame =>
      have hothers : replace key value entries = entries := by
        apply replace_eq_self
        intro other hother
        have habove := hfirst other hother
        rw [hP.congr_left hfirstkey hkey (hrestkeys other hother) hsame,
          ← hP.gt_iff_lt (hrestkeys other hother) hkey] at habove
        rw [habove]
        decide
      rw [if_pos hsame, hothers]
    · next hgt =>
      rcases hfound with rfl | hlt
      · rw [heq] at hgt
        cases hgt
      · rw [hlt] at hgt
        cases hgt

/-! ### Looking up after a change -/

theorem pair?_cons (entry : K × V) :
    pair? key (entry :: entries) =
      if compare entry.1 key = .eq then some entry else pair? key entries := by
  rw [pair?, List.find?_cons, pair?]
  cases compare entry.1 key <;> rfl

theorem get?_cons (entry : K × V) :
    get? key (entry :: entries) =
      if compare entry.1 key = .eq then some entry.2 else get? key entries := by
  rw [get?_eq_map_pair?, pair?_cons, apply_ite (Option.map Prod.snd), Option.map_some,
    get?_eq_map_pair?]

/-- The entry of a key that is inserted keeps the form of the key if there is one already. -/
theorem pair?_insert (hP : OrderedOn P) (hkey : P key) (hother : P other)
    (hkeys : ∀ entry ∈ entries, P entry.1) (h : StrictlyAscending entries) :
    pair? other (insert key value entries) =
      if compare key other = .eq then some (((pair? key entries).map Prod.fst).getD key, value)
      else pair? other entries := by
  induction entries with
  | nil => exact pair?_cons (key, value)
  | cons first entries ih =>
    obtain ⟨hfirst, hrest⟩ := List.pairwise_cons.1 h
    obtain ⟨hfirstkey, hrestkeys⟩ := List.forall_mem_cons.1 hkeys
    rw [insert]
    split
    · next hlt =>
      have hbehind : pair? key (first :: entries) = pair? key entries := by
        rw [pair?_cons, hlt]
        rfl
      rw [pair?_cons, ih hrestkeys hrest, hbehind, pair?_cons]
      by_cases heq : compare first.1 other = .eq
      · have hne : compare key other ≠ .eq := by
          rw [← hP.congr_right hkey hfirstkey hother heq, (hP.gt_iff_lt hkey hfirstkey).2 hlt]
          decide
        rw [if_pos heq, if_neg hne, if_pos heq]
      · rw [if_neg heq, if_neg heq]
    · next heq =>
      have hfound : pair? key (first :: entries) = some first := by
        rw [pair?_cons, if_pos heq]
      rw [hfound, pair?_cons, pair?_cons, hP.congr_left hfirstkey hkey hother heq]
      split <;> rfl
    · next hgt =>
      have habove : ∀ entry ∈ first :: entries, compare entry.1 key ≠ .eq := by
        have hlt := (hP.gt_iff_lt hfirstkey hkey).1 hgt
        refine List.forall_mem_cons.2 ⟨by rw [hgt]; decide, fun entry hentry => ?_⟩
        rw [(hP.gt_iff_lt (hrestkeys entry hentry) hkey).2
          (hP.lt_trans hkey hfirstkey (hrestkeys entry hentry) hlt (hfirst entry hentry))]
        decide
      rw [pair?_eq_none_iff.2 habove, pair?_cons]
      rfl

theorem get?_insert (hP : OrderedOn P) (hkey : P key) (hother : P other)
    (hkeys : ∀ entry ∈ entries, P entry.1) (h : StrictlyAscending entries) :
    get? other (insert key value entries) =
      if compare key other = .eq then some value else get? other entries := by
  rw [get?_eq_map_pair?, pair?_insert hP hkey hother hkeys h, apply_ite (Option.map Prod.snd),
    Option.map_some, get?_eq_map_pair?]

theorem get?_erase (hP : OrderedOn P) (hkey : P key) (hother : P other)
    (hkeys : ∀ entry ∈ entries, P entry.1) :
    get? other (erase key entries) =
      if compare key other = .eq then none else get? other entries := by
  induction entries with
  | nil => exact (ite_self none).symm
  | cons first entries ih =>
    obtain ⟨hfirstkey, hrestkeys⟩ := List.forall_mem_cons.1 hkeys
    have hrest := ih hrestkeys
    rw [erase, List.filter_cons, ← erase]
    by_cases heq : compare first.1 key = .eq
    · rw [heq, Ordering.isEq_eq, Bool.not_true, if_neg Bool.false_ne_true, hrest, get?_cons,
        hP.congr_left hfirstkey hkey hother heq]
      split <;> rfl
    · have hkept : (!(compare first.1 key).isEq) = true := by
        rw [Bool.not_eq_true', ← Bool.not_eq_true, Ordering.isEq_iff_eq_eq]
        exact heq
      rw [if_pos hkept, get?_cons, hrest, get?_cons]
      by_cases hfirst : compare first.1 other = .eq
      · have hne : compare key other ≠ .eq := fun hkeyother => by
          rw [hP.congr_right hkey hother hfirstkey
            ((hP.eq_comm hfirstkey hother).1 hfirst)] at hkeyother
          exact heq ((hP.eq_comm hkey hfirstkey).1 hkeyother)
        rw [if_pos hfirst, if_neg hne, if_pos hfirst]
      · rw [if_neg hfirst, if_neg hfirst]

/-- The one entry of a key. -/
theorem pair?_eq_some_of_mem (hP : OrderedOn P) (hkey : P key)
    (hkeys : ∀ entry ∈ entries, P entry.1) (h : StrictlyAscending entries) {entry : K × V}
    (hentry : entry ∈ entries) (heq : compare entry.1 key = .eq) :
    pair? key entries = some entry := by
  induction entries with
  | nil => exact absurd hentry List.not_mem_nil
  | cons first entries ih =>
    obtain ⟨hfirst, hrest⟩ := List.pairwise_cons.1 h
    obtain ⟨hfirstkey, hrestkeys⟩ := List.forall_mem_cons.1 hkeys
    rw [pair?_cons]
    rcases List.mem_cons.1 hentry with rfl | hentry
    · rw [if_pos heq]
    · have hne : compare first.1 key ≠ .eq := by
        rw [← hP.congr_right hfirstkey (hrestkeys entry hentry) hkey heq, hfirst entry hentry]
        decide
      rw [if_neg hne, ih hrestkeys hrest hentry]

theorem get?_eq_some_of_mem (hP : OrderedOn P) (hkey : P key) (hkeys : ∀ entry ∈ entries, P entry.1)
    (h : StrictlyAscending entries) {entry : K × V} (hentry : entry ∈ entries)
    (heq : compare entry.1 key = .eq) : get? key entries = some entry.2 := by
  rw [get?_eq_map_pair?, pair?_eq_some_of_mem hP hkey hkeys h hentry heq, Option.map_some]

theorem exists_mem_of_get?_eq_some (h : get? key entries = some value) :
    ∃ entry ∈ entries, compare entry.1 key = .eq ∧ entry.2 = value := by
  obtain ⟨entry, hfound, hvalue⟩ := Option.map_eq_some_iff.1 h
  exact ⟨entry, List.mem_of_find?_eq_some hfound, Ordering.isEq_iff_eq_eq.1
    (List.find?_some (p := fun entry : K × V => (compare entry.1 key).isEq) hfound), hvalue⟩

/-! ### Sums over the values -/

theorem get?_eq_none_of_gt (hP : OrderedOn P) (hkey : P key) (hkeys : ∀ entry ∈ entries, P entry.1)
    {first : K × V} (hfirstkey : P first.1) (hfirst : ∀ entry ∈ entries, compare first.1 entry.1 = .lt)
    (hle : (compare key first.1).isLE) : get? key entries = none := by
  rw [get?_eq_none_iff]
  intro entry hentry
  have hlt := hP.lt_of_isLE_of_lt hkey hfirstkey (hkeys entry hentry) hle (hfirst entry hentry)
  rw [(hP.gt_iff_lt (hkeys entry hentry) hkey).2 hlt]
  decide

/-- The new value comes in, and the one that the key had goes. -/
theorem sum_insert (hP : OrderedOn P) (hkey : P key) (hkeys : ∀ entry ∈ entries, P entry.1)
    (h : StrictlyAscending entries) (value : V) (weight : V → Nat) :
    ((insert key value entries).map fun entry => weight entry.2).sum +
        (get? key entries).elim 0 weight =
      (entries.map fun entry => weight entry.2).sum + weight value := by
  induction entries with
  | nil => simp [insert, get?]
  | cons first entries ih =>
    obtain ⟨hfirst, hrest⟩ := List.pairwise_cons.1 h
    obtain ⟨hfirstkey, hrestkeys⟩ := List.forall_mem_cons.1 hkeys
    have hsum := ih hrestkeys hrest
    rw [insert, get?_cons]
    split
    · next hlt =>
      simp only [hlt, reduceCtorEq, if_false, List.map_cons, List.sum_cons]
      omega
    · next heq =>
      simp only [heq, if_true, List.map_cons, List.sum_cons, Option.elim_some]
      omega
    · next hgt =>
      have hlt := (hP.gt_iff_lt hfirstkey hkey).1 hgt
      rw [get?_eq_none_of_gt hP hkey hrestkeys hfirstkey hfirst (by rw [hlt]; rfl)]
      simp only [hgt, reduceCtorEq, if_false, List.map_cons, List.sum_cons, Option.elim_none]
      omega

theorem sum_erase (hP : OrderedOn P) (hkey : P key) (hkeys : ∀ entry ∈ entries, P entry.1)
    (h : StrictlyAscending entries) (weight : V → Nat) :
    ((erase key entries).map fun entry => weight entry.2).sum + (get? key entries).elim 0 weight =
      (entries.map fun entry => weight entry.2).sum := by
  induction entries with
  | nil => simp [erase, get?]
  | cons first entries ih =>
    obtain ⟨hfirst, hrest⟩ := List.pairwise_cons.1 h
    obtain ⟨hfirstkey, hrestkeys⟩ := List.forall_mem_cons.1 hkeys
    have hsum := ih hrestkeys hrest
    rw [erase, List.filter_cons, ← erase, get?_cons]
    by_cases heq : compare first.1 key = .eq
    · have hsame := (hP.eq_comm hfirstkey hkey).1 heq
      rw [get?_eq_none_of_gt hP hkey hrestkeys hfirstkey hfirst (by rw [hsame]; rfl)] at hsum
      simp only [heq, Ordering.isEq_eq, Bool.not_true, Bool.false_eq_true, if_false, if_true,
        List.map_cons, List.sum_cons, Option.elim_some, Option.elim_none] at hsum ⊢
      omega
    · have hkept : (!(compare first.1 key).isEq) = true := by
        rw [Bool.not_eq_true', ← Bool.not_eq_true, Ordering.isEq_iff_eq_eq]
        exact heq
      simp only [hkept, if_true, if_neg heq, List.map_cons, List.sum_cons]
      omega

end SnapshotStore.Entries
