import SnapshotStore.Proofs.SortedMap.Lookup

/-!
# Placing an entry in a tree

A full child is split on the way down. A split leaf gets a separator equal to the key in front of
it, and a split inner bucket gives up one that it had; the walk over the tree meets nothing else
that is new, and so stays in order.
-/

namespace SnapshotStore

variable {K V : Type}

namespace Mark

/-- The second walk meets what the first one does and perhaps one more separator, right behind the
entry of its key. -/
inductive Refined : List (Mark K) → List (Mark K) → Prop where
  | same (marks : List (Mark K)) : Refined marks marks
  | separated (left right : List (Mark K)) (key : K) :
      Refined (left ++ entry key :: right) (left ++ entry key :: separator key :: right)

namespace Refined

variable {marks others : List (Mark K)}

theorem append_left (more : List (Mark K)) (h : Refined marks others) :
    Refined (more ++ marks) (more ++ others) := by
  cases h with
  | same => exact .same _
  | separated left right key =>
    rw [← List.append_assoc, ← List.append_assoc]
    exact .separated _ right key

theorem append_right (more : List (Mark K)) (h : Refined marks others) :
    Refined (marks ++ more) (others ++ more) := by
  cases h with
  | same => exact .same _
  | separated left right key =>
    rw [List.append_assoc, List.append_assoc]
    exact .separated left (right ++ more) key

theorem mem (h : Refined marks others) {mark : Mark K} (hmark : mark ∈ others) :
    mark ∈ marks ∨ ∃ key, mark = separator key ∧ entry key ∈ marks := by
  cases h with
  | same => exact .inl hmark
  | separated left right key =>
    rcases List.mem_append.1 hmark with hmark | hmark
    · exact .inl (List.mem_append_left _ hmark)
    rcases List.mem_cons.1 hmark with rfl | hmark
    · exact .inl (List.mem_append_right _ List.mem_cons_self)
    rcases List.mem_cons.1 hmark with rfl | hmark
    · exact .inr ⟨key, rfl, List.mem_append_right _ List.mem_cons_self⟩
    · exact .inl (List.mem_append_right _ (List.mem_cons_of_mem _ hmark))

end Refined

variable {P : K → Prop} {key : K} {marks others left right : List (Mark K)} {mark : Mark K}

/-- What a walk meets once `key` has been placed: its entry, what it met before, and separators
equal to keys that it met. -/
def Stems (key : K) (marks : List (Mark K)) (mark : Mark K) : Prop :=
  mark = entry key ∨ mark ∈ marks ∨ ∃ other, mark = .separator other ∧ entry other ∈ marks

theorem Stems.of_refined (hrefined : Refined marks others) (h : mark.Stems key others) :
    mark.Stems key marks := by
  rcases h with h | h | ⟨other, rfl, h⟩
  · exact .inl h
  · exact .inr (hrefined.mem h)
  · rcases hrefined.mem h with h | ⟨_, hentry, _⟩
    · exact .inr (.inr ⟨other, rfl, h⟩)
    · cases hentry

theorem Stems.mono (hsub : ∀ mark ∈ marks, mark ∈ others) (h : mark.Stems key marks) :
    mark.Stems key others :=
  h.imp_right (Or.imp (hsub mark) fun ⟨other, heq, hentry⟩ => ⟨other, heq, hsub _ hentry⟩)

theorem Stems.of_forall (hkey : P key) (hkeys : ∀ mark ∈ marks, P mark.key)
    (h : mark.Stems key marks) : P mark.key := by
  rcases h with rfl | h | ⟨other, rfl, h⟩
  · exact hkey
  · exact hkeys mark h
  · exact hkeys (entry other) h

variable [Ord K]

/-- What may stand behind a key may stand in front of what the separator of that key stands in front
of. -/
theorem Before.separator (h : mark.Before (entry key)) : mark.Before (.separator key) :=
  Ordering.isLE_of_eq_lt h

theorem Refined.pairwise (hP : OrderedOn P) (hkeys : ∀ mark ∈ marks, P mark.key)
    (h : Refined marks others) (hsorted : marks.Pairwise Before) : others.Pairwise Before := by
  cases h with
  | same => exact hsorted
  | separated left right key =>
    have hkey : P key := hkeys (entry key) (List.mem_append_right _ List.mem_cons_self)
    obtain ⟨hleft, hrest, hcross⟩ := List.pairwise_append.1 hsorted
    obtain ⟨hentry, hright⟩ := List.pairwise_cons.1 hrest
    have hself : (entry key).Before (.separator key) := by
      rw [Before, Mark.key, hP.refl hkey]
      rfl
    refine List.pairwise_append.2 ⟨hleft, ?_, fun a ha b hb => ?_⟩
    · refine List.pairwise_cons.2 ⟨fun b hb => ?_, List.pairwise_cons.2 ⟨hentry, hright⟩⟩
      rcases List.mem_cons.1 hb with rfl | hb
      · exact hself
      · exact hentry b hb
    · rcases List.mem_cons.1 hb with rfl | hb
      · exact hcross a ha (entry key) List.mem_cons_self
      rcases List.mem_cons.1 hb with rfl | hb
      · exact (hcross a ha (entry key) List.mem_cons_self).separator
      · exact hcross a ha b (List.mem_cons_of_mem _ hb)

/-- A part of a walk in order may be exchanged for one into which a key has been placed, if the key
belongs there. -/
theorem pairwise_of_stems {changed : List (Mark K)}
    (hleft : ∀ mark ∈ left, compare mark.key key = .lt)
    (hright : ∀ mark ∈ right, (entry key).Before mark)
    (hsorted : (left ++ (marks ++ right)).Pairwise Before) (hchanged : changed.Pairwise Before)
    (hstems : ∀ mark ∈ changed, mark.Stems key marks) :
    (left ++ (changed ++ right)).Pairwise Before := by
  obtain ⟨hleftsorted, hrest, hcross⟩ := List.pairwise_append.1 hsorted
  obtain ⟨_, hrightsorted, hinner⟩ := List.pairwise_append.1 hrest
  have hbehind : ∀ mark ∈ changed, ∀ b ∈ right, mark.Before b := by
    intro mark hmark b hb
    rcases hstems mark hmark with rfl | h | ⟨other, rfl, h⟩
    · exact hright b hb
    · exact hinner mark h b hb
    · -- a separator stands in front of the same marks as the entry of its key
      have hentry := hinner (entry other) h b hb
      cases b <;> exact hentry
  refine List.pairwise_append.2 ⟨hleftsorted,
    List.pairwise_append.2 ⟨hchanged, hrightsorted, hbehind⟩, fun a ha b hb => ?_⟩
  rcases List.mem_append.1 hb with hb | hb
  · rcases hstems b hb with rfl | h | ⟨other, rfl, h⟩
    · exact hleft a ha
    · exact hcross a ha b (List.mem_append_left _ h)
    · exact (hcross a ha (entry other) (List.mem_append_left _ h)).separator
  · exact hcross a ha b (List.mem_append_right _ hb)

end Mark

namespace Bucket

open SortedMap (lowerBound find? StrictlyAscending)

variable {b low high : Bucket K V} {slots slots' : List (K × Bucket K V)} {last last' : Bucket K V}
  {total place : Nat} {separator : K}

/-! ### Splitting -/

theorem take_succ_of_getElem? {A : Type} {as : List A} {a : A} (h : as[place]? = some a) :
    as.take (place + 1) = as.take place ++ [a] := by
  rw [List.take_add_one, h, Option.toList_some]

theorem toList_split (h : b.split? = some (separator, low, high)) :
    b.toList = low.toList ++ high.toList := by
  cases b with
  | leaf entries =>
    obtain ⟨entry, _, heq⟩ := Option.map_eq_some_iff.1 h
    cases heq
    exact (List.take_append_drop 4 entries).symm
  | inner slots last total =>
    obtain ⟨slot, hslot, heq⟩ := Option.map_eq_some_iff.1 h
    cases heq
    rw [toList_inner_of_getElem? hslot, join, join, toList, toList, List.append_assoc]

theorem refined_split (h : b.split? = some (separator, low, high)) :
    Mark.Refined b.marks (low.marks ++ .separator separator :: high.marks) := by
  cases b with
  | leaf entries =>
    obtain ⟨entry, hentry, heq⟩ := Option.map_eq_some_iff.1 h
    cases heq
    have hrefined := Mark.Refined.separated ((entries.take 3).map fun entry => .entry entry.1)
      ((entries.drop 4).map fun entry => .entry entry.1) entry.1
    rw [marks, marks, marks, take_succ_of_getElem? hentry, List.map_append, List.append_assoc]
    rw [← List.map_cons (f := fun entry : K × V => Mark.entry entry.1), ← List.map_append,
      ← eq_take_append_cons_drop hentry] at hrefined
    exact hrefined
  | inner slots last total =>
    obtain ⟨slot, hslot, heq⟩ := Option.map_eq_some_iff.1 h
    cases heq
    rw [marks_inner_of_getElem? hslot, join, join, marks, marks, List.append_assoc]
    exact .same _

/-- The bucket over the two halves of a root. -/
theorem toList_join_split (h : b.split? = some (separator, low, high)) :
    (join [(separator, low)] high).toList = b.toList := by
  rw [toList_split h, join, toList, slotsToList, slotsToList, List.append_nil]

theorem toList_splitAt (h : splitAt? slots last place = some (slots', last')) (total sum : Nat) :
    (inner slots' last' sum).toList = (inner slots last total).toList := by
  unfold splitAt? at h
  split at h
  · next upper child hslot =>
    obtain ⟨⟨separator, low, high⟩, hsplit, heq⟩ := Option.map_eq_some_iff.1 h
    cases heq
    rw [toList, toList_inner_of_getElem? hslot, slotsToList_append, slotsToList, slotsToList,
      toList_split hsplit]
    simp only [List.append_assoc]
  · obtain ⟨⟨separator, low, high⟩, hsplit, heq⟩ := Option.map_eq_some_iff.1 h
    cases heq
    rw [toList, toList, slotsToList_append, slotsToList, slotsToList, toList_split hsplit]
    simp only [List.append_assoc, List.append_nil]

theorem refined_splitAt (h : splitAt? slots last place = some (slots', last')) (total sum : Nat) :
    Mark.Refined (inner slots last total).marks (inner slots' last' sum).marks := by
  unfold splitAt? at h
  split at h
  · next upper child hslot =>
    obtain ⟨⟨separator, low, high⟩, hsplit, heq⟩ := Option.map_eq_some_iff.1 h
    cases heq
    rw [marks_inner_of_getElem? hslot, marks, slotsMarks_append, slotsMarks, slotsMarks]
    have hrefined :=
      ((refined_split hsplit).append_right (.separator upper ::
      (slotsMarks (slots.drop (place + 1)) ++ last.marks))).append_left
      (slotsMarks (slots.take place))
    simpa only [List.append_assoc, List.cons_append] using hrefined
  · obtain ⟨⟨separator, low, high⟩, hsplit, heq⟩ := Option.map_eq_some_iff.1 h
    cases heq
    rw [marks, marks, slotsMarks_append, slotsMarks, slotsMarks]
    have hrefined := (refined_split hsplit).append_left (slotsMarks slots)
    simpa only [List.append_assoc, List.cons_append, List.nil_append] using hrefined

theorem split?_ne_none (hfull : b.isFull) : b.split? ≠ none := by
  intro hnone
  have hcount : b.count = 8 := by simpa [isFull, capacity] using hfull
  cases b with
  | leaf entries =>
    have hthree := List.getElem?_eq_none_iff.1 (Option.map_eq_none_iff.1 hnone)
    rw [count] at hcount
    omega
  | inner slots last total =>
    have hthree := List.getElem?_eq_none_iff.1 (Option.map_eq_none_iff.1 hnone)
    rw [count] at hcount
    omega

theorem splitAt?_ne_none (hfull : ((slots[place]?.map Prod.snd).getD last).isFull) :
    splitAt? slots last place ≠ none := by
  intro hnone
  unfold splitAt? at hnone
  split at hnone
  · next upper child hslot =>
    rw [hslot] at hfull
    exact split?_ne_none hfull (Option.map_eq_none_iff.1 hnone)
  · next hslot =>
    rw [hslot] at hfull
    exact split?_ne_none hfull (Option.map_eq_none_iff.1 hnone)

/-- What holds of all children and goes over to the halves of a full bucket holds of all children
once the full one has been split. -/
theorem forall_splitAt {Q : Bucket K V → Prop}
    (hfull : ((slots[place]?.map Prod.snd).getD last).isFull)
    (hsplit : splitAt? slots last place = some (slots', last'))
    (hhalves : ∀ {b low high : Bucket K V} {separator : K}, b.isFull →
      b.split? = some (separator, low, high) → Q b → Q low ∧ Q high)
    (hslots : ∀ slot ∈ slots, Q slot.2) (hlast : Q last) :
    (∀ slot ∈ slots', Q slot.2) ∧ Q last' := by
  unfold splitAt? at hsplit
  split at hsplit
  · next upper child hslot =>
    obtain ⟨⟨separator, low, high⟩, hhalf, heq⟩ := Option.map_eq_some_iff.1 hsplit
    cases heq
    rw [hslot] at hfull
    obtain ⟨hlow, hhigh⟩ := hhalves hfull hhalf (hslots _ (List.mem_of_getElem? hslot))
    refine ⟨fun slot hmem => ?_, hlast⟩
    simp only [List.mem_append, List.mem_cons] at hmem
    rcases hmem with hmem | rfl | rfl | hmem
    · exact hslots slot (List.mem_of_mem_take hmem)
    · exact hlow
    · exact hhigh
    · exact hslots slot (List.mem_of_mem_drop hmem)
  · next hslot =>
    obtain ⟨⟨separator, low, high⟩, hhalf, heq⟩ := Option.map_eq_some_iff.1 hsplit
    cases heq
    rw [hslot] at hfull
    obtain ⟨hlow, hhigh⟩ := hhalves hfull hhalf hlast
    refine ⟨fun slot hmem => ?_, hhigh⟩
    simp only [List.mem_append, List.mem_singleton] at hmem
    rcases hmem with hmem | rfl
    · exact hslots slot hmem
    · exact hlow

/-! ### Inserting -/

variable [Ord K] {P : K → Prop} {key : K} {value : V}

theorem Ordered.of_refined (hP : OrderedOn P) {c : Bucket K V} (h : b.Ordered P)
    (hrefined : Mark.Refined b.marks c.marks) : c.Ordered P := by
  refine ⟨hrefined.pairwise hP h.keys h.sorted, fun mark hmark => ?_⟩
  rcases hrefined.mem hmark with hmark | ⟨other, rfl, hentry⟩
  · exact h.keys mark hmark
  · exact h.keys (.entry other) hentry

theorem Ordered.join_split (hP : OrderedOn P) (h : b.Ordered P)
    (hsplit : b.split? = some (separator, low, high)) :
    (join [(separator, low)] high).Ordered P := by
  apply h.of_refined hP
  simpa [join, marks, slotsMarks] using refined_split hsplit

/-- A bucket once an entry has been placed in it. -/
structure Grown (P : K → Prop) (key : K) (value : V) (b c : Bucket K V) : Prop where
  toList : c.toList = Entries.insert key value b.toList
  ordered : c.Ordered P
  stems : ∀ mark ∈ c.marks, mark.Stems key b.marks

theorem insertIdx_append {A : Type} (left right : List A) (a : A) :
    (left ++ right).insertIdx left.length a = left ++ a :: right := by
  induction left with
  | nil => rfl
  | cons first left ih =>
    rw [List.cons_append, List.length_cons, List.insertIdx_succ_cons, ih, List.cons_append]

theorem insertIdx_eq_insert (hP : OrderedOn P) (hkey : P key) {entries : List (K × V)}
    (hkeys : ∀ entry ∈ entries, P entry.1) (hsorted : StrictlyAscending entries)
    (habsent : ∀ entry ∈ entries, compare entry.1 key ≠ .eq) :
    entries.insertIdx (lowerBound key entries) (key, value) = Entries.insert key value entries := by
  have hafter : ∀ entry ∈ entries.drop (lowerBound key entries), compare entry.1 key = .gt := by
    intro entry hentry
    have hnotlt := SortedMap.not_lt_of_mem_drop_lowerBound hP hkey hkeys hsorted.ascending hentry
    have hnoteq := habsent entry (List.mem_of_mem_drop hentry)
    revert hnotlt hnoteq
    cases compare entry.1 key <;> decide
  have hbefore : ∀ entry ∈ entries.take (lowerBound key entries), compare entry.1 key = .lt :=
    fun entry hentry => SortedMap.lt_of_mem_take_lowerBound hP hkey hkeys hsorted.ascending hentry
  have hlength : (entries.take (lowerBound key entries)).length = lowerBound key entries :=
    List.length_take_of_le (SortedMap.lowerBound_le_length hP hkey hkeys hsorted.ascending)
  have hinsert : Entries.insert key value
      (entries.take (lowerBound key entries) ++ entries.drop (lowerBound key entries)) =
      entries.take (lowerBound key entries) ++ (key, value) :: entries.drop
        (lowerBound key entries) := by
    rw [Entries.insert_append_of_lt hbefore, ← List.nil_append (entries.drop _),
      Entries.insert_append_of_gt hafter]
    rfl
  have hplaced := insertIdx_append (entries.take (lowerBound key entries))
    (entries.drop (lowerBound key entries)) (key, value)
  rw [List.take_append_drop] at hinsert hplaced
  rw [hinsert, ← hplaced, hlength]

theorem grown_leaf (hP : OrderedOn P) (hkey : P key) {entries : List (K × V)}
    (h : (leaf entries).Ordered P) (habsent : ∀ entry ∈ entries, compare entry.1 key ≠ .eq) :
    Grown P key value (leaf entries)
      (leaf (entries.insertIdx (lowerBound key entries) (key, value))) := by
  have hentries : entries.insertIdx (lowerBound key entries) (key, value) = Entries.insert key value
    entries := insertIdx_eq_insert hP hkey h.toList_keys h.strictlyAscending habsent
  have hstems : ∀ mark ∈ (leaf (Entries.insert key value entries)).marks,
      mark.Stems key (leaf entries).marks := by
    intro mark hmark
    obtain ⟨entry, hentry, rfl⟩ := List.mem_map.1 hmark
    rcases Entries.key_mem_insert hentry with heq | ⟨other, hother, heq⟩
    · exact .inl (congrArg Mark.entry heq)
    · exact .inr (.inl (List.mem_map.2 ⟨other, hother, congrArg Mark.entry heq⟩))
  rw [hentries]
  refine ⟨rfl, ⟨?_, fun mark hmark => (hstems mark hmark).of_forall hkey h.keys⟩, hstems⟩
  exact List.pairwise_map.2 (Entries.strictlyAscending_insert hP hkey h.toList_keys
    h.strictlyAscending)

theorem grown_inner_child (hP : OrderedOn P) (hkey : P key) (h : (inner slots last total).Ordered P)
    {child changed : Bucket K V} (hslot : slots[lowerBound key slots]? = some (separator, child))
    (hchanged : Grown P key value child changed) (sum : Nat) :
    Grown P key value (inner slots last total)
      (inner (slots.set (lowerBound key slots) (separator, changed)) last sum) := by
  have hmarks : (inner slots last total).marks = _ := marks_inner_of_getElem? hslot
  have hstems : ∀ mark ∈ (inner (slots.set (lowerBound key slots) (separator, changed)) last
      sum).marks, mark.Stems key (inner slots last total).marks := by
    intro mark hmark
    rw [marks_inner_set hslot] at hmark
    rw [hmarks]
    rcases List.mem_append.1 hmark with hmark | hmark
    · exact .inr (.inl (List.mem_append_left _ hmark))
    rcases List.mem_append.1 hmark with hmark | hmark
    · exact (hchanged.stems mark hmark).mono fun mark hmark => List.mem_append_right _
        (List.mem_append_left _ hmark)
    · exact .inr (.inl (List.mem_append_right _ (List.mem_append_right _ hmark)))
  refine ⟨h.toList_insert_child hP hkey hslot hchanged.toList separator sum,
    ⟨?_, fun mark hmark => (hstems mark hmark).of_forall hkey h.keys⟩, hstems⟩
  have hsorted := h.sorted
  rw [hmarks] at hsorted
  rw [marks_inner_set hslot]
  refine Mark.pairwise_of_stems (fun mark hmark => h.mark_lt_of_mem_take hP hkey hmark)
    (fun mark hmark => ?_) hsorted hchanged.ordered.sorted hchanged.stems
  rcases List.mem_cons.1 hmark with rfl | hmark
  · exact h.isLE_separator hP hkey hslot
  · exact h.entry_before_of_mem_drop hP hkey hslot hmark

theorem grown_inner_last (hP : OrderedOn P) (hkey : P key) (h : (inner slots last total).Ordered P)
    {changed : Bucket K V} (hslot : slots[lowerBound key slots]? = none)
    (hchanged : Grown P key value last changed) (sum : Nat) :
    Grown P key value (inner slots last total) (inner slots changed sum) := by
  have hstems :
      ∀ mark ∈ (inner slots changed sum).marks, mark.Stems key (inner slots last total).marks := by
    intro mark hmark
    rw [marks] at hmark ⊢
    rcases List.mem_append.1 hmark with hmark | hmark
    · exact .inr (.inl (List.mem_append_left _ hmark))
    · exact (hchanged.stems mark hmark).mono fun mark hmark => List.mem_append_right _ hmark
  refine ⟨h.toList_insert_last hP hkey hslot hchanged.toList sum,
    ⟨?_, fun mark hmark => (hstems mark hmark).of_forall hkey h.keys⟩, hstems⟩
  have hsorted := h.sorted
  rw [marks, ← List.append_nil (last.marks)] at hsorted
  rw [marks, ← List.append_nil (changed.marks)]
  refine Mark.pairwise_of_stems (fun mark hmark => h.mark_lt_of_mem_slots hP hkey hslot hmark)
    (fun mark hmark => ?_) hsorted hchanged.ordered.sorted hchanged.stems
  exact absurd hmark List.not_mem_nil

theorem Ordered.grown_insert (hP : OrderedOn P) (hkey : P key) (h : b.Ordered P)
    (habsent : ∀ entry ∈ b.toList, compare entry.1 key ≠ .eq) :
    Grown P key value b (b.insert key value) := by
  fun_induction insert key value b with
  | case1 entries => exact grown_leaf hP hkey h habsent
  | case2 slots last total place hfull slots' last' hsplit ih =>
    have hrefined := refined_splitAt hsplit total total
    have htoList := toList_splitAt hsplit total total
    have hgrown := ih (h.of_refined hP hrefined) (by rwa [htoList])
    exact ⟨by rw [hgrown.toList, htoList], hgrown.ordered,
      fun mark hmark => (hgrown.stems mark hmark).of_refined hrefined⟩
  | case3 slots last total place hfull hsplit => exact absurd hsplit (splitAt?_ne_none hfull)
  | case4 slots last total place hroom separator child hslot ih =>
    refine grown_inner_child hP hkey h hslot (ih (h.child hslot) fun entry hentry =>
      habsent entry ?_) (total + 1)
    rw [toList_inner_of_getElem? hslot]
    exact List.mem_append_right _ (List.mem_append_left _ hentry)
  | case5 slots last total place hroom hslot ih =>
    refine grown_inner_last hP hkey h hslot (ih h.last_child fun entry hentry => habsent entry ?_)
      (total + 1)
    rw [toList]
    exact List.mem_append_right _ hentry

end Bucket

end SnapshotStore
