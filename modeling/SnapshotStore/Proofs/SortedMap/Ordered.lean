import SnapshotStore.Proofs.SortedMap.Entries
import SnapshotStore.SortedMap.Bucket

/-!
# The order of a tree

Walking a tree from left to right meets the keys of its entries and, behind each child, the
separator above it. A tree is ordered if each key stands above everything in front of it and each
separator not below anything in front of it. Splitting a bucket changes next to nothing of this walk
and removal only takes parts of it away, which is why both keep the order.
-/

namespace SnapshotStore

/-- What a walk over a tree meets. -/
inductive Mark (K : Type) where
  | entry (key : K)
  | separator (key : K)

namespace Mark

variable {K : Type}

def key : Mark K → K
  | entry key => key
  | separator key => key

/-- A separator may be equal to a key in front of it. -/
def Before [Ord K] (a : Mark K) : Mark K → Prop
  | entry key => compare a.key key = .lt
  | separator key => (compare a.key key).isLE

end Mark

namespace Bucket

open SortedMap (lowerBound find? Ascending StrictlyAscending)

variable {K V : Type}

mutual

def marks : Bucket K V → List (Mark K)
  | leaf entries => entries.map fun entry => .entry entry.1
  | inner slots last _ => slotsMarks slots ++ last.marks

def slotsMarks : List (K × Bucket K V) → List (Mark K)
  | [] => []
  | (separator, child) :: slots => child.marks ++ .separator separator :: slotsMarks slots

end

/-! ### Parts of the walk -/

theorem slotsMarks_append (left right : List (K × Bucket K V)) :
    slotsMarks (left ++ right) = slotsMarks left ++ slotsMarks right := by
  induction left with
  | nil => rfl
  | cons slot left ih =>
    rw [List.cons_append, slotsMarks, slotsMarks, ih, List.append_assoc, List.cons_append]

theorem slotsToList_append (left right : List (K × Bucket K V)) :
    slotsToList (left ++ right) = slotsToList left ++ slotsToList right := by
  induction left with
  | nil => rfl
  | cons slot left ih => rw [List.cons_append, slotsToList, slotsToList, ih, List.append_assoc]

theorem eq_take_append_cons_drop {A : Type} {slots : List A} {place : Nat} {slot : A}
    (h : slots[place]? = some slot) :
    slots = slots.take place ++ slot :: slots.drop (place + 1) := by
  obtain ⟨hplace, rfl⟩ := List.getElem?_eq_some_iff.1 h
  rw [List.getElem_cons_drop, List.take_append_drop]

theorem toList_inner_of_getElem? {slots : List (K × Bucket K V)} {last : Bucket K V}
    {total place : Nat} {separator : K} {child : Bucket K V}
    (h : slots[place]? = some (separator, child)) :
    (inner slots last total).toList = slotsToList (slots.take place) ++
      (child.toList ++ (slotsToList (slots.drop (place + 1)) ++ last.toList)) := by
  have hslots := congrArg slotsToList (eq_take_append_cons_drop h)
  rw [slotsToList_append, slotsToList] at hslots
  rw [toList, hslots, List.append_assoc, List.append_assoc]

theorem marks_inner_of_getElem? {slots : List (K × Bucket K V)} {last : Bucket K V}
    {total place : Nat} {separator : K} {child : Bucket K V}
    (h : slots[place]? = some (separator, child)) :
    (inner slots last total).marks = slotsMarks (slots.take place) ++
      (child.marks ++ .separator separator ::
        (slotsMarks (slots.drop (place + 1)) ++ last.marks)) := by
  have hslots := congrArg slotsMarks (eq_take_append_cons_drop h)
  rw [slotsMarks_append, slotsMarks] at hslots
  rw [marks, hslots, List.append_assoc, List.append_assoc, List.cons_append]

mutual

theorem entries_sublist_marks :
    (b : Bucket K V) → (b.toList.map fun entry => Mark.entry entry.1).Sublist b.marks
  | leaf _ => List.Sublist.refl _
  | inner slots last _ => by
    rw [toList, marks, List.map_append]
    exact (entries_sublist_slotsMarks slots).append (entries_sublist_marks last)

theorem entries_sublist_slotsMarks :
    (slots : List (K × Bucket K V)) →
      ((slotsToList slots).map fun entry => Mark.entry entry.1).Sublist (slotsMarks slots)
  | [] => List.Sublist.refl _
  | (separator, child) :: slots => by
    rw [slotsToList, slotsMarks, List.map_append]
    exact (entries_sublist_marks child).append ((entries_sublist_slotsMarks slots).cons _)

end

theorem separators_sublist_slotsMarks (slots : List (K × Bucket K V)) :
    (slots.map fun slot => Mark.separator slot.1).Sublist (slotsMarks slots) := by
  induction slots with
  | nil => exact List.Sublist.refl _
  | cons slot slots ih => exact (ih.cons_cons _).trans (List.sublist_append_right _ _)

theorem entry_mem_marks {b : Bucket K V} {entry : K × V} (h : entry ∈ b.toList) :
    Mark.entry entry.1 ∈ b.marks :=
  (entries_sublist_marks b).subset (List.mem_map_of_mem h)

theorem mem_slotsMarks {slots : List (K × Bucket K V)} {mark : Mark K} :
    mark ∈ slotsMarks slots ↔ ∃ slot ∈ slots, mark = .separator slot.1 ∨ mark ∈ slot.2.marks := by
  induction slots with
  | nil => simp [slotsMarks]
  | cons slot slots ih =>
    simp only [slotsMarks, List.mem_append, List.mem_cons, ih, exists_eq_or_imp]
    rw [← or_assoc, or_comm (a := mark ∈ slot.2.marks)]

theorem entry_mem_slotsMarks {slots : List (K × Bucket K V)} {entry : K × V}
    (h : entry ∈ slotsToList slots) : Mark.entry entry.1 ∈ slotsMarks slots :=
  (entries_sublist_slotsMarks slots).subset (List.mem_map_of_mem h)

/-! ### Ordered trees -/

variable [Ord K]

/-- The walk over the tree is in order, and all its keys are among those that can be compared. -/
structure Ordered (P : K → Prop) (b : Bucket K V) : Prop where
  sorted : b.marks.Pairwise Mark.Before
  keys : ∀ mark ∈ b.marks, P mark.key

variable {P : K → Prop} {b : Bucket K V} {slots : List (K × Bucket K V)} {last : Bucket K V}
  {total : Nat} {key : K}

theorem Ordered.of_sublist {c : Bucket K V} (h : c.Ordered P) (hsub : b.marks.Sublist c.marks) :
    b.Ordered P :=
  ⟨h.sorted.sublist hsub, fun mark hmark => h.keys mark (hsub.subset hmark)⟩

theorem Ordered.strictlyAscending (h : b.Ordered P) : StrictlyAscending b.toList := by
  have hsorted := h.sorted.sublist (entries_sublist_marks b)
  exact List.pairwise_map.1 hsorted

theorem Ordered.toList_keys (h : b.Ordered P) : ∀ entry ∈ b.toList, P entry.1 :=
  fun entry hentry => h.keys (.entry entry.1) (entry_mem_marks hentry)

theorem Ordered.ascending_slots (h : (inner slots last total).Ordered P) : Ascending slots := by
  have hsub :
      (slots.map fun slot => Mark.separator slot.1).Sublist (inner slots last total).marks := by
    rw [marks]
    exact (separators_sublist_slotsMarks slots).trans (List.sublist_append_left _ _)
  exact List.pairwise_map.1 (h.sorted.sublist hsub)

theorem Ordered.slots_keys (h : (inner slots last total).Ordered P) : ∀ slot ∈ slots, P slot.1 := by
  intro slot hslot
  refine h.keys (.separator slot.1) ?_
  rw [marks]
  exact List.mem_append_left _ ((separators_sublist_slotsMarks slots).subset
    (List.mem_map_of_mem hslot))

/-- A bucket between others, seen from the bucket above. -/
theorem Ordered.child (h : (inner slots last total).Ordered P) {place : Nat} {separator : K}
    {child : Bucket K V} (hslot : slots[place]? = some (separator, child)) : child.Ordered P := by
  refine h.of_sublist ?_
  rw [marks_inner_of_getElem? hslot]
  exact (List.sublist_append_left _ _).trans (List.sublist_append_right _ _)

theorem Ordered.last_child (h : (inner slots last total).Ordered P) : last.Ordered P := by
  refine h.of_sublist ?_
  rw [marks]
  exact List.sublist_append_right _ _

theorem Ordered.before_separator (h : (inner slots last total).Ordered P) {separator : K}
    {child : Bucket K V} (hslot : (separator, child) ∈ slots) {mark : Mark K}
    (hmark : mark ∈ child.marks) : mark.Before (.separator separator) := by
  obtain ⟨place, hplace⟩ := List.getElem?_of_mem hslot
  have hsorted := h.sorted
  rw [marks_inner_of_getElem? hplace] at hsorted
  have hinside := (List.pairwise_append.1 (List.pairwise_append.1 hsorted).2.1).2.2
  exact hinside mark hmark (.separator separator) List.mem_cons_self

theorem Ordered.separator_before (h : (inner slots last total).Ordered P) {place : Nat}
    {separator : K} {child : Bucket K V} (hslot : slots[place]? = some (separator, child))
    {mark : Mark K} (hmark : mark ∈ slotsMarks (slots.drop (place + 1)) ++ last.marks) :
    (Mark.separator separator).Before mark := by
  have hsorted := h.sorted
  rw [marks_inner_of_getElem? hslot] at hsorted
  exact (List.pairwise_cons.1 (List.pairwise_append.1 (List.pairwise_append.1 hsorted).2.1).2.1).1
    mark hmark

/-! ### Where a key belongs -/

theorem Ordered.mark_lt_of_mem_take (hP : OrderedOn P) (hkey : P key)
    (h : (inner slots last total).Ordered P) {mark : Mark K}
    (hmark : mark ∈ slotsMarks (slots.take (lowerBound key slots))) :
    compare mark.key key = .lt := by
  obtain ⟨⟨separator, child⟩, hslot, hmark⟩ := mem_slotsMarks.1 hmark
  have hmem := List.mem_of_mem_take hslot
  have hlt := SortedMap.lt_of_mem_take_lowerBound hP hkey h.slots_keys h.ascending_slots hslot
  rcases hmark with rfl | hmark
  · exact hlt
  · have hmarkkey : P mark.key := by
      refine h.keys mark ?_
      rw [marks]
      exact List.mem_append_left _ (mem_slotsMarks.2 ⟨_, hmem, .inr hmark⟩)
    exact hP.lt_of_isLE_of_lt hmarkkey (h.slots_keys _ hmem) hkey
      (h.before_separator hmem hmark) hlt

/-- The separator above the child that a key belongs to is not below the key. -/
theorem Ordered.isLE_separator (hP : OrderedOn P) (hkey : P key)
    (h : (inner slots last total).Ordered P) {separator : K} {child : Bucket K V}
    (hslot : slots[lowerBound key slots]? = some (separator, child)) :
    (compare key separator).isLE := by
  have hnotlt : compare separator key ≠ .lt := by
    have hdrop : (separator, child) ∈ slots.drop (lowerBound key slots) :=
      List.mem_of_getElem? (by rw [List.getElem?_drop, Nat.add_zero, hslot])
    exact SortedMap.not_lt_of_mem_drop_lowerBound hP hkey h.slots_keys h.ascending_slots hdrop
  rw [hP.swap hkey (h.slots_keys _ (List.mem_of_getElem? hslot))]
  revert hnotlt
  cases compare separator key <;> decide

/-- What is met behind the child that a key belongs to may be met behind the key. -/
theorem Ordered.entry_before_of_mem_drop (hP : OrderedOn P) (hkey : P key)
    (h : (inner slots last total).Ordered P) {separator : K} {child : Bucket K V}
    (hslot : slots[lowerBound key slots]? = some (separator, child)) {mark : Mark K}
    (hmark : mark ∈ slotsMarks (slots.drop (lowerBound key slots + 1)) ++ last.marks) :
    (Mark.entry key).Before mark := by
  have hseparator : P separator := h.slots_keys _ (List.mem_of_getElem? hslot)
  have hisLE := h.isLE_separator hP hkey hslot
  have hbefore := h.separator_before hslot hmark
  have hmarkkey : P mark.key := by
    refine h.keys mark ?_
    rw [marks_inner_of_getElem? hslot]
    exact List.mem_append_right _ (List.mem_append_right _ (List.mem_cons_of_mem _ hmark))
  cases mark with
  | entry other => exact hP.lt_of_isLE_of_lt hkey hseparator hmarkkey hisLE hbefore
  | separator other => exact hP.isLE_trans hkey hseparator hmarkkey hisLE hbefore

theorem Ordered.lt_of_mem_take (hP : OrderedOn P) (hkey : P key)
    (h : (inner slots last total).Ordered P) {entry : K × V}
    (hentry : entry ∈ slotsToList (slots.take (lowerBound key slots))) :
    compare entry.1 key = .lt :=
  h.mark_lt_of_mem_take hP hkey (entry_mem_slotsMarks hentry)

/-- The entries behind the child that a key belongs to are above the key. -/
theorem Ordered.gt_of_mem_drop (hP : OrderedOn P) (hkey : P key)
    (h : (inner slots last total).Ordered P) {separator : K} {child : Bucket K V}
    (hslot : slots[lowerBound key slots]? = some (separator, child)) {entry : K × V}
    (hentry : entry ∈ slotsToList (slots.drop (lowerBound key slots + 1)) ++ last.toList) :
    compare entry.1 key = .gt := by
  have hentrykey : P entry.1 := by
    refine h.toList_keys entry ?_
    rw [toList_inner_of_getElem? hslot]
    exact List.mem_append_right _ (List.mem_append_right _ hentry)
  have hmark :
      Mark.entry entry.1 ∈ slotsMarks (slots.drop (lowerBound key slots + 1)) ++ last.marks :=
    List.mem_append.2 ((List.mem_append.1 hentry).imp entry_mem_slotsMarks entry_mem_marks)
  rw [hP.gt_iff_lt hentrykey hkey]
  exact h.entry_before_of_mem_drop hP hkey hslot hmark

/-- A key that no separator reaches is above all entries but those of the last child. -/
theorem Ordered.mark_lt_of_mem_slots (hP : OrderedOn P) (hkey : P key)
    (h : (inner slots last total).Ordered P) (hslot : slots[lowerBound key slots]? = none)
    {mark : Mark K} (hmark : mark ∈ slotsMarks slots) : compare mark.key key = .lt := by
  refine h.mark_lt_of_mem_take hP hkey ?_
  rwa [List.take_of_length_le (List.getElem?_eq_none_iff.1 hslot)]

theorem Ordered.lt_of_mem_slots (hP : OrderedOn P) (hkey : P key)
    (h : (inner slots last total).Ordered P) (hslot : slots[lowerBound key slots]? = none)
    {entry : K × V} (hentry : entry ∈ slotsToList slots) : compare entry.1 key = .lt :=
  h.mark_lt_of_mem_slots hP hkey hslot (entry_mem_slotsMarks hentry)

end Bucket

end SnapshotStore
