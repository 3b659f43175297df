import SnapshotStore.Proofs.SortedMap.Lookup

/-!
# Taking an entry out of a tree

Removal takes an entry, and with an emptied child the separator above it, out of the walk over the
tree. What is left of a walk in order is in order.
-/

namespace SnapshotStore.Bucket

open SortedMap (lowerBound find? StrictlyAscending)

variable {K V : Type} [Ord K] {P : K → Prop} {b child : Bucket K V} {slots : List (K × Bucket K V)}
  {last : Bucket K V} {total : Nat} {key separator : K}

/-- What is left of a bucket has the entries that removal leaves in a list of entries. -/
def Remainder.Removes (key : K) (b : Bucket K V) : Remainder K V → Prop
  | .unchanged => ∀ entry ∈ b.toList, compare entry.1 key ≠ .eq
  | .nothing => Entries.erase key b.toList = []
  | .bucket rest => rest.toList = Entries.erase key b.toList ∧ rest.marks.Sublist b.marks

theorem removes_relink {slots' : List (K × Bucket K V)} {last' : Bucket K V} {sum : Nat}
    (htoList : slotsToList slots' ++ last'.toList = Entries.erase key b.toList)
    (hmarks : (slotsMarks slots' ++ last'.marks).Sublist b.marks) :
    (relink slots' last' sum).Removes key b := by
  unfold relink
  split
  · next hempty =>
    rw [List.isEmpty_iff.1 hempty, slotsToList, List.nil_append] at htoList
    exact ⟨htoList, (List.sublist_append_right _ _).trans hmarks⟩
  · exact ⟨htoList, hmarks⟩

/-! ### Leaves -/

theorem erase_eq_eraseIdx (hP : OrderedOn P) (hkey : P key) {entries : List (K × V)}
    (hkeys : ∀ entry ∈ entries, P entry.1) (hsorted : StrictlyAscending entries) {place : Nat}
    {entry : K × V} (hentry : entries[place]? = some entry) (heq : compare entry.1 key = .eq) :
    Entries.erase key entries = entries.eraseIdx place := by
  have hsplit := eq_take_append_cons_drop hentry
  have hpairs : StrictlyAscending (entries.take place ++ entry :: entries.drop (place + 1)) :=
    hsplit ▸ hsorted
  have hentrykey : P entry.1 := hkeys entry (List.mem_of_getElem? hentry)
  have hbefore : ∀ other ∈ entries.take place, compare other.1 key ≠ .eq := by
    intro other hother
    rw [← hP.congr_right (hkeys other (List.mem_of_mem_take hother)) hentrykey hkey heq,
      (List.pairwise_append.1 hpairs).2.2 other hother entry List.mem_cons_self]
    decide
  have hbehind : ∀ other ∈ entries.drop (place + 1), compare other.1 key ≠ .eq := by
    intro other hother hsame
    have habove := (List.pairwise_cons.1 (List.pairwise_append.1 hpairs).2.1).1 other hother
    rw [hP.congr_right hentrykey (hkeys other (List.mem_of_mem_drop hother)) hkey hsame,
      heq] at habove
    cases habove
  have hone : Entries.erase key [entry] = [] := by
    rw [Entries.erase, List.filter_cons, heq]
    rfl
  rw [List.eraseIdx_eq_take_drop_succ]
  conv => lhs; rw [hsplit]
  rw [← List.singleton_append, Entries.erase_append, Entries.erase_append,
    Entries.erase_eq_self hbefore, Entries.erase_eq_self hbehind, hone, List.nil_append]

/-! ### Inner buckets -/

theorem Ordered.erase_toList_child (hP : OrderedOn P) (hkey : P key)
    (h : (inner slots last total).Ordered P)
    (hslot : slots[lowerBound key slots]? = some (separator, child)) :
    Entries.erase key (inner slots last total).toList =
      slotsToList (slots.take (lowerBound key slots)) ++
        (Entries.erase key child.toList ++
          (slotsToList (slots.drop (lowerBound key slots + 1)) ++ last.toList)) := by
  rw [toList_inner_of_getElem? hslot, Entries.erase_append, Entries.erase_append]
  have hbefore :
      ∀ entry ∈ slotsToList (slots.take (lowerBound key slots)), compare entry.1 key ≠ .eq := by
    intro entry hentry
    rw [h.lt_of_mem_take hP hkey hentry]
    decide
  have hbehind : ∀ entry ∈ slotsToList (slots.drop (lowerBound key slots + 1)) ++ last.toList,
      compare entry.1 key ≠ .eq := by
    intro entry hentry
    rw [h.gt_of_mem_drop hP hkey hslot hentry]
    decide
  rw [Entries.erase_eq_self hbefore, Entries.erase_eq_self hbehind]

theorem Ordered.erase_toList_last (hP : OrderedOn P) (hkey : P key)
    (h : (inner slots last total).Ordered P) (hslot : slots[lowerBound key slots]? = none) :
    Entries.erase key (inner slots last total).toList =
      slotsToList slots ++ Entries.erase key last.toList := by
  have hbefore : ∀ entry ∈ slotsToList slots, compare entry.1 key ≠ .eq := by
    intro entry hentry
    rw [h.lt_of_mem_slots hP hkey hslot hentry]
    decide
  rw [toList, Entries.erase_append, Entries.erase_eq_self hbefore]

/-- The child of a key has changed. -/
theorem removes_child (hP : OrderedOn P) (hkey : P key) (h : (inner slots last total).Ordered P)
    (hslot : slots[lowerBound key slots]? = some (separator, child)) {rest : Bucket K V}
    (hrest : (Remainder.bucket rest).Removes key child) (sum : Nat) :
    (relink (slots.set (lowerBound key slots) (separator, rest)) last sum).Removes key
      (inner slots last total) := by
  obtain ⟨htoList, hmarks⟩ := hrest
  refine removes_relink ?_ ?_
  · rw [h.erase_toList_child hP hkey hslot, ← htoList]
    exact (toList_inner_set hslot separator rest : (inner _ last total).toList = _)
  · rw [marks_inner_of_getElem? hslot]
    have hset : (inner (slots.set (lowerBound key slots) (separator, rest)) last total).marks = _ :=
      marks_inner_set hslot separator rest
    rw [← marks, hset]
    exact (hmarks.append_right _).append_left _

/-- The child of a key has disappeared, and the separator above it with it. -/
theorem removes_unlinked (hP : OrderedOn P) (hkey : P key) (h : (inner slots last total).Ordered P)
    (hslot : slots[lowerBound key slots]? = some (separator, child))
    (hnothing : Entries.erase key child.toList = []) (sum : Nat) :
    (relink (slots.eraseIdx (lowerBound key slots)) last sum).Removes key
      (inner slots last total) := by
  refine removes_relink ?_ ?_
  · rw [h.erase_toList_child hP hkey hslot, hnothing, List.nil_append,
      List.eraseIdx_eq_take_drop_succ, slotsToList_append, List.append_assoc]
  · rw [marks_inner_of_getElem? hslot, List.eraseIdx_eq_take_drop_succ, slotsMarks_append,
      List.append_assoc]
    exact ((List.sublist_cons_self _ _).trans (List.sublist_append_right _ _)).append_left _

theorem removes_last (hP : OrderedOn P) (hkey : P key) (h : (inner slots last total).Ordered P)
    (hslot : slots[lowerBound key slots]? = none) {rest : Bucket K V}
    (hrest : (Remainder.bucket rest).Removes key last) (sum : Nat) :
    (relink slots rest sum).Removes key (inner slots last total) := by
  obtain ⟨htoList, hmarks⟩ := hrest
  refine removes_relink ?_ ?_
  · rw [h.erase_toList_last hP hkey hslot, htoList]
  · rw [marks]
    exact hmarks.append_left _

/-- The last child has disappeared, and the child before it takes its place. -/
theorem removes_unlinked_last (hP : OrderedOn P) (hkey : P key)
    (h : (inner slots last total).Ordered P) (hslot : slots[lowerBound key slots]? = none)
    (hnothing : Entries.erase key last.toList = [])
    (hbefore : slots.getLast? = some (separator, child)) (sum : Nat) :
    (relink slots.dropLast child sum).Removes key (inner slots last total) := by
  have herase := h.erase_toList_last hP hkey hslot
  obtain ⟨others, rfl⟩ := List.getLast?_eq_some_iff.1 hbefore
  rw [List.dropLast_concat]
  refine removes_relink ?_ ?_
  · rw [herase, hnothing, slotsToList_append, slotsToList, slotsToList, List.append_nil,
      List.append_nil]
  · rw [marks, slotsMarks_append, slotsMarks, slotsMarks, List.append_assoc]
    exact ((List.sublist_append_left _ _).trans (List.sublist_append_left _ _)).append_left _

/-! ### The whole tree -/

theorem Ordered.removes_erase (hP : OrderedOn P) (hkey : P key) (h : b.Ordered P) :
    (b.erase key).Removes key b := by
  fun_induction erase key b with
  | case1 entries hfound =>
    exact fun entry hentry => SortedMap.compare_ne_of_find?_eq_none hP hkey h.toList_keys
      h.strictlyAscending hfound hentry
  | case2 entries place hfound hone =>
    obtain ⟨entry, hentry, heq⟩ := SortedMap.compare_of_find?_eq_some hfound
    obtain ⟨only, rfl⟩ := List.length_eq_one_iff.1 hone
    rw [List.mem_singleton.1 (List.mem_of_getElem? hentry)] at heq
    rw [Remainder.Removes, toList, Entries.erase, List.filter_cons, heq]
    rfl
  | case3 entries place hfound hmore =>
    obtain ⟨entry, hentry, heq⟩ := SortedMap.compare_of_find?_eq_some hfound
    have herase := erase_eq_eraseIdx hP hkey h.toList_keys h.strictlyAscending hentry heq
    exact ⟨herase.symm, (List.eraseIdx_sublist _ _).map _⟩
  | case4 slots last total place separator child hslot herase ih =>
    rw [herase] at ih
    exact h.compare_ne_of_child hP hkey hslot (ih (h.child hslot))
  | case5 slots last total place separator child hslot rest herase ih =>
    rw [herase] at ih
    exact removes_child hP hkey h hslot (ih (h.child hslot)) (total - 1)
  | case6 slots last total place separator child hslot herase ih =>
    rw [herase] at ih
    exact removes_unlinked hP hkey h hslot (ih (h.child hslot)) (total - 1)
  | case7 slots last total place hslot herase ih =>
    rw [herase] at ih
    exact h.compare_ne_of_last hP hkey hslot (ih h.last_child)
  | case8 slots last total place hslot rest herase ih =>
    rw [herase] at ih
    exact removes_last hP hkey h hslot (ih h.last_child) (total - 1)
  | case9 slots last total place hslot herase separator child hbefore ih =>
    rw [herase] at ih
    exact removes_unlinked_last hP hkey h hslot (ih h.last_child) hbefore (total - 1)
  | case10 slots last total place hslot herase hbefore ih =>
    rw [herase] at ih
    rw [Remainder.Removes, h.erase_toList_last hP hkey hslot, ih h.last_child,
      List.getLast?_eq_none_iff.1 hbefore]
    rfl

end SnapshotStore.Bucket
