import SnapshotStore.Proofs.SortedMap.Ordered

/-!
# Looking up and replacing in a tree

An ordered tree finds the entry of a key where a look-up in the list of its entries finds it, and it
replaces a value exactly under the keys that it holds.
-/

namespace SnapshotStore.Bucket

open SortedMap (lowerBound find? StrictlyAscending)

variable {K V : Type}

/-! ### One child in place of another -/

theorem toList_inner_set {slots : List (K × Bucket K V)} {last : Bucket K V} {total place : Nat}
    {slot : K × Bucket K V} (h : slots[place]? = some slot) (separator : K) (child : Bucket K V) :
    (inner (slots.set place (separator, child)) last total).toList = slotsToList (slots.take place)
      ++ (child.toList ++ (slotsToList (slots.drop (place + 1)) ++ last.toList)) := by
  have hplace : place < slots.length := (List.getElem?_eq_some_iff.1 h).1
  rw [toList_inner_of_getElem? (List.getElem?_set_self hplace), List.take_set_of_le (Nat.le_refl _),
    List.drop_set_of_lt (Nat.lt_succ_self _)]

theorem marks_inner_set {slots : List (K × Bucket K V)} {last : Bucket K V} {total place : Nat}
    {slot : K × Bucket K V} (h : slots[place]? = some slot) (separator : K) (child : Bucket K V) :
    (inner (slots.set place (separator, child)) last total).marks = slotsMarks (slots.take place) ++
      (child.marks ++ .separator separator ::
        (slotsMarks (slots.drop (place + 1)) ++ last.marks)) := by
  have hplace : place < slots.length := (List.getElem?_eq_some_iff.1 h).1
  rw [marks_inner_of_getElem? (List.getElem?_set_self hplace), List.take_set_of_le (Nat.le_refl _),
    List.drop_set_of_lt (Nat.lt_succ_self _)]

variable [Ord K] {P : K → Prop} {b : Bucket K V} {slots : List (K × Bucket K V)} {last : Bucket K V}
  {total : Nat} {key : K} {value : V}

/-- What a key does not meet in the child that it belongs to, it meets nowhere. -/
theorem Ordered.compare_ne_of_child (hP : OrderedOn P) (hkey : P key)
    (h : (inner slots last total).Ordered P) {separator : K} {child : Bucket K V}
    (hslot : slots[lowerBound key slots]? = some (separator, child))
    (habsent : ∀ entry ∈ child.toList, compare entry.1 key ≠ .eq) :
    ∀ entry ∈ (inner slots last total).toList, compare entry.1 key ≠ .eq := by
  intro entry hentry
  rw [toList_inner_of_getElem? hslot] at hentry
  rcases List.mem_append.1 hentry with hentry | hentry
  · rw [h.lt_of_mem_take hP hkey hentry]
    decide
  rcases List.mem_append.1 hentry with hentry | hentry
  · exact habsent entry hentry
  · rw [h.gt_of_mem_drop hP hkey hslot hentry]
    decide

theorem Ordered.compare_ne_of_last (hP : OrderedOn P) (hkey : P key)
    (h : (inner slots last total).Ordered P) (hslot : slots[lowerBound key slots]? = none)
    (habsent : ∀ entry ∈ last.toList, compare entry.1 key ≠ .eq) :
    ∀ entry ∈ (inner slots last total).toList, compare entry.1 key ≠ .eq := by
  intro entry hentry
  rw [toList] at hentry
  rcases List.mem_append.1 hentry with hentry | hentry
  · rw [h.lt_of_mem_slots hP hkey hslot hentry]
    decide
  · exact habsent entry hentry

theorem Ordered.toList_insert_child (hP : OrderedOn P) (hkey : P key)
    (h : (inner slots last total).Ordered P) {separator : K} {child changed : Bucket K V}
    (hslot : slots[lowerBound key slots]? = some (separator, child))
    (hchanged : changed.toList = Entries.insert key value child.toList) (upper : K) (sum : Nat) :
    (inner (slots.set (lowerBound key slots) (upper, changed)) last sum).toList =
      Entries.insert key value (inner slots last total).toList := by
  rw [toList_inner_set hslot, toList_inner_of_getElem? hslot, hchanged,
    Entries.insert_append_of_lt fun entry hentry => h.lt_of_mem_take hP hkey hentry,
    Entries.insert_append_of_gt fun entry hentry => h.gt_of_mem_drop hP hkey hslot hentry]

theorem Ordered.toList_insert_last (hP : OrderedOn P) (hkey : P key)
    (h : (inner slots last total).Ordered P) {changed : Bucket K V}
    (hslot : slots[lowerBound key slots]? = none)
    (hchanged : changed.toList = Entries.insert key value last.toList) (sum : Nat) :
    (inner slots changed sum).toList =
      Entries.insert key value (inner slots last total).toList := by
  rw [toList, toList, hchanged, Entries.insert_append_of_lt fun entry hentry =>
    h.lt_of_mem_slots hP hkey hslot hentry]

/-! ### Looking up -/

theorem Ordered.get?_eq (hP : OrderedOn P) (hkey : P key) (h : b.Ordered P) :
    b.get? key = Entries.get? key b.toList := by
  fun_induction get? key b with
  | case1 entries =>
    rw [toList]
    cases hfound : find? key entries with
    | none =>
      refine (Entries.get?_eq_none_iff.2 fun entry hentry => ?_).symm
      exact SortedMap.compare_ne_of_find?_eq_none hP hkey h.toList_keys h.strictlyAscending hfound
        hentry
    | some place =>
      obtain ⟨entry, hentry, heq⟩ := SortedMap.compare_of_find?_eq_some hfound
      have hvalue := Entries.get?_eq_some_of_mem hP hkey h.toList_keys h.strictlyAscending
        (List.mem_of_getElem? hentry) heq
      rw [toList] at hvalue
      rw [Option.bind_some, hentry, hvalue, Option.map_some]
  | case2 slots last total separator child hslot ih =>
    rw [ih (h.child hslot), toList_inner_of_getElem? hslot, Entries.get?_append_of_ne_left,
      Entries.get?_append_of_ne_right]
    · intro entry hentry
      rw [h.gt_of_mem_drop hP hkey hslot hentry]
      decide
    · intro entry hentry
      rw [h.lt_of_mem_take hP hkey hentry]
      decide
  | case3 slots last total hslot ih =>
    rw [ih h.last_child, toList, Entries.get?_append_of_ne_left]
    intro entry hentry
    rw [h.lt_of_mem_slots hP hkey hslot hentry]
    decide

/-! ### Replacing -/

theorem Ordered.compare_ne_of_replace?_eq_none (hP : OrderedOn P) (hkey : P key) (h : b.Ordered P)
    (hnone : b.replace? key value = none) : ∀ entry ∈ b.toList, compare entry.1 key ≠ .eq := by
  fun_induction replace? key value b with
  | case1 entries =>
    intro entry hentry
    exact SortedMap.compare_ne_of_find?_eq_none hP hkey h.toList_keys h.strictlyAscending
      (Option.map_eq_none_iff.1 hnone) hentry
  | case2 slots last total place separator child hslot ih =>
    exact h.compare_ne_of_child hP hkey hslot (ih (h.child hslot) (Option.map_eq_none_iff.1 hnone))
  | case3 slots last total place hslot ih =>
    exact h.compare_ne_of_last hP hkey hslot (ih h.last_child (Option.map_eq_none_iff.1 hnone))

theorem marks_replace? {c : Bucket K V} (h : b.replace? key value = some c) :
    c.marks = b.marks := by
  revert c
  fun_induction replace? key value b with
  | case1 entries =>
    intro c h
    obtain ⟨place, _, rfl⟩ := Option.map_eq_some_iff.1 h
    rw [marks, marks]
    refine List.ext_getElem? fun i => ?_
    rw [List.getElem?_map, List.getElem?_map, List.getElem?_modify]
    cases entries[i]? with
    | none => rfl
    | some entry => by_cases hplace : place = i <;> simp [hplace]
  | case2 slots last total place separator child hslot =>
    rename_i ih
    intro c h
    obtain ⟨changed, hchanged, rfl⟩ := Option.map_eq_some_iff.1 h
    rw [marks_inner_set hslot, marks_inner_of_getElem? hslot, ih hchanged]
  | case3 slots last total place hslot =>
    rename_i ih
    intro c h
    obtain ⟨changed, hchanged, rfl⟩ := Option.map_eq_some_iff.1 h
    rw [marks, marks, ih hchanged]

/-- A leaf that holds a key takes its new value in place. -/
theorem modify_eq_insert (hP : OrderedOn P) (hkey : P key) {entries : List (K × V)}
    (hkeys : ∀ entry ∈ entries, P entry.1) (hsorted : StrictlyAscending entries) {place : Nat}
    {entry : K × V} (hentry : entries[place]? = some entry) (heq : compare entry.1 key = .eq) :
    (entries.modify place fun entry => (entry.1, value)) = Entries.insert key value entries := by
  have hplace : place < entries.length := (List.getElem?_eq_some_iff.1 hentry).1
  have hsplit := eq_take_append_cons_drop hentry
  have hpairs : StrictlyAscending (entries.take place ++ entry :: entries.drop (place + 1)) :=
    hsplit ▸ hsorted
  have hmem : entry ∈ entries := List.mem_of_getElem? hentry
  have hbefore : ∀ other ∈ entries.take place, compare other.1 key = .lt := by
    intro other hother
    rw [← hP.congr_right (hkeys other (List.mem_of_mem_take hother)) (hkeys entry hmem) hkey heq]
    exact (List.pairwise_append.1 hpairs).2.2 other hother entry List.mem_cons_self
  rw [List.modify_eq_take_cons_drop hplace]
  conv => rhs; rw [hsplit]
  rw [Entries.insert_append_of_lt hbefore, Entries.insert, heq,
    (List.getElem?_eq_some_iff.1 hentry).2]

theorem Ordered.toList_replace? (hP : OrderedOn P) (hkey : P key) (h : b.Ordered P) {c : Bucket K V}
    (hsome : b.replace? key value = some c) : c.toList = Entries.insert key value b.toList := by
  fun_induction replace? key value b generalizing c with
  | case1 entries =>
    obtain ⟨place, hfound, rfl⟩ := Option.map_eq_some_iff.1 hsome
    obtain ⟨entry, hentry, heq⟩ := SortedMap.compare_of_find?_eq_some hfound
    exact modify_eq_insert hP hkey h.toList_keys h.strictlyAscending hentry heq
  | case2 slots last total place separator child hslot ih =>
    obtain ⟨changed, hchanged, rfl⟩ := Option.map_eq_some_iff.1 hsome
    exact h.toList_insert_child hP hkey hslot (ih (h.child hslot) hchanged) separator total
  | case3 slots last total place hslot ih =>
    obtain ⟨changed, hchanged, rfl⟩ := Option.map_eq_some_iff.1 hsome
    exact h.toList_insert_last hP hkey hslot (ih h.last_child hchanged) total

end SnapshotStore.Bucket
