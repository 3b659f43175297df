import SnapshotStore.Proofs.SortedMap.Filled

/-!
# The sizes of buckets

A bucket holds one to eight slots, and an inner bucket knows the number of entries below it. An
entry is only placed in a bucket that has room: a leaf with a free slot, or an inner bucket that has
one or whose child on the way need not be split. Splitting a full child takes a slot and leaves that
room below.
-/

namespace SnapshotStore.Bucket

open SortedMap (lowerBound find?)

variable {K V : Type}

/-- A bucket of one to eight slots, with its number of entries, above buckets of that kind. -/
inductive Proper : Bucket K V → Prop where
  | of_leaf {entries : List (K × V)} (hsome : entries ≠ []) (hroom : entries.length ≤ capacity) :
      Proper (leaf entries)
  | of_inner {slots : List (K × Bucket K V)} {last : Bucket K V} {total : Nat}
      (hsome : slots ≠ []) (hroom : slots.length ≤ capacity)
      (hslots : ∀ slot ∈ slots, Proper slot.2) (hlast : Proper last)
      (htotal : total = (inner slots last total).toList.length) : Proper (inner slots last total)

variable {b low high child : Bucket K V} {slots slots' : List (K × Bucket K V)}
  {last last' : Bucket K V} {total place : Nat} {separator : K}

namespace Proper

theorem of_mem_slots (h : (inner slots last total).Proper) : ∀ slot ∈ slots, slot.2.Proper := by
  cases h with
  | of_inner _ _ hslots => exact hslots

theorem of_getElem? (h : (inner slots last total).Proper)
    (hslot : slots[place]? = some (separator, child)) : child.Proper :=
  h.of_mem_slots (separator, child) (List.mem_of_getElem? hslot)

theorem last_child (h : (inner slots last total).Proper) : last.Proper := by
  cases h with
  | of_inner _ _ _ hlast => exact hlast

theorem total_eq (h : b.Proper) : b.total = b.toList.length := by
  cases h with
  | of_leaf => simp [total, toList]
  | of_inner _ _ _ _ htotal => exact htotal

theorem ne_nil (h : (inner slots last total).Proper) : slots ≠ [] := by
  cases h with
  | of_inner hsome => exact hsome

theorem count_le (h : b.Proper) : b.count ≤ capacity := by
  cases h with
  | of_leaf _ hroom => exact hroom
  | of_inner _ hroom => exact hroom

theorem count_lt (h : b.Proper) (hfull : b.isFull = false) : b.count < capacity := by
  have := h.count_le
  simp [isFull] at hfull
  omega

theorem filled (h : b.Proper) : b.Filled := by
  induction h with
  | of_leaf hsome => exact .of_leaf hsome
  | of_inner _ _ _ _ _ hslots hlast => exact .of_inner hslots hlast

theorem total_pos (h : b.Proper) : 0 < b.total := by
  rw [h.total_eq]
  exact List.length_pos_iff.2 h.filled.toList_ne_nil

theorem totalOf_eq (hslots : ∀ slot ∈ slots, slot.2.Proper) :
    totalOf (slots.map Prod.snd) = (slotsToList slots).length := by
  induction slots with
  | nil => rfl
  | cons slot slots ih =>
    obtain ⟨hslot, hslots⟩ := List.forall_mem_cons.1 hslots
    simp [totalOf, slotsToList, hslot.total_eq, ← ih hslots]

theorem join (hsome : slots ≠ []) (hroom : slots.length ≤ capacity)
    (hslots : ∀ slot ∈ slots, slot.2.Proper) (hlast : last.Proper) :
    (Bucket.join slots last).Proper := by
  apply of_inner hsome hroom hslots hlast
  simp [toList, totalOf_eq hslots, hlast.total_eq]

/-! ### Splitting -/

theorem split (h : b.Proper) (hfull : b.isFull)
    (hsplit : b.split? = some (separator, low, high)) : low.Proper ∧ high.Proper := by
  have hcount : b.count = 8 := by simpa [isFull, capacity] using hfull
  cases b with
  | leaf entries =>
    obtain ⟨entry, _, heq⟩ := Option.map_eq_some_iff.1 hsplit
    cases heq
    rw [count] at hcount
    constructor
    all_goals
      apply of_leaf
      · rw [← List.length_pos_iff]; simp [hcount]
      · simp [hcount, capacity]
  | inner slots last total =>
    obtain ⟨slot, hslot, heq⟩ := Option.map_eq_some_iff.1 hsplit
    cases heq
    rw [count] at hcount
    constructor
    · apply join
      · rw [← List.length_pos_iff]; simp [hcount]
      · simp [hcount, capacity]
      · exact fun slot hmem => h.of_mem_slots slot (List.mem_of_mem_take hmem)
      · exact h.of_getElem? hslot
    · apply join
      · rw [← List.length_pos_iff]; simp [hcount]
      · simp [hcount, capacity]
      · exact fun slot hmem => h.of_mem_slots slot (List.mem_of_mem_drop hmem)
      · exact h.last_child

/-- The bucket over the two halves of a root. -/
theorem join_split (h : b.Proper) (hfull : b.isFull)
    (hsplit : b.split? = some (separator, low, high)) :
    (Bucket.join [(separator, low)] high).Proper := by
  obtain ⟨hlow, hhigh⟩ := h.split hfull hsplit
  refine join (List.cons_ne_nil _ _) (Nat.le_add_left 1 7) (fun slot hslot => ?_) hhigh
  rw [List.mem_singleton.1 hslot]
  exact hlow

/-- Splitting a child takes one more slot. -/
theorem length_splitAt (hsplit : splitAt? slots last place = some (slots', last')) :
    slots'.length = slots.length + 1 := by
  unfold splitAt? at hsplit
  split at hsplit
  · next upper child hslot =>
    obtain ⟨⟨separator, low, high⟩, _, heq⟩ := Option.map_eq_some_iff.1 hsplit
    cases heq
    have := (List.getElem?_eq_some_iff.1 hslot).1
    simp
    omega
  · obtain ⟨⟨separator, low, high⟩, _, heq⟩ := Option.map_eq_some_iff.1 hsplit
    cases heq
    simp

theorem splitAt (h : (inner slots last total).Proper) (hroom : slots.length < capacity)
    (hfull : ((slots[place]?.map Prod.snd).getD last).isFull)
    (hsplit : splitAt? slots last place = some (slots', last')) :
    (inner slots' last' total).Proper := by
  have hlength := length_splitAt hsplit
  have htotal : total = (inner slots' last' total).toList.length := by
    rw [toList_splitAt hsplit total total]
    exact h.total_eq
  obtain ⟨hslots, hlast⟩ := forall_splitAt hfull hsplit
    (fun hfull hsplit h => split h hfull hsplit) h.of_mem_slots h.last_child
  exact of_inner (List.length_pos_iff.1 (by omega)) (by omega) hslots hlast htotal

/-- A half of a full child has room. -/
theorem isFull_splitAt (hfull : ((slots[place]?.map Prod.snd).getD last).isFull)
    (hsplit : splitAt? slots last place = some (slots', last')) (hplace : place ≤ slots.length)
    {half : Nat} (hhalf : half = place ∨ half = place + 1) :
    ((slots'[half]?.map Prod.snd).getD last').isFull = false := by
  unfold splitAt? at hsplit
  split at hsplit
  · next upper child hslot =>
    obtain ⟨⟨separator, low, high⟩, hhalves, heq⟩ := Option.map_eq_some_iff.1 hsplit
    cases heq
    rw [hslot] at hfull
    obtain ⟨hlow, hhigh, _⟩ := load_split hfull hhalves
    rcases hhalf with rfl | rfl <;> simp [hplace, hlow, hhigh]
  · next hslot =>
    obtain ⟨⟨separator, low, high⟩, hhalves, heq⟩ := Option.map_eq_some_iff.1 hsplit
    cases heq
    rw [hslot] at hfull
    obtain ⟨hlow, hhigh, _⟩ := load_split hfull hhalves
    have hend : place = slots.length := by
      have := List.getElem?_eq_none_iff.1 hslot
      omega
    rcases hhalf with rfl | rfl <;> simp [hend, hlow, hhigh]

/-! ### One child in place of another -/

/-- A child may be exchanged if the number of entries follows. -/
theorem set_slot (h : (inner slots last total).Proper)
    (hslot : slots[place]? = some (separator, child)) {changed : Bucket K V}
    (hchanged : changed.Proper) {sum : Nat}
    (hsum : sum + child.toList.length = total + changed.toList.length) :
    (inner (slots.set place (separator, changed)) last sum).Proper := by
  have htotal := h.total_eq
  rw [Bucket.total, toList_inner_of_getElem? hslot] at htotal
  cases h with
  | of_inner hsome hroom hslots hlast _ =>
    refine of_inner (by simpa using hsome) (by simpa using hroom) (fun slot hmem => ?_) hlast ?_
    · rcases List.mem_or_eq_of_mem_set hmem with hmem | rfl
      · exact hslots slot hmem
      · exact hchanged
    · rw [toList_inner_set hslot]
      simp only [List.length_append] at htotal ⊢
      omega

theorem set_last (h : (inner slots last total).Proper) {changed : Bucket K V}
    (hchanged : changed.Proper) {sum : Nat}
    (hsum : sum + last.toList.length = total + changed.toList.length) :
    (inner slots changed sum).Proper := by
  cases h with
  | of_inner hsome hroom hslots _ htotal =>
    apply of_inner hsome hroom hslots hchanged
    simp only [toList, List.length_append] at htotal ⊢
    omega

end Proper

/-! ### Replacing -/

variable [Ord K] {P : K → Prop} {key : K} {value : V}

theorem length_toList_replace? {c : Bucket K V} (h : b.replace? key value = some c) :
    c.toList.length = b.toList.length := by
  fun_induction Bucket.replace? key value b generalizing c with
  | case1 entries =>
    obtain ⟨place, _, rfl⟩ := Option.map_eq_some_iff.1 h
    simp [toList]
  | case2 slots last total place separator child hslot =>
    rename_i ih
    obtain ⟨changed, hchanged, rfl⟩ := Option.map_eq_some_iff.1 h
    rw [toList_inner_set hslot, toList_inner_of_getElem? hslot]
    simp [ih hchanged]
  | case3 slots last total place hslot =>
    rename_i ih
    obtain ⟨changed, hchanged, rfl⟩ := Option.map_eq_some_iff.1 h
    simp [toList, ih hchanged]

theorem Proper.replace? {c : Bucket K V} (h : b.Proper) (hsome : b.replace? key value = some c) :
    c.Proper := by
  fun_induction Bucket.replace? key value b generalizing c with
  | case1 entries =>
    obtain ⟨place, _, rfl⟩ := Option.map_eq_some_iff.1 hsome
    cases h with
    | of_leaf hentries hroom =>
      exact .of_leaf (by rwa [← List.length_pos_iff, List.length_modify, List.length_pos_iff])
        (by rwa [List.length_modify])
  | case2 slots last total place separator child hslot =>
    rename_i ih
    obtain ⟨changed, hchanged, rfl⟩ := Option.map_eq_some_iff.1 hsome
    apply h.set_slot hslot (ih (h.of_getElem? hslot) hchanged)
    rw [length_toList_replace? hchanged]
  | case3 slots last total place hslot =>
    rename_i ih
    obtain ⟨changed, hchanged, rfl⟩ := Option.map_eq_some_iff.1 hsome
    apply h.set_last (ih h.last_child hchanged)
    rw [length_toList_replace? hchanged]

/-! ### Inserting -/

/-- An entry of a key can be placed below the bucket without splitting the bucket itself. -/
def Room (key : K) : Bucket K V → Prop
  | leaf entries => entries.length < capacity
  | inner slots last _ =>
    slots.length < capacity ∨
      ((slots[lowerBound key slots]?.map Prod.snd).getD last).isFull = false

theorem Proper.room (h : b.Proper) (hfull : b.isFull = false) : b.Room key := by
  cases b with
  | leaf entries => exact h.count_lt hfull
  | inner slots last total => exact .inl (h.count_lt hfull)

theorem le_lowerBound (hP : OrderedOn P) (hkey : P key) (hkeys : ∀ slot ∈ slots, P slot.1)
    (hsorted : SortedMap.Ascending slots)
    (hbelow : ∀ slot ∈ slots.take place, compare slot.1 key = .lt) (hplace : place ≤ slots.length) :
    place ≤ lowerBound key slots := by
  cases place with
  | zero => exact Nat.zero_le _
  | succ before =>
    have hslot : slots[before]? = some slots[before] := List.getElem?_eq_getElem _
    refine (SortedMap.lt_lowerBound_iff hP hkey hkeys hsorted before).2 ⟨_, hslot, ?_⟩
    exact hbelow _ (List.mem_take_iff_getElem.2 ⟨before, by omega, rfl⟩)

/-- Once the child that a key belongs to has been split, the key belongs to one of the halves. -/
theorem lowerBound_splitAt (hP : OrderedOn P) (hkey : P key)
    (h : (inner slots last total).Ordered P)
    (hsplit : splitAt? slots last (lowerBound key slots) = some (slots', last')) :
    lowerBound key slots' = lowerBound key slots ∨
      lowerBound key slots' = lowerBound key slots + 1 := by
  have h' : (inner slots' last' total).Ordered P :=
    h.of_refined hP (refined_splitAt hsplit total total)
  have hle := SortedMap.lowerBound_le_length hP hkey h.slots_keys h.ascending_slots
  have hle' := SortedMap.lowerBound_le_length hP hkey h'.slots_keys h'.ascending_slots
  have hbelow : ∀ slot ∈ slots.take (lowerBound key slots), compare slot.1 key = .lt :=
    fun slot => SortedMap.lt_of_mem_take_lowerBound hP hkey h.slots_keys h.ascending_slots
  have hlength := Proper.length_splitAt hsplit
  have hlow : slots'.take (lowerBound key slots) = slots.take (lowerBound key slots) →
      lowerBound key slots ≤ lowerBound key slots' := fun htake =>
    le_lowerBound hP hkey h'.slots_keys h'.ascending_slots (htake ▸ hbelow) (by omega)
  unfold splitAt? at hsplit
  split at hsplit
  · next upper child hslot =>
    obtain ⟨⟨separator, low, high⟩, _, heq⟩ := Option.map_eq_some_iff.1 hsplit
    cases heq
    replace hlow := hlow (by simp [hle])
    have hhigh : ¬ lowerBound key slots + 1 < lowerBound key
        (slots.take (lowerBound key slots) ++ (separator, low) :: (upper, high) ::
          slots.drop (lowerBound key slots + 1)) := by
      intro hlt
      obtain ⟨slot, hslot', hlt⟩ :=
        (SortedMap.lt_lowerBound_iff hP hkey h'.slots_keys h'.ascending_slots _).1 hlt
      have hupper : slot = (upper, high) := by simpa [hle] using hslot'.symm
      have hdrop : (upper, child) ∈ slots.drop (lowerBound key slots) :=
        List.mem_of_getElem? (by rw [List.getElem?_drop, Nat.add_zero, hslot])
      rw [hupper] at hlt
      exact SortedMap.not_lt_of_mem_drop_lowerBound hP hkey h.slots_keys h.ascending_slots hdrop hlt
    omega
  · next hslot =>
    have hall := List.getElem?_eq_none_iff.1 hslot
    obtain ⟨⟨separator, low, high⟩, _, heq⟩ := Option.map_eq_some_iff.1 hsplit
    cases heq
    replace hlow := hlow (List.take_append_of_le_length hle)
    omega

theorem Ordered.length_insert (hP : OrderedOn P) (hkey : P key) (h : b.Ordered P)
    (habsent : ∀ entry ∈ b.toList, compare entry.1 key ≠ .eq) :
    (b.insert key value).toList.length = b.toList.length + 1 := by
  rw [(h.grown_insert hP hkey habsent).toList, Entries.length_insert habsent]

theorem Proper.insert (hP : OrderedOn P) (hkey : P key) (hordered : b.Ordered P)
    (habsent : ∀ entry ∈ b.toList, compare entry.1 key ≠ .eq) (hroom : b.Room key) (h : b.Proper) :
    (b.insert key value).Proper := by
  fun_induction Bucket.insert key value b with
  | case1 entries =>
    have hle : lowerBound key entries ≤ entries.length := SortedMap.lowerBound_le_length hP hkey
      hordered.toList_keys hordered.strictlyAscending.ascending
    have hlength := List.length_insertIdx_of_le_length hle (key, value)
    exact .of_leaf (List.length_pos_iff.1 (by omega)) (by rw [hlength]; exact hroom)
  | case2 slots last total place hfull slots' last' hsplit ih =>
    have hslots : slots.length < capacity := hroom.resolve_right (by simpa using hfull)
    have hle := SortedMap.lowerBound_le_length hP hkey hordered.slots_keys hordered.ascending_slots
    have hplace := lowerBound_splitAt hP hkey hordered hsplit
    apply ih (hordered.of_refined hP (refined_splitAt hsplit total total))
    · rwa [toList_splitAt hsplit total total]
    · exact .inr (isFull_splitAt hfull hsplit hle hplace)
    · exact h.splitAt hslots hfull hsplit
  | case3 slots last total place hfull hsplit => exact h
  | case4 slots last total place hfull separator child hslot ih =>
    have habsent' : ∀ entry ∈ child.toList, compare entry.1 key ≠ .eq := by
      intro entry hentry
      apply habsent
      rw [toList_inner_of_getElem? hslot]
      exact List.mem_append_right _ (List.mem_append_left _ hentry)
    have hchild : child.isFull = false := by simpa [hslot] using hfull
    apply h.set_slot hslot
    · exact ih (hordered.child hslot) habsent' ((h.of_getElem? hslot).room hchild)
        (h.of_getElem? hslot)
    · rw [(hordered.child hslot).length_insert hP hkey habsent']
      omega
  | case5 slots last total place hfull hslot ih =>
    have habsent' : ∀ entry ∈ last.toList, compare entry.1 key ≠ .eq := by
      intro entry hentry
      apply habsent
      rw [toList]
      exact List.mem_append_right _ hentry
    have hlast : last.isFull = false := by simpa [hslot] using hfull
    apply h.set_last
    · exact ih hordered.last_child habsent' (h.last_child.room hlast) h.last_child
    · rw [hordered.last_child.length_insert hP hkey habsent']
      omega

/-! ### Erasing -/

/-- What is left of a bucket is well-sized and one entry short. -/
def Remainder.Proper (b : Bucket K V) : Remainder K V → Prop
  | .unchanged => True
  | .nothing => b.toList.length = 1
  | .bucket rest => rest.Proper ∧ rest.toList.length + 1 = b.toList.length

omit [Ord K] in
theorem proper_relink (hroom : slots.length ≤ capacity) (hslots : ∀ slot ∈ slots, slot.2.Proper)
    (hlast : last.Proper) (htotal : total = (inner slots last total).toList.length)
    (hlength : total + 1 = b.toList.length) : (relink slots last total).Proper b := by
  unfold relink
  split
  · next hempty =>
    rw [List.isEmpty_iff.1 hempty, toList, slotsToList, List.nil_append] at htotal
    exact ⟨hlast, by omega⟩
  · next hsome =>
    exact ⟨.of_inner (by simpa using hsome) hroom hslots hlast htotal, by omega⟩

theorem Proper.erase (h : b.Proper) : (b.erase key).Proper b := by
  fun_induction Bucket.erase key b with
  | case1 | case4 | case7 => trivial
  | case2 entries place hfound hone => exact hone
  | case3 entries place hfound hmore =>
    obtain ⟨entry, hentry, _⟩ := SortedMap.compare_of_find?_eq_some hfound
    have hplace := (List.getElem?_eq_some_iff.1 hentry).1
    have hlength : (entries.eraseIdx place).length + 1 = entries.length := by
      rw [List.length_eraseIdx_of_lt hplace]
      omega
    have hroom : entries.length ≤ capacity := h.count_le
    exact ⟨.of_leaf (List.length_pos_iff.1 (by omega)) (by omega), hlength⟩
  | case5 slots last total place separator child hslot rest herase ih =>
    rw [herase] at ih
    obtain ⟨hrest, hlength⟩ := ih (h.of_getElem? hslot)
    have htotal : 0 < total := h.total_pos
    have hset : (inner (slots.set place (separator, rest)) last (total - 1)).Proper :=
      h.set_slot hslot hrest (by omega)
    exact proper_relink hset.count_le hset.of_mem_slots hset.last_child hset.total_eq
      (by rw [← h.total_eq, Bucket.total]; omega)
  | case6 slots last total place separator child hslot herase ih =>
    rw [herase] at ih
    have hone : child.toList.length = 1 := ih (h.of_getElem? hslot)
    have htotal := h.total_eq
    have hroom : slots.length ≤ capacity := h.count_le
    rw [Bucket.total, toList_inner_of_getElem? hslot] at htotal
    simp only [List.length_append] at htotal
    apply proper_relink
    · exact Nat.le_trans (List.length_eraseIdx_le ..) hroom
    · exact fun slot hmem => h.of_mem_slots slot (List.mem_of_mem_eraseIdx hmem)
    · exact h.last_child
    · simp only [toList, List.eraseIdx_eq_take_drop_succ, slotsToList_append, List.length_append]
      omega
    · rw [← h.total_eq, Bucket.total]
      omega
  | case8 slots last total place hslot rest herase ih =>
    rw [herase] at ih
    obtain ⟨hrest, hlength⟩ := ih h.last_child
    have htotal : 0 < total := h.total_pos
    have hset : (inner slots rest (total - 1)).Proper := h.set_last hrest (by omega)
    exact proper_relink hset.count_le hset.of_mem_slots hset.last_child hset.total_eq
      (by rw [← h.total_eq, Bucket.total]; omega)
  | case9 slots last total place hslot herase separator child hbefore ih =>
    rw [herase] at ih
    have hone : last.toList.length = 1 := ih h.last_child
    have htotal := h.total_eq
    have hroom : slots.length ≤ capacity := h.count_le
    obtain ⟨others, rfl⟩ := List.getLast?_eq_some_iff.1 hbefore
    simp only [Bucket.total, toList, slotsToList_append, slotsToList, List.length_append,
      List.length_nil] at htotal
    rw [List.dropLast_concat]
    apply proper_relink
    · rw [List.length_append] at hroom
      omega
    · exact fun slot hmem => h.of_mem_slots slot (List.mem_append_left _ hmem)
    · exact h.of_mem_slots (separator, child) (List.mem_append_right _ List.mem_cons_self)
    · simp only [toList, List.length_append]
      omega
    · rw [← h.total_eq, Bucket.total]
      omega
  | case10 slots last total place hslot herase hbefore ih =>
    exact absurd (List.getLast?_eq_none_iff.1 hbefore) h.ne_nil

end SnapshotStore.Bucket
