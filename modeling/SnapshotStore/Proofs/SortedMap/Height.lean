import Mathlib.Order.Bounds.Defs
import SnapshotStore.Proofs.SortedMap.Laws

/-!
# The height of a tree

The height is the greatest depth of a leaf. Below the root a split puts two children side by side in
place of one, so only splitting the root adds a level; removal takes buckets out and moves none
further down. Neither needs the tree to be in order or its buckets to be well-sized.
-/

namespace SnapshotStore

variable {K V : Type}

namespace Bucket

/-- The second bucket lies so many levels below the first one. -/
inductive HasAt : Bucket K V → Nat → Bucket K V → Prop where
  | here (b : Bucket K V) : HasAt b 0 b
  | slot {slots : List (K × Bucket K V)} {last b : Bucket K V} {total depth : Nat}
      {slot : K × Bucket K V} (hslot : slot ∈ slots) (h : HasAt slot.2 depth b) :
      HasAt (inner slots last total) (depth + 1) b
  | last {slots : List (K × Bucket K V)} {last b : Bucket K V} {total depth : Nat}
      (h : HasAt last depth b) : HasAt (inner slots last total) (depth + 1) b

mutual

def height : Bucket K V → Nat
  | leaf _ => 0
  | inner slots last _ => max (slotsHeight slots) last.height + 1

/-- The height of the highest child. -/
def slotsHeight : List (K × Bucket K V) → Nat
  | [] => 0
  | (_, child) :: slots => max child.height (slotsHeight slots)

end

variable {b low high rest : Bucket K V} {slots slots' : List (K × Bucket K V)}
  {last last' : Bucket K V} {total place bound depth : Nat} {separator : K}

theorem slotsHeight_le_iff : slotsHeight slots ≤ bound ↔ ∀ slot ∈ slots, slot.2.height ≤ bound := by
  induction slots with
  | nil => simp [slotsHeight]
  | cons slot slots ih => rw [slotsHeight, Nat.max_le, ih, List.forall_mem_cons]

/-- The height of a bucket bounds those of its children, which is all that is used of it. -/
theorem height_inner_le_iff : (inner slots last total).height ≤ bound ↔
    (∀ slot ∈ slots, slot.2.height < bound) ∧ last.height < bound := by
  cases bound with
  | zero => simp [height]
  | succ bound =>
    simp only [height, Nat.add_le_add_iff_right, Nat.max_le, slotsHeight_le_iff, Nat.lt_succ_iff]

theorem height_slot_lt {slot : K × Bucket K V} (hslot : slot ∈ slots) (last : Bucket K V)
    (total : Nat) : slot.2.height < (inner slots last total).height :=
  (height_inner_le_iff.1 (Nat.le_refl _)).1 slot hslot

theorem height_last_lt (slots : List (K × Bucket K V)) (last : Bucket K V) (total : Nat) :
    last.height < (inner slots last total).height :=
  (height_inner_le_iff.1 (Nat.le_refl _)).2

/-! ### The deepest leaf -/

theorem HasAt.eq_self (h : b.HasAt 0 low) : low = b := by
  cases h
  rfl

theorem HasAt.height_le (h : b.HasAt depth low) : depth + low.height ≤ b.height := by
  induction h with
  | here b => exact Nat.le_of_eq (Nat.zero_add _)
  | @slot slots last _ total _ slot hslot _ ih =>
    have hlt := height_slot_lt hslot last total
    omega
  | @last slots last _ total _ _ ih =>
    have hlt := height_last_lt slots last total
    omega

theorem exists_slotsHeight_eq (slots : List (K × Bucket K V)) :
    slotsHeight slots = 0 ∨ ∃ slot ∈ slots, slotsHeight slots = slot.2.height := by
  induction slots with
  | nil => exact .inl rfl
  | cons slot slots ih =>
    rw [slotsHeight]
    rcases Nat.le_total (slotsHeight slots) slot.2.height with hle | hle
    · exact .inr ⟨slot, List.mem_cons_self, Nat.max_eq_left hle⟩
    · rw [Nat.max_eq_right hle]
      exact ih.imp_right fun ⟨other, hmem, heq⟩ => ⟨other, List.mem_cons_of_mem _ hmem, heq⟩

/-- Some child is as high as a child can be. -/
theorem exists_height_eq (slots : List (K × Bucket K V)) (last : Bucket K V) (total : Nat) :
    ∃ child, (child = last ∨ ∃ slot ∈ slots, slot.2 = child) ∧
      (inner slots last total).height = child.height + 1 := by
  rw [height]
  rcases Nat.le_total (slotsHeight slots) last.height with hle | hle
  · exact ⟨last, .inl rfl, by rw [Nat.max_eq_right hle]⟩
  rw [Nat.max_eq_left hle]
  rcases exists_slotsHeight_eq slots with hzero | ⟨slot, hslot, heq⟩
  · exact ⟨last, .inl rfl, by omega⟩
  · exact ⟨slot.2, .inr ⟨slot, hslot, rfl⟩, by rw [heq]⟩

theorem exists_hasAt_height (b : Bucket K V) : ∃ entries, b.HasAt b.height (leaf entries) := by
  -- On the height and not on the bucket: the child to descend to is only known to be a tallest one.
  induction hheight : b.height using Nat.strongRecOn generalizing b with
  | ind height ih =>
    cases b with
    | leaf entries => exact ⟨entries, hheight ▸ .here _⟩
    | inner slots last total =>
      obtain ⟨child, hchild, heq⟩ := exists_height_eq slots last total
      obtain ⟨entries, hat⟩ := ih child.height (by omega) child rfl
      rw [← hheight, heq]
      rcases hchild with rfl | ⟨slot, hslot, rfl⟩
      · exact ⟨entries, hat.last⟩
      · exact ⟨entries, .slot hslot hat⟩

/-- The height is the greatest depth of a leaf. -/
theorem isGreatest_height (b : Bucket K V) :
    IsGreatest {depth | ∃ entries, b.HasAt depth (leaf entries)} b.height := by
  refine ⟨b.exists_hasAt_height, fun depth ⟨entries, hat⟩ => ?_⟩
  have := hat.height_le
  omega

/-! ### Inserting -/

theorem height_split_le (h : b.split? = some (separator, low, high)) :
    low.height ≤ b.height ∧ high.height ≤ b.height := by
  cases b with
  | leaf entries =>
    obtain ⟨entry, _, heq⟩ := Option.map_eq_some_iff.1 h
    cases heq
    exact ⟨Nat.le_refl _, Nat.le_refl _⟩
  | inner slots last total =>
    obtain ⟨slot, hslot, heq⟩ := Option.map_eq_some_iff.1 h
    cases heq
    constructor
    · exact height_inner_le_iff.2 ⟨fun slot hmem => height_slot_lt (List.mem_of_mem_take hmem) _ _,
        height_slot_lt (List.mem_of_getElem? hslot) _ _⟩
    · exact height_inner_le_iff.2 ⟨fun slot hmem => height_slot_lt (List.mem_of_mem_drop hmem) _ _,
        height_last_lt _ _ _⟩

/-- The bucket over the two halves of a root has one level more. -/
theorem height_join_split_le (h : b.split? = some (separator, low, high)) :
    (join [(separator, low)] high).height ≤ b.height + 1 := by
  obtain ⟨hlow, hhigh⟩ := height_split_le h
  refine height_inner_le_iff.2 ⟨fun slot hslot => ?_, Nat.lt_succ_of_le hhigh⟩
  rw [List.mem_singleton.1 hslot]
  exact Nat.lt_succ_of_le hlow

theorem height_splitAt_le (hfull : ((slots[place]?.map Prod.snd).getD last).isFull)
    (hsplit : splitAt? slots last place = some (slots', last')) (total sum : Nat) :
    (inner slots' last' sum).height ≤ (inner slots last total).height := by
  apply height_inner_le_iff.2
  refine forall_splitAt (Q := fun b => b.height < _) hfull hsplit (fun _ hhalves hlt => ?_)
    (fun slot hslot => height_slot_lt hslot last total) (height_last_lt slots last total)
  obtain ⟨hlow, hhigh⟩ := height_split_le hhalves
  exact ⟨Nat.lt_of_le_of_lt hlow hlt, Nat.lt_of_le_of_lt hhigh hlt⟩

/-- One child may give way to another one that is no higher. -/
theorem height_set_le {child changed : Bucket K V}
    (hslot : slots[place]? = some (separator, child)) (hle : changed.height ≤ child.height)
    (sum : Nat) : (inner (slots.set place (separator, changed)) last sum).height ≤
      (inner slots last total).height := by
  refine height_inner_le_iff.2 ⟨fun slot hmem => ?_, height_last_lt _ _ _⟩
  rcases List.mem_or_eq_of_mem_set hmem with hmem | rfl
  · exact height_slot_lt hmem _ _
  · exact Nat.lt_of_le_of_lt hle (height_slot_lt (List.mem_of_getElem? hslot) _ _)

theorem height_set_last_le {changed : Bucket K V} (hle : changed.height ≤ last.height) (sum : Nat) :
    (inner slots changed sum).height ≤ (inner slots last total).height :=
  height_inner_le_iff.2 ⟨fun _ hslot => height_slot_lt hslot _ _,
    Nat.lt_of_le_of_lt hle (height_last_lt _ _ _)⟩

variable [Ord K] {key : K} {value : V}

theorem height_replace?_le {c : Bucket K V} (h : b.replace? key value = some c) :
    c.height ≤ b.height := by
  fun_induction Bucket.replace? key value b generalizing c with
  | case1 entries =>
    obtain ⟨place, _, rfl⟩ := Option.map_eq_some_iff.1 h
    exact Nat.le_refl _
  | case2 slots last total place separator child hslot =>
    rename_i ih
    obtain ⟨changed, hchanged, rfl⟩ := Option.map_eq_some_iff.1 h
    exact height_set_le hslot (ih hchanged) total
  | case3 slots last total place hslot =>
    rename_i ih
    obtain ⟨changed, hchanged, rfl⟩ := Option.map_eq_some_iff.1 h
    exact height_set_last_le (ih hchanged) total

/-- A bucket with room takes an entry without a further level. -/
theorem height_insert_le (b : Bucket K V) : (b.insert key value).height ≤ b.height := by
  fun_induction Bucket.insert key value b with
  | case1 entries => exact Nat.le_refl _
  | case2 slots last total place hfull slots' last' hsplit ih =>
    exact Nat.le_trans ih (height_splitAt_le hfull hsplit total total)
  | case3 slots last total place hfull hsplit => exact Nat.le_refl _
  | case4 slots last total place hroom separator child hslot ih =>
    exact height_set_le hslot ih (total + 1)
  | case5 slots last total place hroom hslot ih => exact height_set_last_le ih (total + 1)

/-! ### Erasing -/

omit [Ord K] in
theorem height_relink_le (h : relink slots last total = .bucket rest)
    (hle : (inner slots last total).height ≤ bound) : rest.height ≤ bound := by
  unfold relink at h
  split at h
  · cases h
    exact Nat.le_of_lt (height_inner_le_iff.1 hle).2
  · cases h
    exact hle

theorem height_erase_le (h : b.erase key = .bucket rest) : rest.height ≤ b.height := by
  fun_induction Bucket.erase key b generalizing rest with
  | case1 | case2 | case4 | case7 | case10 => cases h
  | case3 entries place hfound hmore =>
    cases h
    exact Nat.le_refl _
  | case5 slots last total place separator child hslot changed herase =>
    rename_i ih
    exact height_relink_le h (height_set_le hslot (ih herase) _)
  | case6 slots last total place separator child hslot herase =>
    exact height_relink_le h (height_inner_le_iff.2
      ⟨fun slot hmem => height_slot_lt (List.mem_of_mem_eraseIdx hmem) _ _, height_last_lt _ _ _⟩)
  | case8 slots last total place hslot changed herase =>
    rename_i ih
    exact height_relink_le h (height_set_last_le (ih herase) _)
  | case9 slots last total place hslot herase separator child hbefore =>
    exact height_relink_le h (height_inner_le_iff.2
      ⟨fun slot hmem => height_slot_lt ((List.dropLast_sublist slots).subset hmem) _ _,
        height_slot_lt (List.mem_of_getLast? hbefore) _ _⟩)

end Bucket

namespace SortedMap

/-- The greatest depth of a leaf. -/
def height (m : SortedMap K V) : Nat := m.root.elim 0 Bucket.height

/-- The bucket lies so many levels below the root. -/
def HasAt (m : SortedMap K V) (depth : Nat) (b : Bucket K V) : Prop :=
  ∃ root, m.root = some root ∧ root.HasAt depth b

theorem isGreatest_height (m : SortedMap K V) (hsome : m.isEmpty = false) :
    IsGreatest {depth | ∃ entries, m.HasAt depth (.leaf entries)} m.height := by
  obtain ⟨_ | b⟩ := m
  · cases hsome
  obtain ⟨hattained, hbound⟩ := b.isGreatest_height
  refine ⟨hattained.imp fun entries hat => ⟨b, rfl, hat⟩, fun depth hdepth => ?_⟩
  obtain ⟨entries, root, heq, hat⟩ := hdepth
  cases heq
  exact hbound ⟨entries, hat⟩

variable [Ord K] {key : K} {value : V}

/-- Only where the root is split a level is added. -/
theorem height_insert_le (m : SortedMap K V) : (m.insert key value).height ≤ m.height + 1 := by
  obtain ⟨c, hinsert, henters⟩ := m.exists_enters key value
  obtain ⟨root⟩ := m
  rw [hinsert]
  cases henters with
  | first => exact Nat.zero_le _
  | replaced hreplaced => exact Nat.le_succ_of_le (Bucket.height_replace?_le hreplaced)
  | @placed b => exact Nat.le_succ_of_le b.height_insert_le
  | grown _ _ hsplit =>
    exact Nat.le_trans (Bucket.height_insert_le _) (Bucket.height_join_split_le hsplit)

theorem height_erase_le (m : SortedMap K V) : (m.erase key).height ≤ m.height := by
  obtain ⟨_ | b⟩ := m
  · exact Nat.le_refl _
  simp only [SortedMap.erase]
  cases herase : b.erase key with
  | unchanged => exact Nat.le_refl _
  | nothing => exact Nat.zero_le _
  | bucket rest => exact Bucket.height_erase_le herase

end SortedMap

end SnapshotStore
