import SnapshotStore.Proofs.SortedMap.Height
import SnapshotStore.Proofs.SortedMap.Merge

/-!
# Trees that only grow are balanced

Splitting leaves two halves at the level of the full bucket, and a level is added only above the
root. So as long as nothing is taken out, all leaves lie at one depth and every bucket below the
root is at least half full, which bounds the height by the number of entries. Removal keeps neither,
but it moves no leaf further down.
-/

namespace SnapshotStore

variable {K V : Type}

namespace Bucket

/-- At least half full, where the last child of an inner bucket counts as well as its slots. -/
def Stocked : Bucket K V → Prop
  | leaf entries => 4 ≤ entries.length
  | inner slots _ _ => 3 ≤ slots.length

/-- All leaves lie so many levels below the bucket, and all buckets below it are stocked. -/
def Level : Nat → Bucket K V → Prop
  | 0, leaf _ => True
  | levels + 1, inner slots last _ =>
    (∀ slot ∈ slots, Level levels slot.2 ∧ slot.2.Stocked) ∧ Level levels last ∧ last.Stocked
  | _, _ => False

variable {b low high child changed : Bucket K V} {slots slots' : List (K × Bucket K V)}
  {last last' : Bucket K V} {total place levels depth : Nat} {separator : K}

theorem Level.eq_zero {entries : List (K × V)} (h : (leaf entries).Level levels) : levels = 0 := by
  cases levels with
  | zero => rfl
  | succ levels => exact h.elim

theorem Level.exists_pred (h : (inner slots last total).Level levels) :
    ∃ below, levels = below + 1 ∧ (∀ slot ∈ slots, slot.2.Level below ∧ slot.2.Stocked) ∧
      last.Level below ∧ last.Stocked := by
  cases levels with
  | zero => exact h.elim
  | succ below => exact ⟨below, rfl, h⟩

/-! ### What lies below -/

/-- The levels above and below a bucket add up; only the root itself need not be stocked. -/
theorem Level.of_hasAt (h : b.Level levels) (hat : b.HasAt depth child) :
    ∃ rest, levels = depth + rest ∧ child.Level rest ∧ (0 < depth → child.Stocked) := by
  induction hat generalizing levels with
  | here b => exact ⟨levels, (Nat.zero_add _).symm, h, fun hpos => absurd hpos (Nat.lt_irrefl 0)⟩
  | @slot slots last c total depth slot hslot hat ih =>
    obtain ⟨below, rfl, hslots, -⟩ := h.exists_pred
    obtain ⟨rest, rfl, hrest, hstocked⟩ := ih (hslots slot hslot).1
    refine ⟨rest, by omega, hrest, fun _ => ?_⟩
    rcases Nat.eq_zero_or_pos depth with rfl | hpos
    · exact hat.eq_self ▸ (hslots slot hslot).2
    · exact hstocked hpos
  | @last slots last c total depth hat ih =>
    obtain ⟨below, rfl, -, hlast, hlaststocked⟩ := h.exists_pred
    obtain ⟨rest, rfl, hrest, hstocked⟩ := ih hlast
    refine ⟨rest, by omega, hrest, fun _ => ?_⟩
    rcases Nat.eq_zero_or_pos depth with rfl | hpos
    · exact hat.eq_self ▸ hlaststocked
    · exact hstocked hpos

theorem Proper.of_hasAt (h : b.Proper) (hat : b.HasAt depth child) : child.Proper := by
  induction hat with
  | here b => exact h
  | slot hslot _ ih => exact ih (h.of_mem_slots _ hslot)
  | last _ ih => exact ih h.last_child

theorem Level.height_eq (h : b.Level levels) : b.height = levels := by
  obtain ⟨entries, hat⟩ := b.exists_hasAt_height
  obtain ⟨rest, heq, hrest, -⟩ := h.of_hasAt hat
  rw [heq, hrest.eq_zero, Nat.add_zero]

/-! ### Numbers of entries -/

theorem le_length_toList_inner {least : Nat}
    (hslots : ∀ slot ∈ slots, least ≤ slot.2.toList.length) (hlast : least ≤ last.toList.length) :
    (slots.length + 1) * least ≤ (inner slots last total).toList.length := by
  rw [toList, List.length_append, Nat.succ_mul]
  refine Nat.add_le_add ?_ hlast
  induction slots with
  | nil => exact Nat.le_of_eq (Nat.zero_mul least)
  | cons slot slots ih =>
    obtain ⟨hslot, hslots⟩ := List.forall_mem_cons.1 hslots
    have hrest := ih hslots
    rw [slotsToList, List.length_append, List.length_cons, Nat.succ_mul]
    omega

/-- A stocked bucket has four children at least, and so has each one below it down to the leaves. -/
theorem Level.pow_le (h : b.Level levels) (hstocked : b.Stocked) :
    4 ^ (levels + 1) ≤ b.toList.length := by
  induction levels generalizing b with
  | zero =>
    cases b with
    | leaf entries => exact hstocked
    | inner => exact h.elim
  | succ levels ih =>
    cases b with
    | leaf entries => exact h.elim
    | inner slots last total =>
      obtain ⟨hslots, hlast, hlaststocked⟩ := h
      have hthree : 3 ≤ slots.length := hstocked
      calc 4 ^ (levels + 2) = 4 * 4 ^ (levels + 1) := Nat.pow_succ'
        _ ≤ (slots.length + 1) * 4 ^ (levels + 1) := Nat.mul_le_mul_right _ (by omega)
        _ ≤ _ := le_length_toList_inner
          (fun slot hslot => ih (hslots slot hslot).1 (hslots slot hslot).2) (ih hlast hlaststocked)

/-- A root has two children at least. -/
theorem Level.two_mul_pow_le (h : b.Level (levels + 1)) (hproper : b.Proper) :
    2 * 4 ^ (levels + 1) ≤ b.toList.length := by
  cases b with
  | leaf entries => exact h.elim
  | inner slots last total =>
    obtain ⟨hslots, hlast, hlaststocked⟩ := h
    have hone : 1 ≤ slots.length := List.length_pos_iff.2 hproper.ne_nil
    calc 2 * 4 ^ (levels + 1) ≤ (slots.length + 1) * 4 ^ (levels + 1) :=
          Nat.mul_le_mul_right _ (by omega)
      _ ≤ _ := le_length_toList_inner
        (fun slot hslot => (hslots slot hslot).1.pow_le (hslots slot hslot).2)
        (hlast.pow_le hlaststocked)

/-! ### Splitting -/

theorem Level.split (h : b.Level levels) (hfull : b.isFull)
    (hsplit : b.split? = some (separator, low, high)) :
    (low.Level levels ∧ low.Stocked) ∧ high.Level levels ∧ high.Stocked := by
  have hcount : b.count = 8 := by simpa [isFull, capacity] using hfull
  cases b with
  | leaf entries =>
    obtain ⟨entry, _, heq⟩ := Option.map_eq_some_iff.1 hsplit
    cases heq
    rw [count] at hcount
    cases h.eq_zero
    exact ⟨⟨trivial, by simp [Stocked, hcount]⟩, trivial, by simp [Stocked, hcount]⟩
  | inner slots last total =>
    obtain ⟨slot, hslot, heq⟩ := Option.map_eq_some_iff.1 hsplit
    cases heq
    rw [count] at hcount
    obtain ⟨below, rfl, hslots, hlast⟩ := h.exists_pred
    refine ⟨⟨⟨fun slot hmem => ?_, hslots slot (List.mem_of_getElem? hslot)⟩, ?_⟩,
      ⟨fun slot hmem => ?_, hlast⟩, ?_⟩
    · exact hslots slot (List.mem_of_mem_take hmem)
    · simp [join, Stocked, hcount]
    · exact hslots slot (List.mem_of_mem_drop hmem)
    · simp [join, Stocked, hcount]

/-- The bucket over the two halves of a root. -/
theorem Level.join_split (h : b.Level levels) (hfull : b.isFull)
    (hsplit : b.split? = some (separator, low, high)) :
    (join [(separator, low)] high).Level (levels + 1) := by
  obtain ⟨hlow, hhigh⟩ := h.split hfull hsplit
  refine ⟨fun slot hslot => ?_, hhigh⟩
  rw [List.mem_singleton.1 hslot]
  exact hlow

theorem Level.splitAt (h : (inner slots last total).Level levels)
    (hfull : ((slots[place]?.map Prod.snd).getD last).isFull)
    (hsplit : splitAt? slots last place = some (slots', last')) (sum : Nat) :
    (inner slots' last' sum).Level levels := by
  obtain ⟨below, rfl, hslots, hlast⟩ := h.exists_pred
  exact forall_splitAt (Q := fun b => b.Level below ∧ b.Stocked) hfull hsplit
    (fun hfull hsplit h => h.1.split hfull hsplit) hslots hlast

/-! ### Replacing and inserting -/

theorem Level.set_slot (h : (inner slots last total).Level levels)
    (hslot : slots[place]? = some (separator, child))
    (hlevel : ∀ {levels}, child.Level levels → changed.Level levels)
    (hstocked : child.Stocked → changed.Stocked) (sum : Nat) :
    (inner (slots.set place (separator, changed)) last sum).Level levels := by
  obtain ⟨below, rfl, hslots, hlast⟩ := h.exists_pred
  refine ⟨fun slot hmem => ?_, hlast⟩
  rcases List.mem_or_eq_of_mem_set hmem with hmem | rfl
  · exact hslots slot hmem
  · exact (hslots _ (List.mem_of_getElem? hslot)).imp hlevel hstocked

theorem Level.set_last (h : (inner slots last total).Level levels)
    (hlevel : ∀ {levels}, last.Level levels → changed.Level levels)
    (hstocked : last.Stocked → changed.Stocked) (sum : Nat) :
    (inner slots changed sum).Level levels := by
  obtain ⟨below, rfl, hslots, hlast⟩ := h.exists_pred
  exact ⟨hslots, hlast.imp hlevel hstocked⟩

variable [Ord K] {key : K} {value : V}

theorem Stocked.replace? (h : b.Stocked) (hsome : b.replace? key value = some changed) :
    changed.Stocked := by
  cases b with
  | leaf entries =>
    rw [Bucket.replace?, Option.map_eq_some_iff] at hsome
    obtain ⟨place, _, rfl⟩ := hsome
    rwa [Stocked, List.length_modify]
  | inner slots last total =>
    rw [Bucket.replace?] at hsome
    split at hsome
    · obtain ⟨child, _, rfl⟩ := Option.map_eq_some_iff.1 hsome
      rwa [Stocked, List.length_set]
    · obtain ⟨child, _, rfl⟩ := Option.map_eq_some_iff.1 hsome
      exact h

theorem Level.replace? (h : b.Level levels) (hsome : b.replace? key value = some changed) :
    changed.Level levels := by
  fun_induction Bucket.replace? key value b generalizing changed levels with
  | case1 entries =>
    obtain ⟨place, _, rfl⟩ := Option.map_eq_some_iff.1 hsome
    cases h.eq_zero
    trivial
  | case2 slots last total place separator child hslot =>
    rename_i ih
    obtain ⟨changed, hchanged, rfl⟩ := Option.map_eq_some_iff.1 hsome
    exact h.set_slot hslot (ih · hchanged) (·.replace? hchanged) total
  | case3 slots last total place hslot =>
    rename_i ih
    obtain ⟨changed, hchanged, rfl⟩ := Option.map_eq_some_iff.1 hsome
    exact h.set_last (ih · hchanged) (·.replace? hchanged) total

theorem Stocked.insert (h : b.Stocked) : (b.insert key value).Stocked := by
  fun_induction Bucket.insert key value b with
  | case1 entries => exact Nat.le_trans h List.length_le_length_insertIdx
  | case2 slots last total place hfull slots' last' hsplit ih =>
    have hlength := Proper.length_splitAt hsplit
    have hthree : 3 ≤ slots.length := h
    exact ih (Nat.le_trans hthree (by omega))
  | case3 slots last total place hfull hsplit => exact h
  | case4 slots last total place hroom separator child hslot ih => rwa [Stocked, List.length_set]
  | case5 slots last total place hroom hslot ih => exact h

/-- A child that takes an entry keeps its level and loses no slot, and a full one is split into two
of its level first. -/
theorem Level.insert (h : b.Level levels) : (b.insert key value).Level levels := by
  fun_induction Bucket.insert key value b generalizing levels with
  | case1 entries =>
    cases h.eq_zero
    trivial
  | case2 slots last total place hfull slots' last' hsplit =>
    rename_i ih
    exact ih (h.splitAt hfull hsplit total)
  | case3 slots last total place hfull => exact h
  | case4 slots last total place hroom separator child hslot =>
    rename_i ih
    exact h.set_slot hslot ih .insert (total + 1)
  | case5 slots last total place hroom hslot =>
    rename_i ih
    exact h.set_last ih .insert (total + 1)

end Bucket

namespace SortedMap

variable {m changed : SortedMap K V} {b : Bucket K V} {levels depth : Nat}

/-- All leaves lie at one depth, and all buckets below the root are stocked. -/
def Leveled (m : SortedMap K V) : Prop := ∀ b, m.root = some b → ∃ levels, b.Level levels

theorem leveled_some (h : b.Level levels) : (⟨some b⟩ : SortedMap K V).Leveled :=
  fun _ heq => by cases heq; exact ⟨levels, h⟩

theorem leveled_leaf (entries : List (K × V)) : (⟨some (.leaf entries)⟩ : SortedMap K V).Leveled :=
  fun _ heq => by cases heq; exact ⟨0, trivial⟩

variable [Ord K] {key : K} {value : V}

theorem Leveled.replace? (h : m.Leveled) (hchanged : m.replace? key value = some changed) :
    changed.Leveled := by
  obtain ⟨b, hroot, hb⟩ := Option.bind_eq_some_iff.1 hchanged
  obtain ⟨c, hc, rfl⟩ := Option.map_eq_some_iff.1 hb
  obtain ⟨levels, hlevel⟩ := h b hroot
  exact leveled_some (hlevel.replace? hc)

theorem Leveled.insert (h : m.Leveled) (key : K) (value : V) : (m.insert key value).Leveled := by
  obtain ⟨c, hinsert, henters⟩ := m.exists_enters key value
  obtain ⟨root⟩ := m
  rw [hinsert]
  cases henters with
  | first => exact leveled_leaf _
  | replaced hreplaced =>
    obtain ⟨levels, hlevel⟩ := h _ rfl
    exact leveled_some (hlevel.replace? hreplaced)
  | placed =>
    obtain ⟨levels, hlevel⟩ := h _ rfl
    exact leveled_some hlevel.insert
  | grown _ hfull hsplit =>
    obtain ⟨levels, hlevel⟩ := h _ rfl
    exact leveled_some (hlevel.join_split hfull hsplit).insert

theorem Leveled.mergeInto (h : m.Leveled) (mine theirs : List (K × V)) :
    (mergeInto m mine theirs).Leveled := by
  fun_induction SortedMap.mergeInto m mine theirs with
  | case1 m mine => exact h
  | case2 m key value theirs ih => exact ih (h.insert key value)
  | case3 m mine kept rest key value theirs hlt ih => exact ih h
  | case4 m mine kept rest key value theirs heq ih =>
    apply ih
    -- whether the key is there is left open: the tree is not assumed to be in order
    cases hreplaced : m.replace? key value with
    | none => exact h.insert key value
    | some changed => exact h.replace? hreplaced
  | case5 m mine kept rest key value theirs hgt ih => exact ih (h.insert key value)

theorem leveled_ofList (entries : List (K × V)) : (ofList entries).Leveled := by
  have hempty : (empty : SortedMap K V).Leveled := fun _ h => by cases h
  rw [ofList]
  -- the fold starts from any leveled map
  generalize (empty : SortedMap K V) = start at hempty
  induction entries generalizing start with
  | nil => exact hempty
  | cons entry entries ih => exact ih _ (hempty.insert entry.1 entry.2)

/-- A map from which nothing has been taken out. What is merged into it may be made in any way. -/
inductive Growing : SortedMap K V → Prop where
  | empty : Growing empty
  | singleton (key : K) (value : V) : Growing (singleton key value)
  | ofList (entries : List (K × V)) : Growing (ofList entries)
  | insert {m : SortedMap K V} (h : Growing m) (key : K) (value : V) : Growing (m.insert key value)
  | replace {m changed : SortedMap K V} {key : K} {value : V} (h : Growing m)
      (hchanged : m.replace? key value = some changed) : Growing changed
  | merge {m : SortedMap K V} (h : Growing m) (other : SortedMap K V) : Growing (m.merge other)

theorem Growing.leveled (h : Growing m) : m.Leveled := by
  induction h with
  | empty => exact fun _ heq => by cases heq
  | singleton key value => exact leveled_leaf _
  | ofList entries => exact leveled_ofList entries
  | insert _ key value ih => exact ih.insert key value
  | replace _ hchanged ih => exact ih.replace? hchanged
  | merge _ other ih => exact ih.mergeInto _ _

/-- The leaves lie at one depth, the buckets below the root are half full at least, and a tree of
some height has many entries. -/
structure Balanced (m : SortedMap K V) : Prop where
  depth_leaf : ∀ {depth entries}, m.HasAt depth (.leaf entries) → depth = m.height
  length_leaf : ∀ {depth entries}, m.HasAt depth (.leaf entries) → 0 < depth →
    4 ≤ entries.length ∧ entries.length ≤ 8
  length_inner : ∀ {depth slots last total}, m.HasAt depth (.inner slots last total) → 0 < depth →
    3 ≤ slots.length ∧ slots.length ≤ 8
  size_eq : m.size = m.toList.length
  le_size : 1 ≤ m.height → 2 * 4 ^ m.height ≤ m.size

/-- How changes move the greatest depth of a leaf. -/
structure HeightLaws (m : SortedMap K V) : Prop where
  greatest : m.isEmpty = false →
    IsGreatest {depth | ∃ entries, m.HasAt depth (.leaf entries)} m.height
  insert : ∀ key value, (m.insert key value).height ≤ m.height + 1
  erase : ∀ key, (m.erase key).height ≤ m.height

theorem heightLaws (m : SortedMap K V) : m.HeightLaws :=
  ⟨m.isGreatest_height, fun _ _ => m.height_insert_le, fun _ => m.height_erase_le⟩

omit [Ord K] in
theorem Leveled.of_hasAt (h : m.Leveled) (hat : m.HasAt depth b) :
    ∃ rest, m.height = depth + rest ∧ b.Level rest ∧ (0 < depth → b.Stocked) := by
  obtain ⟨root, hroot, hat⟩ := hat
  obtain ⟨levels, hlevel⟩ := h root hroot
  rw [height, hroot, Option.elim_some, hlevel.height_eq]
  exact hlevel.of_hasAt hat

omit [Ord K] in
theorem Proper.of_hasAt (h : m.Proper) (hat : m.HasAt depth b) : b.Proper := by
  obtain ⟨root, hroot, hat⟩ := hat
  exact (h root hroot).of_hasAt hat

omit [Ord K] in
theorem Leveled.balanced (h : m.Leveled) (hproper : m.Proper) : m.Balanced where
  depth_leaf := fun hat => by
    obtain ⟨rest, heq, hrest, -⟩ := h.of_hasAt hat
    rw [heq, hrest.eq_zero, Nat.add_zero]
  length_leaf := fun hat hpos => by
    obtain ⟨-, -, -, hstocked⟩ := h.of_hasAt hat
    exact ⟨hstocked hpos, (hproper.of_hasAt hat).count_le⟩
  length_inner := fun hat hpos => by
    obtain ⟨-, -, -, hstocked⟩ := h.of_hasAt hat
    exact ⟨hstocked hpos, (hproper.of_hasAt hat).count_le⟩
  size_eq := hproper.size_eq
  le_size := fun hpos => by
    have hsize := hproper.size_eq
    obtain ⟨_ | b⟩ := m
    · exact absurd hpos (Nat.lt_irrefl 0)
    obtain ⟨levels, hlevel⟩ := h b rfl
    have hheight : (⟨some b⟩ : SortedMap K V).height = levels := hlevel.height_eq
    rw [hheight] at hpos ⊢
    obtain ⟨above, rfl⟩ := Nat.exists_eq_add_of_le' hpos
    exact hsize ▸ hlevel.two_mul_pow_le (hproper b rfl)

variable [Std.TransOrd K]

theorem Growing.holds (h : Growing m) : ∃ entries, m.Holds entries := by
  induction h with
  | empty => exact ⟨_, Made.empty.holds⟩
  | singleton key value => exact ⟨_, (Made.singleton key value).holds⟩
  | ofList entries => exact ⟨_, (Made.ofList entries).holds⟩
  | insert _ key value ih =>
    obtain ⟨entries, hentries⟩ := ih
    exact ⟨_, hentries.insert key value⟩
  | replace _ hchanged ih =>
    obtain ⟨entries, hentries⟩ := ih
    exact ⟨_, hentries.replace hchanged⟩
  | merge _ other ih =>
    obtain ⟨entries, hentries⟩ := ih
    exact ⟨_, hentries.mergeInto _ _⟩

/-- A map from which nothing has been taken out is balanced, and whatever has been taken out of a
map, an entry put in adds one level at most and one taken out adds none. -/
theorem balanced_of_growing (h : Growing m) :
    m.Balanced ∧ ∀ other : SortedMap K V, other.HeightLaws := by
  obtain ⟨entries, hentries⟩ := h.holds
  exact ⟨h.leveled.balanced hentries.proper, heightLaws⟩

/-- Ascending keys leave four entries in each leaf behind them, and the tenth leaf needs a second
level. The other map has lost a key that the first one keeps. -/
theorem balanced_of_growing_second_level :
    ∃ m : SortedMap Nat String, m.Balanced ∧ m.height = 2 ∧ 2 * 4 ^ 2 ≤ m.size ∧
      m.get? 3 = some "a" ∧ (m.insert 44 "d").height ≤ 3 ∧ (m.erase 3).height ≤ 2 := by
  let m := ((ofList ((List.range 40).map fun key => (key, "a"))).merge
    ((ofList ((List.range 44).map fun key => (key, "b"))).erase 3)).insert 7 "c"
  have hgrowing : m.Growing := ((Growing.ofList _).merge _).insert 7 "c"
  obtain ⟨hbalanced, hlaws⟩ := balanced_of_growing hgrowing
  have hheight : m.height = 2 := by decide +kernel
  have hsize := hbalanced.le_size
  have hinsert := (hlaws m).insert 44 "d"
  have herase := (hlaws m).erase 3
  rw [hheight] at hsize hinsert herase
  exact ⟨m, hbalanced, hheight, hsize (Nat.le_succ 1), by decide +kernel, hinsert, herase⟩

end SortedMap

end SnapshotStore
