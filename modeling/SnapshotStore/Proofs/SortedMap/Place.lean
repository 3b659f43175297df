import SnapshotStore.Proofs.SortedMap.Laws
import SnapshotStore.Proofs.SortedMap.Proper

/-!
# The place of a cursor

A path leads from the root of a tree down to a bucket, with the siblings left aside on either side.
The entries to the left of a cursor, its own and those to its right are all entries of the tree, and
the number of the first ones is its place. A move leaves the entries of the tree together and takes
the cursor to the next place, or off the list. The position that a cursor carries along is its place
where the buckets know their numbers of entries.
-/

namespace SnapshotStore.SortedMap

open Bucket (slotsToList)

variable {K V : Type}

namespace Cursor

def entry (c : Cursor K V) : K × V := (c.key, c.value)

/-- The entries to the left of a path. -/
def inFront : List (Frame K V) → List (K × V)
  | [] => []
  | frame :: path => inFront path ++ frame.left.reverse.flatMap Bucket.toList

/-- The entries to the right of a path. -/
def behind : List (Frame K V) → List (K × V)
  | [] => []
  | frame :: path => frame.right.flatMap Bucket.toList ++ behind path

/-- The entries before the one that a cursor stands on. -/
def earlier (c : Cursor K V) : List (K × V) := inFront c.path ++ c.before.reverse

/-- The entries after the one that a cursor stands on. -/
def later (c : Cursor K V) : List (K × V) := c.after ++ behind c.path

/-- A path leads from all entries of a tree down to those of the child that it has entered last. No
bucket on it or beside it is empty. -/
inductive Encloses (entries : List (K × V)) : List (K × V) → List (Frame K V) → Prop where
  | root : Encloses entries entries []
  | child {left right : List (Bucket K V)} {here : Bucket K V} {path : List (Frame K V)}
      (hhere : here.Filled) (hleft : ∀ b ∈ left, b.Filled) (hright : ∀ b ∈ right, b.Filled)
      (hpath : Encloses entries
        (left.reverse.flatMap Bucket.toList ++ here.toList ++ right.flatMap Bucket.toList) path) :
      Encloses entries here.toList (⟨left, here, right⟩ :: path)

/-- A cursor stands on one of some entries. -/
def Stands (entries : List (K × V)) (c : Cursor K V) : Prop :=
  Encloses entries (c.before.reverse ++ c.entry :: c.after) c.path

/-- The cursor at a place, which there is if the place is that of an entry. Its position is the
place if `counted` holds. -/
def At (entries : List (K × V)) (place : Nat) (counted : Prop) : Option (Cursor K V) → Prop
  | none => entries.length ≤ place
  | some c => c.Stands entries ∧ c.earlier.length = place ∧ (counted → c.position = place)

variable {entries inner : List (K × V)} {path : List (Frame K V)} {position place : Nat}
  {counted : Prop} {b : Bucket K V} {c d : Cursor K V}

theorem flatMap_toList (slots : List (K × Bucket K V)) :
    (slots.map Prod.snd).flatMap Bucket.toList = slotsToList slots := by
  induction slots with
  | nil => rfl
  | cons slot slots ih => rw [List.map_cons, List.flatMap_cons, ih, slotsToList]

theorem Encloses.split (h : Encloses entries inner path) :
    inFront path ++ inner ++ behind path = entries := by
  induction h with
  | root => simp [inFront, behind]
  | child hhere hleft hright hpath ih => simpa [inFront, behind] using ih

theorem Stands.split (h : c.Stands entries) : c.earlier ++ c.entry :: c.later = entries := by
  simpa [earlier, later] using Encloses.split h

theorem Stands.getElem? (h : c.Stands entries) : entries[c.earlier.length]? = some c.entry := by
  rw [← h.split]
  simp

theorem Stands.mem (h : c.Stands entries) : c.entry ∈ entries :=
  List.mem_of_getElem? h.getElem?

theorem Stands.take (h : c.Stands entries) : entries.take c.earlier.length = c.earlier := by
  rw [← h.split, List.take_left]

theorem Stands.take_succ (h : c.Stands entries) :
    entries.take (c.earlier.length + 1) = c.earlier ++ [c.entry] := by
  rw [List.take_add_one, h.take, h.getElem?, Option.toList_some]

/-! ### Going down -/

theorem at_leftmost (hfilled : b.Filled) (h : Encloses entries b.toList path)
    (hplace : (inFront path).length = place) (hposition : counted → position = place) :
    At entries place counted (leftmost path position b) := by
  fun_induction leftmost path position b with
  | case1 path held =>
    cases held with
    | nil => exact absurd rfl hfilled.ne_nil
    | cons entry held => exact ⟨h, by simp [earlier, hplace], hposition⟩
  | case2 path last total ih =>
    apply ih hfilled.last_child
    · apply Encloses.child hfilled.last_child (by simp) (by simp)
      simpa [Bucket.toList, slotsToList] using h
    · simp [inFront, hplace]
  | case3 path separator child slots last total ih =>
    obtain ⟨hchild, hslots⟩ := List.forall_mem_cons.1 hfilled.of_mem_slots
    apply ih hchild
    · apply Encloses.child hchild (by simp)
      · simpa [or_imp, forall_and, hfilled.last_child] using fun b a hmem => hslots (a, b) hmem
      · simpa [Bucket.toList, slotsToList, flatMap_toList] using h
    · simp [inFront, hplace]

theorem at_rightmost (hfilled : b.Filled) (h : Encloses entries b.toList path)
    (hplace : (inFront path).length + b.toList.length = place + 1)
    (hposition : counted → position = place) :
    At entries place counted (rightmost path position b) := by
  fun_induction rightmost path position b with
  | case1 path held backward =>
    obtain ⟨front, last, rfl⟩ := List.eq_nil_or_concat held |>.resolve_left hfilled.ne_nil
    have hbackward : backward = last :: front.reverse := by simp [backward]
    rw [hbackward]
    refine ⟨?_, ?_, hposition⟩
    · simpa [Stands, Bucket.toList, entry] using h
    · simp [earlier, Bucket.toList] at hplace ⊢
      omega
  | case2 path slots last total ih =>
    apply ih hfilled.last_child
    · refine .child hfilled.last_child ?_ (by simp) ?_
      · simpa using fun b a hmem => hfilled.of_mem_slots (a, b) hmem
      · simpa [Bucket.toList, flatMap_toList] using h
    · simp [inFront, flatMap_toList, Bucket.toList] at hplace ⊢
      omega

/-! ### Going on and back -/

theorem at_climbNext (h : Encloses entries inner path)
    (hplace : (inFront path).length + inner.length = place)
    (hposition : counted → position = place) :
    At entries place counted (climbNext position path) := by
  fun_induction climbNext position path generalizing inner with
  | case1 =>
    cases h
    simpa [At, inFront] using Nat.le_of_eq hplace
  | case2 left here child right path =>
    obtain _ | ⟨hhere, hleft, hright, hpath⟩ := h
    obtain ⟨hchild, hright⟩ := List.forall_mem_cons.1 hright
    have hdown : Encloses entries child.toList (⟨here :: left, child, right⟩ :: path) := by
      apply Encloses.child hchild (List.forall_mem_cons.2 ⟨hhere, hleft⟩) hright
      simpa using hpath
    exact at_leftmost hchild hdown (by simpa [inFront, Nat.add_assoc] using hplace) hposition
  | case3 left here path ih =>
    obtain _ | ⟨hhere, hleft, hright, hpath⟩ := h
    apply ih hpath
    simpa [inFront, Nat.add_assoc] using hplace

theorem at_climbPrevious (h : Encloses entries inner path)
    (hplace : (inFront path).length = place + 1) (hposition : counted → position = place) :
    At entries place counted (climbPrevious position path) := by
  fun_induction climbPrevious position path generalizing inner with
  | case1 => cases hplace
  | case2 child left here right path =>
    obtain _ | ⟨hhere, hleft, hright, hpath⟩ := h
    obtain ⟨hchild, hleft⟩ := List.forall_mem_cons.1 hleft
    have hdown : Encloses entries child.toList (⟨left, child, here :: right⟩ :: path) := by
      apply Encloses.child hchild hleft (List.forall_mem_cons.2 ⟨hhere, hright⟩)
      simpa using hpath
    apply at_rightmost hchild hdown _ hposition
    simp [inFront] at hplace ⊢
    omega
  | case3 here right path ih =>
    obtain _ | ⟨hhere, hleft, hright, hpath⟩ := h
    apply ih hpath
    simpa [inFront] using hplace

/-- Where nothing is to the left of a path there is no cursor to go back to. -/
theorem climbPrevious_eq_none (h : Encloses entries inner path) (hfront : inFront path = []) :
    climbPrevious position path = none := by
  fun_induction climbPrevious position path generalizing inner with
  | case1 => rfl
  | case2 child left here right path =>
    obtain _ | ⟨hhere, hleft, hright, hpath⟩ := h
    have hchild := (List.forall_mem_cons.1 hleft).1.toList_ne_nil
    simp [inFront, hchild] at hfront
  | case3 here right path ih =>
    obtain _ | ⟨hhere, hleft, hright, hpath⟩ := h
    exact ih hpath (List.append_eq_nil_iff.1 hfront).1

theorem Stands.next (h : c.Stands entries) :
    At entries (c.earlier.length + 1) (c.position = c.earlier.length) c.next := by
  rw [Stands] at h
  unfold Cursor.next
  split
  · next key value after hafter =>
    rw [hafter] at h
    refine ⟨by simpa [Stands, entry] using h, ?_, congrArg (· + 1)⟩
    simp [earlier, Nat.add_assoc]
  · next hafter =>
    apply at_climbNext h _ (congrArg (· + 1))
    simp [hafter, earlier, Nat.add_assoc]

theorem Stands.previous (h : c.Stands entries) :
    (c.earlier.length = 0 ∧ c.previous = none) ∨ (0 < c.earlier.length ∧
      At entries (c.earlier.length - 1) (c.position = c.earlier.length) c.previous) := by
  rw [Stands] at h
  unfold Cursor.previous
  split
  · next key value before hbefore =>
    rw [hbefore] at h
    have hlength : c.earlier.length = (inFront c.path).length + before.length + 1 := by
      simp [earlier, hbefore, Nat.add_assoc]
    rw [hlength]
    refine .inr ⟨Nat.succ_pos _, by simpa [Stands, entry] using h, ?_, congrArg (· - 1)⟩
    simp [earlier]
  · next hbefore =>
    have hearlier : c.earlier = inFront c.path := by simp [earlier, hbefore]
    rw [hearlier]
    cases hplace : (inFront c.path).length with
    | zero =>
      exact .inl ⟨rfl, climbPrevious_eq_none h (List.length_eq_zero_iff.1 hplace)⟩
    | succ place =>
      exact .inr ⟨Nat.succ_pos place, at_climbPrevious h hplace (congrArg (· - 1))⟩

theorem Stands.of_next (h : c.Stands entries) (hnext : c.next = some d) :
    d.Stands entries ∧ d.earlier.length = c.earlier.length + 1 ∧
      (c.position = c.earlier.length → d.position = d.earlier.length) := by
  have hat := h.next
  rw [hnext] at hat
  obtain ⟨hstands, hplace, hposition⟩ := hat
  exact ⟨hstands, hplace, hplace.symm ▸ hposition⟩

theorem Stands.of_previous (h : c.Stands entries) (hprevious : c.previous = some d) :
    d.Stands entries ∧ d.earlier.length + 1 = c.earlier.length ∧
      (c.position = c.earlier.length → d.position = d.earlier.length) := by
  rcases h.previous with ⟨-, hnone⟩ | ⟨hpos, hat⟩
  · rw [hnone] at hprevious
    cases hprevious
  · rw [hprevious] at hat
    obtain ⟨hstands, hplace, hposition⟩ := hat
    exact ⟨hstands, by omega, hplace.symm ▸ hposition⟩

/-- Only on the first entry there is nothing to go back to. -/
theorem Stands.earlier_eq_nil (h : c.Stands entries) (hnone : c.previous = none) :
    c.earlier = [] := by
  rcases h.previous with ⟨hzero, -⟩ | ⟨hpos, hat⟩
  · exact List.length_eq_zero_iff.1 hzero
  · rw [hnone] at hat
    have hlt := (List.getElem?_eq_some_iff.1 h.getElem?).1
    exact absurd (show entries.length ≤ _ from hat) (by omega)

/-! ### Seeking -/

section Seek

variable [Ord K] {P : K → Prop} {key : K}

/-- The number of entries whose key is below another one. -/
def countBelow (key : K) (entries : List (K × V)) : Nat :=
  entries.countP fun entry => (compare entry.1 key).isLT

theorem countBelow_append (left right : List (K × V)) :
    countBelow key (left ++ right) = countBelow key left + countBelow key right :=
  List.countP_append

theorem countBelow_eq_length (h : ∀ entry ∈ entries, compare entry.1 key = .lt) :
    countBelow key entries = entries.length :=
  List.countP_eq_length.2 fun entry hentry => by rw [h entry hentry]; rfl

theorem countBelow_eq_zero (h : ∀ entry ∈ entries, compare entry.1 key ≠ .lt) :
    countBelow key entries = 0 :=
  List.countP_eq_zero.2 fun entry hentry hlt => h entry hentry (Ordering.isLT_iff_eq_lt.1 hlt)

/-- Of two cursors the one at the smaller place has the smaller key. -/
theorem Stands.lt_of_length_lt (hsorted : StrictlyAscending entries) (hc : c.Stands entries)
    (hd : d.Stands entries) (h : c.earlier.length < d.earlier.length) :
    compare c.key d.key = .lt := by
  obtain ⟨hcplace, hcentry⟩ := List.getElem?_eq_some_iff.1 hc.getElem?
  obtain ⟨hdplace, hdentry⟩ := List.getElem?_eq_some_iff.1 hd.getElem?
  have hlt := List.pairwise_iff_getElem.1 hsorted _ _ hcplace hdplace h
  rwa [hcentry, hdentry] at hlt

/-- In ascending order the entries below a key stand in front of all others. -/
theorem countBelow_split (hP : OrderedOn P) (hkey : P key) (hkeys : ∀ entry ∈ entries, P entry.1)
    (hsorted : StrictlyAscending entries) :
    (∀ entry ∈ entries.take (countBelow key entries), compare entry.1 key = .lt) ∧
      ∀ entry ∈ entries.drop (countBelow key entries), compare entry.1 key ≠ .lt := by
  induction entries with
  | nil => exact ⟨fun _ hmem => absurd hmem List.not_mem_nil, fun _ hmem => absurd hmem
      List.not_mem_nil⟩
  | cons entry entries ih =>
    obtain ⟨hentry, hrest⟩ := List.forall_mem_cons.1 hkeys
    obtain ⟨habove, hsorted⟩ := List.pairwise_cons.1 hsorted
    by_cases hlt : compare entry.1 key = .lt
    · obtain ⟨hbefore, hbehind⟩ := ih hrest hsorted
      have hcount : countBelow key (entry :: entries) = countBelow key entries + 1 :=
        List.countP_cons_of_pos (Ordering.isLT_iff_eq_lt.2 hlt)
      rw [hcount]
      exact ⟨List.forall_mem_cons.2 ⟨hlt, hbefore⟩, hbehind⟩
    · have hnone : ∀ other ∈ entry :: entries, compare other.1 key ≠ .lt :=
        List.forall_mem_cons.2 ⟨hlt, fun other hother hless =>
          hlt (hP.lt_trans hentry (hrest other hother) hkey (habove other hother) hless)⟩
      rw [countBelow_eq_zero hnone]
      exact ⟨fun _ hmem => absurd hmem List.not_mem_nil, hnone⟩

theorem countBelow_leaf (hP : OrderedOn P) (hkey : P key) (h : (Bucket.leaf entries).Ordered P) :
    lowerBound key entries ≤ entries.length ∧ countBelow key entries = lowerBound key entries := by
  have hkeys : ∀ entry ∈ entries, P entry.1 := h.toList_keys
  have hascending : Ascending entries := h.strictlyAscending.ascending
  have hle := lowerBound_le_length hP hkey hkeys hascending
  have hbefore : countBelow key (entries.take (lowerBound key entries)) = _ :=
    countBelow_eq_length fun entry => lt_of_mem_take_lowerBound hP hkey hkeys hascending
  have hbehind : countBelow key (entries.drop (lowerBound key entries)) = 0 :=
    countBelow_eq_zero fun entry => not_lt_of_mem_drop_lowerBound hP hkey hkeys hascending
  refine ⟨hle, ?_⟩
  calc
    countBelow key entries
      = countBelow key (entries.take (lowerBound key entries)) +
          countBelow key (entries.drop (lowerBound key entries)) := by
        rw [← countBelow_append, List.take_append_drop]
    _ = lowerBound key entries := by
      rw [hbefore, hbehind, List.length_take_of_le hle, Nat.add_zero]

/-- A search comes to the place behind all entries that are below the key. -/
theorem at_seek (hP : OrderedOn P) (hkey : P key) (hordered : b.Ordered P) (hfilled : b.Filled)
    (h : Encloses entries b.toList path)
    (hplace : (inFront path).length + countBelow key b.toList = place)
    (hposition : counted → b.Proper ∧ position = (inFront path).length) :
    At entries place counted (seek key path position b) := by
  fun_induction seek key path position b with
  | case1 path position held at_ found value after hdrop =>
    obtain ⟨hle, hcount⟩ := countBelow_leaf hP hkey hordered
    have hheld : held.take at_ ++ (found, value) :: after = held := by
      rw [← hdrop, List.take_append_drop]
    rw [Bucket.toList] at h hplace
    rw [hcount] at hplace
    refine ⟨by simpa [Stands, entry, hheld] using h, ?_, fun hcounted => ?_⟩
    · rw [← hplace, earlier, List.reverse_reverse, List.length_append, List.length_take_of_le hle]
    · rw [← hplace, (hposition hcounted).2]
  | case2 path position held at_ hdrop =>
    obtain ⟨hle, hcount⟩ := countBelow_leaf hP hkey hordered
    have hall : lowerBound key held = held.length :=
      Nat.le_antisymm hle (List.drop_eq_nil_iff.1 hdrop)
    rw [Bucket.toList] at h hplace
    rw [hcount, hall] at hplace
    exact at_climbNext h hplace fun hcounted => by rw [← hplace, (hposition hcounted).2]
  | case3 path position slots last total at_ left moved separator child hslot ih =>
    have hbehind : countBelow key (slotsToList (slots.drop (at_ + 1)) ++ last.toList) = 0 :=
      countBelow_eq_zero fun entry hentry => by
      rw [hordered.gt_of_mem_drop hP hkey hslot hentry]
      decide
    rw [Bucket.toList_inner_of_getElem? hslot] at h hplace
    rw [countBelow_append, countBelow_append, hbehind, Nat.add_zero,
      countBelow_eq_length fun entry => hordered.lt_of_mem_take hP hkey, ← Nat.add_assoc] at hplace
    have hfront : (inFront (⟨left.reverse, child, (slots.drop (at_ + 1)).map Prod.snd ++ [last]⟩ ::
        path)).length = (inFront path).length + (slotsToList (slots.take at_)).length := by
      rw [inFront, List.reverse_reverse, List.length_append, flatMap_toList]
    apply ih (hordered.child hslot) (hfilled.of_getElem? hslot)
    · refine .child (hfilled.of_getElem? hslot) ?_ ?_ ?_
      · have hleft : ∀ b ∈ left, b.Filled := List.forall_mem_map.2 fun slot hmem =>
          hfilled.of_mem_slots slot (List.mem_of_mem_take hmem)
        simpa using hleft
      · have hright : ∀ b ∈ (slots.drop (at_ + 1)).map Prod.snd, b.Filled :=
          List.forall_mem_map.2 fun slot hmem =>
          hfilled.of_mem_slots slot (List.mem_of_mem_drop hmem)
        exact List.forall_mem_append.2 ⟨hright, by simpa using hfilled.last_child⟩
      · rw [List.reverse_reverse, List.flatMap_append, flatMap_toList, flatMap_toList,
          List.append_assoc]
        simpa using h
    · rw [hfront, hplace]
    · intro hcounted
      obtain ⟨hproper, hposition⟩ := hposition hcounted
      refine ⟨hproper.of_getElem? hslot, ?_⟩
      rw [hfront, ← hposition, ← Bucket.Proper.totalOf_eq fun slot hmem =>
        hproper.of_mem_slots slot (List.mem_of_mem_take hmem)]
  | case4 path position slots last total at_ left moved hslot ih =>
    have hleft : left = slots.map Prod.snd :=
      congrArg (List.map Prod.snd) (List.take_of_length_le (List.getElem?_eq_none_iff.1 hslot))
    rw [Bucket.toList] at h hplace
    rw [countBelow_append, countBelow_eq_length fun entry => hordered.lt_of_mem_slots hP hkey hslot,
      ← Nat.add_assoc] at hplace
    have hfront : (inFront (⟨left.reverse, last, []⟩ :: path)).length =
        (inFront path).length + (slotsToList slots).length := by
      rw [inFront, List.reverse_reverse, List.length_append, hleft, flatMap_toList]
    apply ih hordered.last_child hfilled.last_child
    · refine .child hfilled.last_child ?_ (by simp) ?_
      · simpa [hleft] using fun b a hmem => hfilled.of_mem_slots (a, b) hmem
      · simpa [hleft, flatMap_toList] using h
    · rw [hfront, hplace]
    · intro hcounted
      obtain ⟨hproper, hposition⟩ := hposition hcounted
      refine ⟨hproper.last_child, ?_⟩
      rw [hfront, ← hposition, ← Bucket.Proper.totalOf_eq hproper.of_mem_slots, ← hleft]

end Seek

end Cursor

/-! ### Cursors of a map -/

variable [Ord K] {P : K → Prop} {m : SortedMap K V} {key : K}

theorem Valid.at_first (h : m.Valid P) (counted : Prop) :
    Cursor.At m.toList 0 counted m.first := by
  rcases h.cases_root with rfl | ⟨b, rfl, _, hfilled⟩
  · exact Nat.le_refl _
  · exact Cursor.at_leftmost hfilled .root rfl fun _ => rfl

theorem Valid.at_last (h : m.Valid P) :
    Cursor.At m.toList (m.toList.length - 1) (∀ b, m.root = some b → b.Proper) m.last := by
  rcases h.cases_root with rfl | ⟨b, rfl, _, hfilled⟩
  · exact Nat.zero_le _
  · have hpos := List.length_pos_iff.2 hfilled.toList_ne_nil
    refine Cursor.at_rightmost hfilled .root ?_ fun hproper => ?_
    · rw [Cursor.inFront, List.length_nil, Nat.zero_add]
      exact (Nat.sub_add_cancel hpos).symm
    · rw [(hproper b rfl).total_eq]
      rfl

theorem Valid.at_seek (hP : OrderedOn P) (hkey : P key) (h : m.Valid P) :
    Cursor.At m.toList (Cursor.countBelow key m.toList) (∀ b, m.root = some b → b.Proper)
      (m.seek key) := by
  rcases h.cases_root with rfl | ⟨b, rfl, hordered, hfilled⟩
  · exact Nat.zero_le _
  · exact Cursor.at_seek hP hkey hordered hfilled .root (Nat.zero_add _) fun hproper =>
      ⟨hproper b rfl, rfl⟩

/-- Without an entry to end on, all keys are below the one searched for. -/
theorem Valid.lt_of_seek_eq_none (hP : OrderedOn P) (hkey : P key) (h : m.Valid P)
    (hnone : m.seek key = none) : ∀ entry ∈ m.toList, compare entry.1 key = .lt := by
  have hat := h.at_seek hP hkey
  rw [hnone] at hat
  obtain ⟨hbefore, -⟩ := Cursor.countBelow_split hP hkey h.keys h.strictlyAscending
  rwa [List.take_of_length_le hat] at hbefore

/-- A search parts the entries of a map into those below the key and the others. -/
theorem Valid.of_seek (hP : OrderedOn P) (hkey : P key) (h : m.Valid P) {c : Cursor K V}
    (hfound : m.seek key = some c) :
    c.Stands m.toList ∧ (∀ entry ∈ c.earlier, compare entry.1 key = .lt) ∧
      compare c.key key ≠ .lt ∧ ∀ entry ∈ c.later, compare entry.1 key = .gt := by
  have hat := h.at_seek hP hkey
  rw [hfound] at hat
  obtain ⟨hstands, hplace, -⟩ := hat
  have hsplit := hstands.split
  obtain ⟨hbefore, hbehind⟩ := Cursor.countBelow_split hP hkey h.keys h.strictlyAscending
  rw [← hplace, hstands.take] at hbefore
  rw [← hplace, ← hsplit, List.drop_left] at hbehind
  have hhere : compare c.key key ≠ .lt := hbehind c.entry List.mem_cons_self
  refine ⟨hstands, hbefore, hhere, fun entry hentry => ?_⟩
  have hkeys := h.keys
  have hsorted := h.strictlyAscending
  rw [← hsplit] at hkeys hsorted
  have hc : P c.key := hkeys c.entry (by simp)
  have hother : P entry.1 := hkeys entry (by simp [hentry])
  have hless : compare c.key entry.1 = .lt :=
    (List.pairwise_cons.1 (List.pairwise_append.1 hsorted).2.1).1 entry hentry
  have hle : (compare key c.key).isLE := by
    rw [hP.swap hkey hc]
    revert hhere
    cases compare c.key key <;> decide
  exact (hP.gt_iff_lt hother hkey).2 (hP.lt_of_isLE_of_lt hkey hc hother hle hless)

end SnapshotStore.SortedMap
