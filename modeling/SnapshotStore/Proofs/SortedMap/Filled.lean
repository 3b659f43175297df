import SnapshotStore.Proofs.SortedMap.Insertion
import SnapshotStore.Proofs.SortedMap.Removal

/-!
# No leaf is empty

Splitting a full leaf leaves entries on both sides, and a leaf that loses its last entry disappears
with all buckets that held nothing else. So a tree has an entry below each of its buckets.
-/

namespace SnapshotStore.Bucket

open SortedMap (lowerBound find?)

variable {K V : Type}

inductive Filled : Bucket K V → Prop where
  | of_leaf {entries : List (K × V)} (hentries : entries ≠ []) : Filled (leaf entries)
  | of_inner {slots : List (K × Bucket K V)} {last : Bucket K V} {total : Nat}
      (hslots : ∀ slot ∈ slots, Filled slot.2) (hlast : Filled last) :
      Filled (inner slots last total)

variable {b low high child : Bucket K V} {slots slots' : List (K × Bucket K V)}
  {last last' : Bucket K V} {total place : Nat} {separator : K}

theorem Filled.ne_nil {entries : List (K × V)} (h : (leaf entries).Filled) : entries ≠ [] := by
  cases h with
  | of_leaf hentries => exact hentries

theorem Filled.of_mem_slots (h : (inner slots last total).Filled) :
    ∀ slot ∈ slots, slot.2.Filled := by
  cases h with
  | of_inner hslots _ => exact hslots

theorem Filled.last_child (h : (inner slots last total).Filled) : last.Filled := by
  cases h with
  | of_inner _ hlast => exact hlast

theorem Filled.of_getElem? (h : (inner slots last total).Filled)
    (hslot : slots[place]? = some (separator, child)) : child.Filled :=
  h.of_mem_slots (separator, child) (List.mem_of_getElem? hslot)

theorem Filled.toList_ne_nil (h : b.Filled) : b.toList ≠ [] := by
  induction h with
  | of_leaf hentries => exact hentries
  | of_inner _ _ _ ih =>
    rw [toList]
    exact List.append_ne_nil_of_right_ne_nil _ ih

theorem Filled.set_slot (h : (inner slots last total).Filled) (place : Nat) (separator : K)
    (hchild : child.Filled) (sum : Nat) :
    (inner (slots.set place (separator, child)) last sum).Filled := by
  refine .of_inner (fun slot hslot => ?_) h.last_child
  rcases List.mem_or_eq_of_mem_set hslot with hslot | rfl
  · exact h.of_mem_slots slot hslot
  · exact hchild

/-! ### Inserting -/

theorem Filled.split (h : b.Filled) (hfull : b.isFull)
    (hsplit : b.split? = some (separator, low, high)) : low.Filled ∧ high.Filled := by
  have hcount : b.count = 8 := by simpa [isFull, capacity] using hfull
  cases b with
  | leaf entries =>
    obtain ⟨entry, _, heq⟩ := Option.map_eq_some_iff.1 hsplit
    cases heq
    rw [count] at hcount
    refine ⟨.of_leaf fun hnil => ?_, .of_leaf fun hnil => ?_⟩
    · have hlength := congrArg List.length hnil
      rw [List.length_take, List.length_nil] at hlength
      omega
    · have hlength := congrArg List.length hnil
      rw [List.length_drop, List.length_nil] at hlength
      omega
  | inner slots last total =>
    obtain ⟨slot, hslot, heq⟩ := Option.map_eq_some_iff.1 hsplit
    cases heq
    exact ⟨.of_inner (fun slot hslot => h.of_mem_slots slot (List.mem_of_mem_take hslot))
      (h.of_getElem? hslot), .of_inner (fun slot hslot => h.of_mem_slots slot
      (List.mem_of_mem_drop hslot)) h.last_child⟩

theorem Filled.splitAt (h : (inner slots last total).Filled)
    (hfull : ((slots[place]?.map Prod.snd).getD last).isFull)
    (hsplit : splitAt? slots last place = some (slots', last')) (sum : Nat) :
    (inner slots' last' sum).Filled := by
  obtain ⟨hslots, hlast⟩ := forall_splitAt hfull hsplit
    (fun hfull hsplit h => Filled.split h hfull hsplit) h.of_mem_slots h.last_child
  exact .of_inner hslots hlast

variable [Ord K] {key : K} {value : V}

theorem Filled.replace? {c : Bucket K V} (h : b.Filled) (hsome : b.replace? key value = some c) :
    c.Filled := by
  fun_induction Bucket.replace? key value b generalizing c with
  | case1 entries =>
    obtain ⟨place, _, rfl⟩ := Option.map_eq_some_iff.1 hsome
    refine .of_leaf fun hnil => h.ne_nil (List.length_eq_zero_iff.1 ?_)
    rw [← List.length_modify (fun entry => (entry.1, value)) entries place, hnil, List.length_nil]
  | case2 slots last total place separator child hslot =>
    rename_i ih
    obtain ⟨changed, hchanged, rfl⟩ := Option.map_eq_some_iff.1 hsome
    exact h.set_slot place separator (ih (h.of_getElem? hslot) hchanged) total
  | case3 slots last total place hslot =>
    rename_i ih
    obtain ⟨changed, hchanged, rfl⟩ := Option.map_eq_some_iff.1 hsome
    exact .of_inner h.of_mem_slots (ih h.last_child hchanged)

theorem Filled.insert (h : b.Filled) : (b.insert key value).Filled := by
  fun_induction Bucket.insert key value b with
  | case1 entries =>
    refine .of_leaf fun hnil => h.ne_nil (List.length_eq_zero_iff.1 (Nat.le_zero.1 ?_))
    have hlength := @List.length_le_length_insertIdx _ entries (key, value) (lowerBound key entries)
    rwa [hnil] at hlength
  | case2 slots last total place hfull slots' last' hsplit ih =>
    exact ih (h.splitAt hfull hsplit total)
  | case3 slots last total place hfull hsplit => exact h
  | case4 slots last total place hroom separator child hslot ih =>
    exact h.set_slot place separator (ih (h.of_getElem? hslot)) (total + 1)
  | case5 slots last total place hroom hslot ih => exact .of_inner h.of_mem_slots (ih h.last_child)

/-! ### Erasing -/

def Remainder.Filled : Remainder K V → Prop
  | .unchanged | .nothing => True
  | .bucket rest => rest.Filled

omit [Ord K] in
theorem filled_relink (hslots : ∀ slot ∈ slots, slot.2.Filled) (hlast : last.Filled) :
    (relink slots last total).Filled := by
  unfold relink
  split
  · exact hlast
  · exact Filled.of_inner hslots hlast

theorem Filled.erase (h : b.Filled) : (b.erase key).Filled := by
  fun_induction Bucket.erase key b with
  | case1 | case2 | case4 | case7 | case10 => trivial
  | case3 entries place hfound hmore =>
    refine Filled.of_leaf fun hnil => ?_
    have hplace : place < entries.length := by
      obtain ⟨entry, hentry, _⟩ := SortedMap.compare_of_find?_eq_some hfound
      exact (List.getElem?_eq_some_iff.1 hentry).1
    have hlength := List.length_eraseIdx_of_lt hplace
    rw [hnil, List.length_nil] at hlength
    omega
  | case5 slots last total place separator child hslot rest herase ih =>
    rw [herase] at ih
    have hset := h.set_slot place separator (ih (h.of_getElem? hslot)) total
    exact filled_relink hset.of_mem_slots hset.last_child
  | case6 slots last total place separator child hslot herase ih =>
    exact filled_relink (fun slot hmem => h.of_mem_slots slot (List.mem_of_mem_eraseIdx hmem))
      h.last_child
  | case8 slots last total place hslot rest herase ih =>
    rw [herase] at ih
    exact filled_relink h.of_mem_slots (ih h.last_child)
  | case9 slots last total place hslot herase separator child hbefore ih =>
    exact filled_relink (fun slot hmem => h.of_mem_slots slot
      ((List.dropLast_sublist slots).subset hmem)) (h.of_mem_slots _ (List.mem_of_getLast? hbefore))

end SnapshotStore.Bucket
