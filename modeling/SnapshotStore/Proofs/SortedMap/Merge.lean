import SnapshotStore.Proofs.SortedMap.Refinement

/-!
# Merging maps

Merging puts the entries of one map into another, and what a key of the other map has is replaced.
Where the two walks stand only decides how an entry is put in, so the result has the entries that
come out of inserting one after the other.
-/

namespace SnapshotStore

/-- The entries of one list put into another. -/
def Entries.merge {K V : Type} [Ord K] (entries others : List (K × V)) : List (K × V) :=
  others.foldl (fun held (key, value) => Entries.insert key value held) entries

namespace SortedMap

variable {K V : Type} [Ord K] {m other : SortedMap K V} {entries others : List (K × V)}

/-- A map that some operations make, merging among them, and the list that they make of entries. -/
inductive Assembled : SortedMap K V → List (K × V) → Prop where
  | made {m : SortedMap K V} {entries : List (K × V)} (h : Made m entries) : Assembled m entries
  | insert {m : SortedMap K V} {entries : List (K × V)} (h : Assembled m entries) (key : K)
      (value : V) : Assembled (m.insert key value) (Entries.insert key value entries)
  | replace {m changed : SortedMap K V} {entries : List (K × V)} {key : K} {value : V}
      (h : Assembled m entries) (hchanged : m.replace? key value = some changed) :
      Assembled changed (Entries.replace key value entries)
  | erase {m : SortedMap K V} {entries : List (K × V)} (h : Assembled m entries) (key : K) :
      Assembled (m.erase key) (Entries.erase key entries)
  | merge {m other : SortedMap K V} {entries others : List (K × V)} (h : Assembled m entries)
      (hother : Assembled other others) : Assembled (m.merge other) (Entries.merge entries others)

variable [Std.TransOrd K] {key : K} {value : V}

/-- Replacing what a key has is inserting, if the key is there. -/
theorem Holds.replace_or_insert (h : m.Holds entries) (key : K) (value : V) :
    ((m.replace? key value).getD (m.insert key value)).Holds
      (Entries.insert key value entries) := by
  have hinsert := h.insert key value
  cases hreplaced : m.replace? key value with
  | none => exact hinsert
  | some changed =>
    have hpresent : m.contains key := by
      refine Decidable.of_not_not fun habsent => ?_
      rw [(Valid.replace?_eq_none_iff orderedOn_true trivial h.lawful).2 habsent] at hreplaced
      cases hreplaced
    have hsame : Entries.insert key value entries = Entries.replace key value entries := by
      rw [← hinsert.toList, Valid.insert_eq_replace orderedOn_true trivial h.lawful hpresent,
        h.toList]
    rw [Option.getD_some, hsame]
    exact h.replace hreplaced

/-- Wherever the walk over the map stands, each further entry of the other one is put in. -/
theorem Holds.mergeInto (h : m.Holds entries) (mine theirs : List (K × V)) :
    (mergeInto m mine theirs).Holds (Entries.merge entries theirs) := by
  fun_induction SortedMap.mergeInto m mine theirs generalizing entries with
  | case1 m mine => exact h
  | case2 m key value theirs ih => exact ih (h.insert key value)
  | case3 m mine kept rest key value theirs hlt ih => exact ih h
  | case4 m mine kept rest key value theirs heq ih => exact ih (h.replace_or_insert key value)
  | case5 m mine kept rest key value theirs hgt ih => exact ih (h.insert key value)

theorem Holds.merge (h : m.Holds entries) (hother : other.Holds others) :
    (m.merge other).Holds (Entries.merge entries others) := by
  rw [SortedMap.merge, hother.toList]
  exact h.mergeInto m.toList others

theorem Assembled.holds (h : Assembled m entries) : m.Holds entries := by
  induction h with
  | made h => exact h.holds
  | insert _ key value ih => exact ih.insert key value
  | replace _ hchanged ih => exact ih.replace hchanged
  | erase _ key ih => exact ih.erase key
  | merge _ _ ih ihother => exact ih.merge ihother

end SortedMap

end SnapshotStore
