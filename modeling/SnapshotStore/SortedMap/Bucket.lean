import SnapshotStore.SortedMap.Search

/-!
# Buckets of the copy-on-write tree

A bucket holds up to eight slots. The slots of a leaf are entries; those of an inner bucket pair a
child with a separator, the greatest key that the child may hold, and a last child takes every key
above the separators. A full child is split on the way down to where a key is placed. Removal
unlinks emptied children and lets an inner bucket without slots collapse into its last child;
nothing else is rebalanced.
-/

namespace SnapshotStore

/-- An inner bucket knows the number of entries below it. -/
inductive Bucket (K V : Type) where
  | leaf (entries : List (K × V))
  | inner (slots : List (K × Bucket K V)) (last : Bucket K V) (total : Nat)

namespace Bucket

open SortedMap (lowerBound find?)

/-- The most slots that a bucket holds. -/
def capacity : Nat := 8

variable {K V : Type}

/-- Number of slots. -/
def count : Bucket K V → Nat
  | leaf entries => entries.length
  | inner slots _ _ => slots.length

/-- Number of entries. -/
def total : Bucket K V → Nat
  | leaf entries => entries.length
  | inner _ _ total => total

/-- Number of entries of several buckets. -/
def totalOf (buckets : List (Bucket K V)) : Nat := buckets.foldr (fun b sum => b.total + sum) 0

def isFull (b : Bucket K V) : Bool := b.count == capacity

mutual

/-- The entries in the order of the tree. -/
def toList : Bucket K V → List (K × V)
  | leaf entries => entries
  | inner slots last _ => slotsToList slots ++ last.toList

def slotsToList : List (K × Bucket K V) → List (K × V)
  | [] => []
  | (_, child) :: slots => child.toList ++ slotsToList slots

end

/-- An inner bucket over the given children. -/
def join (slots : List (K × Bucket K V)) (last : Bucket K V) : Bucket K V :=
  inner slots last (totalOf (slots.map Prod.snd) + last.total)

/-- The two halves of a full bucket and the separator between them. -/
def split? : Bucket K V → Option (K × Bucket K V × Bucket K V)
  | leaf entries =>
    entries[3]?.map fun (separator, _) => (separator, leaf (entries.take 4), leaf (entries.drop 4))
  | inner slots last _ =>
    slots[3]?.map fun (separator, child) => (separator, join (slots.take 3) child, join (slots.drop 4) last)

/-- The slots and the last child after the child at `place` has been split in two. -/
def splitAt? (slots : List (K × Bucket K V)) (last : Bucket K V) (place : Nat) :
    Option (List (K × Bucket K V) × Bucket K V) :=
  match slots[place]? with
  | some (upper, child) =>
    child.split?.map fun (separator, low, high) =>
      (slots.take place ++ (separator, low) :: (upper, high) :: slots.drop (place + 1), last)
  | none => last.split?.map fun (separator, low, high) => (slots ++ [(separator, low)], high)

/-! ### Splitting ends -/

mutual

/-- What splitting can still do below a bucket: a full child weighs more than its two halves. -/
def load : Bucket K V → Nat
  | leaf _ => 0
  | inner slots last _ => slotsLoad slots + (load last + if last.isFull then 3 else 1)

def slotsLoad : List (K × Bucket K V) → Nat
  | [] => 0
  | (_, child) :: slots => (load child + if child.isFull then 3 else 1) + slotsLoad slots

end

theorem slotsLoad_append (left right : List (K × Bucket K V)) :
    slotsLoad (left ++ right) = slotsLoad left + slotsLoad right := by
  induction left with
  | nil => simp [slotsLoad]
  | cons slot left ih => obtain ⟨_, child⟩ := slot; simp [slotsLoad, ih]; omega

theorem load_lt_of_getElem? {slots : List (K × Bucket K V)} {place : Nat} {slot : K × Bucket K V}
    (h : slots[place]? = some slot) : slot.2.load < slotsLoad slots := by
  induction slots generalizing place with
  | nil => simp at h
  | cons first slots ih =>
    obtain ⟨_, child⟩ := first
    cases place with
    | zero => simp at h; subst h; simp only [slotsLoad]; split <;> omega
    | succ place => have := ih (by simpa using h); simp only [slotsLoad]; omega

theorem slotsLoad_eq_of_getElem? {slots : List (K × Bucket K V)} {place : Nat} {key : K} {child : Bucket K V}
    (h : slots[place]? = some (key, child)) :
    slotsLoad slots = slotsLoad (slots.take place) + slotsLoad ((key, child) :: slots.drop (place + 1)) := by
  obtain ⟨hplace, hslot⟩ := List.getElem?_eq_some_iff.1 h
  rw [← slotsLoad_append, ← hslot, List.getElem_cons_drop, List.take_append_drop]

/-- The halves of a full bucket have room. -/
theorem load_split {b low high : Bucket K V} {separator : K} (hfull : b.isFull = true)
    (h : b.split? = some (separator, low, high)) :
    low.isFull = false ∧ high.isFull = false ∧ low.load + high.load < b.load + 1 := by
  cases b with
  | leaf entries =>
    simp only [isFull, count, capacity, beq_iff_eq] at hfull
    simp only [split?, Option.map_eq_some_iff, Prod.mk.injEq] at h
    obtain ⟨_, _, rfl, rfl, rfl⟩ := h
    simp [isFull, count, capacity, load, hfull]
  | inner slots last total =>
    simp only [isFull, count, capacity, beq_iff_eq] at hfull
    simp only [split?, Option.map_eq_some_iff, Prod.mk.injEq] at h
    obtain ⟨⟨key, child⟩, hslot, rfl, rfl, rfl⟩ := h
    refine ⟨by simp [isFull, count, capacity, join, hfull], by simp [isFull, count, capacity, join, hfull], ?_⟩
    have := slotsLoad_eq_of_getElem? hslot
    simp only [join, load]
    simp only [slotsLoad, Nat.reduceAdd] at this
    omega

theorem load_splitAt {slots slots' : List (K × Bucket K V)} {last last' : Bucket K V} {place total : Nat}
    (hfull : ((slots[place]?.map Prod.snd).getD last).isFull = true)
    (h : splitAt? slots last place = some (slots', last')) :
    (inner slots' last' total).load < (inner slots last total).load := by
  unfold splitAt? at h
  split at h
  · next upper child hslot =>
    simp only [Option.map_eq_some_iff, Prod.mk.injEq] at h
    obtain ⟨⟨separator, low, high⟩, hsplit, rfl, rfl⟩ := h
    simp only [hslot, Option.map_some, Option.getD_some] at hfull
    obtain ⟨hlow, hhigh, hload⟩ := load_split hfull hsplit
    have := slotsLoad_eq_of_getElem? hslot
    simp only [load, slotsLoad_append, slotsLoad, hlow, hhigh, hfull, if_true] at this ⊢
    simp
    omega
  · next hslot =>
    simp only [Option.map_eq_some_iff, Prod.mk.injEq] at h
    obtain ⟨⟨separator, low, high⟩, hsplit, rfl, rfl⟩ := h
    simp only [hslot, Option.map_none, Option.getD_none] at hfull
    obtain ⟨hlow, hhigh, hload⟩ := load_split hfull hsplit
    simp only [load, slotsLoad_append, slotsLoad, hlow, hhigh, hfull, if_true]
    simp
    omega

/-! ### Looking up and changing entries -/

theorem sizeOf_lt_of_getElem? {slots : List (K × Bucket K V)} {place : Nat} {key : K} {child : Bucket K V}
    (h : slots[place]? = some (key, child)) : sizeOf child < sizeOf slots := by
  have := List.sizeOf_lt_of_mem (List.mem_of_getElem? h)
  simp only [Prod.mk.sizeOf_spec] at this
  omega

variable [Ord K]

def get? (key : K) : Bucket K V → Option V
  | leaf entries => (find? key entries).bind fun place => entries[place]?.map Prod.snd
  | inner slots last _ =>
    match _h : slots[lowerBound key slots]? with
    | some (_, child) => child.get? key
    | none => last.get? key
termination_by b => sizeOf b
decreasing_by
  · have := sizeOf_lt_of_getElem? _h; simp only [inner.sizeOf_spec]; omega
  · simp only [inner.sizeOf_spec]; omega

/-- The bucket with a new value under a key that it holds; the stored key stays. -/
def replace? (key : K) (value : V) : Bucket K V → Option (Bucket K V)
  | leaf entries =>
    (find? key entries).map fun place => leaf (entries.modify place fun entry => (entry.1, value))
  | inner slots last total =>
    let place := lowerBound key slots
    match _h : slots[place]? with
    | some (separator, child) =>
      (child.replace? key value).map fun child => inner (slots.set place (separator, child)) last total
    | none => (last.replace? key value).map fun last => inner slots last total
termination_by b => sizeOf b
decreasing_by
  · have := sizeOf_lt_of_getElem? _h; simp only [inner.sizeOf_spec]; omega
  · simp only [inner.sizeOf_spec]; omega

/-- The bucket with an entry under a key that it does not hold; the bucket has a free slot. -/
def insert (key : K) (value : V) : Bucket K V → Bucket K V
  | leaf entries => leaf (entries.insertIdx (lowerBound key entries) (key, value))
  | inner slots last total =>
    let place := lowerBound key slots
    if _hfull : ((slots[place]?.map Prod.snd).getD last).isFull then
      match _h : splitAt? slots last place with
      | some (slots, last) => (inner slots last total).insert key value
      | none => inner slots last total
    else
      match _h : slots[place]? with
      | some (separator, child) => inner (slots.set place (separator, child.insert key value)) last (total + 1)
      | none => inner slots (last.insert key value) (total + 1)
termination_by b => b.load
decreasing_by
  · exact load_splitAt _hfull _h
  · have := load_lt_of_getElem? _h; simp only [load] at *; omega
  · simp only [load]; split <;> omega

/-- What is left of a bucket once a key is taken out. -/
inductive Remainder (K V : Type) where
  | unchanged
  | nothing
  | bucket (rest : Bucket K V)

/-- An inner bucket without slots collapses into its last child. -/
def relink (slots : List (K × Bucket K V)) (last : Bucket K V) (total : Nat) : Remainder K V :=
  if slots.isEmpty then .bucket last else .bucket (inner slots last total)

def erase (key : K) : Bucket K V → Remainder K V
  | leaf entries =>
    match find? key entries with
    | none => .unchanged
    | some place => if entries.length = 1 then .nothing else .bucket (leaf (entries.eraseIdx place))
  | inner slots last total =>
    let place := lowerBound key slots
    match _h : slots[place]? with
    | some (separator, child) =>
      match child.erase key with
      | .unchanged => .unchanged
      | .bucket child => relink (slots.set place (separator, child)) last (total - 1)
      | .nothing => relink (slots.eraseIdx place) last (total - 1)
    | none =>
      match last.erase key with
      | .unchanged => .unchanged
      | .bucket last => relink slots last (total - 1)
      | .nothing =>
        match slots.getLast? with
        | some (_, child) => relink slots.dropLast child (total - 1)
        | none => .nothing
termination_by b => sizeOf b
decreasing_by
  · have := sizeOf_lt_of_getElem? _h; simp only [inner.sizeOf_spec]; omega
  · simp only [inner.sizeOf_spec]; omega

end Bucket

end SnapshotStore
