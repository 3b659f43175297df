import SnapshotStore.Proofs.Alike.Results
import SnapshotStore.SortedMap.Basic

/-!
# Maps of one shape

Two maps are alike if their trees have one shape and their keys and values are related place by
place. Whatever an operation does hangs on the shape and on comparisons of keys; where related keys
compare alike, it keeps maps alike, even if the order of the keys has no laws at all.
-/

namespace SnapshotStore

variable {K K' V V' W W' : Type}

/-- Related keys stand to each other as their partners do. -/
def ComparesAlike [Ord K] [Ord K'] (R : K → K' → Prop) : Prop :=
  ∀ a a' b b', R a a' → R b b' → compare a b = compare a' b'

theorem comparesAlike_eq [Ord K] : ComparesAlike (Eq : K → K → Prop) := by
  rintro a _ b _ rfl rfl
  rfl

/-- A key and what stands under it. -/
def RelatedEntry (R : K → K' → Prop) (S : V → V' → Prop) (entry : K × V) (entry' : K' × V') :
    Prop :=
  R entry.1 entry'.1 ∧ S entry.2 entry'.2

/-! ### Searching -/

namespace SortedMap

variable [Ord K] [Ord K'] {R : K → K' → Prop} {S : V → V' → Prop} {key : K} {key' : K'}
  {slots : List (K × V)} {slots' : List (K' × V')}

theorem any_alike (hR : ComparesAlike R) (hslots : List.Forall₂ (RelatedEntry R S) slots slots')
    (hkey : R key key') (p : Ordering → Bool) (place : Nat) :
    (slots[place]?.any fun slot => p (compare slot.1 key)) =
      slots'[place]?.any fun slot => p (compare slot.1 key') :=
  rel_option_any (rel_getElem? hslots place) fun _ _ h =>
    congrArg p (hR _ _ _ _ h.1 hkey)

theorem lowerBound_alike (hR : ComparesAlike R)
    (hslots : List.Forall₂ (RelatedEntry R S) slots slots') (hkey : R key key') :
    lowerBound key slots = lowerBound key' slots' := by
  have hbelow := any_alike hR hslots hkey Ordering.isLT
  simp only [lowerBound, hbelow, hslots.length_eq]

theorem find?_alike (hR : ComparesAlike R)
    (hslots : List.Forall₂ (RelatedEntry R S) slots slots') (hkey : R key key') :
    find? key slots = find? key' slots' := by
  have hreaches := any_alike hR hslots hkey Ordering.isLE
  have hfound := any_alike hR hslots hkey Ordering.isEq
  simp only [find?, hreaches, hfound, hslots.length_eq]

end SortedMap

/-! ### Buckets -/

namespace Bucket

open SortedMap (lowerBound find?)

mutual

/-- Buckets of one shape with related keys and values; the separators count as keys. -/
inductive Alike (R : K → K' → Prop) (S : V → V' → Prop) : Bucket K V → Bucket K' V' → Prop where
  | leaf {entries : List (K × V)} {entries' : List (K' × V')}
      (hentries : List.Forall₂ (RelatedEntry R S) entries entries') :
      Alike R S (.leaf entries) (.leaf entries')
  | inner {slots : List (K × Bucket K V)} {slots' : List (K' × Bucket K' V')} {last : Bucket K V}
      {last' : Bucket K' V'} {total : Nat} (hslots : SlotsAlike R S slots slots')
      (hlast : Alike R S last last') :
      Alike R S (.inner slots last total) (.inner slots' last' total)

inductive SlotsAlike (R : K → K' → Prop) (S : V → V' → Prop) :
    List (K × Bucket K V) → List (K' × Bucket K' V') → Prop where
  | nil : SlotsAlike R S [] []
  | cons {key : K} {key' : K'} {child : Bucket K V} {child' : Bucket K' V'}
      {slots : List (K × Bucket K V)} {slots' : List (K' × Bucket K' V')} (hkey : R key key')
      (hchild : Alike R S child child') (hslots : SlotsAlike R S slots slots') :
      SlotsAlike R S ((key, child) :: slots) ((key', child') :: slots')

end

variable {R : K → K' → Prop} {S : V → V' → Prop} {b last low high : Bucket K V}
  {b' last' : Bucket K' V'} {slots : List (K × Bucket K V)} {slots' : List (K' × Bucket K' V')}
  {key : K} {key' : K'} {value : V} {value' : V'}

theorem slotsAlike_iff :
    SlotsAlike R S slots slots' ↔ List.Forall₂ (RelatedEntry R (Alike R S)) slots slots' := by
  constructor
  · intro h
    induction slots generalizing slots' with
    | nil =>
      cases h
      exact .nil
    | cons slot slots ih =>
      cases h with
      | cons hkey hchild hslots => exact .cons ⟨hkey, hchild⟩ (ih hslots)
  · intro h
    induction h with
    | nil => exact .nil
    | cons hslot _ ih => exact .cons hslot.1 hslot.2 ih

theorem Alike.count_eq (h : Alike R S b b') : b.count = b'.count := by
  cases h with
  | leaf hentries => exact hentries.length_eq
  | inner hslots => exact (slotsAlike_iff.1 hslots).length_eq

theorem Alike.isFull_eq (h : Alike R S b b') : b.isFull = b'.isFull := by
  rw [isFull, isFull, h.count_eq]

theorem Alike.total_eq (h : Alike R S b b') : b.total = b'.total := by
  cases h with
  | leaf hentries => exact hentries.length_eq
  | inner => rfl

mutual

theorem Alike.toList : ∀ {b : Bucket K V} {b' : Bucket K' V'}, Alike R S b b' →
    List.Forall₂ (RelatedEntry R S) b.toList b'.toList
  | _, _, .leaf hentries => hentries
  | _, _, .inner hslots hlast => by
    rw [Bucket.toList, Bucket.toList]
    exact List.rel_append hslots.toList hlast.toList

theorem SlotsAlike.toList : ∀ {slots : List (K × Bucket K V)} {slots' : List (K' × Bucket K' V')},
    SlotsAlike R S slots slots' →
      List.Forall₂ (RelatedEntry R S) (slotsToList slots) (slotsToList slots')
  | _, _, .nil => .nil
  | _, _, .cons _ hchild hslots => by
    rw [slotsToList, slotsToList]
    exact List.rel_append hchild.toList hslots.toList

end

theorem totalOf_alike {buckets : List (Bucket K V)} {buckets' : List (Bucket K' V')}
    (h : List.Forall₂ (Alike R S) buckets buckets') : totalOf buckets = totalOf buckets' := by
  induction h with
  | nil => rfl
  | cons hfirst _ ih =>
    rw [totalOf, List.foldr_cons, hfirst.total_eq, ← totalOf, ih]
    rfl

theorem Alike.join (hslots : List.Forall₂ (RelatedEntry R (Alike R S)) slots slots')
    (hlast : Alike R S last last') :
    Alike R S (Bucket.join slots last) (Bucket.join slots' last') := by
  have hchildren : List.Forall₂ (Alike R S) (slots.map Prod.snd) (slots'.map Prod.snd) :=
    List.rel_map (fun _ _ h => h.2) hslots
  rw [Bucket.join, Bucket.join, totalOf_alike hchildren, hlast.total_eq]
  exact .inner (slotsAlike_iff.2 hslots) hlast

/-- What a split comes to: a separator and two buckets. -/
def RelatedHalves (R : K → K' → Prop) (S : V → V' → Prop) (halves : K × Bucket K V × Bucket K V)
    (halves' : K' × Bucket K' V' × Bucket K' V') : Prop :=
  R halves.1 halves'.1 ∧ Alike R S halves.2.1 halves'.2.1 ∧ Alike R S halves.2.2 halves'.2.2

theorem Alike.split? (h : Alike R S b b') : Option.Rel (RelatedHalves R S) b.split? b'.split? := by
  cases h with
  | leaf hentries =>
    exact rel_option_map (rel_getElem? hentries 3) fun _ _ hentry =>
      ⟨hentry.1, .leaf (List.forall₂_take 4 hentries), .leaf (List.forall₂_drop 4 hentries)⟩
  | inner hslots hlast =>
    have hslots := slotsAlike_iff.1 hslots
    exact rel_option_map (rel_getElem? hslots 3) fun _ _ hslot =>
      ⟨hslot.1, .join (List.forall₂_take 3 hslots) hslot.2,
        .join (List.forall₂_drop 4 hslots) hlast⟩

/-- A root without room is split in two below a new one. -/
theorem Alike.grown (h : Alike R S b b') :
    Alike R S
      (if b.isFull then
        b.split?.elim b fun (separator, low, high) => Bucket.join [(separator, low)] high
        else b)
      (if b'.isFull then
        b'.split?.elim b' fun (separator, low, high) => Bucket.join [(separator, low)] high
        else b') := by
  rw [h.isFull_eq]
  split
  · have hhalves := h.split?
    generalize b.split? = halves, b'.split? = halves' at hhalves
    cases hhalves with
    | none => exact h
    | some hhalves =>
      refine .join (.cons ?_ .nil) hhalves.2.2
      exact ⟨hhalves.1, hhalves.2.1⟩
  · exact h

theorem splitAt?_alike (hslots : List.Forall₂ (RelatedEntry R (Alike R S)) slots slots')
    (hlast : Alike R S last last') (place : Nat) :
    Option.Rel (fun split split' => List.Forall₂ (RelatedEntry R (Alike R S)) split.1 split'.1 ∧
      Alike R S split.2 split'.2) (splitAt? slots last place) (splitAt? slots' last' place) := by
  have hslot := rel_getElem? hslots place
  rw [splitAt?, splitAt?]
  cases hslots? : slots[place]? <;> cases hslots?' : slots'[place]? <;>
    rw [hslots?, hslots?'] at hslot
  · refine rel_option_map hlast.split? fun _ _ hhalves => ⟨?_, hhalves.2.2⟩
    exact List.rel_append hslots (.cons ⟨hhalves.1, hhalves.2.1⟩ .nil)
  · cases hslot
  · cases hslot
  · cases hslot with
    | some hslot =>
      refine rel_option_map hslot.2.split? fun _ _ hhalves => ⟨?_, hlast⟩
      exact List.rel_append (List.forall₂_take _ hslots) (.cons ⟨hhalves.1, hhalves.2.1⟩
        (.cons ⟨hslot.1, hhalves.2.2⟩ (List.forall₂_drop _ hslots)))

/-! ### One level of an operation -/

section Levels

variable [Ord K] {separator : K} {child : Bucket K V} {total : Nat}

theorem get?_of_child (hslot : slots[lowerBound key slots]? = some (separator, child)) :
    (inner slots last total).get? key = child.get? key := by
  rw [Bucket.get?]
  split <;> grind

theorem get?_of_last (hslot : slots[lowerBound key slots]? = none) :
    (inner slots last total).get? key = last.get? key := by
  rw [Bucket.get?]
  split <;> grind

theorem replace?_of_child (hslot : slots[lowerBound key slots]? = some (separator, child)) :
    (inner slots last total).replace? key value = (child.replace? key value).map fun child =>
      inner (slots.set (lowerBound key slots) (separator, child)) last total := by
  rw [Bucket.replace?]
  split <;> grind

theorem replace?_of_last (hslot : slots[lowerBound key slots]? = none) :
    (inner slots last total).replace? key value =
      (last.replace? key value).map fun last => inner slots last total := by
  rw [Bucket.replace?]
  split <;> grind

/-- The child on the way down to a key has no room. -/
def EntersFull (key : K) (slots : List (K × Bucket K V)) (last : Bucket K V) : Prop :=
  ((slots[lowerBound key slots]?.map Prod.snd).getD last).isFull = true

theorem insert_of_full (hfull : EntersFull key slots last) {grown : List (K × Bucket K V)}
    {newLast : Bucket K V}
    (hsplit : splitAt? slots last (lowerBound key slots) = some (grown, newLast)) :
    (inner slots last total).insert key value = (inner grown newLast total).insert key value := by
  rw [EntersFull] at hfull
  generalize hinserted : (inner grown newLast total).insert key value = inserted
  rw [Bucket.insert, dif_pos hfull]
  split <;> grind

theorem insert_of_stuck (hfull : EntersFull key slots last)
    (hsplit : splitAt? slots last (lowerBound key slots) = none) :
    (inner slots last total).insert key value = inner slots last total := by
  rw [EntersFull] at hfull
  rw [Bucket.insert, dif_pos hfull]
  split <;> grind

theorem insert_of_child (hroom : ¬EntersFull key slots last)
    (hslot : slots[lowerBound key slots]? = some (separator, child)) :
    (inner slots last total).insert key value =
      inner (slots.set (lowerBound key slots) (separator, child.insert key value)) last
        (total + 1) := by
  rw [EntersFull] at hroom
  rw [Bucket.insert, dif_neg hroom]
  split <;> grind

theorem insert_of_last (hroom : ¬EntersFull key slots last)
    (hslot : slots[lowerBound key slots]? = none) :
    (inner slots last total).insert key value =
      inner slots (last.insert key value) (total + 1) := by
  rw [EntersFull] at hroom
  rw [Bucket.insert, dif_neg hroom]
  split <;> grind

theorem erase_of_child (hslot : slots[lowerBound key slots]? = some (separator, child)) :
    (inner slots last total).erase key =
      match child.erase key with
      | .unchanged => .unchanged
      | .bucket child =>
        relink (slots.set (lowerBound key slots) (separator, child)) last (total - 1)
      | .nothing => relink (slots.eraseIdx (lowerBound key slots)) last (total - 1) := by
  rw [Bucket.erase]
  split <;> grind

theorem erase_of_last (hslot : slots[lowerBound key slots]? = none) :
    (inner slots last total).erase key =
      match last.erase key with
      | .unchanged => .unchanged
      | .bucket last => relink slots last (total - 1)
      | .nothing =>
        match slots.getLast? with
        | some (_, child) => relink slots.dropLast child (total - 1)
        | none => .nothing := by
  rw [Bucket.erase]
  split <;> grind

end Levels

/-- Both unchanged, both gone, or what is left is alike. -/
inductive Remainder.Alike (R : K → K' → Prop) (S : V → V' → Prop) :
    Remainder K V → Remainder K' V' → Prop where
  | unchanged : Remainder.Alike R S .unchanged .unchanged
  | nothing : Remainder.Alike R S .nothing .nothing
  | bucket {rest : Bucket K V} {rest' : Bucket K' V'} (hrest : Bucket.Alike R S rest rest') :
      Remainder.Alike R S (.bucket rest) (.bucket rest')

theorem relink_alike (hslots : SlotsAlike R S slots slots') (hlast : Alike R S last last')
    (total : Nat) : Remainder.Alike R S (relink slots last total) (relink slots' last' total) := by
  rw [relink, relink, rel_isEmpty (slotsAlike_iff.1 hslots)]
  split
  · exact .bucket hlast
  · exact .bucket (.inner hslots hlast)

/-! ### Looking up and changing -/

variable [Ord K] [Ord K'] (hR : ComparesAlike R)
include hR

theorem lowerBound_eq (hslots : SlotsAlike R S slots slots') (hkey : R key key') :
    lowerBound key' slots' = lowerBound key slots :=
  (SortedMap.lowerBound_alike hR (slotsAlike_iff.1 hslots) hkey).symm

theorem child_alike {separator : K} {child : Bucket K V} (hslots : SlotsAlike R S slots slots')
    (hkey : R key key') (hslot : slots[lowerBound key slots]? = some (separator, child)) :
    ∃ separator' child', slots'[lowerBound key' slots']? = some (separator', child') ∧
      R separator separator' ∧ Alike R S child child' := by
  rw [lowerBound_eq hR hslots hkey]
  obtain ⟨slot', hslot', h⟩ := rel_some (rel_getElem? (slotsAlike_iff.1 hslots) _) hslot
  exact ⟨slot'.1, slot'.2, hslot', h⟩

theorem last_entered (hslots : SlotsAlike R S slots slots') (hkey : R key key')
    (hslot : slots[lowerBound key slots]? = none) : slots'[lowerBound key' slots']? = none := by
  rw [lowerBound_eq hR hslots hkey]
  exact rel_none (rel_getElem? (slotsAlike_iff.1 hslots) _) hslot

theorem Alike.get? (h : Alike R S b b') (hkey : R key key') :
    Option.Rel S (b.get? key) (b'.get? key') := by
  induction b using Bucket.get?.induct key generalizing b' with
  | case1 entries =>
    cases h with
    | leaf hentries =>
      rw [Bucket.get?, Bucket.get?, SortedMap.find?_alike hR hentries hkey]
      cases find? key' _ with
      | none => exact .none
      | some place => exact rel_option_map (rel_getElem? hentries place) fun _ _ h => h.2
  | case2 slots last total separator child hslot ih =>
    cases h with
    | inner hslots hlast =>
      obtain ⟨separator', child', hslot', hseparator, hchild⟩ := child_alike hR hslots hkey hslot
      rw [get?_of_child hslot, get?_of_child hslot']
      exact ih hchild
  | case3 slots last total hslot ih =>
    cases h with
    | inner hslots hlast =>
      rw [get?_of_last hslot, get?_of_last (last_entered hR hslots hkey hslot)]
      exact ih hlast

theorem Alike.replace? (h : Alike R S b b') (hkey : R key key') (hvalue : S value value') :
    Option.Rel (Alike R S) (b.replace? key value) (b'.replace? key' value') := by
  induction b using Bucket.get?.induct key generalizing b' with
  | case1 entries =>
    cases h with
    | leaf hentries =>
      rw [Bucket.replace?, Bucket.replace?, SortedMap.find?_alike hR hentries hkey]
      cases find? key' _ with
      | none => exact .none
      | some place =>
        refine .some (.leaf (rel_modify hentries (fun _ _ h => ?_) place))
        exact ⟨h.1, hvalue⟩
  | case2 slots last total separator child hslot ih =>
    cases h with
    | inner hslots hlast =>
      obtain ⟨separator', child', hslot', hseparator, hchild⟩ := child_alike hR hslots hkey hslot
      rw [replace?_of_child hslot, replace?_of_child hslot', lowerBound_eq hR hslots hkey]
      refine rel_option_map (ih hchild) fun _ _ hchanged => .inner (slotsAlike_iff.2 ?_) hlast
      exact rel_set (slotsAlike_iff.1 hslots) ⟨hseparator, hchanged⟩ _
  | case3 slots last total hslot ih =>
    cases h with
    | inner hslots hlast =>
      rw [replace?_of_last hslot, replace?_of_last (last_entered hR hslots hkey hslot)]
      exact rel_option_map (ih hlast) fun _ _ hchanged => .inner hslots hchanged

theorem entersFull_iff (hslots : SlotsAlike R S slots slots') (hlast : Alike R S last last')
    (hkey : R key key') : EntersFull key slots last ↔ EntersFull key' slots' last' := by
  rw [EntersFull, EntersFull]
  cases hslot : slots[lowerBound key slots]? with
  | none => rw [last_entered hR hslots hkey hslot, Option.map_none, Option.map_none,
      Option.getD_none, Option.getD_none, hlast.isFull_eq]
  | some slot =>
    obtain ⟨_, _, hslot', _, hchild⟩ := child_alike hR hslots hkey hslot
    rw [hslot', Option.map_some, Option.map_some, Option.getD_some, Option.getD_some,
      hchild.isFull_eq]

theorem Alike.insert (h : Alike R S b b') (hkey : R key key') (hvalue : S value value') :
    Alike R S (b.insert key value) (b'.insert key' value') := by
  induction b using Bucket.insert.induct key generalizing b' with
  | case1 entries =>
    cases h with
    | leaf hentries =>
      rw [Bucket.insert, Bucket.insert, ← SortedMap.lowerBound_alike hR hentries hkey]
      exact .leaf (rel_insertIdx hentries ⟨hkey, hvalue⟩ _)
  | case2 slots last total place hfull grown newLast hsplit =>
    rename_i ih
    cases h with
    | inner hslots hlast =>
      have hfull' := (entersFull_iff hR hslots hlast hkey).1 hfull
      have hsplits := splitAt?_alike (slotsAlike_iff.1 hslots) hlast (lowerBound key slots)
      obtain ⟨split', hsplit', hgrown, hnewLast⟩ := rel_some hsplits hsplit
      rw [← lowerBound_eq hR hslots hkey] at hsplit'
      rw [insert_of_full hfull hsplit, insert_of_full hfull' hsplit']
      exact ih (.inner (slotsAlike_iff.2 hgrown) hnewLast)
  | case3 slots last total place hfull =>
    rename_i hsplit
    cases h with
    | inner hslots hlast =>
      have hfull' := (entersFull_iff hR hslots hlast hkey).1 hfull
      have hsplits := splitAt?_alike (slotsAlike_iff.1 hslots) hlast (lowerBound key slots)
      have hsplit' := rel_none hsplits hsplit
      rw [← lowerBound_eq hR hslots hkey] at hsplit'
      rw [insert_of_stuck hfull hsplit, insert_of_stuck hfull' hsplit']
      exact .inner hslots hlast
  | case4 slots last total place hroom separator child hslot =>
    rename_i ih
    cases h with
    | inner hslots hlast =>
      have hroom' := mt (entersFull_iff hR hslots hlast hkey).2 hroom
      obtain ⟨separator', child', hslot', hseparator, hchild⟩ := child_alike hR hslots hkey hslot
      rw [insert_of_child hroom hslot, insert_of_child hroom' hslot', lowerBound_eq hR hslots hkey]
      refine .inner (slotsAlike_iff.2 ?_) hlast
      exact rel_set (slotsAlike_iff.1 hslots) ⟨hseparator, ih hchild⟩ _
  | case5 slots last total place hroom hslot =>
    rename_i ih
    cases h with
    | inner hslots hlast =>
      have hroom' := mt (entersFull_iff hR hslots hlast hkey).2 hroom
      have hslot' := last_entered hR hslots hkey hslot
      rw [insert_of_last hroom hslot, insert_of_last hroom' hslot']
      exact .inner hslots (ih hlast)

theorem Alike.erase (h : Alike R S b b') (hkey : R key key') :
    Remainder.Alike R S (b.erase key) (b'.erase key') := by
  induction b using Bucket.get?.induct key generalizing b' with
  | case1 entries =>
    cases h with
    | leaf hentries =>
      rw [Bucket.erase, Bucket.erase, SortedMap.find?_alike hR hentries hkey, hentries.length_eq]
      split
      · exact .unchanged
      · split
        · exact .nothing
        · exact .bucket (.leaf (rel_eraseIdx hentries _))
  | case2 slots last total separator child hslot ih =>
    cases h with
    | inner hslots hlast =>
      obtain ⟨separator', child', hslot', hseparator, hchild⟩ := child_alike hR hslots hkey hslot
      have hlist := slotsAlike_iff.1 hslots
      rw [erase_of_child hslot, erase_of_child hslot', lowerBound_eq hR hslots hkey]
      have hrest := ih hchild
      generalize child.erase key = rest, child'.erase key' = rest' at hrest
      cases hrest with
      | unchanged => exact .unchanged
      | nothing => exact relink_alike (slotsAlike_iff.2 (rel_eraseIdx hlist _)) hlast _
      | bucket hrest =>
        refine relink_alike (slotsAlike_iff.2 (rel_set hlist ?_ _)) hlast _
        exact ⟨hseparator, hrest⟩
  | case3 slots last total hslot ih =>
    cases h with
    | inner hslots hlast =>
      have hlist := slotsAlike_iff.1 hslots
      rw [erase_of_last hslot, erase_of_last (last_entered hR hslots hkey hslot)]
      have hrest := ih hlast
      generalize last.erase key = rest, Bucket.erase key' _ = rest' at hrest
      cases hrest with
      | unchanged => exact .unchanged
      | bucket hrest => exact relink_alike hslots hrest _
      | nothing =>
        have hbefore := rel_getLast? hlist
        cases hgetLast : slots.getLast? with
        | none =>
          rw [rel_none hbefore hgetLast]
          exact .nothing
        | some slot =>
          obtain ⟨slot', hslot', h⟩ := rel_some hbefore hgetLast
          rw [hslot']
          exact relink_alike (slotsAlike_iff.2 (rel_dropLast hlist)) h.2 _

end Bucket

/-! ### Maps -/

namespace SortedMap

/-- Maps whose trees are alike. -/
def Alike (R : K → K' → Prop) (S : V → V' → Prop) (m : SortedMap K V) (m' : SortedMap K' V') :
    Prop :=
  Option.Rel (Bucket.Alike R S) m.root m'.root

variable {R : K → K' → Prop} {S : V → V' → Prop} {m : SortedMap K V} {m' : SortedMap K' V'}
  {key : K} {key' : K'} {value : V} {value' : V'}

theorem Alike.empty : Alike R S (∅ : SortedMap K V) (∅ : SortedMap K' V') := .none

theorem Alike.isEmpty_eq (h : Alike R S m m') : m.isEmpty = m'.isEmpty := by
  rw [isEmpty, isEmpty, ← Option.not_isSome, ← Option.not_isSome, rel_isSome h]

theorem Alike.toList (h : Alike R S m m') : List.Forall₂ (RelatedEntry R S) m.toList m'.toList := by
  obtain ⟨root⟩ := m
  obtain ⟨root'⟩ := m'
  cases h with
  | none => exact .nil
  | some h => exact h.toList

theorem Alike.keys (h : Alike R S m m') : List.Forall₂ R m.keys m'.keys :=
  List.rel_map (fun _ _ h => h.1) h.toList

theorem Alike.values (h : Alike R S m m') : List.Forall₂ S m.values m'.values :=
  List.rel_map (fun _ _ h => h.2) h.toList

variable [Ord K] [Ord K'] (hR : ComparesAlike R)
include hR

theorem Alike.get? (h : Alike R S m m') (hkey : R key key') :
    Option.Rel S (m.get? key) (m'.get? key') :=
  rel_option_bind h fun _ _ hroot => hroot.get? hR hkey

theorem Alike.contains_eq (h : Alike R S m m') (hkey : R key key') :
    m.contains key = m'.contains key' :=
  rel_isSome (h.get? hR hkey)

theorem Alike.insert (h : Alike R S m m') (hkey : R key key') (hvalue : S value value') :
    Alike R S (m.insert key value) (m'.insert key' value') := by
  obtain ⟨root⟩ := m
  obtain ⟨root'⟩ := m'
  cases h with
  | none => exact .some (.leaf (.cons ⟨hkey, hvalue⟩ .nil))
  | some hroot =>
    have hreplaced := hroot.replace? hR hkey hvalue
    simp only [SortedMap.insert]
    generalize Bucket.replace? key value _ = replaced,
      Bucket.replace? key' value' _ = replaced' at hreplaced
    cases hreplaced with
    | some hreplaced => exact .some hreplaced
    | none => exact .some (hroot.grown.insert hR hkey hvalue)

theorem Alike.erase (h : Alike R S m m') (hkey : R key key') :
    Alike R S (m.erase key) (m'.erase key') := by
  obtain ⟨root⟩ := m
  obtain ⟨root'⟩ := m'
  cases h with
  | none => exact .none
  | some hroot =>
    have hrest := hroot.erase hR hkey
    simp only [SortedMap.erase]
    generalize Bucket.erase key _ = rest, Bucket.erase key' _ = rest' at hrest
    cases hrest with
    | unchanged => exact .some hroot
    | nothing => exact .none
    | bucket hrest => exact .some hrest

theorem Alike.ofList {entries : List (K × V)} {entries' : List (K' × V')}
    (h : List.Forall₂ (RelatedEntry R S) entries entries') :
    Alike R S (ofList entries) (ofList entries') :=
  List.rel_foldl (fun _ _ hm _ _ hentry => hm.insert hR hentry.1 hentry.2) .empty h

end SortedMap

end SnapshotStore
