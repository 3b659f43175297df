import Mathlib.Data.List.Sort
import SnapshotStore.Proofs.SortedMap.Ordinal

/-!
# Unions of maps

A merge is the union of two maps in which the values of the second one win. A key that both maps
have stays in the form that the first one has, so the entries of a merge can be told key by key from
those of its sides, and the laws of unions follow entry by entry. The merge is a walk with a cursor
on either map: whichever of the two moves, one entry fewer is left, and the entries put in are those
that the cursor on the second map passes.
-/

namespace SnapshotStore

namespace Entries

variable {K V : Type} [Ord K] [Std.TransOrd K] {key other : K}
  {entries others thirds : List (K × V)}

open SortedMap (StrictlyAscending orderedOn_true)

/-- Keys at one place of the order have the same entry. -/
theorem pair?_congr (heq : compare key other = .eq) : pair? key entries = pair? other entries :=
  congrArg (entries.find? ·) (funext fun entry => by
    rw [orderedOn_true.congr_right trivial trivial trivial heq])

theorem pair?_of_mem (h : StrictlyAscending entries) {entry : K × V} (hentry : entry ∈ entries) :
    pair? entry.1 entries = some entry :=
  pair?_eq_some_of_mem orderedOn_true trivial (fun _ _ => trivial) h hentry
    (orderedOn_true.refl trivial)

theorem nodup_of_strictlyAscending (h : StrictlyAscending entries) : entries.Nodup :=
  h.imp fun hlt heq => by
    rw [heq, orderedOn_true.refl trivial] at hlt
    cases hlt

/-- Strictly ascending lists are told apart by the entry of some key. -/
theorem eq_of_pair?_eq (h : StrictlyAscending entries) (h' : StrictlyAscending others)
    (hsame : ∀ key, pair? key entries = pair? key others) : entries = others := by
  have hmem : ∀ entry, entry ∈ entries ↔ entry ∈ others := fun entry => by
    constructor
    · intro hentry
      exact List.mem_of_find?_eq_some ((hsame entry.1).symm.trans (pair?_of_mem h hentry))
    · intro hentry
      exact List.mem_of_find?_eq_some ((hsame entry.1).trans (pair?_of_mem h' hentry))
  have hperm : entries.Perm others :=
    (List.perm_ext_iff_of_nodup (nodup_of_strictlyAscending h)
      (nodup_of_strictlyAscending h')).2 hmem
  refine List.Perm.eq_of_pairwise (fun a b _ _ hlt hgt => ?_) h h' hperm
  rw [orderedOn_true.swap trivial trivial, hgt] at hlt
  cases hlt

/-! ### The entries of a merge -/

theorem strictlyAscending_merge (h : StrictlyAscending entries) (others : List (K × V)) :
    StrictlyAscending (merge entries others) := by
  induction others generalizing entries with
  | nil => exact h
  | cons first others ih =>
    exact ih (strictlyAscending_insert orderedOn_true trivial (fun _ _ => trivial) h)

/-- A key of the second list brings its value, and its form only where the first one lacks it. -/
theorem pair?_merge (h : StrictlyAscending entries) (hothers : StrictlyAscending others) (key : K) :
    pair? key (merge entries others) =
      ((pair? key others).map fun other =>
        (((pair? key entries).map Prod.fst).getD other.1, other.2)).or (pair? key entries) := by
  induction others generalizing entries with
  | nil => rfl
  | cons first others ih =>
    obtain ⟨hfirst, hrest⟩ := List.pairwise_cons.1 hothers
    have hinserted : StrictlyAscending (insert first.1 first.2 entries) :=
      strictlyAscending_insert orderedOn_true trivial (fun _ _ => trivial) h
    have hentry : pair? key (insert first.1 first.2 entries) = _ :=
      pair?_insert orderedOn_true trivial trivial (fun _ _ => trivial) h
    calc
      pair? key (merge entries (first :: others))
        = pair? key (merge (insert first.1 first.2 entries) others) := rfl
      _ = _ := ih hinserted hrest
      _ = _ := by
        rw [hentry, pair?_cons]
        by_cases heq : compare first.1 key = .eq
        · have hnone : pair? key others = none := pair?_eq_none_iff.2 fun other hother hsame => by
            have hlt := hfirst other hother
            rw [orderedOn_true.congr_right trivial trivial trivial hsame, heq] at hlt
            cases hlt
          rw [if_pos heq, if_pos heq, hnone,
            pair?_congr heq]
          rfl
        · rw [if_neg heq, if_neg heq]

theorem get?_merge (h : StrictlyAscending entries) (hothers : StrictlyAscending others) (key : K) :
    get? key (merge entries others) = (get? key others).or (get? key entries) := by
  rw [get?_eq_map_pair?, pair?_merge h hothers, get?_eq_map_pair?, get?_eq_map_pair?]
  cases pair? key others <;> rfl

/-! ### The laws of unions -/

theorem merge_assoc (h : StrictlyAscending entries) (hothers : StrictlyAscending others)
    (hthirds : StrictlyAscending thirds) :
    merge (merge entries others) thirds = merge entries (merge others thirds) := by
  have hleft := strictlyAscending_merge h others
  have hright := strictlyAscending_merge hothers thirds
  refine eq_of_pair?_eq (strictlyAscending_merge hleft thirds) (strictlyAscending_merge h _)
    fun key => ?_
  rw [pair?_merge hleft hthirds, pair?_merge h hothers, pair?_merge h hright,
    pair?_merge hothers hthirds]
  cases pair? key thirds <;> cases pair? key others <;> cases pair? key entries <;> rfl

theorem nil_merge (h : StrictlyAscending entries) : merge [] entries = entries := by
  refine eq_of_pair?_eq (strictlyAscending_merge List.Pairwise.nil entries) h fun key => ?_
  rw [pair?_merge List.Pairwise.nil h]
  cases pair? key entries <;> rfl

theorem merge_self (h : StrictlyAscending entries) : merge entries entries = entries := by
  refine eq_of_pair?_eq (strictlyAscending_merge h entries) h fun key => ?_
  rw [pair?_merge h h]
  cases pair? key entries <;> rfl

end Entries

namespace SortedMap

variable {K V : Type} [Ord K]

/-! ### The walk of a merge -/

/-- The walk of a merge with a cursor on either map, if it ends within some turns. The cursor on the
lesser key moves, and both do from a key that both maps have. -/
def mergeWalk : Nat → SortedMap K V → Option (Cursor K V) → Option (Cursor K V) →
    Option (SortedMap K V)
  | _, result, _, none => some result
  | 0, _, _, some _ => none
  | turns + 1, result, none, some theirs =>
    mergeWalk turns (result.insert theirs.key theirs.value) none theirs.next
  | turns + 1, result, some mine, some theirs =>
    match compare mine.key theirs.key with
    | .lt => mergeWalk turns result mine.next (some theirs)
    | .eq =>
      mergeWalk turns ((result.replace? theirs.key theirs.value).getD
        (result.insert theirs.key theirs.value)) mine.next theirs.next
    | .gt => mergeWalk turns (result.insert theirs.key theirs.value) (some mine) theirs.next

variable {result : SortedMap K V} {entries others : List (K × V)} {place otherPlace turns : Nat}

omit [Ord K] in
/-- Behind a cursor one entry fewer is left. -/
theorem Cursor.Stands.drop {c : Cursor K V} (h : c.Stands entries) :
    entries.drop c.earlier.length = c.entry :: entries.drop (c.earlier.length + 1) := by
  obtain ⟨hplace, hentry⟩ := List.getElem?_eq_some_iff.1 h.getElem?
  rw [List.drop_eq_getElem_cons hplace, hentry]

omit [Ord K] in
theorem Cursor.Stands.at_next {c : Cursor K V} (h : c.Stands entries) :
    Cursor.At entries (c.earlier.length + 1) False c.next := by
  have hat := h.next
  cases hnext : c.next with
  | none =>
    rw [hnext] at hat
    exact hat
  | some d =>
    rw [hnext] at hat
    exact ⟨hat.1, hat.2.1, False.elim⟩

/-- With as many turns as there are entries ahead of the cursors, the walk ends, and it has put in
the entries ahead of the second one. -/
theorem mergeWalk_eq {mine theirs : Option (Cursor K V)}
    (hmine : Cursor.At entries place False mine)
    (htheirs : Cursor.At others otherPlace False theirs)
    (hturns : (entries.drop place).length + (others.drop otherPlace).length ≤ turns) :
    mergeWalk turns result mine theirs =
      some (mergeInto result (entries.drop place) (others.drop otherPlace)) := by
  fun_induction mergeWalk turns result mine theirs generalizing place otherPlace with
  | case1 turns result mine =>
    have hend : others.drop otherPlace = [] := List.drop_eq_nil_iff.2 htheirs
    rw [hend, mergeInto]
  | case2 result mine theirs =>
    obtain ⟨hstands, rfl, -⟩ := htheirs
    rw [hstands.drop, List.length_cons] at hturns
    omega
  | case3 turns result theirs ih =>
    obtain ⟨hstands, rfl, -⟩ := htheirs
    have hend : entries.drop place = [] := List.drop_eq_nil_iff.2 hmine
    rw [hend, hstands.drop] at hturns
    rw [hend, hstands.drop, Cursor.entry, mergeInto]
    have hrest := ih hmine hstands.at_next
      (by rw [hend]; simp only [List.length_cons] at hturns; omega)
    rwa [hend] at hrest
  | case4 turns result mine theirs hlt ih =>
    obtain ⟨hstands, rfl, -⟩ := hmine
    obtain ⟨htheirs, rfl, -⟩ := htheirs
    rw [hstands.drop, htheirs.drop] at hturns
    rw [hstands.drop, htheirs.drop, Cursor.entry, Cursor.entry, mergeInto, hlt]
    have hrest := ih hstands.at_next ⟨htheirs, rfl, False.elim⟩
      (by rw [htheirs.drop]; simp only [List.length_cons] at hturns ⊢; omega)
    rwa [htheirs.drop] at hrest
  | case5 turns result mine theirs heq ih =>
    obtain ⟨hstands, rfl, -⟩ := hmine
    obtain ⟨htheirs, rfl, -⟩ := htheirs
    rw [hstands.drop, htheirs.drop] at hturns
    rw [hstands.drop, htheirs.drop, Cursor.entry, Cursor.entry, mergeInto, heq]
    exact ih hstands.at_next htheirs.at_next (by simp only [List.length_cons] at hturns; omega)
  | case6 turns result mine theirs hgt ih =>
    obtain ⟨hstands, rfl, -⟩ := hmine
    obtain ⟨htheirs, rfl, -⟩ := htheirs
    rw [hstands.drop, htheirs.drop] at hturns
    rw [hstands.drop, htheirs.drop, Cursor.entry, Cursor.entry, mergeInto, hgt]
    have hrest := ih ⟨hstands, rfl, False.elim⟩ htheirs.at_next
      (by rw [hstands.drop]; simp only [List.length_cons] at hturns ⊢; omega)
    rwa [hstands.drop] at hrest

/-! ### Unions -/

/-- A map holds the keys of two others, and the values of the second one before those of the
first. -/
structure Unites (m other union : SortedMap K V) : Prop where
  get? : ∀ key, union.get? key = (other.get? key).or (m.get? key)
  contains : ∀ key, union.contains key ↔ m.contains key ∨ other.contains key
  mem : ∀ entry ∈ union.toList,
    (entry ∈ m.toList ∧ ¬ other.contains entry.1) ∨ other.get? entry.1 = some entry.2
  walk : ∀ turns, m.size + other.size ≤ turns → mergeWalk turns m m.first other.first = some union

/-- Maps with the same entries, whatever the shapes of their trees. -/
structure Same (m other : SortedMap K V) : Prop where
  toList : m.toList = other.toList
  beq : ∀ [BEq V] [ReflBEq V], m == other
  /-- No map is equal to one of the two only, also where a value need not equal itself. -/
  beq_right : ∀ [BEq V] (third : SortedMap K V), (m == third) = (other == third)

/-- The laws of unions, up to equality. -/
structure UnionLaws (m other third : SortedMap K V) : Prop where
  merge_assoc : ((m.merge other).merge third).Same (m.merge (other.merge third))
  merge_empty : m.merge empty = m
  empty_merge : (empty.merge m).Same m
  merge_self : (m.merge m).Same m

variable [Std.TransOrd K] {m other third : SortedMap K V} {thirds : List (K × V)}

omit [Std.TransOrd K] in
theorem Holds.strictlyAscending (h : m.Holds entries) : StrictlyAscending entries :=
  h.toList ▸ Valid.strictlyAscending h.lawful

theorem Holds.get?_eq (h : m.Holds entries) (key : K) : m.get? key = Entries.get? key entries := by
  rw [Valid.get?_eq orderedOn_true trivial h.lawful, h.toList]

theorem Holds.same (h : m.Holds entries) (hother : other.Holds entries) : m.Same other := by
  have htoList : m.toList = other.toList := h.toList.trans hother.toList.symm
  have hsize : m.size = other.size := by rw [h.proper.size_eq, hother.proper.size_eq, htoList]
  refine ⟨htoList, (h.proper.beq_iff hother.proper).2 ?_, fun third => ?_⟩
  · rw [htoList]
    exact List.forall₂_same.2 fun entry _ => ⟨Std.ReflOrd.compare_self, BEq.rfl⟩
  · change (m.size == third.size && sameEntries m.toList third.toList) = _
    rw [hsize, htoList]
    rfl

theorem Holds.unites (h : m.Holds entries) (hother : other.Holds others) :
    Unites m other (m.merge other) := by
  have hmerge := h.merge hother
  have hget : ∀ key, (m.merge other).get? key = (other.get? key).or (m.get? key) := fun key => by
    rw [hmerge.get?_eq, h.get?_eq, hother.get?_eq,
      Entries.get?_merge h.strictlyAscending hother.strictlyAscending]
  refine ⟨hget, fun key => ?_, fun entry hentry => ?_, fun turns hturns => ?_⟩
  · rw [contains, hget, contains, contains]
    cases other.get? key <;> cases m.get? key <;> simp
  · rw [hmerge.toList] at hentry
    have hpair := Entries.pair?_of_mem hmerge.strictlyAscending hentry
    rw [Entries.pair?_merge h.strictlyAscending hother.strictlyAscending] at hpair
    rw [contains, hother.get?_eq, Entries.get?_eq_map_pair?, h.toList]
    cases htheirs : Entries.pair? entry.1 others with
    | none =>
      rw [htheirs] at hpair
      exact .inl ⟨List.mem_of_find?_eq_some hpair, by simp⟩
    | some theirs =>
      rw [htheirs] at hpair
      exact .inr (congrArg (Option.map Prod.snd) hpair)
  · rw [h.proper.size_eq, hother.proper.size_eq] at hturns
    have hwalk : mergeWalk turns m m.first other.first =
        some (SortedMap.mergeInto m (m.toList.drop 0) (other.toList.drop 0)) :=
      mergeWalk_eq (Valid.at_first h.lawful False) (Valid.at_first hother.lawful False) hturns
    exact hwalk

theorem Holds.unionLaws (h : m.Holds entries) (hother : other.Holds others)
    (hthird : third.Holds thirds) : UnionLaws m other third := by
  have hempty : (empty : SortedMap K V).Holds [] := Made.empty.holds
  have hassoc := Entries.merge_assoc h.strictlyAscending hother.strictlyAscending
    hthird.strictlyAscending
  have hnil := Entries.nil_merge h.strictlyAscending
  have hself := Entries.merge_self h.strictlyAscending
  refine ⟨?_, ?_, ?_, ?_⟩
  · exact ((h.merge hother).merge hthird).same (hassoc ▸ h.merge (hother.merge hthird))
  · rw [SortedMap.merge, hempty.toList, SortedMap.mergeInto]
  · exact (hnil ▸ hempty.merge h).same h
  · exact (hself ▸ h.merge h).same h

/-- A merge is the union of two maps however these are made. The two answer as before, and the laws
of unions hold. -/
theorem merge_unites (h : Assembled m entries) (hother : Assembled other others)
    (hthird : Assembled third thirds) :
    Unites m other (m.merge other) ∧ (m.merge other).Refines (Entries.merge entries others) ∧
      m.Refines entries ∧ other.Refines others ∧ UnionLaws m other third :=
  have hm := h.holds
  have ho := hother.holds
  ⟨hm.unites ho, (hm.merge ho).refines, hm.refines, ho.refines, hm.unionLaws ho hthird.holds⟩

/-- The first map has lost a key that the second one brings back, and its walk is over first. -/
theorem merge_unites_past_end :
    ∃ m other third : SortedMap Nat String,
      Unites m other (m.merge other) ∧ UnionLaws m other third ∧
      (m.merge other).toList = [(1, "a"), (2, "y"), (3, "c"), (4, "w"), (9, "z"), (10, "j")] ∧
      mergeWalk 7 m m.first other.first = some (m.merge other) := by
  have hm := (Assembled.made (Made.ofList [(4, "d"), (2, "b"), (1, "a"), (3, "c")])).erase 4
  have hother := Assembled.made (Made.ofList [(10, "j"), (2, "y"), (9, "z"), (4, "w")])
  have hthird := Assembled.made (Made.singleton 3 "v")
  obtain ⟨hunites, hrefines, hkept, hotherkept, hlaws⟩ := merge_unites hm hother hthird
  exact ⟨_, _, _, hunites, hlaws, hrefines.toList, hunites.walk 7 (by
    rw [hkept.size, hotherkept.size]
    decide)⟩

end SortedMap

end SnapshotStore
