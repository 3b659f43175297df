import SnapshotStore.Proofs.Index.Ranging

/-!
# Groups of pairs

The pairs with one first component stand together in an index. A move marks the cursor that it makes
as changed exactly where it goes from one of these groups to another one, so that whoever walks over
an index learns the groups from the marks alone.
-/

namespace SnapshotStore

/-- Two keys have the same first component. -/
def SameHead {K : Type} [Ord K] (a b : List K) : Prop := SameKey (a.take 1) (b.take 1)

instance {K : Type} [Ord K] (a b : List K) : Decidable (SameHead a b) :=
  inferInstanceAs (Decidable (SameKey _ _))

theorem SameHead.comm {K : Type} [Ord K] {P : K → Prop} (hP : OrderedOn P) {a b : List K}
    (ha : KeyOn P a) (hb : KeyOn P b) : SameHead a b ↔ SameHead b a := by
  have hkeys : ∀ {key : List K}, KeyOn P key → KeyOn P (key.take 1) :=
    fun h component hcomponent => h component (List.mem_of_mem_take hcomponent)
  exact ⟨.symm hP (hkeys ha) (hkeys hb), .symm hP (hkeys hb) (hkeys ha)⟩

/-! ### Counting groups -/

namespace FlatIndex

variable {K : Type} [Ord K]

/-- The number of different first components; one counts where it comes up for the last time. -/
def groups : FlatIndex K → Nat
  | [] => 0
  | pair :: flat => groups flat + if ∃ other ∈ flat, SameHead pair.1 other.1 then 0 else 1

/-- How often the first component changes from one pair to the next. -/
def turns : FlatIndex K → Nat
  | [] | [_] => 0
  | a :: b :: flat => turns (b :: flat) + if SameHead a.1 b.1 then 0 else 1

/-- What stands between two pairs with the same first component has that one, too. -/
def Together (flat : FlatIndex K) : Prop :=
  ∀ a b c, [a, b, c].Sublist flat → SameHead a.1 c.1 → SameHead a.1 b.1

variable {flat : FlatIndex K}

/-- Where the pairs of a group stand together, there is one group more than there are turns. -/
theorem Together.groups_eq (h : flat.Together) (hne : flat ≠ []) :
    flat.groups = flat.turns + 1 := by
  induction flat with
  | nil => exact absurd rfl hne
  | cons a flat ih =>
    cases flat with
    | nil => simp [groups, turns]
    | cons b flat =>
      have hrest : Together (b :: flat) := fun x y z hsub => h x y z (hsub.cons a)
      have hnext : (∃ other ∈ b :: flat, SameHead a.1 other.1) ↔ SameHead a.1 b.1 := by
        refine ⟨fun ⟨other, hother, hsame⟩ => ?_, fun hsame => ⟨b, List.mem_cons_self, hsame⟩⟩
        rcases List.mem_cons.1 hother with rfl | hother
        · exact hsame
        · exact h a b other (.cons_cons a (.cons_cons b (List.singleton_sublist.2 hother))) hsame
      rw [groups, turns, ih hrest (List.cons_ne_nil _ _)]
      simp only [hnext]
      omega

theorem turns_concat (flat : FlatIndex K) (a b : List K × RowId) :
    turns (flat ++ [a, b]) = turns (flat ++ [a]) + if SameHead a.1 b.1 then 0 else 1 := by
  induction flat with
  | nil => simp [turns]
  | cons first flat ih =>
    cases flat with
    | nil =>
      simp [turns]
      omega
    | cons second flat =>
      simp only [List.cons_append, turns] at ih ⊢
      omega

end FlatIndex

/-! ### Groups of a level -/

namespace Level

variable {K : Type} [Ord K] {P : K → Prop} {column : KeyColumn} {columns : List KeyColumn}

theorem isLE_head {x y : K} {xs ys : List K} {r r' : RowId}
    (h : comparePairs (column :: columns) (x :: xs, r) (y :: ys, r') = .lt) :
    (compare (⟨x, column.direction⟩ : KeyPart K) ⟨y, column.direction⟩).isLE := by
  rw [comparePairs, parts, parts, List.zipWith_cons_cons, List.zipWith_cons_cons, compareKeys] at h
  revert h
  cases compare (⟨x, column.direction⟩ : KeyPart K) ⟨y, column.direction⟩ with
  | lt | eq => exact fun _ => rfl
  | gt =>
    intro h
    cases h

/-- The pairs of a group stand together in a level. -/
theorem together (hP : OrderedOn P) {level : Level K columns} (hvalid : Valid P columns level) :
    FlatIndex.Together (pairs columns level) := by
  intro a b c hsub hsame
  have hpair : ∀ pair ∈ [a, b, c], KeyOn P pair.1 ∧ pair.1.length = columns.length :=
    fun pair hpair => by
    obtain ⟨hkey, hholds⟩ := holds_of_mem_pairs hP hvalid (hsub.subset hpair)
    exact ⟨hkey, length_of_holds hholds⟩
  have hsorted := (pairwise_pairs hP hvalid).sublist hsub
  obtain ⟨a, r⟩ := a
  obtain ⟨b, s⟩ := b
  obtain ⟨c, t⟩ := c
  obtain ⟨⟨ha, halength⟩, ⟨hb, hblength⟩, ⟨hc, hclength⟩⟩ :
      (KeyOn P a ∧ a.length = columns.length) ∧ (KeyOn P b ∧ b.length = columns.length) ∧
        KeyOn P c ∧ c.length = columns.length := by simpa using hpair
  obtain ⟨⟨hab, -⟩, hbc⟩ : (_ ∧ _) ∧ comparePairs columns (b, s) (c, t) = .lt := by
    simpa using hsorted
  cases columns with
  | nil =>
    rw [List.length_eq_zero_iff.1 halength, List.length_eq_zero_iff.1 hblength]
    trivial
  | cons column columns =>
    obtain ⟨x, xs, rfl⟩ := List.exists_cons_of_length_eq_add_one halength
    obtain ⟨y, ys, rfl⟩ := List.exists_cons_of_length_eq_add_one hblength
    obtain ⟨z, zs, rfl⟩ := List.exists_cons_of_length_eq_add_one hclength
    have hx : PartOf P column ⟨x, column.direction⟩ := ⟨rfl, (keyOn_cons.1 ha).1⟩
    have hy : PartOf P column ⟨y, column.direction⟩ := ⟨rfl, (keyOn_cons.1 hb).1⟩
    have hz : PartOf P column ⟨z, column.direction⟩ := ⟨rfl, (keyOn_cons.1 hc).1⟩
    have hpart := hP.part column
    have hxz := (compare_part_eq_iff hP hx hz).2 hsame.1
    have hyx := isLE_head hbc
    rw [← hpart.congr_right hy hx hz hxz] at hyx
    have hxy := hpart.isLE_antisymm hx hy (isLE_head hab) hyx
    exact ⟨(compare_part_eq_iff hP hx hy).1 hxy, trivial⟩

end Level

/-! ### Marks of a cursor -/

namespace LevelCursor

variable {K : Type} [Ord K] {P : K → Prop} {column : KeyColumn} {columns : List KeyColumn}
  {level : Level K columns} {pairs : List (List K × RowId)} {c d : LevelCursor K columns}

/-- A cursor that has entered an entry is marked as the one who enters says. -/
theorem changed_enter {A B : Type} {outer : Option A} {enter : A → Option B} {pinned changed : Bool}
    {c : CursorStep A B} (h : (outer.bind fun outer => (enter outer).bind fun inner =>
      some (CursorStep.mk outer inner pinned changed)) = some c) : c.changed = changed := by
  obtain ⟨_, -, h⟩ := Option.bind_eq_some_iff.1 h
  obtain ⟨_, -, h⟩ := Option.bind_eq_some_iff.1 h
  cases h
  rfl

omit [Ord K] in
theorem changed_first (h : first columns level = some c) : changed columns c = false := by
  cases columns with
  | nil => rfl
  | cons column columns => exact changed_enter h

omit [Ord K] in
theorem changed_last (h : last columns level = some c) : changed columns c = false := by
  cases columns with
  | nil => rfl
  | cons column columns => exact changed_enter h

theorem changed_under {start : List K} (h : under columns level start = some c) :
    changed columns c = false := by
  cases columns with
  | nil => rfl
  | cons column columns =>
    cases start with
    | nil => exact changed_first h
    | cons head rest =>
      obtain ⟨outer, -, h⟩ := Option.bind_eq_some_iff.1 h
      split at h
      · cases h
      · obtain ⟨inner, -, h⟩ := Option.bind_eq_some_iff.1 h
        cases h
        rfl

theorem changed_seek {key : List K} (h : seek columns level key = some c) :
    changed columns c = false := by
  cases columns with
  | nil => rfl
  | cons column columns =>
    cases key with
    | nil => exact changed_first h
    | cons head rest =>
      obtain ⟨outer, -, h⟩ := Option.bind_eq_some_iff.1 h
      split at h
      · split at h
        · cases h
          rfl
        · exact changed_enter h
      · obtain ⟨inner, -, h⟩ := Option.bind_eq_some_iff.1 h
        cases h
        rfl

omit [Ord K] in
/-- A move stays on the entry of the outer cursor and clears the mark, or it moves the outer cursor
and sets the mark. -/
theorem moved_cases {c d : CursorStep (SortedMap.Cursor (KeyPart K) (Level K columns))
      (LevelCursor K columns)}
    (h : next (column :: columns) c = some d ∨ previous (column :: columns) c = some d) :
    (d.changed = false ∧ d.outer = c.outer) ∨
      (d.changed = true ∧ c.pinned = false ∧
        (c.outer.next = some d.outer ∨ c.outer.previous = some d.outer)) := by
  rcases h with hnext | hprevious
  · rw [next] at hnext
    cases hinner : next columns c.inner with
    | some inner =>
      rw [hinner] at hnext
      cases hnext
      exact .inl ⟨rfl, rfl⟩
    | none =>
      rw [hinner] at hnext
      cases hpinned : c.pinned with
      | true =>
        rw [hpinned] at hnext
        cases hnext
      | false =>
        rw [hpinned] at hnext
        obtain ⟨outer, houter, hnext⟩ := Option.bind_eq_some_iff.1 hnext
        obtain ⟨inner, -, hnext⟩ := Option.bind_eq_some_iff.1 hnext
        cases hnext
        exact .inr ⟨rfl, rfl, .inl houter⟩
  · rw [previous] at hprevious
    cases hinner : previous columns c.inner with
    | some inner =>
      rw [hinner] at hprevious
      cases hprevious
      exact .inl ⟨rfl, rfl⟩
    | none =>
      rw [hinner] at hprevious
      cases hpinned : c.pinned with
      | true =>
        rw [hpinned] at hprevious
        cases hprevious
      | false =>
        rw [hpinned] at hprevious
        obtain ⟨outer, houter, hprevious⟩ := Option.bind_eq_some_iff.1 hprevious
        obtain ⟨inner, -, hprevious⟩ := Option.bind_eq_some_iff.1 hprevious
        cases hprevious
        exact .inr ⟨rfl, rfl, .inr houter⟩

/-- A move of the outer cursor changes the first component. -/
theorem compare_outer_ne (hP : OrderedOn P) {entries : SortedMap (KeyPart K) (Level K columns)}
    (hstored : Level.Stored P column columns entries)
    {outer moved : SortedMap.Cursor (KeyPart K) (Level K columns)}
    (hstands : outer.Stands entries.toList)
    (hmoved : outer.next = some moved ∨ outer.previous = some moved) :
    compare moved.key.value outer.key.value ≠ .eq := by
  have hsorted := hstored.1.strictlyAscending
  have hpart : PartOf P column outer.key := hstored.1.keys outer.entry hstands.mem
  intro heq
  rcases hmoved with hnext | hprevious
  · obtain ⟨hlater, hplace, -⟩ := hstands.of_next hnext
    have hlt := hstands.lt_of_length_lt hsorted hlater (by omega)
    have hpart' : PartOf P column moved.key := hstored.1.keys moved.entry hlater.mem
    rw [(hP.part column).eq_comm hpart hpart' |>.2 ((compare_part_eq_iff hP hpart' hpart).2 heq)]
      at hlt
    cases hlt
  · obtain ⟨hearlier, hplace, -⟩ := hstands.of_previous hprevious
    have hlt := hearlier.lt_of_length_lt hsorted hstands (by omega)
    have hpart' : PartOf P column moved.key := hstored.1.keys moved.entry hearlier.mem
    rw [(compare_part_eq_iff hP hpart' hpart).2 heq] at hlt
    cases hlt

/-- A move changes the first component if it is marked so, and only then. -/
theorem Ranges.changed_iff (hP : OrderedOn P) (hkeys : ∀ pair ∈ pairs, KeyOn P pair.1)
    (h : Ranges P columns pairs c)
    (hmoved : LevelCursor.next columns c = some d ∨ LevelCursor.previous columns c = some d) :
    changed columns d = true ↔ ¬ SameHead (key columns d) (key columns c) := by
  cases columns with
  | nil => exact iff_of_false Bool.false_ne_true (not_not_intro trivial)
  | cons column columns =>
    change CursorStep _ _ at c d
    have hhead : P c.outer.key.value :=
      hkeys _ h.mem _ List.mem_cons_self
    rcases moved_cases hmoved with ⟨hchanged, houter⟩ | ⟨hchanged, hpinned, hmoved⟩
    · refine iff_of_false (by rw [changed, hchanged]; decide) (not_not_intro ⟨?_, trivial⟩)
      rw [houter]
      exact hP.refl hhead
    · refine iff_of_true hchanged fun hsame => ?_
      obtain ⟨_, _, hpairs⟩ := h
      rw [hpinned] at hpairs
      obtain ⟨-, entries, hstored, hstands, -⟩ := hpairs
      exact compare_outer_ne hP hstored hstands hmoved hsame.1

/-- Components beyond the columns do not count in a search. -/
theorem seek_take (level : Level K columns) (key : List K) :
    seek columns level (key.take columns.length) = seek columns level key := by
  induction columns generalizing key with
  | nil => cases key <;> rfl
  | cons column columns ih =>
    cases key with
    | nil => rfl
    | cons head rest =>
      change Counted (SortedMap (KeyPart K) (Level K columns)) at level
      rw [List.length_cons, List.take_succ_cons, seek, seek]
      simp only [ih]

end LevelCursor

/-! ### Marks along a walk -/

namespace IndexCursor

variable {K : Type}

/-- The cursors that a walk goes through in so many steps. -/
def trail (move : IndexCursor K → Option (IndexCursor K)) :
    Nat → Option (IndexCursor K) → List (IndexCursor K)
  | 0, _ | _ + 1, none => []
  | steps + 1, some c => c :: trail move steps (move c)

variable [Ord K] {P : K → Prop} {columns : List KeyColumn} {pairs : FlatIndex K}
  {c : LevelCursor K columns} {steps : Nat}

theorem countP_next (hP : OrderedOn P) (hkeys : ∀ pair ∈ pairs, KeyOn P pair.1)
    (h : LevelCursor.Ranges P columns pairs c)
    (hsteps : pairs.length ≤ (LevelCursor.past columns c).length + steps) :
    (trail next steps (some ⟨columns, c⟩)).countP changed =
      FlatIndex.turns (pairs.drop (LevelCursor.past columns c).length) +
        if LevelCursor.changed columns c then 1 else 0 := by
  induction steps generalizing c with
  | zero => exact absurd h.lt_length (Nat.not_lt_of_le hsteps)
  | succ steps ih =>
    rw [trail, List.countP_cons, h.drop]
    congr 1
    cases hnext : LevelCursor.next columns c with
    | none =>
      have hmove : next ⟨columns, c⟩ = none := congrArg (Option.map _) hnext
      rw [hmove, h.next_eq_none_iff.1 hnext, List.drop_length]
      cases steps <;> rfl
    | some d =>
      have hmove : next ⟨columns, c⟩ = some ⟨columns, d⟩ := congrArg (Option.map _) hnext
      obtain ⟨hd, hplace⟩ := h.of_next hnext
      have hchanged := h.changed_iff hP hkeys (.inl hnext)
      rw [SameHead.comm hP (hkeys _ hd.mem) (hkeys _ h.mem)] at hchanged
      rw [hmove, ih hd (by omega), ← hplace, hd.drop, FlatIndex.turns]
      simp only [hchanged, ite_not]

theorem countP_previous (hP : OrderedOn P) (hkeys : ∀ pair ∈ pairs, KeyOn P pair.1)
    (h : LevelCursor.Ranges P columns pairs c)
    (hsteps : (LevelCursor.past columns c).length < steps) :
    (trail previous steps (some ⟨columns, c⟩)).countP changed =
      FlatIndex.turns (pairs.take ((LevelCursor.past columns c).length + 1)) +
        if LevelCursor.changed columns c then 1 else 0 := by
  induction steps generalizing c with
  | zero => cases hsteps
  | succ steps ih =>
    rw [trail, List.countP_cons, h.take_succ]
    congr 1
    cases hprevious : LevelCursor.previous columns c with
    | none =>
      have hmove : previous ⟨columns, c⟩ = none := congrArg (Option.map _) hprevious
      rw [hmove, h.previous_eq_none_iff.1 hprevious]
      cases steps <;> rfl
    | some d =>
      have hmove : previous ⟨columns, c⟩ = some ⟨columns, d⟩ := congrArg (Option.map _) hprevious
      obtain ⟨hd, hplace⟩ := h.of_previous hprevious
      have hchanged := h.changed_iff hP hkeys (.inr hprevious)
      rw [hmove, ih hd (by omega), ← hplace, hd.take_succ, List.append_assoc,
        List.singleton_append, FlatIndex.turns_concat]
      simp only [hchanged, ite_not]

end IndexCursor

namespace CompositeIndex

variable {K : Type} [Ord K] {P : K → Prop} {x : CompositeIndex K}

/-- The cursors that an index hands out. -/
inductive Fresh (P : K → Prop) (x : CompositeIndex K) : IndexCursor K → Prop where
  | first {c : IndexCursor K} (h : x.first = some c) : Fresh P x c
  | last {c : IndexCursor K} (h : x.last = some c) : Fresh P x c
  | seek {c : IndexCursor K} {key : List K} (hkey : KeyOn P key) (h : x.seek key = some c) :
    Fresh P x c
  | under {c : IndexCursor K} {start : List K} (hstart : KeyOn P start)
    (h : x.under start = some c) : Fresh P x c

/-- The cursors that moves lead to from those. -/
inductive Reached (P : K → Prop) (x : CompositeIndex K) : IndexCursor K → Prop where
  | fresh {c : IndexCursor K} (h : x.Fresh P c) : Reached P x c
  | next {c d : IndexCursor K} (h : Reached P x c) (hnext : c.next = some d) : Reached P x d
  | previous {c d : IndexCursor K} (h : Reached P x c) (hprevious : c.previous = some d) :
    Reached P x d

theorem Fresh.changed {c : IndexCursor K} (h : x.Fresh P c) : c.changed = false := by
  cases h with
  | first h =>
    obtain ⟨c, hc, rfl⟩ := Option.map_eq_some_iff.1 h
    exact LevelCursor.changed_first hc
  | last h =>
    obtain ⟨c, hc, rfl⟩ := Option.map_eq_some_iff.1 h
    exact LevelCursor.changed_last hc
  | seek _ h =>
    obtain ⟨c, hc, rfl⟩ := Option.map_eq_some_iff.1 h
    exact LevelCursor.changed_seek hc
  | under _ h =>
    obtain ⟨c, hc, rfl⟩ := Option.map_eq_some_iff.1 h
    exact LevelCursor.changed_under hc

/-- A cursor ranges over some pairs of an index. -/
def Over (P : K → Prop) (x : CompositeIndex K) (c : IndexCursor K) : Prop :=
  ∃ (pairs : FlatIndex K) (level : LevelCursor K x.columns),
    c = ⟨x.columns, level⟩ ∧ LevelCursor.Ranges P x.columns pairs level ∧ pairs ⊆ x.pairs

theorem Fresh.over (hP : OrderedOn P) (hvalid : x.Valid P) {c : IndexCursor K} (h : x.Fresh P c) :
    x.Over P c := by
  have hstart : ∀ {o : Option (LevelCursor K x.columns)} {pairs : FlatIndex K} {place : Nat},
      LevelCursor.At P x.columns pairs place o → pairs ⊆ x.pairs → o.map (⟨x.columns, ·⟩) = some c →
        x.Over P c := fun {o} pairs {_} hat hsub hmap => by
    obtain ⟨level, rfl, rfl⟩ := Option.map_eq_some_iff.1 hmap
    exact ⟨pairs, level, rfl, hat.1, hsub⟩
  cases h with
  | first h => exact hstart (LevelCursor.at_first hvalid) (List.Subset.refl _) h
  | last h => exact hstart (LevelCursor.at_last hvalid) (List.Subset.refl _) h
  | seek hkey h =>
    have hat := LevelCursor.at_seek hP hvalid
      (fun component hcomponent => hkey component (List.mem_of_mem_take hcomponent))
      (List.length_take_le x.columns.length _)
    rw [LevelCursor.seek_take] at hat
    exact hstart hat (List.Subset.refl _) h
  | under hstarts h =>
    exact hstart (LevelCursor.at_under hP hvalid hstarts) List.filter_sublist.subset h

theorem Reached.over (hP : OrderedOn P) (hvalid : x.Valid P) {c : IndexCursor K}
    (h : x.Reached P c) : x.Over P c := by
  induction h with
  | fresh h => exact h.over hP hvalid
  | next _ hnext ih =>
    obtain ⟨pairs, level, rfl, hranges, hsub⟩ := ih
    obtain ⟨moved, hmoved, rfl⟩ := Option.map_eq_some_iff.1 hnext
    exact ⟨pairs, moved, rfl, (hranges.of_next hmoved).1, hsub⟩
  | previous _ hprevious ih =>
    obtain ⟨pairs, level, rfl, hranges, hsub⟩ := ih
    obtain ⟨moved, hmoved, rfl⟩ := Option.map_eq_some_iff.1 hprevious
    exact ⟨pairs, moved, rfl, (hranges.of_previous hmoved).1, hsub⟩

/-- The marks of the cursors of an index are the turns from one group of pairs to another. -/
structure Marked (P : K → Prop) (x : CompositeIndex K) : Prop where
  fresh : ∀ c, x.Fresh P c → c.changed = false
  moved : ∀ c d, x.Reached P c → c.next = some d ∨ c.previous = some d →
    (d.changed = true ↔ ¬ SameHead d.key c.key)
  forward : x.pairs ≠ [] → ∀ steps, x.pairs.length ≤ steps →
    (IndexCursor.trail IndexCursor.next steps x.first).countP IndexCursor.changed + 1 =
      FlatIndex.groups x.pairs
  backward : x.pairs ≠ [] → ∀ steps, x.pairs.length ≤ steps →
    (IndexCursor.trail IndexCursor.previous steps x.last).countP IndexCursor.changed + 1 =
      FlatIndex.groups x.pairs

theorem Valid.keys (hP : OrderedOn P) (hvalid : x.Valid P) : ∀ pair ∈ x.pairs, KeyOn P pair.1 :=
  fun _ hpair => (Level.holds_of_mem_pairs hP hvalid hpair).1

theorem Valid.marked_moved (hP : OrderedOn P) (hvalid : x.Valid P) {c d : IndexCursor K}
    (hc : x.Reached P c) (hmoved : c.next = some d ∨ c.previous = some d) :
    d.changed = true ↔ ¬ SameHead d.key c.key := by
  obtain ⟨pairs, level, rfl, hranges, hsub⟩ := hc.over hP hvalid
  obtain ⟨moved, rfl, hlevel⟩ : ∃ moved : LevelCursor K x.columns, d = ⟨x.columns, moved⟩ ∧
      (LevelCursor.next x.columns level = some moved ∨
        LevelCursor.previous x.columns level = some moved) := by
    rcases hmoved with h | h
    · obtain ⟨moved, hmoved, rfl⟩ := Option.map_eq_some_iff.1 h
      exact ⟨moved, rfl, .inl hmoved⟩
    · obtain ⟨moved, hmoved, rfl⟩ := Option.map_eq_some_iff.1 h
      exact ⟨moved, rfl, .inr hmoved⟩
  exact hranges.changed_iff hP (fun pair hpair => hvalid.keys hP pair (hsub hpair)) hlevel

theorem Valid.marked_forward (hP : OrderedOn P) (hvalid : x.Valid P) (hne : x.pairs ≠ [])
    {steps : Nat} (hsteps : x.pairs.length ≤ steps) :
    (IndexCursor.trail IndexCursor.next steps x.first).countP IndexCursor.changed + 1 =
      FlatIndex.groups x.pairs := by
  have hat := LevelCursor.at_first hvalid
  have hgroups : FlatIndex.groups x.pairs = _ := (Level.together hP hvalid).groups_eq hne
  rw [hgroups, first]
  cases hfirst : LevelCursor.first x.columns x.level with
  | none =>
    rw [hfirst] at hat
    exact absurd (List.length_eq_zero_iff.1 (Nat.eq_zero_of_le_zero hat)) hne
  | some c =>
    rw [hfirst] at hat
    obtain ⟨hranges, hplace⟩ := hat
    have hcount := IndexCursor.countP_next hP (hvalid.keys hP) hranges
      (Nat.le_trans hsteps (Nat.le_add_left steps _))
    rw [hplace, LevelCursor.changed_first hfirst] at hcount
    exact congrArg (· + 1) hcount

theorem Valid.marked_backward (hP : OrderedOn P) (hvalid : x.Valid P) (hne : x.pairs ≠ [])
    {steps : Nat} (hsteps : x.pairs.length ≤ steps) :
    (IndexCursor.trail IndexCursor.previous steps x.last).countP IndexCursor.changed + 1 =
      FlatIndex.groups x.pairs := by
  have hpos : 0 < x.pairs.length := List.length_pos_iff.2 hne
  have hat := LevelCursor.at_last hvalid
  have hgroups : FlatIndex.groups x.pairs = _ := (Level.together hP hvalid).groups_eq hne
  rw [hgroups, last]
  cases hlast : LevelCursor.last x.columns x.level with
  | none =>
    rw [hlast] at hat
    exact absurd (show x.pairs.length ≤ x.pairs.length - 1 from hat) (by omega)
  | some c =>
    rw [hlast] at hat
    obtain ⟨hranges, hplace⟩ := hat
    have hend : (LevelCursor.past x.columns c).length + 1 = x.pairs.length := by
      rw [hplace]
      exact Nat.sub_add_cancel hpos
    have hcount := IndexCursor.countP_previous hP (hvalid.keys hP) hranges
      (Nat.lt_of_lt_of_le (Nat.lt_of_succ_le (Nat.le_of_eq hend)) hsteps)
    rw [hend, List.take_length, LevelCursor.changed_last hlast] at hcount
    exact congrArg (· + 1) hcount

/-- Whatever changes an index over accepted columns goes through, the marks of its cursors tell its
groups. -/
theorem marked_of_new [HasNull K] {columns : List KeyColumn} (hP : OrderedOn P)
    (h : new columns = .ok x) {changes : List (IndexChange K)}
    (hkeys : ∀ change ∈ changes, change.KeysIn P) : (x.after changes).Marked P := by
  obtain ⟨-, rfl⟩ := new_eq_ok h
  obtain ⟨hvalid, -⟩ := valid_after hP valid_new hkeys
  exact {
    fresh := fun _ hc => hc.changed
    moved := fun _ _ hc hmoved => hvalid.marked_moved hP hc hmoved
    forward := fun hne _ hsteps => hvalid.marked_forward hP hne hsteps
    backward := fun hne _ hsteps => hvalid.marked_backward hP hne hsteps }

/-- Three groups under a descending column, the second one with three rows under two keys. -/
theorem marked_of_new_three_groups :
    ∃ x : CompositeIndex Nat,
      new [⟨.disallow, .disallow, .descending⟩, ⟨.allow, .disallow, .ascending⟩] = .ok x ∧
      (x.after [.insert [2, 5] 1, .insert [2, 7] 3, .insert [1, 3] 4, .insert [3, 1] 5,
        .insert [2, 5] 2]).Marked (fun _ => True) ∧
      (IndexCursor.trail IndexCursor.next 5 (x.after [.insert [2, 5] 1, .insert [2, 7] 3,
        .insert [1, 3] 4, .insert [3, 1] 5, .insert [2, 5] 2]).first).map IndexCursor.changed =
        [false, true, false, false, true] := by
  have hnew : new [⟨.disallow, .disallow, .descending⟩, ⟨.allow, .disallow, .ascending⟩] =
      .ok (⟨_, Level.empty _⟩ : CompositeIndex Nat) := rfl
  exact ⟨_, hnew, marked_of_new SortedMap.orderedOn_true hnew fun _ _ => IndexChange.keysIn_true,
    by decide +kernel⟩

end CompositeIndex

end SnapshotStore
