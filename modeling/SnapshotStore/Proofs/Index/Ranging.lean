import SnapshotStore.Proofs.Index.Refinement

/-!
# Index cursors range over the flat list

Whatever nesting of cursors a move goes through, it takes an index cursor from one pair of the flat
list to the next one or to the one before. A search starts at the first pair whose key is not below
the one searched for, in the directions of the columns, and a cursor that is pinned to the start of
keys ranges over the run of pairs whose keys start so.
-/

namespace SnapshotStore

namespace IndexCursor

variable {K : Type}

/-- The cursors that moves lead to from one at a place, and the places that they come to. -/
inductive Led (c : IndexCursor K) (place : Nat) : IndexCursor K → Nat → Prop where
  | here : Led c place c place
  | next {d e : IndexCursor K} {i : Nat} (h : Led c place d i) (hnext : d.next = some e) :
    Led c place e (i + 1)
  | previous {d e : IndexCursor K} {i : Nat} (h : Led c place d i)
    (hprevious : d.previous = some e) : Led c place e (i - 1)

/-- The cursor at a place of some pairs, which there is if there is a pair at that place. Whatever
moves it makes, it shows the pair at the place it comes to, and only the ends of the list stop it.
-/
def Ranges (pairs : List (List K × RowId)) (place : Nat) : Option (IndexCursor K) → Prop
  | none => pairs.length ≤ place
  | some c => ∀ d i, Led c place d i →
      pairs[i]? = some (d.key, d.row) ∧ (d.next = none ↔ i + 1 = pairs.length) ∧
        (d.previous = none ↔ i = 0)

variable [Ord K] {P : K → Prop} {columns : List KeyColumn} {pairs : List (List K × RowId)}
  {place : Nat}

theorem Led.ranges {c : LevelCursor K columns} (hc : LevelCursor.Ranges P columns pairs c)
    (hplace : (LevelCursor.past columns c).length = place) {d : IndexCursor K} {i : Nat}
    (h : Led ⟨columns, c⟩ place d i) :
    ∃ level : LevelCursor K columns, d = ⟨columns, level⟩ ∧
      LevelCursor.Ranges P columns pairs level ∧ (LevelCursor.past columns level).length = i := by
  induction h with
  | here => exact ⟨c, rfl, hc, hplace⟩
  | next _ hnext ih =>
    obtain ⟨level, rfl, hranges, rfl⟩ := ih
    obtain ⟨moved, hmoved, rfl⟩ := Option.map_eq_some_iff.1 hnext
    exact ⟨moved, rfl, hranges.of_next hmoved⟩
  | previous _ hprevious ih =>
    obtain ⟨level, rfl, hranges, rfl⟩ := ih
    obtain ⟨moved, hmoved, rfl⟩ := Option.map_eq_some_iff.1 hprevious
    obtain ⟨hmoved, hless⟩ := hranges.of_previous hmoved
    exact ⟨moved, rfl, hmoved, Nat.eq_sub_of_add_eq hless⟩

theorem ranges_of_at {c : Option (LevelCursor K columns)}
    (h : LevelCursor.At P columns pairs place c) : Ranges pairs place (c.map (⟨columns, ·⟩)) := by
  cases c with
  | none => exact h
  | some c =>
    intro d i hled
    obtain ⟨level, rfl, hranges, rfl⟩ := hled.ranges h.1 h.2
    exact ⟨hranges.getElem?, Option.map_eq_none_iff.trans hranges.next_eq_none_iff,
      Option.map_eq_none_iff.trans hranges.previous_eq_none_iff⟩

end IndexCursor

/-- All keys that a change is about can be compared. -/
def IndexChange.KeysIn {K : Type} (P : K → Prop) : IndexChange K → Prop
  | insert key _ | erase key _ => KeyOn P key
  | move old new _ => KeyOn P old ∧ KeyOn P new

theorem IndexChange.keysIn_true {K : Type} {change : IndexChange K} :
    change.KeysIn fun _ => True := by
  cases change <;> simp [KeysIn, KeyOn]

namespace CompositeIndex

variable {K : Type} [Ord K] [HasNull K] {P : K → Prop} {columns : List KeyColumn}
  {x y : CompositeIndex K}

theorem valid_change (hP : OrderedOn P) (hvalid : x.Valid P) {change : IndexChange K}
    (hkeys : change.KeysIn P) (h : x.change change = .ok y) :
    y.Valid P ∧ y.columns = x.columns := by
  cases change with
  | insert key row => exact ⟨valid_insert hP hvalid hkeys h, columns_insert h⟩
  | erase key row => exact ⟨valid_erase hP hvalid hkeys h, columns_erase h⟩
  | move old new row =>
    obtain ⟨erased, herased, hinserted⟩ := bind_eq_ok.1 h
    exact ⟨valid_insert hP (valid_erase hP hvalid hkeys.1 herased) hkeys.2 hinserted,
      (columns_insert hinserted).trans (columns_erase herased)⟩

/-- What changes make of an index stays in order. -/
theorem valid_after (hP : OrderedOn P) (hvalid : x.Valid P) {changes : List (IndexChange K)}
    (hkeys : ∀ change ∈ changes, change.KeysIn P) :
    (x.after changes).Valid P ∧ (x.after changes).columns = x.columns := by
  induction changes generalizing x with
  | nil => exact ⟨hvalid, rfl⟩
  | cons change changes ih =>
    obtain ⟨hchange, hrest⟩ := List.forall_mem_cons.1 hkeys
    rw [after, List.foldl_cons]
    cases hresult : x.change change with
    | error => exact ih hvalid hrest
    | ok y =>
      obtain ⟨hy, hcolumns⟩ := valid_change hP hvalid hchange hresult
      rw [← hcolumns]
      exact ih hy hrest

/-- All cursors of an index are places in the flat list of its pairs. -/
structure Ranged (P : K → Prop) (columns : List KeyColumn) (x : CompositeIndex K) : Prop where
  walk : ∀ steps, IndexCursor.walk steps x.first = x.pairs.take steps
  first : IndexCursor.Ranges x.pairs 0 x.first
  last : IndexCursor.Ranges x.pairs (x.pairs.length - 1) x.last
  seek : ∀ key, KeyOn P key → key.length ≤ columns.length →
    IndexCursor.Ranges x.pairs (Level.lowerPlace columns key x.pairs) (x.seek key)
  run : ∀ start, KeyOn P start →
    (x.pairs.filter fun pair => StartsWith pair.1 start) <:+: x.pairs
  under : ∀ start, KeyOn P start →
    IndexCursor.Ranges (x.pairs.filter fun pair => StartsWith pair.1 start) 0 (x.under start)

omit [HasNull K] in
theorem Valid.ranged (hP : OrderedOn P) (hvalid : x.Valid P) (hcolumns : x.columns = columns) :
    x.Ranged P columns where
  walk := walk_first hvalid
  first := IndexCursor.ranges_of_at (LevelCursor.at_first hvalid)
  last := IndexCursor.ranges_of_at (LevelCursor.at_last hvalid)
  seek := fun _ hkey hlength => hcolumns ▸
    IndexCursor.ranges_of_at (LevelCursor.at_seek hP hvalid hkey (hcolumns ▸ hlength))
  run := fun _ hstart => LevelCursor.startsWith_infix hP hvalid hstart
  under := fun _ hstart => IndexCursor.ranges_of_at (LevelCursor.at_under hP hvalid hstart)

/-- Whatever changes an index over accepted columns goes through, its cursors range over the flat
list of its pairs. -/
theorem ranged_of_new (hP : OrderedOn P) (h : new columns = .ok x)
    {changes : List (IndexChange K)} (hkeys : ∀ change ∈ changes, change.KeysIn P) :
    (x.after changes).Ranged P columns := by
  obtain ⟨-, rfl⟩ := new_eq_ok h
  obtain ⟨hvalid, hcolumns⟩ := valid_after hP valid_new hkeys
  exact hvalid.ranged hP hcolumns

/-- The first column descends. Below the key 2 nothing reaches 8, so that the search goes on to the
key 1, and the step back from there goes to the last row of the key before. -/
theorem ranged_of_new_past_key :
    ∃ x : CompositeIndex Nat,
      new [⟨.disallow, .disallow, .descending⟩, ⟨.allow, .disallow, .ascending⟩] = .ok x ∧
      (x.after [.insert [2, 5] 1, .insert [2, 7] 3, .insert [1, 3] 4, .insert [3, 1] 5,
        .insert [2, 5] 2]).Ranged (fun _ => True)
        [⟨.disallow, .disallow, .descending⟩, ⟨.allow, .disallow, .ascending⟩] ∧
      ((x.after [.insert [2, 5] 1, .insert [2, 7] 3, .insert [1, 3] 4, .insert [3, 1] 5,
        .insert [2, 5] 2]).seek [2, 8]).map (fun c =>
          ((c.key, c.row), c.previous.map fun d => (d.key, d.row))) =
        some (([1, 3], 4), some ([2, 7], 3)) := by
  have hnew : new [⟨.disallow, .disallow, .descending⟩, ⟨.allow, .disallow, .ascending⟩] =
      .ok (⟨_, Level.empty _⟩ : CompositeIndex Nat) := rfl
  exact ⟨_, hnew, ranged_of_new SortedMap.orderedOn_true hnew fun _ _ => IndexChange.keysIn_true,
    by decide +kernel⟩

end CompositeIndex

end SnapshotStore
