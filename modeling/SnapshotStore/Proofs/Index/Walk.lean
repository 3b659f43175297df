import SnapshotStore.Proofs.Index.Place

/-!
# Walking over an index

An iterator starts on the first pair and moves on until no pair is left, so it hands out all pairs
in order, and one that is pinned to the start of a key hands out the pairs whose keys start so.
-/

namespace SnapshotStore

namespace IndexCursor

variable {K : Type}

/-- The pairs that an iterator hands out in so many steps. -/
def walk : Nat → Option (IndexCursor K) → List (List K × RowId)
  | 0, _ => []
  | _ + 1, none => []
  | steps + 1, some c => (c.key, c.row) :: walk steps c.next

theorem walk_eq_drop [Ord K] {P : K → Prop} {columns : List KeyColumn}
    {pairs : List (List K × RowId)} {place : Nat} {c : Option (LevelCursor K columns)}
    (h : LevelCursor.At P columns pairs place c) (steps : Nat) :
    walk steps (c.map (⟨columns, ·⟩)) = (pairs.drop place).take steps := by
  induction steps generalizing c place with
  | zero => rfl
  | succ steps ih =>
    cases c with
    | none =>
      rw [List.drop_eq_nil_of_le h]
      rfl
    | some c =>
      obtain ⟨hranges, rfl⟩ := h
      rw [hranges.drop, List.take_succ_cons, ← ih hranges.next]
      rfl

end IndexCursor

namespace CompositeIndex

variable {K : Type} [Ord K] {P : K → Prop} {x : CompositeIndex K}

theorem walk_first (hvalid : Level.Valid P x.columns x.level) (steps : Nat) :
    IndexCursor.walk steps x.first = x.pairs.take steps :=
  IndexCursor.walk_eq_drop (LevelCursor.at_first hvalid) steps

theorem walk_under (hP : OrderedOn P) (hvalid : Level.Valid P x.columns x.level) {start : List K}
    (hstart : KeyOn P start) (steps : Nat) :
    IndexCursor.walk steps (x.under start) =
      (x.pairs.filter fun pair => StartsWith pair.1 start).take steps :=
  IndexCursor.walk_eq_drop (LevelCursor.at_under hP hvalid hstart) steps

end CompositeIndex

end SnapshotStore
