import SnapshotStore.Proofs.SortedMap.Place

/-!
# Walking over a map

An iterator starts on the first entry and moves on until no entry is left, so it hands out the
entries of the map from the place where it starts.
-/

namespace SnapshotStore.SortedMap

variable {K V : Type}

namespace Cursor

/-- The entries that an iterator hands out in so many steps. -/
def walk : Nat → Option (Cursor K V) → List (K × V)
  | 0, _ => []
  | _ + 1, none => []
  | steps + 1, some c => c.entry :: walk steps c.next

theorem walk_eq_take {entries : List (K × V)} {place : Nat} {counted : Prop}
    {o : Option (Cursor K V)} (h : At entries place counted o) (steps : Nat) :
    walk steps o = (entries.drop place).take steps := by
  induction steps generalizing o place counted with
  | zero => rfl
  | succ steps ih =>
    cases o with
    | none =>
      rw [List.drop_eq_nil_of_le h]
      rfl
    | some c =>
      obtain ⟨hstands, rfl, -⟩ := h
      obtain ⟨hplace, hentry⟩ := List.getElem?_eq_some_iff.1 hstands.getElem?
      rw [walk, ih hstands.next, List.drop_eq_getElem_cons hplace, hentry, List.take_succ_cons]

end Cursor

variable [Ord K] {P : K → Prop} {m : SortedMap K V}

/-- An iterator hands out the entries of the map in order, and no others. -/
theorem Valid.walk_first (h : m.Valid P) (steps : Nat) :
    Cursor.walk steps m.first = m.toList.take steps :=
  Cursor.walk_eq_take (h.at_first True) steps

end SnapshotStore.SortedMap
