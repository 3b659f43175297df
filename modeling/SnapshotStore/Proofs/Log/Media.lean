import SnapshotStore.Log.Medium

/-!
# The bytes of a medium

A file that is made longer is filled up with zeros. What is written at the end of a file, or behind
it, has nothing to write over, and what is read in front of some place does not depend on what
stands behind it.
-/

namespace SnapshotStore

theorem length_resized (held : List UInt8) (length : Nat) :
    (resized held length).length = length := by
  rw [resized, List.length_append, List.length_take, List.length_replicate]
  omega

theorem resized_length (held : List UInt8) : resized held held.length = held := by
  rw [resized, Nat.sub_self, List.replicate_zero, List.append_nil, List.take_length]

theorem resized_of_le {held : List UInt8} {length : Nat} (h : length ≤ held.length) :
    resized held length = held.take length := by
  rw [resized, Nat.sub_eq_zero_of_le h, List.replicate_zero, List.append_nil]

theorem take_resized (held : List UInt8) {length bound : Nat} (h : length ≤ bound) :
    (resized held bound).take length = resized held length := by
  rw [resized, resized, List.take_append, List.take_take, List.take_replicate, List.length_take,
    Nat.min_eq_left h]
  congr 2
  omega

/-- Nothing is written over where nothing stands. -/
theorem overwritten_of_le {held : List UInt8} {start : Nat} (payload : List UInt8)
    (h : held.length ≤ start) : overwritten held start payload =
      if payload.isEmpty then held else resized held start ++ payload := by
  rw [overwritten]
  split
  · rfl
  · rw [List.drop_of_length_le (Nat.le_add_right_of_le h), List.append_nil]

theorem length_overwritten_le {held : List UInt8} {start : Nat} (h : held.length ≤ start)
    (payload : List UInt8) : (overwritten held start payload).length ≤ start + payload.length := by
  rw [overwritten_of_le payload h]
  split
  · exact Nat.le_add_right_of_le h
  · exact Nat.le_of_eq (by rw [List.length_append, length_resized])

namespace Medium

def bytes : Medium → List UInt8
  | file bytes _ => bytes
  | fullDevice => []

theorem length_bytes (medium : Medium) : medium.bytes.length = medium.length := by
  cases medium <;> rfl

theorem bytes_write {medium after : Medium} {start : Nat} {payload : List UInt8} {synced : Bool}
    {outcome : ChangeOutcome} (h : medium.write start payload synced = (outcome, after)) :
    after.bytes = outcome.writes medium.bytes start payload := by
  cases medium with
  | file held outcomes =>
    cases h
    rfl
  | fullDevice =>
    rw [write] at h
    split at h
    · next hempty =>
      cases h
      exact (if_pos (Bool.and_eq_true_iff.1 hempty).1).symm
    · cases h
      rfl

theorem bytes_resize {medium after : Medium} {length : Nat} {outcome : ChangeOutcome}
    (h : medium.resize length = (outcome, after)) :
    after.bytes = outcome.resizes medium.bytes length := by
  cases medium with
  | file held outcomes =>
    rw [resize] at h
    split at h <;> cases h <;> rfl
  | fullDevice =>
    cases h
    rfl

/-- Bytes are read from the front of a medium as from all of it. -/
theorem read?_eq (medium : Medium) {first last bound : Nat} (hfirst : first ≤ last)
    (hlast : last ≤ bound) : medium.read? first (last - first) =
      if first = last ∨ last ≤ (medium.bytes.take bound).length then
        some (((medium.bytes.take bound).drop first).take (last - first))
      else none := by
  have hpart : ((medium.bytes.take bound).drop first).take (last - first) =
      (medium.bytes.drop first).take (last - first) := by
    rw [List.drop_take, List.take_take, Nat.min_eq_left (Nat.sub_le_sub_right hlast first)]
  rw [hpart, List.length_take]
  cases medium with
  | file held outcomes =>
    rw [read?, bytes]
    exact ite_congr (propext (by omega)) (fun _ => rfl) fun _ => rfl
  | fullDevice =>
    rw [read?, bytes, List.drop_nil, List.take_nil]
    rw [List.length_nil]
    exact ite_congr (propext (by omega)) (fun _ => rfl) fun _ => rfl

end Medium

end SnapshotStore
