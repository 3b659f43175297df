import SnapshotStore.Proofs.Log.Tiling

/-!
# Lists of objects read back

Objects that are written one behind the other into a buffer are read back from its bytes, wherever
the buffer stands in the log: all of them, in their order, and each under the place that its offset
in the buffer amounts to. So the bytes tell which objects were written.
-/

namespace SnapshotStore

namespace LogObject

/-- An integer of the log can stand for each identifier in the object and for the length of each
text and each list. -/
structure Writable (object : LogObject) : Prop where
  uids : ∀ u ∈ object.uids, u.place < Bytes.limit
  lengths : ∀ c ∈ object.counts, c.2 < Bytes.limit

/-- Writes objects one behind the other, and gives each with its offset. -/
def putAll (buffer : List UInt8) : List LogObject → List (Nat × LogObject) × List UInt8
  | [] => ([], buffer)
  | object :: objects =>
    let (offset, buffer) := object.put buffer
    let (written, buffer) := putAll buffer objects
    ((offset, object) :: written, buffer)

variable {object : LogObject} {objects : List LogObject}

@[simp] theorem putAll_cons (buffer : List UInt8) (object : LogObject) (objects : List LogObject) :
    putAll buffer (object :: objects) =
      ((buffer.length, object) :: (putAll (buffer ++ object.encode) objects).1,
        (putAll (buffer ++ object.encode) objects).2) := rfl

theorem bytes_putAll (buffer : List UInt8) (objects : List LogObject) :
    (putAll buffer objects).2 = buffer ++ objects.flatMap encode := by
  induction objects generalizing buffer with
  | nil => simp [putAll]
  | cons object objects ih => simp [ih]

@[simp] theorem objects_putAll (buffer : List UInt8) (objects : List LogObject) :
    (putAll buffer objects).1.map Prod.snd = objects := by
  induction objects generalizing buffer with
  | nil => rfl
  | cons object objects ih => simp [ih]

theorem Writable.tiled (h : object.Writable) (base : Nat) :
    Tiled base object.encode [⟨⟨base⟩, object, base + object.encode.length⟩] :=
  Tiled.encode_of_within h.uids (fun c hc => Nat.le_pred_of_lt (h.lengths c hc)) (by decide)

/-- What is written behind a buffer is tiled by the objects at their offsets. -/
theorem tiled_putAll (h : ∀ object ∈ objects, object.Writable) (base : Nat) (buffer : List UInt8) :
    ∃ stored, Tiled (base + buffer.length) (objects.flatMap encode) stored ∧
      stored.map Stored.pair =
        (putAll buffer objects).1.map fun (offset, object) => (⟨base + offset⟩, object) := by
  induction objects generalizing buffer with
  | nil => exact ⟨[], .nil _, rfl⟩
  | cons object objects ih =>
    obtain ⟨hobject, hobjects⟩ := List.forall_mem_cons.1 h
    obtain ⟨stored, htiled, hstored⟩ := ih hobjects (buffer ++ object.encode)
    rw [List.length_append, ← Nat.add_assoc] at htiled
    refine ⟨_, (hobject.tiled _).append htiled, ?_⟩
    simp [hstored, Stored.pair]

end LogObject

/-- Objects that were written into a buffer are read back at any place, and no other objects have
the same bytes. -/
theorem written_objects_read_back {objects : List LogObject}
    (h : ∀ object ∈ objects, object.Writable) (base : Nat) :
    let (written, bytes) := LogObject.putAll [] objects
    objectsIn bytes base = .ok (written.map fun (offset, object) => (⟨base + offset⟩, object)) ∧
      written.map Prod.snd = objects ∧
      ∀ others, (∀ object ∈ others, LogObject.Writable object) →
        (LogObject.putAll [] others).2 = bytes → others = objects := by
  have hread : ∀ {all : List LogObject}, (∀ object ∈ all, object.Writable) →
      objectsIn (LogObject.putAll [] all).2 base =
        .ok ((LogObject.putAll [] all).1.map fun (offset, object) => (⟨base + offset⟩, object)) := by
    intro all hall
    obtain ⟨stored, htiled, hstored⟩ := LogObject.tiled_putAll hall base []
    rw [LogObject.bytes_putAll, ← hstored]
    exact htiled.objectsIn
  refine ⟨hread h, LogObject.objects_putAll [] objects, fun others hothers hbytes => ?_⟩
  have hsame := (hread hothers).symm.trans (hbytes ▸ hread h)
  have hobjects := congrArg (List.map Prod.snd) (Except.ok.inj hsame)
  rw [List.map_map, List.map_map] at hobjects
  calc
    others = (LogObject.putAll [] others).1.map Prod.snd := (LogObject.objects_putAll [] others).symm
    _ = (LogObject.putAll [] objects).1.map Prod.snd := hobjects
    _ = objects := LogObject.objects_putAll [] objects

/-- The greatest and the least integers, a decimal with a superfluous zero, absent identifiers and
empty lists. -/
theorem written_objects_read_back_of_extremes :
    let objects : List LogObject :=
      [.newTable "", .record ⟨2⟩ [(⟨7⟩, .integer Int64.minValue), (⟨9⟩, .numeric ⟨10, 2, 1⟩)],
        .alter ⟨0x7fffffffffffffff⟩ none "é" none, .drop ⟨2⟩ (some ⟨0⟩),
        .newIndex ⟨⟨2⟩, true, [], none⟩]
    (∀ object ∈ objects, object.Writable) ∧
      objectsIn (LogObject.putAll [] objects).2 1000 =
        .ok [(⟨1000⟩, .newTable ""),
          (⟨1003⟩, .record ⟨2⟩ [(⟨7⟩, .integer Int64.minValue), (⟨9⟩, .numeric ⟨10, 2, 1⟩)]),
          (⟨1029⟩, .alter ⟨0x7fffffffffffffff⟩ none "é" none), (⟨1046⟩, .drop ⟨2⟩ (some ⟨0⟩)),
          (⟨1051⟩, .newIndex ⟨⟨2⟩, true, [], none⟩)] := by
  intro objects
  have hwritable : ∀ object ∈ objects, object.Writable := by
    intro object hobject
    constructor
    · revert object
      decide +kernel
    · revert object
      decide +kernel
  exact ⟨hwritable, (written_objects_read_back hwritable 1000).1⟩

end SnapshotStore
