import SnapshotStore.Proofs.Log.Extent
import SnapshotStore.Proofs.Log.RoundTrip

/-!
# Logs as rows of objects

A slice of the log is tiled by objects if it is their encodings, one behind the other. A scan reads
exactly the objects of a tiled slice; of any other slice it reads the objects that tile some front
part of it.
-/

namespace SnapshotStore

/-- The bytes that stand at `base` in the log are the given objects, one behind the other. -/
inductive Tiled : (base : Nat) → List UInt8 → List Stored → Prop where
  | nil (base : Nat) : Tiled base [] []
  | cons {base : Nat} {used rest : List UInt8} {uid : Uid} {object : LogObject}
      {objects : List Stored} (hused : used ≠ [])
      (hreads : ∀ size,
        used.length ≤ size → Decoder.Reads base size Decoder.object used (uid, object))
      (hrest : Tiled (base + used.length) rest objects) :
      Tiled base (used ++ rest) (⟨uid, object, base + used.length⟩ :: objects)

/-- An object and its identifier. -/
def Stored.pair (stored : Stored) : Uid × LogObject := (stored.uid, stored.object)

/-- The objects that stand in a log. -/
def logged (bytes : List UInt8) : List LogObject := (Scan.ofBytes bytes 0).objects.map (·.object)

theorem uid_of_reads {base size : Nat} {used : List UInt8} {uid : Uid} {object : LogObject}
    (h : Decoder.Reads base size Decoder.object used (uid, object)) : uid = ⟨base⟩ := by
  have hrun := h [] false
  rw [Decoder.object, Decoder.run_offset_bind, Decoder.run_bind] at hrun
  split at hrun
  · rw [Decoder.run_bind] at hrun
    split at hrun
    · exact (Prod.mk.inj (Except.ok.inj (Prod.mk.inj hrun).1)).1.symm
    · cases hrun
  · cases hrun

namespace Tiled

variable {base : Nat} {bytes more : List UInt8} {objects others : List Stored}

theorem append (h : Tiled base bytes objects) (hmore : Tiled (base + bytes.length) more others) :
    Tiled base (bytes ++ more) (objects ++ others) := by
  induction h with
  | nil => exact hmore
  | cons hused hreads hrest ih =>
    rw [List.append_assoc]
    refine .cons hused hreads (ih ?_)
    rwa [List.length_append, ← Nat.add_assoc] at hmore

/-- The encoding of an object with identifiers and lengths that an integer can stand for. -/
theorem encode_of_within {object : LogObject} {longest : Nat}
    (huids : ∀ u ∈ object.uids, u.place < Bytes.limit) (hlengths : object.counts.Within longest)
    (hlimit : longest < Bytes.limit) :
    Tiled base object.encode [⟨⟨base⟩, object, base + object.encode.length⟩] := by
  have hone : Tiled base (object.encode ++ []) _ :=
    .cons (List.cons_ne_nil _ _)
      (fun size hsize => Decoder.reads_object hlimit huids hlengths hsize) (.nil _)
  rwa [List.append_nil] at hone

theorem encode {object : LogObject} (huids : ∀ u ∈ object.uids, u.place < Bytes.limit)
    (hlimit : object.encode.length < Bytes.limit) :
    Tiled base object.encode [⟨⟨base⟩, object, base + object.encode.length⟩] :=
  encode_of_within huids (Decoder.within_object object) hlimit

/-- The objects stand in the order of their places, each where the one before ends. -/
theorem places (h : Tiled base bytes objects) :
    ∀ stored ∈ objects, base ≤ stored.uid.place ∧ stored.uid.place < stored.stop ∧
      stored.stop ≤ base + bytes.length := by
  induction h with
  | nil => exact fun _ hmem => absurd hmem List.not_mem_nil
  | @cons base used rest uid object objects hused hreads hrest ih =>
    have hlength : 0 < used.length := List.length_pos_iff.2 hused
    have huid := uid_of_reads (hreads used.length (Nat.le_refl _))
    intro stored hstored
    rw [List.length_append]
    rcases List.mem_cons.1 hstored with rfl | hstored
    · rw [huid]
      exact ⟨Nat.le_refl _, Nat.lt_add_of_pos_right hlength,
        Nat.add_le_add_left (Nat.le_add_right _ _) base⟩
    · have := ih stored hstored
      omega

/-- The first object takes the first bytes. -/
theorem cons_inv {stored : Stored} (h : Tiled base bytes (stored :: objects)) :
    ∃ used rest, bytes = used ++ rest ∧ stored.stop = base + used.length ∧
      Tiled stored.stop rest objects := by
  cases h with
  | @cons _ used rest _ _ _ hused hreads hrest => exact ⟨used, rest, rfl, rfl, hrest⟩

/-- The same objects take a front part of the same length, and the other objects the rest. -/
theorem split (h : Tiled base bytes objects) {all : List UInt8} :
    Tiled base all (objects ++ others) → ∃ front rest, all = front ++ rest ∧
      bytes.length = front.length ∧ Tiled (base + bytes.length) rest others := by
  induction h generalizing all with
  | nil => exact fun hall => ⟨[], all, rfl, rfl, hall⟩
  | @cons base used rest uid object objects hused hreads hrest ih =>
    intro hall
    obtain ⟨used', all, rfl, hstop, hall⟩ := hall.cons_inv
    obtain ⟨front, behind, rfl, hfront, hbehind⟩ := ih hall
    have hlength : used.length = used'.length := Nat.add_left_cancel hstop
    refine ⟨used' ++ front, behind, (List.append_assoc ..).symm, ?_, ?_⟩
    · rw [List.length_append, List.length_append, hlength, hfront]
    · rwa [List.length_append, ← Nat.add_assoc]

/-- Behind the objects that tile a front part come the objects of the rest. -/
theorem rest_of_append (h : Tiled base bytes objects)
    (hall : Tiled base (bytes ++ more) (objects ++ others)) :
    Tiled (base + bytes.length) more others := by
  obtain ⟨front, rest, heq, hlength, hrest⟩ := h.split hall
  rwa [(List.append_inj heq hlength).2]

theorem length_le_of_append (h : Tiled base bytes objects) {all : List UInt8}
    (hall : Tiled base all (objects ++ others)) : bytes.length ≤ all.length := by
  obtain ⟨front, rest, rfl, hlength, _⟩ := h.split hall
  rw [List.length_append, hlength]
  exact Nat.le_add_right _ _

/-- Each object is read by itself at its place. -/
theorem reads_at (h : Tiled base bytes objects) {stored : Stored} (hmem : stored ∈ objects)
    {size : Nat} (hsize : bytes.length ≤ size) (ranOut : Bool) :
    ∃ r, Decoder.object.run.run
      ⟨bytes.drop (stored.uid.place - base), stored.uid.place, size, ranOut⟩ =
        (.ok stored.pair, r) := by
  induction h with
  | nil => exact absurd hmem List.not_mem_nil
  | @cons base used rest uid object objects hused hreads hrest ih =>
    rw [List.length_append] at hsize
    have huid := uid_of_reads (hreads used.length (Nat.le_refl _))
    rcases List.mem_cons.1 hmem with rfl | hmem
    · subst huid
      rw [Nat.sub_self, List.drop_zero]
      exact ⟨_, hreads size (by omega) rest ranOut⟩
    · obtain ⟨r, hr⟩ := ih hmem (by omega)
      obtain ⟨k, hk⟩ := Nat.exists_eq_add_of_le (hrest.places stored hmem).1
      rw [hk, Nat.add_sub_cancel_left] at hr
      refine ⟨r, ?_⟩
      rw [hk, Nat.add_assoc, Nat.add_sub_cancel_left, List.drop_length_add_append, ← Nat.add_assoc]
      exact hr

theorem eq_nil (h : Tiled base [] objects) : objects = [] := by
  refine List.eq_nil_iff_forall_not_mem.2 fun stored hstored => ?_
  obtain ⟨hplace, hstop, hend⟩ := h.places stored hstored
  rw [List.length_nil] at hend
  omega

/-! ### Scanning -/

/-- A scan reads the objects of a tiled front part and goes on behind it. -/
theorem scan_append (h : Tiled base bytes objects) {bound size : Nat}
    (hbound : (bytes ++ more).length ≤ bound) (hsize : bytes.length ≤ size) (ranOut : Bool) :
    ∃ left, more.length ≤ left ∧
      Scan.upTo bound ⟨bytes ++ more, base, size, ranOut⟩ =
        ⟨objects ++ (Scan.upTo left ⟨more, base + bytes.length, size, ranOut⟩).objects,
          (Scan.upTo left ⟨more, base + bytes.length, size, ranOut⟩).fault⟩ := by
  induction h generalizing bound with
  | nil => exact ⟨bound, hbound, rfl⟩
  | @cons base used rest uid object objects hused hreads hrest ih =>
    have hlength : 0 < used.length := List.length_pos_iff.2 hused
    rw [List.length_append, List.length_append] at hbound
    rw [List.length_append] at hsize
    obtain ⟨bound, rfl⟩ : ∃ smaller, bound = smaller + 1 := ⟨bound - 1, by omega⟩
    have hrestBound : (rest ++ more).length ≤ bound := by
      rw [List.length_append]
      omega
    obtain ⟨left, hleft, hscan⟩ := ih hrestBound (by omega)
    have hdone : (⟨used ++ (rest ++ more), base, size, ranOut⟩ : Reader).isDone = false := by
      rw [Reader.isDone, Bool.eq_false_iff, Ne, List.isEmpty_iff]
      exact fun hnil => hused (List.append_eq_nil_iff.1 hnil).1
    refine ⟨left, hleft, ?_⟩
    rw [List.append_assoc, List.length_append, ← Nat.add_assoc, Scan.upTo, hdone,
      if_neg Bool.false_ne_true, hreads size (by omega) (rest ++ more) ranOut]
    dsimp only
    rw [hscan]
    rfl

theorem scan_ofBytes (h : Tiled base bytes objects) :
    Scan.ofBytes bytes base = ⟨objects, none⟩ := by
  obtain ⟨left, _, hscan⟩ := h.scan_append
    (Nat.le_of_eq (congrArg List.length (List.append_nil bytes))) (Nat.le_refl _) false
  have hnone : ∀ offset, Scan.upTo left ⟨[], offset, bytes.length, false⟩ = ⟨[], none⟩ :=
    fun offset => by cases left <;> rfl
  rw [List.append_nil, hnone, List.append_nil] at hscan
  exact hscan

theorem logged_eq (h : Tiled 0 bytes objects) : logged bytes = objects.map (·.object) := by
  rw [logged, h.scan_ofBytes]

theorem scan_ofBytes_append (h : Tiled base bytes objects) (more : List UInt8) :
    ∃ later, (Scan.ofBytes (bytes ++ more) base).objects = objects ++ later := by
  have hsize : bytes.length ≤ (bytes ++ more).length := by
    rw [List.length_append]
    exact Nat.le_add_right _ _
  obtain ⟨_, _, hscan⟩ := h.scan_append (Nat.le_refl _) hsize false
  exact ⟨_, congrArg Scan.objects hscan⟩

/-- A longer slice has the objects of its front part and more. -/
theorem exists_append (hall : Tiled base (bytes ++ more) others)
    (h : Tiled base bytes objects) :
    ∃ later, others = objects ++ later ∧ Tiled (base + bytes.length) more later := by
  obtain ⟨later, hlater⟩ := h.scan_ofBytes_append more
  rw [hall.scan_ofBytes] at hlater
  subst hlater
  exact ⟨later, rfl, h.rest_of_append hall⟩

theorem objectsIn (h : Tiled base bytes objects) :
    SnapshotStore.objectsIn bytes base = .ok (objects.map Stored.pair) := by
  rw [SnapshotStore.objectsIn, h.scan_ofBytes]
  rfl

/-- What a scan reads tiles what it has walked over. -/
theorem of_scan {bound : Nat} {r : Reader} (hbound : r.rest.length ≤ bound) :
    ∃ used rest, r.rest = used ++ rest ∧ Tiled r.offset used (Scan.upTo bound r).objects ∧
      ((Scan.upTo bound r).fault = none → rest = []) := by
  induction bound generalizing r with
  | zero =>
    have hnil : r.rest = [] := List.length_eq_zero_iff.1 (Nat.le_zero.1 hbound)
    exact ⟨[], [], hnil, .nil _, fun _ => rfl⟩
  | succ bound ih =>
    rw [Scan.upTo]
    by_cases hdone : r.isDone
    · rw [if_pos hdone]
      exact ⟨[], [], List.isEmpty_iff.1 hdone, .nil _, fun _ => rfl⟩
    rw [if_neg hdone]
    split
    · next uid object r' hrun =>
      obtain ⟨used, rest, hleast, hrest, rfl, hreads⟩ := Decoder.takes_object r _ r' hrun
      have hlength := congrArg List.length hrest
      rw [List.length_append] at hlength
      obtain ⟨walked, left, hwalked, htiled, hfault⟩ :=
        ih (r := ⟨rest, r.offset + used.length, r.size, r.ranOut⟩) (by
        dsimp only
        omega)
      refine ⟨used ++ walked, left, ?_, .cons (List.length_pos_iff.1 hleast) hreads htiled, hfault⟩
      rw [hrest, List.append_assoc]
      exact congrArg (used ++ ·) hwalked
    · exact ⟨[], r.rest, rfl, .nil _, fun hnone => (nomatch hnone)⟩

end Tiled

end SnapshotStore
