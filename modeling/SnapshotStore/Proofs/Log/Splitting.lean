import SnapshotStore.Proofs.Log.Contents
import SnapshotStore.Proofs.Log.Ensures

/-!
# Reading any bytes

Reading a slice of the log never leaves it, whatever its bytes are. Either it gives objects whose
spans are the slice, one behind the other, or it refuses the slice for something that stands in it.
Slices that meet between two objects are read like the one slice that they make up.
-/

namespace SnapshotStore

variable {base : Nat} {bytes more : List UInt8} {r r' : Reader}

theorem Reader.Walks.end_eq {used : List UInt8} (h : r.Walks used r') :
    r'.offset + r'.rest.length = r.offset + r.rest.length := by
  rw [h.offset, h.rest, List.length_append, Nat.add_assoc]

/-! ### What is read -/

/-- The readers with which the reading of a slice comes to the start of an object or to the end. -/
inductive Scanning (bytes : List UInt8) (base : Nat) : Reader → Prop where
  | start : Scanning bytes base (.start bytes base)
  | next {r r' : Reader} {stored : Uid × LogObject} (h : Scanning bytes base r)
      (hmore : r.isDone = false) (hrun : Decoder.object.run.run r = (.ok stored, r')) :
      Scanning bytes base r'

/-- The bytes that stand at `base` are the spans of the objects. Each span is read as its object,
which may be written in fewer bytes but in no more. -/
inductive Parts : (base : Nat) → List UInt8 → List (Uid × LogObject) → Prop where
  | nil (base : Nat) : Parts base [] []
  | cons {base : Nat} {used rest : List UInt8} {object : LogObject}
      {objects : List (Uid × LogObject)} (hused : used ≠ [])
      (hreads : objectsIn used base = .ok [(⟨base⟩, object)])
      (hlength : object.encode.length ≤ used.length)
      (hencode : ∀ place, objectsIn object.encode place = .ok [(⟨place⟩, object)])
      (hrest : Parts (base + used.length) rest objects) :
      Parts base (used ++ rest) ((⟨base⟩, object) :: objects)

/-- Where the objects start that go up to `stop`. -/
def startOf (objects : List (Uid × LogObject)) (stop : Nat) : Nat :=
  objects.head?.elim stop (·.1.place)

theorem object_walks {result : Except ReadFault (Uid × LogObject)}
    (hrun : Decoder.object.run.run r = (result, r')) : ∃ used, r.Walks used r' := by
  obtain ⟨used, hwalks, _⟩ :=
    Decoder.ensures_object (Nat.le_refl _) r result r' (Nat.le_refl _) hrun
  exact ⟨used, hwalks⟩

theorem Scanning.walks (h : Scanning bytes base r) :
    ∃ used, (Reader.start bytes base).Walks used r := by
  induction h with
  | start => exact ⟨[], .refl _⟩
  | next h hmore hrun ih =>
    obtain ⟨used, hused⟩ := ih
    obtain ⟨more, hmore⟩ := object_walks hrun
    exact ⟨used ++ more, hused.trans hmore⟩

theorem Scan.fault_within {bound : Nat} {fault : ReadFault} {ranOut : Bool}
    (h : (Scan.upTo bound r).fault = some (fault, ranOut)) :
    r.offset ≤ fault.place ∧ fault.place ≤ r.offset + r.rest.length := by
  induction bound generalizing r with
  | zero => cases h
  | succ bound ih =>
    rw [Scan.upTo] at h
    split at h
    · cases h
    · split at h
      · next uid object r' hrun =>
        obtain ⟨used, hwalks⟩ := object_walks hrun
        have hrest := ih h
        rw [hwalks.end_eq, hwalks.offset] at hrest
        exact ⟨Nat.le_trans (Nat.le_add_right _ _) hrest.1, hrest.2⟩
      · next hrun =>
        cases h
        obtain ⟨used, hwalks, hlow, hplace⟩ :=
          Decoder.ensures_object (Nat.le_refl _) r _ _ (Nat.le_refl _) hrun
        exact ⟨hlow, hwalks.end_eq ▸ Nat.le_trans hplace (Nat.le_add_right _ _)⟩

/-- A fault that a slice is refused for stands in the slice or at its end. -/
theorem fault_within {fault : ReadFault} (h : objectsIn bytes base = .error fault) :
    base ≤ fault.place ∧ fault.place ≤ base + bytes.length := by
  dsimp only [objectsIn] at h
  split at h
  · cases h
  · next hfault =>
    cases h
    exact Scan.fault_within hfault

theorem tiled_of_objectsIn {objects : List (Uid × LogObject)}
    (h : objectsIn bytes base = .ok objects) :
    ∃ stored, Tiled base bytes stored ∧ stored.map Stored.pair = objects := by
  dsimp only [objectsIn] at h
  split at h
  · next hfault =>
    cases h
    obtain ⟨used, rest, hbytes, htiled, hrest⟩ :=
      Tiled.of_scan (r := .start bytes base) (Nat.le_refl bytes.length)
    rw [hrest hfault, List.append_nil] at hbytes
    cases hbytes
    exact ⟨_, htiled, rfl⟩
  · cases h

theorem Tiled.parts {stored : List Stored} (h : Tiled base bytes stored) :
    Parts base bytes (stored.map Stored.pair) := by
  induction h with
  | nil => exact .nil _
  | @cons base used rest uid object objects hused hreads hrest ih =>
    have hread := hreads used.length (Nat.le_refl _)
    obtain rfl := uid_of_reads hread
    obtain ⟨used', hwalks, hwritable, hlength⟩ :=
      Decoder.ensures_object (Nat.le_refl _) _ _ _ (Nat.le_refl _) (hread [] false)
    have hsame : used = used' := List.append_cancel_right hwalks.rest
    have hone : Tiled base (used ++ []) [⟨⟨base⟩, object, base + used.length⟩] :=
      .cons hused hreads (.nil _)
    rw [List.append_nil] at hone
    exact .cons hused hone.objectsIn (hsame ▸ hlength)
      (fun place => (hwritable.tiled place).objectsIn) ih

/-! ### Slices that meet -/

theorem Tiled.divide {front later : List Stored} (h : Tiled base bytes (front ++ later)) :
    ∃ used rest, bytes = used ++ rest ∧ Tiled base used front ∧
      Tiled (base + used.length) rest later := by
  induction front generalizing base bytes with
  | nil => exact ⟨[], bytes, rfl, .nil _, h⟩
  | cons stored front ih =>
    cases h with
    | @cons _ first rest uid object _ hused hreads hrest =>
      obtain ⟨used, rest, rfl, hfront, hlater⟩ := ih hrest
      refine ⟨first ++ used, rest, (List.append_assoc ..).symm, .cons hused hreads hfront, ?_⟩
      rwa [List.length_append, ← Nat.add_assoc]

theorem Tiled.startOf {stored : List Stored} (h : Tiled base bytes stored) :
    startOf (stored.map Stored.pair) (base + bytes.length) = base := by
  cases h with
  | nil => rfl
  | cons hused hreads hrest => exact congrArg Uid.place (uid_of_reads (hreads _ (Nat.le_refl _)))

theorem objectsIn_append {front : List (Uid × LogObject)} (h : objectsIn bytes base = .ok front)
    (all : List (Uid × LogObject)) :
    objectsIn (bytes ++ more) base = .ok all ↔
      ∃ later, objectsIn more (base + bytes.length) = .ok later ∧ all = front ++ later := by
  obtain ⟨stored, htiled, rfl⟩ := tiled_of_objectsIn h
  constructor
  · intro hall
    obtain ⟨others, hothers, rfl⟩ := tiled_of_objectsIn hall
    obtain ⟨later, rfl, hlater⟩ := hothers.exists_append htiled
    exact ⟨_, hlater.objectsIn, List.map_append⟩
  · rintro ⟨later, hlater, rfl⟩
    obtain ⟨others, hothers, rfl⟩ := tiled_of_objectsIn hlater
    rw [(htiled.append hothers).objectsIn, List.map_append]

theorem objectsIn_divide {front later : List (Uid × LogObject)}
    (h : objectsIn bytes base = .ok (front ++ later)) :
    ∃ used rest, bytes = used ++ rest ∧ startOf later (base + bytes.length) = base + used.length ∧
      objectsIn used base = .ok front ∧ objectsIn rest (base + used.length) = .ok later := by
  obtain ⟨stored, htiled, hstored⟩ := tiled_of_objectsIn h
  obtain ⟨frontStored, laterStored, rfl, rfl, rfl⟩ := List.map_eq_append_iff.1 hstored
  obtain ⟨used, rest, rfl, hfront, hlater⟩ := htiled.divide
  refine ⟨used, rest, rfl, ?_, hfront.objectsIn, hlater.objectsIn⟩
  rw [List.length_append, ← Nat.add_assoc]
  exact hlater.startOf

/-! ### Ranges of a log -/

/-- The bytes from `first` up to `last`. -/
def slice (bytes : List UInt8) (first last : Nat) : List UInt8 :=
  (bytes.drop first).take (last - first)

theorem length_slice {first last : Nat} (hlast : last ≤ bytes.length) :
    (slice bytes first last).length = last - first := by
  rw [slice, List.length_take, List.length_drop, Nat.min_eq_left (Nat.sub_le_sub_right hlast first)]

theorem slice_append {first mid last : Nat} (hfirst : first ≤ mid) (hlast : mid ≤ last) :
    slice bytes first mid ++ slice bytes mid last = slice bytes first last := by
  have hmid : bytes.drop mid = (bytes.drop first).drop (mid - first) := by
    rw [List.drop_drop, Nat.add_sub_of_le hfirst]
  have hlength : last - first = mid - first + (last - mid) := by omega
  rw [slice, slice, slice, hmid, hlength, List.take_add]

namespace Log

variable {log : Log} {disk : Disk} {held : List UInt8} {first last : Nat}

/-- Ranges of the log that hold `held` are read as their bytes are. Where two ranges meet between
two objects, reading them one after the other is reading both as one. -/
structure RangesRead (log : Log) (disk : Disk) (held : List UInt8) : Prop where
  outcome : ∀ first last, first ≤ last → last ≤ log.length →
    match log.objects disk first last with
    | .ok objects => Parts first (slice held first last) objects
    | .error error => ∃ fault, error = .corruption (.unreadable fault) ∧ first ≤ fault.place ∧
        fault.place ≤ last
  append : ∀ first mid last front, first ≤ mid → mid ≤ last → last ≤ log.length →
    log.objects disk first mid = .ok front → ∀ all,
      log.objects disk first last = .ok all ↔
        ∃ later, log.objects disk mid last = .ok later ∧ all = front ++ later
  divide : ∀ first last front later, first ≤ last → last ≤ log.length →
    log.objects disk first last = .ok (front ++ later) →
      first ≤ startOf later last ∧ startOf later last ≤ last ∧
        log.objects disk first (startOf later last) = .ok front ∧
        log.objects disk (startOf later last) last = .ok later

theorem Contains.objects (h : log.Contains disk held) (hfirst : first ≤ last)
    (hlast : last ≤ log.length) :
    log.objects disk first last =
      (objectsIn (slice held first last) first).mapError fun fault =>
        .corruption (.unreadable fault) := by
  rw [Log.objects]
  split
  · next heq =>
    subst heq
    rw [slice, Nat.sub_self, List.take_zero]
    rfl
  · rw [h.read hfirst hlast]
    rfl

theorem Contains.objects_eq_ok (h : log.Contains disk held) (hfirst : first ≤ last)
    (hlast : last ≤ log.length) {objects : List (Uid × LogObject)} :
    log.objects disk first last = .ok objects ↔
      objectsIn (slice held first last) first = .ok objects := by
  rw [h.objects hfirst hlast, mapError_eq_ok]

theorem Contains.end_eq (h : log.Contains disk held) (hfirst : first ≤ last)
    (hlast : last ≤ log.length) : first + (slice held first last).length = last := by
  rw [length_slice (h.1 ▸ hlast), Nat.add_sub_of_le hfirst]

end Log

/-- Reading a slice stays in it and ends, with the objects that the slice is made of or with a fault
in it; behind a slice that can be read, the reading goes on as if it began there. -/
structure SafelyRead (bytes : List UInt8) (base : Nat) : Prop where
  within : ∀ r, Scanning bytes base r → ∀ result r', Decoder.object.run.run r = (result, r') →
    ∃ used, (Reader.start bytes base).Walks used r'
  outcome : match objectsIn bytes base with
    | .ok objects => Parts base bytes objects
    | .error fault => base ≤ fault.place ∧ fault.place ≤ base + bytes.length
  append : ∀ front, objectsIn bytes base = .ok front → ∀ more all,
    objectsIn (bytes ++ more) base = .ok all ↔
      ∃ later, objectsIn more (base + bytes.length) = .ok later ∧ all = front ++ later

theorem safelyRead (bytes : List UInt8) (base : Nat) : SafelyRead bytes base where
  within := by
    intro r h result r' hrun
    obtain ⟨used, hused⟩ := h.walks
    obtain ⟨more, hmore⟩ := object_walks hrun
    exact ⟨used ++ more, hused.trans hmore⟩
  outcome := by
    split
    · next objects h =>
      obtain ⟨stored, htiled, rfl⟩ := tiled_of_objectsIn h
      exact htiled.parts
    · next fault h => exact fault_within h
  append := fun _ hfront _ => objectsIn_append hfront

theorem Log.Contains.rangesRead {log : Log} {disk : Disk} {held : List UInt8}
    (h : log.Contains disk held) : log.RangesRead disk held where
  outcome := by
    intro first last hfirst hlast
    have hread := (safelyRead (slice held first last) first).outcome
    rw [h.objects hfirst hlast]
    cases hobjects : objectsIn (slice held first last) first with
    | ok objects => rwa [hobjects] at hread
    | error fault =>
      rw [hobjects, h.end_eq hfirst hlast] at hread
      exact ⟨fault, rfl, hread⟩
  append := by
    intro first mid last front hfirst hmid hlast hfront all
    rw [h.objects_eq_ok hfirst (Nat.le_trans hmid hlast)] at hfront
    rw [h.objects_eq_ok (Nat.le_trans hfirst hmid) hlast, ← slice_append hfirst hmid,
      objectsIn_append hfront, h.end_eq hfirst (Nat.le_trans hmid hlast)]
    simp only [h.objects_eq_ok hmid hlast]
  divide := by
    intro first last front later hfirst hlast hobjects
    rw [h.objects_eq_ok hfirst hlast] at hobjects
    have hlength := h.end_eq hfirst hlast
    obtain ⟨used, rest, hbytes, hstart, hfront, hlater⟩ := objectsIn_divide hobjects
    rw [hlength] at hstart
    rw [hbytes, List.length_append] at hlength
    have hmid : first + used.length ≤ last := by omega
    have hsplit := (slice_append (Nat.le_add_right _ _) hmid).trans hbytes
    obtain ⟨hused, hrest⟩ := List.append_inj hsplit (by
      rw [length_slice (h.1 ▸ Nat.le_trans hmid hlast), Nat.add_sub_cancel_left])
    rw [hstart, h.objects_eq_ok (Nat.le_add_right _ _) (Nat.le_trans hmid hlast), hused,
      h.objects_eq_ok hmid hlast, hrest]
    exact ⟨Nat.le_add_right _ _, hmid, hfront, hlater⟩

/-- All bytes are read safely wherever they stand, and so are all ranges of a log. -/
theorem reading_is_safe :
    (∀ bytes base, SafelyRead bytes base) ∧
      ∀ (log : Log) (disk : Disk) (held : List UInt8), log.Contains disk held →
        log.RangesRead disk held :=
  ⟨safelyRead, fun _ _ _ h => h.rangesRead⟩

/-- An identifier that is written in a byte too many: the object is read, and takes a byte less when
it is written again. -/
theorem reading_is_safe_of_long_integer :
    let held : List UInt8 := [9, 1, 0, 15, 2, 0, 2, 1, 255]
    let log : Log := ⟨.memory held, 9, false⟩
    log.Contains (fun _ => none) held ∧
      log.objects (fun _ => none) 0 9 = .ok [(⟨0⟩, .newTable ""), (⟨3⟩, .drop ⟨2⟩ none)] ∧
      log.objects (fun _ => none) 3 9 = .ok [(⟨3⟩, .drop ⟨2⟩ none)] ∧
      (LogObject.drop ⟨2⟩ none).encode = [15, 1, 2, 1, 255] := by
  intro held log
  have hcontains : log.Contains (fun _ => none) held := ⟨rfl, rfl⟩
  have hall : log.objects (fun _ => none) 0 9 =
      .ok [(⟨0⟩, .newTable ""), (⟨3⟩, .drop ⟨2⟩ none)] :=
    toOption_eq_some.1 (by decide +kernel)
  have hranges := reading_is_safe.2 log _ held hcontains
  obtain ⟨_, _, _, hlater⟩ :=
    hranges.divide 0 9 [(⟨0⟩, .newTable "")] _ (by decide) (by decide) hall
  exact ⟨hcontains, hall, hlater, by decide +kernel⟩

end SnapshotStore
