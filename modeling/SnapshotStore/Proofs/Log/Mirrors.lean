import SnapshotStore.Log.Basic
import SnapshotStore.Proofs.Log.Media
import SnapshotStore.Proofs.Success

/-!
# What there is of a log

A log counts its bytes, and a file may go on behind them, once it could not be cut back, or end in
front of their end, once a cut has failed that had taken place. What a file is short of is lost: it
is read as zeros as soon as the file goes on behind it, and not at all until then. The bytes that
are there, the number of those that are lost and whether appends are refused tell all answers of a
log, and an append or a cut leaves what follows from them and from its outcome at the file.
-/

namespace SnapshotStore

namespace Log

/-! ### What there is of a log -/

/-- The bytes of a log that can be read, how many more it counts that are lost, and whether it
refuses appends. -/
structure Content where
  held : List UInt8
  lost : Nat
  refusing : Bool

namespace Content

/-- All bytes, with zeros for those that are lost. -/
def bytes (c : Content) : List UInt8 := c.held ++ List.replicate c.lost 0

def read (c : Content) (first last : Nat) : Except Error (List UInt8) :=
  if last < first ∨ c.bytes.length < last then
    .error (.corruption (.outsideLog first last c.bytes.length))
  else if first = last ∨ last ≤ c.held.length then
    .ok ((c.held.drop first).take (last - first))
  else .error .fileSystem

def appendResult (c : Content) (payload : List UInt8) (fate : ChangeOutcome) : Except Error Nat :=
  if c.refusing then .error (.corruption (.unknownTail c.bytes.length))
  else if fate = .done then .ok (c.bytes.length + payload.length)
  else .error .fileSystem

/-- Bytes come behind the others. As soon as any stand there, nothing in front of them is lost. -/
def written (c : Content) (payload : List UInt8) : Content :=
  if payload.isEmpty then c else { c with held := c.bytes ++ payload, lost := 0 }

/-- A refused append does not get to the file. One that fails leaves no bytes of its own. -/
def appended (c : Content) (payload : List UInt8) (fate : ChangeOutcome) : Content :=
  if c.refusing then c
  else match fate with
    | .done => c.written payload
    | .undone => ⟨c.bytes, 0, false⟩
    | .torn left => if left.isEmpty then { c with refusing := true } else ⟨c.bytes, 0, true⟩

/-- A cut that fails after it took place loses what stood behind it. -/
def truncated (c : Content) (length : Nat) : ChangeOutcome → Content
  | .done => ⟨c.bytes.take length, 0, false⟩
  | .undone => c
  | .torn _ => ⟨c.bytes.take length, c.bytes.length - length, c.refusing⟩

/-- What a log of some length has in a file. -/
def ofFile (bytes : List UInt8) (length : Nat) (refusing : Bool) : Content :=
  ⟨bytes.take length, length - bytes.length, refusing⟩

variable {c : Content} {held payload : List UInt8} {length : Nat} {refusing : Bool}

theorem bytes_of_lost (h : c.lost = 0) : c.bytes = c.held := by
  rw [bytes, h, List.replicate_zero, List.append_nil]

@[simp] theorem bytes_whole (held : List UInt8) (refusing : Bool) :
    (⟨held, 0, refusing⟩ : Content).bytes = held :=
  bytes_of_lost rfl

theorem written_of_lost (h : c.lost = 0) (payload : List UInt8) :
    c.written payload = ⟨c.held ++ payload, 0, c.refusing⟩ := by
  rw [written, bytes_of_lost h]
  split
  · next hempty => rw [List.isEmpty_iff.1 hempty, List.append_nil, ← h]
  · rfl

theorem bytes_ofFile (held : List UInt8) (length : Nat) (refusing : Bool) :
    (ofFile held length refusing).bytes = resized held length := rfl

theorem ofFile_resized (held : List UInt8) {short : Nat} (h : short ≤ length) (refusing : Bool) :
    ofFile (resized held short) length refusing =
      ⟨resized held short, length - short, refusing⟩ := by
  have hlength := length_resized held short
  rw [ofFile, hlength, List.take_of_length_le (by omega)]

/-- A write in which a log reaches to the end of its file. -/
theorem ofFile_overwritten (h : held.length ≤ length) (payload : List UInt8) (refusing : Bool) :
    ofFile (overwritten held length payload) (length + payload.length) refusing =
      (ofFile held length refusing).written payload := by
  rw [written, overwritten_of_le payload h, bytes_ofFile]
  split
  · next hempty =>
    rw [List.isEmpty_iff.1 hempty]
    rfl
  · have hgrown : (resized held length ++ payload).length = length + payload.length := by
      rw [List.length_append, length_resized]
    rw [ofFile, hgrown, Nat.sub_self, List.take_of_length_le (Nat.le_of_eq hgrown)]
    rfl

/-- Bytes that the log does not count only fill up what it has lost. -/
theorem ofFile_left (h : held.length ≤ length) (left : List UInt8) (refusing : Bool) :
    ofFile (overwritten held length left) length refusing =
      if left.isEmpty then ofFile held length refusing else ⟨resized held length, 0, refusing⟩ := by
  rw [overwritten_of_le left h]
  split
  · rfl
  · have hlength := length_resized held length
    rw [ofFile, List.length_append, hlength, List.take_left' hlength,
      Nat.sub_eq_zero_of_le (Nat.le_add_right _ _)]

theorem appendResult_of_taking (h : c.refusing = false) (payload : List UInt8)
    (fate : ChangeOutcome) : c.appendResult payload fate =
      if fate = .done then .ok (c.bytes.length + payload.length) else .error .fileSystem :=
  if_neg (h ▸ Bool.false_ne_true)

theorem appended_of_refusing (h : c.refusing = true) (payload : List UInt8)
    (fate : ChangeOutcome) : c.appended payload fate = c :=
  if_pos h

theorem appended_of_taking (h : c.refusing = false) (payload : List UInt8) (fate : ChangeOutcome) :
    c.appended payload fate = match fate with
      | .done => c.written payload
      | .undone => ⟨c.bytes, 0, false⟩
      | .torn left => if left.isEmpty then { c with refusing := true } else ⟨c.bytes, 0, true⟩ :=
  if_neg (h ▸ Bool.false_ne_true)

theorem bytes_written (c : Content) (payload : List UInt8) :
    (c.written payload).bytes = c.bytes ++ payload := by
  rw [written]
  split
  · next hempty => rw [List.isEmpty_iff.1 hempty, List.append_nil]
  · exact bytes_whole ..

/-- An append takes place as a whole or not at all. -/
theorem bytes_appended (c : Content) (payload : List UInt8) (fate : ChangeOutcome) :
    c.appendResult payload fate = .ok (c.bytes.length + payload.length) ∧
        (c.appended payload fate).bytes = c.bytes ++ payload ∨
      (∃ error, c.appendResult payload fate = .error error) ∧
        (c.appended payload fate).bytes = c.bytes := by
  cases hrefusing : c.refusing with
  | true =>
    rw [appendResult, if_pos hrefusing, appended_of_refusing hrefusing]
    exact .inr ⟨⟨_, rfl⟩, rfl⟩
  | false =>
    rw [appendResult_of_taking hrefusing, appended_of_taking hrefusing]
    cases fate with
    | done => exact .inl ⟨rfl, c.bytes_written payload⟩
    | undone => exact .inr ⟨⟨_, rfl⟩, bytes_whole ..⟩
    | torn left =>
      refine .inr ⟨⟨_, rfl⟩, ?_⟩
      dsimp only
      split
      · rfl
      · exact bytes_whole ..

/-- An append loses nothing. -/
theorem lost_appended (c : Content) (payload : List UInt8) (fate : ChangeOutcome) :
    (c.appended payload fate).lost = c.lost ∨ (c.appended payload fate).lost = 0 := by
  cases hrefusing : c.refusing with
  | true => exact .inl (by rw [appended_of_refusing hrefusing])
  | false =>
    rw [appended_of_taking hrefusing]
    cases fate with
    | done =>
      dsimp only
      rw [written]
      split
      · exact .inl rfl
      · exact .inr rfl
    | undone => exact .inr rfl
    | torn left =>
      dsimp only
      split
      · exact .inl rfl
      · exact .inr rfl

end Content

/-- What there is of a log. -/
inductive Mirrors (disk : Disk) : Log → Content → Prop where
  | memory (bytes : List UInt8) (unknownTail : Bool) :
      Mirrors disk ⟨.memory bytes, bytes.length, unknownTail⟩ ⟨bytes, 0, unknownTail⟩
  | file {name : String} {medium : Medium} {length : Nat} {unknownTail : Bool}
      (hdisk : disk name = some medium)
      (hend : unknownTail = false → medium.bytes.length ≤ length) :
      Mirrors disk ⟨.file name, length, unknownTail⟩ (.ofFile medium.bytes length unknownTail)

theorem mirrors_memory {disk : Disk} {bytes : List UInt8} {length : Nat}
    (h : bytes.length = length) (unknownTail : Bool) :
    (⟨.memory bytes, length, unknownTail⟩ : Log).Mirrors disk ⟨bytes, 0, unknownTail⟩ :=
  h ▸ .memory bytes unknownTail

theorem mirrors_set {log : Log} {disk : Disk} {name : String} {medium : Medium} {c : Content}
    (hbacking : log.backing = .file name)
    (hc : Content.ofFile medium.bytes log.length log.unknownTail = c)
    (hend : log.unknownTail = false → medium.bytes.length ≤ log.length) :
    log.Mirrors (disk.set name medium) c := by
  obtain ⟨backing, length, unknownTail⟩ := log
  cases hbacking
  exact hc ▸ .file (Disk.set_same ..) hend

variable {log : Log} {disk : Disk} {c : Content} {bytes payload : List UInt8} {name : String}
  {first last length : Nat} {durability : Durability}

namespace Mirrors

theorem length_eq (h : log.Mirrors disk c) : log.length = c.bytes.length := by
  cases h with
  | memory bytes => rw [Content.bytes_whole]
  | @file _ medium length _ => exact (length_resized medium.bytes length).symm

theorem tail_eq (h : log.Mirrors disk c) : log.unknownTail = c.refusing := by
  cases h <;> rfl

theorem read_eq (h : log.Mirrors disk c) (first last : Nat) :
    log.read disk first last = c.read first last := by
  rw [Log.read, Content.read, ← h.length_eq]
  split
  · rfl
  · next hrange =>
    rw [not_or, Nat.not_lt, Nat.not_lt] at hrange
    cases h with
    | memory bytes => exact (if_pos (.inr hrange.2)).symm
    | file hdisk =>
      dsimp only
      rw [hdisk, Option.bind_some, Medium.read?_eq _ hrange.1 hrange.2]
      split
      · next hthere => exact (if_pos hthere).symm
      · next hmissing => exact (if_neg hmissing).symm

end Mirrors

/-! ### Appending -/

/-- How an append ends, and what comes of it at the file. In memory all is done, and a refused
append writes nothing. -/
inductive Appends (log : Log) (disk : Disk) (payload : List UInt8) (durability : Durability) :
    ChangeOutcome → Outcome Nat → Prop where
  | refused (htail : log.unknownTail = true) :
      Appends log disk payload durability .undone
        ⟨.error (.corruption (.unknownTail log.length)), log, disk⟩
  | memory {held : List UInt8} (htail : log.unknownTail = false)
      (hbacking : log.backing = .memory held) :
      Appends log disk payload durability .done ⟨.ok (log.length + payload.length),
        { log with
          backing := .memory (held ++ payload)
          length := log.length + payload.length }, disk⟩
  | missing {file : String} (htail : log.unknownTail = false) (hbacking : log.backing = .file file)
      (hdisk : disk file = none) :
      Appends log disk payload durability .undone ⟨.error .fileSystem, log, disk⟩
  | done {file : String} {medium written : Medium} (htail : log.unknownTail = false)
      (hbacking : log.backing = .file file) (hdisk : disk file = some medium)
      (hwrite : medium.write log.length payload (durability = .full) = (.done, written)) :
      Appends log disk payload durability .done ⟨.ok (log.length + payload.length),
        { log with length := log.length + payload.length }, disk.set file written⟩
  | undone {file : String} {medium cut : Medium} (htail : log.unknownTail = false)
      (hbacking : log.backing = .file file) (hdisk : disk file = some medium)
      (hwrite : medium.write log.length payload (durability = .full) = (.undone, cut)) :
      Appends log disk payload durability .undone ⟨.error .fileSystem, log, disk.set file cut⟩
  | torn {file : String} {medium grown : Medium} {left : List UInt8}
      (htail : log.unknownTail = false) (hbacking : log.backing = .file file)
      (hdisk : disk file = some medium)
      (hwrite : medium.write log.length payload (durability = .full) = (.torn left, grown)) :
      Appends log disk payload durability (.torn left)
        ⟨.error .fileSystem, { log with unknownTail := true }, disk.set file grown⟩

/-- What comes of an append at the file. -/
def appendFate (log : Log) (disk : Disk) (payload : List UInt8) (durability : Durability) :
    ChangeOutcome :=
  if log.unknownTail then .undone
  else match log.backing with
    | .memory _ => .done
    | .file name => (disk name).elim .undone fun medium =>
        (medium.write log.length payload (durability = .full)).1

theorem appends (log : Log) (disk : Disk) (payload : List UInt8) (durability : Durability) :
    log.Appends disk payload durability (log.appendFate disk payload durability)
      (log.append disk payload durability) := by
  obtain ⟨backing, length, unknownTail⟩ := log
  rw [append, appendFate]
  cases unknownTail with
  | true => exact .refused rfl
  | false =>
    rw [if_neg Bool.false_ne_true, if_neg Bool.false_ne_true]
    cases backing with
    | memory held => exact .memory rfl rfl
    | file file =>
      dsimp only
      cases hdisk : disk file with
      | none => exact .missing rfl rfl hdisk
      | some medium =>
        rw [Option.elim_some]
        dsimp only
        cases hwrite : medium.write length payload (durability = .full) with
        | mk outcome written =>
          cases outcome with
          | done => exact .done rfl rfl hdisk hwrite
          | undone => exact .undone rfl rfl hdisk hwrite
          | torn left => exact .torn rfl rfl hdisk hwrite

theorem exists_appends {outcome : Outcome Nat}
    (houtcome : log.append disk payload durability = outcome) :
    ∃ fate, log.Appends disk payload durability fate outcome :=
  ⟨_, houtcome ▸ log.appends disk payload durability⟩

theorem Appends.path?_eq {fate : ChangeOutcome} {outcome : Outcome Nat}
    (h : log.Appends disk payload durability fate outcome) : outcome.log.path? = log.path? := by
  cases h with
  | refused | missing | done | undone | torn => rfl
  | memory _ hbacking => rw [path?, path?, hbacking]

theorem Mirrors.of_file {medium : Medium} (h : log.Mirrors disk c)
    (hbacking : log.backing = .file name) (hdisk : disk name = some medium) :
    c = .ofFile medium.bytes log.length log.unknownTail ∧
      (log.unknownTail = false → medium.bytes.length ≤ log.length) := by
  cases h with
  | memory => cases hbacking
  | file hfound hend =>
    cases hbacking
    cases hfound.symm.trans hdisk
    exact ⟨rfl, hend⟩

/-- Whatever comes of an append, its result and the log after it follow from what there was of the
log before. -/
theorem Mirrors.append {fate : ChangeOutcome} {outcome : Outcome Nat} (h : log.Mirrors disk c)
    (happends : log.Appends disk payload durability fate outcome) :
    outcome.result = c.appendResult payload fate ∧
      outcome.log.Mirrors outcome.disk (c.appended payload fate) := by
  have htaking (hfalse : log.unknownTail = false) :
      c.appendResult payload fate =
          (if fate = .done then .ok (log.length + payload.length) else .error .fileSystem) ∧
        c.refusing = false := by
    have hrefusing := h.tail_eq.symm.trans hfalse
    exact ⟨by rw [Content.appendResult_of_taking hrefusing, h.length_eq], hrefusing⟩
  cases happends with
  | refused htrue =>
    have hrefusing := h.tail_eq.symm.trans htrue
    rw [Content.appended_of_refusing hrefusing, Content.appendResult, if_pos hrefusing, h.length_eq]
    exact ⟨rfl, h⟩
  | @memory held hfalse hbacking =>
    obtain ⟨hresult, hrefusing⟩ := htaking hfalse
    refine ⟨hresult.symm, ?_⟩
    rw [Content.appended_of_taking hrefusing]
    cases h with
    | file => cases hbacking
    | memory =>
      cases hbacking
      cases hfalse
      dsimp only
      rw [Content.written_of_lost rfl]
      exact mirrors_memory List.length_append false
  | missing hfalse hbacking hmissing =>
    cases h with
    | memory => cases hbacking
    | file hdisk =>
      cases hbacking
      cases hmissing.symm.trans hdisk
  | @done _ medium written hfalse hbacking hdisk hwrite =>
    obtain ⟨hresult, hrefusing⟩ := htaking hfalse
    refine ⟨hresult.symm, ?_⟩
    rw [Content.appended_of_taking hrefusing]
    obtain ⟨rfl, hend⟩ := h.of_file hbacking hdisk
    have hbytes : written.bytes = overwritten medium.bytes log.length payload :=
      Medium.bytes_write hwrite
    refine mirrors_set hbacking ?_ fun _ => ?_
    · rw [hbytes]
      exact Content.ofFile_overwritten (hend hfalse) payload log.unknownTail
    · rw [hbytes]
      exact length_overwritten_le (hend hfalse) payload
  | @undone _ medium cut hfalse hbacking hdisk hwrite =>
    obtain ⟨hresult, hrefusing⟩ := htaking hfalse
    refine ⟨hresult.symm, ?_⟩
    rw [Content.appended_of_taking hrefusing]
    obtain ⟨rfl, -⟩ := h.of_file hbacking hdisk
    have hbytes : cut.bytes = resized medium.bytes log.length := Medium.bytes_write hwrite
    refine mirrors_set hbacking ?_ fun _ => ?_
    · rw [hbytes, hfalse, Content.ofFile_resized _ (Nat.le_refl _), Nat.sub_self]
      rfl
    · exact Nat.le_of_eq (by rw [hbytes, length_resized])
  | @torn _ medium grown left hfalse hbacking hdisk hwrite =>
    obtain ⟨hresult, hrefusing⟩ := htaking hfalse
    refine ⟨hresult.symm, ?_⟩
    rw [Content.appended_of_taking hrefusing]
    obtain ⟨rfl, hend⟩ := h.of_file hbacking hdisk
    have hbytes : grown.bytes = overwritten medium.bytes log.length left :=
      Medium.bytes_write hwrite
    refine mirrors_set hbacking ?_ nofun
    rw [hbytes]
    exact Content.ofFile_left (hend hfalse) left true

/-! ### Cutting back -/

/-- How a cut ends, and what comes of it at the file. In memory it is always done. -/
inductive Truncates (log : Log) (disk : Disk) (length : Nat) : ChangeOutcome → Outcome Unit → Prop
  where
  | memory {held : List UInt8} (hbacking : log.backing = .memory held) :
      Truncates log disk length .done
        ⟨.ok (), ⟨.memory (held.take length), min log.length length, false⟩, disk⟩
  | missing {file : String} (hbacking : log.backing = .file file) (hdisk : disk file = none) :
      Truncates log disk length .undone ⟨.error .fileSystem, log, disk⟩
  | done {file : String} {medium cut : Medium} (hbacking : log.backing = .file file)
      (hdisk : disk file = some medium) (hresize : medium.resize length = (.done, cut)) :
      Truncates log disk length .done
        ⟨.ok (), ⟨.file file, min log.length length, false⟩, disk.set file cut⟩
  | failed {file : String} {medium after : Medium} {fate : ChangeOutcome}
      (hbacking : log.backing = .file file) (hdisk : disk file = some medium)
      (hresize : medium.resize length = (fate, after)) (hfate : fate ≠ .done) :
      Truncates log disk length fate ⟨.error .fileSystem, log, disk.set file after⟩

/-- What comes of a cut at the file. -/
def truncateFate (log : Log) (disk : Disk) (length : Nat) : ChangeOutcome :=
  match log.backing with
  | .memory _ => .done
  | .file name => (disk name).elim .undone fun medium => (medium.resize length).1

theorem truncates (log : Log) (disk : Disk) (length : Nat) :
    log.Truncates disk length (log.truncateFate disk length) (log.truncate disk length) := by
  obtain ⟨backing, end', unknownTail⟩ := log
  rw [truncate, truncateFate]
  cases backing with
  | memory held => exact .memory rfl
  | file file =>
    dsimp only
    cases hdisk : disk file with
    | none => exact .missing rfl hdisk
    | some medium =>
      rw [Option.elim_some]
      dsimp only
      cases hresize : medium.resize length with
      | mk outcome cut =>
        cases outcome with
        | done => exact .done rfl hdisk hresize
        | undone | torn => exact .failed rfl hdisk hresize nofun

/-- Whatever comes of a cut, its result and the log after it follow from what there was of the log
before. -/
theorem Mirrors.truncate {fate : ChangeOutcome} {outcome : Outcome Unit} (h : log.Mirrors disk c)
    (hlength : length ≤ log.length) (htruncates : log.Truncates disk length fate outcome) :
    outcome.result = (if fate = .done then .ok () else .error .fileSystem) ∧
      outcome.log.path? = log.path? ∧
      outcome.log.Mirrors outcome.disk (c.truncated length fate) := by
  cases htruncates with
  | @memory held hbacking =>
    refine ⟨rfl, ?_, ?_⟩
    · rw [path?, path?, hbacking]
    · cases h with
      | file => cases hbacking
      | memory =>
        cases hbacking
        rw [Content.truncated, Content.bytes_whole, Nat.min_eq_right hlength]
        exact mirrors_memory (by rw [List.length_take, Nat.min_eq_left hlength]) false
  | missing hbacking hmissing =>
    cases h with
    | memory => cases hbacking
    | file hdisk =>
      cases hbacking
      cases hmissing.symm.trans hdisk
  | @done _ medium cut hbacking hdisk hresize =>
    obtain ⟨rfl, -⟩ := h.of_file hbacking hdisk
    have hbytes : cut.bytes = resized medium.bytes length := Medium.bytes_resize hresize
    refine ⟨rfl, by rw [path?, path?, hbacking], ?_⟩
    rw [Nat.min_eq_right hlength, Content.truncated, Content.bytes_ofFile, take_resized _ hlength]
    refine mirrors_set rfl ?_ fun _ => ?_
    · rw [hbytes, Content.ofFile_resized _ (Nat.le_refl length), Nat.sub_self]
    · exact Nat.le_of_eq (by rw [hbytes, length_resized])
  | @failed _ medium after _ hbacking hdisk hresize hfate =>
    obtain ⟨rfl, hend⟩ := h.of_file hbacking hdisk
    have hbytes := Medium.bytes_resize hresize
    refine ⟨(if_neg hfate).symm, rfl, ?_⟩
    cases fate with
    | done => exact absurd rfl hfate
    | undone =>
      refine mirrors_set hbacking ?_ fun htail => ?_
      · rw [hbytes]
        rfl
      · rw [hbytes]
        exact hend htail
    | torn =>
      change after.bytes = resized medium.bytes length at hbytes
      rw [Content.truncated, Content.bytes_ofFile, take_resized _ hlength, length_resized]
      refine mirrors_set hbacking ?_ fun _ => ?_
      · rw [hbytes]
        exact Content.ofFile_resized _ hlength log.unknownTail
      · rw [hbytes, length_resized]
        exact hlength

end Log

end SnapshotStore
