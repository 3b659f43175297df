import Mathlib.Data.List.Forall2
import SnapshotStore.Proofs.Log.Contents

/-!
# The log is the list of what has been appended

A log is asked to append, to cut back and to read, and any change of its file may fail. All that can
be told from its answers is a list of bytes, made of the payloads of the appends that succeeded and
cut where a cut succeeded, and whether appends are refused because a failed one could not be undone.
Only a cut that fails after it has taken place does harm: the bytes behind it still count, and are
lost. One request keeps the log and that list together, and so does a run of requests.
-/

namespace SnapshotStore.Log

/-! ### Requests and answers -/

inductive Request where
  | append (payload : List UInt8) (durability : Durability)
  | truncate (length : Nat)
  | read (first last : Nat)
  | objects (first last : Nat)
  | length

inductive Answer where
  | appended (result : Except Error Nat)
  | truncated (result : Except Error Unit)
  | read (result : Except Error (List UInt8))
  | objects (result : Except Error (List (Uid × LogObject)))
  | length (length : Nat)

/-- A request, what has come of it at the file and the answer. -/
structure Turn where
  request : Request
  fate : ChangeOutcome
  answer : Answer

/-- What comes of a request at the file. -/
def fate (log : Log) (disk : Disk) : Request → ChangeOutcome
  | .append payload durability => log.appendFate disk payload durability
  | .truncate length => log.truncateFate disk length
  | _ => .done

/-- One request, with the log and the disk after it. -/
def turn (log : Log) (disk : Disk) (request : Request) : Turn × Log × Disk :=
  let taken (answer : Answer) : Turn := ⟨request, log.fate disk request, answer⟩
  match request with
  | .append payload durability =>
    let outcome := log.append disk payload durability
    (taken (.appended outcome.result), outcome.log, outcome.disk)
  | .truncate length =>
    let outcome := log.truncate disk length
    (taken (.truncated outcome.result), outcome.log, outcome.disk)
  | .read first last => (taken (.read (log.read disk first last)), log, disk)
  | .objects first last => (taken (.objects (log.objects disk first last)), log, disk)
  | .length => (taken (.length log.length), log, disk)

/-- Requests one after the other. -/
def turns (log : Log) (disk : Disk) : List Request → List Turn × Log × Disk
  | [] => ([], log, disk)
  | request :: requests =>
    let first := log.turn disk request
    let rest := turns first.2.1 first.2.2 requests
    (first.1 :: rest.1, rest.2)

/-- The log is only cut at places that it has by then. -/
def CutsWithin (log : Log) (disk : Disk) : List Request → Prop
  | [] => True
  | request :: requests =>
    (∀ length, request = .truncate length → length ≤ log.length) ∧
      CutsWithin (log.turn disk request).2.1 (log.turn disk request).2.2 requests

/-! ### Bytes instead of a log -/

namespace Content

def objects (c : Content) (first last : Nat) : Except Error (List (Uid × LogObject)) :=
  if first = last then .ok []
  else do
    let bytes ← c.read first last
    (objectsIn bytes first).mapError fun fault => .corruption (.unreadable fault)

/-- What there is of a log answers to a request. -/
def answer (c : Content) (fate : ChangeOutcome) : Request → Answer
  | .append payload _ => .appended (c.appendResult payload fate)
  | .truncate _ => .truncated (if fate = .done then .ok () else .error .fileSystem)
  | .read first last => .read (c.read first last)
  | .objects first last => .objects (c.objects first last)
  | .length => .length c.bytes.length

def next (c : Content) (turn : Turn) : Content :=
  match turn.request with
  | .append payload _ => c.appended payload turn.fate
  | .truncate length => c.truncated length turn.fate
  | _ => c

/-- Each answer is that of what there is by then. -/
def Answers : Content → List Turn → Prop
  | _, [] => True
  | c, turn :: turns => turn.answer = c.answer turn.fate turn.request ∧ (c.next turn).Answers turns

/-- The bytes of a log are these ones, or zeros in the place of lost ones. -/
def Shows (c : Content) (kept : List UInt8) : Prop :=
  List.Forall₂ (fun byte kept => byte = kept ∨ byte = 0) c.bytes kept

end Content

namespace Turn

/-- The payload of an append that has succeeded comes behind the bytes, and a cut that has succeeded
keeps their front. -/
def keep (bytes : List UInt8) (turn : Turn) : List UInt8 :=
  match turn.request, turn.answer with
  | .append payload _, .appended (.ok _) => bytes ++ payload
  | .truncate length, .truncated (.ok _) => bytes.take length
  | _, _ => bytes

/-- The turn is a cut that has taken place and failed all the same. -/
def Tears (turn : Turn) : Prop :=
  ∃ length left, turn.request = .truncate length ∧ turn.fate = .torn left

end Turn

variable {log : Log} {disk : Disk} {c : Content} {request : Request} {requests : List Request}
  {taken : Turn} {bytes kept : List UInt8} {first last length : Nat}

/-! ### One request -/

namespace Mirrors

theorem objects_eq (h : log.Mirrors disk c) (first last : Nat) :
    log.objects disk first last = c.objects first last := by
  rw [Log.objects, Content.objects, h.read_eq]

/-- One request keeps a log and what there is of it together. -/
theorem turn (h : log.Mirrors disk c)
    (hcuts : ∀ length, request = .truncate length → length ≤ log.length) :
    (log.turn disk request).1.answer =
        c.answer (log.turn disk request).1.fate (log.turn disk request).1.request ∧
      (log.turn disk request).2.1.Mirrors (log.turn disk request).2.2
        (c.next (log.turn disk request).1) := by
  cases request with
  | append payload durability =>
    obtain ⟨hresult, hmirrors⟩ := h.append (log.appends disk payload durability)
    exact ⟨congrArg Answer.appended hresult, hmirrors⟩
  | truncate length =>
    obtain ⟨hresult, -, hmirrors⟩ := h.truncate (hcuts length rfl) (log.truncates disk length)
    exact ⟨congrArg Answer.truncated hresult, hmirrors⟩
  | read first last => exact ⟨congrArg Answer.read (h.read_eq first last), h⟩
  | objects first last => exact ⟨congrArg Answer.objects (h.objects_eq first last), h⟩
  | length => exact ⟨congrArg Answer.length h.length_eq, h⟩

/-! ### A run of requests -/

/-- A run answers as what there is of the log does, and that goes with the log that it ends in. -/
theorem turns (h : log.Mirrors disk c) (hcuts : log.CutsWithin disk requests) :
    c.Answers (log.turns disk requests).1 ∧
      (log.turns disk requests).2.1.Mirrors (log.turns disk requests).2.2
        ((log.turns disk requests).1.foldl Content.next c) := by
  induction requests generalizing log disk c with
  | nil => exact ⟨trivial, h⟩
  | cons request requests ih =>
    obtain ⟨hcut, hcuts⟩ := hcuts
    obtain ⟨hanswer, hnext⟩ := h.turn hcut
    obtain ⟨hanswers, hlast⟩ := ih hnext hcuts
    exact ⟨⟨hanswer, hanswers⟩, hlast⟩

end Mirrors

/-! ### What has succeeded -/

namespace Content

/-- But for a cut that tears, only what succeeds changes the bytes. -/
theorem bytes_next (hanswer : taken.answer = c.answer taken.fate taken.request)
    (hcut : ¬taken.Tears) : (c.next taken).bytes = taken.keep c.bytes := by
  obtain ⟨request, fate, answer⟩ := taken
  dsimp only at hanswer
  subst hanswer
  cases request with
  | append payload durability =>
    rcases c.bytes_appended payload fate with ⟨hok, happended⟩ | ⟨⟨error, herror⟩, happended⟩
    · exact happended.trans (by rw [Turn.keep, answer, hok])
    · exact happended.trans (by rw [Turn.keep, answer, herror])
  | truncate length =>
    cases fate with
    | done => exact bytes_whole ..
    | undone => rfl
    | torn left => exact absurd ⟨length, left, rfl, rfl⟩ hcut
  | read | objects | length => rfl

theorem shows_zeros (kept : List UInt8) :
    List.Forall₂ (fun byte kept => byte = kept ∨ byte = 0)
      (List.replicate kept.length (0 : UInt8)) kept := by
  induction kept with
  | nil => exact .nil
  | cons byte kept ih => exact .cons (.inr rfl) ih

/-- A cut that tears leaves zeros in the place of what it has lost. -/
theorem Shows.torn (h : c.Shows kept) (length : Nat) (left : List UInt8) :
    (c.truncated length (.torn left)).Shows kept := by
  have hzeros := shows_zeros (kept.drop length)
  have hshown := List.rel_append (List.forall₂_take length h) hzeros
  dsimp only at hshown
  rwa [List.take_append_drop, List.length_drop, ← h.length_eq] at hshown

theorem Shows.next (h : c.Shows kept)
    (hanswer : taken.answer = c.answer taken.fate taken.request) :
    (c.next taken).Shows (taken.keep kept) := by
  by_cases hcut : taken.Tears
  · obtain ⟨request, fate, answer⟩ := taken
    obtain ⟨length, left, hrequest, hfate⟩ := hcut
    dsimp only at hrequest hfate hanswer
    subst hrequest hfate hanswer
    exact h.torn length left
  · rw [Shows, bytes_next hanswer hcut, Turn.keep, Turn.keep]
    split
    · exact List.rel_append h (List.forall₂_same.2 fun _ _ => .inl rfl)
    · exact List.forall₂_take _ h
    · exact h

/-- A run shows the bytes that have succeeded, and loses none of them unless a cut tears. -/
theorem Shows.foldl {turns : List Turn} (h : c.Shows kept) (hanswers : c.Answers turns) :
    (turns.foldl Content.next c).Shows (turns.foldl Turn.keep kept) := by
  induction turns generalizing c kept with
  | nil => exact h
  | cons turn turns ih => exact ih (h.next hanswers.1) hanswers.2

end Content

/-! ### In memory -/

/-- A log that starts out in memory or is opened in a file, with the bytes that are there. -/
inductive Started : Log → Disk → List UInt8 → Prop where
  | memory (disk : Disk) : Started inMemory disk []
  | opened {log : Log} {disk opened : Disk} {name : String} {create : Bool} {medium : Medium}
      (h : openFile disk name create = .ok (log, opened)) (hmedium : opened name = some medium) :
      Started log opened medium.bytes

theorem Started.mirrors (h : Started log disk bytes) : log.Mirrors disk ⟨bytes, 0, false⟩ := by
  cases h with
  | memory => exact .memory [] false
  | opened h hmedium =>
    obtain ⟨-, htail, found, hfound, hcontains⟩ := contains_openFile h
    cases hmedium.symm.trans hfound
    exact htail ▸ hcontains.mirrors

end SnapshotStore.Log
