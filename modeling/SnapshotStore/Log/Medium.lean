/-!
# What holds the bytes of a log

A file of a disk may refuse a change. A write that fails is undone by cutting the file back, but that
may fail too, and then unknown bytes stay. A cut may fail before it has taken place, or after it,
when the file is to be brought to stable storage. What comes of the coming changes is part of the
disk.

A disk knows names and no directories: a name with a slash leads somewhere only if something stands
there already, and no file is created under it.
-/

namespace SnapshotStore

/-- What comes of a change of a file: it is done, it fails and leaves the file as it was, or it fails
half way. A write leaves some bytes then, and a cut has taken place without being stable. -/
inductive ChangeOutcome where
  | done
  | undone
  | torn (left : List UInt8)
  deriving DecidableEq

/-- A file with the outcomes of its coming changes, all later ones being done, or a device that is
always empty and refuses every byte. -/
inductive Medium where
  | file (bytes : List UInt8) (outcomes : List ChangeOutcome)
  | fullDevice
  deriving DecidableEq

/-- The first `length` bytes, with zeros where there are fewer. -/
def resized (bytes : List UInt8) (length : Nat) : List UInt8 :=
  bytes.take length ++ List.replicate (length - bytes.length) 0

/-- The bytes with others written over them from `start` on. -/
def overwritten (bytes : List UInt8) (start : Nat) (payload : List UInt8) : List UInt8 :=
  if payload.isEmpty then bytes else resized bytes start ++ payload ++ bytes.drop (start + payload.length)

namespace ChangeOutcome

/-- The bytes of a file after a write from `start` on, cut back to `start` if that failed. -/
def writes (bytes : List UInt8) (start : Nat) (payload : List UInt8) : ChangeOutcome → List UInt8
  | done => overwritten bytes start payload
  | undone => resized bytes start
  | torn left => overwritten bytes start left

/-- The bytes of a file after its length was to be set. -/
def resizes (bytes : List UInt8) (length : Nat) : ChangeOutcome → List UInt8
  | done | torn _ => resized bytes length
  | undone => bytes

end ChangeOutcome

namespace Medium

def length : Medium → Nat
  | file bytes _ => bytes.length
  | fullDevice => 0

/-- `count` bytes from `start` on, if there are as many. -/
def read? (start count : Nat) : Medium → Option (List UInt8)
  | file bytes _ => if count = 0 ∨ start + count ≤ bytes.length then some ((bytes.drop start).take count) else none
  | fullDevice => if count = 0 then some [] else none

/-- Setting the length and asking for stable storage. Files are no longer than a signed 64-bit
length, and devices have no length to set. -/
def resize (length : Nat) : Medium → ChangeOutcome × Medium
  | file bytes outcomes =>
    if length < 0x8000000000000000 then
      let outcome := outcomes.headD .done
      (outcome, file (outcome.resizes bytes length) outcomes.tail)
    else (.undone, file bytes outcomes)
  | fullDevice => (.undone, fullDevice)

/-- Writing from `start` on, and cutting back to `start` if that fails; `synced` asks for stable
storage, which a device does not have. -/
def write (start : Nat) (payload : List UInt8) (synced : Bool) : Medium → ChangeOutcome × Medium
  | file bytes outcomes =>
    let outcome := outcomes.headD .done
    (outcome, file (outcome.writes bytes start payload) outcomes.tail)
  | fullDevice => (if payload.isEmpty && !synced then .done else .torn [], fullDevice)

/-- Whether written bytes can be forced to stable storage. -/
def syncs : Medium → Bool
  | file .. => true
  | fullDevice => false

end Medium

/-- A file's name is not empty, has at most 255 bytes, no slash and no zero character, and is neither
of the two names that every directory has. -/
def isFileName (name : String) : Bool :=
  name ∉ ["", ".", ".."] ∧ name.utf8ByteSize ≤ 255 ∧ name.toList.all fun c => c ≠ '/' ∧ c ≠ '\x00'

/-- What each name leads to. -/
abbrev Disk := String → Option Medium

namespace Disk

def empty : Disk := fun _ => none

def set (disk : Disk) (name : String) (medium : Medium) : Disk :=
  fun other => if other = name then some medium else disk other

@[simp] theorem set_same (disk : Disk) (name : String) (medium : Medium) : disk.set name medium name = some medium := by
  simp [set]

theorem set_other (disk : Disk) {name other : String} (medium : Medium) (h : other ≠ name) :
    disk.set name medium other = disk other := by
  simp [set, h]

/-- Gives the file of a name these bytes. A device takes none, and not every text is a file's name. -/
def store? (disk : Disk) (name : String) (bytes : List UInt8) : Option Disk :=
  match disk name with
  | some (.file ..) => some (disk.set name (.file bytes []))
  | some .fullDevice => if bytes.isEmpty then some disk else none
  | none => if isFileName name then some (disk.set name (.file bytes [])) else none

end Disk

end SnapshotStore
