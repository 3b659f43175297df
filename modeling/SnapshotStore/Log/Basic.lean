import SnapshotStore.Config.Basic
import SnapshotStore.Log.Decoding
import SnapshotStore.Log.Medium

/-!
# The transaction log

A log is a sequence of bytes that grows by whole appends, in memory or in a file. A failed append
leaves the log as it was; if the file could not be cut back, its bytes past the log's end are
unknown and the log refuses every append until it is truncated. A truncation that fails leaves the
log as it was as well, but its file may be shorter than the log by then.
-/

namespace SnapshotStore

inductive Backing where
  | memory (bytes : List UInt8)
  | file (name : String)
  deriving DecidableEq

/-- `length` is the end of the log, which may be before or behind the end of its file. -/
structure Log where
  backing : Backing
  length : Nat
  unknownTail : Bool
  deriving DecidableEq

namespace Log

def inMemory : Log := ⟨.memory [], 0, false⟩

/-- The log in a file, which may be created if its name is a file's name. -/
def openFile (disk : Disk) (name : String) (create : Bool) : Except Error (Log × Disk) :=
  match disk name with
  | some medium => .ok (⟨.file name, medium.length, false⟩, disk)
  | none =>
    if create ∧ isFileName name then .ok (⟨.file name, 0, false⟩, disk.set name (.file [] []))
    else .error .fileSystem

def path? (log : Log) : Option String :=
  match log.backing with
  | .memory _ => none
  | .file name => some name

def isEmpty (log : Log) : Bool := log.length = 0

/-- The bytes from `first` up to `last`. -/
def read (log : Log) (disk : Disk) (first last : Nat) : Except Error (List UInt8) :=
  if last < first ∨ log.length < last then .error (.corruption (.outsideLog first last log.length))
  else match log.backing with
    | .memory bytes => .ok ((bytes.drop first).take (last - first))
    | .file name => ((disk name).bind (Medium.read? first (last - first))).elim (.error .fileSystem) .ok

/-- The objects that stand from `first` up to `last`. -/
def objects (log : Log) (disk : Disk) (first last : Nat) : Except Error (List (Uid × LogObject)) :=
  if first = last then .ok []
  else do
    let bytes ← log.read disk first last
    (objectsIn bytes first).mapError fun fault => .corruption (.unreadable fault)

/-- The result of a change of the log, the log and the disk after it. -/
structure Outcome (A : Type) where
  result : Except Error A
  log : Log
  disk : Disk

/-- Appends bytes in one write and gives the new end of the log. -/
def append (log : Log) (disk : Disk) (payload : List UInt8) (durability : Durability) : Outcome Nat :=
  let length := log.length + payload.length
  if log.unknownTail then ⟨.error (.corruption (.unknownTail log.length)), log, disk⟩
  else match log.backing with
    | .memory bytes => ⟨.ok length, { log with backing := .memory (bytes ++ payload), length }, disk⟩
    | .file name =>
      match disk name with
      | none => ⟨.error .fileSystem, log, disk⟩
      | some medium =>
        match medium.write log.length payload (durability = .full) with
        | (.done, medium) => ⟨.ok length, { log with length }, disk.set name medium⟩
        | (.undone, medium) => ⟨.error .fileSystem, log, disk.set name medium⟩
        | (.torn _, medium) => ⟨.error .fileSystem, { log with unknownTail := true }, disk.set name medium⟩

/-- Cuts the log back to `length`; a file shorter than that is filled up with zeros. If that fails,
the log stays as it is, even where its file has been cut. -/
def truncate (log : Log) (disk : Disk) (length : Nat) : Outcome Unit :=
  let cut (backing : Backing) : Log := ⟨backing, min log.length length, false⟩
  match log.backing with
  | .memory bytes => ⟨.ok (), cut (.memory (bytes.take length)), disk⟩
  | .file name =>
    match disk name with
    | none => ⟨.error .fileSystem, log, disk⟩
    | some medium =>
      match medium.resize length with
      | (.done, medium) => ⟨.ok (), cut (.file name), disk.set name medium⟩
      | (_, medium) => ⟨.error .fileSystem, log, disk.set name medium⟩

/-- Forces written bytes to stable storage. -/
def sync (log : Log) (disk : Disk) : Except Error Unit :=
  match log.backing with
  | .memory _ => .ok ()
  | .file name => if (disk name).any Medium.syncs then .ok () else .error .fileSystem

end Log

end SnapshotStore
