import SnapshotStore.Log.Basic
import SnapshotStore.Snapshot.Replay

/-!
# Open databases

The engine holds one handle for each open database: its log, its configuration and the snapshot that
was published last. A database is known by its name alone; a snapshot outlives the handle that
published it.
-/

namespace SnapshotStore

structure Handle where
  log : Log
  config : Config
  published : Snapshot

structure Engine where
  disk : Disk
  handles : List (String × Handle)

namespace Handle

def inMemory (name : String) : Handle := ⟨.inMemory, .inMemory, .empty name⟩

/-- The handle of a log that was opened just now, and the disk after it. If its last object is torn,
the log is cut back to where its snapshot ends; what a cut that fails has done to the file stays. -/
def recover (name : String) (config : Config) (log : Log) (disk : Disk) : Except Error Handle × Disk :=
  match log.read disk 0 log.length >>= (Snapshot.replay name · config.truncateTornTail) with
  | .error error => (.error error, disk)
  | .ok published =>
    if log.length ≤ published.position then (.ok ⟨log, config, published⟩, disk)
    else
      let cut := log.truncate disk published.position
      (cut.result.map fun () => ⟨cut.log, config, published⟩, cut.disk)

/-- A database that is to be kept in memory does not touch its file. -/
def openFile (name : String) (config : Config) (disk : Disk) : Except Error Handle × Disk :=
  if config.durability = .memory then recover name config .inMemory disk
  else match Log.openFile disk name config.createIfMissing with
    | .error error => (.error error, disk)
    | .ok (log, disk) => recover name config log disk

end Handle

namespace Engine

def handle? (e : Engine) (name : String) : Option Handle := e.handles.lookup name

def withoutHandle (e : Engine) (name : String) : Engine := { e with handles := e.handles.filter (·.1 ≠ name) }

def setHandle (e : Engine) (name : String) (handle : Handle) : Engine :=
  { e with handles := (name, handle) :: (e.withoutHandle name).handles }

/-- The snapshot of a database that was published last. -/
def latest? (e : Engine) (name : String) : Option Snapshot := (e.handle? name).map (·.published)

/-- The names of all open databases, in order. -/
def names (e : Engine) : List String := (e.handles.map (·.1)).mergeSort (· ≤ ·)

/-- Opens a database in a file. If its name is open already, it stays as it is, whatever the
configuration. The engine is given also if that fails, with the disk as it is then. -/
def opening (e : Engine) (name : String) (config : Config) : Except Error Snapshot × Engine :=
  match e.handle? name with
  | some handle => (.ok handle.published, e)
  | none =>
    match Handle.openFile name config e.disk with
    | (.error error, disk) => (.error error, { e with disk })
    | (.ok handle, disk) => (.ok handle.published, { e with disk }.setHandle name handle)

/-- The snapshot and the engine of an opening that succeeds. -/
def openFile (e : Engine) (name : String) (config : Config) : Except Error (Snapshot × Engine) :=
  let opened := e.opening name config
  opened.1.map ((·, opened.2))

/-- Opens a database in memory, unless its name is open already. -/
def openMemory (e : Engine) (name : String) : Snapshot × Engine :=
  match e.handle? name with
  | some handle => (handle.published, e)
  | none => (.empty name, e.setHandle name (.inMemory name))

/-- Closes the database of a snapshot and tells whether it was open. -/
def close (e : Engine) (s : Snapshot) : Bool × Engine := ((e.handle? s.name).isSome, e.withoutHandle s.name)

end Engine

end SnapshotStore
