import SnapshotStore.Log.Decoding
import SnapshotStore.Snapshot.Install

/-!
# Replaying a log

The snapshot of a log is the fold of installing its objects, from the empty snapshot on. An object
that runs past the end of the log is the trace of an append cut short; it may be left out, and then
the snapshot ends before it.
-/

namespace SnapshotStore

namespace Snapshot

/-- The snapshot after a stored object. -/
def extend (s : Snapshot) (stored : Stored) : Except Error Snapshot := do
  .ok ((← s.install .committed stored.uid stored.object).endingAt stored.stop)

/-- The snapshot that the bytes of a whole log amount to, without a torn last object if `skipTorn`
is set. -/
def replay (name : String) (bytes : List UInt8) (skipTorn : Bool) : Except Error Snapshot := do
  let scan := Scan.ofBytes bytes 0
  let snapshot ← scan.objects.foldlM extend (empty name)
  match scan.fault with
  | none => .ok snapshot
  | some (fault, torn) => if skipTorn && torn then .ok snapshot else .error (.corruption (.unreadable fault))

end Snapshot

end SnapshotStore
