import SnapshotStore.Engine.Basic
import SnapshotStore.Log.Encoding
import SnapshotStore.Transaction

/-!
# Committing

A commit checks a transaction against what was committed since it began, gives every step its place
in the log, installs the steps in the latest snapshot, appends them to the log in one write and
publishes the result. A commit that fails publishes nothing and appends nothing.
-/

namespace SnapshotStore

/-- Steps that have got their places: the bytes that they take in the log, their new identifiers and
the snapshot after them. -/
structure Placement where
  payload : List UInt8
  uids : Renaming
  snapshot : Snapshot

namespace Placement

/-- A step is identified by the place of its first byte from now on, and refers to earlier steps by
their places. -/
def add (base : Nat) (placed : Placement) (step : Step) : Except Error Placement := do
  let object := step.object.mapUids placed.uids.apply
  let uid : Uid := ⟨base + placed.payload.length⟩
  let snapshot ← placed.snapshot.install .proposed uid object
  .ok ⟨placed.payload ++ object.encode, (step.uid, uid) :: placed.uids, snapshot⟩

/-- The steps placed one after the other from the end of a snapshot on. -/
def ofSteps (s : Snapshot) (steps : List Step) : Except Error Placement := steps.foldlM (add s.position) ⟨[], [], s⟩

end Placement

namespace Handle

/-- What a transaction amounts to after everything that was committed since it began. -/
def place (handle : Handle) (disk : Disk) (tx : Transaction) : Except Error Placement := do
  let position := handle.published.position
  tx.checkAgainst (← handle.log.objects disk tx.rollbackPoint.position position)
  ensure (handle.log.length = position) (.corruption (.lengthMismatch handle.log.length position))
  Placement.ofSteps handle.published tx.steps

end Handle

namespace Engine

/-- Commits a transaction and gives the snapshot that it published. A transaction without steps
publishes nothing. -/
def commit (e : Engine) (tx : Transaction) : Except Error Snapshot × Engine :=
  let name := tx.rollbackPoint.name
  match e.handle? name with
  | none => (.error (.databaseClosed name), e)
  | some handle =>
    if tx.steps.isEmpty then (.ok handle.published, e)
    else match handle.place e.disk tx with
      | .error error => (.error error, e)
      | .ok placed =>
        let appended := handle.log.append e.disk placed.payload handle.config.durability
        let e := { e with disk := appended.disk }
        match appended.result with
        | .error error => (.error error, e.setHandle name { handle with log := appended.log })
        | .ok position =>
          let published := placed.snapshot.endingAt position
          (.ok published, e.setHandle name { handle with log := appended.log, published })

/-- The snapshot that stands once a transaction is given up: the latest one, or the one that it
began on if its database is closed. -/
def rollback (e : Engine) (tx : Transaction) : Snapshot := (e.latest? tx.rollbackPoint.name).getD tx.rollbackPoint

end Engine

end SnapshotStore
