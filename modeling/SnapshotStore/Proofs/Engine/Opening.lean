import SnapshotStore.Proofs.Engine.Commit
import SnapshotStore.Proofs.Log.Contents
import SnapshotStore.Proofs.Snapshot.Replay

/-!
# What an opening can do

A log that was opened just now is read to its end and replayed. Its file is left alone if that fails
or if the snapshot reaches to the end of the log. Otherwise it is cut back, and then the outcome of
the cut decides.
-/

namespace SnapshotStore

variable {name : String} {config : Config} {log : Log} {disk disk' : Disk} {bytes : List UInt8}
  {handle : Handle} {s : Snapshot} {e e' : Engine}

theorem Log.Contains.replay_eq (h : log.Contains disk bytes) (name : String) (skipTorn : Bool) :
    log.read disk 0 log.length >>= (Snapshot.replay name · skipTorn) =
      Snapshot.replay name bytes skipTorn := by
  rw [h.read_all]
  rfl

namespace Handle

/-- How an opened log becomes a handle, and with which disk. -/
inductive Recovers (name : String) (config : Config) (log : Log) (disk : Disk)
    (bytes : List UInt8) : Except Error Handle × Disk → Prop where
  | refused {error : Error}
      (hreplay : Snapshot.replay name bytes config.truncateTornTail = .error error) :
      Recovers name config log disk bytes (.error error, disk)
  | whole {s : Snapshot} (hreplay : Snapshot.replay name bytes config.truncateTornTail = .ok s)
      (hend : bytes.length ≤ s.position) :
      Recovers name config log disk bytes (.ok ⟨log, config, s⟩, disk)
  | cut {s : Snapshot} (hreplay : Snapshot.replay name bytes config.truncateTornTail = .ok s)
      (hend : s.position < bytes.length) (hcut : (log.truncate disk s.position).result = .ok ()) :
      Recovers name config log disk bytes
        (.ok ⟨(log.truncate disk s.position).log, config, s⟩, (log.truncate disk s.position).disk)
  | uncut {s : Snapshot} {error : Error}
      (hreplay : Snapshot.replay name bytes config.truncateTornTail = .ok s)
      (hend : s.position < bytes.length)
      (hcut : (log.truncate disk s.position).result = .error error) :
      Recovers name config log disk bytes (.error error, (log.truncate disk s.position).disk)

theorem recovers (h : log.Contains disk bytes) (name : String) (config : Config) :
    Recovers name config log disk bytes (recover name config log disk) := by
  rw [recover, h.replay_eq]
  cases hreplay : Snapshot.replay name bytes config.truncateTornTail with
  | error error => exact .refused hreplay
  | ok s =>
    dsimp only
    split
    · next hend => exact .whole hreplay (h.1 ▸ hend)
    · next hend =>
      rw [← h.1, Nat.not_le] at hend
      cases hcut : (log.truncate disk s.position).result with
      | ok => exact .cut hreplay hend hcut
      | error error => exact .uncut hreplay hend hcut

theorem replay_of_recover (hcontents : log.Contains disk bytes)
    (h : recover name config log disk = (.ok handle, disk')) :
    Snapshot.replay name bytes config.truncateTornTail = .ok handle.published := by
  have hrecovers := recovers hcontents name config
  rw [h] at hrecovers
  cases hrecovers with
  | whole hreplay | cut hreplay => exact hreplay

/-- Nothing is cut off a log that is read to its end. -/
theorem recover_of_replay (hcontents : log.Contains disk bytes)
    (hreplay : Snapshot.replay name bytes config.truncateTornTail = .ok s)
    (hend : bytes.length ≤ s.position) :
    recover name config log disk = (.ok ⟨log, config, s⟩, disk) := by
  rw [recover, hcontents.replay_eq, hreplay]
  exact if_pos (hcontents.1 ▸ hend)

theorem openFile_of_opened (hconfig : config.durability ≠ .memory)
    (h : Log.openFile disk name config.createIfMissing = .ok (log, disk')) :
    Handle.openFile name config disk = recover name config log disk' := by
  rw [Handle.openFile, if_neg hconfig, h]

end Handle

namespace Engine

theorem openFile_eq_ok :
    e.openFile name config = .ok (s, e') ↔ e.opening name config = (.ok s, e') := by
  rw [openFile]
  obtain ⟨result, after⟩ := e.opening name config
  cases result with
  | error error => exact ⟨nofun, nofun⟩
  | ok found => simp [Except.map]

theorem opening_eq_ok (hclosed : e.handle? name = none) :
    e.opening name config = (.ok s, e') ↔
      ∃ handle disk, Handle.openFile name config e.disk = (.ok handle, disk) ∧
        handle.published = s ∧ { e with disk }.setHandle name handle = e' := by
  rw [opening, hclosed]
  dsimp only
  obtain ⟨result, disk⟩ := Handle.openFile name config e.disk
  constructor
  · intro h
    cases result with
    | error error => cases h
    | ok handle =>
      cases h
      exact ⟨handle, disk, rfl, rfl, rfl⟩
  · rintro ⟨_, _, h, rfl, rfl⟩
    cases h
    rfl

theorem opening_of_error {error : Error} (hclosed : e.handle? name = none)
    (h : Handle.openFile name config e.disk = (.error error, disk)) :
    e.opening name config = (.error error, { e with disk }) := by
  rw [opening, hclosed]
  dsimp only
  rw [h]

end Engine

/-! ### Files of any content -/

variable {outcomes : List ChangeOutcome}

theorem Disk.set_of_eq {medium : Medium} (h : disk name = some medium) :
    disk.set name medium = disk := by
  funext other
  by_cases hother : other = name
  · rw [hother, set_same, h]
  · exact set_other disk medium hother

theorem Log.contains_file (hfile : disk name = some (.file bytes outcomes)) :
    (⟨.file name, bytes.length, false⟩ : Log).Contains disk bytes :=
  ⟨rfl, .file bytes outcomes, hfile, (List.take_length ..).symm, fun _ => rfl⟩

theorem Log.truncate_file {length : Nat} {fate : ChangeOutcome} {after : Medium}
    (hfile : disk name = some (.file bytes outcomes))
    (hresize : (Medium.file bytes outcomes).resize length = (fate, after)) :
    (⟨.file name, bytes.length, false⟩ : Log).truncate disk length =
      if fate = .done then
        ⟨.ok (), ⟨.file name, min bytes.length length, false⟩, disk.set name after⟩
      else ⟨.error .fileSystem, ⟨.file name, bytes.length, false⟩, disk.set name after⟩ := by
  rw [truncate]
  dsimp only
  rw [hfile]
  dsimp only
  rw [hresize]
  cases fate <;> rfl

namespace Handle

theorem openFile_of_file (hfile : disk name = some (.file bytes outcomes))
    (hconfig : config.durability ≠ .memory) :
    Handle.openFile name config disk =
      recover name config ⟨.file name, bytes.length, false⟩ disk :=
  openFile_of_opened hconfig (by rw [Log.openFile, hfile]; rfl)

/-- How a file becomes a handle, and with which disk. Only a cut that tears harms a file that is not
opened then. -/
inductive RecoversFile (name : String) (config : Config) (disk : Disk) (bytes : List UInt8)
    (outcomes : List ChangeOutcome) : Except Error Handle × Disk → Prop where
  | refused {error : Error}
      (hreplay : Snapshot.replay name bytes config.truncateTornTail = .error error) :
      RecoversFile name config disk bytes outcomes (.error error, disk)
  | whole {s : Snapshot} (hreplay : Snapshot.replay name bytes config.truncateTornTail = .ok s)
      (hend : s.position = bytes.length) :
      RecoversFile name config disk bytes outcomes
        (.ok ⟨⟨.file name, s.position, false⟩, config, s⟩, disk)
  | cut {s : Snapshot} (hreplay : Snapshot.replay name bytes config.truncateTornTail = .ok s)
      (hend : s.position < bytes.length) (hdone : outcomes.headD .done = .done) :
      RecoversFile name config disk bytes outcomes
        (.ok ⟨⟨.file name, s.position, false⟩, config, s⟩,
          disk.set name (.file (bytes.take s.position) outcomes.tail))
  | uncut {s : Snapshot} {remaining : List ChangeOutcome}
      (hreplay : Snapshot.replay name bytes config.truncateTornTail = .ok s)
      (hreason : Bytes.limit ≤ s.position ∨ outcomes.headD .done = .undone)
      (hremaining : remaining <:+ outcomes) :
      RecoversFile name config disk bytes outcomes
        (.error .fileSystem, disk.set name (.file bytes remaining))
  | torn {s : Snapshot} {left : List UInt8}
      (hreplay : Snapshot.replay name bytes config.truncateTornTail = .ok s)
      (hend : s.position < bytes.length) (htorn : outcomes.headD .done = .torn left) :
      RecoversFile name config disk bytes outcomes
        (.error .fileSystem, disk.set name (.file (bytes.take s.position) outcomes.tail))

theorem recovers_file (hfile : disk name = some (.file bytes outcomes)) (config : Config) :
    RecoversFile name config disk bytes outcomes
      (recover name config ⟨.file name, bytes.length, false⟩ disk) := by
  rw [recover, (Log.contains_file hfile).replay_eq]
  cases hreplay : Snapshot.replay name bytes config.truncateTornTail with
  | error error => exact .refused hreplay
  | ok s =>
    obtain ⟨hposition, _, _⟩ := Snapshot.tiled_of_replay hreplay
    dsimp only
    by_cases hwhole : bytes.length ≤ s.position
    · rw [if_pos hwhole]
      have hend := Nat.le_antisymm hposition hwhole
      exact hend ▸ .whole hreplay hend
    have hend : s.position < bytes.length := Nat.lt_of_not_le hwhole
    rw [if_neg hwhole]
    by_cases hroom : s.position < Bytes.limit
    · rw [Log.truncate_file hfile (if_pos hroom)]
      cases hfate : outcomes.headD .done with
      | done =>
        rw [if_pos rfl, Nat.min_eq_right hposition, ChangeOutcome.resizes, resized_of_le hposition]
        exact .cut hreplay hend hfate
      | undone => exact .uncut hreplay (.inr hfate) (List.tail_suffix outcomes)
      | torn left =>
        rw [if_neg nofun, ChangeOutcome.resizes, resized_of_le hposition]
        exact .torn hreplay hend hfate
    · rw [Log.truncate_file hfile (if_neg hroom)]
      exact .uncut hreplay (.inl (Nat.le_of_not_lt hroom)) (List.suffix_refl outcomes)

end Handle

end SnapshotStore
