import SnapshotStore.Proofs.Engine.TornTail

/-!
# Opening a file that may hold anything

Whatever the bytes of a file are, it is opened as a whole or not at all: the objects at its front
are replayed, and what stands behind them is cut off only if it is the start of an object. What is
left is a log to its last byte, so that opening it again changes nothing, whatever the
configuration.
-/

namespace SnapshotStore

/-! ### Where a scan stops -/

/-- The read of an object at a place in the log needs bytes past its end. -/
def RunsOut (bytes : List UInt8) (place : Nat) : Prop :=
  ∃ fault r, Decoder.object.run.run ⟨bytes.drop place, place, bytes.length, false⟩ =
    (.error fault, r) ∧ r.ranOut = true

/-- What a scan reads tiles what it has walked over, and behind that no object can be read. -/
theorem Tiled.of_scan_fault {bound : Nat} {r : Reader} {fault : ReadFault} {torn : Bool}
    (hbound : r.rest.length ≤ bound) (h : (Scan.upTo bound r).fault = some (fault, torn)) :
    ∃ used rest r', r.rest = used ++ rest ∧ Tiled r.offset used (Scan.upTo bound r).objects ∧
      Decoder.object.run.run ⟨rest, r.offset + used.length, r.size, r.ranOut⟩ =
        (.error fault, r') ∧ r'.ranOut = torn := by
  induction bound generalizing r with
  | zero => cases h
  | succ bound ih =>
    rw [Scan.upTo] at h ⊢
    by_cases hdone : r.isDone
    · rw [if_pos hdone] at h
      cases h
    rw [if_neg hdone] at h ⊢
    split at h
    · next uid object r' hrun =>
      obtain ⟨used, rest, hleast, hrest, rfl, hreads⟩ := Decoder.takes_object r _ r' hrun
      have hlength := congrArg List.length hrest
      rw [List.length_append] at hlength
      obtain ⟨walked, left, r', hwalked, htiled, hfails, htorn⟩ :=
        ih (r := ⟨rest, r.offset + used.length, r.size, r.ranOut⟩) (by
        dsimp only
        omega) h
      refine ⟨used ++ walked, left, r', ?_, .cons (List.length_pos_iff.1 hleast) hreads htiled, ?_,
        htorn⟩
      · rw [hrest, List.append_assoc]
        exact congrArg (used ++ ·) hwalked
      · rwa [List.length_append, ← Nat.add_assoc]
    · next fault' r' hrun =>
      cases h
      exact ⟨[], r.rest, r', rfl, .nil _, hrun, rfl⟩

namespace Snapshot

variable {name : String} {bytes : List UInt8} {skipTorn : Bool} {s : Snapshot}

/-- A replay that does not get to the end of the bytes has stopped at an object that runs past
it. -/
theorem runsOut_of_replay (h : replay name bytes skipTorn = .ok s)
    (hshort : s.position < bytes.length) : skipTorn = true ∧ RunsOut bytes s.position := by
  obtain ⟨hposition, htiled, hextend⟩ := tiled_of_replay h
  have hfront := List.length_take_of_le hposition
  obtain ⟨last, hlast, h⟩ := bind_eq_ok.1 h
  cases hfault : (Scan.ofBytes bytes 0).fault with
  | none =>
    obtain ⟨used, rest, hbytes, hused, hend⟩ : ∃ used rest, bytes = used ++ rest ∧
      Tiled 0 used (Scan.ofBytes bytes 0).objects ∧
        ((Scan.ofBytes bytes 0).fault = none → rest = []) :=
      Tiled.of_scan (r := .start bytes 0) (Nat.le_refl bytes.length)
    rw [hend hfault, List.append_nil] at hbytes
    have hwhole := position_extend hused rfl hextend
    rw [hbytes] at hshort
    omega
  | some found =>
    obtain ⟨fault, torn⟩ := found
    obtain ⟨used, rest, r', hbytes, hused, hfails, htorn⟩ : ∃ used rest r', bytes = used ++ rest ∧
        Tiled 0 used (Scan.ofBytes bytes 0).objects ∧
        Decoder.object.run.run ⟨rest, 0 + used.length, bytes.length, false⟩ = (.error fault, r') ∧
        r'.ranOut = torn :=
      Tiled.of_scan_fault (r := .start bytes 0) (Nat.le_refl bytes.length) hfault
    have hwalked := position_extend hused rfl hextend
    rw [Nat.zero_add] at hwalked hfails
    rw [hfault] at h
    dsimp only at h
    split at h
    · next hskip =>
      rw [Bool.and_eq_true] at hskip
      refine ⟨hskip.1, fault, r', ?_, htorn.trans hskip.2⟩
      rw [hwalked, hbytes, List.drop_left, ← hbytes]
      exact hfails
    · cases h

end Snapshot

/-! ### All or nothing -/

variable {name : String} {bytes : List UInt8} {outcomes : List ChangeOutcome} {config : Config}
  {s : Snapshot} {e : Engine}

/-- A file that is a log to its last byte is opened as it is. -/
theorem Engine.openFile_of_whole (hclosed : e.handle? name = none)
    (hfile : e.disk name = some (.file bytes outcomes)) (hconfig : config.durability ≠ .memory)
    (hreplay : Snapshot.replay name bytes config.truncateTornTail = .ok s)
    (hend : bytes.length ≤ s.position) :
    e.openFile name config =
      .ok (s, e.setHandle name ⟨⟨.file name, bytes.length, false⟩, config, s⟩) := by
  have hrecover := Handle.recover_of_replay (Log.contains_file hfile) hreplay hend
  rw [← Handle.openFile_of_file hfile hconfig] at hrecover
  exact openFile_eq_ok.2 ((opening_eq_ok hclosed).2 ⟨_, _, hrecover, rfl, rfl⟩)

/-- A file becomes the handle of a front part of it that its snapshot is a replay of, or it keeps
its bytes, unless it is cut back and the cut tears. -/
theorem Handle.openFile_file {disk : Disk} (hfile : disk name = some (.file bytes outcomes))
    (hconfig : config.durability ≠ .memory)
    (hcut : ∀ left, outcomes.headD .done ≠ .torn left) :
    ∃ remaining, remaining <:+ outcomes ∧
      ((∃ error, Handle.openFile name config disk =
          (.error error, disk.set name (.file bytes remaining))) ∨
        ∃ s, Snapshot.replay name bytes config.truncateTornTail = .ok s ∧
          Handle.openFile name config disk =
            (.ok ⟨⟨.file name, s.position, false⟩, config, s⟩,
              disk.set name (.file (bytes.take s.position) remaining))) := by
  have hrecovers := recovers_file hfile config
  rw [← openFile_of_file hfile hconfig] at hrecovers
  generalize Handle.openFile name config disk = opened at hrecovers
  cases hrecovers with
  | refused hreplay =>
    exact ⟨outcomes, List.suffix_refl outcomes, .inl ⟨_, by rw [Disk.set_of_eq hfile]⟩⟩
  | whole hreplay hend =>
    refine ⟨outcomes, List.suffix_refl outcomes, .inr ⟨_, hreplay, ?_⟩⟩
    rw [hend, List.take_length, Disk.set_of_eq hfile]
  | cut hreplay => exact ⟨outcomes.tail, List.tail_suffix outcomes, .inr ⟨_, hreplay, rfl⟩⟩
  | uncut _ _ hremaining => exact ⟨_, hremaining, .inl ⟨_, rfl⟩⟩
  | torn _ _ htorn => exact absurd htorn (hcut _)

/-- A file that is not open is opened as a whole or not at all, whatever it holds, unless it can be
cut back only half way. If that fails, its bytes are what they were. Otherwise the file is its front
part up to the snapshot, and what was cut off is the start of an object that the configuration
allows to leave out. Then the database may be closed, so that its name leads to nothing, and opened
again, with any configuration that keeps it in its file: the snapshot is the same and so is every
file. -/
theorem openFile_all_or_nothing (hclosed : e.handle? name = none)
    (hfile : e.disk name = some (.file bytes outcomes)) (hconfig : config.durability ≠ .memory)
    (hcut : ∀ left, outcomes.headD .done ≠ .torn left) :
    ∃ remaining, remaining <:+ outcomes ∧
      ((∃ error, e.opening name config =
            (.error error, { e with disk := e.disk.set name (.file bytes remaining) }) ∧
          e.openFile name config = .error error) ∨
        ∃ s e' handle, e.opening name config = (.ok s, e') ∧
          e.openFile name config = .ok (s, e') ∧
          e'.handle? name = some handle ∧ handle.published = s ∧
          handle.log.length = s.position ∧ s.position ≤ bytes.length ∧
          e'.disk = e.disk.set name (.file (bytes.take s.position) remaining) ∧
          (s.position < bytes.length →
            config.truncateTornTail = true ∧ RunsOut bytes s.position) ∧
          (e'.close s).2.handle? name = none ∧
          ∀ again : Config, again.durability ≠ .memory →
            ∃ e'', (e'.close s).2.openFile name again = .ok (s, e'') ∧ e''.disk = e'.disk) := by
  obtain ⟨remaining, hremaining, ⟨error, hfails⟩ | ⟨s, hreplay, hopens⟩⟩ :=
    Handle.openFile_file hfile hconfig hcut
  · have hopening := Engine.opening_of_error hclosed hfails
    exact ⟨remaining, hremaining, .inl ⟨error, hopening, by rw [Engine.openFile, hopening]; rfl⟩⟩
  have hopening := (Engine.opening_eq_ok hclosed).2 ⟨_, _, hopens, rfl, rfl⟩
  obtain ⟨hposition, htiled, hextend⟩ := Snapshot.tiled_of_replay hreplay
  have hname : s.name = name := Snapshot.name_extend hextend
  refine ⟨remaining, hremaining, .inr ⟨s, _, _, hopening, Engine.openFile_eq_ok.2 hopening,
    Engine.handle?_setHandle_self .., rfl, rfl, hposition, rfl,
    Snapshot.runsOut_of_replay hreplay, ?_, fun again hagain => ?_⟩⟩
  · rw [Engine.close, hname]
    exact Engine.handle?_withoutHandle_self ..
  · rw [Engine.close, hname]
    refine ⟨_, Engine.openFile_of_whole (Engine.handle?_withoutHandle_self ..) (Disk.set_same ..)
      hagain (Snapshot.replay_of_tiled htiled hextend _) (List.length_take_le _ _), rfl⟩

/-- Behind a table stand three of the seven bytes of another: they are cut off, and what is left is
opened again even where nothing may be cut off. -/
theorem openFile_all_or_nothing_torn :
    let e : Engine := ⟨Disk.empty.set "f" (.file [9, 1, 1, 116, 9, 1, 5] []), []⟩
    ∃ s e', e.openFile "f" .default = .ok (s, e') ∧ s.position = 4 ∧
      e'.disk "f" = some (.file [9, 1, 1, 116] []) ∧
      ∃ e'', (e'.close s).2.openFile "f" { Config.default with truncateTornTail := false } =
        .ok (s, e'') ∧ e''.disk = e'.disk := by
  intro e
  have hfile : e.disk "f" = some (.file [9, 1, 1, 116, 9, 1, 5] []) := rfl
  have hconfig : Config.default.durability ≠ .memory := by decide
  obtain ⟨remaining, hremaining, ⟨error, hopening, hfails⟩ |
      ⟨s, e', handle, _, hopen, _, _, _, _, hdisk, _, _, hagain⟩⟩ :=
    openFile_all_or_nothing rfl hfile hconfig nofun
  · cases hfails
  · have hs : s.position = 4 := by
      cases hopen
      rfl
    rw [List.suffix_nil.1 hremaining] at hdisk
    refine ⟨s, e', hopen, hs, by rw [hdisk, hs]; rfl, ?_⟩
    exact hagain { Config.default with truncateTornTail := false } (by decide)

end SnapshotStore
