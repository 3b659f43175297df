import SnapshotStore.Proofs.Engine.Failure
import SnapshotStore.Proofs.Engine.Reopening
import SnapshotStore.Proofs.Snapshot.Provenance

/-!
# Identifiers are offsets of the log for good

A database may be closed and opened again any number of times. All snapshots that it ever publishes
reflect front parts of one growing log, in its order. So their identifiers are offsets at which that
log holds the objects that made what stands under them, and whatever stands under an identifier in a
later snapshot has stood there since the log went past it.
-/

namespace SnapshotStore

variable {name : String} {bytes more : List UInt8} {past snapshots : List Snapshot} {w w' : Session}
  {s s' : Snapshot}

/-- A database through any number of openings: what its earlier sessions have published, and the
session that is under way. Each session finds at least the log that the one before has left. -/
inductive History (name : String) : List Snapshot → Session → Prop where
  | opened {w : Session} (h : Opened name w) : History name [] w
  | move {past : List Snapshot} {w w' : Session} (h : History name past w)
      (hmove : Move name w w') : History name past w'
  | reopened {past : List Snapshot} {w w' : Session} {bytes more : List UInt8}
      (h : History name past w) (hopened : Opened name w')
      (hleft : w.engine.logBytes? name = some bytes)
      (hfound : w'.engine.logBytes? name = some (bytes ++ more)) :
      History name (past ++ w.published) w'

/-! ### Snapshots of one log -/

namespace Reflects

/-- What stands in the log between two snapshots of it leads from one to the other. -/
theorem builds_between (h : Reflects name bytes s) (h' : Reflects name bytes s')
    (hle : s.position ≤ s'.position) :
    ∃ later, Snapshot.Builds s.position s later s'.position s' := by
  obtain ⟨hposition, objects, htiled, hextend⟩ := h
  obtain ⟨hposition', all, hall, hextend'⟩ := h'
  have hfront : (bytes.take s'.position).take s.position = bytes.take s.position := by
    rw [List.take_take, Nat.min_eq_left hle]
  rw [← List.take_append_drop s.position (bytes.take s'.position), hfront] at hall
  obtain ⟨later, rfl, hlater⟩ := hall.exists_append htiled
  rw [List.foldlM_append] at hextend'
  obtain ⟨m, hm, hextend'⟩ := bind_eq_ok.1 hextend'
  cases hm.symm.trans hextend
  have hbuilds := Snapshot.builds_of_extend hlater hextend'
  rw [Nat.zero_add, List.length_take_of_le hposition, List.length_drop,
    List.length_take_of_le hposition', Nat.add_sub_cancel' hle] at hbuilds
  exact ⟨_, hbuilds⟩

theorem traced {all : List Stored} (h : Reflects name bytes s) (hall : Tiled 0 bytes all)
    (hroom : bytes.length ≤ Uid.provisionalBase) : s.Traced (all.map Stored.pair) := by
  obtain ⟨hposition, objects, htiled, hextend⟩ := h
  have hbuilds := Snapshot.builds_of_extend htiled hextend
  rw [Nat.zero_add, List.length_take_of_le hposition] at hbuilds
  rw [← List.take_append_drop s.position bytes] at hall
  obtain ⟨later, rfl, _⟩ := hall.exists_append htiled
  rw [List.map_append]
  exact (hbuilds.traced (Nat.le_trans hposition hroom)).append _

end Reflects

/-- Snapshots of one log in the order of their positions. -/
structure Chronicle (name : String) (bytes : List UInt8) (snapshots : List Snapshot) : Prop where
  reflects : ∀ s ∈ snapshots, Reflects name bytes s
  ordered : snapshots.Pairwise fun s s' => s.position ≤ s'.position

namespace Chronicle

theorem append (h : Chronicle name bytes snapshots) (more : List UInt8) :
    Chronicle name (bytes ++ more) snapshots :=
  ⟨fun s hs => (h.reflects s hs).append more, h.ordered⟩

/-- A snapshot at the end of the log comes last. -/
theorem concat (h : Chronicle name bytes snapshots) (hs : Reflects name bytes s)
    (hends : s.position = bytes.length) : Chronicle name bytes (snapshots ++ [s]) := by
  constructor
  · intro s' hs'
    rcases List.mem_append.1 hs' with hs' | hs'
    · exact h.reflects s' hs'
    · rwa [List.mem_singleton.1 hs']
  · refine List.pairwise_append.2 ⟨h.ordered, List.pairwise_singleton _ _, ?_⟩
    intro s' hs' last hlast
    rw [List.mem_singleton.1 hlast, hends]
    exact (h.reflects s' hs').1

theorem continues (h : Chronicle name bytes snapshots) :
    snapshots.Pairwise fun s s' => s.position ≤ s'.position ∧ s.Continues s' := by
  refine h.ordered.imp_of_mem fun {s s'} hs hs' hle => ⟨hle, ?_⟩
  obtain ⟨_, hbuilds⟩ := (h.reflects s hs).builds_between (h.reflects s' hs') hle
  exact hbuilds.continues (h.reflects s hs).catalogued

end Chronicle

/-! ### Histories -/

theorem Opened.published_eq (h : Opened name w) : ∃ s, w.published = [s] := by
  cases h with
  | file | memory => exact ⟨_, rfl⟩

theorem History.run (h : History name past w) (hrun : Run name w w') : History name past w' := by
  induction hrun with
  | refl => exact h
  | step _ hmove ih => exact ih.move hmove

theorem History.reachable (h : History name past w) : Reachable name w := by
  induction h with
  | opened h => exact ⟨_, h, .refl⟩
  | move _ hmove ih =>
    obtain ⟨first, hopened, hrun⟩ := ih
    exact ⟨first, hopened, hrun.step hmove⟩
  | reopened _ hopened => exact ⟨_, hopened, .refl⟩

theorem Engine.logBytes?_of_contains {e : Engine} {handle : Handle}
    (h : e.handle? name = some handle) (hcontents : handle.log.Contains e.disk bytes) :
    e.logBytes? name = some bytes := by
  rw [logBytes?, h]
  exact congrArg Except.toOption hcontents.read_all

theorem Reachable.logLength_eq (h : Reachable name w)
    (hbytes : w.engine.logBytes? name = some bytes) : w.engine.logLength name = bytes.length := by
  obtain ⟨handle, held, hbacked⟩ := backed_of_reachable h
  rw [Engine.logBytes?_of_contains hbacked.registered hbacked.contents] at hbytes
  cases hbytes
  exact (Engine.logLength_of_handle? hbacked.registered).trans hbacked.contents.1.symm

/-- Everything that was ever published reflects the log as it is now. -/
theorem History.chronicle (h : History name past w)
    (hroom : w.engine.logLength name < Bytes.limit) :
    ∃ opened handle bytes, Consistent name opened w handle bytes ∧
      Chronicle name bytes (past ++ w.published) := by
  induction h with
  | opened h =>
    obtain ⟨opened, handle, hw⟩ := consistent_of_opened h
    obtain ⟨s, hs⟩ := h.published_eq
    refine ⟨opened, handle, opened, hw, hw.reflects, ?_⟩
    rw [hs]
    exact List.pairwise_singleton _ _
  | @move past w w' h hmove ih =>
    obtain ⟨opened, handle, bytes, hw, hpast⟩ := ih (Nat.lt_of_le_of_lt hmove.logLength_le hroom)
    obtain ⟨handle', bytes', hw'⟩ := hw.move hmove hroom
    obtain ⟨later, hlater⟩ := (Run.refl.step hmove).committed_append
    have hgrown : bytes' = bytes ++ encoded later := by
      rw [hw'.grown, hw.grown, hlater, encoded, encoded, encoded, List.flatMap_append,
        List.append_assoc]
    subst hgrown
    refine ⟨opened, handle', _, hw', ?_⟩
    cases hmove with
    | begin | change | giveUp | fail | elsewhere => exact hpast.append _
    | @commit _ _ _ s =>
      have hlast : s = handle'.published :=
        Option.some.inj ((List.getLast?_concat ..).symm.trans hw'.latest)
      rw [← List.append_assoc, hlast]
      exact (hpast.append _).concat (hw'.reflects _ hw'.mem_latest) hw'.ends
  | @reopened past w w' bytes more h hopened hleft hfound ih =>
    obtain ⟨opened, handle', hw'⟩ := consistent_of_opened hopened
    cases hw'.logBytes?.symm.trans hfound
    rw [hw'.logLength, List.length_append] at hroom
    rw [h.reachable.logLength_eq hleft] at ih
    obtain ⟨_, handle, _, hw, hpast⟩ := ih (Nat.lt_of_le_of_lt (Nat.le_add_right _ _) hroom)
    cases hw.logBytes?.symm.trans hleft
    obtain ⟨s, hs⟩ := hopened.published_eq
    have hlast : s = handle'.published := by
      have hlatest := hw'.latest
      rw [hs] at hlatest
      exact Option.some.inj hlatest
    refine ⟨_, handle', _, hw', ?_⟩
    rw [hs, hlast]
    exact (hpast.append more).concat (hw'.reflects _ hw'.mem_latest) hw'.ends

/-- A file that was closed is opened with at least the log that was in it. -/
theorem History.reopen {handle : Handle} {config : Config} {e : Engine} (h : History name past w)
    (hroom : w.engine.logLength name < Bytes.limit)
    (hhandle : w.engine.handle? name = some handle) (hfile : handle.log.path? = some name)
    (hconfig : config.durability ≠ .memory)
    (hopen : (w.engine.close handle.published).2.openFile name config = .ok (s, e)) :
    History name (past ++ w.published) ⟨e, [s], [], []⟩ := by
  obtain ⟨_, _, bytes, hw, _⟩ := h.chronicle hroom
  cases hw.registered.symm.trans hhandle
  have hclosed : (w.engine.close handle.published).2.handle? name = none := by
    rw [Engine.close, (hw.reflects _ hw.mem_latest).name_eq]
    exact Engine.handle?_withoutHandle_self
  have hopened : Opened name ⟨e, [s], [], []⟩ := .file hclosed hopen
  obtain ⟨log, more, hpath, hcontents, _, hopens⟩ := hw.openFile_of_closed hfile hconfig
  obtain ⟨reopened, disk, hrecover, rfl, rfl⟩ := (hopens s e).1 hopen
  obtain ⟨_, objects, htiled, _⟩ := hw.reflects _ hw.mem_latest
  rw [hw.ends, List.take_length] at htiled
  have hreplay := Handle.replay_of_recover hcontents hrecover
  obtain ⟨hposition, hall, _⟩ := Snapshot.tiled_of_replay hreplay
  obtain ⟨later, hlater⟩ := htiled.scan_ofBytes_append more
  rw [hlater] at hall
  have hle := htiled.length_le_of_append hall
  rw [List.length_take_of_le hposition] at hle
  have hlog : ∀ file, log.path? = some file → file = name := fun file hfound =>
    Option.some.inj (hfound.symm.trans hpath)
  obtain ⟨hkept, _, _⟩ := Handle.recover_eq_ok hcontents hlog hrecover
  rw [List.take_append, List.take_of_length_le hle] at hkept
  exact h.reopened hopened hw.logBytes?
    (Engine.logBytes?_of_contains Engine.handle?_setHandle_self hkept)

/-- As long as the log has not come to the provisional identifiers, every identifier in a snapshot
that was ever published is the offset at which the log holds the object that made what stands under
it, and what stands under it in a later snapshot is the same. -/
theorem uids_are_offsets (h : History name past w)
    (hroom : w.engine.logLength name ≤ Uid.provisionalBase) :
    ∃ bytes objects, w.engine.logBytes? name = some bytes ∧ objectsIn bytes 0 = .ok objects ∧
      (∀ o ∈ objects, ∃ r, Decoder.object.run.run
        ⟨bytes.drop o.1.place, o.1.place, bytes.length, false⟩ = (.ok o, r)) ∧
      (∀ s ∈ past ++ w.published, s.Traced objects) ∧
      (past ++ w.published).Pairwise fun s s' => s.position ≤ s'.position ∧ s.Continues s' := by
  obtain ⟨opened, handle, bytes, hw, hchronicle⟩ :=
    h.chronicle (Nat.lt_of_le_of_lt hroom (by decide))
  obtain ⟨_, all, htiled, _⟩ := hw.reflects _ hw.mem_latest
  rw [hw.ends, List.take_length] at htiled
  rw [hw.logLength] at hroom
  refine ⟨bytes, all.map Stored.pair, hw.logBytes?, htiled.objectsIn, ?_, ?_,
    hchronicle.continues⟩
  · intro o ho
    obtain ⟨stored, hstored, rfl⟩ := List.mem_map.1 ho
    exact htiled.reads_at hstored (Nat.le_refl _) false
  · exact fun s hs => (hchronicle.reflects s hs).traced htiled hroom

/-- A table with an index and a row that is updated; then the file is closed and opened again, the
row deleted and another one inserted. -/
theorem uids_are_offsets_after_reopening :
    let empty : Engine := ⟨Disk.empty.set "f" (.file [] []), []⟩
    let opened := empty.setHandle "f" ⟨⟨.file "f", 0, false⟩, .default, .empty "f"⟩
    let one := (Session.mk opened [.empty "f"] [] []).settle "f"
      ((Snapshot.empty "f").begin.taking [.newTable "t", .newColumn "a" .integer (.provisional 0),
        .newIndex ⟨.provisional 0, true, [.provisional 1], none⟩,
        .record (.provisional 0) [(.provisional 1, .integer 7)],
        .update (.provisional 0) [(.provisional 1, .integer 8)] (.provisional 3)])
    let last := (one.engine.latest? "f").getD (.empty "f")
    let found := ((one.engine.close last).2.openFile "f" .default).toOption.getD (last, one.engine)
    let two := (Session.mk found.2 [found.1] [] []).settle "f"
      (found.1.begin.taking [.delete ⟨0⟩ ⟨21⟩, .record ⟨0⟩ [(⟨4⟩, .integer 7)]])
    two.engine.logLength "f" ≤ Uid.provisionalBase ∧
      (one.published ++ two.published).map (·.position) = [0, 43, 43, 58] ∧
      ∃ bytes objects, two.engine.logBytes? "f" = some bytes ∧ objectsIn bytes 0 = .ok objects ∧
        objects.map (·.1.place) = [0, 4, 11, 21, 31, 43, 48] ∧
        (∀ s ∈ one.published ++ two.published, s.Traced objects) ∧
        (one.published ++ two.published).Pairwise fun s s' =>
          s.position ≤ s'.position ∧ s.Continues s' := by
  intro empty opened one last found two
  have hroom : one.engine.logLength "f" < Bytes.limit ∧
      two.engine.logLength "f" ≤ Uid.provisionalBase := by decide +kernel
  have hone : History "f" [] one :=
    .run (.opened (@Opened.file "f" empty opened .default _ rfl rfl))
      (Run.refl.settle List.mem_cons_self _)
  have hlive : (one.engine.handle? "f").any fun handle => handle.log.path? = some "f" := by
    decide +kernel
  obtain ⟨handle, hhandle, hfile⟩ := (Option.any_eq_true _ _).1 hlive
  have hlast : last = handle.published := by
    show (one.engine.latest? "f").getD _ = _
    rw [Engine.latest?, hhandle]
    rfl
  have hok : ((one.engine.close last).2.openFile "f" .default).toOption.isSome := by decide +kernel
  have hopen : (one.engine.close handle.published).2.openFile "f" .default = .ok found := by
    rw [← hlast]
    exact toOption_eq_some.1 (Option.getD_of_ne_none (Option.isSome_iff_ne_none.1 hok) _).symm
  have htwo : History "f" one.published two :=
    (hone.reopen hroom.1 hhandle (of_decide_eq_true hfile) (by decide) hopen).run
      (Run.refl.settle List.mem_cons_self _)
  have hplaces : ((two.engine.logBytes? "f").bind fun bytes =>
      (objectsIn bytes 0).toOption.map (·.map (·.1.place))) = some [0, 4, 11, 21, 31, 43, 48] := by
    decide +kernel
  obtain ⟨bytes, objects, hbytes, hobjects, _, htraced, hcontinues⟩ :=
    uids_are_offsets htwo hroom.2
  rw [hbytes, Option.bind_some, hobjects] at hplaces
  exact ⟨hroom.2, by decide +kernel, bytes, objects, hbytes, hobjects, Option.some.inj hplaces,
    htraced, hcontinues⟩

end SnapshotStore
