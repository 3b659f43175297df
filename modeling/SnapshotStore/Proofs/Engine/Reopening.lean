import SnapshotStore.Proofs.Engine.History

/-!
# Published snapshots and the log

Whatever happens in a session, its log is the log that it was opened with and behind it the
committed steps, and every snapshot that was ever published is what a replay makes of the log up to
its position. So a file that is closed and opened again gives the snapshot that was published last.
-/

namespace SnapshotStore

variable {name : String} {w w' : Session}

/-- Objects are only ever added to those that are committed. -/
theorem Run.committed_append (h : Run name w w') :
    ∃ later, w'.committed = w.committed ++ later := by
  induction h with
  | refl => exact ⟨[], (List.append_nil _).symm⟩
  | step _ hmove ih =>
    obtain ⟨later, hlater⟩ := ih
    cases hmove with
    | begin | change | giveUp | fail | elsewhere => exact ⟨later, hlater⟩
    | commit => exact ⟨later ++ _, by rw [hlater, List.append_assoc]⟩

namespace Consistent

variable {opened bytes : List UInt8} {handle : Handle} {config : Config}
  (h : Consistent name opened w handle bytes) (hfile : handle.log.path? = some name)
  (hconfig : config.durability ≠ .memory)
include h hfile hconfig

/-- A database that was closed is opened again with its log and with any bytes that stand behind it
in the file. -/
theorem openFile_of_closed :
    ∃ log more, log.path? = some name ∧
      log.Contains w.engine.disk (bytes ++ more) ∧ (handle.log.unknownTail = false → more = []) ∧
      ∀ s e, (w.engine.close handle.published).2.openFile name config = .ok (s, e) ↔
        ∃ reopened disk,
          Handle.recover name config log w.engine.disk = (.ok reopened, disk) ∧
            reopened.published = s ∧ Engine.setHandle ⟨disk, (w.engine.withoutHandle name).handles⟩
              name reopened = e := by
  obtain ⟨log, more, hopen, hcontents, hexact⟩ := h.contents.openFile hfile config.createIfMissing
  have hname := (h.reflects _ h.mem_latest).name_eq
  refine ⟨log, more, (Log.contains_openFile hopen).1, hcontents, hexact, fun s e => ?_⟩
  have hclosed : (w.engine.close handle.published).2.handle? name = none := by
    rw [Engine.close, hname, Engine.handle?_withoutHandle_self]
  rw [Engine.openFile_eq_ok, Engine.opening_eq_ok hclosed, Engine.close, hname]
  rw [← Handle.openFile_of_opened hconfig hopen]
  exact Iff.rfl

/-- A file that was closed and holds nothing but the log of a session is opened with the last
snapshot. -/
theorem reopen (htail : handle.log.unknownTail = false) :
    ∃ e, (w.engine.close handle.published).2.openFile name config = .ok (handle.published, e) := by
  obtain ⟨log, more, _, hcontents, hexact, hopen⟩ := h.openFile_of_closed hfile hconfig
  rw [hexact htail, List.append_nil] at hcontents
  have hreplay := (h.reflects _ h.mem_latest).replay config.truncateTornTail
  rw [h.ends, List.take_length] at hreplay
  exact ⟨_, (hopen _ _).2
    ⟨_, _, Handle.recover_of_replay hcontents hreplay (Nat.le_of_eq h.ends.symm), rfl, rfl⟩⟩

end Consistent

end SnapshotStore
