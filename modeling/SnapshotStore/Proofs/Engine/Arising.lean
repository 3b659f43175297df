import SnapshotStore.Proofs.Engine.History
import SnapshotStore.Proofs.Snapshot.Coherent
import SnapshotStore.Proofs.Snapshot.KeyOrder

/-!
# Where snapshots come from

A snapshot arises from the replay of any bytes that open, from a commit in a session or as the view
of a transaction under way. All of these are built by installing objects at ascending places, from
the empty snapshot on: those of the log and, in a view, the steps of the transaction. So whatever
every object keeps holds of them all.
-/

namespace SnapshotStore

/-- A snapshot of a database, with the objects that have led to it. -/
inductive Arises (name : String) : List LogObject → Snapshot → Prop where
  | replayed {bytes : List UInt8} {skipTorn : Bool} {s : Snapshot}
      (h : Snapshot.replay name bytes skipTorn = .ok s) : Arises name (logged bytes) s
  | published {w : Session} {bytes : List UInt8} {s : Snapshot} (h : Reachable name w)
      (hroom : w.engine.logLength name < Bytes.limit)
      (hbytes : w.engine.logBytes? name = some bytes) (hs : s ∈ w.published) :
      Arises name (logged (bytes.take s.position)) s
  | view {w : Session} {bytes : List UInt8} {tx : Transaction} (h : Reachable name w)
      (hroom : w.engine.logLength name ≤ Uid.provisionalBase)
      (hbytes : w.engine.logBytes? name = some bytes) (htx : tx ∈ w.transactions) :
      Arises name (logged (bytes.take tx.rollbackPoint.position) ++ tx.steps.map (·.object)) tx.view

variable {name : String} {bytes : List UInt8} {s : Snapshot} {objects : List LogObject}

namespace Arises

/-- Every snapshot is built from the empty one. -/
theorem builds (h : Arises name objects s) :
    ∃ placed last,
      Snapshot.Builds 0 (.empty name) placed last s ∧ placed.map Prod.snd = objects := by
  cases h with
  | @replayed bytes _ _ h =>
    obtain ⟨_, htiled, hextend⟩ := Snapshot.tiled_of_replay h
    refine ⟨_, _, Snapshot.builds_of_extend htiled hextend, ?_⟩
    rw [logged, List.map_map]
    rfl
  | published h hroom hbytes hs =>
    obtain ⟨_, _, _, hw⟩ := consistent_of_reachable h hroom
    rw [hw.logBytes?] at hbytes
    cases hbytes
    obtain ⟨placed, hbuilds, hplaced⟩ := (hw.reflects s hs).builds_logged
    exact ⟨placed, _, hbuilds, hplaced⟩
  | @view w bytes tx h hroom hbytes htx =>
    obtain ⟨_, _, _, hw⟩ := consistent_of_reachable h (Nat.lt_of_le_of_lt hroom (by decide))
    rw [hw.logBytes?] at hbytes
    cases hbytes
    obtain ⟨hbegun, hsound⟩ := hw.begun tx htx
    obtain ⟨placed, hbuilds, hplaced⟩ := (hw.reflects _ hbegun).builds_logged
    rw [hw.logLength] at hroom
    refine ⟨_, _, hbuilds.trans (hsound (Nat.le_trans (hw.position_le hbegun) hroom)), ?_⟩
    rw [List.map_append, hplaced, List.map_map]
    rfl

/-! ### What every object keeps -/

theorem catalogued (h : Arises name objects s) : ∃ bound, Snapshot.Catalogued bound s := by
  obtain ⟨_, last, hbuilds, _⟩ := h.builds
  exact ⟨last, hbuilds.catalogued (Snapshot.catalogued_empty name)⟩

theorem coherent (h : Arises name objects s) : s.Coherent := by
  obtain ⟨_, _, hbuilds, _⟩ := h.builds
  exact hbuilds.coherent (Snapshot.coherent_empty name) (Snapshot.catalogued_empty name)

section Values

variable {P : Value → Prop} (h : Arises name objects s) (hP : OrderedOn P)
  (hvalues : ∀ object ∈ objects, object.ValuesIn P)
include h hP hvalues

theorem matched : Snapshot.Matched P s := by
  obtain ⟨placed, _, hbuilds, rfl⟩ := h.builds
  exact hbuilds.matched (Snapshot.matched_empty name) (Snapshot.catalogued_empty name) hP
    fun o ho => hvalues _ (List.mem_map_of_mem ho)

theorem referential : Snapshot.Referential P s := by
  obtain ⟨placed, _, hbuilds, rfl⟩ := h.builds
  exact hbuilds.referential (Snapshot.referential_empty name) (Snapshot.catalogued_empty name)
    (Snapshot.matched_empty name) hP fun o ho => hvalues _ (List.mem_map_of_mem ho)

theorem keyOrdered : Snapshot.KeyOrdered s := by
  obtain ⟨placed, _, hbuilds, rfl⟩ := h.builds
  exact hbuilds.keyOrdered (Snapshot.keyOrdered_empty name) (Snapshot.catalogued_empty name)
    (Snapshot.referential_empty name) (Snapshot.matched_empty name) hP
    fun o ho => hvalues _ (List.mem_map_of_mem ho)

end Values

end Arises

end SnapshotStore
