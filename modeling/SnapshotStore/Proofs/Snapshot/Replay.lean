import SnapshotStore.Proofs.Log.Tiling
import SnapshotStore.Proofs.Snapshot.Building
import SnapshotStore.Proofs.Snapshot.Position
import SnapshotStore.Snapshot.Replay

/-!
# What a replay amounts to

Replaying a log that is tiled by objects is extending the empty snapshot with each of them, and
every snapshot that a replay gives comes from a tiled front part of the log, at the end of which it
stands.
-/

namespace SnapshotStore.Snapshot

variable {s s' : Snapshot} {name : String} {bytes : List UInt8} {objects : List Stored} {base : Nat}

theorem extend_eq_ok {stored : Stored} :
    s.extend stored = .ok s' ↔
      ∃ m, s.install .committed stored.uid stored.object = .ok m ∧ s' = m.endingAt stored.stop := by
  rw [extend, bind_eq_ok]
  exact exists_congr fun m => and_congr_right fun _ => ⟨fun h => (Except.ok.inj h).symm,
    fun h => congrArg _ h.symm⟩

theorem name_rekey {t : Table} {row : Uid} {old new : Option Row}
    (h : s.rekey t row old new = .ok s') : s'.name = s.name := by
  refine foldlM_invariant (I := fun m : Snapshot => m.name = s.name)
    (fun m uid m' _ hm hmove => ?_) rfl (rekey_eq_ok h).1
  rcases moveKey_eq_ok hmove with ⟨_, rfl⟩ | ⟨x, tree, _, _, ⟨rfl, _⟩ | rfl, _⟩ <;> exact hm

theorem name_foldl_erase (uids : List Uid) (s : Snapshot) : (uids.foldl erase s).name = s.name := by
  induction uids generalizing s with
  | nil => rfl
  | cons uid uids ih => exact ih (s.erase uid)

theorem name_install {standing : Standing} {uid : Uid} {object : LogObject}
    (h : s.install standing uid object = .ok s') : s'.name = s.name := by
  cases object with
  | newTable name =>
    obtain ⟨_, rfl⟩ := createTable_eq_ok.1 h
    rfl
  | newColumn name type table =>
    obtain ⟨t, _, _, rfl⟩ := createColumn_eq_ok.1 h
    rfl
  | record table fields =>
    obtain ⟨t, m, _, _, hm, rfl⟩ := insertRow_eq_ok.1 h
    exact (name_rekey hm : m.name = s.name)
  | update table fields row =>
    obtain ⟨t, old, m, _, _, _, hm, rfl⟩ := updateRow_eq_ok.1 h
    exact (name_rekey hm : m.name = s.name)
  | delete table row =>
    obtain ⟨t, old, m, _, _, hm, rfl⟩ := deleteRow_eq_ok.1 h
    exact (name_rekey hm : m.name = s.name)
  | alter table column name type =>
    cases column with
    | none =>
      obtain ⟨t, _, _, rfl⟩ := renameTable_eq_ok.1 h
      rfl
    | some column =>
      obtain ⟨t, found, _, _, _, _, rfl⟩ := alterColumn_eq_ok.1 h
      rfl
  | drop target parent =>
    cases parent with
    | none =>
      obtain ⟨t, _, _, rfl⟩ := dropTable_eq_ok.1 h
      exact name_foldl_erase _ s
    | some table =>
      obtain ⟨t, column, _, _, _, rfl⟩ := dropColumn_eq_ok.1 h
      rfl
  | newIndex definition =>
    obtain ⟨t, tree, x, _, _, _, _, _, _, _, _, rfl⟩ := createIndex_eq_ok.1 h
    rfl
  | dropIndex table columns =>
    obtain ⟨t, x, _, _, _, rfl⟩ := dropIndex_eq_ok.1 h
    rfl

/-! ### Extending by the objects of a slice -/

theorem name_extend (h : objects.foldlM extend s = .ok s') : s'.name = s.name := by
  refine foldlM_invariant (I := fun m : Snapshot => m.name = s.name)
    (fun m stored m' _ hm hextend => ?_) rfl h
  obtain ⟨installed, hinstall, rfl⟩ := extend_eq_ok.1 hextend
  exact (name_install hinstall).trans hm

/-- A snapshot that stood where the objects begin stands where they end. -/
theorem position_extend (htiled : Tiled base bytes objects) (hs : s.position = base)
    (h : objects.foldlM extend s = .ok s') : s'.position = base + bytes.length := by
  induction htiled generalizing s with
  | nil =>
    cases h
    exact hs
  | cons hused hreads hrest ih =>
    rw [List.foldlM_cons] at h
    obtain ⟨m, hm, h⟩ := bind_eq_ok.1 h
    obtain ⟨installed, _, rfl⟩ := extend_eq_ok.1 hm
    rw [ih rfl h, List.length_append, Nat.add_assoc]

theorem builds_of_extend (htiled : Tiled base bytes objects)
    (h : objects.foldlM extend s = .ok s') :
    Builds base s (objects.map Stored.pair) (base + bytes.length) s' := by
  induction htiled generalizing s with
  | nil =>
    cases h
    exact .refl (Nat.le_refl _)
  | @cons base used rest uid object objects hused hreads hrest ih =>
    rw [List.foldlM_cons] at h
    obtain ⟨m, hm, h⟩ := bind_eq_ok.1 h
    obtain ⟨installed, hinstall, rfl⟩ := extend_eq_ok.1 hm
    have huid : uid.place = base :=
      congrArg Uid.place (uid_of_reads (hreads used.length (Nat.le_refl _)))
    have hlength : 0 < used.length := List.length_pos_iff.2 hused
    rw [List.length_append, ← Nat.add_assoc]
    exact (Builds.single (Nat.le_of_eq huid.symm) (huid ▸ Nat.lt_add_of_pos_right hlength) hinstall
      _).trans (ih h)

/-! ### Replaying -/

theorem replay_of_tiled (htiled : Tiled 0 bytes objects)
    (h : objects.foldlM extend (empty name) = .ok s) (skipTorn : Bool) :
    replay name bytes skipTorn = .ok s := by
  rw [replay, htiled.scan_ofBytes]
  exact bind_eq_ok.2 ⟨s, h, rfl⟩

theorem tiled_of_replay {skipTorn : Bool} (h : replay name bytes skipTorn = .ok s) :
    s.position ≤ bytes.length ∧ Tiled 0 (bytes.take s.position) (Scan.ofBytes bytes 0).objects ∧
      (Scan.ofBytes bytes 0).objects.foldlM extend (empty name) = .ok s := by
  obtain ⟨last, hlast, h⟩ := bind_eq_ok.1 h
  have hs : last = s := by
    split at h
    · exact Except.ok.inj h
    · split at h
      · exact Except.ok.inj h
      · cases h
  subst hs
  obtain ⟨used, rest, hbytes, htiled, _⟩ : ∃ used rest, bytes = used ++ rest ∧
    Tiled 0 used (Scan.ofBytes bytes 0).objects ∧ _ :=
    Tiled.of_scan (r := .start bytes 0) (Nat.le_refl bytes.length)
  have hposition := position_extend htiled rfl hlast
  rw [Nat.zero_add] at hposition
  have htake : bytes.take last.position = used := by rw [hposition, hbytes, List.take_left]
  refine ⟨?_, htake ▸ htiled, hlast⟩
  rw [hposition, hbytes, List.length_append]
  exact Nat.le_add_right _ _

end SnapshotStore.Snapshot
