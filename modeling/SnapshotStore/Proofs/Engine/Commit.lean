import SnapshotStore.Engine.Commit
import SnapshotStore.Proofs.Log.Contents
import SnapshotStore.Proofs.Success

/-!
# The outcomes of a commit

A commit finds its database by name, places its steps, appends them and publishes the result. Each
of these can fail, and only the handle of that one database ever changes.
-/

namespace SnapshotStore

variable {e e' : Engine} {name other : String} {handle handle' : Handle} {tx : Transaction}
  {placement : Placement} {disk : Disk}

namespace Engine

/-! ### Handles -/

theorem handle?_setHandle_self : (e.setHandle name handle).handle? name = some handle :=
  List.lookup_cons_self

theorem handle?_withoutHandle_self : (e.withoutHandle name).handle? name = none := by
  refine List.lookup_eq_none_iff.2 fun pair hpair => ?_
  have hne := of_decide_eq_true (List.mem_filter.1 hpair).2
  exact bne_iff_ne.2 (Ne.symm hne)

theorem handle?_withoutHandle_of_ne (hne : other ≠ name) :
    (e.withoutHandle name).handle? other = e.handle? other := by
  have hlookup : ∀ handles : List (String × Handle),
      (handles.filter (·.1 ≠ name)).lookup other = handles.lookup other := by
    intro handles
    induction handles with
    | nil => rfl
    | cons pair handles ih =>
      obtain ⟨found, handle⟩ := pair
      by_cases hfound : found = name
      · have hmiss : (other == found) = false := beq_false_of_ne (hfound ▸ hne)
        rw [List.filter_cons_of_neg (by simpa using hfound), ih, List.lookup_cons, hmiss]
      · rw [List.filter_cons_of_pos (by simpa using hfound), List.lookup_cons, List.lookup_cons, ih]
  exact hlookup e.handles

theorem handle?_setHandle_of_ne (hne : other ≠ name) :
    (e.setHandle name handle).handle? other = e.handle? other := by
  have hmiss : (other == name) = false := beq_false_of_ne hne
  rw [setHandle, handle?, List.lookup_cons, hmiss]
  exact handle?_withoutHandle_of_ne hne

/-! ### Commits -/

/-- How a commit of an open database ends. -/
inductive Commits (e : Engine) (name : String) (handle : Handle) (tx : Transaction) :
    Except Error Snapshot → Engine → Prop where
  | nothing (hsteps : tx.steps = []) : Commits e name handle tx (.ok handle.published) e
  | refused {error : Error} (hplace : handle.place e.disk tx = .error error) :
      Commits e name handle tx (.error error) e
  | failed {placement : Placement} {error : Error} (hplace : handle.place e.disk tx = .ok placement)
      (happend : (handle.log.append e.disk placement.payload handle.config.durability).result =
        .error error) :
      Commits e name handle tx (.error error)
        ({ e with
          disk := (handle.log.append e.disk placement.payload handle.config.durability).disk
        }.setHandle name { handle with
          log := (handle.log.append e.disk placement.payload handle.config.durability).log })
  | published {placement : Placement} {position : Nat}
      (hplace : handle.place e.disk tx = .ok placement)
      (happend : (handle.log.append e.disk placement.payload handle.config.durability).result =
        .ok position) :
      Commits e name handle tx (.ok (placement.snapshot.endingAt position))
        ({ e with
          disk := (handle.log.append e.disk placement.payload handle.config.durability).disk
        }.setHandle name { handle with
          log := (handle.log.append e.disk placement.payload handle.config.durability).log
          published := placement.snapshot.endingAt position })

theorem commits_of_commit {result : Except Error Snapshot}
    (hhandle : e.handle? tx.rollbackPoint.name = some handle) (h : e.commit tx = (result, e')) :
    Commits e tx.rollbackPoint.name handle tx result e' := by
  rw [commit, hhandle] at h
  dsimp only at h
  split at h
  · next hsteps =>
    cases h
    exact .nothing (List.isEmpty_iff.1 hsteps)
  · split at h
    · next hplace =>
      cases h
      exact .refused hplace
    · next hplace =>
      split at h
      · next happend =>
        cases h
        exact .failed hplace happend
      · next happend =>
        cases h
        exact .published hplace happend

theorem commit_of_closed (hhandle : e.handle? tx.rollbackPoint.name = none) :
    e.commit tx = (.error (.databaseClosed tx.rollbackPoint.name), e) := by
  rw [commit, hhandle]

end Engine

/-- A transaction passes its check if nothing that was committed conflicts with what it has read or
with any of its steps. -/
theorem Transaction.checkAgainst_eq_ok {committed : List (Uid × LogObject)} :
    tx.checkAgainst committed = .ok () ↔ ∀ object ∈ committed,
      tx.reads.violatedBy object.2 object.1 = false ∧
        ∀ step ∈ tx.steps, step.object.conflicts step.uid object.2 object.1 = false := by
  have hconflict : ∀ object : Uid × LogObject, tx.conflict? object.2 object.1 = none ↔
      tx.reads.violatedBy object.2 object.1 = false ∧
        ∀ step ∈ tx.steps, step.object.conflicts step.uid object.2 object.1 = false := by
    intro object
    rw [conflict?]
    split
    · next hreads => simp [hreads]
    · next hreads => simp [hreads]
  simp only [← hconflict]
  rw [checkAgainst, ← List.findSome?_eq_none_iff]
  split
  · next hnone => exact ⟨fun _ => hnone, fun _ => rfl⟩
  · next hsome => exact ⟨fun h => (nomatch h), fun h => absurd (h.symm.trans hsome) nofun⟩

theorem Handle.place_eq_ok :
    handle.place disk tx = .ok placement ↔
      ∃ committed, handle.log.objects disk tx.rollbackPoint.position handle.published.position =
        .ok committed ∧
        tx.checkAgainst committed = .ok () ∧ handle.log.length = handle.published.position ∧
        Placement.ofSteps handle.published tx.steps = .ok placement := by
  rw [place, bind_eq_ok]
  refine exists_congr fun committed => and_congr_right fun _ => ?_
  rw [bind_eq_ok]
  constructor
  · rintro ⟨_, hcheck, h⟩
    obtain ⟨hlength, hplacement⟩ := ensure_bind_eq_ok.1 h
    exact ⟨hcheck, of_decide_eq_true hlength, hplacement⟩
  · rintro ⟨hcheck, hlength, hplacement⟩
    exact ⟨(), hcheck, ensure_bind_eq_ok.2 ⟨decide_eq_true hlength, hplacement⟩⟩

/-! ### Lengths -/

theorem Log.length_append_le (log : Log) (disk : Disk) (payload : List UInt8)
    (durability : Durability) : log.length ≤ (log.append disk payload durability).log.length := by
  generalize houtcome : log.append disk payload durability = outcome
  obtain ⟨fate, happends⟩ := Log.exists_appends houtcome
  cases happends with
  | memory | done => exact Nat.le_add_right _ _
  | refused | missing | undone | torn => exact Nat.le_refl _

/-- The length of the log of an open database. -/
def Engine.logLength (e : Engine) (name : String) :
    Nat := ((e.handle? name).map (·.log.length)).getD 0

theorem Engine.logLength_of_handle? (h : e.handle? name = some handle) :
    e.logLength name = handle.log.length := by
  rw [logLength, h]
  rfl

/-- No log gets shorter by a commit. -/
theorem Engine.logLength_le_of_commit {result : Except Error Snapshot}
    (h : e.commit tx = (result, e')) (name : String) : e.logLength name ≤ e'.logLength name := by
  cases hhandle : e.handle? tx.rollbackPoint.name with
  | none =>
    rw [commit_of_closed hhandle] at h
    cases h
    exact Nat.le_refl _
  | some handle =>
    have hchanged : ∀ (disk : Disk) (handle' : Handle), handle.log.length ≤ handle'.log.length →
        e.logLength name ≤ ({ e with disk }.setHandle tx.rollbackPoint.name handle').logLength
          name := by
      intro disk handle' hle
      by_cases hname : name = tx.rollbackPoint.name
      · subst hname
        rwa [logLength_of_handle? hhandle, logLength_of_handle? handle?_setHandle_self]
      · rw [logLength, logLength, handle?_setHandle_of_ne hname]
        exact Nat.le_refl _
    cases commits_of_commit hhandle h with
    | nothing | refused => exact Nat.le_refl _
    | failed | published => exact hchanged _ _ (Log.length_append_le ..)

end SnapshotStore
