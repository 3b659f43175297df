import SnapshotStore.Proofs.Engine.Commit

/-!
# Engines that cannot be told apart

The handles of an engine are found by name, so their order does not matter. Engines with the same
disk and the same handle under each name give the same results, whatever is committed to them.
-/

namespace SnapshotStore

namespace Engine

/-- The same disk, and the same handle under each name. -/
structure Same (e e' : Engine) : Prop where
  disk : e.disk = e'.disk
  handles : ∀ name, e.handle? name = e'.handle? name

variable {e e' : Engine} {name : String} {handle : Handle}

namespace Same

theorem refl (e : Engine) : Same e e := ⟨rfl, fun _ => rfl⟩

theorem setHandle (h : Same e e') (name : String) (handle : Handle) :
    Same (e.setHandle name handle) (e'.setHandle name handle) where
  disk := h.disk
  handles other := by
    by_cases hother : other = name
    · rw [hother, handle?_setHandle_self, handle?_setHandle_self]
    · rw [handle?_setHandle_of_ne hother, handle?_setHandle_of_ne hother]
      exact h.handles other

/-- A handle that is put back where it was. -/
theorem setHandle_self (h : e.handle? name = some handle) : Same (e.setHandle name handle) e where
  disk := rfl
  handles other := by
    by_cases hother : other = name
    · rw [hother, handle?_setHandle_self, h]
    · exact handle?_setHandle_of_ne hother

/-- Committing to engines that are the same gives one result, and they stay the same. -/
theorem commit (h : Same e e') (tx : Transaction) :
    (e.commit tx).1 = (e'.commit tx).1 ∧ Same (e.commit tx).2 (e'.commit tx).2 := by
  have hdisk := h.disk
  have hhandles := h.handles tx.rollbackPoint.name
  rw [Engine.commit, Engine.commit, ← hhandles, ← hdisk]
  cases e.handle? tx.rollbackPoint.name with
  | none => exact ⟨rfl, h⟩
  | some handle =>
    dsimp only
    by_cases hsteps : tx.steps.isEmpty
    · rw [if_pos hsteps, if_pos hsteps]
      exact ⟨rfl, h⟩
    rw [if_neg hsteps, if_neg hsteps]
    cases handle.place e.disk tx with
    | error error => exact ⟨rfl, h⟩
    | ok placed =>
      have happended : ∀ disk, Same { e with disk } { e' with disk } := fun _ => ⟨rfl, h.handles⟩
      dsimp only
      cases (handle.log.append e.disk placed.payload handle.config.durability).result with
      | error error => exact ⟨rfl, (happended _).setHandle ..⟩
      | ok position => exact ⟨rfl, (happended _).setHandle ..⟩

end Same

/-- Commits transactions one after the other and gives all results. -/
def commitAll (e : Engine) : List Transaction → List (Except Error Snapshot) × Engine
  | [] => ([], e)
  | tx :: later =>
    let rest := (e.commit tx).2.commitAll later
    ((e.commit tx).1 :: rest.1, rest.2)

theorem Same.commitAll (h : Same e e') (later : List Transaction) :
    (e.commitAll later).1 = (e'.commitAll later).1 ∧
      Same (e.commitAll later).2 (e'.commitAll later).2 := by
  induction later generalizing e e' with
  | nil => exact ⟨rfl, h⟩
  | cons tx later ih =>
    obtain ⟨hresult, hnext⟩ := h.commit tx
    obtain ⟨hresults, hlast⟩ := ih hnext
    refine ⟨?_, hlast⟩
    rw [Engine.commitAll, Engine.commitAll, hresult, hresults]

end Engine

end SnapshotStore
