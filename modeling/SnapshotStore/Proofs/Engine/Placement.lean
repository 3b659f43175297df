import SnapshotStore.Engine.Commit
import SnapshotStore.Proofs.Snapshot.Replay

/-!
# Placing the steps of a commit

A commit installs its steps at the places that they are about to have in the log, and only then
appends their encodings. So the appended bytes are tiled by the placed steps, and replaying these
gives the very snapshot that the commit publishes.
-/

namespace SnapshotStore

/-- The encodings of objects, one behind the other. -/
def encoded (objects : List (Uid × LogObject)) : List UInt8 :=
  objects.flatMap fun object => object.2.encode

/-- The steps of a transaction with their places from `base` on, each referring to the earlier ones
by their places. -/
def placed (base : Nat) (uids : Renaming) : List Step → List (Uid × LogObject)
  | [] => []
  | step :: steps =>
    let object := step.object.mapUids uids.apply
    (⟨base⟩, object) :: placed (base + object.encode.length) ((step.uid, ⟨base⟩) :: uids) steps

/-- Each step is placed with its references renamed, other identifiers staying as they are. -/
theorem mem_placed {step : Step} {steps : List Step} (hstep : step ∈ steps) (base : Nat)
    (uids : Renaming) :
    ∃ uid pairs, (uid, step.object.mapUids (Renaming.apply pairs)) ∈ placed base uids steps ∧
      ∀ u, (∀ other ∈ steps, other.uid ≠ u) → uids.apply u = u → Renaming.apply pairs u = u := by
  induction steps generalizing base uids with
  | nil => exact absurd hstep List.not_mem_nil
  | cons first steps ih =>
    rcases List.mem_cons.1 hstep with rfl | hstep
    · exact ⟨⟨base⟩, uids, List.mem_cons_self, fun _ _ hu => hu⟩
    · obtain ⟨uid, pairs, hmem, hpairs⟩ :=
        ih hstep (base + (first.object.mapUids uids.apply).encode.length)
        ((first.uid, ⟨base⟩) :: uids)
      refine ⟨uid, pairs, List.mem_cons_of_mem _ hmem,
        fun u hother hu => hpairs u (fun o ho => hother o (List.mem_cons_of_mem _ ho)) ?_⟩
      have hmiss : (u == first.uid) = false :=
        beq_false_of_ne (hother first List.mem_cons_self).symm
      rw [Renaming.apply, List.lookup_cons, hmiss]
      exact hu

namespace Placement

variable {base : Nat} {start result : Placement} {step : Step} {steps : List Step} {s : Snapshot}

theorem add_eq_ok :
    start.add base step = .ok result ↔
      ∃ m, start.snapshot.install .proposed ⟨base + start.payload.length⟩
        (step.object.mapUids start.uids.apply) = .ok m ∧
        result = ⟨start.payload ++ (step.object.mapUids start.uids.apply).encode,
          (step.uid, ⟨base + start.payload.length⟩) :: start.uids, m⟩ := by
  rw [add, bind_eq_ok]
  exact exists_congr fun m => and_congr_right fun _ => ⟨fun h => (Except.ok.inj h).symm,
    fun h => congrArg _ h.symm⟩

theorem payload_of_foldlM (h : steps.foldlM (add base) start = .ok result) :
    result.payload =
      start.payload ++ encoded (placed (base + start.payload.length) start.uids steps) := by
  induction steps generalizing start with
  | nil =>
    cases h
    exact (List.append_nil _).symm
  | cons step steps ih =>
    rw [List.foldlM_cons] at h
    obtain ⟨next, hnext, hrest⟩ := bind_eq_ok.1 h
    obtain ⟨m, _, rfl⟩ := add_eq_ok.1 hnext
    rw [ih hrest, List.append_assoc, List.length_append, ← Nat.add_assoc]
    rfl

theorem builds_of_foldlM (h : steps.foldlM (add base) start = .ok result) :
    Snapshot.Builds (base + start.payload.length) start.snapshot
      (placed (base + start.payload.length) start.uids steps) (base + result.payload.length)
      result.snapshot := by
  induction steps generalizing start with
  | nil =>
    cases h
    exact .refl (Nat.le_refl _)
  | cons step steps ih =>
    rw [List.foldlM_cons] at h
    obtain ⟨next, hnext, hrest⟩ := bind_eq_ok.1 h
    obtain ⟨m, hm, rfl⟩ := add_eq_ok.1 hnext
    have hencode : 0 < (step.object.mapUids start.uids.apply).encode.length := Nat.succ_pos _
    have hfirst :=
      Snapshot.Builds.single (Nat.le_refl _) (Nat.lt_add_of_pos_right hencode) hm m.position
    refine hfirst.trans ?_
    have hbuilds := ih hrest
    rwa [List.length_append, ← Nat.add_assoc] at hbuilds

/-- Placing goes the way of replaying. The invariant is that the snapshot has no identifier at or
behind the next place, so that every placed step has an encoding that can be read back. -/
theorem tiled_of_foldlM (hs : Snapshot.Catalogued (base + start.payload.length) start.snapshot)
    (h : steps.foldlM (add base) start = .ok result)
    (hlimit : base + result.payload.length < Bytes.limit) :
    ∃ objects, Tiled (base + start.payload.length)
      (encoded (placed (base + start.payload.length) start.uids steps)) objects ∧
      objects.map Stored.pair = placed (base + start.payload.length) start.uids steps ∧
      objects.foldlM Snapshot.extend (start.snapshot.endingAt (base + start.payload.length)) =
        .ok (result.snapshot.endingAt (base + result.payload.length)) := by
  induction steps generalizing start with
  | nil =>
    cases h
    exact ⟨[], .nil _, rfl, rfl⟩
  | cons step steps ih =>
    have hpayload := payload_of_foldlM h
    rw [List.foldlM_cons] at h
    obtain ⟨next, hnext, hrest⟩ := bind_eq_ok.1 h
    obtain ⟨m, hm, rfl⟩ := add_eq_ok.1 hnext
    generalize hbase : base + start.payload.length = place at *
    generalize hobject : step.object.mapUids start.uids.apply = object at *
    have hencode : 0 < object.encode.length := Nat.succ_pos _
    have hplace :
        base + (start.payload ++ object.encode).length = place + object.encode.length := by
      rw [List.length_append, ← Nat.add_assoc, hbase]
    have hplaced : placed place start.uids (step :: steps) = (⟨place⟩, object) :: placed
        (place + object.encode.length) ((step.uid, ⟨place⟩) :: start.uids) steps := by
      rw [placed, hobject]
    have hroom : place + object.encode.length < Bytes.limit := by
      rw [hplaced] at hpayload
      have hlength := congrArg List.length hpayload
      rw [encoded, List.flatMap_cons, List.length_append, List.length_append] at hlength
      dsimp only at hlength
      omega
    have hnextCat : Snapshot.Catalogued (place + object.encode.length) m :=
      (hs.install (Nat.le_refl _) hm).mono (Nat.add_le_add_left hencode place)
    obtain ⟨objects, htiled, hpairs, hextend⟩ := ih (hplace ▸ hnextCat) hrest
    dsimp only at htiled hpairs hextend
    rw [hplace] at htiled hpairs hextend
    refine ⟨⟨⟨place⟩, object, place + object.encode.length⟩ :: objects, ?_, ?_, ?_⟩
    · rw [hplaced]
      refine Tiled.append (Tiled.encode (fun u hu => ?_) ?_) htiled
      · have := hs.uids_below hm u hu
        omega
      · show object.encode.length < Bytes.limit
        omega
    · rw [hplaced, List.map_cons, hpairs]
      rfl
    · rw [List.foldlM_cons]
      refine bind_eq_ok.2 ⟨m.endingAt (place + object.encode.length), ?_, hextend⟩
      exact Snapshot.extend_eq_ok.2 ⟨_, Snapshot.install_endingAt hm .committed place, rfl⟩

theorem payload_of_ofSteps (h : ofSteps s steps = .ok result) :
    result.payload = encoded (placed s.position [] steps) :=
  payload_of_foldlM h

theorem builds_of_ofSteps (h : ofSteps s steps = .ok result) :
    Snapshot.Builds s.position s (placed s.position [] steps)
      (s.position + result.payload.length) result.snapshot :=
  builds_of_foldlM h

theorem name_ofSteps (h : ofSteps s steps = .ok result) : result.snapshot.name = s.name := by
  refine foldlM_invariant (I := fun placed : Placement => placed.snapshot.name = s.name) ?_ rfl h
  intro start step next _ hname hadd
  obtain ⟨m, hinstall, rfl⟩ := add_eq_ok.1 hadd
  exact (Snapshot.name_install hinstall).trans hname

/-- What a commit appends, and what replaying it comes to. -/
theorem tiled_of_ofSteps (hs : Snapshot.Catalogued s.position s) (h : ofSteps s steps = .ok result)
    (hlimit : s.position + result.payload.length < Bytes.limit) :
    result.payload = encoded (placed s.position [] steps) ∧
      ∃ objects, Tiled s.position result.payload objects ∧
        objects.map Stored.pair = placed s.position [] steps ∧
        objects.foldlM Snapshot.extend s =
          .ok (result.snapshot.endingAt (s.position + result.payload.length)) := by
  have hpayload := payload_of_ofSteps h
  obtain ⟨objects, htiled, hpairs, hextend⟩ :=
    @tiled_of_foldlM s.position ⟨[], [], s⟩ result steps hs h hlimit
  exact ⟨hpayload, objects, hpayload ▸ htiled, hpairs, hextend⟩

end Placement

end SnapshotStore
