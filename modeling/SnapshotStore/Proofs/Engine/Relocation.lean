import SnapshotStore.Proofs.Alike.Building
import SnapshotStore.Proofs.Alike.Renaming
import SnapshotStore.Proofs.Engine.History

/-!
# From provisional identifiers to places

A commit takes the steps of a transaction once more, this time at their places in the log. Going
from provisional identifiers to places keeps their order: what is there already stays in front, and
the steps stand one behind the other. So the steps fit the published snapshot as they have fitted
the view, and what they lead to is the view under the new identifiers.
-/

namespace SnapshotStore

/-- Where step `n` comes to stand if the log ends at `position`. -/
def stepPlace (position : Nat) (steps : List Step) (n : Nat) : Uid :=
  ⟨position + (encoded ((placed position [] steps).take n)).length⟩

/-- The provisional identifier of each step becomes the place of the step; any other one stays. -/
def relocated (position : Nat) (steps : List Step) (u : Uid) : Uid :=
  if Uid.provisionalBase ≤ u.place ∧ u.place < Uid.provisionalBase + steps.length then
    stepPlace position steps (u.place - Uid.provisionalBase)
  else u

/-- Identifiers that are there already or belong to a step, with what they become. -/
def Relocates (position : Nat) (steps : List Step) (u u' : Uid) : Prop :=
  (u.place < position ∨
    Uid.provisionalBase ≤ u.place ∧ u.place < Uid.provisionalBase + steps.length) ∧
    u' = relocated position steps u

variable {base position : Nat} {uids : Renaming} {steps before after : List Step} {u u' : Uid}
  {j k : Nat}

/-! ### Places -/

theorem encoded_append (objects more : List (Uid × LogObject)) :
    encoded (objects ++ more) = encoded objects ++ encoded more :=
  List.flatMap_append

theorem length_placed : (placed base uids steps).length = steps.length := by
  induction steps generalizing base uids with
  | nil => rfl
  | cons step steps ih => rw [placed, List.length_cons, List.length_cons, ih]

theorem placed_prefix_append :
    placed base uids before <+: placed base uids (before ++ after) := by
  induction before generalizing base uids with
  | nil => exact List.nil_prefix
  | cons step before ih => exact (List.prefix_cons_inj _).2 ih

/-- Where a step stands is decided by the steps in front of it. -/
theorem stepPlace_append :
    stepPlace position (before ++ after) before.length =
      ⟨position + (encoded (placed position [] before)).length⟩ := by
  have htake := List.prefix_iff_eq_take.1 (@placed_prefix_append position [] before after)
  rw [stepPlace, ← length_placed, ← htake]

theorem stepPlace_lt (hjk : j < k) (hk : k ≤ steps.length) :
    (stepPlace position steps j).place < (stepPlace position steps k).place := by
  rw [stepPlace, stepPlace]
  generalize hobjects : placed position [] steps = objects
  have hlength : objects.length = steps.length := hobjects ▸ length_placed
  obtain ⟨n, rfl⟩ : ∃ n, k = j + (n + 1) := ⟨k - j - 1, by omega⟩
  rw [List.take_add, encoded_append, List.length_append]
  have hnext : objects.drop j ≠ [] := by
    intro hnil
    have := List.drop_eq_nil_iff.1 hnil
    omega
  obtain ⟨object, rest, hrest⟩ := List.exists_cons_of_ne_nil hnext
  have hencode : 0 < object.2.encode.length := Nat.succ_pos _
  rw [hrest, List.take_succ_cons, encoded, encoded, List.flatMap_cons, List.length_append]
  dsimp only
  omega

/-! ### The relocation -/

namespace Relocates

theorem follows : Follows (Relocates position steps) (relocated position steps) :=
  fun _ _ h => h.2

theorem of_step (hk : k < steps.length) :
    Relocates position steps (.provisional k) (stepPlace position steps k) := by
  have hplace : (Uid.provisional k).place = Uid.provisionalBase + k := rfl
  refine ⟨.inr (by omega), ?_⟩
  rw [relocated, if_pos (by omega), hplace, Nat.add_sub_cancel_left]

variable (hroom : position ≤ Uid.provisionalBase)
include hroom

theorem of_lt (hu : u.place < position) : Relocates position steps u u := by
  refine ⟨.inl hu, ?_⟩
  rw [relocated, if_neg]
  omega

/-- An identifier is either there already or that of a step. -/
theorem cases (h : Relocates position steps u u') :
    u.place < position ∧ u' = u ∨
      ∃ k, k < steps.length ∧ u = .provisional k ∧ u' = stepPlace position steps k := by
  obtain ⟨hold | ⟨hbase, hlast⟩, rfl⟩ := h
  · exact .inl ⟨hold, ((of_lt hroom hold).2).symm⟩
  · have hu : u = .provisional (u.place - Uid.provisionalBase) :=
      congrArg Uid.mk (Nat.add_sub_cancel' hbase).symm
    refine .inr ⟨_, by omega, hu, ?_⟩
    rw [relocated, if_pos ⟨hbase, hlast⟩]

theorem lt_of_lt {v v' : Uid} (hu : Relocates position steps u u')
    (hv : Relocates position steps v v') (hlt : u.place < v.place) : u'.place < v'.place := by
  rcases hu.cases hroom with ⟨hu, rfl⟩ | ⟨j, hj, rfl, rfl⟩ <;>
    rcases hv.cases hroom with ⟨hv, rfl⟩ | ⟨k, hk, rfl, rfl⟩
  · exact hlt
  · exact Nat.lt_of_lt_of_le hu (Nat.le_add_right _ _)
  · have : Uid.provisionalBase + j < v'.place := hlt
    omega
  · exact stepPlace_lt (Nat.lt_of_add_lt_add_left hlt) (Nat.le_of_lt hk)

theorem comparesAlike : ComparesAlike (Relocates position steps) := by
  intro u u' v v' hu hv
  rcases Nat.lt_trichotomy u.place v.place with hlt | heq | hgt
  · exact (Nat.compare_eq_lt.2 hlt).trans (Nat.compare_eq_lt.2 (lt_of_lt hroom hu hv hlt)).symm
  · have huv : u = v := congrArg Uid.mk heq
    subst huv
    rw [hu.2, hv.2]
    exact (Nat.compare_eq_eq.2 rfl).trans (Nat.compare_eq_eq.2 rfl).symm
  · exact (Nat.compare_eq_gt.2 hgt).trans (Nat.compare_eq_gt.2 (lt_of_lt hroom hv hu hgt)).symm

end Relocates

/-! ### Placing the steps -/

/-- The steps are numbered from 0 on. -/
def Numbered (steps : List Step) : Prop :=
  ∀ before step after, steps = before ++ step :: after → step.uid = .provisional before.length

theorem Placement.ofSteps_concat {s m : Snapshot} {p : Placement} {step : Step}
    (hp : ofSteps s before = .ok p)
    (hm : p.snapshot.install .proposed ⟨s.position + p.payload.length⟩
      (step.object.mapUids p.uids.apply) = .ok m) :
    ofSteps s (before ++ [step]) =
      .ok ⟨p.payload ++ (step.object.mapUids p.uids.apply).encode,
        (step.uid, ⟨s.position + p.payload.length⟩) :: p.uids, m⟩ := by
  rw [ofSteps, List.foldlM_append]
  refine bind_eq_ok.2 ⟨p, hp, ?_⟩
  rw [List.foldlM_cons]
  exact bind_eq_ok.2 ⟨_, add_eq_ok.2 ⟨m, hm, rfl⟩, rfl⟩

/-- The steps that have built a view can be placed, and what they lead to is the view with other
identifiers. The induction is on the steps; the relocation is that of all of them from the start,
and what has been placed so far renames as it says. -/
theorem Snapshot.Builds.placed_alike {s view : Snapshot} {objects : List (Uid × LogObject)}
    {last : Nat} (hroom : s.position ≤ Uid.provisionalBase) (hs : Catalogued s.position s)
    (hself : s.Alike (Relocates s.position steps) s) (hnumbered : Numbered steps)
    (h : Builds s.position s objects last view) (hobjects : objects = before.map Step.pair)
    (hsteps : steps = before ++ after) :
    ∃ p, Placement.ofSteps s before = .ok p ∧
      view.Alike (Relocates s.position steps) p.snapshot ∧
      ∀ u u', Relocates s.position steps u u' → u.place < Uid.provisionalBase + before.length →
        p.uids.apply u = u' := by
  have hR : ComparesAlike (Relocates s.position steps) := Relocates.comparesAlike hroom
  induction h generalizing before after with
  | refl =>
    cases List.map_eq_nil_iff.1 hobjects.symm
    refine ⟨⟨[], [], s⟩, rfl, hself, fun u u' hu hbelow => ?_⟩
    rcases hu.cases hroom with ⟨_, rfl⟩ | ⟨k, _, rfl, _⟩
    · rfl
    · exact absurd hbelow (Nat.not_lt.2 (Nat.le_add_right _ k))
  | @step objects mid last m m' standing uid object h hfresh hlast hinstall position ih =>
    obtain ⟨before, rest, rfl, rfl, hrest⟩ := List.map_eq_append_iff.1 hobjects.symm
    obtain ⟨step, rfl, hstep⟩ := List.map_eq_singleton_iff.1 hrest
    obtain ⟨rfl, rfl⟩ : step.uid = uid ∧ step.object = object := Prod.mk.inj hstep
    rw [List.append_assoc, List.singleton_append] at hsteps
    obtain ⟨p, hp, halike, hrenames⟩ := ih rfl hsteps
    have huid : step.uid = .provisional before.length := hnumbered _ _ _ hsteps
    have hpayload := Placement.payload_of_ofSteps hp
    have hplace : Relocates s.position steps step.uid ⟨s.position + p.payload.length⟩ := by
      have hlength : before.length < steps.length := by
        rw [hsteps, List.length_append, List.length_cons]
        omega
      have hstep : Relocates s.position steps (.provisional before.length)
          (stepPlace s.position steps before.length) := Relocates.of_step hlength
      rwa [huid, hpayload, ← stepPlace_append, ← hsteps]
    have hobject : step.object.Alike (Relocates s.position steps)
        (step.object.mapUids p.uids.apply) := by
      refine LogObject.alike_mapUids fun u hu => ?_
      obtain ⟨u', hu'⟩ := halike.partners (h.catalogued hs) hinstall u hu
      have hbelow := (h.catalogued hs).uids_below hinstall u hu
      rw [huid] at hfresh
      rwa [hrenames u u' hu' (Nat.lt_of_lt_of_le hbelow hfresh)]
    obtain ⟨m'', hm'', halike'⟩ := (install_alike hR halike hplace hobject).exists_ok hinstall
    refine ⟨_, Placement.ofSteps_concat hp hm'', halike'.endingAt position m''.position, ?_⟩
    intro u u' hu hbelow
    by_cases heq : u = step.uid
    · subst heq
      rw [Renaming.apply, List.lookup_cons_self, Option.getD_some, hu.2, hplace.2]
    · have hearlier : u.place < Uid.provisionalBase + before.length := by
        rw [List.length_append, List.length_singleton] at hbelow
        have hne : u.place ≠ Uid.provisionalBase + before.length := fun hplace =>
          heq (huid ▸ congrArg Uid.mk hplace)
        omega
      rw [← hrenames u u' hu hearlier, Renaming.apply, List.lookup_cons, beq_false_of_ne heq]
      rfl

end SnapshotStore
