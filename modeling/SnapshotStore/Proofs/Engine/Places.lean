import Mathlib.Data.List.Induction
import SnapshotStore.Proofs.Engine.OwnView
import SnapshotStore.Proofs.Snapshot.Rows

/-!
# Where steps come to stand

The steps of a transaction name what was there when it began and the steps in front of them, and
nothing else. So placing them at the end of a log puts the place of each step for its provisional
identifier and leaves the rest, and what is placed at the ends of two logs differs by a renaming.
-/

namespace SnapshotStore

/-- An identifier in front of `bound` or that of one of the first `count` steps. -/
def Known (bound count : Nat) (u : Uid) : Prop :=
  u.place < bound ∨ ∃ k, k < count ∧ u = .provisional k

/-- Each step names nothing else than what is in front of `bound` and the steps before it. -/
def Scoped (bound : Nat) (steps : List Step) : Prop :=
  ∀ before step after, steps = before ++ step :: after →
    ∀ u ∈ step.object.uids, Known bound before.length u

/-- A renaming that takes each step from its place in one log to its place in another, and keeps
what is in front of `bound`. -/
structure Moves (bound first second : Nat) (steps : List Step) (f : Uid → Uid) : Prop where
  kept : ∀ u : Uid, u.place < bound → f u = u
  moved : ∀ k, k < steps.length → f (stepPlace first steps k) = stepPlace second steps k

variable {bound base first second count more k : Nat} {steps before after : List Step} {step : Step}
  {u : Uid} {uids : Renaming} {front : List (Uid × LogObject)} {f : Uid → Uid}

theorem Known.mono (h : Known bound count u) (hle : count ≤ more) : Known bound more u :=
  h.imp_right fun ⟨k, hk, hu⟩ => ⟨k, Nat.lt_of_lt_of_le hk hle, hu⟩

/-! ### Scopes -/

theorem Scoped.mono (h : Scoped first steps) (hle : first ≤ second) : Scoped second steps :=
  fun before step after hsteps u hu =>
    (h before step after hsteps u hu).imp_left fun hlt => Nat.lt_of_lt_of_le hlt hle

theorem Numbered.uid_of_mem (h : Numbered steps) (hsteps : steps = before ++ after)
    (hstep : step ∈ before) : ∃ k, k < before.length ∧ step.uid = .provisional k := by
  obtain ⟨front, rest, rfl⟩ := List.append_of_mem hstep
  rw [List.append_assoc] at hsteps
  refine ⟨front.length, ?_, h _ _ _ hsteps⟩
  rw [List.length_append, List.length_cons]
  omega

theorem Scoped.known (h : Scoped bound steps) (hstep : step ∈ steps) :
    ∀ u ∈ step.object.uids, Known bound steps.length u := by
  obtain ⟨front, rest, hsteps⟩ := List.append_of_mem hstep
  refine fun u hu => (h _ _ _ hsteps u hu).mono ?_
  rw [hsteps, List.length_append]
  exact Nat.le_add_right _ _

namespace Consistent

variable {name : String} {opened bytes : List UInt8} {w : Session} {handle : Handle}
  {tx : Transaction}

/-- Each step was taken in a snapshot that the steps before it had built. -/
theorem taken_behind (h : Consistent name opened w handle bytes) (htx : tx ∈ w.transactions)
    (hroom : bytes.length ≤ Uid.provisionalBase) (hsteps : tx.steps = before ++ step :: after) :
    ∃ mid m standing m', Snapshot.Builds tx.rollbackPoint.position tx.rollbackPoint
      (before.map Step.pair) mid m ∧ m.install standing step.uid step.object = .ok m' := by
  obtain ⟨hbegun, hsound⟩ := h.begun tx htx
  have hbuilds := hsound (Nat.le_trans (h.position_le hbegun) hroom)
  rw [hsteps, List.map_append, List.map_cons] at hbuilds
  obtain ⟨mid, m, standing, m', hfront, _, hinstall⟩ := hbuilds.split rfl
  exact ⟨mid, m, standing, m', hfront, hinstall⟩

theorem steps_scoped (h : Consistent name opened w handle bytes) (htx : tx ∈ w.transactions)
    (hnumbered : Numbered tx.steps) (hroom : bytes.length ≤ Uid.provisionalBase) :
    Scoped tx.rollbackPoint.position tx.steps := by
  intro before step after hsteps u hu
  obtain ⟨_, _, _, _, hbuilds, hinstall⟩ := h.taken_behind htx hroom hsteps
  have hstart := (h.reflects _ (h.begun tx htx).1).catalogued
  refine (hbuilds.known_uids hstart hinstall u hu).imp_right ?_
  rintro ⟨o, ho, rfl⟩
  obtain ⟨earlier, hearlier, rfl⟩ := List.mem_map.1 ho
  exact hnumbered.uid_of_mem hsteps hearlier

end Consistent

/-! ### Placing as renaming -/

theorem relocated_of_lt (hu : u.place < bound) (hbound : bound ≤ Uid.provisionalBase) :
    relocated base steps u = u :=
  if_neg fun h => absurd h.1 (Nat.not_le.2 (Nat.lt_of_lt_of_le hu hbound))

theorem relocated_provisional (hk : k < steps.length) :
    relocated base steps (.provisional k) = stepPlace base steps k :=
  (Relocates.of_step hk).2.symm

theorem Known.relocates (h : Known bound steps.length u) (hbase : bound ≤ base) :
    Relocates base steps u (relocated base steps u) := by
  refine ⟨h.imp (Nat.lt_of_lt_of_le · hbase) ?_, rfl⟩
  rintro ⟨k, hk, rfl⟩
  exact ⟨Nat.le_add_right _ _, Nat.add_lt_add_left hk _⟩

/-- What the steps know stays apart where it comes to stand. -/
theorem relocated_inj {v : Uid} (hbase : bound ≤ base) (hroom : base ≤ Uid.provisionalBase)
    (hu : Known bound steps.length u) (hv : Known bound steps.length v)
    (h : relocated base steps u = relocated base steps v) : u = v := by
  have hcompare := Relocates.comparesAlike hroom _ _ _ _ (hu.relocates hbase) (hv.relocates hbase)
  rw [h, Std.ReflOrd.compare_self] at hcompare
  exact Std.LawfulEqOrd.eq_of_compare hcompare

/-- Where a step stands is decided by what stands in front of it. -/
theorem stepPlace_of_placed (hplaced : placed base [] steps = front ++ placed first uids after)
    (hk : front.length = k) : stepPlace base steps k = ⟨base + (encoded front).length⟩ := by
  rw [stepPlace, hplaced, ← hk, List.take_left']
  rfl

/-- A renaming for the steps up to one of them, and then for this one, too. -/
theorem apply_cons_eq_relocated {place : Uid}
    (hplace : relocated base steps (.provisional k) = place)
    (huids : ∀ u, Known bound k u → uids.apply u = relocated base steps u) :
    ∀ u, Known bound (k + 1) u →
      Renaming.apply ((.provisional k, place) :: uids) u = relocated base steps u := by
  intro u hu
  by_cases heq : u = .provisional k
  · rw [heq, Renaming.apply, List.lookup_cons_self, Option.getD_some, hplace]
  · have hearlier : Known bound k u := by
      refine hu.imp_right ?_
      rintro ⟨j, hj, hprovisional⟩
      refine ⟨j, ?_, hprovisional⟩
      have hne : j ≠ k := fun hjk => heq (hprovisional.trans (congrArg Uid.provisional hjk))
      omega
    rw [← huids u hearlier, Renaming.apply, List.lookup_cons, beq_false_of_ne heq]
    rfl

/-- The steps behind the first ones, in front of which `uids` renames as all of them do. -/
theorem placed_behind (hnumbered : Numbered steps) (hscoped : Scoped bound steps)
    (hplaced : placed base [] steps = front ++ placed (base + (encoded front).length) uids after)
    (hsteps : steps = before ++ after) (hlength : front.length = before.length)
    (huids : ∀ u, Known bound before.length u → uids.apply u = relocated base steps u) :
    placed (base + (encoded front).length) uids after =
      after.map fun step => relabel (relocated base steps) step.pair := by
  induction after generalizing before front uids with
  | nil => rfl
  | cons step after ih =>
    have hcount : before.length < steps.length := by
      rw [hsteps, List.length_append, List.length_cons]
      omega
    have huid : step.uid = .provisional before.length := hnumbered _ _ _ hsteps
    have hplace : relocated base steps step.uid = ⟨base + (encoded front).length⟩ := by
      rw [huid, relocated_provisional hcount, stepPlace_of_placed hplaced hlength]
    have hobject : step.object.mapUids uids.apply =
        step.object.mapUids (relocated base steps) :=
      LogObject.mapUids_congr fun u hu => huids u (hscoped _ _ _ hsteps u hu)
    rw [placed] at hplaced ⊢
    generalize hstored : step.object.mapUids uids.apply = object at *
    generalize hposition : (⟨base + (encoded front).length⟩ : Uid) = place at *
    have hbehind : base + (encoded front).length + object.encode.length =
        base + (encoded (front ++ [(place, object)])).length := by
      have hone : encoded [(place, object)] = object.encode := List.append_nil _
      rw [encoded_append, List.length_append, hone, ← Nat.add_assoc]
    rw [hbehind] at hplaced ⊢
    have hplaced' : placed base [] steps = (front ++ [(place, object)]) ++
        placed (base + (encoded (front ++ [(place, object)])).length) ((step.uid, place) :: uids)
          after := by
      rw [hplaced, List.append_assoc]
      rfl
    have hsteps' : steps = (before ++ [step]) ++ after := by
      rw [hsteps, List.append_assoc]
      rfl
    have hlength' : (front ++ [(place, object)]).length = (before ++ [step]).length := by
      rw [List.length_append, List.length_append, hlength]
      rfl
    have huids' : ∀ u, Known bound (before ++ [step]).length u →
        Renaming.apply ((step.uid, place) :: uids) u = relocated base steps u := by
      rw [List.length_append, List.length_singleton, huid]
      exact apply_cons_eq_relocated (huid ▸ hplace) huids
    rw [List.map_cons, ih hplaced' hsteps' hlength' huids']
    exact congrArg (· :: _) (Prod.ext hplace.symm hobject)

/-- Placing the steps puts their places for their provisional identifiers. -/
theorem placed_eq_map (hnumbered : Numbered steps) (hscoped : Scoped bound steps)
    (hbound : bound ≤ Uid.provisionalBase) (base : Nat) :
    placed base [] steps = steps.map fun step => relabel (relocated base steps) step.pair := by
  refine @placed_behind bound base steps [] steps [] [] hnumbered hscoped rfl rfl rfl
    fun u hu => ?_
  rcases hu with hu | ⟨_, hk, _⟩
  · exact (relocated_of_lt hu hbound).symm
  · exact absurd hk (Nat.not_lt_zero _)

/-- What is placed is a step with its references renamed. -/
theorem exists_step_of_placed (hnumbered : Numbered steps) (hscoped : Scoped bound steps)
    (hbound : bound ≤ Uid.provisionalBase) (ho : o ∈ placed base [] steps) :
    ∃ step ∈ steps, ∃ k, k < steps.length ∧ step.uid = .provisional k ∧
      o.1 = stepPlace base steps k ∧ o.2 = step.object.mapUids (relocated base steps) := by
  rw [placed_eq_map hnumbered hscoped hbound] at ho
  obtain ⟨step, hstep, rfl⟩ := List.mem_map.1 ho
  obtain ⟨k, hk, huid⟩ := hnumbered.uid_of_mem (List.append_nil steps).symm hstep
  exact ⟨step, hstep, k, hk, huid, by rw [← relocated_provisional hk, ← huid]; rfl, rfl⟩

/-- What the steps have in common under any identifiers, the placed objects have in common. -/
theorem forall_placed {P : LogObject → Prop} (hP : ∀ f object, P object → P (object.mapUids f))
    (hnumbered : Numbered steps) (hscoped : Scoped bound steps)
    (hbound : bound ≤ Uid.provisionalBase) (h : ∀ step ∈ steps, P step.object) :
    ∀ o ∈ placed base [] steps, P o.2 := by
  intro o ho
  obtain ⟨step, hstep, _, _, _, _, hobject⟩ := exists_step_of_placed hnumbered hscoped hbound ho
  rw [hobject]
  exact hP _ _ (h step hstep)

theorem Moves.relocated (h : Moves bound first second steps f)
    (hbound : bound ≤ Uid.provisionalBase) (hu : Known bound steps.length u) :
    f (relocated first steps u) = relocated second steps u := by
  rcases hu with hu | ⟨k, hk, rfl⟩
  · rw [relocated_of_lt hu hbound, relocated_of_lt hu hbound, h.kept u hu]
  · rw [relocated_provisional hk, relocated_provisional hk, h.moved k hk]

/-- Steps that are placed at the ends of two logs differ by the renaming of their places. -/
theorem Moves.placed_eq (h : Moves bound first second steps f) (hnumbered : Numbered steps)
    (hscoped : Scoped bound steps) (hbound : bound ≤ Uid.provisionalBase) :
    placed second [] steps = (placed first [] steps).map (relabel f) := by
  rw [placed_eq_map hnumbered hscoped hbound, placed_eq_map hnumbered hscoped hbound, List.map_map]
  refine List.map_congr_left fun step hstep => ?_
  obtain ⟨k, hk, huid⟩ := hnumbered.uid_of_mem (List.append_nil steps).symm hstep
  refine Prod.ext ?_ ?_
  · exact (h.relocated hbound (.inr ⟨k, hk, huid⟩)).symm
  · refine Eq.trans ?_ (LogObject.mapUids_mapUids _ _).symm
    exact LogObject.mapUids_congr fun u hu => (h.relocated hbound (hscoped.known hstep u hu)).symm

/-! ### Placing one step after the other -/

namespace Placement

variable {s : Snapshot} {p p' : Placement}

theorem exists_of_ofSteps_concat (h : ofSteps s (before ++ [step]) = .ok p') :
    ∃ p m, ofSteps s before = .ok p ∧
      p.snapshot.install .proposed ⟨s.position + p.payload.length⟩
        (step.object.mapUids p.uids.apply) = .ok m ∧
      p' = ⟨p.payload ++ (step.object.mapUids p.uids.apply).encode,
        (step.uid, ⟨s.position + p.payload.length⟩) :: p.uids, m⟩ := by
  rw [ofSteps, List.foldlM_append] at h
  obtain ⟨p, hp, h⟩ := bind_eq_ok.1 h
  rw [List.foldlM_cons] at h
  obtain ⟨_, hadd, h⟩ := bind_eq_ok.1 h
  cases h
  obtain ⟨m, hm, rfl⟩ := add_eq_ok.1 hadd
  exact ⟨p, m, hp, hm, rfl⟩

/-- The next step comes to stand behind those that have been placed. -/
theorem end_ofSteps (hp : ofSteps s before = .ok p) (hsteps : steps = before ++ after) :
    (⟨s.position + p.payload.length⟩ : Uid) = stepPlace s.position steps before.length := by
  rw [hsteps, stepPlace_append, payload_of_ofSteps hp]

theorem apply_uids (hnumbered : Numbered steps) (hbound : bound ≤ Uid.provisionalBase)
    (hp : ofSteps s before = .ok p) (hsteps : steps = before ++ after) :
    ∀ u, Known bound before.length u → p.uids.apply u = relocated s.position steps u := by
  induction before using List.reverseRecOn generalizing after p with
  | nil =>
    cases hp
    rintro u (hu | ⟨_, hk, _⟩)
    · exact (relocated_of_lt hu hbound).symm
    · exact absurd hk (Nat.not_lt_zero _)
  | append_singleton before step ih =>
    rw [List.append_assoc, List.singleton_append] at hsteps
    obtain ⟨q, m, hq, _, rfl⟩ := exists_of_ofSteps_concat hp
    have hlength : before.length < steps.length := by
      rw [hsteps, List.length_append, List.length_cons]
      omega
    rw [List.length_append, List.length_singleton, hnumbered _ _ _ hsteps]
    refine apply_cons_eq_relocated ?_ (ih hq hsteps)
    rw [relocated_provisional hlength, end_ofSteps hq hsteps]

end Placement

/-! ### Renamings of places -/

/-- The places of steps in one log, with those in another. -/
def movedSteps (first second : Nat) (steps : List Step) : Renaming :=
  (List.range steps.length).map fun k => (stepPlace first steps k, stepPlace second steps k)

theorem stepPlace_inj {j : Nat} (hj : j < steps.length) (hk : k < steps.length)
    (h : stepPlace base steps j = stepPlace base steps k) : j = k := by
  rcases Nat.lt_trichotomy j k with hlt | heq | hgt
  · exact absurd (congrArg Uid.place h) (Nat.ne_of_lt (stepPlace_lt hlt (Nat.le_of_lt hk)))
  · exact heq
  · exact absurd (congrArg Uid.place h).symm (Nat.ne_of_lt (stepPlace_lt hgt (Nat.le_of_lt hj)))

theorem le_stepPlace : base ≤ (stepPlace base steps k).place := Nat.le_add_right _ _

theorem stepPlace_lt_end (hk : k < steps.length) :
    (stepPlace base steps k).place < base + (encoded (placed base [] steps)).length := by
  have hend : stepPlace base steps steps.length =
      ⟨base + (encoded (placed base [] steps)).length⟩ := by
    rw [stepPlace, List.take_of_length_le (Nat.le_of_eq length_placed)]
  have hlt : (stepPlace base steps k).place < (stepPlace base steps steps.length).place :=
    stepPlace_lt hk (Nat.le_refl _)
  rwa [hend] at hlt

theorem lookup_movedSteps (hk : k < steps.length) :
    (movedSteps first second steps).lookup (stepPlace first steps k) =
      some (stepPlace second steps k) := by
  have hlist : ∀ ks : List Nat, (∀ j ∈ ks, j < steps.length) → k ∈ ks →
      (ks.map fun k => (stepPlace first steps k, stepPlace second steps k)).lookup
        (stepPlace first steps k) = some (stepPlace second steps k) := by
    intro ks hks hmem
    induction ks with
    | nil => exact absurd hmem List.not_mem_nil
    | cons j ks ih =>
      obtain ⟨hj, hks⟩ := List.forall_mem_cons.1 hks
      by_cases heq : k = j
      · rw [heq, List.map_cons, List.lookup_cons_self]
      · have hne : stepPlace first steps k ≠ stepPlace first steps j := fun h =>
          heq (stepPlace_inj hk hj h)
        rw [List.map_cons, List.lookup_cons, beq_false_of_ne hne]
        exact ih hks (List.mem_of_ne_of_mem heq hmem)
  exact hlist _ (fun j hj => List.mem_range.1 hj) (List.mem_range.2 hk)

theorem lookup_movedSteps_eq_none (h : ∀ k, k < steps.length → stepPlace first steps k ≠ u) :
    (movedSteps first second steps).lookup u = none := by
  refine List.lookup_eq_none_iff.2 fun pair hpair => ?_
  obtain ⟨k, hk, rfl⟩ := List.mem_map.1 hpair
  exact bne_iff_ne.2 (h k (List.mem_range.1 hk)).symm

theorem moves_movedSteps (hbound : bound ≤ first) :
    Moves bound first second steps (movedSteps first second steps).apply where
  kept := fun u hu => by
    rw [Renaming.apply, lookup_movedSteps_eq_none, Option.getD_none]
    rintro k _ rfl
    exact absurd le_stepPlace (Nat.not_le.2 (Nat.lt_of_lt_of_le hu hbound))
  moved := fun k hk => by rw [Renaming.apply, lookup_movedSteps hk, Option.getD_some]

end SnapshotStore
