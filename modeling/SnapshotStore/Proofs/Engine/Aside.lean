import SnapshotStore.Proofs.Engine.Places
import SnapshotStore.Proofs.Snapshot.Identifiers
import SnapshotStore.Proofs.Snapshot.Unrelated

/-!
# Steps that keep aside

Steps that name none of some tables, nor a table that a foreign key links with one of them, can be
placed at the ends of two logs alike if the snapshots there differ in the rows of these tables only.
What they lead to differs in these rows and in the places of the steps.
-/

namespace SnapshotStore

open Snapshot

variable {bound base first second last : Nat} {tables : List Uid} {steps before after : List Step}
  {step : Step} {s m : Snapshot} {u v : Uid} {d : IndexDefinition} {object : LogObject}
  {o : Uid × LogObject} {p : Placement}

namespace LogObject

theorem tables_mapUids (f : Uid → Uid) (object : LogObject) :
    (object.mapUids f).tables = object.tables.map f := by
  cases object with
  | drop target parent => cases parent <;> rfl
  | newIndex d =>
    obtain ⟨table, primary, columns, references⟩ := d
    cases references <;> rfl
  | _ => rfl

theorem mem_uids_of_mem_tables (h : u ∈ object.tables) : u ∈ object.uids := by
  cases object with
  | newTable => exact absurd h List.not_mem_nil
  | newIndex d =>
    refine (List.mem_cons.1 h).elim (fun h => h ▸ List.mem_cons_self) fun h => ?_
    exact List.mem_cons_of_mem _ (List.mem_append_right _ h)
  | drop => exact h
  | newColumn | record | update | delete | alter | dropIndex =>
    exact List.mem_singleton.1 h ▸ List.mem_cons_self

end LogObject

/-! ### Two logs -/

/-- What an identifier that the steps name becomes at the ends of two logs. -/
def Counterpart (bound first second : Nat) (steps : List Step) (u u' : Uid) : Prop :=
  ∃ w, Known bound steps.length w ∧ u = relocated first steps w ∧ u' = relocated second steps w

namespace Counterpart

variable (hfirst : bound ≤ first) (hsecond : bound ≤ second)

include hfirst hsecond in
theorem comparesAlike (hroom : first ≤ Uid.provisionalBase)
    (hroom' : second ≤ Uid.provisionalBase) :
    ComparesAlike (Counterpart bound first second steps) := by
  rintro _ _ _ _ ⟨u, hu, rfl, rfl⟩ ⟨v, hv, rfl, rfl⟩
  have hfront := Relocates.comparesAlike hroom _ _ _ _ (hu.relocates hfirst) (hv.relocates hfirst)
  exact hfront.symm.trans
    (Relocates.comparesAlike hroom' _ _ _ _ (hu.relocates hsecond) (hv.relocates hsecond))

theorem of_lt (hbound : bound ≤ Uid.provisionalBase) (hu : u.place < bound) :
    Counterpart bound first second steps u u :=
  ⟨u, .inl hu, (relocated_of_lt hu hbound).symm, (relocated_of_lt hu hbound).symm⟩

theorem follows {f : Uid → Uid} (hbound : bound ≤ Uid.provisionalBase)
    (hf : Moves bound first second steps f) : Follows (Counterpart bound first second steps) f := by
  rintro _ _ ⟨w, hw, rfl, rfl⟩
  exact (hf.relocated hbound hw).symm

end Counterpart

/-! ### Tables that are kept away from -/

/-- Whether an identifier is that of one of the tables. -/
def among (tables : List Uid) (u : Uid) : Bool := decide (u ∈ tables)

theorem among_eq_false : among tables u = false ↔ u ∉ tables := decide_eq_false_iff_not

/-- Steps that name neither one of some old tables nor one that a foreign key of the snapshot links
with these. -/
structure Aside (bound : Nat) (tables : List Uid) (steps : List Step) (s : Snapshot) : Prop where
  below : ∀ u ∈ tables, u.place < bound
  definitions : ∀ v d, s.links v = some (.index d) →
    ∀ u ∈ (LogObject.newIndex d).tables, u.place < bound
  apart : ∀ step ∈ steps, s.Apart (among tables) step.object.tables

namespace Aside

variable (h : Aside bound tables steps s)
include h

theorem congr (hlinks : m.links = s.links) : Aside bound tables steps m :=
  ⟨h.below, fun v d hd => h.definitions v d (hlinks ▸ hd),
    fun step hstep => (h.apart step hstep).congr hlinks⟩

theorem shown_of_le (hu : bound ≤ u.place) : among tables u = false :=
  among_eq_false.2 fun hmem => absurd (h.below u hmem) (Nat.not_lt.2 hu)

theorem among_counterpart {u' : Uid} (hbound : bound ≤ Uid.provisionalBase)
    (hfirst : bound ≤ first) (hsecond : bound ≤ second)
    (hu : Counterpart bound first second steps u u') : among tables u = among tables u' := by
  obtain ⟨w, hlt | ⟨k, hk, rfl⟩, rfl, rfl⟩ := hu
  · rw [relocated_of_lt hlt hbound, relocated_of_lt hlt hbound]
  · rw [relocated_provisional hk, relocated_provisional hk,
      h.shown_of_le (Nat.le_trans hfirst le_stepPlace),
      h.shown_of_le (Nat.le_trans hsecond le_stepPlace)]

variable (hscoped : Scoped bound steps) (hbound : bound ≤ Uid.provisionalBase)
  (hbase : bound ≤ base)
include hscoped hbound hbase

omit h in
/-- A table that a placed step names was named by the step or is a step itself. -/
theorem named_of_relocated (hstep : step ∈ steps)
    (hu : u ∈ (step.object.mapUids (relocated base steps)).tables) :
    u ∈ step.object.tables ∨ bound ≤ u.place := by
  rw [LogObject.tables_mapUids] at hu
  obtain ⟨w, hw, rfl⟩ := List.mem_map.1 hu
  rcases hscoped.known hstep w (LogObject.mem_uids_of_mem_tables hw) with hlt | ⟨k, hk, rfl⟩
  · rw [relocated_of_lt hlt hbound]
    exact .inl hw
  · rw [relocated_provisional hk]
    exact .inr (Nat.le_trans hbase le_stepPlace)

theorem shown (hstep : step ∈ steps)
    (hu : u ∈ (step.object.mapUids (relocated base steps)).tables) : among tables u = false := by
  rcases named_of_relocated hscoped hbound hbase hstep hu with hnamed | hle
  · exact (h.apart step hstep).shown u hnamed
  · exact h.shown_of_le hle

variable (hnumbered : Numbered steps)
include hnumbered

theorem shown_of_placed (ho : o ∈ placed base [] steps) (hu : u ∈ o.2.tables) :
    among tables u = false := by
  obtain ⟨step, hstep, _, _, _, _, hobject⟩ := exists_step_of_placed hnumbered hscoped hbound ho
  exact h.shown hscoped hbound hbase hstep (hobject ▸ hu)

/-- The steps in front of a step link none of the tables with one that it names. -/
theorem apart_placed (hs : Catalogued base s)
    (hbuilds : Builds base s (placed base [] before) last m)
    (hsteps : steps = before ++ step :: after) :
    m.Apart (among tables) (step.object.mapUids (relocated base steps)).tables := by
  have hstep : step ∈ steps := hsteps ▸ List.mem_append_right _ List.mem_cons_self
  -- An index was there from the start, where it names old tables only, or it is one of the steps.
  have hindex : ∀ {v d}, m.links v = some (.index d) → s.links v = some (.index d) ∨
      ∀ u ∈ (LogObject.newIndex d).tables, among tables u = false := by
    intro v d hd
    obtain ⟨x, hx, rfl⟩ := links_eq_index hd
    rcases hbuilds.index_origin hs (index?_eq_some.2 hx) with ⟨x₀, hx₀, hdefinition⟩ | hmem
    · rw [hdefinition]
      exact .inl (links_of_get? (index?_eq_some.1 hx₀))
    · have hplaced := (hsteps ▸ placed_prefix_append).subset hmem
      exact .inr fun u hu => h.shown_of_placed hscoped hbound hbase hnumbered hplaced hu
  have hnamed : ∀ {v d u}, s.links v = some (.index d) → u ∈ (LogObject.newIndex d).tables →
      u ∈ (step.object.mapUids (relocated base steps)).tables → u ∈ step.object.tables := by
    intro v d u hd hu hmem
    refine (named_of_relocated hscoped hbound hbase hstep hmem).resolve_right fun hle => ?_
    exact absurd (h.definitions v d hd u hu) (Nat.not_lt.2 hle)
  have htarget : ∀ {d : IndexDefinition} {target}, d.references = some target →
      target ∈ (LogObject.newIndex d).tables := fun hreferences =>
    List.mem_cons_of_mem _ (Option.mem_toList.2 hreferences)
  refine ⟨fun u hu => h.shown hscoped hbound hbase hstep hu, ?_, ?_⟩
  · intro v d target hd hreferences hmem
    rcases hindex hd with hold | hnew
    · exact (h.apart step hstep).referring v d target hold hreferences
        (hnamed hold List.mem_cons_self hmem)
    · exact hnew target (htarget hreferences)
  · intro v d target hd hreferences hmem
    rcases hindex hd with hold | hnew
    · exact (h.apart step hstep).referred v d target hold hreferences
        (hnamed hold (htarget hreferences) hmem)
    · exact hnew d.table List.mem_cons_self

end Aside

/-! ### Placing -/

section

variable (hscoped : Scoped bound steps) (hbound : bound ≤ Uid.provisionalBase)
  (hnumbered : Numbered steps)
include hscoped hbound hnumbered

/-- The next step is placed as it would be without the rows of the tables. -/
theorem Aside.install_next (h : Aside bound tables steps s) (hbase : bound ≤ s.position)
    (hs : Catalogued s.position s) (hp : Placement.ofSteps s before = .ok p)
    (hsteps : steps = before ++ step :: after) :
    Agree (ShownAs (among tables))
      (p.snapshot.install .proposed ⟨s.position + p.payload.length⟩
        (step.object.mapUids p.uids.apply))
      ((p.snapshot.withoutRows (among tables)).install .proposed
        (stepPlace s.position steps before.length)
        (step.object.mapUids (relocated s.position steps))) := by
  have huids := Placement.apply_uids hnumbered hbound hp hsteps
  have hobject : step.object.mapUids p.uids.apply =
      step.object.mapUids (relocated s.position steps) :=
    LogObject.mapUids_congr fun u hu => huids u (hscoped _ _ _ hsteps u hu)
  have hbuilds := Placement.builds_of_ofSteps hp
  have hapart := h.apart_placed hscoped hbound hbase hnumbered hs hbuilds hsteps
  rw [hobject, Placement.end_ofSteps hp hsteps]
  exact hapart.install (hbuilds.catalogued hs) (h.shown_of_le (Nat.le_trans hbase le_stepPlace))

variable {b : Snapshot} (h : Aside bound tables steps s) (h' : Aside bound tables steps b)
  (hbase : bound ≤ s.position) (hbase' : bound ≤ b.position)
  (hroom : s.position ≤ Uid.provisionalBase) (hroom' : b.position ≤ Uid.provisionalBase)
  (hs : Catalogued s.position s) (hb : Catalogued b.position b)
include h h' hbase hbase' hroom hroom' hs hb

/-- Steps that can be placed behind one snapshot can be placed behind another one that differs in
the rows of the tables only. The induction is on the steps; what has been placed behind the two
snapshots stays alike apart from these rows. -/
theorem Aside.placed_alike
    (hstart : (s.withoutRows (among tables)).Alike
      (Counterpart bound s.position b.position steps) (b.withoutRows (among tables)))
    (hp : Placement.ofSteps s before = .ok p) (hsteps : steps = before ++ after) :
    ∃ q, Placement.ofSteps b before = .ok q ∧
      (p.snapshot.withoutRows (among tables)).Alike
        (Counterpart bound s.position b.position steps)
        (q.snapshot.withoutRows (among tables)) := by
  have hR : ComparesAlike (Counterpart bound s.position b.position steps) :=
    Counterpart.comparesAlike hbase hbase' hroom hroom'
  induction before using List.reverseRecOn generalizing after p with
  | nil =>
    cases hp
    exact ⟨⟨[], [], b⟩, rfl, hstart⟩
  | append_singleton before step ih =>
    rw [List.append_assoc, List.singleton_append] at hsteps
    obtain ⟨p, m, hfront, hm, rfl⟩ := Placement.exists_of_ofSteps_concat hp
    obtain ⟨q, hq, halike⟩ := ih hfront hsteps
    have hlength : before.length < steps.length := by
      rw [hsteps, List.length_append, List.length_cons]
      omega
    have hplace : Counterpart bound s.position b.position steps
        (stepPlace s.position steps before.length) (stepPlace b.position steps before.length) :=
      ⟨.provisional before.length, .inr ⟨_, hlength, rfl⟩, (relocated_provisional hlength).symm,
        (relocated_provisional hlength).symm⟩
    have hobject : (step.object.mapUids (relocated s.position steps)).Alike
        (Counterpart bound s.position b.position steps)
        (step.object.mapUids (relocated b.position steps)) := by
      have hstep : step ∈ steps := hsteps ▸ List.mem_append_right _ List.mem_cons_self
      exact LogObject.alike_mapUids_mapUids fun u hu => ⟨u, hscoped.known hstep u hu, rfl, rfl⟩
    obtain ⟨_, hshown, rfl⟩ :=
      (h.install_next hscoped hbound hnumbered hbase hs hfront hsteps).exists_ok hm
    obtain ⟨n, hn, hafter⟩ := (install_alike hR halike hplace hobject).exists_ok hshown
    obtain ⟨m', hm', rfl⟩ :=
      (h'.install_next hscoped hbound hnumbered hbase' hb hq hsteps).exists_ok_left hn
    exact ⟨_, Placement.ofSteps_concat hq hm', hafter⟩

end

end SnapshotStore
