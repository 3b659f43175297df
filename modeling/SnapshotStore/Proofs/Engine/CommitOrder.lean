import SnapshotStore.Proofs.Engine.FirstCommitter
import SnapshotStore.Proofs.Engine.Places
import SnapshotStore.Proofs.Snapshot.Mirrored

/-!
# The order of two commits

Two transactions that only write rows and can be committed in either order write no row in common,
since the second commit would have met a conflict. So both orders lead to the same rows and index
entries, and only the places of the steps differ.
-/

namespace SnapshotStore

open Snapshot

variable {P : Value → Prop} {bound base base' first second first' second' : Nat}
  {steps steps' : List Step} {f g : Uid → Uid} {u row : Uid} {o : Uid × LogObject}

/-! ### Placed steps -/

theorem LogObject.overwrites?_of_row? {object : LogObject} {uid : Uid}
    (h : object.row? uid = some row) (hne : row ≠ uid) :
    ∃ table, object.overwrites? = some (table, row) := by
  cases object with
  | record => exact absurd (Option.some.inj h).symm hne
  | update table | delete table =>
    cases h
    exact ⟨table, rfl⟩
  | _ => cases h

/-- A renaming for steps in two logs that are placed one behind the other. -/
theorem exists_moves (second second' : Nat) (steps' : List Step) (hbound : bound ≤ first)
    (hbehind : first + (encoded (placed first [] steps)).length ≤ first') :
    ∃ f, Moves bound first second steps f ∧ Moves bound first' second' steps' f := by
  have hle : first ≤ first' := Nat.le_trans (Nat.le_add_right _ _) hbehind
  have hfront : Moves bound first second steps _ := moves_movedSteps hbound
  have hback : Moves bound first' second' steps' _ := moves_movedSteps (Nat.le_trans hbound hle)
  refine ⟨fun u => if u.place < first' then (movedSteps first second steps).apply u
    else (movedSteps first' second' steps').apply u, ⟨fun u hu => ?_, fun k hk => ?_⟩,
    ⟨fun u hu => ?_, fun k hk => ?_⟩⟩
  · exact (if_pos (Nat.lt_of_lt_of_le hu (Nat.le_trans hbound hle))).trans (hfront.kept u hu)
  · have hlt := Nat.lt_of_lt_of_le (stepPlace_lt_end hk) hbehind
    exact (if_pos hlt).trans (hfront.moved k hk)
  · exact (if_pos (Nat.lt_of_lt_of_le hu (Nat.le_trans hbound hle))).trans (hfront.kept u hu)
  · exact (if_neg (Nat.not_lt.2 le_stepPlace)).trans (hback.moved k hk)

/-- The row that a placed step writes was there in front of the log's new end or is a step. -/
theorem row_of_placed (hnumbered : Numbered steps) (hscoped : Scoped bound steps)
    (hbound : bound ≤ Uid.provisionalBase) (ho : o ∈ placed base [] steps)
    (hrow : o.2.row? o.1 = some row) :
    (row.place < bound ∧ ∃ step ∈ steps, ∃ table, step.object.overwrites? = some (table, row)) ∨
      ∃ k, k < steps.length ∧ row = stepPlace base steps k := by
  obtain ⟨step, hstep, k, hk, huid, hplace, hobject⟩ :=
    exists_step_of_placed hnumbered hscoped hbound ho
  rw [hobject, hplace, ← relocated_provisional hk, ← huid, LogObject.row?_mapUids,
    Option.map_eq_some_iff] at hrow
  obtain ⟨u, hu, rfl⟩ := hrow
  have hknown : Known bound steps.length u := by
    rcases LogObject.mem_uids_of_row? hu with rfl | hmem
    · exact .inr ⟨k, hk, huid⟩
    · exact hscoped.known hstep u hmem
  rcases hknown with hlt | ⟨j, hj, rfl⟩
  · rw [relocated_of_lt hlt hbound]
    refine .inl ⟨hlt, step, hstep, LogObject.overwrites?_of_row? hu fun heq => ?_⟩
    rw [heq, huid] at hlt
    exact absurd (Nat.le_add_right _ _) (Nat.not_le.2 (Nat.lt_of_lt_of_le hlt hbound))
  · exact .inr ⟨j, hj, relocated_provisional hj⟩

theorem Moves.back (h : Moves bound first second steps f) (h' : Moves bound second first steps g)
    (hnumbered : Numbered steps) (hscoped : Scoped bound steps)
    (hbound : bound ≤ Uid.provisionalBase) (ho : o ∈ placed first [] steps) :
    g (f o.1) = o.1 := by
  obtain ⟨_, _, k, hk, _, hplace, _⟩ := exists_step_of_placed hnumbered hscoped hbound ho
  rw [hplace, h.moved k hk, h'.moved k hk]

/-! ### Two commits -/

theorem Snapshot.Builds.endingAt {s s' : Snapshot} {objects : List (Uid × LogObject)}
    {position : Nat} (h : Builds first s objects second s')
    (hposition : objects = [] → position = s.position) :
    Builds first s objects second (s'.endingAt position) := by
  cases h with
  | refl hle =>
    rw [hposition rfl]
    exact .refl hle
  | step h hfresh hlast hinstall => exact h.step hfresh hlast hinstall position

namespace Consistent

variable {name : String} {opened bytes bytes' : List UInt8} {w : Session} {handle : Handle}
  {tx tx' : Transaction} {s s' : Snapshot} {e : Engine}

/-- A commit that succeeds builds what it publishes from the latest snapshot. -/
theorem builds_commit (h : Consistent name opened w handle bytes) (htx : tx ∈ w.transactions)
    (hcommit : w.engine.commit tx = (.ok s, e)) :
    Builds bytes.length handle.published (placed bytes.length [] tx.steps)
      (bytes.length + (encoded (placed bytes.length [] tx.steps)).length) s := by
  obtain ⟨_, _, _, ⟨⟨_, herror⟩, _⟩ | ⟨placement, hplacement, hs, hpublished, _⟩⟩ :=
    Engine.contents_of_commit (h.registered_of_begun htx) h.contents h.ends hcommit
  · cases herror
  cases hs
  rw [hpublished]
  have hpayload := Placement.payload_of_ofSteps hplacement
  have hbuilds := Placement.builds_of_ofSteps hplacement
  rw [← h.ends, ← hpayload]
  refine hbuilds.endingAt fun hnone => ?_
  rw [hpayload, hnone]
  rfl

/-- The session behind a commit that succeeds, with its transactions still at hand. -/
theorem behind_commit (h : Consistent name opened w handle bytes) (htx : tx ∈ w.transactions)
    (hcommit : w.engine.commit tx = (.ok s, e)) (hroom : e.logLength name < Bytes.limit) :
    ∃ handle', handle'.published = s ∧ Consistent name opened
      ⟨e, w.published ++ [s], w.committed ++ placed bytes.length [] tx.steps, w.transactions⟩
      handle' (bytes ++ encoded (placed bytes.length [] tx.steps)) := by
  obtain ⟨handle', hhandle', hpath, ⟨⟨_, herror⟩, _⟩ |
      ⟨placement, hplacement, hs, hpublished, hcontents⟩⟩ :=
    Engine.contents_of_commit (h.registered_of_begun htx) h.contents h.ends hcommit
  · cases herror
  cases hs
  rw [h.name_of_begun htx] at hhandle'
  rw [Engine.logLength_of_handle? hhandle', ← hcontents.1, List.length_append] at hroom
  have hpayload := Placement.payload_of_ofSteps hplacement
  have hbehind := h.publish hplacement hroom hhandle' hpublished hcontents hpath fun _ htx => htx
  rw [h.logLength, hpayload, h.ends] at hbehind
  exact ⟨handle', rfl, hbehind⟩

theorem logLength_commit (h : Consistent name opened w handle bytes) (htx : tx ∈ w.transactions)
    (hcommit : w.engine.commit tx = (.ok s, e)) (hroom : e.logLength name < Bytes.limit) :
    e.logLength name = bytes.length + (encoded (placed bytes.length [] tx.steps)).length := by
  obtain ⟨_, _, hbehind⟩ := h.behind_commit htx hcommit hroom
  exact hbehind.logLength.trans List.length_append

theorem scoped_steps (h : Consistent name opened w handle bytes) (htx : tx ∈ w.transactions)
    (hnumbered : Numbered tx.steps) (hroom : bytes.length ≤ Uid.provisionalBase) :
    Scoped bytes.length tx.steps :=
  (h.steps_scoped htx hnumbered hroom).mono (h.position_le (h.begun tx htx).1)

section

variable {e' : Engine} (h : Consistent name opened w handle bytes) (htx : tx ∈ w.transactions)
  (htx' : tx' ∈ w.transactions) (hnumbered : ∀ tx ∈ w.transactions, Numbered tx.steps)
  (hroom : bytes.length ≤ Uid.provisionalBase) (hlimit : e.logLength name < Bytes.limit)
  (hcommit : w.engine.commit tx = (.ok s, e)) (hcommit' : e.commit tx' = (.ok s', e'))
include h htx htx' hlimit hcommit hcommit'

/-- What two commits lead to, one after the other. -/
theorem builds_commits :
    ∃ last, Builds bytes.length handle.published
      (placed bytes.length [] tx.steps ++ placed (e.logLength name) [] tx'.steps) last s' := by
  obtain ⟨handle', rfl, hbehind⟩ := h.behind_commit htx hcommit hlimit
  have hfirst := h.builds_commit htx hcommit
  have hsecond := hbehind.builds_commit htx' hcommit'
  rw [hbehind.logLength]
  rw [← List.length_append] at hfirst
  exact ⟨_, hfirst.trans hsecond⟩

include hnumbered hroom

/-- A row that both transactions write would have been a conflict for the second one. -/
theorem placed_apart :
    ∀ o ∈ placed bytes.length [] tx.steps, ∀ p ∈ placed (e.logLength name) [] tx'.steps,
      ∀ row, o.2.row? o.1 = some row → p.2.row? p.1 ≠ some row := by
  intro o ho p hp row hrow hrow'
  obtain ⟨_, _, hbehind⟩ := h.behind_commit htx hcommit hlimit
  have hend := h.logLength_commit htx hcommit hlimit
  have hplace := (h.builds_commit htx hcommit).le_place o ho
  have hscoped := h.scoped_steps htx (hnumbered tx htx) hroom
  have hscoped' := h.scoped_steps htx' (hnumbered tx' htx') hroom
  rcases row_of_placed (hnumbered tx htx) hscoped hroom ho hrow with ⟨hlt, _⟩ | ⟨k, hk, rfl⟩ <;>
  rcases row_of_placed (hnumbered tx' htx') hscoped' hroom hp hrow' with
    ⟨hlt', step, hstep, table, hover⟩ | ⟨j, hj, heq⟩
  · have hne : o.1 ≠ row := fun heq => by
      rw [heq] at hplace
      exact absurd hlt (Nat.not_lt.2 hplace)
    obtain ⟨hcheck, _⟩ := hbehind.commit_ok htx' hcommit' (List.ne_nil_of_mem hstep)
    have hsince : tx'.rollbackPoint.position ≤ o.1.place :=
      Nat.le_trans (h.position_le (h.begun tx' htx').1) hplace
    have hfree := Transaction.not_conflicts_of_check hcheck
      (List.mem_filter.2 ⟨List.mem_append_right _ ho, decide_eq_true hsince⟩) hstep
    rw [LogObject.conflicts_of_overwrites step.uid hover hrow hne] at hfree
    cases hfree
  · rw [heq] at hlt
    have := Nat.lt_of_le_of_lt le_stepPlace hlt
    omega
  · exact absurd hlt' (Nat.not_lt.2 le_stepPlace)
  · have hlt : (stepPlace bytes.length tx.steps k).place < e.logLength name :=
      hend ▸ stepPlace_lt_end hk
    rw [heq] at hlt
    exact absurd hlt (Nat.not_lt.2 le_stepPlace)

variable {e₂ e₂' : Engine} {s₂ s₂' : Snapshot} (hlimit₂ : e₂.logLength name < Bytes.limit)
  (hcommit₂ : w.engine.commit tx' = (.ok s₂, e₂)) (hcommit₂' : e₂.commit tx = (.ok s₂', e₂'))
  (hwrites : ∀ step ∈ tx.steps, step.object.writesRow)
  (hwrites' : ∀ step ∈ tx'.steps, step.object.writesRow)
  (hf : Moves bytes.length bytes.length (e₂.logLength name) tx.steps f)
  (hf' : Moves bytes.length (e.logLength name) bytes.length tx'.steps f)
  (hg : Moves bytes.length (e₂.logLength name) bytes.length tx.steps g)
  (hg' : Moves bytes.length bytes.length (e.logLength name) tx'.steps g)

include hwrites hwrites' hf hf' hg hg' in
theorem exchangeable : Exchangeable bytes.length f (placed bytes.length [] tx.steps)
    (placed (e.logLength name) [] tx'.steps) := by
  have hscoped := h.scoped_steps htx (hnumbered tx htx) hroom
  have hscoped' := h.scoped_steps htx' (hnumbered tx' htx') hroom
  have hback : ∀ o ∈ placed bytes.length [] tx.steps ++ placed (e.logLength name) [] tx'.steps,
      g (f o.1) = o.1 := by
    intro o ho
    rcases List.mem_append.1 ho with ho | ho
    · exact hf.back hg (hnumbered tx htx) hscoped hroom ho
    · exact hf'.back hg' (hnumbered tx' htx') hscoped' hroom ho
  have hkept : ∀ f object, object.writesRow → (LogObject.mapUids f object).writesRow :=
    fun f object hobject => (object.writesRow_mapUids f).trans hobject
  refine ⟨List.forall_mem_append.2 ⟨?_, ?_⟩, hf.kept, fun o ho p hp heq => ?_, ?_⟩
  · exact forall_placed hkept (hnumbered tx htx) hscoped hroom hwrites
  · exact forall_placed hkept (hnumbered tx' htx') hscoped' hroom hwrites'
  · rw [← hback o ho, heq, hback p hp]
  · exact h.placed_apart htx htx' hnumbered hroom hlimit hcommit hcommit'

include hlimit₂ hcommit₂ hcommit₂' hwrites hwrites' hf hf' hg hg' in
/-- What the one order leads to, the other one leads to with other places. -/
theorem mirrors_of_commits (hP : OrderedOn P) (hvalues : ∀ object ∈ logged bytes, object.ValuesIn P)
    (hsteps : ∀ step ∈ tx.steps, step.object.ValuesIn P)
    (hsteps' : ∀ step ∈ tx'.steps, step.object.ValuesIn P) : s'.Mirrors f s₂' := by
  have hscoped := h.scoped_steps htx (hnumbered tx htx) hroom
  have hscoped' := h.scoped_steps htx' (hnumbered tx' htx') hroom
  obtain ⟨_, hbuilds⟩ := h.builds_commits htx htx' hlimit hcommit hcommit'
  obtain ⟨_, hbuilds'⟩ := h.builds_commits htx' htx hlimit₂ hcommit₂ hcommit₂'
  obtain ⟨objects, hlatest, hobjects⟩ := (h.reflects _ h.mem_latest).builds_logged
  rw [h.ends] at hlatest hobjects
  rw [List.take_length] at hobjects
  have hexchange := h.exchangeable htx htx' hnumbered hroom hlimit hcommit hcommit' hwrites hwrites'
    hf hf' hg hg'
  have hkept : ∀ f object, LogObject.ValuesIn P object → (object.mapUids f).ValuesIn P := by
    intro f object hobject
    rwa [LogObject.ValuesIn, LogObject.values_mapUids]
  rw [hf.placed_eq (hnumbered tx htx) hscoped hroom,
    hf'.placed_eq (hnumbered tx' htx') hscoped' hroom, ← List.map_append] at hbuilds'
  refine hexchange.mirrors hbuilds' hlatest hbuilds hP (fun o ho => ?_)
    (List.forall_mem_append.2 ⟨?_, ?_⟩)
  · exact hvalues _ (hobjects ▸ List.mem_map_of_mem ho)
  · exact forall_placed hkept (hnumbered tx htx) hscoped hroom hsteps
  · exact forall_placed hkept (hnumbered tx' htx') hscoped' hroom hsteps'

end

end Consistent

/-- Whether of two transactions that only write rows the one is committed first or the other, both
orders lead to the same rows, versions and index entries if both succeed. The new identifiers take
each step from its place in the one log to its place in the other. -/
theorem commit_order {name : String} {w : Session} {tx₁ tx₂ : Transaction} {bytes : List UInt8}
    {e₁ e₁₂ e₂ e₂₁ : Engine} {s₁ s₁₂ s₂ s₂₁ : Snapshot} (h : Reachable name w)
    (htx₁ : tx₁ ∈ w.transactions) (htx₂ : tx₂ ∈ w.transactions)
    (hwrites₁ : ∀ step ∈ tx₁.steps, step.object.writesRow)
    (hwrites₂ : ∀ step ∈ tx₂.steps, step.object.writesRow)
    (hcommit₁ : w.engine.commit tx₁ = (.ok s₁, e₁)) (hcommit₁₂ : e₁.commit tx₂ = (.ok s₁₂, e₁₂))
    (hcommit₂ : w.engine.commit tx₂ = (.ok s₂, e₂)) (hcommit₂₁ : e₂.commit tx₁ = (.ok s₂₁, e₂₁))
    (hroom₁ : e₁.logLength name ≤ Uid.provisionalBase)
    (hroom₂ : e₂.logLength name ≤ Uid.provisionalBase) (hP : OrderedOn P)
    (hbytes : w.engine.logBytes? name = some bytes)
    (hvalues : ∀ object ∈ logged bytes, object.ValuesIn P)
    (hvalues₁ : ∀ step ∈ tx₁.steps, step.object.ValuesIn P)
    (hvalues₂ : ∀ step ∈ tx₂.steps, step.object.ValuesIn P) :
    ∃ f g,
      (Moves bytes.length bytes.length (e₂.logLength name) tx₁.steps f ∧
        Moves bytes.length (e₁.logLength name) bytes.length tx₂.steps f) ∧
      (Moves bytes.length (e₂.logLength name) bytes.length tx₁.steps g ∧
        Moves bytes.length bytes.length (e₁.logLength name) tx₂.steps g) ∧
      s₁₂.Mirrors f s₂₁ ∧ s₂₁.Mirrors g s₁₂ := by
  have hlimit : ∀ {n}, n ≤ Uid.provisionalBase → n < Bytes.limit := fun hn =>
    Nat.lt_of_le_of_lt hn (by decide)
  have hroom := Nat.le_trans (Engine.logLength_le_of_commit hcommit₁ name) hroom₁
  obtain ⟨opened, handle, bytes', hw⟩ := consistent_of_reachable h (hlimit hroom)
  rw [hw.logBytes?] at hbytes
  cases hbytes
  rw [hw.logLength] at hroom
  have hnumbered := numbered_of_reachable h
  have hend₁ := Nat.le_of_eq (hw.logLength_commit htx₁ hcommit₁ (hlimit hroom₁)).symm
  have hend₂ := Nat.le_of_eq (hw.logLength_commit htx₂ hcommit₂ (hlimit hroom₂)).symm
  obtain ⟨f, hf₁, hf₂⟩ :=
    exists_moves (e₂.logLength name) bytes.length tx₂.steps (Nat.le_refl _) hend₁
  obtain ⟨g, hg₂, hg₁⟩ :=
    exists_moves (e₁.logLength name) bytes.length tx₁.steps (Nat.le_refl _) hend₂
  refine ⟨f, g, ⟨hf₁, hf₂⟩, ⟨hg₁, hg₂⟩, ?_, ?_⟩
  · exact hw.mirrors_of_commits htx₁ htx₂ hnumbered hroom (hlimit hroom₁) hcommit₁ hcommit₁₂
      (hlimit hroom₂) hcommit₂ hcommit₂₁ hwrites₁ hwrites₂ hf₁ hf₂ hg₁ hg₂ hP hvalues hvalues₁
      hvalues₂
  · exact hw.mirrors_of_commits htx₂ htx₁ hnumbered hroom (hlimit hroom₂) hcommit₂ hcommit₂₁
      (hlimit hroom₁) hcommit₁ hcommit₁₂ hwrites₂ hwrites₁ hg₂ hg₁ hf₂ hf₁ hP hvalues hvalues₂
      hvalues₁

/-- Two transactions insert keys and rows that refer to keys, and one updates its own key. -/
theorem commit_order_of_keys_and_references :
    let one := (Session.fresh "db").settle "db" ((Snapshot.empty "db").begin.taking
      [.newTable "t", .newColumn "k" .integer (.provisional 0),
        .newIndex ⟨.provisional 0, true, [.provisional 1], none⟩,
        .newTable "u", .newColumn "p" .integer (.provisional 3),
        .newIndex ⟨.provisional 3, false, [.provisional 4], some (.provisional 0)⟩,
        .record (.provisional 0) [(.provisional 1, .integer 1)]])
    let start := (one.engine.latest? "db").getD (.empty "db")
    let tx₁ := start.begin.taking
      [.record ⟨0⟩ [(⟨4⟩, .integer 2)], .record ⟨21⟩ [(⟨25⟩, .integer 2)]]
    let tx₂ := start.begin.taking
      [.record ⟨21⟩ [(⟨25⟩, .integer 1)], .record ⟨0⟩ [(⟨4⟩, .integer 3)],
        .update ⟨0⟩ [(⟨4⟩, .integer 4)] (.provisional 1)]
    tx₁.steps.length = 2 ∧ tx₂.steps.length = 3 ∧ ∃ s₁₂ s₂₁ f g,
      ((one.engine.commit tx₁).2.commit tx₂).1 = .ok s₁₂ ∧
      ((one.engine.commit tx₂).2.commit tx₁).1 = .ok s₂₁ ∧
      f ⟨52⟩ = ⟨84⟩ ∧ f ⟨72⟩ = ⟨52⟩ ∧ s₁₂.Mirrors f s₂₁ ∧ s₂₁.Mirrors g s₁₂ := by
  intro one start tx₁ tx₂
  have hone : Run "db" (.fresh "db") one := Run.refl.settle List.mem_cons_self _
  have hstart : start ∈ one.published :=
    getD_latest_mem ⟨_, opened_fresh "db", hone⟩ (by decide +kernel) _
  have hrun := (hone.begin hstart
    [.record ⟨0⟩ [(⟨4⟩, .integer 2)], .record ⟨21⟩ [(⟨25⟩, .integer 2)]]).begin hstart
    [.record ⟨21⟩ [(⟨25⟩, .integer 1)], .record ⟨0⟩ [(⟨4⟩, .integer 3)],
      .update ⟨0⟩ [(⟨4⟩, .integer 4)] (.provisional 1)]
  have hok : ∀ {result : Except Error Snapshot × Engine}, result.1.isOk →
      ∃ s, result = (.ok s, result.2) := by
    rintro ⟨⟨error⟩ | s, e⟩ h
    · cases h
    · exact ⟨s, rfl⟩
  obtain ⟨s₁, hcommit₁⟩ := @hok (one.engine.commit tx₁) (by decide +kernel)
  obtain ⟨s₁₂, hcommit₁₂⟩ := @hok ((one.engine.commit tx₁).2.commit tx₂) (by decide +kernel)
  obtain ⟨s₂, hcommit₂⟩ := @hok (one.engine.commit tx₂) (by decide +kernel)
  obtain ⟨s₂₁, hcommit₂₁⟩ := @hok ((one.engine.commit tx₂).2.commit tx₁) (by decide +kernel)
  have hlength₁ : (one.engine.commit tx₁).2.logLength "db" = 72 := by decide +kernel
  have hlength₂ : (one.engine.commit tx₂).2.logLength "db" = 84 := by decide +kernel
  have hlog : (one.engine.logBytes? "db").map (fun bytes => (bytes.length,
      decide (∀ object ∈ logged bytes, object.ValuesIn Value.Comparable))) = some (52, true) := by
    decide +kernel
  obtain ⟨bytes, hbytes, hlog⟩ := Option.map_eq_some_iff.1 hlog
  obtain ⟨hlength, hvalues⟩ := Prod.mk.inj hlog
  obtain ⟨f, g, ⟨hf₁, hf₂⟩, _, hmirrors, hmirrors'⟩ := commit_order ⟨_, opened_fresh "db", hrun⟩
    (List.mem_append_left _ (List.mem_append_right _ List.mem_cons_self))
    (List.mem_append_right _ List.mem_cons_self) (by decide +kernel) (by decide +kernel) hcommit₁
    hcommit₁₂ hcommit₂ hcommit₂₁ (hlength₁ ▸ by decide) (hlength₂ ▸ by decide)
    Value.orderedOn_comparable hbytes (of_decide_eq_true hvalues) (by decide +kernel)
    (by decide +kernel)
  rw [hlength, hlength₂] at hf₁
  rw [hlength, hlength₁] at hf₂
  refine ⟨by decide +kernel, by decide +kernel, s₁₂, s₂₁, f, g, congrArg Prod.fst hcommit₁₂,
    congrArg Prod.fst hcommit₂₁, ?_, ?_, hmirrors, hmirrors'⟩
  · exact hf₁.moved 0 (by decide +kernel)
  · exact hf₂.moved 0 (by decide +kernel)

end SnapshotStore
