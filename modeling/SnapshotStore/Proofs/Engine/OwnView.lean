import SnapshotStore.Proofs.Engine.Relocation

/-!
# A transaction commits what it sees

If nothing was committed since a transaction began, its commit can only fail where the log fails.
Otherwise it publishes the view of the transaction, with the place of each step in the log instead
of its provisional identifier.
-/

namespace SnapshotStore

variable {name : String} {w w' : Session} {tx tx' : Transaction}

/-! ### Steps are numbered -/

theorem Numbered.concat {steps : List Step} (h : Numbered steps) (object : LogObject) :
    Numbered (steps ++ [⟨.provisional steps.length, object⟩]) := by
  intro before step after hsteps
  rcases List.eq_nil_or_concat after with rfl | ⟨after, last, rfl⟩
  · obtain ⟨rfl, hlast⟩ := List.append_inj' hsteps rfl
    cases hlast
    rfl
  · rw [List.concat_eq_append, ← List.cons_append, ← List.append_assoc] at hsteps
    exact h before step after (List.append_inj' hsteps rfl).1

theorem Numbered.of_changes (h : Numbered tx.steps) (hchanges : Changes tx tx') :
    Numbered tx'.steps := by
  obtain ⟨_, ⟨_, hsteps⟩ | ⟨object, _, hsteps⟩⟩ := Transaction.eq_of_changes hchanges
  · rwa [hsteps]
  · rw [hsteps]
    exact h.concat object

theorem Move.numbered (hmove : Move name w w') (h : ∀ tx ∈ w.transactions, Numbered tx.steps) :
    ∀ tx ∈ w'.transactions, Numbered tx.steps := by
  cases hmove with
  | @begin s hs =>
    refine List.forall_mem_append.2 ⟨h, List.forall_mem_singleton.2 ?_⟩
    exact fun before step after hsteps => absurd hsteps.symm (by simp [Snapshot.begin])
  | change htx hchanges =>
    rw [htx] at h
    obtain ⟨hbefore, hrest⟩ := List.forall_mem_append.1 h
    obtain ⟨hold, hafter⟩ := List.forall_mem_cons.1 hrest
    exact List.forall_mem_append.2
      ⟨hbefore, List.forall_mem_cons.2 ⟨hold.of_changes hchanges, hafter⟩⟩
  | giveUp htx | commit htx | fail htx =>
    exact fun tx hmem => h tx (mem_of_mem_remaining htx tx hmem)
  | elsewhere => exact h

theorem numbered_of_reachable (h : Reachable name w) :
    ∀ tx ∈ w.transactions, Numbered tx.steps := by
  obtain ⟨first, hopened, hrun⟩ := h
  induction hrun with
  | refl => cases hopened <;> exact fun _ hmem => absurd hmem List.not_mem_nil
  | step _ hmove ih => exact hmove.numbered ih

/-! ### The commit -/

/-- The steps of a transaction can be placed behind the snapshot that it began on. -/
theorem Consistent.place_at_start {opened bytes : List UInt8} {handle : Handle}
    (h : Consistent name opened w handle bytes) (htx : tx ∈ w.transactions)
    (hnumbered : Numbered tx.steps) (hroom : tx.rollbackPoint.position ≤ Uid.provisionalBase) :
    ∃ placement, Placement.ofSteps tx.rollbackPoint tx.steps = .ok placement ∧
      tx.view.Alike (Relocates tx.rollbackPoint.position tx.steps) placement.snapshot := by
  obtain ⟨hbegun, hsound⟩ := h.begun tx htx
  have hreflects := h.reflects _ hbegun
  obtain ⟨_, hbuilds, _⟩ := hreflects.builds_logged
  have hself : tx.rollbackPoint.Alike (Relocates tx.rollbackPoint.position tx.steps)
      tx.rollbackPoint :=
    hbuilds.alike_self (Relocates.comparesAlike hroom) fun u hu => Relocates.of_lt hroom hu
  obtain ⟨placement, hplacement, halike, _⟩ := (hsound hroom).placed_alike hroom
    hreflects.catalogued hself hnumbered rfl (List.append_nil _).symm
  exact ⟨placement, hplacement, halike⟩

/-- Nothing stands between a transaction and the log if it began on the latest snapshot. -/
theorem Consistent.place_current {opened bytes : List UInt8} {handle : Handle}
    (h : Consistent name opened w handle bytes) (htx : tx ∈ w.transactions)
    (hcurrent : handle.published = tx.rollbackPoint) (hnumbered : Numbered tx.steps)
    (hroom : bytes.length ≤ Uid.provisionalBase) :
    ∃ placement, handle.place w.engine.disk tx = .ok placement ∧
      tx.view.Alike (Relocates bytes.length tx.steps) placement.snapshot := by
  have hends : tx.rollbackPoint.position = bytes.length := hcurrent ▸ h.ends
  rw [← hends] at hroom ⊢
  obtain ⟨placement, hplacement, halike⟩ := h.place_at_start htx hnumbered hroom
  refine ⟨placement, Handle.place_eq_ok.2 ⟨[], ?_, rfl, ?_, ?_⟩, halike⟩
  · rw [hcurrent, Log.objects, if_pos rfl]
  · rw [h.ends, h.contents.1]
  · rw [hcurrent]
    exact hplacement

theorem Consistent.payload_of_place {opened bytes : List UInt8} {handle : Handle}
    {placement : Placement} (h : Consistent name opened w handle bytes)
    (hplace : handle.place w.engine.disk tx = .ok placement) :
    placement.payload = encoded (placed bytes.length [] tx.steps) := by
  obtain ⟨_, _, _, _, hplacement⟩ := Handle.place_eq_ok.1 hplace
  rw [← h.ends]
  exact Placement.payload_of_ofSteps hplacement

/-- A commit that can place its steps ends as the log takes them. -/
theorem Consistent.commit_placed {opened bytes : List UInt8} {handle : Handle}
    {placement : Placement} {result : Except Error Snapshot} {e : Engine}
    (h : Consistent name opened w handle bytes) (htx : tx ∈ w.transactions) (hsteps : tx.steps ≠ [])
    (hplace : handle.place w.engine.disk tx = .ok placement)
    (hcommit : w.engine.commit tx = (result, e)) :
    let appended := handle.log.append w.engine.disk placement.payload handle.config.durability
    (∃ error, appended.result = .error error ∧ result = .error error ∧
      e.latest? name = some handle.published) ∨
      ∃ position, appended.result = .ok position ∧
        result = .ok (placement.snapshot.endingAt position) ∧
        e.latest? name = some (placement.snapshot.endingAt position) ∧
        e.logBytes? name = some (bytes ++ encoded (placed bytes.length [] tx.steps)) := by
  have hname := h.name_of_begun htx
  cases Engine.commits_of_commit (h.registered_of_begun htx) hcommit with
  | nothing hnone => exact absurd hnone hsteps
  | refused hrefused =>
    rw [hplace] at hrefused
    cases hrefused
  | failed hplaced happend =>
    cases hplace.symm.trans hplaced
    refine .inl ⟨_, happend, rfl, ?_⟩
    rw [hname, Engine.latest?, Engine.handle?_setHandle_self, Option.map_some]
  | published hplaced happend =>
    cases hplace.symm.trans hplaced
    refine .inr ⟨_, happend, rfl, ?_, ?_⟩
    · rw [hname, Engine.latest?, Engine.handle?_setHandle_self, Option.map_some]
    · have hpayload := h.payload_of_place hplaced
      generalize houtcome :
        handle.log.append w.engine.disk placement.payload handle.config.durability = outcome at *
      obtain ⟨_, ⟨_, _, hcontents⟩ | ⟨⟨_, herror⟩, _⟩⟩ := h.contents.append houtcome
      · rw [hname, Engine.logBytes?, Engine.handle?_setHandle_self, ← hpayload]
        exact congrArg Except.toOption hcontents.read_all
      · rw [happend] at herror
        cases herror

/-- With no commit since it began, a transaction meets neither a conflict nor an error in placing
its steps. If the log takes them, the published snapshot is the view with the places of the steps
for their provisional identifiers. -/
theorem commit_publishes_view {name : String} {w : Session} {tx : Transaction}
    (h : Reachable name w) (htx : tx ∈ w.transactions) (hsteps : tx.steps ≠ [])
    (hcurrent : w.engine.latest? name = some tx.rollbackPoint)
    (hroom : w.engine.logLength name ≤ Uid.provisionalBase) :
    ∃ handle bytes placement, w.engine.handle? name = some handle ∧
      w.engine.logBytes? name = some bytes ∧
      handle.place w.engine.disk tx = .ok placement ∧
      ∀ result e, w.engine.commit tx = (result, e) →
        let appended :=
          handle.log.append w.engine.disk placement.payload handle.config.durability
        (∃ error, appended.result = .error error ∧ result = .error error ∧
          e.latest? name = some tx.rollbackPoint) ∨
          ∃ position s, appended.result = .ok position ∧ result = .ok s ∧
            e.latest? name = some s ∧
            e.logBytes? name = some (bytes ++ encoded (placed bytes.length [] tx.steps)) ∧
            s = (tx.view.mapUids (relocated bytes.length tx.steps)).endingAt position := by
  obtain ⟨opened, handle, bytes, hw⟩ :=
    consistent_of_reachable h (Nat.lt_of_le_of_lt hroom (by decide))
  rw [hw.logLength] at hroom
  rw [hw.latest?_eq, Option.some.injEq] at hcurrent
  obtain ⟨placement, hplace, halike⟩ :=
    hw.place_current htx hcurrent (numbered_of_reachable h tx htx) hroom
  refine ⟨handle, bytes, placement, hw.registered, hw.logBytes?, hplace, ?_⟩
  intro result e hcommit
  have hplaced := hw.commit_placed htx hsteps hplace hcommit
  rw [hcurrent] at hplaced
  refine hplaced.imp_right ?_
  rintro ⟨position, happend, hresult, hlatest, hbytes⟩
  exact ⟨position, _, happend, hresult, hlatest, hbytes, halike.eq_mapUids Relocates.follows _⟩

/-- A table, its key and a row that is updated at once, with a step in between that fails. -/
theorem commit_publishes_view_beside_failure :
    let one := (Session.fresh "db").settle "db" ((Snapshot.empty "db").begin.taking [.newTable "t"])
    let start := (one.engine.latest? "db").getD (.empty "db")
    let tx := start.begin.taking
      [.newTable "u", .newTable "t", .newColumn "c" .integer (.provisional 0),
        .newIndex ⟨.provisional 0, true, [.provisional 1], none⟩,
        .record (.provisional 0) [(.provisional 1, .integer 7)],
        .update (.provisional 0) [(.provisional 1, .integer 8)] (.provisional 3)]
    tx.steps.length = 5 ∧ one.engine.latest? "db" = some tx.rollbackPoint ∧
      one.engine.logLength "db" ≤ Uid.provisionalBase ∧
      (List.range 5).map (fun k => relocated 4 tx.steps (.provisional k)) =
        [⟨4⟩, ⟨8⟩, ⟨15⟩, ⟨25⟩, ⟨35⟩] ∧
      ∃ s e, one.engine.commit tx = (.ok s, e) ∧ e.latest? "db" = some s ∧
        s = (tx.view.mapUids (relocated 4 tx.steps)).endingAt s.position := by
  intro one start tx
  have hone : Run "db" (.fresh "db") one := Run.refl.settle List.mem_cons_self _
  have hroom : one.engine.logLength "db" ≤ Uid.provisionalBase := by decide +kernel
  have hopened := opened_fresh "db"
  obtain ⟨s, hs, hlatest⟩ :=
    latest_of_reachable ⟨_, hopened, hone⟩ (Nat.lt_of_le_of_lt hroom (by decide))
  have hstart : start = s := by
    show (one.engine.latest? "db").getD (.empty "db") = s
    rw [hlatest, Option.getD_some]
  have hcurrent : one.engine.latest? "db" = some tx.rollbackPoint := by
    rw [Transaction.rollbackPoint_taking, hlatest, ← hstart]
    rfl
  have hsteps : tx.steps.length = 5 := by decide +kernel
  have hbytes : (one.engine.logBytes? "db").map List.length = some 4 := by decide +kernel
  have hok : (one.engine.commit tx).1.isOk = true := by decide +kernel
  refine ⟨hsteps, hcurrent, hroom, by decide +kernel, ?_⟩
  obtain ⟨handle, bytes, placement, _, hlog, _, hcommit⟩ :=
    commit_publishes_view (w := { one with transactions := one.transactions ++ [tx] })
      ⟨_, hopened, hone.begin (hstart ▸ hs) _⟩ (List.mem_append_right _ List.mem_cons_self)
      (List.ne_nil_of_length_eq_add_one hsteps) hcurrent hroom
  rw [show one.engine.logBytes? "db" = some bytes from hlog] at hbytes
  rcases hcommit _ _ rfl with ⟨error, _, herror, _⟩ | ⟨position, s, _, hresult, hlatest, _, hs⟩
  · rw [show (one.engine.commit tx).1 = .error error from herror] at hok
    cases hok
  · refine ⟨s, _, Prod.ext hresult rfl, hlatest, ?_⟩
    rw [hs, Option.some.inj hbytes]
    rfl

end SnapshotStore
