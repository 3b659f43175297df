import SnapshotStore.Proofs.Engine.Aside
import SnapshotStore.Proofs.Engine.CommitOrder
import SnapshotStore.Proofs.Snapshot.Provenance

/-!
# Work on unrelated tables

A transaction is not disturbed by rows that others have written in tables that it neither names nor
has read, and that no foreign key links with a table that it names. Its commit meets no conflict and
no error in placing its steps, and what it publishes is, apart from these rows, what it would have
published directly on the snapshot that it began on.
-/

namespace SnapshotStore

open Snapshot

/-- Tables that a transaction has nothing to do with: they were there when it began, no step names
one of them, no foreign key from or to a table that a step names has one of them at its other end,
and none was read as a whole. -/
structure Transaction.Unrelated (tx : Transaction) (tables : List Uid) : Prop where
  there : ∀ u ∈ tables, (tx.rollbackPoint.table? u).isSome
  unnamed : ∀ step ∈ tx.steps, ∀ u ∈ step.object.tables, u ∉ tables
  unlinked : ∀ step ∈ tx.steps, ∀ u ∈ step.object.tables,
    (∀ x ∈ tx.rollbackPoint.foreignKeysInto u, x.definition.table ∉ tables) ∧
      ∀ x ∈ tx.rollbackPoint.indexes u, ∀ target ∈ x.definition.references, target ∉ tables
  unread : ∀ u ∈ tables, tx.reads.contains u = false

namespace LogObject

variable {a b : LogObject} {aUid bUid u : Uid} {f : Uid → Uid} {object : LogObject}

theorem mem_tables_of_overwrites {row : Uid} (h : object.overwrites? = some (u, row)) :
    u ∈ object.tables ∧ row ∈ object.uids := by
  cases object with
  | update | delete =>
    cases h
    exact ⟨List.mem_cons_self, List.mem_cons_of_mem _ List.mem_cons_self⟩
  | _ => cases h

theorem table?_of_overwrites {row : Uid} (h : object.overwrites? = some (u, row)) :
    object.table? = some u := by
  cases object with
  | update | delete =>
    cases h
    rfl
  | _ => cases h

/-- An object that drops a table names it. -/
theorem drops_eq_false (h : u ∉ object.tables) : object.drops u = false := by
  cases object with
  | drop target parent => exact decide_eq_false fun heq => h (heq ▸ List.mem_cons_self)
  | _ => rfl

variable (hb : b.writesRow) (hover : ∀ table row, a.overwrites? = some (table, row) →
  b.row? bUid ≠ some row)
include hb hover

/-- No object minds that a row was written, unless it overwrites the row or has created it. -/
theorem excludes_writer (huid : b.row? bUid ≠ some aUid) : a.excludes aUid b bUid = false := by
  have hne : ∀ {table row other}, a.overwrites? = some (table, row) → b.row? bUid = some other →
      decide (other = row) = false := fun ha hother =>
    decide_eq_false fun heq => hover _ _ ha (heq ▸ hother)
  cases b with
  | record table fields =>
    cases a with
    | alter altered column => cases column <;> rfl
    | _ => rfl
  | update table fields other =>
    cases a with
    | alter altered column => cases column <;> rfl
    | update => exact hne rfl rfl
    | delete => exact decide_eq_false (hover _ _ rfl)
    | _ => rfl
  | delete table other =>
    cases a with
    | alter altered column => cases column <;> rfl
    | record => exact decide_eq_false fun heq => huid (congrArg some heq)
    | update => exact hne rfl rfl
    | delete => exact decide_eq_false (hover _ _ rfl)
    | _ => rfl
  | _ => cases hb

/-- Writing a row minds nothing but a drop of its table and another write of the row. -/
theorem writer_excludes (htable : ∀ table, b.table? = some table → table ∉ a.tables) :
    b.excludes bUid a aUid = false := by
  have hne : ∀ {table row other}, a.overwrites? = some (table, row) → b.row? bUid = some other →
      decide (row = other) = false := fun ha hother =>
    decide_eq_false fun heq => hover _ _ ha (heq ▸ hother)
  cases b with
  | record table fields =>
    cases a with
    | delete => exact hne rfl rfl
    | _ => exact drops_eq_false (htable table rfl)
  | update table fields other =>
    cases a with
    | update | delete => exact hne rfl rfl
    | _ => exact drops_eq_false (htable table rfl)
  | delete table other =>
    cases a with
    | update | delete => exact decide_eq_false fun heq => hover _ _ rfl heq.symm
    | _ => rfl
  | _ => cases hb

theorem conflicts_writer (huid : b.row? bUid ≠ some aUid)
    (htable : ∀ table, b.table? = some table → table ∉ a.tables) :
    a.conflicts aUid b bUid = false :=
  Bool.or_eq_false_iff.2 ⟨excludes_writer hb hover huid, writer_excludes hb hover htable⟩

end LogObject

variable {name : String} {opened bytes : List UInt8} {w : Session} {handle : Handle}
  {tx : Transaction} {tables : List Uid} {step : Step} {o : Uid × LogObject} {row table : Uid}

theorem Transaction.Unrelated.aside (h : tx.Unrelated tables) {objects : List (Uid × LogObject)}
    (hbuilds : Builds 0 (.empty name) objects tx.rollbackPoint.position tx.rollbackPoint) :
    Aside tx.rollbackPoint.position tables tx.steps tx.rollbackPoint := by
  have hs := hbuilds.catalogued (catalogued_empty name)
  refine ⟨fun u hu => ?_, fun v d hd u hu => ?_, fun step hstep => ⟨fun u hu => ?_, ?_, ?_⟩⟩
  · obtain ⟨t, ht⟩ := Option.isSome_iff_exists.1 (h.there u hu)
    exact hs.below_of_table ht
  · obtain ⟨x, hx, rfl⟩ := links_eq_index hd
    exact hbuilds.definition_below hx u (LogObject.mem_uids_of_mem_tables hu)
  · exact among_eq_false.2 (h.unnamed step hstep u hu)
  · intro v d target hd hreferences htable
    obtain ⟨x, hx, rfl⟩ := links_eq_index hd
    exact among_eq_false.2
      ((h.unlinked step hstep _ htable).2 x (hs.mem_indexes_of_get? hx) target hreferences)
  · intro v d target hd hreferences htarget
    obtain ⟨x, hx, rfl⟩ := links_eq_index hd
    exact among_eq_false.2 ((h.unlinked step hstep _ htarget).1 x
      ((mem_foreignKeysInto hs.items).2 ⟨⟨v, index?_eq_some.2 hx⟩, hreferences⟩))

namespace Consistent

section

variable (h : Consistent name opened w handle bytes) (htx : tx ∈ w.transactions)
  (hunrelated : tx.Unrelated tables) (hnumbered : Numbered tx.steps)
  (hroom : bytes.length ≤ Uid.provisionalBase)
  (hothers : ∀ o ∈ w.committed.filter (tx.rollbackPoint.position ≤ ·.1.place),
    o.2.writesRow ∧ (∃ u ∈ tables, o.2.table? = some u) ∧
      ∀ row ∈ o.2.row? o.1, tx.reads.contains row = false)
include h htx hnumbered hroom

/-! ### No conflict -/

omit hnumbered in
/-- The rows that others have written are no steps. -/
theorem written_lt (ho : o ∈ w.committed.filter (tx.rollbackPoint.position ≤ ·.1.place))
    (hrow : o.2.row? o.1 = some row) : row.place < Uid.provisionalBase := by
  have hbegun := (h.begun tx htx).1
  have hsince := h.builds_since hbegun
  refine Nat.lt_of_lt_of_le ?_ hroom
  rcases hsince.known_written (h.reflects _ hbegun).catalogued ho hrow with hlt | ⟨p, hp, rfl⟩
  · exact Nat.lt_of_lt_of_le hlt (h.position_le hbegun)
  · exact hsince.place_lt p hp

include hothers

omit hnumbered hroom in
/-- An old row that others have written was in one of the tables from the start. -/
theorem written_at_start (ho : o ∈ w.committed.filter (tx.rollbackPoint.position ≤ ·.1.place))
    (hrow : o.2.row? o.1 = some row) (hlt : row.place < tx.rollbackPoint.position) :
    ∃ u ∈ tables, ∃ r, tx.rollbackPoint.row? u row = some r := by
  have hbegun := (h.begun tx htx).1
  have hsince := h.builds_since hbegun
  have hne : row ≠ o.1 := fun heq => absurd (hsince.le_place o ho) (Nat.not_le.2 (heq ▸ hlt))
  obtain ⟨table, hover⟩ := LogObject.overwrites?_of_row? hrow hne
  obtain ⟨earlier, _, m, _, m', hbuilds, _, hinstall⟩ := hsince.mem ho
  obtain ⟨r', hr'⟩ := LogObject.row_of_overwrites hover hinstall
  obtain ⟨r, hr, _⟩ := hbuilds.row_kept (h.reflects _ hbegun).catalogued hr'
    (ne_of_place hlt hbuilds.le_place)
  obtain ⟨_, ⟨u, hu, htable⟩, _⟩ := hothers o ho
  rw [LogObject.table?_of_overwrites hover] at htable
  cases htable
  exact ⟨table, hu, r, hr⟩

include hunrelated

/-- What a step overwrites is in a table that it names, and what others have written is not. -/
theorem unwritten_of_overwrites (hstep : step ∈ tx.steps)
    (ho : o ∈ w.committed.filter (tx.rollbackPoint.position ≤ ·.1.place))
    (hover : step.object.overwrites? = some (table, row)) : o.2.row? o.1 ≠ some row := by
  intro hrow
  obtain ⟨hnamed, huids⟩ := LogObject.mem_tables_of_overwrites hover
  rcases (h.steps_scoped htx hnumbered hroom).known hstep row huids with hlt | ⟨k, _, rfl⟩
  · obtain ⟨r, hr⟩ := h.row_at_start htx hroom hstep hover (h.ne_of_start htx hroom hlt)
    obtain ⟨u, hu, r', hr'⟩ := h.written_at_start htx hothers ho hrow hlt
    obtain ⟨_, hlogged, _⟩ := (h.reflects _ (h.begun tx htx).1).builds_logged
    -- A conflict compares rows, not tables, but the record of a row fixes its table.
    cases hlogged.table_unique hr hr'
    exact hunrelated.unnamed step hstep table hnamed hu
  · exact absurd (h.written_lt htx hroom ho hrow) (Nat.not_lt.2 (Nat.le_add_right _ _))

theorem check_unrelated :
    tx.checkAgainst (w.committed.filter (tx.rollbackPoint.position ≤ ·.1.place)) = .ok () := by
  refine Transaction.checkAgainst_eq_ok.2 fun o ho => ⟨?_, fun step hstep => ?_⟩
  · obtain ⟨_, ⟨u, hu, htable⟩, hrows⟩ := hothers o ho
    rw [ReadSet.violatedBy, htable]
    cases hrow : o.2.row? o.1 with
    | none => rfl
    | some row => exact Bool.or_eq_false_iff.2 ⟨hrows row hrow, hunrelated.unread u hu⟩
  · obtain ⟨hwrites, ⟨u, hu, htable⟩, _⟩ := hothers o ho
    refine LogObject.conflicts_writer hwrites (fun table row hover => ?_) (fun hrow => ?_) ?_
    · exact h.unwritten_of_overwrites htx hunrelated hnumbered hroom hothers hstep ho hover
    · obtain ⟨k, _, huid⟩ := hnumbered.uid_of_mem (List.append_nil _).symm hstep
      rw [huid] at hrow
      exact absurd (h.written_lt htx hroom ho hrow) (Nat.not_lt.2 (Nat.le_add_right _ _))
    · intro table htable' hmem
      cases htable.symm.trans htable'
      exact hunrelated.unnamed step hstep _ hmem hu

/-! ### No error -/

omit hunrelated hnumbered hroom in
/-- What others have committed is not to be seen without the rows of the tables. -/
theorem withoutRows_latest :
    handle.published.withoutRows (among tables) =
      (tx.rollbackPoint.withoutRows (among tables)).endingAt handle.published.position := by
  have hbegun := (h.begun tx htx).1
  refine (h.builds_since hbegun).withoutRows (h.reflects _ hbegun).catalogued fun o ho => ?_
  obtain ⟨hwrites, ⟨u, hu, htable⟩, _⟩ := hothers o ho
  refine ⟨hwrites, fun table htable' => ?_⟩
  cases htable.symm.trans htable'
  exact decide_eq_true hu

omit hnumbered hroom in
theorem aside_latest :
    Aside tx.rollbackPoint.position tables tx.steps tx.rollbackPoint ∧
      Aside tx.rollbackPoint.position tables tx.steps handle.published := by
  obtain ⟨_, hlogged, _⟩ := (h.reflects _ (h.begun tx htx).1).builds_logged
  have haside := hunrelated.aside hlogged
  refine ⟨haside, haside.congr ?_⟩
  have hlatest := h.withoutRows_latest htx hothers
  calc
    handle.published.links = (handle.published.withoutRows (among tables)).links :=
      (links_withoutRows handle.published).symm
    _ = ((tx.rollbackPoint.withoutRows (among tables)).endingAt _).links :=
      congrArg Snapshot.links hlatest
    _ = tx.rollbackPoint.links := links_withoutRows tx.rollbackPoint

/-- The steps can be placed behind the latest snapshot, and lead there to what they lead to behind
the snapshot that the transaction began on. -/
theorem place_unrelated :
    ∃ direct placement, Placement.ofSteps tx.rollbackPoint tx.steps = .ok direct ∧
      handle.place w.engine.disk tx = .ok placement ∧
      (direct.snapshot.withoutRows (among tables)).Alike
        (Counterpart tx.rollbackPoint.position tx.rollbackPoint.position
          handle.published.position tx.steps)
        (placement.snapshot.withoutRows (among tables)) := by
  have hbegun := (h.begun tx htx).1
  have hbehind := h.position_of_begun htx
  have hbase' : handle.published.position ≤ Uid.provisionalBase := h.ends ▸ hroom
  have hbase := Nat.le_trans hbehind hbase'
  have hreflects := h.reflects _ hbegun
  obtain ⟨haside, haside'⟩ := h.aside_latest htx hunrelated hothers
  obtain ⟨direct, hdirect, _⟩ := h.place_at_start htx hnumbered hbase
  obtain ⟨_, hlogged, _⟩ := hreflects.builds_logged
  have hself : tx.rollbackPoint.Alike (Counterpart tx.rollbackPoint.position
      tx.rollbackPoint.position handle.published.position tx.steps) tx.rollbackPoint :=
    hlogged.alike_self (Counterpart.comparesAlike (Nat.le_refl _) hbehind hbase hbase')
      fun u hu => Counterpart.of_lt hbase hu
  -- The two snapshots that the steps are placed behind differ in rows of the tables only.
  have hstart := (hself.withoutRows fun u u' hu =>
    haside.among_counterpart hbase (Nat.le_refl _) hbehind hu).endingAt
      tx.rollbackPoint.position handle.published.position
  rw [← h.withoutRows_latest htx hothers] at hstart
  obtain ⟨placement, hplacement, halike⟩ := haside.placed_alike (h.steps_scoped htx hnumbered hroom)
    hbase hnumbered haside' (Nat.le_refl _) hbehind hbase hbase' hreflects.catalogued
    (h.reflects _ h.mem_latest).catalogued hstart hdirect (List.append_nil _).symm
  refine ⟨direct, placement, hdirect, Handle.place_eq_ok.2 ⟨_, h.objects_since hbegun, ?_, ?_,
    hplacement⟩, halike⟩
  · exact h.check_unrelated htx hunrelated hnumbered hroom hothers
  · rw [h.ends, h.contents.1]

/-- What the others have made of the tables is left alone. -/
theorem tables_unrelated {placement : Placement} {u : Uid} (hu : u ∈ tables)
    (hplace : handle.place w.engine.disk tx = .ok placement) :
    ∃ t, handle.published.table? u = some t ∧ placement.snapshot.table? u = some t ∧
      placement.snapshot.indexes u = handle.published.indexes u ∧
      ∀ column ∈ t.columns,
        placement.snapshot.column? column = handle.published.column? column := by
  obtain ⟨_, haside'⟩ := h.aside_latest htx hunrelated hothers
  have hbehind := h.position_of_begun htx
  have hbase : handle.published.position ≤ Uid.provisionalBase := h.ends ▸ hroom
  obtain ⟨_, _, _, _, hplacement⟩ := Handle.place_eq_ok.1 hplace
  have hbuilds := Placement.builds_of_ofSteps hplacement
  obtain ⟨t₀, ht₀⟩ := Option.isSome_iff_exists.1 (hunrelated.there u hu)
  have hsame := table?_withoutRows (among tables) handle.published u
  rw [h.withoutRows_latest htx hothers] at hsame
  have hthere := (table?_withoutRows (among tables) tx.rollbackPoint u).symm.trans hsame
  rw [ht₀, Option.map_some] at hthere
  obtain ⟨t, ht, _⟩ := Option.map_eq_some_iff.1 hthere.symm
  have hlatest := (h.reflects _ h.mem_latest).catalogued
  refine ⟨t, ht, hbuilds.table_unnamed hlatest ht fun o ho hmem => ?_⟩
  have hshown := haside'.shown_of_placed (h.steps_scoped htx hnumbered hroom)
    (Nat.le_trans hbehind hbase) hbehind hnumbered ho hmem
  exact among_eq_false.1 hshown hu

end

end Consistent

/-- If nothing was committed since a transaction began but rows of tables that it has nothing to do
with and that it has not read, then its commit meets neither a conflict nor an error in placing its
steps. If the log takes them, the published snapshot is, apart from the rows of these tables, what
the steps lead to directly behind the snapshot that the transaction began on, with their places at
the end of the log. The tables themselves are as the others have left them. -/
theorem commit_beside_others {name : String} {w : Session} {tx : Transaction} {tables : List Uid}
    (h : Reachable name w) (htx : tx ∈ w.transactions) (hsteps : tx.steps ≠ [])
    (hunrelated : tx.Unrelated tables)
    (hothers : ∀ o ∈ w.committed.filter (tx.rollbackPoint.position ≤ ·.1.place),
      o.2.writesRow ∧ (∃ u ∈ tables, o.2.table? = some u) ∧
        ∀ row ∈ o.2.row? o.1, tx.reads.contains row = false)
    (hroom : w.engine.logLength name ≤ Uid.provisionalBase) :
    ∃ handle latest direct placement shift, w.engine.handle? name = some handle ∧
      w.engine.latest? name = some latest ∧
      Placement.ofSteps tx.rollbackPoint tx.steps = .ok direct ∧
      handle.place w.engine.disk tx = .ok placement ∧
      Moves tx.rollbackPoint.position tx.rollbackPoint.position latest.position tx.steps shift ∧
      ∀ result e, w.engine.commit tx = (result, e) →
        let appended :=
          handle.log.append w.engine.disk placement.payload handle.config.durability
        (∃ error, appended.result = .error error ∧ result = .error error ∧
          e.latest? name = some latest) ∨
          ∃ position s, appended.result = .ok position ∧ result = .ok s ∧
            e.latest? name = some s ∧
            s.withoutRows (among tables) =
              ((direct.snapshot.withoutRows (among tables)).mapUids shift).endingAt position ∧
            ∀ u ∈ tables, ∃ t, latest.table? u = some t ∧ s.table? u = some t ∧
              s.indexes u = latest.indexes u ∧
              ∀ column ∈ t.columns, s.column? column = latest.column? column := by
  obtain ⟨opened, handle, bytes, hw⟩ :=
    consistent_of_reachable h (Nat.lt_of_le_of_lt hroom (by decide))
  rw [hw.logLength] at hroom
  have hnumbered := numbered_of_reachable h tx htx
  have hbase : tx.rollbackPoint.position ≤ Uid.provisionalBase :=
    Nat.le_trans (hw.position_le (hw.begun tx htx).1) hroom
  obtain ⟨direct, placement, hdirect, hplace, halike⟩ :=
    hw.place_unrelated htx hunrelated hnumbered hroom hothers
  have hmoves : Moves tx.rollbackPoint.position tx.rollbackPoint.position
    handle.published.position tx.steps _ := moves_movedSteps (Nat.le_refl _)
  refine ⟨handle, handle.published, direct, placement, _, hw.registered, hw.latest?_eq, hdirect,
    hplace, hmoves, fun result e hcommit => ?_⟩
  refine (hw.commit_placed htx hsteps hplace hcommit).imp_right ?_
  rintro ⟨position, happend, hresult, hlatest, _⟩
  refine ⟨position, _, happend, hresult, hlatest, ?_, fun u hu => ?_⟩
  · exact halike.eq_mapUids (Counterpart.follows hbase hmoves) position
  · exact hw.tables_unrelated htx hunrelated hnumbered hroom hothers hu hplace

/-- A key and a table that refers to it are added while rows of a third table are written. -/
theorem commit_beside_others_of_new_key :
    let one := (Session.fresh "db").settle "db" ((Snapshot.empty "db").begin.taking
      [.newTable "x", .newColumn "n" .integer (.provisional 0),
        .newIndex ⟨.provisional 0, true, [.provisional 1], none⟩,
        .record (.provisional 0) [(.provisional 1, .integer 7)],
        .newTable "t", .newColumn "k" .integer (.provisional 4),
        .newIndex ⟨.provisional 4, true, [.provisional 5], none⟩,
        .record (.provisional 4) [(.provisional 5, .integer 1)]])
    let start := (one.engine.latest? "db").getD (.empty "db")
    let two := one.settle "db" (start.begin.taking
      [.record ⟨0⟩ [(⟨4⟩, .integer 8)], .update ⟨0⟩ [(⟨4⟩, .integer 9)] ⟨21⟩])
    let tx := start.begin.taking
      [.record ⟨31⟩ [(⟨35⟩, .integer 2)], .update ⟨31⟩ [(⟨35⟩, .integer 3)] ⟨52⟩,
        .newTable "r", .newColumn "p" .integer (.provisional 2),
        .newIndex ⟨.provisional 2, false, [.provisional 3], some ⟨31⟩⟩,
        .record (.provisional 2) [(.provisional 3, .integer 2)]]
    tx.steps.length = 6 ∧ two.committed.map (·.1.place) = [0, 4, 11, 21, 31, 35, 42, 52, 62, 72] ∧
      ∃ latest direct s e shift, two.engine.latest? "db" = some latest ∧
        Placement.ofSteps start tx.steps = .ok direct ∧ two.engine.commit tx = (.ok s, e) ∧
        shift ⟨62⟩ = ⟨84⟩ ∧ shift ⟨105⟩ = ⟨127⟩ ∧ s.table? ⟨0⟩ = latest.table? ⟨0⟩ ∧
        s.withoutRows (among [⟨0⟩]) =
          ((direct.snapshot.withoutRows (among [⟨0⟩])).mapUids shift).endingAt s.position := by
  intro one start two tx
  have hone : Run "db" (.fresh "db") one := Run.refl.settle List.mem_cons_self _
  have hstart : start ∈ one.published :=
    getD_latest_mem ⟨_, opened_fresh "db", hone⟩ (by decide +kernel) _
  have htwo : Run "db" (.fresh "db") two := hone.settle hstart _
  have hthree := htwo.begin (Run.published_mono (Run.refl.settle hstart _) hstart)
    [.record ⟨31⟩ [(⟨35⟩, .integer 2)], .update ⟨31⟩ [(⟨35⟩, .integer 3)] ⟨52⟩,
      .newTable "r", .newColumn "p" .integer (.provisional 2),
      .newIndex ⟨.provisional 2, false, [.provisional 3], some ⟨31⟩⟩,
      .record (.provisional 2) [(.provisional 3, .integer 2)]]
  have hsteps : tx.steps.length = 6 := by decide +kernel
  have hroom : two.engine.logLength "db" ≤ Uid.provisionalBase := by decide +kernel
  have hunrelated : tx.Unrelated [⟨0⟩] :=
    ⟨by decide +kernel, by decide +kernel, by decide +kernel, by decide +kernel⟩
  have hok : (two.engine.commit tx).1.isOk = true := by decide +kernel
  have hends : start.position = 62 ∧ (two.engine.latest? "db").map (·.position) = some 84 := by
    decide +kernel
  obtain ⟨_, latest, direct, _, shift, _, hlatest, hdirect, _, hmoves, hcommit⟩ :=
    commit_beside_others (w := { two with transactions := two.transactions ++ [tx] })
      ⟨_, opened_fresh "db", hthree⟩ (List.mem_append_right _ List.mem_cons_self)
      (List.ne_nil_of_length_eq_add_one hsteps) hunrelated (by decide +kernel) hroom
  have hlatest : two.engine.latest? "db" = some latest := hlatest
  rw [hlatest, Option.map_some, Option.some.injEq] at hends
  rw [Transaction.rollbackPoint_taking] at hdirect hmoves
  rw [show start.begin.rollbackPoint.position = 62 from hends.1, hends.2] at hmoves
  rcases hcommit _ _ rfl with ⟨error, _, herror, _⟩ | ⟨position, s, _, hresult, _, hs, htables⟩
  · rw [show (two.engine.commit tx).1 = .error error from herror] at hok
    cases hok
  · obtain ⟨t, ht, hkept, _⟩ := htables ⟨0⟩ List.mem_cons_self
    have hposition : s.position = position := congrArg Snapshot.position hs
    refine ⟨hsteps, by decide +kernel, latest, direct, s, _, shift, hlatest, hdirect,
      Prod.ext hresult rfl, ?_, ?_, hkept.trans ht.symm, hposition ▸ hs⟩
    · exact hmoves.moved 0 (by decide +kernel)
    · have hplaces : stepPlace 62 tx.steps 5 = ⟨105⟩ ∧ stepPlace 84 tx.steps 5 = ⟨127⟩ := by
        decide +kernel
      have hmoved := hmoves.moved 5 (by decide +kernel)
      rwa [hplaces.1, hplaces.2] at hmoved

end SnapshotStore
