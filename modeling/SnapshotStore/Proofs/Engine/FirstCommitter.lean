import SnapshotStore.Proofs.Engine.History

/-!
# The first committer wins

A commit compares its transaction with exactly the objects that were committed after the snapshot
that the transaction began on. So what the transaction overwrites or alters is, in the snapshot that
the commit goes on from, still as the transaction saw it.
-/

namespace SnapshotStore

namespace LogObject

variable {a b : LogObject} {table row : Uid}

/-- The table and the row that an object overwrites or deletes. -/
def overwrites? : LogObject → Option (Uid × Uid)
  | update table _ row => some (table, row)
  | delete table row => some (table, row)
  | _ => none

theorem overwrites?_mapUids (f : Uid → Uid) (ha : a.overwrites? = some (table, row)) :
    (a.mapUids f).overwrites? = some (f table, f row) := by
  cases a with
  | update | delete =>
    cases ha
    rfl
  | _ => cases ha

theorem alters_mapUids (f : Uid → Uid) (ha : a.alters table = true) :
    (a.mapUids f).alters (f table) = true := by
  cases a with
  | alter altered =>
    cases of_decide_eq_true (ha : decide (altered = table) = true)
    exact decide_eq_true rfl
  | _ => cases ha

/-- A row that is overwritten has to be there. -/
theorem row_of_overwrites {s s' : Snapshot} {standing : Standing} {uid : Uid}
    (ha : a.overwrites? = some (table, row)) (h : s.install standing uid a = .ok s') :
    ∃ r, s.row? table row = some r := by
  cases a with
  | update =>
    cases ha
    obtain ⟨t, old, _, ht, hold, _⟩ := Snapshot.updateRow_eq_ok.1 h
    exact ⟨old, Snapshot.row?_eq_some.2 ⟨t, ht, hold⟩⟩
  | delete =>
    cases ha
    obtain ⟨t, old, _, ht, hold, _⟩ := Snapshot.deleteRow_eq_ok.1 h
    exact ⟨old, Snapshot.row?_eq_some.2 ⟨t, ht, hold⟩⟩
  | _ => cases ha

theorem table_of_alters {s s' : Snapshot} {standing : Standing} {uid : Uid}
    (ha : a.alters table = true) (h : s.install standing uid a = .ok s') :
    ∃ t, s.table? table = some t := by
  cases a with
  | alter altered column =>
    cases of_decide_eq_true (ha : decide (altered = table) = true)
    cases column with
    | none =>
      obtain ⟨t, ht, _⟩ := Snapshot.renameTable_eq_ok.1 h
      exact ⟨t, ht⟩
    | some column =>
      obtain ⟨t, _, ht, _⟩ := Snapshot.alterColumn_eq_ok.1 h
      exact ⟨t, ht⟩
  | _ => cases ha

theorem conflicts_of_overwrites (aUid : Uid) {bUid : Uid} (ha : a.overwrites? = some (table, row))
    (hb : b.row? bUid = some row) (hold : bUid ≠ row) : a.conflicts aUid b bUid = true := by
  rw [conflicts, Bool.or_eq_true]
  cases b with
  | record => exact absurd (Option.some.inj hb) hold
  | update | delete =>
    cases Option.some.inj hb
    refine .inl ?_
    cases a with
    | update | delete =>
      cases ha
      exact decide_eq_true rfl
    | _ => cases ha
  | _ => cases hb

theorem conflicts_of_alters (aUid bUid : Uid) (ha : a.alters table = true)
    (hb : b.alters table = true) : a.conflicts aUid b bUid = true := by
  rw [conflicts, Bool.or_eq_true]
  cases a with
  | alter altered =>
    cases b with
    | alter other =>
      exact .inl (decide_eq_true ((of_decide_eq_true hb : other = table).trans
        (of_decide_eq_true ha : altered = table).symm))
    | _ => cases hb
  | _ => cases ha

end LogObject

theorem Transaction.not_conflicts_of_check {tx : Transaction} {committed : List (Uid × LogObject)}
    (h : tx.checkAgainst committed = .ok ()) {object : Uid × LogObject}
    (hobject : object ∈ committed) {step : Step} (hstep : step ∈ tx.steps) :
    step.object.conflicts step.uid object.2 object.1 = false :=
  (checkAgainst_eq_ok.1 h object hobject).2 step hstep

namespace Consistent

variable {name : String} {opened bytes : List UInt8} {w : Session} {handle : Handle}
  {tx : Transaction} {s : Snapshot} {e : Engine}

/-- A commit that publishes steps has found no conflict and has built its snapshot from the latest
one. -/
theorem commit_ok (h : Consistent name opened w handle bytes) (htx : tx ∈ w.transactions)
    (hcommit : w.engine.commit tx = (.ok s, e)) (hsteps : tx.steps ≠ []) :
    tx.checkAgainst (w.committed.filter (tx.rollbackPoint.position ≤ ·.1.place)) = .ok () ∧
      ∃ last latest, Snapshot.Builds bytes.length handle.published (placed bytes.length [] tx.steps)
        last latest := by
  have hbegun := (h.begun tx htx).1
  cases Engine.commits_of_commit (h.registered_of_begun htx) hcommit with
  | nothing hnone => exact absurd hnone hsteps
  | @published placement position hplace happend =>
    obtain ⟨committed, hcommitted, hcheck, _, hplacement⟩ := Handle.place_eq_ok.1 hplace
    rw [h.objects_since hbegun] at hcommitted
    cases hcommitted
    have hbuilds := Placement.builds_of_ofSteps hplacement
    rw [h.ends] at hbuilds
    exact ⟨hcheck, _, _, hbuilds⟩

/-- The objects committed after a snapshot lead from it to the latest one. -/
theorem builds_since (h : Consistent name opened w handle bytes) (hs : s ∈ w.published) :
    Snapshot.Builds s.position s (w.committed.filter (s.position ≤ ·.1.place)) bytes.length
      handle.published := by
  obtain ⟨objects, htiled, hextend, hpairs⟩ := h.leads s hs
  have hbuilds := Snapshot.builds_of_extend htiled hextend
  rwa [hpairs, List.length_drop, Nat.add_sub_cancel' (h.position_le hs)] at hbuilds

variable {step : Step} {table row : Uid}

theorem ne_of_pair {earlier : List (Uid × LogObject)} {u : Uid}
    (hnew : ∀ other ∈ tx.steps, other.uid ≠ u)
    (hearlier : ∀ o ∈ earlier, o ∈ tx.steps.map Step.pair) : ∀ o ∈ earlier, o.1 ≠ u := by
  intro o ho
  obtain ⟨other, hother, rfl⟩ := List.mem_map.1 (hearlier o ho)
  exact hnew other hother

theorem ne_of_place {objects : List (Uid × LogObject)} {u : Uid} {first : Nat}
    (hu : u.place < first) (hplaces : ∀ o ∈ objects, first ≤ o.1.place) :
    ∀ o ∈ objects, o.1 ≠ u := by
  intro o ho heq
  have := hplaces o ho
  rw [heq] at this
  omega

section

variable (h : Consistent name opened w handle bytes) (htx : tx ∈ w.transactions)
  (hcommit : w.engine.commit tx = (.ok s, e)) (hroom : bytes.length ≤ Uid.provisionalBase)
  (hstep : step ∈ tx.steps)
include h htx hroom hstep

/-- The steps in front of a step have led from the start of the transaction to where it is taken. -/
theorem taken_after :
    ∃ earlier mid m standing m', Snapshot.Builds tx.rollbackPoint.position tx.rollbackPoint earlier
      mid m ∧ (∀ o ∈ earlier, o ∈ tx.steps.map Step.pair) ∧
      m.install standing step.uid step.object = .ok m' := by
  obtain ⟨hbegun, hsound⟩ := h.begun tx htx
  obtain ⟨earlier, mid, m, standing, m', hbuilds, hearlier, hinstall⟩ :=
    (hsound (Nat.le_trans (h.position_le hbegun) hroom)).mem
      (List.mem_map_of_mem hstep : step.pair ∈ _)
  exact ⟨earlier, mid, m, standing, m', hbuilds, hearlier, hinstall⟩

/-- What a transaction overwrites without having created it has been there from the start. -/
theorem row_at_start (hover : step.object.overwrites? = some (table, row))
    (hnew : ∀ other ∈ tx.steps, other.uid ≠ row) :
    ∃ r, tx.rollbackPoint.row? table row = some r := by
  obtain ⟨earlier, _, m, _, m', hbuilds, hearlier, hinstall⟩ := h.taken_after htx hroom hstep
  obtain ⟨r', hr'⟩ := LogObject.row_of_overwrites hover hinstall
  obtain ⟨r, hr, _⟩ := hbuilds.row_kept (h.reflects _ (h.begun tx htx).1).catalogued hr'
    (ne_of_pair hnew hearlier)
  exact ⟨r, hr⟩

theorem table_at_start (halters : step.object.alters table)
    (hnew : ∀ other ∈ tx.steps, other.uid ≠ table) :
    ∃ t, tx.rollbackPoint.table? table = some t := by
  obtain ⟨earlier, _, m, _, m', hbuilds, hearlier, hinstall⟩ := h.taken_after htx hroom hstep
  obtain ⟨t', ht'⟩ := LogObject.table_of_alters halters hinstall
  obtain ⟨t, ht, _⟩ := hbuilds.table_kept (h.reflects _ (h.begun tx htx).1).catalogued ht'
    (ne_of_pair hnew hearlier)
  exact ⟨t, ht⟩

omit hstep in
theorem ne_of_start {u : Uid} (hu : u.place < tx.rollbackPoint.position) :
    ∀ other ∈ tx.steps, other.uid ≠ u := by
  obtain ⟨hbegun, hsound⟩ := h.begun tx htx
  have hview := hsound (Nat.le_trans (h.position_le hbegun) hroom)
  exact fun other hother => ne_of_place hu hview.le_place other.pair (List.mem_map_of_mem hother)

include hcommit

omit hroom in
/-- A commit takes the step again, on the latest snapshot and the steps in front of it. What has
been there from the start goes by the same identifier. -/
theorem placed_after :
    ∃ earlier mid m standing uid pairs m',
      Snapshot.Builds bytes.length handle.published earlier mid m ∧
      (∀ u, (∀ other ∈ tx.steps, other.uid ≠ u) → Renaming.apply pairs u = u) ∧
      m.install standing uid (step.object.mapUids (Renaming.apply pairs)) = .ok m' := by
  obtain ⟨_, last, latest, hplaced⟩ := h.commit_ok htx hcommit (List.ne_nil_of_mem hstep)
  obtain ⟨uid, pairs, hmem, hpairs⟩ := mem_placed hstep bytes.length []
  obtain ⟨earlier, mid, m, standing, m', hbuilds, _, hinstall⟩ := hplaced.mem hmem
  exact ⟨earlier, mid, m, standing, uid, pairs, m', hbuilds, fun u hu => hpairs u hu rfl, hinstall⟩

theorem row_at_commit (hover : step.object.overwrites? = some (table, row))
    (hnew : ∀ other ∈ tx.steps, other.uid ≠ row)
    (htable : table.place < tx.rollbackPoint.position)
    (hrow : row.place < tx.rollbackPoint.position) :
    ∃ l, handle.published.row? table row = some l := by
  obtain ⟨_, _, _, _, _, pairs, _, hbuilds, hpairs, hinstall⟩ := h.placed_after htx hcommit hstep
  have hover' := LogObject.overwrites?_mapUids (Renaming.apply pairs) hover
  rw [hpairs row hnew, hpairs table (h.ne_of_start htx hroom htable)] at hover'
  obtain ⟨r', hr'⟩ := LogObject.row_of_overwrites hover' hinstall
  have hle := h.position_le (h.begun tx htx).1
  obtain ⟨l, hl, _⟩ := hbuilds.row_kept (h.ends ▸ (h.reflects _ h.mem_latest).catalogued) hr'
    (ne_of_place (Nat.lt_of_lt_of_le hrow hle) hbuilds.le_place)
  exact ⟨l, hl⟩

omit hroom in
theorem table_at_commit (halters : step.object.alters table)
    (hnew : ∀ other ∈ tx.steps, other.uid ≠ table)
    (htable : table.place < tx.rollbackPoint.position) :
    ∃ l, handle.published.table? table = some l := by
  obtain ⟨_, _, _, _, _, pairs, _, hbuilds, hpairs, hinstall⟩ := h.placed_after htx hcommit hstep
  have halters' := LogObject.alters_mapUids (Renaming.apply pairs) halters
  rw [hpairs table hnew] at halters'
  obtain ⟨t', ht'⟩ := LogObject.table_of_alters halters' hinstall
  have hle := h.position_le (h.begun tx htx).1
  obtain ⟨l, hl, _⟩ := hbuilds.table_kept (h.ends ▸ (h.reflects _ h.mem_latest).catalogued) ht'
    (ne_of_place (Nat.lt_of_lt_of_le htable hle) hbuilds.le_place)
  exact ⟨l, hl⟩

/-- A row that a transaction overwrites is still as the transaction saw it when it commits. -/
theorem overwritten_kept (hover : step.object.overwrites? = some (table, row))
    (hnew : ∀ other ∈ tx.steps, other.uid ≠ row) :
    (∃ r l, tx.rollbackPoint.row? table row = some r ∧ handle.published.row? table row = some l ∧
      l.version = r.version) ∧
      ∀ object ∈ w.committed.filter (tx.rollbackPoint.position ≤ ·.1.place),
        object.2.row? object.1 ≠ some row := by
  have hbegun := (h.begun tx htx).1
  have hstart := (h.reflects _ hbegun).catalogued
  obtain ⟨hcheck, _⟩ := h.commit_ok htx hcommit (List.ne_nil_of_mem hstep)
  obtain ⟨r₀, hr₀⟩ := h.row_at_start htx hroom hstep hover hnew
  obtain ⟨t, ht, hrt⟩ := Snapshot.row?_eq_some.1 hr₀
  have hrow : row.place < tx.rollbackPoint.position :=
    (hstart.rows (Snapshot.table?_eq_some.1 ht)).below hrt
  obtain ⟨l, hl⟩ :=
    h.row_at_commit htx hcommit hroom hstep hover hnew (hstart.below_of_table ht) hrow
  have hsince := h.builds_since hbegun
  have hnone : ∀ o ∈ w.committed.filter (tx.rollbackPoint.position ≤ ·.1.place), o.1 ≠ row :=
    ne_of_place hrow hsince.le_place
  have hunwritten : ∀ o ∈ w.committed.filter (tx.rollbackPoint.position ≤ ·.1.place),
      o.2.row? o.1 ≠ some row := by
    intro o ho hwritten
    have hconflict := LogObject.conflicts_of_overwrites step.uid hover hwritten (hnone o ho)
    rw [Transaction.not_conflicts_of_check hcheck ho hstep] at hconflict
    cases hconflict
  obtain ⟨r, hr, hversion⟩ := hsince.row_kept hstart hl hnone
  exact ⟨⟨r, l, hr, hl, hversion hunwritten⟩, hunwritten⟩

omit htx hcommit hroom hstep in
/-- A column that a table has had since a snapshot, while nothing altered the table. -/
theorem column_unaltered {t l : Table} {column : Uid} (hs : s ∈ w.published)
    (ht : s.table? table = some t) (hl : handle.published.table? table = some l)
    (hunaltered : ∀ o ∈ w.committed.filter (s.position ≤ ·.1.place), o.2.alters table = false)
    (hcolumn : column ∈ t.columns) (hlive : column ∈ l.columns) :
    ∃ a b, s.column? column = some a ∧ handle.published.column? column = some b ∧
      b.name = a.name ∧ b.type = a.type := by
  have hstart := (h.reflects _ hs).catalogued
  have hlatest := (h.reflects _ h.mem_latest).catalogued
  have hsince := h.builds_since hs
  have htlinks := Snapshot.links_of_get? (Snapshot.table?_eq_some.1 ht)
  have hllinks := Snapshot.links_of_get? (Snapshot.table?_eq_some.1 hl)
  obtain ⟨a, ha, rfl⟩ :=
    Snapshot.links_eq_column ((hstart.linked.mem_columns htlinks column).1 hcolumn)
  obtain ⟨b, hb, _⟩ :=
    Snapshot.links_eq_column ((hlatest.linked.mem_columns hllinks column).1 hlive)
  obtain ⟨a', ha', _, hsame⟩ := hsince.column_kept hstart (Snapshot.column?_eq_some.2 hb)
    (ne_of_place (hstart.below ha) hsince.le_place)
  rw [Snapshot.column?_eq_some, ha] at ha'
  cases ha'
  obtain ⟨hname, htype⟩ := hsame hunaltered
  exact ⟨a, b, Snapshot.column?_eq_some.2 ha, Snapshot.column?_eq_some.2 hb, hname, htype⟩

/-- A table that a transaction alters is still as the transaction saw it when it commits. -/
theorem altered_kept (halters : step.object.alters table)
    (hnew : ∀ other ∈ tx.steps, other.uid ≠ table) :
    (∀ object ∈ w.committed.filter (tx.rollbackPoint.position ≤ ·.1.place),
      object.2.alters table = false) ∧
      ∃ t l, tx.rollbackPoint.table? table = some t ∧ handle.published.table? table = some l ∧
        l.name = t.name ∧
        ∀ column ∈ t.columns, column ∈ l.columns →
          ∃ a b, tx.rollbackPoint.column? column = some a ∧
            handle.published.column? column = some b ∧ b.name = a.name ∧ b.type = a.type := by
  have hbegun := (h.begun tx htx).1
  have hstart := (h.reflects _ hbegun).catalogued
  obtain ⟨hcheck, _⟩ := h.commit_ok htx hcommit (List.ne_nil_of_mem hstep)
  obtain ⟨t₀, ht₀⟩ := h.table_at_start htx hroom hstep halters hnew
  have htable : table.place < tx.rollbackPoint.position := hstart.below_of_table ht₀
  obtain ⟨l, hl⟩ := h.table_at_commit htx hcommit hstep halters hnew htable
  have hsince := h.builds_since hbegun
  have hunaltered : ∀ o ∈ w.committed.filter (tx.rollbackPoint.position ≤ ·.1.place),
      o.2.alters table = false := by
    intro o ho
    refine Bool.eq_false_iff.2 fun haltered => ?_
    have hconflict := LogObject.conflicts_of_alters step.uid o.1 halters haltered
    rw [Transaction.not_conflicts_of_check hcheck ho hstep] at hconflict
    cases hconflict
  obtain ⟨t, ht, hname⟩ := hsince.table_kept hstart hl (ne_of_place htable hsince.le_place)
  exact ⟨hunaltered, t, l, ht, hl, hname hunaltered,
    fun column hcolumn hlive => h.column_unaltered hbegun ht hl hunaltered hcolumn hlive⟩

end

end Consistent

/-- If a transaction can be committed, nothing that was committed after the snapshot it began on has
written a row that it overwrites or altered a table that it alters. -/
theorem first_committer_wins {name : String} {w : Session} {tx : Transaction} {s : Snapshot}
    {e : Engine} (h : Reachable name w) (htx : tx ∈ w.transactions)
    (hcommit : w.engine.commit tx = (.ok s, e))
    (hroom : w.engine.logLength name ≤ Uid.provisionalBase) :
    ∃ latest, w.engine.latest? name = some latest ∧ tx.rollbackPoint ∈ w.published ∧
      (∀ step ∈ tx.steps, ∀ table row,
        step.object.overwrites? = some (table, row) → (∀ other ∈ tx.steps, other.uid ≠ row) →
          (∃ r l, tx.rollbackPoint.row? table row = some r ∧ latest.row? table row = some l ∧
            l.version = r.version) ∧
            ∀ object ∈ w.committed.filter (tx.rollbackPoint.position ≤ ·.1.place),
              object.2.row? object.1 ≠ some row) ∧
      (∀ step ∈ tx.steps,
        ∀ table, step.object.alters table → (∀ other ∈ tx.steps, other.uid ≠ table) →
          (∀ object ∈ w.committed.filter (tx.rollbackPoint.position ≤ ·.1.place),
            object.2.alters table = false) ∧
            ∃ t l, tx.rollbackPoint.table? table = some t ∧ latest.table? table = some l ∧
              l.name = t.name ∧
              ∀ column ∈ t.columns, column ∈ l.columns →
                ∃ a b, tx.rollbackPoint.column? column = some a ∧ latest.column? column = some b ∧
                  b.name = a.name ∧ b.type = a.type) := by
  obtain ⟨opened, handle, bytes, hw⟩ :=
    consistent_of_reachable h (Nat.lt_of_le_of_lt hroom (by decide))
  rw [hw.logLength] at hroom
  refine ⟨handle.published, hw.latest?_eq, (hw.begun tx htx).1, ?_, ?_⟩
  · intro step hstep table row hover hnew
    exact hw.overwritten_kept htx hcommit hroom hstep hover hnew
  · intro step hstep table halters hnew
    exact hw.altered_kept htx hcommit hroom hstep halters hnew

/-- A row is updated and its table renamed while another transaction inserts a row there. -/
theorem first_committer_wins_beside_insert :
    let one := (Session.fresh "db").settle "db" ((Snapshot.empty "db").begin.taking
      [.newTable "t", .record (.provisional 0) []])
    let start := (one.engine.latest? "db").getD (.empty "db")
    let two := one.settle "db" (start.begin.taking [.record ⟨0⟩ []])
    let tx := start.begin.taking [.update ⟨0⟩ [] ⟨4⟩, .alter ⟨0⟩ none "u" none]
    two.engine.logLength "db" ≤ Uid.provisionalBase ∧ two.committed.map (·.1.place) = [0, 4, 9] ∧
      ∃ s e latest r l, two.engine.commit tx = (.ok s, e) ∧ two.engine.latest? "db" = some latest ∧
        start.row? ⟨0⟩ ⟨4⟩ = some r ∧ latest.row? ⟨0⟩ ⟨4⟩ = some l ∧ l.version = r.version := by
  intro one start two tx
  have hroom : two.engine.logLength "db" ≤ Uid.provisionalBase := by decide +kernel
  have hone : Run "db" (.fresh "db") one :=
    Run.refl.settle List.mem_cons_self [.newTable "t", .record (.provisional 0) []]
  have hstart : start ∈ one.published :=
    getD_latest_mem ⟨_, opened_fresh "db", hone⟩ (by decide +kernel) _
  have htwo : Run "db" (.fresh "db") two := hone.settle hstart [.record ⟨0⟩ []]
  have hthree := htwo.begin (Run.published_mono (Run.refl.settle hstart [.record ⟨0⟩ []]) hstart)
    [.update ⟨0⟩ [] ⟨4⟩, .alter ⟨0⟩ none "u" none]
  have hsteps : tx.steps =
      [⟨.provisional 0, .update ⟨0⟩ [] ⟨4⟩⟩, ⟨.provisional 1, .alter ⟨0⟩ none "u" none⟩] := by
    decide +kernel
  have hok : (two.engine.commit tx).1.isOk = true := by decide +kernel
  refine ⟨hroom, by decide +kernel, ?_⟩
  cases hcommit : two.engine.commit tx with
  | mk result e =>
    cases result with
    | error error =>
      rw [hcommit] at hok
      cases hok
    | ok s =>
      obtain ⟨latest, hlatest, _, hrows, _⟩ :=
        first_committer_wins ⟨_, opened_fresh "db", hthree⟩
          (List.mem_append_right _ List.mem_cons_self) hcommit hroom
      obtain ⟨⟨r, l, hr, hl, hversion⟩, _⟩ :=
        hrows _ (hsteps ▸ List.mem_cons_self) ⟨0⟩ ⟨4⟩ rfl (hsteps ▸ by decide)
      rw [Transaction.rollbackPoint_taking] at hr
      exact ⟨s, e, latest, r, l, rfl, hlatest, hr, hl, hversion⟩

end SnapshotStore
