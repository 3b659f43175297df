import SnapshotStore.Proofs.Engine.CommitOrder
import SnapshotStore.Proofs.Engine.Reopening
import SnapshotStore.Proofs.Snapshot.Written

/-!
# Lists of fields on both ways of writing

An insert hands on its list of fields as it is, and what is left of it is decided where it is
installed: nulls are passed over. An update lays its list over the fields of the row first, nulls
included, and hands on all fields. So in an update the last entry of a column wins, and in an insert
the last one that is not null. What the transaction reads then is read by all once it is committed,
and by those who open the file again.
-/

namespace SnapshotStore

open Snapshot

variable {bound : Nat} {name : String} {opened bytes : List UInt8} {w : Session} {handle : Handle}
  {tx tx' : Transaction} {table row uid column u : Uid} {fields changes : List Field}
  {object : LogObject} {before later : List Step} {step : Step} {s : Snapshot} {e : Engine}

/-! ### In the view -/

namespace Transaction

theorem update_eq_ok :
    tx.update table row changes = .ok (uid, tx') ↔
      ∃ old, tx.view.row? table row = some old ∧
        tx.add (.update table (changes.foldl (fun held (column, value) => held.insert column value)
          old.fields).toList row) = .ok (uid, tx') :=
  orError_bind_eq_ok

/-- Either way of writing a row takes a step that holds the fields. -/
theorem exists_add_of_written (h : (∃ fields, tx.insert table fields = .ok (row, tx')) ∨
    ∃ changes uid, tx.update table row changes = .ok (uid, tx')) :
    ∃ object uid fields, tx.add object = .ok (uid, tx') ∧
      object.writes? uid = some (table, row, fields) := by
  rcases h with ⟨fields, hadd⟩ | ⟨changes, uid, h⟩
  · exact ⟨_, row, fields, hadd, rfl⟩
  · obtain ⟨old, _, hadd⟩ := update_eq_ok.1 h
    exact ⟨_, uid, _, hadd, rfl⟩

theorem steps_of_add (hadd : tx.add object = .ok (uid, tx')) :
    tx'.steps ++ later = tx.steps ++ ⟨uid, object⟩ :: later := by
  obtain ⟨_, _, huid, rfl⟩ := add_eq_ok.1 hadd
  rw [huid, List.append_assoc]
  rfl

variable (hview : Catalogued bound tx.view)
include hview

theorem row?_of_add (hadd : tx.add object = .ok (uid, tx'))
    (hwrites : object.writes? uid = some (table, row, fields)) :
    tx'.view.row? table row = some ⟨row, uid, keptFields fields⟩ := by
  obtain ⟨view, hinstall, rfl, rfl⟩ := add_eq_ok.1 hadd
  exact hview.row?_of_writes hinstall hwrites

theorem get_of_insert (h : tx.insert table fields = .ok (row, tx')) :
    ∃ r, tx'.view.row? table row = some r ∧
      ∀ column, r.get column = (lastGiven? fields column).getD .null := by
  refine ⟨_, row?_of_add hview h rfl, fun column => ?_⟩
  rw [Row.get, get?_keptFields]

theorem get_of_update (h : tx.update table row changes = .ok (uid, tx')) :
    ∃ old r, tx.view.row? table row = some old ∧ tx'.view.row? table row = some r ∧
      ∀ column, r.get column = (lastListed? changes column).getD (old.get column) := by
  obtain ⟨old, hold, hadd⟩ := update_eq_ok.1 h
  obtain ⟨t, ht, hrow⟩ := row?_eq_some.1 hold
  have hfields := (hview.rows (table?_eq_some.1 ht)).fields hrow
  obtain ⟨hlaid, hget⟩ := get?_foldl_insert hfields changes
  refine ⟨old, _, hold, row?_of_add hview hadd rfl, fun column => ?_⟩
  rw [Row.get, get?_keptFields_toList hlaid, hget]
  cases lastListed? changes column <;> rfl

end Transaction

/-! ### In what is published -/

theorem Numbered.known {steps : List Step} (h : Numbered steps) (hstep : step ∈ steps) :
    Known bound steps.length step.uid :=
  .inr (h.uid_of_mem (List.append_nil steps).symm hstep)

/-- Whatever stands in the view of a transaction was there at its start or is one of its steps, and
stays known when it takes more of them. -/
theorem Transaction.Sound.known_item {item : CatalogItem} (h : tx.Sound)
    (hroom : tx.rollbackPoint.position ≤ Uid.provisionalBase)
    (hstart : Catalogued tx.rollbackPoint.position tx.rollbackPoint)
    (hnumbered : Numbered tx.steps) (hitem : tx.view.get? u = some item)
    (hsame : tx'.rollbackPoint = tx.rollbackPoint) (hlater : tx'.steps = tx.steps ++ later) :
    Known tx'.rollbackPoint.position tx'.steps.length u := by
  have hknown : Known tx.rollbackPoint.position tx.steps.length u := by
    refine ((h hroom).known_item hstart hitem).imp_right ?_
    rintro ⟨o, ho, rfl⟩
    obtain ⟨step, hstep, rfl⟩ := List.mem_map.1 ho
    exact hnumbered.uid_of_mem (List.append_nil _).symm hstep
  rw [hsame, hlater, List.length_append]
  exact hknown.mono (Nat.le_add_right _ _)

/-- Once a log has taken the steps of a transaction, nothing unknown stands behind it. -/
theorem Engine.unknownTail_of_commit {handle' : Handle} {e' : Engine}
    (hhandle : e.handle? tx.rollbackPoint.name = some handle) (hsteps : tx.steps ≠ [])
    (hcommit : e.commit tx = (.ok s, e'))
    (hhandle' : e'.handle? tx.rollbackPoint.name = some handle') :
    handle'.log.unknownTail = false := by
  cases Engine.commits_of_commit hhandle hcommit with
  | nothing hnone => exact absurd hnone hsteps
  | @published placement position _ happend =>
    rw [Engine.handle?_setHandle_self] at hhandle'
    cases hhandle'
    generalize houtcome :
      handle.log.append e.disk placement.payload handle.config.durability = outcome at *
    obtain ⟨fate, happends⟩ := Log.exists_appends houtcome
    cases happends with
    | memory htail | done htail => exact htail
    | refused | missing | undone | torn => cases happend

namespace Consistent

variable (h : Consistent name opened w handle bytes) (htx : tx ∈ w.transactions)
  (hcommit : w.engine.commit tx = (.ok s, e))
include h htx hcommit

/-- What a step has written into a field is published, if the steps behind it spare the field. -/
theorem field_committed (hnumbered : Numbered tx.steps)
    (hroom : bytes.length ≤ Uid.provisionalBase) (hsteps : tx.steps = before ++ step :: later)
    (hwrites : step.object.writes? step.uid = some (table, row, fields))
    (hcolumn : Known tx.rollbackPoint.position tx.steps.length column)
    (hspares : ∀ step ∈ later, step.object.Spares step.uid table row column) :
    let f := relocated bytes.length tx.steps
    ∃ r, s.row? (f table) (f row) = some r ∧
      r.get (f column) = (lastGiven? fields column).getD .null := by
  intro f
  -- All that is asked about is known to the transaction, and there `f` keeps it apart.
  have hposition := h.position_le (h.begun tx htx).1
  have hscoped := h.steps_scoped htx hnumbered hroom
  have hinj : ∀ {u v}, Known tx.rollbackPoint.position tx.steps.length u →
      Known tx.rollbackPoint.position tx.steps.length v → f u = f v → u = v :=
    relocated_inj hposition hroom
  have hstep : step ∈ tx.steps := hsteps ▸ List.mem_append_right _ List.mem_cons_self
  have hlater : ∀ other ∈ later, other ∈ tx.steps := fun other hother =>
    hsteps ▸ List.mem_append_right _ (List.mem_cons_of_mem _ hother)
  obtain ⟨htable, hrow, hfields⟩ := LogObject.mem_uids_of_writes? hwrites
  have hknown := hscoped.known hstep
  have hrow : Known tx.rollbackPoint.position tx.steps.length row :=
    hrow.elim (fun heq => heq ▸ hnumbered.known hstep) (hknown row)
  have hbuilds := h.builds_commit htx hcommit
  rw [placed_eq_map hnumbered hscoped (Nat.le_trans hposition hroom)] at hbuilds
  have hobjects := congrArg (List.map fun step => relabel f step.pair) hsteps
  rw [List.map_append, List.map_cons] at hobjects
  have hspares' : ∀ p ∈ later.map fun step => relabel f step.pair,
      p.2.Spares p.1 (f table) (f row) (f column) := by
    intro p hp
    obtain ⟨other, hother, rfl⟩ := List.mem_map.1 hp
    exact (hspares other hother).mapUids hinj (hnumbered.known (hlater other hother))
      (hscoped.known (hlater other hother)) (hknown table htable) hrow hcolumn
  have hlatest := (h.reflects _ h.mem_latest).catalogued
  rw [h.ends] at hlatest
  obtain ⟨r, hr, hread⟩ := hbuilds.field_of_writes hlatest hobjects
    (LogObject.writes?_mapUids hwrites f) hspares'
  refine ⟨r, hr, hread.trans ?_⟩
  rw [lastGiven?_map fun field hfield => hinj hcolumn (hknown _ (hfields field hfield))]

/-- What a commit has published is the latest snapshot, and the one that its file is opened with
again. -/
theorem reopen_committed (hsteps : tx.steps ≠ []) (hroom : e.logLength name < Bytes.limit) :
    e.latest? name = some s ∧
      ∀ handle', e.handle? name = some handle' → handle'.log.path? = some name →
        ∀ config : Config, config.durability ≠ .memory →
          ∃ e', (e.close s).2.openFile name config = .ok (s, e') := by
  obtain ⟨handle', hs, hbehind⟩ := h.behind_commit htx hcommit hroom
  refine ⟨hs ▸ hbehind.latest?_eq, fun found hfound hfile config hconfig => ?_⟩
  cases hbehind.registered.symm.trans hfound
  have htail : handle'.log.unknownTail = false := by
    rw [← h.name_of_begun htx] at hfound
    exact Engine.unknownTail_of_commit (h.registered_of_begun htx) hsteps hcommit hfound
  rw [← hs]
  exact hbehind.reopen hfile hconfig htail

end Consistent

/-- The row of an insert reads in each column the last value of the list that is not null. This is
what stands last unless the column is listed with a value and then with null at the end. A row that
is updated reads what stands last, null or not, and otherwise what it has read before. A commit
publishes the row with the same values, whatever else was committed in between, if the later steps
neither write it nor drop the column; and its file is opened again with what was published. -/
theorem fields_read_as_listed {name : String} {w : Session} {tx : Transaction}
    (h : Reachable name w) (htx : tx ∈ w.transactions)
    (hroom : w.engine.logLength name ≤ Uid.provisionalBase) :
    (∀ table row fields tx', tx.insert table fields = .ok (row, tx') →
      ∃ r, tx'.view.row? table row = some r ∧ ∀ column,
        r.get column = (lastGiven? fields column).getD .null ∧
          (r.get column = (lastListed? fields column).getD .null ↔
            ¬(lastListed? fields column = some .null ∧
              ∃ value, value ≠ .null ∧ (column, value) ∈ fields))) ∧
    (∀ table row changes uid tx', tx.update table row changes = .ok (uid, tx') →
      ∃ old r, tx.view.row? table row = some old ∧ tx'.view.row? table row = some r ∧
        ∀ column, r.get column = (lastListed? changes column).getD (old.get column)) ∧
    ∀ table row tx', ((∃ fields, tx.insert table fields = .ok (row, tx')) ∨
        ∃ changes uid, tx.update table row changes = .ok (uid, tx')) →
      ∀ w' tx'' later s e, Run name w w' → tx'' ∈ w'.transactions →
        tx''.rollbackPoint = tx'.rollbackPoint → tx''.steps = tx'.steps ++ later →
        w'.engine.logLength name ≤ Uid.provisionalBase → w'.engine.commit tx'' = (.ok s, e) →
        (∀ r column c, tx'.view.row? table row = some r → tx'.view.column? column = some c →
          (∀ step ∈ later, step.object.Spares step.uid table row column) →
          let f := relocated (w'.engine.logLength name) tx''.steps
          ∃ r', s.row? (f table) (f row) = some r' ∧ r'.get (f column) = r.get column) ∧
        (e.logLength name < Bytes.limit →
          e.latest? name = some s ∧
            ∀ handle, e.handle? name = some handle → handle.log.path? = some name →
              ∀ config : Config, config.durability ≠ .memory →
                ∃ e', (e.close s).2.openFile name config = .ok (s, e')) := by
  obtain ⟨opened, handle, bytes, hw⟩ :=
    consistent_of_reachable h (Nat.lt_of_le_of_lt hroom (by decide))
  rw [hw.logLength] at hroom
  obtain ⟨hbegun, hsound⟩ := hw.begun tx htx
  have hbound := Nat.le_trans (hw.position_le hbegun) hroom
  have hstart := (hw.reflects _ hbegun).catalogued
  have hview := (hsound hbound).catalogued hstart
  refine ⟨fun table row fields tx' hinsert => ?_,
    fun table row changes uid tx' => Transaction.get_of_update hview,
    fun table row tx' hwritten w' tx'' later s e hrun htx'' hsame hlater hroom' hcommit => ?_⟩
  · obtain ⟨r, hr, hread⟩ := Transaction.get_of_insert hview hinsert
    refine ⟨r, hr, fun column => ⟨hread column, ?_⟩⟩
    rw [hread]
    exact lastGiven?_eq_lastListed?_iff
  · obtain ⟨first, hopened, hrun₀⟩ := h
    have hreachable : Reachable name w' := ⟨first, hopened, hrun₀.trans hrun⟩
    obtain ⟨opened', handle', bytes', hw'⟩ :=
      consistent_of_reachable hreachable (Nat.lt_of_le_of_lt hroom' (by decide))
    rw [hw'.logLength] at hroom' ⊢
    have hnumbered := numbered_of_reachable hreachable tx'' htx''
    obtain ⟨object, uid, fields, hadd, hwrites⟩ := Transaction.exists_add_of_written hwritten
    have hchanges : Changes tx tx' := .add hadd
    have hsteps := hlater.trans (Transaction.steps_of_add hadd)
    have hrollback : tx'.rollbackPoint = tx.rollbackPoint := (Transaction.eq_of_changes hchanges).1
    refine ⟨fun r column c hr hc hspares => ?_, fun hend => hw'.reopen_committed htx'' hcommit
      (hsteps ▸ List.append_ne_nil_of_right_ne_nil _ (List.cons_ne_nil _ _)) hend⟩
    have hcolumn := (hsound.of_changes hchanges).known_item (hrollback ▸ hbound)
      (hrollback ▸ hstart)
      ((numbered_of_reachable ⟨first, hopened, hrun₀⟩ tx htx).of_changes hchanges)
      (column?_eq_some.1 hc) hsame hlater
    obtain ⟨r', hr', hread⟩ := hw'.field_committed htx'' hcommit hnumbered hroom' hsteps hwrites
      hcolumn hspares
    cases (Transaction.row?_of_add hview hadd hwrites).symm.trans hr
    refine ⟨r', hr', hread.trans ?_⟩
    rw [Row.get, get?_keptFields]

/-- A row is inserted in a file with a column listed twice, another table is created behind it, and
the file is opened again after the commit. -/
theorem fields_read_as_listed_after_reopen :
    let opened := Engine.setHandle ⟨Disk.empty.set "f" (.file [] []), []⟩ "f"
      ⟨⟨.file "f", 0, false⟩, .default, .empty "f"⟩
    let tx := (Snapshot.empty "f").begin.taking
      [.newTable "t", .newColumn "a" .integer (.provisional 0)]
    let fields : List Field := [(.provisional 1, .integer 1), (.provisional 1, .integer 2)]
    ∃ tx' r s e r' e', tx.insert (.provisional 0) fields = .ok (.provisional 2, tx') ∧
      tx'.view.row? (.provisional 0) (.provisional 2) = some r ∧
      r.get (.provisional 1) = .integer 2 ∧
      opened.commit (tx'.taking [.newTable "u"]) = (.ok s, e) ∧
      s.row? ⟨0⟩ ⟨11⟩ = some r' ∧ r'.get ⟨4⟩ = .integer 2 ∧
      (e.close s).2.openFile "f" .default = .ok (s, e') := by
  intro opened tx fields
  let tx' := tx.taking [.record (.provisional 0) fields]
  let tx'' := tx'.taking [.newTable "u"]
  have hstart : Opened "f" ⟨opened, [.empty "f"], [], []⟩ :=
    @Opened.file "f" ⟨Disk.empty.set "f" (.file [] []), []⟩ opened .default _ rfl rfl
  have hbegun : Run "f" ⟨opened, [.empty "f"], [], []⟩ ⟨opened, [.empty "f"], [], [tx]⟩ :=
    (@Run.refl "f" ⟨opened, [.empty "f"], [], []⟩).begin List.mem_cons_self _
  have htaken : Run "f" ⟨opened, [.empty "f"], [], [tx]⟩ ⟨opened, [.empty "f"], [], [tx']⟩ :=
    @Run.taking "f" _ ⟨opened, [.empty "f"], [], []⟩ tx .refl _
  have hrun : Run "f" ⟨opened, [.empty "f"], [], [tx]⟩ ⟨opened, [.empty "f"], [], [tx'']⟩ :=
    @Run.taking "f" _ ⟨opened, [.empty "f"], [], []⟩ tx' htaken _
  have hinsert : tx.insert (.provisional 0) fields = .ok (.provisional 2, tx') := by
    have hcount : tx.steps.length = 2 := by decide +kernel
    rw [← hcount]
    exact Transaction.add_eq_taking (by decide +kernel)
  have hlater : tx''.steps = tx'.steps ++ [⟨.provisional 3, .newTable "u"⟩] := by decide +kernel
  obtain ⟨s, hs⟩ := Option.isSome_iff_exists.1
    (by decide +kernel : (opened.commit tx'').1.toOption.isSome)
  rw [toOption_eq_some] at hs
  have htable : relocated (opened.logLength "f") tx''.steps (.provisional 0) = ⟨0⟩ := by
    decide +kernel
  have hcolumn : relocated (opened.logLength "f") tx''.steps (.provisional 1) = ⟨4⟩ := by
    decide +kernel
  have hrow : relocated (opened.logLength "f") tx''.steps (.provisional 2) = ⟨11⟩ := by
    decide +kernel
  obtain ⟨c, hc⟩ := Option.isSome_iff_exists.1
    (by decide +kernel : (tx'.view.column? (.provisional 1)).isSome)
  obtain ⟨handle, hhandle, hpath⟩ := Option.map_eq_some_iff.1
    (by decide +kernel : ((opened.commit tx'').2.handle? "f").map (·.log.path?) = some (some "f"))
  obtain ⟨hread, _, hpublish⟩ := fields_read_as_listed ⟨_, hstart, hbegun⟩ List.mem_cons_self
    (by decide +kernel)
  obtain ⟨r, hr, hlisted⟩ := hread _ _ _ _ hinsert
  have hvalue : r.get (.provisional 1) = .integer 2 := (hlisted _).1.trans (by decide +kernel)
  obtain ⟨hkept, hreopen⟩ := hpublish _ _ tx' (.inl ⟨fields, hinsert⟩) _ tx'' _ s _ hrun
    List.mem_cons_self (Transaction.rollbackPoint_taking tx' _) hlater (by decide +kernel)
    (Prod.ext hs rfl)
  obtain ⟨r', hr', hsame⟩ := hkept r (.provisional 1) c hr hc
    (List.forall_mem_singleton.2 ⟨nofun, nofun, nofun⟩)
  obtain ⟨e', hopen⟩ := (hreopen (by decide +kernel)).2 handle hhandle hpath .default (by decide)
  have hr' : s.row? (relocated (opened.logLength "f") tx''.steps (.provisional 0))
      (relocated (opened.logLength "f") tx''.steps (.provisional 2)) = some r' := hr'
  have hsame : r'.get (relocated (opened.logLength "f") tx''.steps (.provisional 1)) = _ := hsame
  rw [htable, hrow] at hr'
  rw [hcolumn, hvalue] at hsame
  exact ⟨tx', r, s, _, r', e', hinsert, hr, hvalue, Prod.ext hs rfl, hr', hsame, hopen⟩

/-- An insert reads the value of a column in front of a null, while an update with the same list
clears the column. -/
theorem insert_reads_value_in_front_of_null :
    let tx := (Snapshot.empty "db").begin.taking
      [.newTable "t", .newColumn "a" .integer (.provisional 0)]
    let fields : List Field := [(.provisional 1, .integer 1), (.provisional 1, .null)]
    Reachable "db" ⟨(Session.fresh "db").engine, [.empty "db"], [], [tx]⟩ ∧
      lastListed? fields (.provisional 1) = some .null ∧
      ∃ tx' r uid tx'' r', tx.insert (.provisional 0) fields = .ok (.provisional 2, tx') ∧
        tx'.view.row? (.provisional 0) (.provisional 2) = some r ∧
        r.get (.provisional 1) = .integer 1 ∧
        tx'.update (.provisional 0) (.provisional 2) fields = .ok (uid, tx'') ∧
        tx''.view.row? (.provisional 0) (.provisional 2) = some r' ∧
        r'.get (.provisional 1) = .null := by
  intro tx fields
  let tx' := tx.taking [.record (.provisional 0) fields]
  have hbegun : Run "db" (.fresh "db") ⟨(Session.fresh "db").engine, [.empty "db"], [], [tx]⟩ :=
    Run.refl.begin List.mem_cons_self _
  have hinsert : tx.insert (.provisional 0) fields = .ok (.provisional 2, tx') := by
    have hcount : tx.steps.length = 2 := by decide +kernel
    rw [← hcount]
    exact Transaction.add_eq_taking (by decide +kernel)
  have hupdated : (tx'.update (.provisional 0) (.provisional 2) fields).toOption.map (fun added =>
      (added.2.view.row? (.provisional 0) (.provisional 2)).map (·.get (.provisional 1))) =
        some (some .null) := by
    decide +kernel
  have hread : (tx'.view.row? (.provisional 0) (.provisional 2)).map (·.get (.provisional 1)) =
      some (.integer 1) := by
    decide +kernel
  obtain ⟨⟨uid, tx''⟩, hupdate, hupdated⟩ := Option.map_eq_some_iff.1 hupdated
  obtain ⟨r', hr', hnull⟩ := Option.map_eq_some_iff.1 hupdated
  obtain ⟨r, hr, hvalue⟩ := Option.map_eq_some_iff.1 hread
  exact ⟨⟨_, opened_fresh "db", hbegun⟩, rfl, tx', r, uid, tx'', r', hinsert, hr, hvalue,
    toOption_eq_some.1 hupdate, hr', hnull⟩

end SnapshotStore
