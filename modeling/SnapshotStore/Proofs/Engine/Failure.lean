import SnapshotStore.Proofs.Engine.Equivalence
import SnapshotStore.Proofs.Engine.History

/-!
# Commits that fail

A commit that fails before its append changes nothing at all. If the append fails and the file is
cut back, all that is gone is the outcome of one change. If the cut fails too, the log refuses every
append from then on; its bytes and the published snapshot stay even then.
-/

namespace SnapshotStore

variable {name : String} {w w' : Session} {handle handle' : Handle} {bytes bytes' : List UInt8}
  {e e' : Engine} {tx : Transaction} {log : Log} {disk : Disk} {payload : List UInt8}
  {durability : Durability} {error : Error}

/-! ### What there is to see of a database -/

namespace Engine

/-- Any part of the log of an open database. -/
def logRead? (e : Engine) (name : String) (first last : Nat) : Option (Except Error (List UInt8)) :=
  (e.handle? name).map fun handle => handle.log.read e.disk first last

/-- Nothing that there is to see of a database has changed. -/
structure Unchanged (name : String) (e e' : Engine) : Prop where
  latest : e'.latest? name = e.latest? name
  logLength : e'.logLength name = e.logLength name
  logRead : ∀ first last, e'.logRead? name first last = e.logRead? name first last

end Engine

/-! ### Appends that fail -/

def Medium.awaiting (outcomes : List ChangeOutcome) : Medium → Medium
  | file bytes _ => file bytes outcomes
  | fullDevice => fullDevice

/-- The outcomes of the coming changes of one file are these. -/
def Engine.awaiting (e : Engine) (name : String) (outcomes : List ChangeOutcome) : Engine :=
  { e with disk := fun other =>
      if other = name then (e.disk other).map (.awaiting outcomes) else e.disk other }

theorem Engine.awaiting_setHandle (file : String) (outcomes : List ChangeOutcome) :
    (e.setHandle name handle).awaiting file outcomes =
      (e.awaiting file outcomes).setHandle name handle := rfl

/-- A file that was cut back holds what it held. -/
theorem Medium.awaiting_of_undone {medium cut : Medium} {start : Nat} {synced : Bool}
    (hstart : medium.bytes.length = start) (h : medium.write start payload synced = (.undone, cut))
    (outcomes : List ChangeOutcome) : cut.awaiting outcomes = medium.awaiting outcomes := by
  subst hstart
  cases medium with
  | fullDevice =>
    rw [write] at h
    split at h <;> cases h
  | file held coming =>
    cases coming with
    | nil => cases h
    | cons outcome coming =>
      cases outcome with
      | done | torn => cases h
      | undone =>
        cases h
        exact congrArg (file · outcomes) (resized_length held)

namespace Log

/-- An append of these bytes fails, and the file cannot be cut back either. -/
def Sticks (log : Log) (disk : Disk) (payload : List UInt8) (durability : Durability) : Prop :=
  log.unknownTail = false ∧ ∃ file medium, log.backing = .file file ∧ disk file = some medium ∧
    ∃ left, (medium.write log.length payload (durability = .full)).1 = .torn left

theorem append_of_sticks (h : log.Sticks disk payload durability) :
    (log.append disk payload durability).result = .error .fileSystem ∧
      (log.append disk payload durability).log = { log with unknownTail := true } := by
  obtain ⟨htail, file, medium, hbacking, hmedium, left, htorn⟩ := h
  generalize houtcome : log.append disk payload durability = outcome
  obtain ⟨fate, happends⟩ := exists_appends houtcome
  cases happends with
  | refused hfound => cases htail.symm.trans hfound
  | memory _ hfound => cases hbacking.symm.trans hfound
  | missing _ hfound hdisk =>
    cases hbacking.symm.trans hfound
    cases hmedium.symm.trans hdisk
  | done _ hfound hdisk hwrite | undone _ hfound hdisk hwrite =>
    cases hbacking.symm.trans hfound
    cases hmedium.symm.trans hdisk
    rw [hwrite] at htorn
    cases htorn
  | torn => exact ⟨rfl, rfl⟩

theorem append_of_unknownTail (h : log.unknownTail = true) (disk : Disk) (payload : List UInt8)
    (durability : Durability) : log.append disk payload durability =
      ⟨.error (.corruption (.unknownTail log.length)), log, disk⟩ :=
  if_pos h

/-- An append that fails without sticking uses up the outcome of a change at most. -/
theorem Contains.append_error (h : log.Contains disk bytes)
    (hpath : ∀ file, log.path? = some file → file = name)
    (herror : (log.append disk payload durability).result = .error error)
    (hsticks : ¬log.Sticks disk payload durability) (outcomes : List ChangeOutcome)
    (handles : List (String × Handle)) :
    (log.append disk payload durability).log = log ∧
      Engine.awaiting ⟨(log.append disk payload durability).disk, handles⟩ name outcomes =
        Engine.awaiting ⟨disk, handles⟩ name outcomes := by
  generalize houtcome : log.append disk payload durability = outcome at herror
  obtain ⟨fate, happends⟩ := exists_appends houtcome
  cases happends with
  | refused | missing => exact ⟨rfl, rfl⟩
  | memory | done => cases herror
  | @undone file medium cut htail hbacking hdisk hwrite =>
    have hname := hpath file (by rw [path?, hbacking])
    have hlength := congrArg List.length ((h.of_file hbacking hdisk).2 htail)
    refine ⟨rfl, congrArg (Engine.mk · handles) (funext fun other => ?_)⟩
    dsimp only
    by_cases hother : other = name
    · rw [if_pos hother, if_pos hother, hother, ← hname, hdisk, Disk.set_same]
      exact congrArg some (Medium.awaiting_of_undone (hlength.trans h.1) hwrite outcomes)
    · rw [if_neg hother, if_neg hother]
      exact Disk.set_other _ _ (hname ▸ hother)
  | torn htail hbacking hdisk hwrite =>
    exact absurd ⟨htail, _, _, hbacking, hdisk, _, congrArg Prod.fst hwrite⟩ hsticks

end Log

/-- Nothing is committed to a log that refuses every append. -/
theorem Engine.commit_of_unknownTail {result : Except Error Snapshot}
    (hhandle : e.handle? tx.rollbackPoint.name = some handle)
    (htail : handle.log.unknownTail = true) (hcommit : e.commit tx = (result, e')) :
    e'.Same e ∧ (tx.steps ≠ [] → ∃ error, result = .error error) := by
  cases commits_of_commit hhandle hcommit with
  | nothing hnothing => exact ⟨.refl e, fun hsteps => absurd hnothing hsteps⟩
  | refused => exact ⟨.refl e, fun _ => ⟨_, rfl⟩⟩
  | failed =>
    rw [Log.append_of_unknownTail htail]
    exact ⟨.setHandle_self hhandle, fun _ => ⟨_, rfl⟩⟩
  | published _ happend =>
    rw [Log.append_of_unknownTail htail] at happend
    cases happend

/-! ### The log of a session -/

/-- The log of a session is made of these bytes, and the session is about one database. -/
structure Backed (name : String) (w : Session) (handle : Handle) (bytes : List UInt8) : Prop where
  registered : w.engine.handle? name = some handle
  contents : handle.log.Contains w.engine.disk bytes
  path : ∀ file, handle.log.path? = some file → file = name
  ends : handle.published.position = bytes.length
  named : handle.published.name = name
  published : ∀ s ∈ w.published, s.name = name
  begun : ∀ tx ∈ w.transactions, tx.rollbackPoint.name = name

namespace Backed

theorem unchanged (h : Backed name w handle bytes) (h' : Backed name w' handle' bytes)
    (hpublished : handle'.published = handle.published) :
    w.engine.Unchanged name w'.engine where
  latest := by
    rw [Engine.latest?, Engine.latest?, h.registered, h'.registered, Option.map_some,
      Option.map_some, hpublished]
  logLength := by
    rw [Engine.logLength_of_handle? h.registered, Engine.logLength_of_handle? h'.registered,
      ← h.contents.1, ← h'.contents.1]
  logRead first last := by
    rw [Engine.logRead?, Engine.logRead?, h.registered, h'.registered]
    exact congrArg some (h.contents.read_eq h'.contents first last)

/-- A commit to the database, whatever comes of it. One that fails leaves the bytes of the log as
they were, and a log that refuses every append stays as it is in any case. -/
theorem commit {result : Except Error Snapshot} {transactions : List Transaction}
    (h : Backed name w handle bytes) (hname : tx.rollbackPoint.name = name)
    (hcommit : w.engine.commit tx = (result, e))
    (htransactions : ∀ tx ∈ transactions, tx.rollbackPoint.name = name) :
    ∃ handle' bytes', (handle.log.unknownTail = true → handle' = handle ∧ bytes' = bytes) ∧
      (∀ error, result = .error error → handle'.published = handle.published ∧ bytes' = bytes ∧
        Backed name { w with engine := e, transactions } handle' bytes') ∧
      ∀ s, result = .ok s → ∀ committed,
        Backed name ⟨e, w.published ++ [s], committed, transactions⟩ handle' bytes' := by
  have hregistered := h.registered
  rw [← hname] at hregistered
  obtain ⟨handle', hhandle', hpath, hend⟩ :=
    Engine.contents_of_commit hregistered h.contents h.ends hcommit
  have hsame : handle.log.unknownTail = true → handle' = handle := by
    intro htail
    have hsame := (Engine.commit_of_unknownTail hregistered htail hcommit).1
    exact Option.some.inj (hhandle'.symm.trans ((hsame.handles _).trans hregistered))
  rw [hname] at hhandle'
  rcases hend with
    ⟨⟨_, rfl⟩, hpublished, hcontents⟩ | ⟨placement, hplacement, rfl, hpublished, hcontents⟩
  · refine ⟨handle', bytes, fun htail => ⟨hsame htail, rfl⟩, fun _ _ => ⟨hpublished, rfl, ?_⟩,
      fun _ hs => (nomatch hs)⟩
    exact ⟨hhandle', hcontents, hpath ▸ h.path, hpublished ▸ h.ends, hpublished ▸ h.named,
      h.published, htransactions⟩
  · refine ⟨handle', bytes ++ placement.payload, fun htail => ⟨hsame htail, ?_⟩,
      fun _ herror => (nomatch herror), fun s hs _ => ?_⟩
    · have hlength := hcontents.1
      rw [hsame htail, List.length_append, ← h.contents.1, Nat.add_eq_left,
        List.length_eq_zero_iff] at hlength
      rw [hlength, List.append_nil]
    · have hnamed : handle'.published.name = name := by
        rw [hpublished]
        exact (Placement.name_ofSteps hplacement).trans h.named
      have hends : handle'.published.position = (bytes ++ placement.payload).length := by
        rw [hpublished, List.length_append]
        rfl
      cases hs
      refine ⟨hhandle', hcontents, hpath ▸ h.path, hends, hnamed, ?_, htransactions⟩
      exact List.forall_mem_append.2 ⟨h.published, List.forall_mem_singleton.2 hnamed⟩

/-- One step in the life of the database. A log that refuses every append stays as it is. -/
theorem move (h : Backed name w handle bytes) (hmove : Move name w w') :
    ∃ handle' bytes', Backed name w' handle' bytes' ∧
      (handle.log.unknownTail = true → handle' = handle ∧ bytes' = bytes) := by
  have hsame : ∀ {transactions : List Transaction},
      (∀ tx ∈ transactions, tx.rollbackPoint.name = name) → ∃ handle' bytes',
        Backed name { w with transactions } handle' bytes' ∧
          (handle.log.unknownTail = true → handle' = handle ∧ bytes' = bytes) :=
    fun htransactions => ⟨handle, bytes, { h with begun := htransactions }, fun _ => ⟨rfl, rfl⟩⟩
  cases hmove with
  | @begin s hs =>
    refine hsame fun tx htx => ?_
    rcases List.mem_append.1 htx with htx | htx
    · exact h.begun tx htx
    · rw [List.mem_singleton.1 htx]
      exact h.published s hs
  | @change before after tx tx' htx hchanges =>
    refine hsame fun other hother => ?_
    have hall : ∀ b ∈ before ++ tx :: after, b.rollbackPoint.name = name := htx ▸ h.begun
    rw [List.forall_mem_append, List.forall_mem_cons] at hall
    rcases List.mem_append.1 hother with hother | hother
    · exact hall.1 other hother
    · rcases List.mem_cons.1 hother with rfl | hother
      · rw [(Transaction.eq_of_changes hchanges).1]
        exact hall.2.1
      · exact hall.2.2 other hother
  | giveUp htx =>
    exact hsame fun other hother => h.begun other (mem_of_mem_remaining htx other hother)
  | @elsewhere e hhandle hdisk =>
    exact ⟨handle, bytes, { h with
      registered := hhandle.trans h.registered
      contents := h.contents.congr h.path hdisk }, fun _ => ⟨rfl, rfl⟩⟩
  | @commit _ _ tx _ _ htx hcommit =>
    have hname := h.begun tx (htx ▸ List.mem_append_cons_self)
    obtain ⟨handle', bytes', htail, _, hok⟩ := h.commit hname hcommit
      fun other hother => h.begun other (mem_of_mem_remaining htx other hother)
    exact ⟨handle', bytes', hok _ rfl _, htail⟩
  | @fail _ _ tx _ _ htx hcommit =>
    have hname := h.begun tx (htx ▸ List.mem_append_cons_self)
    obtain ⟨handle', bytes', htail, herror, _⟩ := h.commit hname hcommit
      fun other hother => h.begun other (mem_of_mem_remaining htx other hother)
    exact ⟨handle', bytes', (herror _ rfl).2.2, htail⟩

theorem run (h : Backed name w handle bytes) (hrun : Run name w w') :
    ∃ handle' bytes', Backed name w' handle' bytes' ∧
      (handle.log.unknownTail = true → handle' = handle ∧ bytes' = bytes) := by
  induction hrun with
  | refl => exact ⟨handle, bytes, h, fun _ => ⟨rfl, rfl⟩⟩
  | step _ hmove ih =>
    obtain ⟨_, _, hmid, htail⟩ := ih
    obtain ⟨handle', bytes', hw', htail'⟩ := hmid.move hmove
    refine ⟨handle', bytes', hw', fun htrue => ?_⟩
    obtain ⟨rfl, rfl⟩ := htail htrue
    exact htail' htrue

end Backed

theorem Consistent.backed {opened : List UInt8} (h : Consistent name opened w handle bytes) :
    Backed name w handle bytes where
  registered := h.registered
  contents := h.contents
  path := h.path
  ends := h.ends
  named := (h.reflects _ h.mem_latest).name_eq
  published := fun s hs => (h.reflects s hs).name_eq
  begun := fun tx htx => (h.reflects _ (h.begun tx htx).1).name_eq

theorem backed_of_reachable (h : Reachable name w) :
    ∃ handle bytes, Backed name w handle bytes := by
  obtain ⟨first, hopened, hrun⟩ := h
  obtain ⟨_, _, hfirst⟩ := consistent_of_opened hopened
  obtain ⟨handle, bytes, hw, _⟩ := hfirst.backed.run hrun
  exact ⟨handle, bytes, hw⟩

/-! ### Commits that fail -/

namespace Engine

/-- The commit comes to an append that fails, and the file cannot be cut back either. -/
def Sticks (e : Engine) (tx : Transaction) : Prop :=
  ∃ handle placement, e.handle? tx.rollbackPoint.name = some handle ∧ tx.steps ≠ [] ∧
    handle.place e.disk tx = .ok placement ∧
    handle.log.Sticks e.disk placement.payload handle.config.durability

theorem steps_ne_nil_of_failed (hhandle : e.handle? tx.rollbackPoint.name = some handle)
    (hcommit : e.commit tx = (.error error, e')) : tx.steps ≠ [] := by
  intro hsteps
  rw [commit, hhandle] at hcommit
  dsimp only at hcommit
  rw [if_pos (List.isEmpty_iff.2 hsteps)] at hcommit
  cases hcommit

theorem handle?_of_sticks {result : Except Error Snapshot} (h : e.Sticks tx)
    (hcommit : e.commit tx = (result, e')) :
    ∃ handle, e'.handle? tx.rollbackPoint.name = some handle ∧ handle.log.unknownTail = true := by
  obtain ⟨handle, placement, hhandle, hsteps, hplace, hsticks⟩ := h
  obtain ⟨hresult, hlog⟩ := Log.append_of_sticks hsticks
  cases commits_of_commit hhandle hcommit with
  | nothing hnothing => exact absurd hnothing hsteps
  | refused hrefused =>
    rw [hplace] at hrefused
    cases hrefused
  | failed hfound =>
    cases hplace.symm.trans hfound
    exact ⟨_, handle?_setHandle_self, by rw [hlog]⟩
  | published hfound happend =>
    cases hplace.symm.trans hfound
    rw [hresult] at happend
    cases happend

end Engine

/-- Unless the file could not be cut back, a failed commit uses up the outcome of at most one
change. -/
theorem Backed.awaiting_of_failed (h : Backed name w handle bytes)
    (hname : tx.rollbackPoint.name = name) (hcommit : w.engine.commit tx = (.error error, e))
    (hsticks : ¬w.engine.Sticks tx) (outcomes : List ChangeOutcome) :
    (e.awaiting name outcomes).Same (w.engine.awaiting name outcomes) := by
  have hregistered := h.registered
  rw [← hname] at hregistered
  cases Engine.commits_of_commit hregistered hcommit with
  | refused => exact .refl _
  | @failed placement _ hplace happend =>
    have hsteps := Engine.steps_ne_nil_of_failed hregistered hcommit
    obtain ⟨hlog, hawaiting⟩ := h.contents.append_error h.path happend
      (fun hstuck => hsticks ⟨handle, placement, hregistered, hsteps, hplace, hstuck⟩) outcomes
      w.engine.handles
    rw [hlog, hname, Engine.awaiting_setHandle, hawaiting]
    exact .setHandle_self h.registered

/-- A commit that fails leaves no trace in its database: what there is to see of it stays, and if
the coming changes of its file turn out alike, all later commits give what they would have given
without it. If the file could not be cut back, everything still stays as it is for as long as the
database is open, but every later commit with steps fails. -/
theorem failed_commit_leaves_no_trace (h : Reachable name w) (hname : tx.rollbackPoint.name = name)
    (hcommit : w.engine.commit tx = (.error error, e)) :
    w.engine.Unchanged name e ∧
      (¬w.engine.Sticks tx → ∀ outcomes,
        (e.awaiting name outcomes).Same (w.engine.awaiting name outcomes) ∧
          ∀ later, ((e.awaiting name outcomes).commitAll later).1 =
            ((w.engine.awaiting name outcomes).commitAll later).1) ∧
      (w.engine.Sticks tx → ∀ w', Run name { w with engine := e } w' →
        w.engine.Unchanged name w'.engine ∧
          ∀ later : Transaction, later.rollbackPoint.name = name → later.steps ≠ [] →
            ∃ error e', w'.engine.commit later = (.error error, e') ∧ e'.Same w'.engine) := by
  obtain ⟨handle, bytes, hw⟩ := backed_of_reachable h
  obtain ⟨handle', bytes', _, hfailed, _⟩ := hw.commit hname hcommit hw.begun
  obtain ⟨hpublished, rfl, hw'⟩ := hfailed error rfl
  refine ⟨hw.unchanged hw' hpublished, fun hsticks outcomes => ?_, fun hsticks w' hrun => ?_⟩
  · have hsame := hw.awaiting_of_failed hname hcommit hsticks outcomes
    exact ⟨hsame, fun later => (hsame.commitAll later).1⟩
  · obtain ⟨stuck, hstuck, htail⟩ := Engine.handle?_of_sticks hsticks hcommit
    rw [hname] at hstuck
    cases hstuck.symm.trans hw'.registered
    obtain ⟨last, _, hlast, hsame⟩ := hw'.run hrun
    obtain ⟨rfl, rfl⟩ := hsame htail
    refine ⟨hw.unchanged hlast hpublished, fun later hlater hsteps => ?_⟩
    obtain ⟨hunchanged, hrefused⟩ :=
      Engine.commit_of_unknownTail (hlater.symm ▸ hlast.registered) htail rfl
    obtain ⟨error, herror⟩ := hrefused hsteps
    exact ⟨error, _, Prod.ext herror rfl, hunchanged⟩

/-- The first write to a new file is undone and the second one sticks: after the first attempt a
table is created as if nothing had happened, after the second one never again. -/
theorem failed_commit_leaves_no_trace_in_file :
    let empty : Engine := ⟨Disk.empty.set "f" (.file [] [.undone, .torn [7]]), []⟩
    let opened := empty.setHandle "f" ⟨⟨.file "f", 0, false⟩, .default, .empty "f"⟩
    let tx := (Snapshot.empty "f").begin.taking [.newTable "t"]
    ∃ first second, opened.commit tx = (.error .fileSystem, first) ∧
      ((first.awaiting "f" []).commitAll [tx]).1 = ((opened.awaiting "f" []).commitAll [tx]).1 ∧
      first.commit tx = (.error .fileSystem, second) ∧ second.latest? "f" = some (.empty "f") ∧
      ∃ error, (second.commit tx).1 = .error error := by
  intro empty opened tx
  obtain ⟨first, hfirst⟩ : ∃ first, opened.commit tx = (.error .fileSystem, first) := ⟨_, rfl⟩
  obtain ⟨second, hsecond⟩ : ∃ second, first.commit tx = (.error .fileSystem, second) := by
    cases hfirst
    exact ⟨_, rfl⟩
  have hstart : Opened "f" ⟨opened, [.empty "f"], [], []⟩ :=
    @Opened.file "f" empty opened .default _ rfl rfl
  have hrun : Run "f" ⟨opened, [.empty "f"], [], []⟩ ⟨first, [.empty "f"], [], []⟩ := by
    cases hfirst
    exact (@Run.refl "f" ⟨opened, [.empty "f"], [], []⟩).settle List.mem_cons_self [.newTable "t"]
  have hundone : ¬opened.Sticks tx := by
    rintro ⟨_, _, hhandle, _, _, _, _, _, hbacking, hmedium, _, hwrite⟩
    cases hhandle
    cases hbacking
    cases hmedium
    cases hwrite
  have hstuck : first.Sticks tx := by
    cases hfirst
    exact ⟨_, _, rfl, by decide, rfl, rfl, "f", _, rfl, rfl, _, rfl⟩
  obtain ⟨hkept, hretry, _⟩ := failed_commit_leaves_no_trace ⟨_, hstart, .refl⟩ rfl hfirst
  obtain ⟨_, _, hlater⟩ := failed_commit_leaves_no_trace ⟨_, hstart, hrun⟩ rfl hsecond
  obtain ⟨hstill, hrefused⟩ := hlater hstuck _ .refl
  obtain ⟨error, _, herror, _⟩ := hrefused tx rfl (by decide)
  exact ⟨first, second, hfirst, (hretry hundone []).2 [tx], hsecond,
    hstill.latest.trans hkept.latest, error, congrArg Prod.fst herror⟩

end SnapshotStore
