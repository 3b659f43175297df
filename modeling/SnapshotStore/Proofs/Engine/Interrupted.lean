import Mathlib.Data.Nat.Find
import SnapshotStore.Proofs.Engine.Reopening
import SnapshotStore.Proofs.Engine.TornTail

/-!
# Files that end within a commit

A log is made of objects and does not tell which of them were committed together. If a file ends
somewhere within what the last commit has appended, opening it keeps the steps that are there as a
whole and drops the others: it gives what a commit of these first steps alone would have given.
-/

namespace SnapshotStore

variable {name : String} {opened bytes : List UInt8} {w : Session} {handle : Handle}
  {e e' : Engine} {s before after : Snapshot} {tx : Transaction} {steps : List Step}
  {placement front next : Placement} {config : Config} {outcomes : List ChangeOutcome} {j k : Nat}

/-! ### Placing the first steps -/

namespace Placement

/-- With a list of steps, each front part of it can be placed, too. -/
theorem exists_take (h : ofSteps s steps = .ok placement) (j : Nat) :
    ∃ front, ofSteps s (steps.take j) = .ok front ∧ front.payload <+: placement.payload := by
  rw [ofSteps, ← List.take_append_drop j steps, List.foldlM_append] at h
  obtain ⟨front, hfront, hrest⟩ := bind_eq_ok.1 h
  exact ⟨front, hfront, payload_of_foldlM hrest ▸ List.prefix_append ..⟩

/-- The next step is installed and encoded behind those in front of it. -/
theorem next_of_take (hj : j < steps.length) (hfront : ofSteps s (steps.take j) = .ok front)
    (hnext : ofSteps s (steps.take (j + 1)) = .ok next) :
    ∃ object, front.snapshot.install .proposed ⟨s.position + front.payload.length⟩ object =
      .ok next.snapshot ∧ next.payload = front.payload ++ object.encode := by
  rw [ofSteps, List.take_succ_eq_append_getElem hj, List.foldlM_append] at hnext
  obtain ⟨_, hsame, hlast⟩ := bind_eq_ok.1 hnext
  cases hfront.symm.trans hsame
  rw [List.foldlM_cons] at hlast
  obtain ⟨_, hadd, hnil⟩ := bind_eq_ok.1 hlast
  cases hnil
  obtain ⟨m, hinstall, rfl⟩ := add_eq_ok.1 hadd
  exact ⟨_, hinstall, rfl⟩

/-- The longest front part of the steps whose bytes fit in front of a cut. -/
theorem exists_longest (h : ofSteps s steps = .ok placement) (k : Nat) :
    ∃ j ≤ steps.length, ∃ front, ofSteps s (steps.take j) = .ok front ∧
      front.payload.length ≤ k ∧ (j < steps.length → ∃ next,
        ofSteps s (steps.take (j + 1)) = .ok next ∧ k < next.payload.length) := by
  classical
  let Fits (j : Nat) : Prop :=
    ∃ front, ofSteps s (steps.take j) = .ok front ∧ front.payload.length ≤ k
  obtain ⟨front, hfront, hk⟩ : Fits (Nat.findGreatest Fits steps.length) :=
    Nat.findGreatest_spec (Nat.zero_le _) ⟨⟨[], [], s⟩, rfl, Nat.zero_le k⟩
  refine ⟨_, Nat.findGreatest_le _, front, hfront, hk, fun hj => ?_⟩
  obtain ⟨next, hnext, _⟩ := exists_take h (Nat.findGreatest Fits steps.length + 1)
  refine ⟨next, hnext, Nat.lt_of_not_le fun hle => ?_⟩
  exact Nat.findGreatest_is_greatest (Nat.lt_succ_self _) hj ⟨next, hnext, hle⟩

end Placement

/-! ### Replaying what is left -/

namespace Reflects

theorem placed (h : Reflects name bytes before) (hends : before.position = bytes.length)
    (hplacement : Placement.ofSteps before steps = .ok placement)
    (hroom : bytes.length + placement.payload.length < Bytes.limit) :
    Reflects name (bytes ++ placement.payload)
      (placement.snapshot.endingAt (bytes.length + placement.payload.length)) := by
  rw [← hends] at hroom ⊢
  obtain ⟨_, _, htiled, _, hextend⟩ := Placement.tiled_of_ofSteps h.catalogued hplacement hroom
  exact h.extend hends htiled hextend

/-- Nothing of an object that is not there as a whole is replayed. -/
theorem eq_of_replay_torn {object : LogObject} {standing : Standing} {uid : Uid} {m : Snapshot}
    {skipTorn : Bool} (h : Reflects name bytes before) (hends : before.position = bytes.length)
    (hinstall : before.install standing uid object = .ok m)
    (hroom : bytes.length + object.encode.length < Bytes.limit) (hk : k < object.encode.length)
    (hreplay : Snapshot.replay name (bytes ++ object.encode.take k) skipTorn = .ok s) :
    s = before := by
  have hbefore := h.replay false
  rw [hends, List.take_length] at hbefore
  have huids : ∀ u ∈ object.uids, u.place < Bytes.limit := by
    intro u hu
    have hplace := h.catalogued.uids_below hinstall u hu
    omega
  rcases Nat.eq_zero_or_pos k with rfl | hpos
  · have hwhole := h.replay skipTorn
    rw [hends, List.take_length] at hwhole
    rw [List.take_zero, List.append_nil, hwhole] at hreplay
    exact (Except.ok.inj hreplay).symm
  · obtain ⟨_, htorn⟩ := Snapshot.replay_torn hbefore huids (by omega) hpos hk skipTorn
    rw [htorn] at hreplay
    split at hreplay
    · exact (Except.ok.inj hreplay).symm
    · cases hreplay

/-- A replay that ends within placed steps gives the snapshot after the last of them that is there
as a whole. -/
theorem replay_cut {skipTorn : Bool} (h : Reflects name bytes before)
    (hends : before.position = bytes.length)
    (hplacement : Placement.ofSteps before steps = .ok placement)
    (hroom : bytes.length + placement.payload.length < Bytes.limit)
    (hreplay : Snapshot.replay name (bytes ++ placement.payload.take k) skipTorn = .ok s) :
    ∃ j ≤ steps.length, ∃ front, Placement.ofSteps before (steps.take j) = .ok front ∧
      front.payload.length ≤ k ∧
      (j < steps.length → ∃ next, Placement.ofSteps before (steps.take (j + 1)) = .ok next ∧
        k < next.payload.length) ∧
      s = front.snapshot.endingAt (bytes.length + front.payload.length) := by
  obtain ⟨j, hj, front, hfront, hfits, hnext⟩ := Placement.exists_longest hplacement k
  refine ⟨j, hj, front, hfront, hfits, hnext, ?_⟩
  obtain ⟨_, hsame, hprefix⟩ := Placement.exists_take hplacement j
  cases hfront.symm.trans hsame
  have hlength := hprefix.length_le
  have hplaced := h.placed hends hfront (by omega)
  have hposition : (front.snapshot.endingAt (bytes.length + front.payload.length)).position =
      (bytes ++ front.payload).length := List.length_append.symm
  rcases Nat.lt_or_eq_of_le hj with hj | rfl
  · obtain ⟨next, hnext, hcut⟩ := hnext hj
    obtain ⟨object, hinstall, hpayload⟩ := Placement.next_of_take hj hfront hnext
    obtain ⟨_, hsame, more, hmore⟩ := Placement.exists_take hplacement (j + 1)
    cases hnext.symm.trans hsame
    have hcutLength := congrArg List.length hmore
    rw [List.length_append, hpayload, List.length_append] at hcutLength
    rw [hpayload, List.length_append] at hcut
    rw [← hmore, hpayload, List.append_assoc, List.take_append, List.take_of_length_le hfits,
      List.take_append_of_le_length (by omega), ← List.append_assoc] at hreplay
    refine hplaced.eq_of_replay_torn hposition (Snapshot.install_endingAt hinstall .committed _) ?_
      (by omega) hreplay
    rw [List.length_append]
    omega
  · rw [List.take_length] at hfront
    cases hfront.symm.trans hplacement
    have hwhole := hplaced.replay skipTorn
    rw [hposition, List.take_length] at hwhole
    rw [List.take_of_length_le hfits, hwhole] at hreplay
    exact (Except.ok.inj hreplay).symm

end Reflects

/-! ### Committing the first steps alone -/

/-- The transaction with no more than its first steps. -/
def Transaction.first (tx : Transaction) (count : Nat) : Transaction :=
  { tx with steps := tx.steps.take count }

theorem Transaction.checkAgainst_first {committed : List (Uid × LogObject)}
    (h : tx.checkAgainst committed = .ok ()) (j : Nat) :
    (tx.first j).checkAgainst committed = .ok () := by
  rw [checkAgainst_eq_ok] at h ⊢
  intro object hobject
  obtain ⟨hreads, hsteps⟩ := h object hobject
  exact ⟨hreads, fun step hstep => hsteps step (List.mem_of_mem_take hstep)⟩

namespace Log

variable {log : Log} {disk : Disk} {payload : List UInt8} {durability : Durability} {position : Nat}

/-- Whether an append to memory or to a file succeeds does not depend on what is appended. -/
theorem append_eq_ok_of_file
    (hfile : ∀ file, log.path? = some file →
      (log.append disk payload durability).disk file ≠ some .fullDevice)
    (h : (log.append disk payload durability).result = .ok position) (other : List UInt8) :
    (log.append disk other durability).result = .ok (log.length + other.length) := by
  obtain ⟨backing, length, unknownTail⟩ := log
  cases unknownTail with
  | true => cases h
  | false =>
    cases backing with
    | memory held => rfl
    | file file =>
      replace hfile := hfile file rfl
      rw [append, if_neg Bool.false_ne_true] at h hfile ⊢
      dsimp only at h hfile ⊢
      cases hmedium : disk file with
      | none =>
        rw [hmedium] at h
        cases h
      | some medium =>
        rw [hmedium] at h hfile
        dsimp only at h hfile ⊢
        cases medium with
        | fullDevice =>
          by_cases hdone : (payload.isEmpty && !decide (durability = .full)) = true
          · rw [Medium.write, if_pos hdone] at hfile
            exact absurd (Disk.set_same ..) hfile
          · rw [Medium.write, if_neg hdone] at h
            cases h
        | file held coming =>
          cases coming with
          | nil => rfl
          | cons outcome coming =>
            cases outcome with
            | done => rfl
            | undone | torn => cases h

end Log

theorem Engine.commit_of_place {position : Nat}
    (hhandle : e.handle? tx.rollbackPoint.name = some handle) (hsteps : tx.steps ≠ [])
    (hplace : handle.place e.disk tx = .ok placement)
    (happend : (handle.log.append e.disk placement.payload handle.config.durability).result =
      .ok position) :
    (e.commit tx).1 = .ok (placement.snapshot.endingAt position) := by
  rw [commit, hhandle]
  dsimp only
  rw [if_neg (by rwa [List.isEmpty_iff]), hplace]
  dsimp only
  rw [happend]

/-- If a transaction can be committed, each front part of its steps could be committed instead. -/
theorem Consistent.commit_first (h : Consistent name opened w handle bytes)
    (hname : tx.rollbackPoint.name = name) (hcommit : w.engine.commit tx = (.ok after, e))
    (hfile : ∀ file, handle.log.path? = some file → e.disk file ≠ some .fullDevice)
    (hfront : Placement.ofSteps handle.published (tx.steps.take j) = .ok front) :
    (w.engine.commit (tx.first j)).1 =
      .ok (front.snapshot.endingAt (bytes.length + front.payload.length)) := by
  have hregistered := h.registered
  rw [← hname] at hregistered
  by_cases hsteps : tx.steps.take j = []
  · rw [hsteps] at hfront
    cases hfront
    have hempty : (tx.first j).steps.isEmpty = true := List.isEmpty_iff.2 hsteps
    have hhandle : w.engine.handle? (tx.first j).rollbackPoint.name = some handle := hregistered
    rw [Engine.commit, hhandle]
    dsimp only
    rw [if_pos hempty, List.length_nil, Nat.add_zero, ← h.ends]
    rfl
  · cases Engine.commits_of_commit hregistered hcommit with
    | nothing hnothing => exact absurd (by rw [hnothing, List.take_nil]) hsteps
    | published hplace happend =>
      obtain ⟨committed, hobjects, hcheck, hlength, _⟩ := Handle.place_eq_ok.1 hplace
      have hfirst : handle.place w.engine.disk (tx.first j) = .ok front :=
        Handle.place_eq_ok.2 ⟨committed, hobjects, Transaction.checkAgainst_first hcheck j, hlength,
          hfront⟩
      rw [h.contents.1]
      exact Engine.commit_of_place hregistered hsteps hfirst
        (Log.append_eq_ok_of_file hfile happend front.payload)

/-! ### Opening what is left -/

/-- The bytes of the file of an open database. -/
def Engine.fileBytes? (e : Engine) (name : String) : Option (List UInt8) := do
  let handle ← e.handle? name
  let file ← handle.log.path?
  match e.disk file with
  | some (.file bytes _) => some bytes
  | _ => none

theorem Engine.file_of_fileBytes? {held : List UInt8} (h : e.fileBytes? name = some held) :
    ∃ handle file outcomes, e.handle? name = some handle ∧ handle.log.path? = some file ∧
      e.disk file = some (.file held outcomes) := by
  obtain ⟨handle, hhandle, h⟩ := Option.bind_eq_some_iff.1 h
  obtain ⟨file, hfile, h⟩ := Option.bind_eq_some_iff.1 h
  split at h
  · next hdisk =>
    cases h
    exact ⟨handle, file, _, hhandle, hfile, hdisk⟩
  · cases h

theorem Log.Contains.take_file {log : Log} {disk : Disk} {file : String} {held : List UInt8}
    (h : log.Contains disk bytes) (hfile : log.path? = some file)
    (hdisk : disk file = some (.file held outcomes)) : held.take bytes.length = bytes := by
  rw [path?] at hfile
  split at hfile
  · cases hfile
  · next hbacking =>
    cases hfile
    rw [h.1]
    exact (h.of_file hbacking hdisk).1.symm

theorem Engine.replay_of_openFile {held : List UInt8} (hclosed : e.handle? name = none)
    (hfile : e.disk name = some (.file held outcomes)) (hdurability : config.durability ≠ .memory)
    (h : e.openFile name config = .ok (s, e')) :
    Snapshot.replay name held config.truncateTornTail = .ok s := by
  obtain ⟨reopened, disk, hrecover, rfl, -⟩ :=
    (opening_eq_ok hclosed).1 (openFile_eq_ok.1 h)
  rw [Handle.openFile_of_file hfile hdurability] at hrecover
  exact Handle.replay_of_recover (Log.contains_file hfile) hrecover

/-- After a commit the file starts with the log and the placed steps behind it. -/
theorem Consistent.file_of_commit {held : List UInt8} (h : Consistent name opened w handle bytes)
    (hname : tx.rollbackPoint.name = name) (hcommit : w.engine.commit tx = (.ok after, e))
    (hheld : e.fileBytes? name = some held) :
    ∃ placement, Placement.ofSteps handle.published tx.steps = .ok placement ∧
      after = placement.snapshot.endingAt (bytes.length + placement.payload.length) ∧
      e.logLength name = bytes.length + placement.payload.length ∧
      held.take (bytes.length + placement.payload.length) = bytes ++ placement.payload ∧
      ∀ file, handle.log.path? = some file → e.disk file ≠ some .fullDevice := by
  have hregistered := h.registered
  rw [← hname] at hregistered
  obtain ⟨handle', hhandle', hpath, hend⟩ :=
    Engine.contents_of_commit hregistered h.contents h.ends hcommit
  rw [hname] at hhandle'
  obtain ⟨_, file, coming, hfound, hfile, hdisk⟩ := Engine.file_of_fileBytes? hheld
  cases hhandle'.symm.trans hfound
  rcases hend with ⟨⟨_, herror⟩, _⟩ | ⟨placement, hplacement, hresult, hpublished, hcontents⟩
  · cases herror
  · cases hresult
    refine ⟨placement, hplacement, hpublished, ?_, ?_, fun found hfound hfull => ?_⟩
    · rw [Engine.logLength_of_handle? hhandle', ← hcontents.1, List.length_append]
    · rw [← List.length_append]
      exact hcontents.take_file hfile hdisk
    · rw [← hpath, hfile] at hfound
      cases hfound
      cases hdisk.symm.trans hfull

/-- A file that was cut anywhere within what the last commit has appended, if it can be opened,
gives what the commit of its first steps alone would have given: of all those that are there as a
whole. These are no steps, so that nothing is left of the commit, or all of them, or any number in
between. -/
theorem reopen_within_commit {held : List UInt8} {reopened : Engine} (h : Reachable name w)
    (hname : tx.rollbackPoint.name = name) (hcommit : w.engine.commit tx = (.ok after, e))
    (hroom : e.logLength name < Bytes.limit) (hbefore : w.engine.latest? name = some before)
    (hheld : e.fileBytes? name = some held) (hk : before.position ≤ k) (hk' : k ≤ after.position)
    (hclosed : e'.handle? name = none)
    (hcut : e'.disk name = some (.file (held.take k) outcomes))
    (hdurability : config.durability ≠ .memory)
    (hopen : e'.openFile name config = .ok (s, reopened)) :
    ∃ j ≤ tx.steps.length, (w.engine.commit (tx.first j)).1 = .ok s ∧ s.position ≤ k ∧
      (j < tx.steps.length →
        ∃ next, (w.engine.commit (tx.first (j + 1))).1 = .ok next ∧ k < next.position) ∧
      (j = 0 → s = before) ∧ (j = tx.steps.length → s = after) := by
  have hroom' := Nat.lt_of_le_of_lt (Engine.logLength_le_of_commit hcommit name) hroom
  obtain ⟨_, handle, bytes, hw⟩ := consistent_of_reachable h hroom'
  cases hw.latest?_eq.symm.trans hbefore
  obtain ⟨placement, hplacement, rfl, hlength, hwhole, hdevice⟩ :=
    hw.file_of_commit hname hcommit hheld
  rw [hlength] at hroom
  rw [hw.ends] at hk
  have htake : held.take k = bytes ++ placement.payload.take (k - bytes.length) := by
    have hfront := congrArg (List.take k) hwhole
    rw [List.take_take, List.take_append, List.take_of_length_le hk] at hfront
    rwa [Nat.min_eq_left (show k ≤ bytes.length + placement.payload.length from hk')] at hfront
  have hreplay := Engine.replay_of_openFile hclosed hcut hdurability hopen
  rw [htake] at hreplay
  obtain ⟨j, hj, front, hfront, hfits, hnext, rfl⟩ :=
    (hw.reflects _ hw.mem_latest).replay_cut hw.ends hplacement hroom hreplay
  refine ⟨j, hj, hw.commit_first hname hcommit hdevice hfront, ?_, fun hlast => ?_, ?_, ?_⟩
  · change bytes.length + front.payload.length ≤ k
    omega
  · obtain ⟨next, hlonger, hbeyond⟩ := hnext hlast
    refine ⟨_, hw.commit_first hname hcommit hdevice hlonger, ?_⟩
    change k < bytes.length + next.payload.length
    omega
  · rintro rfl
    cases hfront
    change handle.published.endingAt bytes.length = handle.published
    rw [← hw.ends]
    rfl
  · rintro rfl
    rw [List.take_length] at hfront
    cases hfront.symm.trans hplacement
    rfl

/-- Two tables are created in one transaction, and the file is cut within the second one. -/
theorem reopen_within_commit_of_two_tables :
    let opened := Engine.setHandle ⟨Disk.empty.set "f" (.file [] []), []⟩ "f"
      ⟨⟨.file "f", 0, false⟩, .default, .empty "f"⟩
    let tx := (Snapshot.empty "f").begin.taking [.newTable "a", .newTable "b"]
    let cut : Engine := ⟨Disk.empty.set "f" (.file [9, 1, 1, 97, 9] []), []⟩
    (opened.commit tx).2.fileBytes? "f" = some [9, 1, 1, 97, 9, 1, 1, 98] ∧
      ∃ s e, cut.openFile "f" .default = .ok (s, e) ∧
        ∃ j ≤ tx.steps.length, (opened.commit (tx.first j)).1 = .ok s ∧ s.position ≤ 5 := by
  intro opened tx cut
  have hstart : Opened "f" ⟨opened, [.empty "f"], [], []⟩ :=
    @Opened.file "f" ⟨Disk.empty.set "f" (.file [] []), []⟩ opened .default _ rfl rfl
  have hheld : (opened.commit tx).2.fileBytes? "f" = some [9, 1, 1, 97, 9, 1, 1, 98] := by
    decide +kernel
  have hafter : (opened.commit tx).1.toOption.map (·.position) = some 8 := by decide +kernel
  have hcut : (cut.openFile "f" .default).toOption.isSome := by decide +kernel
  obtain ⟨after, hafter, hposition⟩ := Option.map_eq_some_iff.1 hafter
  obtain ⟨⟨s, e⟩, hopen⟩ := Option.isSome_iff_exists.1 hcut
  rw [toOption_eq_some] at hafter hopen
  have hname : tx.rollbackPoint.name = "f" :=
    congrArg Snapshot.name (Transaction.rollbackPoint_taking (Snapshot.empty "f").begin _)
  obtain ⟨j, hj, hfirst, hfits, _⟩ := @reopen_within_commit "f" _ _ cut s _ after tx .default [] 5
    _ e ⟨_, hstart, .refl⟩ hname (Prod.ext hafter rfl) (by decide +kernel) rfl hheld (by decide)
    (by omega) rfl rfl (by decide) hopen
  exact ⟨hheld, s, e, hopen, j, hj, hfirst, hfits⟩

/-- If the file is cut between the two tables, the first one is there without the second. -/
theorem reopen_between_two_tables :
    let opened := Engine.setHandle ⟨Disk.empty.set "f" (.file [] []), []⟩ "f"
      ⟨⟨.file "f", 0, false⟩, .default, .empty "f"⟩
    let tx := (Snapshot.empty "f").begin.taking [.newTable "a", .newTable "b"]
    let cut : Engine := ⟨Disk.empty.set "f" (.file [9, 1, 1, 97] []), []⟩
    Reachable "f" ⟨opened, [.empty "f"], [], []⟩ ∧
      (opened.commit tx).2.fileBytes? "f" = some [9, 1, 1, 97, 9, 1, 1, 98] ∧
      ∃ after s e, (opened.commit tx).1 = .ok after ∧ cut.openFile "f" .default = .ok (s, e) ∧
        s ≠ .empty "f" ∧ s ≠ after ∧ s.tables.map (·.name) = ["a"] ∧
        after.tables.map (·.name) = ["a", "b"] := by
  intro opened tx cut
  have hstart : Opened "f" ⟨opened, [.empty "f"], [], []⟩ :=
    @Opened.file "f" ⟨Disk.empty.set "f" (.file [] []), []⟩ opened .default _ rfl rfl
  have hafter : (opened.commit tx).1.toOption.map (·.tables.map (·.name)) = some ["a", "b"] := by
    decide +kernel
  have hcut : (cut.openFile "f" .default).toOption.map (·.1.tables.map (·.name)) = some ["a"] := by
    decide +kernel
  obtain ⟨after, hafter, htables⟩ := Option.map_eq_some_iff.1 hafter
  obtain ⟨⟨s, e⟩, hopen, hfirst⟩ := Option.map_eq_some_iff.1 hcut
  rw [toOption_eq_some] at hafter hopen
  refine ⟨⟨_, hstart, .refl⟩, by decide +kernel, after, s, e, hafter, hopen, ?_, ?_, hfirst,
    htables⟩
  · rintro rfl
    cases hfirst
  · rintro rfl
    cases hfirst.symm.trans htables

end SnapshotStore
