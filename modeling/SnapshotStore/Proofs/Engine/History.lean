import SnapshotStore.Proofs.Engine.Opening
import SnapshotStore.Proofs.Engine.Session

/-!
# What every session keeps

The published snapshots of a session are what front parts of its log amount to, and the objects that
stand behind each of them in the log are the ones committed after it was published. One invariant of
the session says so, and every step keeps it as long as the log has room.
-/

namespace SnapshotStore

/-- A snapshot is what the objects in front of its position amount to. -/
def Reflects (name : String) (bytes : List UInt8) (s : Snapshot) : Prop :=
  s.position ≤ bytes.length ∧ ∃ objects, Tiled 0 (bytes.take s.position) objects ∧
    objects.foldlM Snapshot.extend (.empty name) = .ok s

/-- Between two snapshots of one log stand the objects that were committed between them. -/
def Leads (s latest : Snapshot) (bytes : List UInt8) (committed : List (Uid × LogObject)) : Prop :=
  ∃ objects, Tiled s.position (bytes.drop s.position) objects ∧
    objects.foldlM Snapshot.extend s = .ok latest ∧
    objects.map Stored.pair = committed.filter (s.position ≤ ·.1.place)

/-- The state of a session whose log started with the bytes `opened` and now is `bytes`. -/
structure Consistent (name : String) (opened : List UInt8) (w : Session) (handle : Handle)
    (bytes : List UInt8) : Prop where
  registered : w.engine.handle? name = some handle
  contents : handle.log.Contains w.engine.disk bytes
  path : ∀ file, handle.log.path? = some file → file = name
  grown : bytes = opened ++ encoded w.committed
  latest : w.published.getLast? = some handle.published
  ends : handle.published.position = bytes.length
  reflects : ∀ s ∈ w.published, Reflects name bytes s
  leads : ∀ s ∈ w.published, Leads s handle.published bytes w.committed
  before : ∀ object ∈ w.committed, object.1.place < bytes.length
  begun : ∀ tx ∈ w.transactions, tx.rollbackPoint ∈ w.published ∧ tx.Sound

/-- The bytes of the log of an open database. -/
def Engine.logBytes? (e : Engine) (name : String) : Option (List UInt8) := do
  let handle ← e.handle? name
  (handle.log.read e.disk 0 handle.log.length).toOption

variable {name : String} {opened bytes more : List UInt8} {w w' : Session} {handle : Handle}
  {s latest : Snapshot} {e e' : Engine} {committed added : List (Uid × LogObject)}
  {transactions before after : List Transaction} {tx : Transaction}

namespace Reflects

theorem name_eq (h : Reflects name bytes s) : s.name = name := by
  obtain ⟨_, objects, _, hextend⟩ := h
  exact (Snapshot.name_extend hextend : s.name = _)

theorem builds_logged (h : Reflects name bytes s) :
    ∃ placed, Snapshot.Builds 0 (.empty name) placed s.position s ∧
      placed.map Prod.snd = logged (bytes.take s.position) := by
  obtain ⟨hposition, stored, htiled, hextend⟩ := h
  have hbuilds := Snapshot.builds_of_extend htiled hextend
  rw [Nat.zero_add, List.length_take_of_le hposition] at hbuilds
  refine ⟨_, hbuilds, ?_⟩
  rw [htiled.logged_eq, List.map_map]
  rfl

theorem catalogued (h : Reflects name bytes s) : Snapshot.Catalogued s.position s := by
  obtain ⟨_, hbuilds, _⟩ := h.builds_logged
  exact hbuilds.catalogued (Snapshot.catalogued_empty name)

theorem replay (h : Reflects name bytes s) (skipTorn : Bool) :
    Snapshot.replay name (bytes.take s.position) skipTorn = .ok s := by
  obtain ⟨_, objects, htiled, hextend⟩ := h
  exact Snapshot.replay_of_tiled htiled hextend skipTorn

/-- What stands in front of a snapshot stays when the log grows. -/
theorem append (h : Reflects name bytes s) (more : List UInt8) :
    Reflects name (bytes ++ more) s := by
  obtain ⟨hposition, objects, htiled, hextend⟩ := h
  refine ⟨?_, objects, ?_, hextend⟩
  · rw [List.length_append]
    exact Nat.le_trans hposition (Nat.le_add_right _ _)
  · rwa [List.take_append_of_le_length hposition]

/-- A whole log and then what follows it. -/
theorem extend {objects : List Stored} (h : Reflects name bytes latest)
    (hends : latest.position = bytes.length) (htiled : Tiled latest.position more objects)
    (hextend : objects.foldlM Snapshot.extend latest = .ok s) :
    Reflects name (bytes ++ more) s := by
  obtain ⟨_, front, hfront, hlatest⟩ := h
  have hposition := Snapshot.position_extend htiled rfl hextend
  have hlength : s.position = (bytes ++ more).length := by rw [hposition, hends, List.length_append]
  refine ⟨Nat.le_of_eq hlength, front ++ objects, ?_, ?_⟩
  · rw [hlength, List.take_length]
    rw [List.take_of_length_le (Nat.le_of_eq hends.symm)] at hfront
    refine hfront.append ?_
    rwa [Nat.zero_add, ← hends]
  · rw [List.foldlM_append]
    exact bind_eq_ok.2 ⟨latest, hlatest, hextend⟩

end Reflects

namespace Leads

theorem self (hends : s.position = bytes.length)
    (hbefore : ∀ object ∈ committed, object.1.place < bytes.length) :
    Leads s s bytes committed := by
  refine ⟨[], ?_, rfl, ?_⟩
  · rw [List.drop_of_length_le (Nat.le_of_eq hends.symm)]
    exact .nil _
  · refine (List.filter_eq_nil_iff.2 fun object hobject hle => ?_).symm
    have hle := of_decide_eq_true hle
    have := hbefore object hobject
    omega

theorem trans {objects : List Stored} (h : Leads s latest bytes committed)
    (hs : s.position ≤ bytes.length) (hends : latest.position = bytes.length)
    (htiled : Tiled latest.position more objects)
    (hextend : objects.foldlM Snapshot.extend latest = .ok s')
    (hadded : objects.map Stored.pair = added) :
    Leads s s' (bytes ++ more) (committed ++ added) := by
  obtain ⟨earlier, hearlier, hlatest, hcommitted⟩ := h
  refine ⟨earlier ++ objects, ?_, ?_, ?_⟩
  · rw [List.drop_append_of_le_length hs]
    refine hearlier.append ?_
    rwa [List.length_drop, Nat.add_sub_cancel' hs, ← hends]
  · rw [List.foldlM_append]
    exact bind_eq_ok.2 ⟨latest, hlatest, hextend⟩
  · rw [List.map_append, List.filter_append, hcommitted, hadded]
    refine congrArg (committed.filter _ ++ ·) (List.filter_eq_self.2 fun object hobject => ?_).symm
    rw [← hadded] at hobject
    obtain ⟨stored, hstored, rfl⟩ := List.mem_map.1 hobject
    have := (htiled.places stored hstored).1
    exact decide_eq_true (by
      show s.position ≤ stored.uid.place
      omega)

end Leads

namespace Consistent

variable (h : Consistent name opened w handle bytes)
include h

theorem position_le (hs : s ∈ w.published) : s.position ≤ bytes.length := (h.reflects s hs).1

theorem mem_latest : handle.published ∈ w.published := List.mem_of_getLast? h.latest

theorem latest?_eq : w.engine.latest? name = some handle.published := by
  rw [Engine.latest?, h.registered, Option.map_some]

theorem name_of_begun (htx : tx ∈ w.transactions) : tx.rollbackPoint.name = name :=
  (h.reflects _ (h.begun tx htx).1).name_eq

theorem registered_of_begun (htx : tx ∈ w.transactions) :
    w.engine.handle? tx.rollbackPoint.name = some handle :=
  h.name_of_begun htx ▸ h.registered

theorem position_of_begun (htx : tx ∈ w.transactions) :
    tx.rollbackPoint.position ≤ handle.published.position :=
  h.ends ▸ h.position_le (h.begun tx htx).1

theorem logLength : w.engine.logLength name = bytes.length :=
  (Engine.logLength_of_handle? h.registered).trans h.contents.1.symm

theorem logBytes? : w.engine.logBytes? name = some bytes := by
  rw [Engine.logBytes?, h.registered]
  exact congrArg Except.toOption h.contents.read_all

/-- The log from a published snapshot on is read as the objects that were committed after it. -/
theorem objects_since (hs : s ∈ w.published) :
    handle.log.objects w.engine.disk s.position handle.published.position =
      .ok (w.committed.filter (s.position ≤ ·.1.place)) := by
  have hle := h.position_le hs
  obtain ⟨objects, htiled, hextend, hpairs⟩ := h.leads s hs
  rw [Log.objects]
  split
  · next heq =>
    rw [List.drop_of_length_le (Nat.le_of_eq (heq.trans h.ends).symm)] at htiled
    rw [← hpairs, htiled.eq_nil]
    rfl
  · rw [h.contents.read (h.ends ▸ hle) (Nat.le_of_eq (h.ends.trans h.contents.1))]
    rw [List.take_of_length_le (Nat.le_of_eq (by rw [List.length_drop, h.ends]))]
    rw [← hpairs]
    exact mapError_eq_ok.2 htiled.objectsIn

/-- A failed append changes what holds the log, but not the log. -/
theorem keep {handle' : Handle} {engine : Engine} (hregistered : engine.handle? name = some handle')
    (hpublished : handle'.published = handle.published)
    (hcontents : handle'.log.Contains engine.disk bytes)
    (hpath : handle'.log.path? = handle.log.path?)
    (htransactions : ∀ tx ∈ transactions, tx ∈ w.transactions ) :
    Consistent name opened { w with engine, transactions } handle' bytes where
  registered := hregistered
  contents := hcontents
  path := hpath ▸ h.path
  grown := h.grown
  latest := hpublished ▸ h.latest
  ends := hpublished ▸ h.ends
  reflects := h.reflects
  leads := hpublished ▸ h.leads
  before := h.before
  begun := fun tx htx => h.begun tx (htransactions tx htx)

/-- A successful append of the placed steps of a transaction. -/
theorem publish {handle' : Handle} {engine : Engine} {placement : Placement} {steps : List Step}
    (hplacement : Placement.ofSteps handle.published steps = .ok placement)
    (hroom : bytes.length + placement.payload.length < Bytes.limit)
    (hregistered : engine.handle? name = some handle')
    (hpublished : handle'.published =
      placement.snapshot.endingAt (bytes.length + placement.payload.length))
    (hcontents : handle'.log.Contains engine.disk (bytes ++ placement.payload))
    (hpath : handle'.log.path? = handle.log.path?)
    (htransactions : ∀ tx ∈ transactions, tx ∈ w.transactions) :
    Consistent name opened
      ⟨engine, w.published ++ [handle'.published], w.committed ++ placed (w.engine.logLength name)
        [] steps, transactions⟩ handle' (bytes ++ placement.payload) := by
  have hlatest := h.reflects _ h.mem_latest
  rw [h.logLength]
  rw [← h.ends] at hroom hpublished ⊢
  obtain ⟨hpayload, objects, htiled, hpairs, hextend⟩ :=
    Placement.tiled_of_ofSteps hlatest.catalogued hplacement hroom
  rw [← hpublished] at hextend
  have hplaces := htiled.places
  have hends : handle'.published.position = (bytes ++ placement.payload).length := by
    rw [hpublished, List.length_append, ← h.ends]
    rfl
  have hbefore : ∀ object ∈ w.committed ++ placed handle.published.position [] steps,
      object.1.place < (bytes ++ placement.payload).length := by
    intro object hobject
    rw [List.length_append]
    rcases List.mem_append.1 hobject with hobject | hobject
    · exact Nat.lt_of_lt_of_le (h.before object hobject) (Nat.le_add_right _ _)
    · rw [← hpairs] at hobject
      obtain ⟨stored, hstored, rfl⟩ := List.mem_map.1 hobject
      have hplace := hplaces stored hstored
      rw [h.ends] at hplace
      exact Nat.lt_of_lt_of_le hplace.2.1 hplace.2.2
  constructor
  · exact hregistered
  · exact hcontents
  · exact hpath ▸ h.path
  · rw [h.grown, hpayload, encoded, encoded, encoded, List.flatMap_append, List.append_assoc]
  · exact List.getLast?_concat ..
  · exact hends
  · intro s hs
    rcases List.mem_append.1 hs with hs | hs
    · exact (h.reflects s hs).append _
    · rw [List.mem_singleton.1 hs]
      exact hlatest.extend h.ends htiled hextend
  · intro s hs
    rcases List.mem_append.1 hs with hs | hs
    · exact (h.leads s hs).trans (h.position_le hs) h.ends htiled hextend hpairs
    · rw [List.mem_singleton.1 hs]
      exact .self hends hbefore
  · exact hbefore
  · intro tx htx
    obtain ⟨hrollback, hsound⟩ := h.begun tx (htransactions tx htx)
    exact ⟨List.mem_append_left _ hrollback, hsound⟩

end Consistent

/-! ### Steps and runs -/

theorem Log.Contains.congr {log : Log} {disk disk' : Disk} (h : log.Contains disk bytes)
    (hpath : ∀ file, log.path? = some file → file = name) (hdisk : disk' name = disk name) :
    log.Contains disk' bytes := by
  obtain ⟨hlength, hheld⟩ := h
  refine ⟨hlength, ?_⟩
  obtain ⟨backing, length, unknownTail⟩ := log
  cases backing with
  | memory held => exact hheld
  | file file =>
    obtain ⟨medium, hmedium, hrest⟩ := hheld
    rw [hpath file rfl] at hmedium ⊢
    exact ⟨medium, hdisk.trans hmedium, hrest⟩

theorem mem_of_mem_remaining {A : Type} {before after all : List A} {a : A}
    (h : all = before ++ a :: after) : ∀ b ∈ before ++ after, b ∈ all := by
  intro b hb
  rw [h]
  rcases List.mem_append.1 hb with hb | hb
  · exact List.mem_append_left _ hb
  · exact List.mem_append_right _ (List.mem_cons_of_mem _ hb)

/-- A commit that fails leaves the bytes of the log as they are, any other puts the placed steps
behind them. -/
theorem Engine.contents_of_commit {result : Except Error Snapshot}
    (hhandle : e.handle? tx.rollbackPoint.name = some handle)
    (hcontents : handle.log.Contains e.disk bytes)
    (hends : handle.published.position = bytes.length) (hcommit : e.commit tx = (result, e')) :
    ∃ handle', e'.handle? tx.rollbackPoint.name = some handle' ∧
      handle'.log.path? = handle.log.path? ∧
      ((∃ error, result = .error error) ∧ handle'.published = handle.published ∧
          handle'.log.Contains e'.disk bytes ∨
        ∃ placement, Placement.ofSteps handle.published tx.steps = .ok placement ∧
          result = .ok handle'.published ∧
          handle'.published =
            placement.snapshot.endingAt (bytes.length + placement.payload.length) ∧
          handle'.log.Contains e'.disk (bytes ++ placement.payload)) := by
  cases commits_of_commit hhandle hcommit with
  | nothing hsteps =>
    refine ⟨handle, hhandle, rfl, .inr ⟨⟨[], [], handle.published⟩, ?_, rfl, ?_, ?_⟩⟩
    · rw [hsteps]
      rfl
    · rw [List.length_nil, Nat.add_zero, ← hends]
      rfl
    · rwa [List.append_nil]
  | refused => exact ⟨handle, hhandle, rfl, .inl ⟨⟨_, rfl⟩, rfl, hcontents⟩⟩
  | @failed placement error hplace happend =>
    generalize houtcome :
      handle.log.append e.disk placement.payload handle.config.durability = outcome at *
    obtain ⟨hpath, ⟨hok, _⟩ | ⟨_, _, hcontents⟩⟩ := hcontents.append houtcome
    · rw [happend] at hok
      cases hok
    · exact ⟨_, handle?_setHandle_self, hpath, .inl ⟨⟨_, rfl⟩, rfl, hcontents⟩⟩
  | @published placement position hplace happend =>
    obtain ⟨_, _, _, _, hplacement⟩ := Handle.place_eq_ok.1 hplace
    generalize houtcome :
      handle.log.append e.disk placement.payload handle.config.durability = outcome at *
    have hlength := hcontents.1
    obtain ⟨hpath, ⟨hok, _, hcontents⟩ | ⟨⟨_, herror⟩, _⟩⟩ := hcontents.append houtcome
    · rw [happend] at hok
      cases hok
      refine ⟨_, handle?_setHandle_self, hpath, .inr ⟨placement, hplacement, rfl, ?_, hcontents⟩⟩
      rw [hlength]
    · rw [happend] at herror
      cases herror

/-- A commit of a transaction that was begun on a published snapshot. -/
theorem Consistent.commit {result : Except Error Snapshot}
    (h : Consistent name opened w handle bytes) (htx : w.transactions = before ++ tx :: after)
    (hcommit : w.engine.commit tx = (result, e)) (hroom : e.logLength name < Bytes.limit) :
    ∃ handle' bytes', (∀ error, result = .error error →
      Consistent name opened { w with engine := e, transactions := before ++ after } handle'
        bytes') ∧
      (∀ s, result = .ok s →
        Consistent name opened
          ⟨e, w.published ++ [s], w.committed ++ placed (w.engine.logLength name) [] tx.steps,
            before ++ after⟩ handle' bytes') := by
  have hmem : tx ∈ w.transactions := htx ▸ List.mem_append_right _ List.mem_cons_self
  have hrest := mem_of_mem_remaining htx
  obtain ⟨handle', hhandle', hpath, hend⟩ :=
    Engine.contents_of_commit (h.registered_of_begun hmem) h.contents h.ends hcommit
  rw [h.name_of_begun hmem] at hhandle'
  rcases hend with
    ⟨⟨_, rfl⟩, hpublished, hcontents⟩ | ⟨placement, hplacement, rfl, hpublished, hcontents⟩
  · refine ⟨handle', bytes, fun _ _ => ?_, fun _ hs => (nomatch hs)⟩
    exact h.keep hhandle' hpublished hcontents hpath hrest
  · refine ⟨handle', bytes ++ placement.payload, fun _ herror => (nomatch herror), fun s hs => ?_⟩
    rw [Engine.logLength_of_handle? hhandle', ← hcontents.1, List.length_append] at hroom
    cases hs
    exact h.publish hplacement hroom hhandle' hpublished hcontents hpath hrest

theorem Consistent.move (h : Consistent name opened w handle bytes) (hmove : Move name w w')
    (hroom : w'.engine.logLength name < Bytes.limit) :
    ∃ handle' bytes', Consistent name opened w' handle' bytes' := by
  cases hmove with
  | @begin s hs =>
    refine ⟨handle, bytes, { h with begun := ?_ }⟩
    intro tx htx
    rcases List.mem_append.1 htx with htx | htx
    · exact h.begun tx htx
    · rw [List.mem_singleton.1 htx]
      exact ⟨hs, Transaction.sound_begin s⟩
  | @change before after tx tx' htx hchanges =>
    refine ⟨handle, bytes, { h with begun := ?_ }⟩
    intro other hother
    rcases List.mem_append.1 hother with hother | hother
    · exact h.begun other (htx ▸ List.mem_append_left _ hother)
    · rcases List.mem_cons.1 hother with rfl | hother
      · obtain ⟨hrollback, hsound⟩ := h.begun tx (htx ▸ List.mem_append_right _ List.mem_cons_self)
        exact ⟨(Transaction.eq_of_changes hchanges).1 ▸ hrollback, hsound.of_changes hchanges⟩
      · exact h.begun other (htx ▸ List.mem_append_right _ (List.mem_cons_of_mem _ hother))
  | giveUp htx =>
    refine ⟨handle, bytes, { h with begun := fun other hother => ?_ }⟩
    exact h.begun other (mem_of_mem_remaining htx other hother)
  | commit htx hcommit =>
    obtain ⟨handle', bytes', _, hok⟩ := h.commit htx hcommit hroom
    exact ⟨handle', bytes', hok _ rfl⟩
  | fail htx hcommit =>
    obtain ⟨handle', bytes', herror, _⟩ := h.commit htx hcommit hroom
    exact ⟨handle', bytes', herror _ rfl⟩
  | elsewhere hhandle hdisk =>
    exact ⟨handle, bytes, h.keep (hhandle.trans h.registered) rfl
      (h.contents.congr h.path hdisk) rfl fun _ htx => htx⟩

theorem Consistent.run (h : Consistent name opened w handle bytes) (hrun : Run name w w')
    (hroom : w'.engine.logLength name < Bytes.limit) :
    ∃ handle' bytes', Consistent name opened w' handle' bytes' := by
  induction hrun with
  | refl => exact ⟨handle, bytes, h⟩
  | step hrun hmove ih =>
    obtain ⟨_, _, hmid⟩ := ih (Nat.lt_of_le_of_lt hmove.logLength_le hroom)
    exact hmid.move hmove hroom

/-! ### Opening -/

/-- What is read from a log just opened is replayed, and what stands behind is cut off. -/
theorem Handle.recover_eq_ok {config : Config} {log : Log} {disk disk' : Disk}
    (hcontents : log.Contains disk bytes) (hpath : ∀ file, log.path? = some file → file = name)
    (h : Handle.recover name config log disk = (.ok handle, disk')) :
    handle.log.Contains disk' (bytes.take handle.published.position) ∧
      (∀ file, handle.log.path? = some file → file = name) ∧
      Reflects name (bytes.take handle.published.position) handle.published := by
  obtain ⟨hposition, htiled, hextend⟩ :=
    Snapshot.tiled_of_replay (Handle.replay_of_recover hcontents h)
  have hreflects : Reflects name (bytes.take handle.published.position) handle.published := by
    refine ⟨?_, _, ?_, hextend⟩
    · exact Nat.le_of_eq (List.length_take_of_le hposition).symm
    · rwa [List.take_take, Nat.min_self]
  have hrecovers := Handle.recovers hcontents name config
  rw [h] at hrecovers
  cases hrecovers with
  | whole _ hend =>
    refine ⟨?_, hpath, hreflects⟩
    rwa [List.take_of_length_le hend]
  | cut _ _ hcut =>
    rw [hcontents.1] at hposition
    obtain ⟨hcontents, hsame, _⟩ := Log.contains_of_truncate hcontents hposition hcut
    exact ⟨hcontents, fun file hfile => hpath file (hsame ▸ hfile), hreflects⟩

theorem consistent_of_handle (hregistered : e.handle? name = some handle)
    (hcontents : handle.log.Contains e.disk bytes)
    (hpath : ∀ file, handle.log.path? = some file → file = name)
    (hreflects : Reflects name bytes handle.published)
    (hends : handle.published.position = bytes.length) :
    Consistent name bytes ⟨e, [handle.published], [], []⟩ handle bytes where
  registered := hregistered
  contents := hcontents
  path := hpath
  grown := (List.append_nil bytes).symm
  latest := rfl
  ends := hends
  reflects := fun s hs => List.mem_singleton.1 hs ▸ hreflects
  leads := by
    intro s hs
    rw [List.mem_singleton.1 hs]
    exact .self hends fun _ hobject => absurd hobject List.not_mem_nil
  before := fun _ hobject => absurd hobject List.not_mem_nil
  begun := fun _ htx => absurd htx List.not_mem_nil

theorem Handle.openFile_eq_ok {config : Config} {disk disk' : Disk}
    (h : Handle.openFile name config disk = (.ok handle, disk')) :
    ∃ bytes,
      handle.log.Contains disk' bytes ∧ (∀ file, handle.log.path? = some file → file = name) ∧
      Reflects name bytes handle.published ∧ handle.published.position = bytes.length := by
  have hrecover :
      ∃ log disk₀ read, log.Contains disk₀ read ∧ (∀ file, log.path? = some file → file = name) ∧
        Handle.recover name config log disk₀ = (.ok handle, disk') := by
    rw [Handle.openFile] at h
    split at h
    · refine ⟨.inMemory, disk, [], Log.contains_inMemory disk, fun file hfile => ?_, h⟩
      cases hfile
    split at h
    · cases h
    · next log disk₀ hopen =>
      obtain ⟨hpath, _, medium, _, hcontents⟩ := Log.contains_openFile hopen
      exact ⟨log, disk₀, medium.bytes, hcontents,
        fun file hfile => Option.some.inj (hfile.symm.trans hpath), h⟩
  obtain ⟨log, disk₀, read, hcontents, hpath, hrecover⟩ := hrecover
  obtain ⟨hcontents, hpath, hreflects⟩ := Handle.recover_eq_ok hcontents hpath hrecover
  refine ⟨_, hcontents, hpath, hreflects, ?_⟩
  have hle := hreflects.1
  rw [List.length_take] at hle ⊢
  omega

theorem consistent_of_opened (h : Opened name w) :
    ∃ opened handle, Consistent name opened w handle opened := by
  cases h with
  | @file e e' config s hclosed h =>
    obtain ⟨handle, disk, hopen, rfl, rfl⟩ :=
      (Engine.opening_eq_ok hclosed).1 (Engine.openFile_eq_ok.1 h)
    obtain ⟨bytes, hcontents, hpath, hreflects, hends⟩ := Handle.openFile_eq_ok hopen
    exact ⟨bytes, handle, consistent_of_handle Engine.handle?_setHandle_self hcontents hpath
      hreflects hends⟩
  | @memory e e' s hclosed h =>
    rw [Engine.openMemory, hclosed] at h
    cases h
    refine ⟨[], .inMemory name, consistent_of_handle Engine.handle?_setHandle_self
      (Log.contains_inMemory _) ?_ ?_ rfl⟩
    · exact fun _ hfile => (nomatch hfile)
    · exact ⟨Nat.le_refl 0, [], .nil 0, rfl⟩

/-- Every state of a session with room in its log is consistent. -/
theorem consistent_of_reachable (h : Reachable name w)
    (hroom : w.engine.logLength name < Bytes.limit) :
    ∃ opened handle bytes, Consistent name opened w handle bytes := by
  obtain ⟨first, hopened, hrun⟩ := h
  obtain ⟨opened, handle, hfirst⟩ := consistent_of_opened hopened
  obtain ⟨handle', bytes, hw⟩ := hfirst.run hrun hroom
  exact ⟨opened, handle', bytes, hw⟩

theorem latest_of_reachable (h : Reachable name w) (hroom : w.engine.logLength name < Bytes.limit) :
    ∃ s ∈ w.published, w.engine.latest? name = some s := by
  obtain ⟨_, handle, _, hw⟩ := consistent_of_reachable h hroom
  exact ⟨handle.published, hw.mem_latest, hw.latest?_eq⟩

theorem getD_latest_mem (h : Reachable name w) (hroom : w.engine.logLength name < Bytes.limit)
    (s : Snapshot) : (w.engine.latest? name).getD s ∈ w.published := by
  obtain ⟨latest, hmem, hlatest⟩ := latest_of_reachable h hroom
  rw [hlatest, Option.getD_some]
  exact hmem

end SnapshotStore
