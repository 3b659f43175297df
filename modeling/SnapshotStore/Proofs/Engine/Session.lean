import SnapshotStore.Proofs.Engine.Commit
import SnapshotStore.Proofs.Engine.Placement

/-!
# Sessions

A session is the life of one database from its opening on: the snapshots that it has published, the
objects that were committed with their places, and the transactions that are under way. Any
transaction may take the next step, commit or be given up at any time, and other databases of the
engine may change in between.
-/

namespace SnapshotStore

structure Session where
  engine : Engine
  published : List Snapshot
  committed : List (Uid × LogObject)
  transactions : List Transaction

/-- What an operation makes of a transaction when it succeeds. -/
inductive Changes (tx : Transaction) : Transaction → Prop where
  | add {object : LogObject} {uid : Uid} {tx' : Transaction} (h : tx.add object = .ok (uid, tx')) :
      Changes tx tx'
  | readRow {table row : Uid} {found : Option Row} {tx' : Transaction}
      (h : tx.readRow table row = .ok (found, tx')) : Changes tx tx'
  | readTable {table : Uid} {found : List Row} {tx' : Transaction}
      (h : tx.readTable table = .ok (found, tx')) : Changes tx tx'
  | readByKey {index : Uid} {start : List Value} {found : List Row} {tx' : Transaction}
      (h : tx.readByKey index start = .ok (found, tx')) : Changes tx tx'

/-- The first state of a database that was not open before. -/
inductive Opened (name : String) : Session → Prop where
  | file {e e' : Engine} {config : Config} {s : Snapshot} (hclosed : e.handle? name = none)
      (h : e.openFile name config = .ok (s, e')) : Opened name ⟨e', [s], [], []⟩
  | memory {e e' : Engine} {s : Snapshot} (hclosed : e.handle? name = none)
      (h : e.openMemory name = (s, e')) : Opened name ⟨e', [s], [], []⟩

/-- One step in the life of a database that stays open. -/
inductive Move (name : String) (w : Session) : Session → Prop where
  | begin {s : Snapshot} (hs : s ∈ w.published) :
      Move name w { w with transactions := w.transactions ++ [s.begin] }
  | change {before after : List Transaction} {tx tx' : Transaction}
      (htx : w.transactions = before ++ tx :: after) (h : Changes tx tx') :
      Move name w { w with transactions := before ++ tx' :: after }
  | giveUp {before after : List Transaction} {tx : Transaction}
      (htx : w.transactions = before ++ tx :: after) :
      Move name w { w with transactions := before ++ after }
  | commit {before after : List Transaction} {tx : Transaction} {s : Snapshot} {e : Engine}
      (htx : w.transactions = before ++ tx :: after) (h : w.engine.commit tx = (.ok s, e)) :
      Move name w
        ⟨e, w.published ++ [s], w.committed ++ placed (w.engine.logLength name) [] tx.steps, before
          ++ after⟩
  | fail {before after : List Transaction} {tx : Transaction} {error : Error} {e : Engine}
      (htx : w.transactions = before ++ tx :: after) (h : w.engine.commit tx = (.error error, e)) :
      Move name w { w with engine := e, transactions := before ++ after }
  | elsewhere {e : Engine} (hhandle : e.handle? name = w.engine.handle? name)
      (hdisk : e.disk name = w.engine.disk name) : Move name w { w with engine := e }

/-- Any number of steps. -/
inductive Run (name : String) (w : Session) : Session → Prop where
  | refl : Run name w w
  | step {w' w'' : Session} (h : Run name w w') (hmove : Move name w' w'') : Run name w w''

/-- The states of a database from its opening on. -/
def Reachable (name : String) (w : Session) : Prop :=
  ∃ opened, Opened name opened ∧ Run name opened w

theorem Changes.update {tx tx' : Transaction} {table row uid : Uid} {changes : List Field}
    (h : tx.update table row changes = .ok (uid, tx')) : Changes tx tx' := by
  obtain ⟨current, _, h⟩ := orError_bind_eq_ok.1 h
  exact .add h

/-- The log of a database does not get shorter while the database is open. -/
theorem Move.logLength_le {name : String} {w w' : Session} (h : Move name w w') :
    w.engine.logLength name ≤ w'.engine.logLength name := by
  cases h with
  | begin | change | giveUp => exact Nat.le_refl _
  | commit _ hcommit | fail _ hcommit => exact Engine.logLength_le_of_commit hcommit name
  | elsewhere hhandle => exact Nat.le_of_eq (by rw [Engine.logLength, Engine.logLength, hhandle])

theorem Run.trans {name : String} {w w' w'' : Session} (h : Run name w w')
    (h' : Run name w' w'') : Run name w w'' := by
  induction h' with
  | refl => exact h
  | step _ hmove ih => exact ih.step hmove

theorem Run.logLength_le {name : String} {w w' : Session} (h : Run name w w') :
    w.engine.logLength name ≤ w'.engine.logLength name := by
  induction h with
  | refl => exact Nat.le_refl _
  | step _ hmove ih => exact Nat.le_trans ih hmove.logLength_le

/-- A snapshot that was published stays so. -/
theorem Run.published_mono {name : String} {w w' : Session} (h : Run name w w') {s : Snapshot}
    (hs : s ∈ w.published) : s ∈ w'.published := by
  induction h with
  | refl => exact hs
  | step _ hmove ih =>
    cases hmove with
    | begin | change | giveUp | fail | elsewhere => exact ih
    | commit => exact List.mem_append_left _ ih

/-! ### Transactions under way -/

def Step.pair (step : Step) : Uid × LogObject := (step.uid, step.object)

namespace Transaction

/-- The view of a transaction is built by its steps from the snapshot that it began on. -/
def Sound (tx : Transaction) : Prop :=
  tx.rollbackPoint.position ≤ Uid.provisionalBase →
    Snapshot.Builds tx.rollbackPoint.position tx.rollbackPoint (tx.steps.map Step.pair)
      (Uid.provisionalBase + tx.steps.length) tx.view

theorem sound_begin (s : Snapshot) : s.begin.Sound := fun hroom => .refl hroom

variable {tx tx' : Transaction}

theorem add_eq_ok {object : LogObject} {uid : Uid} :
    tx.add object = .ok (uid, tx') ↔
      ∃ view, tx.view.install .proposed (.provisional tx.steps.length) object = .ok view ∧
        uid = .provisional tx.steps.length ∧
        tx' = { tx with view, steps := tx.steps ++ [⟨.provisional tx.steps.length, object⟩] } := by
  rw [add, bind_eq_ok]
  refine exists_congr fun view => and_congr_right fun _ => ⟨fun h => ?_, fun ⟨huid, htx⟩ => ?_⟩
  · cases h
    exact ⟨rfl, rfl⟩
  · rw [huid, htx]

/-- Reading leaves the view and the steps alone. -/
theorem eq_of_changes (h : Changes tx tx') :
    tx'.rollbackPoint = tx.rollbackPoint ∧
      (tx'.view = tx.view ∧ tx'.steps = tx.steps ∨
        ∃ object, tx.view.install .proposed (.provisional tx.steps.length) object = .ok tx'.view ∧
          tx'.steps = tx.steps ++ [⟨.provisional tx.steps.length, object⟩]) := by
  cases h with
  | add h =>
    obtain ⟨view, hview, _, rfl⟩ := add_eq_ok.1 h
    exact ⟨rfl, .inr ⟨_, hview, rfl⟩⟩
  | readRow h =>
    obtain ⟨_, h⟩ := ensure_bind_eq_ok.1 h
    cases h
    exact ⟨rfl, .inl ⟨rfl, rfl⟩⟩
  | readTable h =>
    obtain ⟨_, _, h⟩ := orError_bind_eq_ok.1 h
    cases h
    exact ⟨rfl, .inl ⟨rfl, rfl⟩⟩
  | readByKey h =>
    obtain ⟨_, _, h⟩ := orError_bind_eq_ok.1 h
    cases h
    split <;> exact ⟨rfl, .inl ⟨rfl, rfl⟩⟩

theorem Sound.of_changes (hsound : tx.Sound) (h : Changes tx tx') : tx'.Sound := by
  intro hroom
  obtain ⟨hrollback, ⟨hview, hsteps⟩ | ⟨object, hview, hsteps⟩⟩ := eq_of_changes h
  · rw [hrollback, hview, hsteps]
    exact hsound (hrollback ▸ hroom)
  · rw [hrollback, hsteps, List.map_append, List.length_append]
    exact (hsound (hrollback ▸ hroom)).step (Nat.le_refl _)
      (Nat.lt_succ_self _) hview tx'.view.position

end Transaction

/-! ### Whole transactions -/

/-- The transaction with more steps, leaving out those that fail. -/
def Transaction.taking (tx : Transaction) (objects : List LogObject) : Transaction :=
  objects.foldl (fun tx object => match tx.add object
    with | .ok (_, tx') => tx' | .error _ => tx) tx

theorem Transaction.rollbackPoint_taking (tx : Transaction) (objects : List LogObject) :
    (tx.taking objects).rollbackPoint = tx.rollbackPoint := by
  induction objects generalizing tx with
  | nil => rfl
  | cons object objects ih =>
    rw [taking, List.foldl_cons]
    split
    · next hadd => exact (ih _).trans (eq_of_changes (.add hadd)).1
    · exact ih tx

/-- A step that succeeds is taken under the next number. -/
theorem Transaction.add_eq_taking {tx : Transaction} {object : LogObject}
    (h : (tx.add object).isOk) :
    tx.add object = .ok (.provisional tx.steps.length, tx.taking [object]) := by
  cases hadd : tx.add object with
  | error error =>
    rw [hadd] at h
    cases h
  | ok added =>
    obtain ⟨uid, tx'⟩ := added
    obtain ⟨_, _, huid, _⟩ := add_eq_ok.1 hadd
    rw [taking, List.foldl_cons, hadd, huid]
    rfl

namespace Session

/-- A database that was opened in memory just now. -/
def fresh (name : String) :
    Session := ⟨(Engine.openMemory ⟨.empty, []⟩ name).2, [.empty name], [], []⟩

/-- The session after one more transaction has come to its end. -/
def settle (w : Session) (name : String) (tx : Transaction) : Session :=
  match w.engine.commit tx with
  | (.ok s, e) =>
    ⟨e, w.published ++ [s], w.committed ++ placed (w.engine.logLength name) [] tx.steps,
      w.transactions⟩
  | (.error _, e) => { w with engine := e }

end Session

theorem opened_fresh (name : String) : Opened name (.fresh name) :=
  @Opened.memory name ⟨.empty, []⟩ _ _ rfl rfl

namespace Run

variable {name : String} {w w' : Session} {s : Snapshot}

/-- The last transaction takes more steps. -/
theorem taking {tx : Transaction}
    (h : Run name w { w' with transactions := w'.transactions ++ [tx] })
    (objects : List LogObject) :
    Run name w { w' with transactions := w'.transactions ++ [tx.taking objects] } := by
  induction objects generalizing tx with
  | nil => exact h
  | cons object objects ih =>
    rw [Transaction.taking, List.foldl_cons]
    split
    · next hadd => exact ih (h.step (.change rfl (.add hadd)))
    · exact ih h

theorem begin (h : Run name w w') (hs : s ∈ w'.published) (objects : List LogObject) :
    Run name w { w' with transactions := w'.transactions ++ [s.begin.taking objects] } :=
  (h.step (.begin hs)).taking objects

theorem settle (h : Run name w w') (hs : s ∈ w'.published) (objects : List LogObject) :
    Run name w (w'.settle name (s.begin.taking objects)) := by
  have hbegun := h.begin hs objects
  rw [Session.settle]
  split
  · next hcommit =>
    have hdone := hbegun.step (@Move.commit _ _ w'.transactions [] _ _ _ rfl hcommit)
    rwa [List.append_nil] at hdone
  · next hcommit =>
    have hdone := hbegun.step (@Move.fail _ _ w'.transactions [] _ _ _ rfl hcommit)
    rwa [List.append_nil] at hdone

end Run

end SnapshotStore
