import SnapshotStore.Proofs.Engine.Opening
import SnapshotStore.Proofs.Engine.Session

/-!
# Databases that are opened and closed

Operations open and close databases by name, and commits leave open what is open. Beginning a
transaction, its steps and its reads do not reach the engine at all: a transaction may be committed
at any later time, and finds whatever is open under its name by then.
-/

namespace SnapshotStore

variable {e e' : Engine} {name : String} {s : Snapshot} {tx : Transaction}

/-- What an operation does to the table of open databases. -/
inductive Effect where
  | opens (name : String)
  | closes (name : String)
  | keeps
  deriving DecidableEq

/-- Whether a database is open after the effect. -/
def Effect.leaves (name : String) (isOpen : Bool) : Effect → Bool
  | opens other => other = name || isOpen
  | closes other => other ≠ name && isOpen
  | keeps => isOpen

namespace Engine

def isOpen (e : Engine) (name : String) : Bool := (e.handle? name).isSome

/-- An operation on any database. The disk may change in any way in between, and that is all that an
opening can do that fails. -/
inductive Operation (e : Engine) : Effect → Engine → Prop where
  | openFile {name : String} {config : Config} {s : Snapshot} {e' : Engine}
      (h : e.openFile name config = .ok (s, e')) : Operation e (.opens name) e'
  | openMemory (name : String) : Operation e (.opens name) (e.openMemory name).2
  | commit (tx : Transaction) : Operation e .keeps (e.commit tx).2
  | close (s : Snapshot) : Operation e (.closes s.name) (e.close s).2
  | store (disk : Disk) : Operation e .keeps { e with disk }

/-- Any number of operations with their effects. -/
inductive Operations (e : Engine) : List Effect → Engine → Prop where
  | nil : Operations e [] e
  | snoc {effects : List Effect} {effect : Effect} {e' e'' : Engine} (h : Operations e effects e')
      (hoperation : Operation e' effect e'') : Operations e (effects ++ [effect]) e''

/-! ### What is open -/

theorem isOpen_setHandle (other : String) (handle : Handle) :
    (e.setHandle other handle).isOpen name = (decide (other = name) || e.isOpen name) := by
  by_cases hname : other = name
  · rw [hname, isOpen, handle?_setHandle_self, decide_eq_true rfl]
    rfl
  · rw [isOpen, handle?_setHandle_of_ne (Ne.symm hname), decide_eq_false hname, Bool.false_or]
    rfl

theorem isOpen_withoutHandle (other : String) :
    (e.withoutHandle other).isOpen name = (decide (other ≠ name) && e.isOpen name) := by
  by_cases hname : other = name
  · rw [hname, isOpen, handle?_withoutHandle_self, decide_eq_false (not_not_intro rfl)]
    rfl
  · rw [isOpen, handle?_withoutHandle_of_ne (Ne.symm hname), decide_eq_true hname, Bool.true_and]
    rfl

theorem isOpen_of_commit {result : Except Error Snapshot} (h : e.commit tx = (result, e')) :
    e'.isOpen name = e.isOpen name := by
  cases hhandle : e.handle? tx.rollbackPoint.name with
  | none =>
    rw [commit_of_closed hhandle] at h
    cases h
    rfl
  | some handle =>
    have hwas : tx.rollbackPoint.name = name → e.isOpen name = true := fun hname => by
      rw [← hname, isOpen, hhandle]
      rfl
    have hstays : ∀ (disk : Disk) (handle' : Handle),
        ({ e with disk }.setHandle tx.rollbackPoint.name handle').isOpen name = e.isOpen name := by
      intro disk handle'
      rw [isOpen_setHandle]
      by_cases hname : tx.rollbackPoint.name = name
      · rw [hwas hname, decide_eq_true hname]
        rfl
      · rw [decide_eq_false hname]
        rfl
    cases commits_of_commit hhandle h with
    | nothing | refused => rfl
    | failed | published => exact hstays _ _

theorem Operation.isOpen {effect : Effect} (h : Operation e effect e') (name : String) :
    e'.isOpen name = effect.leaves name (e.isOpen name) := by
  have hopen : ∀ {other : String} {handle : Handle}, e.handle? other = some handle →
      e.isOpen name = (decide (other = name) || e.isOpen name) := by
    intro other handle hhandle
    by_cases hname : other = name
    · rw [← hname, Engine.isOpen, hhandle, decide_eq_true rfl]
      rfl
    · rw [decide_eq_false hname, Bool.false_or]
  cases h with
  | @openFile other config s _ h =>
    rw [openFile_eq_ok] at h
    cases hhandle : e.handle? other with
    | some handle =>
      rw [opening, hhandle] at h
      cases h
      exact hopen hhandle
    | none =>
      obtain ⟨handle, disk, _, _, rfl⟩ := (opening_eq_ok hhandle).1 h
      exact isOpen_setHandle other handle
  | openMemory other =>
    rw [Engine.openMemory]
    cases hhandle : e.handle? other with
    | some handle => exact hopen hhandle
    | none => exact isOpen_setHandle other _
  | commit tx => exact isOpen_of_commit rfl
  | close s => exact isOpen_withoutHandle s.name
  | store disk => rfl

/-- The effects of a run tell which databases it leaves open. -/
theorem Operations.isOpen {effects : List Effect} (h : Operations e effects e') (name : String) :
    e'.isOpen name = effects.foldl (Effect.leaves name) (e.isOpen name) := by
  induction h with
  | nil => rfl
  | snoc _ hoperation ih =>
    rw [hoperation.isOpen, ih, List.foldl_append, List.foldl_cons, List.foldl_nil]

end Engine

/-- What is not opened stays closed. -/
theorem Effect.foldl_leaves_false {effects : List Effect} (h : .opens name ∉ effects) :
    effects.foldl (leaves name) false = false := by
  induction effects with
  | nil => rfl
  | cons effect effects ih =>
    rw [List.mem_cons, not_or] at h
    have hleaves : effect.leaves name false = false := by
      cases effect with
      | opens other =>
        rw [leaves, Bool.or_false, decide_eq_false_iff_not]
        rintro rfl
        exact h.1 rfl
      | closes other => exact Bool.and_false _
      | keeps => rfl
    rw [List.foldl_cons, hleaves]
    exact ih h.2

/-! ### Commits of what was closed -/

/-- A snapshot that lies behind the end of what is open under its name by now. -/
theorem Engine.commit_of_shorter {handle : Handle}
    (hhandle : e.handle? tx.rollbackPoint.name = some handle) (hsteps : tx.steps ≠ [])
    (hshorter : handle.published.position < tx.rollbackPoint.position) :
    e.commit tx = (.error (.corruption (.outsideLog tx.rollbackPoint.position
      handle.published.position handle.log.length)), e) := by
  have hread : handle.log.objects e.disk tx.rollbackPoint.position handle.published.position =
      .error (.corruption (.outsideLog tx.rollbackPoint.position handle.published.position
        handle.log.length)) := by
    rw [Log.objects, if_neg (Nat.ne_of_gt hshorter), Log.read, if_pos (.inl hshorter)]
    rfl
  have hplace : handle.place e.disk tx = .error _ := congrArg (· >>= _) hread
  rw [commit, hhandle]
  dsimp only
  rw [if_neg (by rwa [List.isEmpty_iff]), hplace]

/-- Once a database is closed, no transaction begun on one of its snapshots can be committed as long
as the name is not opened again; nothing changes by the attempt. If the name is opened again, what
stands there counts: where that is shorter than the snapshot, the commit fails all the same, but as
the commit of a corrupt log. -/
theorem commit_after_close {effects : List Effect}
    (hrun : Engine.Operations (e.close s).2 effects e') (hname : tx.rollbackPoint.name = s.name)
    (hsteps : tx.steps ≠ []) :
    (.opens s.name ∉ effects → e'.commit tx = (.error (.databaseClosed s.name), e')) ∧
      (∀ handle, e'.handle? s.name = some handle →
        handle.published.position < tx.rollbackPoint.position →
          e'.commit tx = (.error (.corruption (.outsideLog tx.rollbackPoint.position
            handle.published.position handle.log.length)), e')) := by
  refine ⟨fun hclosed => ?_, fun handle hhandle hshorter => ?_⟩
  · have hopen := hrun.isOpen s.name
    have hstart : (e.close s).2.isOpen s.name = false := by
      rw [Engine.isOpen, Engine.close, Engine.handle?_withoutHandle_self]
      rfl
    rw [hstart, Effect.foldl_leaves_false hclosed, Engine.isOpen, Option.isSome_eq_false_iff,
      Option.isNone_iff_eq_none, ← hname] at hopen
    rw [← hname]
    exact Engine.commit_of_closed hopen
  · exact Engine.commit_of_shorter (hname ▸ hhandle) hsteps hshorter

/-- A transaction is begun, its database closed and another one opened. -/
theorem commit_after_close_beside_other :
    let opened := Engine.openMemory ⟨.empty, []⟩ "db"
    let tx := opened.1.begin.taking [.newTable "T"]
    let e := ((opened.2.close opened.1).2.openMemory "other").2
    tx.steps ≠ [] ∧ e.isOpen "other" ∧ e.commit tx = (.error (.databaseClosed "db"), e) := by
  intro opened tx e
  have hsteps : tx.steps ≠ [] := by decide
  have hrun : Engine.Operations (opened.2.close opened.1).2 [.opens "other"] e :=
    .snoc .nil (.openMemory "other")
  exact ⟨hsteps, rfl, (commit_after_close hrun rfl hsteps).1 (by decide)⟩

/-- A transaction that was begun before its database was closed is committed to the one that was
opened under the same name afterwards. -/
theorem commit_after_reopening :
    let opened := Engine.openMemory ⟨.empty, []⟩ "db"
    let tx := opened.1.begin.taking [.newTable "T"]
    let reopened := (opened.2.close opened.1).2.openMemory "db"
    tx.rollbackPoint = opened.1 ∧ tx.steps.length = 1 ∧ reopened.1.position = 0 ∧
      ∃ s e, reopened.2.commit tx = (.ok s, e) ∧ s.position = 4 ∧ e.latest? "db" = some s :=
  ⟨rfl, rfl, rfl, _, _, rfl, rfl, rfl⟩

end SnapshotStore
