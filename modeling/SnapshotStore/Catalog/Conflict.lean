import SnapshotStore.Catalog.LogObject

/-!
# Conflicts

Two objects of concurrent transactions conflict if one of them cannot be committed after the other.
What a transaction has read is checked apart, against the rows that others wrote.
-/

namespace SnapshotStore

namespace LogObject

/-- The row that an object at `uid` writes. -/
def row? (uid : Uid) : LogObject → Option Uid
  | record .. => some uid
  | update _ _ row => some row
  | delete _ row => some row
  | _ => none

/-- Whether an object drops `uid`. -/
def drops (uid : Uid) : LogObject → Bool
  | drop target _ => target = uid
  | _ => false

/-- Whether `a` at `aUid` leaves no room for `b` at `bUid`. -/
def excludes (a : LogObject) (aUid : Uid) (b : LogObject) (bUid : Uid) : Bool :=
  match a with
  | newTable name =>
    match b with
    | newTable other => other = name
    | _ => false
  | newColumn name _ table =>
    match b with
    | newColumn other _ otherTable => otherTable = table ∧ other = name
    | b => b.drops table
  | alter table target _ _ =>
    match b with
    | alter other _ _ _ => other = table
    | b => b.drops table || target.any (b.drops ·)
  | drop target parent =>
    match b with
    | drop otherTarget otherParent =>
      (otherTarget = target ∧ otherParent = parent) ∨ some otherTarget = parent ∨ otherParent = some target
    | newColumn _ _ table => table = target ∨ bUid = target
    | alter table altered _ _ => table = target ∨ altered = some target
    | newIndex definition => definition.table = target ∨ target ∈ definition.columns
    | dropIndex table columns => table = target ∨ target ∈ columns
    | _ => false
  | record table _ =>
    match b with
    | delete _ row => row = aUid
    | b => b.drops table
  | update table _ row =>
    match b with
    | update _ _ other => other = row
    | delete _ other => other = row
    | b => b.drops table
  | delete _ row =>
    match b with
    | update .. | delete .. => b.row? bUid = some row
    | _ => false
  | newIndex _ | dropIndex .. => false

/-- Whether the two objects cannot both be committed. -/
def conflicts (a : LogObject) (aUid : Uid) (b : LogObject) (bUid : Uid) : Bool :=
  a.excludes aUid b bUid || b.excludes bUid a aUid

end LogObject

/-- The rows and whole tables that a transaction has read, in ascending order. -/
structure ReadSet where
  uids : List Uid
  deriving DecidableEq

namespace ReadSet

def empty : ReadSet := ⟨[]⟩

def contains (reads : ReadSet) (uid : Uid) : Bool := reads.uids.contains uid

def insert (reads : ReadSet) (uid : Uid) : ReadSet :=
  if reads.contains uid then reads
  else ⟨reads.uids.filter (·.place < uid.place) ++ uid :: reads.uids.filter (uid.place < ·.place)⟩

def ofList (uids : List Uid) : ReadSet := uids.foldl insert empty

/-- Whether a committed object wrote a row that was read, or any row of a table that was read. -/
def violatedBy (reads : ReadSet) (committed : LogObject) (uid : Uid) : Bool :=
  match committed.row? uid with
  | some row => reads.contains row || committed.table?.any reads.contains
  | none => false

end ReadSet

end SnapshotStore
