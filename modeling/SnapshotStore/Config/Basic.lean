import SnapshotStore.Error
import SnapshotStore.Text.Blank

/-!
# Configuration

How a database is opened, and how the environment overrides it.
-/

namespace SnapshotStore

/-- How far a commit is carried before it counts: to stable storage, to the operating system, or to
memory alone. -/
inductive Durability where
  | full
  | lazy
  | memory
  deriving DecidableEq

namespace Durability

def name : Durability → String
  | full => "full"
  | lazy => "lazy"
  | memory => "none"

def ofName? (name : String) : Option Durability := [full, lazy, memory].find? (·.name = name)

/-- A level by its name, whatever the case of its letters and the white space around it. -/
def parse? (s : String) : Option Durability := ofName? (Text.word s)

end Durability

/-- `truncateTornTail` lets the log be cut where its last object runs past its end. -/
structure Config where
  durability : Durability
  createIfMissing : Bool
  truncateTornTail : Bool
  deriving DecidableEq

namespace Config

def default : Config := ⟨.full, true, true⟩

instance : Inhabited Config := ⟨default⟩

def inMemory : Config := { default with durability := .memory }

/-- A yes or a no in one of its four spellings. -/
def yesOrNo? (s : String) : Option Bool :=
  let word := Text.word s
  if word ∈ ["1", "true", "yes", "on"] then some true
  else if word ∈ ["0", "false", "no", "off"] then some false
  else none

/-! ### The environment -/

def durabilityVariable : String := "VDB_DURABILITY"

def createVariable : String := "VDB_CREATE_IF_MISSING"

def truncateVariable : String := "VDB_TRUNCATE_TORN_TAIL"

/-- What the environment says about a flag, if anything. -/
def flagFrom (environment : String → Option String) (name : String) (current : Bool) : Except SettingFault Bool :=
  match environment name with
  | none => .ok current
  | some value => (yesOrNo? value).elim (.error (.flag name value)) .ok

def durabilityFrom (environment : String → Option String) (current : Durability) : Except SettingFault Durability :=
  match environment durabilityVariable with
  | none => .ok current
  | some value => (Durability.parse? value).elim (.error (.durability durabilityVariable value)) .ok

/-- The configuration with every setting that the environment has. -/
def applyEnvironment (c : Config) (environment : String → Option String) : Except SettingFault Config := do
  let durability ← durabilityFrom environment c.durability
  let createIfMissing ← flagFrom environment createVariable c.createIfMissing
  let truncateTornTail ← flagFrom environment truncateVariable c.truncateTornTail
  .ok { durability, createIfMissing, truncateTornTail }

end Config

end SnapshotStore
