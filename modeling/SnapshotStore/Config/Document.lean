import SnapshotStore.Config.Basic
import SnapshotStore.Document.Basic
import SnapshotStore.Log.Medium

/-!
# Configurations as documents

A configuration is an object with a member for each setting, or the list of the settings. A setting
that is missing has its default; a member of another name is passed over, whatever its value, and
one that comes twice is an error.
-/

namespace SnapshotStore.Config

/-- A level is given by its name, alone or as the name of a member without a value. -/
def durabilityOf? : Document → Option Durability
  | .text units => Document.string? units >>= Durability.ofName?
  | .object [(units, .null)] => Document.string? units >>= Durability.ofName?
  | _ => none

def flagOf? : Document → Option Bool
  | .boolean holds => some holds
  | _ => none

/-- The settings that have been read. -/
structure Settings where
  durability : Option Durability
  createIfMissing : Option Bool
  truncateTornTail : Option Bool

/-- A setting that had no value yet. -/
def once {A : Type} (earlier : Option A) (value : Option A) : Option (Option A) :=
  if earlier.isSome then none else value.map some

def Settings.readMember (settings : Settings) (member : List Document.TextUnit × Document) : Option Settings := do
  let (name, value) := member
  match ← Document.string? name with
  | "durability" => return { settings with durability := ← once settings.durability (durabilityOf? value) }
  | "create_if_missing" => return { settings with createIfMissing := ← once settings.createIfMissing (flagOf? value) }
  | "truncate_torn_tail" => return { settings with truncateTornTail := ← once settings.truncateTornTail (flagOf? value) }
  | _ => return settings

/-- The configuration with defaults for what has not been read. -/
def Settings.complete (settings : Settings) : Config where
  durability := settings.durability.getD default.durability
  createIfMissing := settings.createIfMissing.getD default.createIfMissing
  truncateTornTail := settings.truncateTornTail.getD default.truncateTornTail

def ofDocument? : Document → Option Config
  | .object members => (members.foldlM Settings.readMember ⟨none, none, none⟩).map Settings.complete
  | .list [] => some default
  | .list [durability] => return { default with durability := ← durabilityOf? durability }
  | .list [durability, create] =>
    return { default with durability := ← durabilityOf? durability, createIfMissing := ← flagOf? create }
  | .list [durability, create, truncate] =>
    return ⟨← durabilityOf? durability, ← flagOf? create, ← flagOf? truncate⟩
  | _ => none

def parse (text : String) : Except Error Config :=
  ((Document.parse? text.toList).bind ofDocument?).elim (.error .document) .ok

/-- The configuration in a file; bytes that are no text count as a failure of the file. -/
def parseFile (disk : Disk) (name : String) : Except Error Config :=
  match disk name with
  | some (.file bytes _) => (Bytes.toString? bytes).elim (.error .fileSystem) parse
  | _ => .error .fileSystem

/-- The configuration as a document. -/
def text (c : Config) : String :=
  let flag (holds : Bool) := if holds then "true" else "false"
  "\x7b\"durability\":\"" ++ c.durability.name ++ "\",\"create_if_missing\":" ++ flag c.createIfMissing ++
    ",\"truncate_torn_tail\":" ++ flag c.truncateTornTail ++ "\x7d"

end SnapshotStore.Config
