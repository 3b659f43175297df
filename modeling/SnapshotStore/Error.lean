import SnapshotStore.Catalog.Conflict
import SnapshotStore.Index.Policy
import SnapshotStore.Log.Reader
import SnapshotStore.SortedMap.Check
import SnapshotStore.Value.Text

/-!
# Errors

Every operation fails for one of the causes below. `Error.message` gives the text of a cause.
-/

namespace SnapshotStore

/-- Why an index cannot be defined on a table, or dropped from it. -/
inductive DefinitionFault where
  | noColumns (table : String)
  | secondPrimary (table : String)
  | sameColumns (table : String)
  | noPrimary (table : String)
  | columnCount (columns : Nat) (table : String) (expected : Nat)
  | noSuchIndex (table : String)
  deriving DecidableEq

def DefinitionFault.message : DefinitionFault → String
  | noColumns table => "index on table '" ++ table ++ "' has no columns"
  | secondPrimary table => "table '" ++ table ++ "' already has a primary index"
  | sameColumns table => "table '" ++ table ++ "' already has an index on these columns"
  | noPrimary table => "table '" ++ table ++ "' has no primary index to reference"
  | columnCount columns table expected =>
    "foreign key has " ++ toString columns ++ " columns, primary key of '" ++ table ++ "' has " ++ toString expected
  | noSuchIndex table => "table '" ++ table ++ "' has no index on these columns"

inductive SchemaFault where
  | tableExists (name : String)
  | columnExists (name table : String)
  | definition (fault : DefinitionFault)
  deriving DecidableEq

def SchemaFault.message : SchemaFault → String
  | tableExists name => "table '" ++ name ++ "' already exists"
  | columnExists name table => "column '" ++ name ++ "' already exists in table '" ++ table ++ "'"
  | definition fault => fault.message

/-- A reference that would dangle. -/
inductive ReferentialFault where
  | unmatched (key : List Value) (index table : Uid)
  | stillReferenced (key : List Value) (table index : Uid)
  | referencedTable (name : String) (index table : Uid)
  | keyColumn (name : String) (index : Uid)
  | referencedPrimary (table : String) (index : Uid)
  deriving DecidableEq

def ReferentialFault.message : ReferentialFault → String
  | unmatched key index table =>
    "key (" ++ Value.keyText key ++ ") of index " ++ index.text ++ " has no match in table " ++ table.text
  | stillReferenced key table index =>
    "key (" ++ Value.keyText key ++ ") of table " ++ table.text ++ " is still referenced by index " ++ index.text
  | referencedTable name index table =>
    "table '" ++ name ++ "' is referenced by index " ++ index.text ++ " of table " ++ table.text
  | keyColumn name index => "column '" ++ name ++ "' is a key of index " ++ index.text
  | referencedPrimary table index => "primary index of '" ++ table ++ "' is referenced by index " ++ index.text

/-- What is wrong with a log or with a map in memory. -/
inductive Corruption where
  | unreadable (fault : ReadFault)
  | outsideLog (first last length : Nat)
  | unknownTail (length : Nat)
  | lengthMismatch (length position : Nat)
  | missingObject (uid : Uid)
  | definition (fault : DefinitionFault)
  | bucket (fault : BucketFault)
  deriving DecidableEq

def Corruption.message : Corruption → String
  | unreadable fault => fault.message
  | outsideLog first last length =>
    "log range " ++ toString first ++ ".." ++ toString last ++ " outside 0.." ++ toString length
  | unknownTail length => "log holds unknown bytes past " ++ toString length ++ " after a failed append"
  | lengthMismatch length position =>
    "log length " ++ toString length ++ " does not match published position " ++ toString position
  | missingObject uid => "log refers to missing object " ++ uid.text
  | definition fault => fault.message
  | bucket fault => fault.message

/-- A committed object that a transaction cannot be committed after: it changed what was read, or
excludes a step. -/
inductive Conflict where
  | withReads (committed : LogObject) (uid : Uid)
  | withStep (step committed : LogObject) (uid : Uid)
  deriving DecidableEq

def Conflict.message : Conflict → String
  | withReads committed uid => committed.text ++ " at " ++ uid.text ++ " changed data this transaction read"
  | withStep step committed uid => step.text ++ " conflicts with " ++ committed.text ++ " at " ++ uid.text

/-- A setting of the environment that cannot be understood. -/
inductive SettingFault where
  | durability (name value : String)
  | flag (name value : String)
  deriving DecidableEq

def SettingFault.message : SettingFault → String
  | durability name value => name ++ ": unknown durability '" ++ value ++ "'"
  | flag name value => name ++ ": expected a boolean, got '" ++ value ++ "'"

/-- Failures of the file system and of configuration documents have no cause of their own. -/
inductive Error where
  | policyViolation (violation : PolicyViolation)
  | transactionConflict (conflict : Conflict)
  | referentialViolation (fault : ReferentialFault)
  | corruption (cause : Corruption)
  | objectNotFound (uid : Uid)
  | tableNotFound (name : String)
  | schema (fault : SchemaFault)
  | typeMismatch (expected : DataType) (actual : Value)
  | databaseClosed (name : String)
  | setting (fault : SettingFault)
  | fileSystem
  | document
  deriving DecidableEq

namespace Error

def message : Error → String
  | policyViolation violation => "policy violation: " ++ violation.message
  | transactionConflict conflict => "transaction conflict: " ++ conflict.message
  | referentialViolation fault => "referential violation: " ++ fault.message
  | corruption cause => "corruption: " ++ cause.message
  | objectNotFound uid => "object " ++ uid.text ++ " not found"
  | tableNotFound name => "table '" ++ name ++ "' not found"
  | schema fault => "schema error: " ++ fault.message
  | typeMismatch expected actual => "type mismatch: expected " ++ expected.name ++ ", got " ++ actual.typeName
  | databaseClosed name => "database '" ++ name ++ "' is closed"
  | setting fault => "config error: " ++ fault.message
  | fileSystem => "io error"
  | document => "json error"

/-- Whether a transaction that begins anew may succeed. -/
def isRetryable : Error → Bool
  | transactionConflict _ => true
  | _ => false

end Error

end SnapshotStore
