/-!
# Identifiers

An object of the log is identified by the place of its first byte there. Until it is in the log it
has a provisional identifier, from a range that no log reaches.
-/

namespace SnapshotStore

structure Uid where
  place : Nat
  deriving DecidableEq

namespace Uid

instance : Inhabited Uid := ⟨⟨0⟩⟩

instance : Ord Uid := ⟨fun a b => compare a.place b.place⟩

/-- The first provisional identifier. -/
def provisionalBase : Nat := 0x4000000000000000

/-- The identifier of step `n` of a transaction. -/
def provisional (n : Nat) : Uid := ⟨provisionalBase + n⟩

def isProvisional (u : Uid) : Bool := provisionalBase ≤ u.place

/-- A provisional identifier is its step behind an apostrophe. -/
def text (u : Uid) : String :=
  if u.isProvisional then "'" ++ toString (u.place - provisionalBase) else toString u.place

def inspect (u : Uid) : String := "Uid(" ++ toString u.place ++ ")"

def inspectList (us : List Uid) : String := "[" ++ ", ".intercalate (us.map inspect) ++ "]"

end Uid

/-- New identifiers for old ones; an earlier pair of the list wins. -/
abbrev Renaming := List (Uid × Uid)

/-- The new identifier, or the old one if it has none. -/
def Renaming.apply (pairs : Renaming) (u : Uid) : Uid := (pairs.lookup u).getD u

end SnapshotStore
