import SnapshotStore.SortedMap.Check
import SnapshotStore.SortedMap.Cursor

/-!
# Sorted maps

A sorted map is a copy-on-write tree of buckets. Every change gives a new map, and an old one keeps
its entries, which is what makes a map a snapshot.
-/

namespace SnapshotStore

structure SortedMap (K V : Type) where
  root : Option (Bucket K V)

namespace SortedMap

variable {K V : Type}

def empty : SortedMap K V := ⟨none⟩

instance : EmptyCollection (SortedMap K V) := ⟨empty⟩

instance : Inhabited (SortedMap K V) := ⟨empty⟩

def singleton (key : K) (value : V) : SortedMap K V := ⟨some (.leaf [(key, value)])⟩

def size (m : SortedMap K V) : Nat := m.root.elim 0 Bucket.total

def isEmpty (m : SortedMap K V) : Bool := m.root.isNone

/-- The entries in the order of the map. -/
def toList (m : SortedMap K V) : List (K × V) := m.root.elim [] Bucket.toList

def keys (m : SortedMap K V) : List K := m.toList.map Prod.fst

def values (m : SortedMap K V) : List V := m.toList.map Prod.snd

def first (m : SortedMap K V) : Option (Cursor K V) := m.root.bind (Cursor.leftmost [] 0)

def last (m : SortedMap K V) : Option (Cursor K V) := m.root.bind fun root => Cursor.rightmost [] (root.total - 1) root

variable [Ord K]

def get? (m : SortedMap K V) (key : K) : Option V := m.root.bind (Bucket.get? key)

def contains (m : SortedMap K V) (key : K) : Bool := (m.get? key).isSome

/-- The map with a new value under a key that it holds. -/
def replace? (m : SortedMap K V) (key : K) (value : V) : Option (SortedMap K V) :=
  m.root.bind fun root => (root.replace? key value).map fun root => ⟨some root⟩

/-- A present key keeps its place and its stored form and takes the new value. A full root is split
first, which is how the tree grows. -/
def insert (m : SortedMap K V) (key : K) (value : V) : SortedMap K V :=
  match m.root with
  | none => singleton key value
  | some root =>
    match root.replace? key value with
    | some root => ⟨some root⟩
    | none =>
      let root :=
        if root.isFull then root.split?.elim root fun (separator, low, high) => Bucket.join [(separator, low)] high
        else root
      ⟨some (root.insert key value)⟩

def erase (m : SortedMap K V) (key : K) : SortedMap K V :=
  match m.root with
  | none => m
  | some root =>
    match root.erase key with
    | .unchanged => m
    | .nothing => empty
    | .bucket root => ⟨some root⟩

/-- A later entry of a key replaces the value of an earlier one. -/
def ofList (entries : List (K × V)) : SortedMap K V :=
  entries.foldl (fun m (key, value) => m.insert key value) empty

/-- The cursor on `key`, or on the next greater key if there is none. -/
def seek (m : SortedMap K V) (key : K) : Option (Cursor K V) := m.root.bind (Cursor.seek key [] 0)

/-- One walk over the entries of both sides in order: `theirs` go into `result`, and `mine` tell
which keys it holds already. -/
def mergeInto (result : SortedMap K V) : List (K × V) → List (K × V) → SortedMap K V
  | _, [] => result
  | [], (key, value) :: theirs => mergeInto (result.insert key value) [] theirs
  | (mine, kept) :: rest, (key, value) :: theirs =>
    match compare mine key with
    | .lt => mergeInto result rest ((key, value) :: theirs)
    | .eq => mergeInto ((result.replace? key value).getD (result.insert key value)) rest theirs
    | .gt => mergeInto (result.insert key value) ((mine, kept) :: rest) theirs
termination_by mine theirs => mine.length + theirs.length

/-- The union of two maps, in which the values of the second one win. -/
def merge (m other : SortedMap K V) : SortedMap K V := mergeInto m m.toList other.toList

def check (m : SortedMap K V) : Except BucketFault Unit :=
  m.root.elim (.ok ()) fun root => discard (root.check none none)

/-- Entries of equal keys and equal values in the same order. -/
def sameEntries [BEq V] : List (K × V) → List (K × V) → Bool
  | [], [] => true
  | (a, v) :: as, (b, w) :: bs => (compare a b).isEq && v == w && sameEntries as bs
  | _, _ => false

/-- Maps are equal by their entries, whatever the shapes of their trees. -/
instance [BEq V] : BEq (SortedMap K V) := ⟨fun m other => m.size == other.size && sameEntries m.toList other.toList⟩

/-- The entries between braces, keys and values in the given texts. -/
def inspect (key : K → String) (value : V → String) (m : SortedMap K V) : String :=
  "\x7b" ++ ", ".intercalate (m.toList.map fun (k, v) => key k ++ ": " ++ value v) ++ "\x7d"

end SortedMap

end SnapshotStore
