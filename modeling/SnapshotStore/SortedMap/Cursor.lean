import SnapshotStore.SortedMap.Bucket

/-!
# Cursors

A cursor stands on an entry of a tree. It holds the entries of the leaf before and after that entry,
and for each bucket above the leaf the children to the left and to the right of the path. Moving
builds a new cursor; the old one stays where it is.
-/

namespace SnapshotStore.SortedMap

/-- A bucket on the way down: the child entered and its siblings, those to the left with the nearest
first. -/
structure Frame (K V : Type) where
  left : List (Bucket K V)
  here : Bucket K V
  right : List (Bucket K V)

/-- The entries `before` have the nearest first, and `path` goes up from the leaf. -/
structure Cursor (K V : Type) where
  before : List (K × V)
  key : K
  value : V
  after : List (K × V)
  path : List (Frame K V)
  position : Nat

namespace Cursor

variable {K V : Type}

/-- The first entry below a bucket. -/
def leftmost (path : List (Frame K V)) (position : Nat) : Bucket K V → Option (Cursor K V)
  | .leaf entries => entries.head?.map fun (key, value) => ⟨[], key, value, entries.tail, path, position⟩
  | .inner [] last _ => leftmost (⟨[], last, []⟩ :: path) position last
  | .inner ((_, child) :: slots) last _ =>
    leftmost (⟨[], child, slots.map Prod.snd ++ [last]⟩ :: path) position child

/-- The last entry below a bucket. -/
def rightmost (path : List (Frame K V)) (position : Nat) : Bucket K V → Option (Cursor K V)
  | .leaf entries =>
    let backward := entries.reverse
    backward.head?.map fun (key, value) => ⟨backward.tail, key, value, [], path, position⟩
  | .inner slots last _ => rightmost (⟨(slots.map Prod.snd).reverse, last, []⟩ :: path) position last

/-- The first entry to the right of a path. -/
def climbNext (position : Nat) : List (Frame K V) → Option (Cursor K V)
  | [] => none
  | ⟨left, here, child :: right⟩ :: path => leftmost (⟨here :: left, child, right⟩ :: path) position child
  | ⟨_, _, []⟩ :: path => climbNext position path

/-- The last entry to the left of a path. -/
def climbPrevious (position : Nat) : List (Frame K V) → Option (Cursor K V)
  | [] => none
  | ⟨child :: left, here, right⟩ :: path => rightmost (⟨left, child, here :: right⟩ :: path) position child
  | ⟨[], _, _⟩ :: path => climbPrevious position path

def next (c : Cursor K V) : Option (Cursor K V) :=
  match c.after with
  | (key, value) :: after => some ⟨(c.key, c.value) :: c.before, key, value, after, c.path, c.position + 1⟩
  | [] => climbNext (c.position + 1) c.path

def previous (c : Cursor K V) : Option (Cursor K V) :=
  match c.before with
  | (key, value) :: before => some ⟨before, key, value, (c.key, c.value) :: c.after, c.path, c.position - 1⟩
  | [] => climbPrevious (c.position - 1) c.path

/-- The first entry below a bucket whose key is not below `key`; past the end of a leaf it is the
next one of the tree. -/
def seek [Ord K] (key : K) (path : List (Frame K V)) (position : Nat) : Bucket K V → Option (Cursor K V)
  | .leaf entries =>
    let place := lowerBound key entries
    match entries.drop place with
    | (found, value) :: after => some ⟨(entries.take place).reverse, found, value, after, path, position + place⟩
    | [] => climbNext (position + entries.length) path
  | .inner slots last _ =>
    let place := lowerBound key slots
    let left := (slots.take place).map Prod.snd
    let position := position + Bucket.totalOf left
    match _h : slots[place]? with
    | some (_, child) =>
      seek key (⟨left.reverse, child, (slots.drop (place + 1)).map Prod.snd ++ [last]⟩ :: path) position child
    | none => seek key (⟨left.reverse, last, []⟩ :: path) position last
termination_by b => sizeOf b
decreasing_by
  · have := Bucket.sizeOf_lt_of_getElem? _h; simp only [Bucket.inner.sizeOf_spec]; omega
  · simp only [Bucket.inner.sizeOf_spec]; omega

end Cursor

end SnapshotStore.SortedMap
