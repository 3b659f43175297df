/-!
# White space around a word
-/

namespace SnapshotStore.Text

/-- The white space of the character standard. -/
def isBlank (c : Char) : Bool :=
  let n := c.toNat
  (0x09 ≤ n ∧ n ≤ 0x0d) ∨ n = 0x20 ∨ n = 0x85 ∨ n = 0xa0 ∨ n = 0x1680 ∨ (0x2000 ≤ n ∧ n ≤ 0x200a) ∨
    n = 0x2028 ∨ n = 0x2029 ∨ n = 0x202f ∨ n = 0x205f ∨ n = 0x3000

/-- The text without white space at its ends. -/
def trimmed (s : List Char) : List Char :=
  ((s.dropWhile isBlank).reverse.dropWhile isBlank).reverse

/-- A word without surrounding white space, its letters from `A` to `Z` made small. -/
def word (s : String) : String := String.ofList ((trimmed s.toList).map Char.toLower)

end SnapshotStore.Text
