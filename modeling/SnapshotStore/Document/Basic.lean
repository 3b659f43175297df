import SnapshotStore.Document.Token

/-!
# Documents

A document is a value that may nest without limit. It is read from its tokens with the unfinished
lists and objects around the current place on a stack.
-/

namespace SnapshotStore

/-- Numbers are not told apart. A text keeps its code units, which need not form characters. -/
inductive Document where
  | null
  | boolean (holds : Bool)
  | number
  | text (units : List Document.TextUnit)
  | list (items : List Document)
  | object (members : List (List Document.TextUnit × Document))

namespace Document

/-- A list or an object whose end has not been read, its parts in reverse; a member has its name and
waits for its value. -/
inductive Frame where
  | list (items : List Document)
  | object (members : List (List TextUnit × Document))
  | member (name : List TextUnit) (members : List (List TextUnit × Document))

/-- What has been read, and what may come next. -/
inductive Progress where
  | value (stack : List Frame)
  | first (stack : List Frame)
  | name (stack : List Frame)
  | colon (stack : List Frame)
  | after (item : Document) (stack : List Frame)

namespace Progress

/-- Where a value is due. -/
def startValue (stack : List Frame) : Token → Option Progress
  | .null => some (.after .null stack)
  | .boolean holds => some (.after (.boolean holds) stack)
  | .number => some (.after .number stack)
  | .text units => some (.after (.text units) stack)
  | .openList => some (.first (.list [] :: stack))
  | .openObject => some (.first (.object [] :: stack))
  | _ => none

/-- Where the name of a member is due. -/
def startMember : List Frame → Token → Option Progress
  | .object members :: stack, .text units => some (.colon (.member units members :: stack))
  | _, _ => none

def step (progress : Progress) (token : Token) : Option Progress :=
  match progress, token with
  | .value stack, token => startValue stack token
  | .first (.list items :: stack), .closeList => some (.after (.list items.reverse) stack)
  | .first (.list items :: stack), token => startValue (.list items :: stack) token
  | .first (.object members :: stack), .closeObject => some (.after (.object members.reverse) stack)
  | .first stack, token => startMember stack token
  | .name stack, token => startMember stack token
  | .colon stack, .colon => some (.value stack)
  | .after item (.list items :: stack), .comma => some (.value (.list (item :: items) :: stack))
  | .after item (.list items :: stack), .closeList => some (.after (.list (item :: items).reverse) stack)
  | .after item (.member units members :: stack), .comma => some (.name (.object ((units, item) :: members) :: stack))
  | .after item (.member units members :: stack), .closeObject =>
    some (.after (.object ((units, item) :: members).reverse) stack)
  | _, _ => none

end Progress

/-- The document that the characters are, if they are one. -/
def parse? (cs : List Char) : Option Document := do
  match ← (← tokens? cs).foldlM Progress.step (.value []) with
  | .after value [] => some value
  | _ => none

/-- The characters of code units; one of a surrogate pair alone is none. -/
def characters? : List TextUnit → Option (List Char)
  | [] => some []
  | .char c :: units => (characters? units).map (c :: ·)
  | .code high :: .code low :: units =>
    if 0xd800 ≤ high ∧ high < 0xdc00 ∧ 0xdc00 ≤ low ∧ low < 0xe000 then
      (characters? units).map (Char.ofNat (0x10000 + (high - 0xd800) * 0x400 + (low - 0xdc00)) :: ·)
    else if 0xd800 ≤ high ∧ high < 0xe000 then none
    else (characters? (.code low :: units)).map (Char.ofNat high :: ·)
  | .code unit :: units =>
    if 0xd800 ≤ unit ∧ unit < 0xe000 then none else (characters? units).map (Char.ofNat unit :: ·)

def string? (units : List TextUnit) : Option String := (characters? units).map String.ofList

end Document

end SnapshotStore
