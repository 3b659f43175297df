/-!
# Tokens of a document

A document is written in JSON. Blanks between tokens are the space, the tab and the two line breaks;
texts hold no control characters; numbers and the code units of escapes are checked but not
evaluated here.
-/

namespace SnapshotStore.Document

/-- A character of a text, or the 16-bit code unit that an escape gives. -/
inductive TextUnit where
  | char (c : Char)
  | code (unit : Nat)
  deriving DecidableEq

inductive Token where
  | openList
  | closeList
  | openObject
  | closeObject
  | comma
  | colon
  | null
  | boolean (holds : Bool)
  | number
  | text (units : List TextUnit)
  deriving DecidableEq

def isBlank (c : Char) : Bool := c = ' ' ∨ c = '\t' ∨ c = '\n' ∨ c = '\r'

def hexDigit? (c : Char) : Option Nat :=
  if '0' ≤ c ∧ c ≤ '9' then some (c.toNat - '0'.toNat)
  else if 'a' ≤ c ∧ c ≤ 'f' then some (c.toNat - 'a'.toNat + 10)
  else if 'A' ≤ c ∧ c ≤ 'F' then some (c.toNat - 'A'.toNat + 10)
  else none

/-- The code unit of four hexadecimal digits. -/
def codeUnit? (a b c d : Char) : Option Nat := do
  return (((← hexDigit? a) * 16 + (← hexDigit? b)) * 16 + (← hexDigit? c)) * 16 + (← hexDigit? d)

/-- The character that a letter behind a backslash stands for. -/
def escape? : Char → Option Char
  | '"' => some '"'
  | '\\' => some '\\'
  | '/' => some '/'
  | 'b' => some '\x08'
  | 'f' => some '\x0c'
  | 'n' => some '\n'
  | 'r' => some '\r'
  | 't' => some '\t'
  | _ => none

/-- A text up to its closing quote, and what follows that. -/
def textBody : List Char → Option (List TextUnit × List Char)
  | [] => none
  | '"' :: rest => some ([], rest)
  | '\\' :: 'u' :: a :: b :: c :: d :: rest => do
    let unit ← codeUnit? a b c d
    let (units, rest) ← textBody rest
    return (.code unit :: units, rest)
  | '\\' :: letter :: rest => do
    let c ← escape? letter
    let (units, rest) ← textBody rest
    return (.char c :: units, rest)
  | c :: rest =>
    if c.toNat < 0x20 ∨ c = '\\' then none
    else do
      let (units, rest) ← textBody rest
      return (.char c :: units, rest)

/-- At least one digit, and what follows the digits. -/
def digits? (cs : List Char) : Option (List Char) :=
  if cs.head?.any Char.isDigit then some (cs.dropWhile Char.isDigit) else none

/-- Digits without a leading zero. -/
def wholePart? : List Char → Option (List Char)
  | '0' :: rest => some rest
  | cs => digits? cs

/-- A fraction, if there is a point. -/
def fractionPart? : List Char → Option (List Char)
  | '.' :: rest => digits? rest
  | cs => some cs

/-- An exponent, if there is its letter. -/
def exponentPart? : List Char → Option (List Char)
  | c :: rest =>
    if c = 'e' ∨ c = 'E' then
      match rest with
      | '+' :: rest | '-' :: rest => digits? rest
      | rest => digits? rest
    else some (c :: rest)
  | [] => some []

/-- What follows a number. -/
def number? : List Char → Option (List Char)
  | '-' :: rest => wholePart? rest >>= fractionPart? >>= exponentPart?
  | cs => wholePart? cs >>= fractionPart? >>= exponentPart?

/-- The token at the start of a text, and what follows it. -/
def token? : List Char → Option (Token × List Char)
  | '[' :: rest => some (.openList, rest)
  | ']' :: rest => some (.closeList, rest)
  | '\x7b' :: rest => some (.openObject, rest)
  | '\x7d' :: rest => some (.closeObject, rest)
  | ',' :: rest => some (.comma, rest)
  | ':' :: rest => some (.colon, rest)
  | '"' :: rest => (textBody rest).map fun (units, rest) => (.text units, rest)
  | 'n' :: 'u' :: 'l' :: 'l' :: rest => some (.null, rest)
  | 't' :: 'r' :: 'u' :: 'e' :: rest => some (.boolean true, rest)
  | 'f' :: 'a' :: 'l' :: 's' :: 'e' :: rest => some (.boolean false, rest)
  | cs => (number? cs).map fun rest => (.number, rest)

/-- Up to `bound` tokens; a text has no more tokens than characters. -/
def tokensUpTo (bound : Nat) (cs : List Char) : Option (List Token) :=
  match bound, cs.dropWhile isBlank with
  | _, [] => some []
  | 0, _ :: _ => none
  | bound + 1, cs => do
    let (token, rest) ← token? cs
    return token :: (← tokensUpTo bound rest)

def tokens? (cs : List Char) : Option (List Token) := tokensUpTo cs.length cs

end SnapshotStore.Document
