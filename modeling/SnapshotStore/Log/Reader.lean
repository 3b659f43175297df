import SnapshotStore.Catalog.Uid
import SnapshotStore.Log.Bytes

/-!
# Reading a slice of the log

A reader walks over a slice of the log from its first byte. It remembers whether a read ever needed
bytes past the end of the slice, which tells a slice cut short from one with wrong bytes. What it
has walked over stays read when a read fails.
-/

namespace SnapshotStore

/-- What a read that ran out of bytes was after. -/
inductive Piece where
  | byte
  | integer
  | string
  deriving DecidableEq

def Piece.name : Piece → String
  | byte => "byte"
  | integer => "integer"
  | string => "string"

/-- Parts of a decimal that have 32 bits. -/
inductive DecimalPart where
  | precision
  | scale
  deriving DecidableEq

def DecimalPart.name : DecimalPart → String
  | precision => "precision"
  | scale => "scale"

/-- Why bytes could not be read, and where in the log. -/
inductive ReadFault where
  | truncated (piece : Piece) (offset : Nat)
  | integerLength (length : UInt8) (offset : Nat)
  | count (number : Int64) (offset : Nat)
  | identifier (number : Int64) (offset : Nat)
  | utf8 (offset : Nat)
  | dataType (tag : UInt8) (offset : Nat)
  | valueTag (tag : UInt8) (offset : Nat)
  | boolean (number : Int64) (offset : Nat)
  | outOfRange (part : DecimalPart) (number : Int64) (offset : Nat)
  | alteredType (tag : UInt8) (object : Uid)
  | objectTag (tag : UInt8) (object : Uid)
  deriving DecidableEq

def ReadFault.message : ReadFault → String
  | truncated piece offset => "truncated " ++ piece.name ++ " at offset " ++ toString offset
  | integerLength length offset => "bad integer length " ++ toString length.toNat ++ " at offset " ++ toString offset
  | count number offset => "bad count " ++ toString number.toInt ++ " at offset " ++ toString offset
  | identifier number offset => "bad identifier " ++ toString number.toInt ++ " at offset " ++ toString offset
  | utf8 offset => "invalid utf-8 at offset " ++ toString offset
  | dataType tag offset => "unknown data type " ++ toString tag.toNat ++ " at offset " ++ toString offset
  | valueTag tag offset => "unknown value tag " ++ toString tag.toNat ++ " at offset " ++ toString offset
  | boolean number offset => "bad boolean " ++ toString number.toInt ++ " at offset " ++ toString offset
  | outOfRange part number offset =>
    part.name ++ " " ++ toString number.toInt ++ " out of range at offset " ++ toString offset
  | alteredType tag object => "unknown data type " ++ toString tag.toNat ++ " in alter at " ++ object.text
  | objectTag tag object => "unknown object tag " ++ toString tag.toNat ++ " at offset " ++ object.text

/-- The unread rest of a slice of `size` bytes; `offset` is the place of its first byte in the log.
-/
structure Reader where
  rest : List UInt8
  offset : Nat
  size : Nat
  ranOut : Bool

namespace Reader

/-- A reader at the start of a slice that stands at `base` in the log. -/
def start (bytes : List UInt8) (base : Nat) : Reader := ⟨bytes, base, bytes.length, false⟩

def isDone (r : Reader) : Bool := r.rest.isEmpty

end Reader

/-- A read moves the reader on, also when it fails. -/
abbrev Decoder (A : Type) := ExceptT ReadFault (StateM Reader) A

namespace Decoder

/-- The place of the next byte. -/
def offset : Decoder Nat := return (← get).offset

def byte : Decoder UInt8 := ExceptT.mk fun r =>
  match r.rest with
  | byte :: rest => (.ok byte, { r with rest, offset := r.offset + 1 })
  | [] => (.error (.truncated .byte r.offset), { r with ranOut := true })

/-- The next `count` bytes; where there are fewer, none is read. -/
def take (count : Nat) (piece : Piece) : Decoder (List UInt8) := ExceptT.mk fun r =>
  if count ≤ r.rest.length then
    (.ok (r.rest.take count), { r with rest := r.rest.drop count, offset := r.offset + count })
  else (.error (.truncated piece r.offset), { r with ranOut := true })

/-- An integer need not be written in its shortest form. -/
def int : Decoder Int64 := do
  let start ← offset
  let length ← byte
  if length = 0 ∨ 8 < length then throw (.integerLength length start)
  return Int64.ofInt (Bytes.signed (← take length.toNat .integer))

/-- A length, which cannot exceed that of the whole slice. -/
def count : Decoder Nat := do
  let start ← offset
  let number ← int
  if number < 0 ∨ (← get).size < number.toInt.toNat then throw (.count number start)
  return number.toInt.toNat

def string : Decoder String := do
  let length ← count
  let start ← offset
  match Bytes.toString? (← take length .string) with
  | some s => return s
  | none => throw (.utf8 start)

/-- `count` reads one after the other. -/
def times {A : Type} (item : Decoder A) : (count : Nat) → Decoder (List A)
  | 0 => return []
  | count + 1 => return (← item) :: (← times item count)

end Decoder

end SnapshotStore
