import SnapshotStore.Catalog.LogObject
import SnapshotStore.Log.Reader

/-!
# Reading log objects

The parts of an object are read in the order in which they are written. `scan` reads all objects of
a slice up to its end or to the first one that cannot be read.
-/

namespace SnapshotStore

namespace Decoder

def uid : Decoder Uid := do
  let start ← offset
  let number ← int
  if number < 0 then throw (.identifier number start)
  return ⟨number.toInt.toNat⟩

/-- An absent identifier is `-1`. -/
def uidOption : Decoder (Option Uid) := do
  let start ← offset
  let number ← int
  if number = -1 then return none
  if number < 0 then throw (.identifier number start)
  return some ⟨number.toInt.toNat⟩

def uids : Decoder (List Uid) := do times uid (← count)

def dataType : Decoder DataType := do
  let start ← offset
  let tag ← byte
  match DataType.ofTag? tag with
  | some type => return type
  | none => throw (.dataType tag start)

def int32 (part : DecimalPart) : Decoder Int32 := do
  let start ← offset
  let number ← int
  if number < -2147483648 ∨ 2147483647 < number then throw (.outOfRange part number start)
  return number.toInt32

def value : Decoder Value := do
  let start ← offset
  let tag ← byte
  if tag = 0 then return .null
  match DataType.ofTag? tag with
  | none => throw (.valueTag tag start)
  | some .integer => return .integer (← int)
  | some .numeric =>
    let mantissa ← int
    let precision ← int32 .precision
    let scale ← int32 .scale
    return .numeric ⟨mantissa, precision, scale⟩
  | some .string => return .string (← string)
  | some .date => return .date (← int)
  | some .timeSpan => return .timeSpan (← int)
  | some .boolean =>
    let number ← int
    if number = 0 then return .boolean false
    if number = 1 then return .boolean true
    throw (.boolean number start)

def field : Decoder Field := do
  let column ← uid
  let held ← value
  return (column, held)

def fields : Decoder (List Field) := do times field (← count)

/-- The type of an altered column; the tag 0 stands for the type that it has. -/
def alteredType (object : Uid) : Decoder (Option DataType) := do
  let tag ← byte
  if tag = 0 then return none
  match DataType.ofTag? tag with
  | some type => return some type
  | none => throw (.alteredType tag object)

/-- What follows the tag of the object at `uid`. -/
def body (object : Uid) (tag : UInt8) : Decoder LogObject := do
  match tag with
  | 9 => return .newTable (← string)
  | 10 => return .newColumn (← string) (← dataType) (← uid)
  | 11 => return .record (← uid) (← fields)
  | 12 => return .update (← uid) (← fields) (← uid)
  | 13 => return .delete (← uid) (← uid)
  | 14 => return .alter (← uid) (← uidOption) (← string) (← alteredType object)
  | 15 => return .drop (← uid) (← uidOption)
  | 17 =>
    let table ← uid
    let primary ← byte
    return .newIndex ⟨table, primary ≠ 0, ← uids, ← uidOption⟩
  | 54 => return .dropIndex (← uid) (← uids)
  | tag => throw (.objectTag tag object)

/-- The next object and its identifier. -/
def object : Decoder (Uid × LogObject) := do
  let uid : Uid := ⟨← offset⟩
  let tag ← byte
  return (uid, ← body uid tag)

/-- The next object and its identifier, or nothing at the end of the slice. -/
def next : Decoder (Option (Uid × LogObject)) := do
  if (← get).isDone then return none else return some (← object)

end Decoder

/-- An object of the log and the place behind it. -/
structure Stored where
  uid : Uid
  object : LogObject
  stop : Nat
  deriving DecidableEq

/-- The objects at the start of a slice and, where they do not reach its end, why the next one
cannot be read and whether it runs past the end. -/
structure Scan where
  objects : List Stored
  fault : Option (ReadFault × Bool)

namespace Scan

/-- Every object has at least one byte, so a slice holds no more objects than bytes. -/
def upTo : (bound : Nat) → Reader → Scan
  | 0, _ => ⟨[], none⟩
  | bound + 1, r =>
    if r.isDone then ⟨[], none⟩
    else match Decoder.object.run.run r with
      | (.ok (uid, object), r) =>
        let rest := upTo bound r
        { rest with objects := ⟨uid, object, r.offset⟩ :: rest.objects }
      | (.error fault, r) => ⟨[], some (fault, r.ranOut)⟩

def ofBytes (bytes : List UInt8) (base : Nat) : Scan := upTo bytes.length (.start bytes base)

end Scan

/-- All objects of a slice that stands at `base` in the log. -/
def objectsIn (bytes : List UInt8) (base : Nat) : Except ReadFault (List (Uid × LogObject)) :=
  let scan := Scan.ofBytes bytes base
  match scan.fault with
  | none => .ok (scan.objects.map fun stored => (stored.uid, stored.object))
  | some (fault, _) => .error fault

end SnapshotStore
