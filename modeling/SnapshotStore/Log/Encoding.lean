import SnapshotStore.Catalog.LogObject
import SnapshotStore.Log.Bytes

/-!
# Log objects as bytes

An object is its tag followed by its parts; lists are preceded by their length. An identifier is
written as an integer, and an absent one as `-1`.
-/

namespace SnapshotStore

namespace Uid

/-- An identifier from `2 ^ 63` on is written as the integer of the same 64 bits. -/
def encode (u : Uid) : List UInt8 := Bytes.ofNat u.place

def encodeOption (u : Option Uid) : List UInt8 := u.elim (Bytes.ofInt (-1)) encode

def encodeList (us : List Uid) : List UInt8 := Bytes.ofNat us.length ++ us.flatMap encode

end Uid

namespace Value

/-- What follows the tag of a value. -/
def encodeBody : Value → List UInt8
  | null => []
  | integer n => Bytes.ofInt n
  | numeric d => Bytes.ofInt d.mantissa ++ Bytes.ofInt d.precision.toInt64 ++ Bytes.ofInt d.scale.toInt64
  | string s => Bytes.ofString s
  | date t => Bytes.ofInt t
  | timeSpan t => Bytes.ofInt t
  | boolean b => Bytes.ofNat b.toNat

def encode (v : Value) : List UInt8 := v.tag :: v.encodeBody

end Value

def Field.encode (field : Field) : List UInt8 := field.1.encode ++ field.2.encode

def Field.encodeList (fields : List Field) : List UInt8 := Bytes.ofNat fields.length ++ fields.flatMap Field.encode

namespace LogObject

/-- What follows the tag of an object. -/
def encodeBody : LogObject → List UInt8
  | newTable name => Bytes.ofString name
  | newColumn name type table => Bytes.ofString name ++ type.tag :: table.encode
  | record table fields => table.encode ++ Field.encodeList fields
  | update table fields row => table.encode ++ Field.encodeList fields ++ row.encode
  | delete table row => table.encode ++ row.encode
  | alter table column name type =>
    table.encode ++ Uid.encodeOption column ++ Bytes.ofString name ++ [type.elim 0 DataType.tag]
  | drop target parent => target.encode ++ Uid.encodeOption parent
  | newIndex ⟨table, primary, columns, references⟩ =>
    table.encode ++ primary.toUInt8 :: (Uid.encodeList columns ++ Uid.encodeOption references)
  | dropIndex table columns => table.encode ++ Uid.encodeList columns

def encode (object : LogObject) : List UInt8 := object.tag :: object.encodeBody

/-- Writes an object behind the bytes of a buffer and gives its offset there. -/
def put (object : LogObject) (buffer : List UInt8) : Nat × List UInt8 :=
  (buffer.length, buffer ++ object.encode)

end LogObject

end SnapshotStore
