/-!
# Integers and texts as bytes

An integer is written as the number of its bytes and then those bytes: its two's complement, most
significant byte first, without leading bytes that only repeat the sign. A text is written as the
number of its bytes and then its UTF-8.
-/

namespace SnapshotStore.Bytes

/-- The lowest `count` bytes of a number, most significant first. -/
def bigEndian : (count : Nat) → Nat → List UInt8
  | 0, _ => []
  | count + 1, n => UInt8.ofNat (n / Nat.pow 256 count) :: bigEndian count n

/-- Without the leading bytes that repeat the sign of the next one. -/
def withoutSignBytes : List UInt8 → List UInt8
  | a :: b :: bytes =>
    if (a = 0x00 ∧ b < 0x80) ∨ (a = 0xff ∧ 0x80 ≤ b) then withoutSignBytes (b :: bytes) else a :: b :: bytes
  | bytes => bytes

def ofInt (n : Int64) : List UInt8 :=
  let bytes := withoutSignBytes (bigEndian 8 n.toUInt64.toNat)
  UInt8.ofNat bytes.length :: bytes

def ofNat (n : Nat) : List UInt8 := ofInt (Int64.ofNat n)

def ofString (s : String) : List UInt8 := ofNat s.utf8ByteSize ++ s.toByteArray.data.toList

/-- The number that bytes stand for, most significant first. -/
def unsigned (bytes : List UInt8) : Nat := bytes.foldl (fun n byte => 256 * n + byte.toNat) 0

/-- The number whose two's complement the bytes are. -/
def signed (bytes : List UInt8) : Int :=
  match bytes with
  | [] => 0
  | first :: _ => if first < 0x80 then unsigned bytes else (unsigned bytes : Int) - Nat.pow 256 bytes.length

/-- The text whose UTF-8 the bytes are. -/
def toString? (bytes : List UInt8) : Option String := String.fromUTF8? ⟨bytes.toArray⟩

theorem toString?_utf8 (s : String) : toString? s.toByteArray.data.toList = some s := by
  obtain ⟨⟨data⟩, valid⟩ := s
  simp only [toString?, String.fromUTF8?, Array.toArray_toList, dif_pos valid]
  rfl

end SnapshotStore.Bytes
