import SnapshotStore.Decimal

/-!
# Cell values

A value is null or belongs to one of six data types. Values of all types are ordered together: null
first, then by type, with integers and decimals compared as numbers.
-/

namespace SnapshotStore

inductive DataType where
  | integer
  | numeric
  | string
  | date
  | timeSpan
  | boolean
  deriving DecidableEq

namespace DataType

/-- The byte that stands for the type in the log. -/
def tag : DataType → UInt8
  | integer => 2
  | numeric => 3
  | string => 4
  | date => 5
  | timeSpan => 6
  | boolean => 7

/-- All types in the order of their tags. -/
def all : List DataType := [integer, numeric, string, date, timeSpan, boolean]

def ofTag? (tag : UInt8) : Option DataType := all.find? (·.tag = tag)

def name : DataType → String
  | integer => "integer"
  | numeric => "numeric"
  | string => "string"
  | date => "date"
  | timeSpan => "timespan"
  | boolean => "boolean"

theorem ofTag?_tag (type : DataType) : ofTag? type.tag = some type := by cases type <;> rfl

theorem tag_ne_zero (type : DataType) : type.tag ≠ 0 := by cases type <;> decide

end DataType

/-- A date and a time span count ticks. -/
inductive Value where
  | null
  | integer (number : Int64)
  | numeric (number : Decimal)
  | string (text : String)
  | date (ticks : Int64)
  | timeSpan (ticks : Int64)
  | boolean (holds : Bool)
  deriving DecidableEq

namespace Value

instance : Inhabited Value := ⟨null⟩

def type? : Value → Option DataType
  | null => none
  | integer _ => some .integer
  | numeric _ => some .numeric
  | string _ => some .string
  | date _ => some .date
  | timeSpan _ => some .timeSpan
  | boolean _ => some .boolean

def tag (v : Value) : UInt8 := v.type?.elim 0 DataType.tag

def typeName (v : Value) : String := v.type?.elim "null" DataType.name

def isNull : Value → Bool
  | null => true
  | _ => false

/-- Null fits every column, and an integer also a decimal one. -/
def fits : Value → DataType → Bool
  | null, _ => true
  | integer _, .numeric => true
  | v, type => v.type? = some type

/-- The place of a kind of value among the kinds; numbers share one. -/
def rank : Value → Nat
  | numeric _ => DataType.integer.tag.toNat
  | v => v.tag.toNat

protected def compare : Value → Value → Ordering
  | integer a, integer b => Ord.compare a.toInt b.toInt
  | integer a, numeric b => Decimal.compareScaled a 0 b.mantissa b.scale
  | numeric a, integer b => Decimal.compareScaled a.mantissa a.scale b 0
  | numeric a, numeric b => Decimal.compareScaled a.mantissa a.scale b.mantissa b.scale
  | string a, string b => Ord.compare a b
  | date a, date b => Ord.compare a.toInt b.toInt
  | timeSpan a, timeSpan b => Ord.compare a.toInt b.toInt
  | boolean a, boolean b => Ord.compare a b
  | a, b => Ord.compare a.rank b.rank

instance : Ord Value := ⟨Value.compare⟩

/-- Values that stand at the same place in the order: `1` and `1.0` are two such values. -/
def same (a b : Value) : Bool := Ord.compare a b == .eq

/-- Keys of the same length with the same values. -/
def sameKey : List Value → List Value → Bool
  | [], [] => true
  | a :: as, b :: bs => a.same b && sameKey as bs
  | _, _ => false

end Value

end SnapshotStore
