import SnapshotStore.Value.Basic
import SnapshotStore.Text.Quoted

/-!
# Texts of values

`text` is what messages show. `inspect` names the kind of the value and everything it holds.
-/

namespace SnapshotStore.Value

def text : Value → String
  | null => "null"
  | integer n => toString n.toInt
  | numeric d => d.text
  | string s => "'" ++ s ++ "'"
  | date t => "date(" ++ toString t.toInt ++ ")"
  | timeSpan t => "timespan(" ++ toString t.toInt ++ ")"
  | boolean b => if b then "true" else "false"

/-- The values of a key, one after the other. -/
def keyText (key : List Value) : String := ", ".intercalate (key.map text)

def inspect : Value → String
  | null => "Null"
  | integer n => "Integer(" ++ toString n.toInt ++ ")"
  | numeric d =>
    "Numeric(Numeric \x7b mantissa: " ++ toString d.mantissa.toInt ++ ", precision: " ++ toString d.precision.toInt ++
      ", scale: " ++ toString d.scale.toInt ++ " \x7d)"
  | string s => "String(" ++ Text.quoted s ++ ")"
  | date t => "Date(" ++ toString t.toInt ++ ")"
  | timeSpan t => "TimeSpan(" ++ toString t.toInt ++ ")"
  | boolean b => if b then "Boolean(true)" else "Boolean(false)"

end SnapshotStore.Value
