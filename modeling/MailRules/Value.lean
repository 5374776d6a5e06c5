import MailRules.Decimal.Integer
import MailRules.Decimal.Positional
import MailRules.Json.Number

/-!
Values of record properties. Records carry flags, integers and floats beside text, but only text can
be searched.
-/

namespace MailRules

inductive Value where
  | bool (b : Bool)
  | int (i : Int64)
  | float (x : Float)
  | string (s : String)
  deriving DecidableEq

namespace Value

/-- The text that predicates search. -/
def text? : Value → Option String
  | .string s => some s
  | _ => none

/-- The value as it is shown: text between quotes, without escapes. -/
def display : Value → String
  | .bool true => "true"
  | .bool false => "false"
  | .int i => toString i.toInt
  | .float x => Decimal.plainText x
  | .string s => "\"" ++ s ++ "\""

/-! ### JSON -/

/-- An integer where the number is one and fits 64 bits, else a float. -/
def ofNumber? (n : Json.Number) : Option Value :=
  match n.int?.bind Decimal.int64? with
  | some i => some (.int i)
  | none => n.float?.map .float

/-- A flag, number or text; no other JSON is a value. -/
def ofJson? : Json → Option Value
  | .bool b => some (.bool b)
  | .number n => ofNumber? n
  | .float x => some (.float x)
  | .string s => s.map .string
  | _ => none

/-- A float that JSON has no number for becomes null, which reads back as no value. Any other float
reads back as itself from the JSON value, and perhaps as a neighbour from its text. -/
def toJson : Value → Json
  | .bool b => .bool b
  | .int i => .number (.ofInt i.toInt)
  | .float x => .ofFloat x
  | .string s => .str s

end Value

end MailRules
