/-!
JSON values as their text states them. Members of an object keep their order and may repeat a name,
numbers keep the form in which they are written, and a string literal that escapes only half of a
surrogate pair is well formed but has no text. What a reader makes of these is its own decision. A
value that is yet to be written may also hold a float itself, which gets its digits in the text.
-/

namespace MailRules

/-- A number as written: sign, digits before the point, digits after it, power of ten. -/
structure Json.Number where
  negative : Bool
  whole : Nat
  fraction : List Char
  exponent : Option Int
  deriving DecidableEq, Repr

/-- A string is `none` when its literal denotes no text. No text gives a `float`. -/
inductive Json where
  | null
  | bool (b : Bool)
  | number (n : Json.Number)
  | float (x : Float)
  | string (text : Option String)
  | array (items : List Json)
  | object (members : List (Option String × Json))
  deriving Repr

namespace Json

def str (s : String) : Json := .string (some s)

/-- A member whose name is the given text. -/
def field (name : String) (value : Json) : Option String × Json := (some name, value)

/-- The text of a string literal. -/
def text? : Json → Option String
  | .string s => s
  | _ => none

def number? : Json → Option Number
  | .number n => some n
  | _ => none

def items? : Json → Option (List Json)
  | .array items => some items
  | _ => none

def members? : Json → Option (List (Option String × Json))
  | .object members => some members
  | _ => none

/-- An array of texts. -/
def texts? (j : Json) : Option (List String) := j.items?.bind (·.mapM text?)

def ofTexts (texts : List String) : Json := .array (texts.map str)

end Json

end MailRules
