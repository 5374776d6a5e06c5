import MailRules.Json.Number

/-!
The compact text of a JSON value: no blanks, non-ASCII characters as they are, and in strings only
the quote, the backslash and the control characters below U+0020 escaped.
-/

namespace MailRules.Json

def hexDigit (n : Nat) : Char := Nat.digitChar (n % 16)

/-- One character inside a string literal. -/
def printChar (c : Char) : List Char :=
  if c = '"' then ['\\', '"']
  else if c = '\\' then ['\\', '\\']
  else if 0x20 ≤ c.toNat then [c]
  else if c = '\x08' then ['\\', 'b']
  else if c = '\x0c' then ['\\', 'f']
  else if c = '\n' then ['\\', 'n']
  else if c = '\r' then ['\\', 'r']
  else if c = '\t' then ['\\', 't']
  else ['\\', 'u', '0', '0', hexDigit (c.toNat / 16), hexDigit c.toNat]

/-- A string literal. Half of a surrogate pair stands for a literal without a text. -/
def printString : Option String → List Char
  | some s => '"' :: (s.toList.flatMap printChar ++ ['"'])
  | none => "\"\\ud800\"".toList

/-- The part of a number from `e` on, with its sign always written. -/
def printExponent : Option Int → List Char
  | none => []
  | some e => 'e' :: (if e < 0 then '-' else '+') :: Nat.toDigits 10 e.natAbs

def Number.print (n : Number) : List Char :=
  (if n.negative then ['-'] else []) ++ Nat.toDigits 10 n.whole
    ++ (if n.fraction.isEmpty then [] else '.' :: n.fraction) ++ printExponent n.exponent

/-- A float with its shortest digits; one that JSON has no number for is null. -/
def printFloat (x : Float) : List Char :=
  match Number.ofFloat? x with
  | some n => n.print
  | none => "null".toList

mutual

def print : Json → List Char
  | .null => "null".toList
  | .bool true => "true".toList
  | .bool false => "false".toList
  | .number n => n.print
  | .float x => printFloat x
  | .string s => printString s
  | .array [] => ['[', ']']
  | .array (j :: rest) => '[' :: (print j ++ printItems rest)
  | .object [] => ['{', '}']
  | .object ((name, j) :: rest) => '{' :: (printString name ++ ':' :: (print j ++ printMembers rest))

/-- The items after the first, each behind a comma, and the closing bracket. -/
def printItems : List Json → List Char
  | [] => [']']
  | j :: rest => ',' :: (print j ++ printItems rest)

/-- The members after the first, each behind a comma, and the closing brace. -/
def printMembers : List (Option String × Json) → List Char
  | [] => ['}']
  | (name, j) :: rest => ',' :: (printString name ++ ':' :: (print j ++ printMembers rest))

end

def render (j : Json) : String := String.ofList j.print

end MailRules.Json
