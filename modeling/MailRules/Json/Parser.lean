import MailRules.Json.Basic

/-!
Reading JSON text. The reader takes the characters that are left and returns a value with the
characters after it. Every step passes at least one character, so twice the length of the text is
fuel enough; `parse` supplies it.
-/

namespace MailRules.Json

def isBlank (c : Char) : Bool := c = ' ' || c = '\t' || c = '\n' || c = '\r'

def skipBlanks (s : List Char) : List Char := s.dropWhile isBlank

/-! ### Strings -/

/-- A string literal holds characters and escaped UTF-16 units. -/
inductive Piece where
  | char (c : Char)
  | unit (u : Nat)
  deriving DecidableEq, Repr

/-- The character that a backslash and a letter stand for. -/
def escaped? (c : Char) : Option Char :=
  match c with
  | '"' => some '"'
  | '\\' => some '\\'
  | '/' => some '/'
  | 'b' => some '\x08'
  | 'f' => some '\x0c'
  | 'n' => some '\n'
  | 'r' => some '\r'
  | 't' => some '\t'
  | _ => none

def hexValue? (c : Char) : Option Nat :=
  if '0' ≤ c ∧ c ≤ '9' then some (c.toNat - '0'.toNat)
  else if 'a' ≤ c ∧ c ≤ 'f' then some (c.toNat - 'a'.toNat + 10)
  else if 'A' ≤ c ∧ c ≤ 'F' then some (c.toNat - 'A'.toNat + 10)
  else none

/-- The UTF-16 unit written with four hexadecimal digits. -/
def unit? (a b c d : Char) : Option Nat := do
  let a ← hexValue? a
  let b ← hexValue? b
  let c ← hexValue? c
  let d ← hexValue? d
  return ((a * 16 + b) * 16 + c) * 16 + d

/-- The pieces up to the closing quote, after the ones in `read` (last first). -/
def readPieces (read : List Piece) : List Char → Option (List Piece × List Char)
  | '"' :: rest => some (read.reverse, rest)
  | '\\' :: 'u' :: a :: b :: c :: d :: rest =>
    match unit? a b c d with
    | some u => readPieces (.unit u :: read) rest
    | none => none
  | '\\' :: c :: rest =>
    match escaped? c with
    | some e => readPieces (.char e :: read) rest
    | none => none
  | c :: rest => if c.toNat < 0x20 then none else readPieces (.char c :: read) rest
  | [] => none

def isHighSurrogate (u : Nat) : Bool := 0xD800 ≤ u && u < 0xDC00

def isLowSurrogate (u : Nat) : Bool := 0xDC00 ≤ u && u < 0xE000

/-- The text of the pieces, after the characters in `read` (last first), with a high surrogate that
may wait for its low one. -/
def assemble? : Option Nat → List Char → List Piece → Option (List Char)
  | none, read, [] => some read.reverse
  | none, read, .char c :: rest => assemble? none (c :: read) rest
  | none, read, .unit u :: rest =>
    if isHighSurrogate u then assemble? (some u) read rest
    else if isLowSurrogate u then none
    else assemble? none (Char.ofNat u :: read) rest
  | some high, read, .unit u :: rest =>
    if isLowSurrogate u then
      assemble? none (Char.ofNat (0x10000 + (high - 0xD800) * 0x400 + (u - 0xDC00)) :: read) rest
    else none
  | some _, _, _ => none

/-- A string literal after its opening quote. -/
def readString (s : List Char) : Option (Option String × List Char) :=
  (readPieces [] s).map fun (ps, rest) => ((assemble? none [] ps).map String.ofList, rest)

/-! ### Numbers -/

/-- A run of one or more digits. -/
def readDigits (s : List Char) : Option (List Char × List Char) :=
  let digits := s.takeWhile Char.isDigit
  if digits.isEmpty then none else some (digits, s.dropWhile Char.isDigit)

/-- The digits before the point: a zero, or digits that do not begin with one. -/
def readWhole (s : List Char) : Option (Nat × List Char) :=
  match s with
  | '0' :: rest => some (0, rest)
  | _ => (readDigits s).map fun (digits, rest) => (Nat.ofDigitChars 10 digits 0, rest)

def readFraction (s : List Char) : Option (List Char × List Char) :=
  match s with
  | '.' :: rest => readDigits rest
  | _ => some ([], s)

def readSignedExponent (s : List Char) : Option (Int × List Char) :=
  match s with
  | '-' :: rest => (readDigits rest).map fun (ds, rest) => (-(Nat.ofDigitChars 10 ds 0 : Int), rest)
  | '+' :: rest => (readDigits rest).map fun (ds, rest) => ((Nat.ofDigitChars 10 ds 0 : Int), rest)
  | _ => (readDigits s).map fun (ds, rest) => ((Nat.ofDigitChars 10 ds 0 : Int), rest)

def readExponent (s : List Char) : Option (Option Int × List Char) :=
  match s with
  | 'e' :: rest | 'E' :: rest => (readSignedExponent rest).map fun (e, rest) => (some e, rest)
  | _ => some (none, s)

/-- A number after its sign. -/
def readMagnitude (negative : Bool) (s : List Char) : Option (Number × List Char) := do
  let (whole, s) ← readWhole s
  let (fraction, s) ← readFraction s
  let (exponent, s) ← readExponent s
  return (⟨negative, whole, fraction, exponent⟩, s)

def readNumber (s : List Char) : Option (Number × List Char) :=
  match s with
  | '-' :: rest => readMagnitude true rest
  | _ => readMagnitude false s

/-! ### Values -/

mutual

def readValue : Nat → List Char → Option (Json × List Char)
  | 0, _ => none
  | fuel + 1, s =>
    match skipBlanks s with
    | 'n' :: 'u' :: 'l' :: 'l' :: rest => some (.null, rest)
    | 't' :: 'r' :: 'u' :: 'e' :: rest => some (.bool true, rest)
    | 'f' :: 'a' :: 'l' :: 's' :: 'e' :: rest => some (.bool false, rest)
    | '"' :: rest => (readString rest).map fun (s, rest) => (.string s, rest)
    | '[' :: rest =>
      match skipBlanks rest with
      | ']' :: rest => some (.array [], rest)
      | rest => readItems fuel [] rest
    | '{' :: rest =>
      match skipBlanks rest with
      | '}' :: rest => some (.object [], rest)
      | rest => readMembers fuel [] rest
    | s => (readNumber s).map fun (n, rest) => (.number n, rest)

/-- One item or more up to the closing bracket, after the ones in `read` (last first). -/
def readItems : Nat → List Json → List Char → Option (Json × List Char)
  | 0, _, _ => none
  | fuel + 1, read, s =>
    match readValue fuel s with
    | none => none
    | some (j, s) =>
      match skipBlanks s with
      | ',' :: rest => readItems fuel (j :: read) rest
      | ']' :: rest => some (.array (j :: read).reverse, rest)
      | _ => none

/-- One member or more up to the closing brace, after the ones in `read` (last first). -/
def readMembers : Nat → List (Option String × Json) → List Char → Option (Json × List Char)
  | 0, _, _ => none
  | fuel + 1, read, s =>
    match skipBlanks s with
    | '"' :: s =>
      match readString s with
      | none => none
      | some (name, s) =>
        match skipBlanks s with
        | ':' :: s =>
          match readValue fuel s with
          | none => none
          | some (j, s) =>
            match skipBlanks s with
            | ',' :: rest => readMembers fuel ((name, j) :: read) rest
            | '}' :: rest => some (.object ((name, j) :: read).reverse, rest)
            | _ => none
        | _ => none
    | _ => none

end

/-- The value of a whole text, with nothing but blanks around it. -/
def parse (text : String) : Option Json :=
  let s := text.toList
  match readValue (2 * s.length + 2) s with
  | some (j, rest) => if (skipBlanks rest).isEmpty then some j else none
  | none => none

end MailRules.Json
