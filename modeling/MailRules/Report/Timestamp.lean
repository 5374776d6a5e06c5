/-!
Moments as texts of the form `2024-01-02T03:04:05Z`, with an optional fraction of a second and with
`Z` or an offset in hours and minutes. A moment is kept as it is written.
-/

namespace MailRules

namespace Timestamp

def isLeapYear (year : Nat) : Bool := year % 4 = 0 && (year % 100 != 0 || year % 400 = 0)

def daysInMonth (year month : Nat) : Nat :=
  if month = 2 then (if isLeapYear year then 29 else 28)
  else if month = 4 ∨ month = 6 ∨ month = 9 ∨ month = 11 then 30
  else 31

/-- The number that exactly `width` digits write, and what follows them. -/
def digits? (width : Nat) (s : List Char) : Option (Nat × List Char) :=
  let digits := s.take width
  if digits.length = width ∧ digits.all Char.isDigit then
    some (Nat.ofDigitChars 10 digits 0, s.drop width)
  else none

/-- What follows one of the given characters. -/
def past? (allowed : List Char) (s : List Char) : Option (List Char) :=
  match s with
  | c :: rest => if c ∈ allowed then some rest else none
  | [] => none

/-- What follows a date. -/
def pastDate? (s : List Char) : Option (List Char) := do
  let (year, s) ← digits? 4 s
  let (month, s) ← digits? 2 (← past? ['-'] s)
  let (day, s) ← digits? 2 (← past? ['-'] s)
  if 1 ≤ month ∧ month ≤ 12 ∧ 1 ≤ day ∧ day ≤ daysInMonth year month then some s else none

/-- What follows a time of day. A minute may have a leap second. -/
def pastTime? (s : List Char) : Option (List Char) := do
  let (hour, s) ← digits? 2 s
  let (minute, s) ← digits? 2 (← past? [':'] s)
  let (second, s) ← digits? 2 (← past? [':'] s)
  if hour < 24 ∧ minute < 60 ∧ second ≤ 60 then some s else none

/-- What follows an optional fraction of a second. -/
def pastFraction? (s : List Char) : Option (List Char) :=
  match s with
  | '.' :: rest => if (rest.takeWhile Char.isDigit).isEmpty then none
    else some (rest.dropWhile Char.isDigit)
  | s => some s

def isZone (s : List Char) : Bool :=
  match s with
  | ['Z'] | ['z'] => true
  | _ => ((do
      let (hour, s) ← digits? 2 (← past? ['+', '-'] s)
      let (minute, s) ← digits? 2 (← past? [':'] s)
      return hour < 24 ∧ minute < 60 ∧ s.isEmpty) : Option Bool).getD false

def isWellFormed (s : List Char) : Bool :=
  ((do
    let s ← pastDate? s
    let s ← pastTime? (← past? ['T', 't', ' '] s)
    return isZone (← pastFraction? s)) : Option Bool).getD false

end Timestamp

structure Timestamp where
  text : String
  wellFormed : Timestamp.isWellFormed text.toList = true
  deriving DecidableEq

/-- The moment that a text writes. -/
def Timestamp.ofText? (text : String) : Option Timestamp :=
  if h : isWellFormed text.toList = true then some ⟨text, h⟩ else none

end MailRules
