import MailRules.Decimal.Integer

/-!
Decimal text read as the nearest float: a number with an optional sign, point and exponent, or one
of the words `inf`, `infinity` and `nan` in any case.
-/

namespace MailRules.Decimal

/-- A decimal as written: the digits before and after the point, and the exponent. -/
structure Written where
  whole : List Char
  fraction : List Char
  exponent : Int
  deriving DecidableEq, Repr

/-- Splits an unsigned decimal. At least one digit stands before or after the point. -/
def Written.ofText? (s : List Char) : Option Written :=
  let whole := s.takeWhile Char.isDigit
  let rest := s.dropWhile Char.isDigit
  let (fraction, rest) := match rest with
    | '.' :: r => (r.takeWhile Char.isDigit, r.dropWhile Char.isDigit)
    | r => ([], r)
  if whole.isEmpty && fraction.isEmpty then none
  else match rest with
    | [] => some ⟨whole, fraction, 0⟩
    | c :: r => if c = 'e' ∨ c = 'E' then (integer? r).map (⟨whole, fraction, ·⟩) else none

/-- The nearest float. Past the range of floats the value is settled without its power of ten:
at least `10 ^ 310` is infinite, and less than `10 ^ -330` is zero. -/
def Written.toFloat (w : Written) : Float :=
  let significand := Nat.ofDigitChars 10 (w.whole ++ w.fraction) 0
  let exponent := w.exponent - w.fraction.length
  let magnitude := exponent + (Nat.toDigits 10 significand).length
  if significand = 0 ∨ magnitude < -330 then 0
  else if 310 < magnitude then 1 / 0
  else if 0 ≤ exponent then Float.ofScientific significand false exponent.toNat
  else Float.ofScientific significand true (-exponent).toNat

/-- The nearest float of an unsigned decimal or word. -/
def magnitude? (s : List Char) : Option Float :=
  let word := s.map Char.toLower
  if word = "inf".toList ∨ word = "infinity".toList then some (1 / 0)
  else if word = "nan".toList then some (0 / 0)
  else (Written.ofText? s).map (·.toFloat)

/-- The float that a text names. -/
def float? (s : String) : Option Float :=
  match s.toList with
  | '-' :: r => (magnitude? r).map (-·)
  | '+' :: r => magnitude? r
  | r => magnitude? r

end MailRules.Decimal
