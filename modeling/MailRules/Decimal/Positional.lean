import MailRules.Decimal.Shortest

/-!
The plain text of a float: its shortest digits written out in full, without an exponent and without
a fraction that is not there.
-/

namespace MailRules.Decimal

/-- Digits with the decimal point set `exponent` places to the right of their end. -/
def placePoint (digits : List Char) (exponent : Int) : List Char :=
  if 0 ≤ exponent then digits ++ List.replicate exponent.toNat '0'
  else
    let places := (-exponent).toNat
    if digits.length ≤ places then
      '0' :: '.' :: (List.replicate (places - digits.length) '0' ++ digits)
    else digits.take (digits.length - places) ++ '.' :: digits.drop (digits.length - places)

/-- Between two equally near decimals the plain text takes the larger. -/
def plainTie : Tie := .larger

/-- The magnitude `significand · 2 ^ exponent` in plain text. -/
def plainMagnitude (significand : Nat) (exponent : Int) : List Char :=
  if significand = 0 then ['0']
  else
    let d := shortest plainTie significand exponent
    placePoint (Nat.toDigits 10 d.digits) d.exponent

def signed (negative : Bool) (text : List Char) : List Char :=
  if negative then '-' :: text else text

/-- The plain text of a float, such as `1`, `0.5`, `-0`, `NaN`, `inf`. -/
def plainText (x : Float) : String :=
  match Double.ofFloat x with
  | .nan => "NaN"
  | .infinite negative => String.ofList (signed negative "inf".toList)
  | .finite negative m q => String.ofList (signed negative (plainMagnitude m q))

end MailRules.Decimal
