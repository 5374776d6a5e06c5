import MailRules.Json.Basic
import MailRules.Decimal.Positional

/-!
Numbers between JSON text and values. An integer is a number without point and exponent. A float is
read in two steps, which is fast but can miss the nearest float by a unit in the last place: digits
are gathered while they fit 64 bits, then one power of ten is applied in floating point. A float is
written with its shortest digits, always with a point or an exponent, so that it stays a float.
-/

namespace MailRules.Json.Number

/-! ### Integers -/

def ofNat (n : Nat) : Number := ⟨false, n, [], none⟩

def ofInt (i : Int) : Number := ⟨i < 0, i.natAbs, [], none⟩

/-- The integer a number is written as. A negative zero is not one. -/
def int? (n : Number) : Option Int :=
  match n with
  | ⟨false, whole, [], none⟩ => some whole
  | ⟨true, whole, [], none⟩ => if whole = 0 then none else some (-whole)
  | _ => none

/-- The count a number is written as, if it fits 64 bits. -/
def count? (n : Number) : Option Nat :=
  match n with
  | ⟨false, whole, [], none⟩ => if whole < UInt64.size then some whole else none
  | _ => none

theorem int?_ofInt (i : Int) : (ofInt i).int? = some i := by
  unfold ofInt
  by_cases h : i < 0
  · have hne : i.natAbs ≠ 0 := by omega
    have hneg : -(i.natAbs : Int) = i := by omega
    rw [decide_eq_true h]
    show (if i.natAbs = 0 then none else some (-(i.natAbs : Int))) = some i
    rw [if_neg hne, hneg]
  · have hpos : (i.natAbs : Int) = i := by omega
    rw [decide_eq_false h]
    show some (i.natAbs : Int) = some i
    rw [hpos]

/-! ### Reading floats -/

/-- Takes digits into the significand while it stays below `2 ^ 64`, and returns the rest. -/
def gather : Nat → List Char → Nat × List Char
  | s, [] => (s, [])
  | s, c :: r =>
    let next := Nat.ofDigitChars 10 [c] s
    if next < UInt64.size then gather next r else (s, c :: r)

def tenTo (e : Nat) : Float := Float.ofScientific 1 false e

/-- Applies a power of ten, of which no more than `10 ^ 308` goes in one step. Two such divisions
leave nothing of a 64-bit significand, so three rounds are enough. -/
def scale : Nat → Float → Int → Option Float
  | 0, _, _ => some 0
  | rounds + 1, f, e =>
    if 0 ≤ e ∧ e ≤ 308 then
      let scaled := f * tenTo e.toNat
      if scaled.isInf then none else some scaled
    else if -308 ≤ e ∧ e < 0 then some (f / tenTo (-e).toNat)
    else if f == 0 then some f
    else if 0 ≤ e then none
    else scale rounds (f / tenTo 308) (e + 308)

/-- The float a number is read as, or `none` beyond the largest float. -/
def float? (n : Number) : Option Float :=
  let (s, wholeLeft) := gather 0 (Nat.toDigits 10 n.whole)
  let (s, fractionLeft) := gather s n.fraction
  let places : Int := n.fraction.length - fractionLeft.length
  let e := n.exponent.getD 0 + wholeLeft.length - places
  (scale 3 (Float.ofNat s) e).map fun f => if n.negative then -f else f

/-! ### Writing floats -/

/-- Between two equally near decimals the one with an even last digit is written. -/
def tie : Decimal.Tie := .even

/-- A float is written positionally when its leading digit stands for `10 ^ -5` to `10 ^ 15`. -/
def isPositional (leading : Int) : Bool := -5 ≤ leading && leading ≤ 15

/-- The digits `digits · 10 ^ exponent` with the point written out. -/
def positional (negative : Bool) (d : Decimal.GridPoint) : Number :=
  if 0 ≤ d.exponent then ⟨negative, d.digits * Nat.pow 10 d.exponent.toNat, ['0'], none⟩
  else
    let places := (-d.exponent).toNat
    let below := Nat.toDigits 10 (d.digits % Nat.pow 10 places)
    ⟨negative, d.digits / Nat.pow 10 places, List.replicate (places - below.length) '0' ++ below, none⟩

/-- One digit before the point and the power of ten of that digit. -/
def scientific (negative : Bool) (digits : List Char) (leading : Int) : Number :=
  ⟨negative, Nat.ofDigitChars 10 (digits.take 1) 0, digits.drop 1, some leading⟩

/-- The number written for a float, or `none` for the floats that JSON has no number for. -/
def ofFloat? (x : Float) : Option Number :=
  match Decimal.Double.ofFloat x with
  | .nan | .infinite _ => none
  | .finite negative 0 _ => some ⟨negative, 0, ['0'], none⟩
  | .finite negative m q =>
    let d := Decimal.shortest tie m q
    let digits := Nat.toDigits 10 d.digits
    let leading := d.exponent + digits.length - 1
    some (if isPositional leading then positional negative d else scientific negative digits leading)

end MailRules.Json.Number

namespace MailRules.Json

/-- NaN and the infinities, for which JSON has no number, become null. -/
def ofFloat (x : Float) : Json :=
  match Decimal.Double.ofFloat x with
  | .finite .. => .float x
  | _ => .null

end MailRules.Json
