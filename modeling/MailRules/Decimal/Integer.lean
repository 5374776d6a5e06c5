/-!
Integers as written: an optional sign and at least one ASCII digit.
-/

namespace MailRules.Decimal

/-- The number that a run of one or more digits writes. -/
def natural? (digits : List Char) : Option Nat :=
  if digits.isEmpty || !digits.all Char.isDigit then none
  else some (Nat.ofDigitChars 10 digits 0)

/-- The integer that a text writes. -/
def integer? (text : List Char) : Option Int :=
  match text with
  | '-' :: digits => (natural? digits).map fun n => -(n : Int)
  | '+' :: digits => (natural? digits).map fun n => (n : Int)
  | digits => (natural? digits).map fun n => (n : Int)

/-- An integer, if it fits 64 bits. -/
def int64? (i : Int) : Option Int64 :=
  if h : Int64.minValue.toInt ≤ i ∧ i ≤ Int64.maxValue.toInt then some (Int64.ofIntLE i h.1 h.2)
  else none

theorem int64?_eq_some_iff {i : Int} {p : Int64} : int64? i = some p ↔ p.toInt = i := by
  unfold int64?
  split
  · rw [Option.some.injEq]
    constructor
    · rintro rfl; exact Int64.toInt_ofIntLE ..
    · rintro rfl; exact Int64.toInt_inj.1 (Int64.toInt_ofIntLE ..)
  · next hout =>
    constructor
    · intro h; cases h
    · rintro rfl; exact absurd ⟨p.minValue_le_toInt, p.toInt_le⟩ hout

/-- The integer that a text writes, if it fits 64 bits. -/
def readInt64? (text : String) : Option Int64 := (integer? text.toList).bind int64?

end MailRules.Decimal
