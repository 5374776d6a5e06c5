/-!
The numbers that a 64-bit float stands for. A float is read from its bits, so that the rules about
its decimal text can be stated on whole numbers.
-/

namespace MailRules.Decimal

/-- A 64-bit float by meaning: a finite one is `± significand · 2 ^ exponent`. -/
inductive Double where
  | nan
  | infinite (negative : Bool)
  | finite (negative : Bool) (significand : Nat) (exponent : Int)
  deriving DecidableEq, Repr

/-- The bit that a normal significand has in front of its fraction, `2 ^ 52`. -/
def hiddenBit : Nat := 0x10000000000000

/-- Sign in bit 63, biased exponent in bits 52 to 62, fraction below. The least biased exponent has
no hidden bit and counts as one. -/
def Double.ofBits (bits : UInt64) : Double :=
  let negative := bits.toNat >>> 63 == 1
  let biased : Nat := (bits.toNat >>> 52) % 2048
  let fraction : Nat := bits.toNat % hiddenBit
  if biased = 2047 then (if fraction = 0 then .infinite negative else .nan)
  else if biased = 0 then .finite negative fraction (-1074)
  else .finite negative (hiddenBit + fraction) (biased - 1075)

def Double.ofFloat (x : Float) : Double := .ofBits x.toBits

end MailRules.Decimal
