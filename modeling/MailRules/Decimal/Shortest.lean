import MailRules.Decimal.Double

/-!
The shortest decimal that reads back as a given float. A decimal reads back exactly when it lies in
the interval of reals that round to the float; the ends belong to it when the significand is even.
The grids `10 ^ e` are searched from coarse to fine. The first grid with a point in the interval has
the fewest digits, and if any of its points lies there then one of the two neighbours of the value
does, so only those two are tried.
-/

namespace MailRules.Decimal

/-- How a choice between two equally near decimals is made. -/
inductive Tie where | larger | even
  deriving DecidableEq, Repr

/-- The decimal `digits · 10 ^ exponent`, a point on that grid. -/
structure GridPoint where
  digits : Nat
  exponent : Int
  deriving DecidableEq, Repr

/-- The interval around `significand · 2 ^ exponent` as multiples of `2 ^ (exponent - 2)`. Below a
power of two the neighbour is only half as far away. -/
def lowerEnd (significand : Nat) (exponent : Int) : Nat :=
  if significand = hiddenBit ∧ -1074 < exponent then 4 * significand - 1 else 4 * significand - 2

def upperEnd (significand : Nat) : Nat := 4 * significand + 2

/-- A quarter of the last place, `2 ^ (exponent - 2)`, as a fraction of the grid step `10 ^ e`. -/
def quarterStep (exponent e : Int) : Nat × Nat :=
  let q := exponent - 2
  (Nat.pow 2 q.toNat * Nat.pow 10 (-e).toNat, Nat.pow 2 (-q).toNat * Nat.pow 10 e.toNat)

/-- The multiple of `10 ^ e` that is nearest to `significand · 2 ^ exponent` among those that read
back as it. -/
def pointOnGrid? (tie : Tie) (significand : Nat) (exponent e : Int) : Option Nat :=
  let (unit, step) := quarterStep exponent e
  let value := 4 * significand * unit
  let low := lowerEnd significand exponent * unit
  let high := upperEnd significand * unit
  let readsBack (d : Nat) : Bool :=
    if significand % 2 = 0 then low ≤ d * step && d * step ≤ high
    else low < d * step && d * step < high
  let d := value / step
  match readsBack d, readsBack (d + 1) with
  | true, false => some d
  | false, true => some (d + 1)
  | false, false => none
  | true, true =>
    let below := value - d * step
    let above := (d + 1) * step - value
    if below < above then some d
    else if above < below then some (d + 1)
    else match tie with
      | .larger => some (d + 1)
      | .even => some (if d % 2 = 0 then d else d + 1)

/-- Tries `n` grids from `10 ^ e` downward. -/
def searchGrids (tie : Tie) (significand : Nat) (exponent : Int) : Nat → Int → Option GridPoint
  | 0, _ => none
  | n + 1, e =>
    match pointOnGrid? tie significand exponent e with
    | some d => some ⟨d, e⟩
    | none => searchGrids tie significand exponent n (e - 1)

/-- A grid that is coarser than the value `significand · 2 ^ exponent`. -/
def coarsestGrid (significand : Nat) (exponent : Int) : Int :=
  (significand.log2 + 1 + exponent) * 30103 / 100000 + 2

/-- The shortest decimal for a finite float other than zero. Seventeen digits always suffice, which
the 24 grids from the coarsest one on cover. -/
def shortest (tie : Tie) (significand : Nat) (exponent : Int) : GridPoint :=
  (searchGrids tie significand exponent 24 (coarsestGrid significand exponent)).getD ⟨0, 0⟩

end MailRules.Decimal
