import DocQuery.Number.Binary64

/-!
# The fewest digits that read back

`Binary64.shortest` gives the decimal of the fewest digits that lies in the interval of numbers
whose nearest double is the given one; of two with that many digits the nearer, of two equally near
the larger.

If a point of a decimal grid lies in the interval, then so does one of the double's two neighbours
on that grid, so for each number of digits only these two are tried. Seventeen digits always
suffice.
-/

namespace DocQuery

/-- The positive number `coefficient * 10 ^ power`. -/
structure Decimal where
  coefficient : Nat
  power : Int
deriving DecidableEq, Repr

namespace Decimal

/-- The digits of the coefficient. -/
def allDigits (d : Decimal) : List Char := Nat.toDigits 10 d.coefficient

/-- The digits of the coefficient up to the last that is not zero. -/
def digits (d : Decimal) : List Char := (d.allDigits.reverse.dropWhile (· == '0')).reverse

/-- The place of the point, counted from before the first digit: the number is
`0.d₁d₂… * 10 ^ point`. -/
def point (d : Decimal) : Int := d.allDigits.length + d.power

end Decimal

namespace Binary64

/-- The largest `n` such that `n * 10 ^ t` is at most a positive finite double. -/
def floorDecimal (x : Binary64) (t : Int) : Nat :=
  if 0 ≤ t then x.magnitude / (one * Nat.pow 10 t.toNat)
  else x.magnitude * Nat.pow 10 (-t).toNat / one

/-- The least `k` such that a positive finite double lies below `10 ^ k`. It is one or two more than
the binary exponent times `30103 / 100000`, rounded down. -/
def decimalExponent (x : Binary64) : Int :=
  let k := ((x.magnitude.log2 : Int) - 1074) * 30103 / 100000 + 1
  if x.floorDecimal k = 0 then k else k + 1

/-- Of the two neighbours of a positive finite double among the multiples of `10 ^ t`, the one that
reads back as the double; of two that do the nearer, and the upper if both are equally near.

All is counted in quarters of the unit, times the denominator of `10 ^ t`. The interval ends half
way to the next doubles, and its ends belong to it if the significand is even. -/
def readBackOn (x : Binary64) (t : Int) : Option Nat :=
  let grid := 4 * one * Nat.pow 10 t.toNat
  let scale := Nat.pow 10 (-t).toNat
  let gap := 1 <<< x.unitExponent
  let value := 4 * x.magnitude * scale
  let high := value + 2 * gap * scale
  let low := value - (if x.fraction = 0 && 1 < x.exponentField then gap else 2 * gap) * scale
  let within (p : Nat) : Bool :=
    if x.significand % 2 = 0 then low ≤ p && p ≤ high else low < p && p < high
  let n := x.floorDecimal t
  let below := n * grid
  let above := (n + 1) * grid
  if within above && (!within below || above - value ≤ value - below) then some (n + 1)
  else if within below then some n
  else none

/-- The shortest decimal that reads back as a positive finite double. -/
def shortest (x : Binary64) : Decimal :=
  let k := x.decimalExponent
  let onGrid (i : Nat) : Option Decimal :=
    let t := k - (i + 1 : Nat)
    (x.readBackOn t).map (⟨·, t⟩)
  ((List.range 17).findSome? onGrid).getD ⟨x.floorDecimal (k - 17), k - 17⟩

end Binary64

end DocQuery
