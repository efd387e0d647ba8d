import DocQuery.Number.Binary64

/-!
# Rounding to cents

`Binary64.toCents` rounds a double to two decimal places, halves to even. The double is first
turned into a decimal with a 96-bit coefficient and at most 28 places, of which about fifteen
digits are kept, so a double just beside a half counts as the half. Doubles that such a decimal
cannot hold are not rounded.

The steps in between are those of the decimal package that obfuscation depends on and that is no part
of the program: how it turns a double into a decimal, where it cuts digits off, how it rounds, and which
double it makes of the result.
-/

namespace DocQuery

namespace Cents

/-- Coefficients stay below this. -/
def bound : Nat := 1 <<< 96

/-- `m / 10`, halves up. -/
def tenth (m : Nat) : Nat := if m % 10 ≥ 5 then m / 10 + 1 else m / 10

/-- Turns `m * 2 ^ -rounds` into a coefficient and its number of decimal places, of which `places`
are to begin with as many as there are rounds. Each round halves an even coefficient and takes a
place off, or else multiplies by 5; if there is no room for that, it drops a bit and takes a place
off. -/
def spreadPlaces : (rounds m places : Nat) → Nat × Nat
  | 0, m, places => (m, places)
  | rounds + 1, m, places =>
    if m % 2 = 0 then spreadPlaces rounds (m / 2) (places - 1)
    else if 5 * m < bound then spreadPlaces rounds (5 * m) places
    else spreadPlaces rounds (m / 2) (places - 1)

/-- Turns `m * 2 ^ rounds` into a coefficient and a power of ten, which is to begin with as large as
there are rounds. Each round doubles the coefficient and takes one off the power, or divides by 5
if there is no room for that. -/
def gatherPower : (rounds m power : Nat) → Option (Nat × Nat)
  | 0, m, power => some (m, power)
  | rounds + 1, m, power =>
    if m < 1 <<< 95 then gatherPower rounds (2 * m) (power - 1)
    else if rounds + 1 < 2 * power then none
    else gatherPower rounds (m / 5) power

/-- `m * 10 ^ power`, if there is room for it. -/
def multiplyOut : (power m : Nat) → Option Nat
  | 0, m => some m
  | power + 1, m => if 10 * m < bound then multiplyOut power (10 * m) else none

/-- Cuts places down to 28. Nothing is left of a coefficient that becomes 0. -/
def cutPlaces : (m places : Nat) → Nat × Nat
  | m, 0 => (m, 0)
  | m, places + 1 =>
    if 28 < places + 1 then
      if m / 10 = 0 then (0, 0) else cutPlaces (tenth m) places
    else (m, places + 1)

/-- Cuts digits down to what a double holds. -/
def cutDigits : (m places : Nat) → Nat × Nat
  | m, 0 => (m, 0)
  | m, places + 1 => if 1 <<< 52 ≤ m then cutDigits (tenth m) places else (m, places + 1)

/-- Leaves out zeros at the end. -/
def stripZeros : (m places : Nat) → Nat × Nat
  | m, 0 => (m, 0)
  | m, places + 1 => if m % 10 = 0 then stripZeros (m / 10) places else (m, places + 1)

/-- Coefficient and places of a positive finite double. -/
def ofBinary64 (x : Binary64) : Option (Nat × Nat) :=
  if 1074 ≤ x.unitExponent then
    let e := x.unitExponent - 1074
    (gatherPower e x.significand e).bind fun (m, power) => (multiplyOut power m).map (·, 0)
  else
    let e := 1074 - x.unitExponent
    let (m, places) := spreadPlaces e x.significand e
    let (m, places) := cutPlaces m places
    let (m, places) := cutDigits m places
    some (stripZeros m places)

/-- At most two places, halves to even. -/
def roundToTwo (m places : Nat) : Nat × Nat :=
  if 2 < places then (Binary64.roundHalfEven m (Nat.pow 10 (places - 2)), 2) else (m, places)

/-- The double of a coefficient with at most two places. -/
def toBinary64 (m places : Nat) : Binary64 :=
  let scale := Binary64.ofNat (Nat.pow 10 places)
  let whole := Binary64.ofNat (m / Nat.pow 10 places)
  let rest := (Binary64.ofNat (m % Nat.pow 10 places)).div scale
  if places = 0 || rest.isZero then whole
  else
    let shifted := (whole.add rest).mul scale
    (Binary64.ofNat (Binary64.roundHalfUp shifted.magnitude Binary64.one)).div scale

end Cents

/-- A finite double rounded to two decimal places. -/
def Binary64.toCents (x : Binary64) : Binary64 :=
  match Cents.ofBinary64 x with
  | none => x
  | some (m, places) =>
    let (m, places) := Cents.roundToTwo m places
    .ofCode x.isNegative (Cents.toBinary64 m places).code

end DocQuery
