/-!
# Doubles as 64 bits

A `Binary64` is its bit pattern, so a NaN keeps its sign and payload. The value of a finite double
is counted in units of `2 ^ -1074`, the smallest double: `scaled` is an integer, and every
arithmetic operation is one rounding (`roundedCode`) of an exact quotient of such counts.

* `code`: the pattern without its sign. Among the doubles that are not NaN it grows with the
  magnitude, from 0 for zero to `infinityCode`.
* `roundedCode`: the code nearest to a quotient, halves to even.
* `compare`: the order of the values, with NaN equal to NaN and below all else.
-/

namespace DocQuery

/-- A double, as its 64 bits: sign, eleven bits of exponent, 52 bits of fraction. -/
structure Binary64 where
  bits : UInt64
deriving DecidableEq, Repr

namespace Binary64

/-! ## Fields -/

/-- The pattern as a number. -/
def word (x : Binary64) : Nat := x.bits.toNat

/-- The sign bit is set. -/
def isNegative (x : Binary64) : Bool := 1 <<< 63 ≤ x.word

/-- The pattern without its sign bit. -/
def code (x : Binary64) : Nat := x.word % (1 <<< 63)

/-- The double with the given sign and the given code. -/
def ofCode (negative : Bool) (code : Nat) : Binary64 :=
  ⟨UInt64.ofNat (if negative then (1 <<< 63) + code else code)⟩

/-- The exponent as stored: 0 below `2 ^ -1022`, 2047 for infinities and NaN. -/
def exponentField (x : Binary64) : Nat := x.code >>> 52

/-- The 52 bits below the exponent. -/
def fraction (x : Binary64) : Nat := x.code % (1 <<< 52)

/-- The code of the infinities; NaN have larger ones. -/
def infinityCode : Nat := 2047 <<< 52

def isNaN (x : Binary64) : Bool := infinityCode < x.code

def isInfinite (x : Binary64) : Bool := x.code == infinityCode

def isFinite (x : Binary64) : Bool := x.code < infinityCode

def isZero (x : Binary64) : Bool := x.code == 0

/-- Positive zero. -/
def zero : Binary64 := ofCode false 0

/-- The NaN that stands for all of them. -/
def nan : Binary64 := ofCode false (infinityCode + (1 <<< 51))

/-- The infinity of the given sign. -/
def infinity (negative : Bool) : Binary64 := ofCode negative infinityCode

/-- The largest finite double. -/
def largest : Binary64 := ofCode false (infinityCode - 1)

/-- The double of the same magnitude and the other sign. -/
def negate (x : Binary64) : Binary64 := ofCode (!x.isNegative) x.code

/-- The double of the same magnitude without a sign. -/
def abs (x : Binary64) : Binary64 := ofCode false x.code

/-! ## Values -/

/-- The bits of the value, without the power of two. -/
def significand (x : Binary64) : Nat :=
  if x.exponentField = 0 then x.fraction else (1 <<< 52) + x.fraction

/-- The place of the last bit of the significand, counted from `2 ^ -1074`. -/
def unitExponent (x : Binary64) : Nat := x.exponentField - 1

/-- The magnitude of a finite double in units of `2 ^ -1074`. -/
def magnitude (x : Binary64) : Nat := x.significand <<< x.unitExponent

/-- The value of a finite double in units of `2 ^ -1074`. -/
def scaled (x : Binary64) : Int := if x.isNegative then -(x.magnitude : Int) else x.magnitude

/-- Units in one. -/
def one : Nat := 1 <<< 1074

/-- The value is a whole number. -/
def isWhole (x : Binary64) : Bool := x.isFinite && x.magnitude % one == 0

/-! ## Rounding -/

/-- The whole number nearest to `n / d`; of two equally near the even one. -/
def roundHalfEven (n d : Nat) : Nat :=
  let q := n / d
  let r := n % d
  if 2 * r < d then q else if d < 2 * r then q + 1 else q + q % 2

/-- The whole number nearest to `n / d`; of two equally near the larger one. -/
def roundHalfUp (n d : Nat) : Nat := if 2 * (n % d) < d then n / d else n / d + 1

/-- The code of the double nearest to `n / d` units; of two equally near the one with the even
significand. From half a unit above the largest double on it is the code of infinity. -/
def roundedCode (n d : Nat) : Nat :=
  let e := (n / d).log2 - 52
  min ((e <<< 52) + roundHalfEven n (d <<< e)) infinityCode

/-- The double nearest to `n / d` units, with the given sign. -/
def round (negative : Bool) (n d : Nat) : Binary64 := ofCode negative (roundedCode n d)

/-- The double nearest to a whole number. -/
def ofInt (n : Int) : Binary64 := round (n < 0) (n.natAbs * one) 1

/-- The double nearest to a natural number. -/
def ofNat (n : Nat) : Binary64 := round false (n * one) 1

/-- The value cut to a whole number and held within the range of 64-bit integers; 0 for NaN. -/
def toInt64 (x : Binary64) : Int64 :=
  if x.isNaN then 0
  else
    let whole := x.magnitude / one
    if x.isNegative then Int64.ofInt (-(min whole (1 <<< 63) : Nat))
    else Int64.ofInt (min whole ((1 <<< 63) - 1) : Nat)

/-! ## Arithmetic -/

/-- The double nearest to the sum. -/
def add (x y : Binary64) : Binary64 :=
  if x.isNaN || y.isNaN then nan
  else if x.isInfinite then
    if y.isInfinite && x.isNegative != y.isNegative then nan else x
  else if y.isInfinite then y
  else
    let sum := x.scaled + y.scaled
    if sum = 0 then ofCode (x.isNegative && y.isNegative) 0
    else round (sum < 0) sum.natAbs 1

/-- The double nearest to the product. -/
def mul (x y : Binary64) : Binary64 :=
  let negative := x.isNegative != y.isNegative
  if x.isNaN || y.isNaN then nan
  else if x.isInfinite || y.isInfinite then
    if x.isZero || y.isZero then nan else infinity negative
  else round negative (x.magnitude * y.magnitude) one

/-- The double nearest to the quotient. -/
def div (x y : Binary64) : Binary64 :=
  let negative := x.isNegative != y.isNegative
  if x.isNaN || y.isNaN then nan
  else if x.isInfinite then
    if y.isInfinite then nan else infinity negative
  else if y.isInfinite then ofCode negative 0
  else if y.isZero then
    if x.isZero then nan else infinity negative
  else round negative (x.magnitude * one) y.magnitude

/-! ## Order -/

/-- A number that grows with the value of a double that is not NaN and is 0 for both zeros. -/
def rank (x : Binary64) : Int := if x.isNegative then -(x.code : Int) else x.code

/-- The order of the values. A NaN equals a NaN and lies below all else. -/
def compare (x y : Binary64) : Ordering :=
  match x.isNaN, y.isNaN with
  | true, true => .eq
  | true, false => .lt
  | false, true => .gt
  | false, false => Ord.compare x.rank y.rank

end Binary64

end DocQuery
