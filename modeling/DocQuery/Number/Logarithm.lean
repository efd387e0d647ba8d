import DocQuery.Number.Binary64

/-!
# Decimal logarithms and powers of ten

* `Binary64.log10`: the decimal logarithm of a positive double. It is worked out in doubles from the
  exponent and the significand apart, so its last bits carry the errors of these few steps. A double
  just below a power of ten may or may not have that power's logarithm.
* `Binary64.tenTo`: a power of ten.

Both are rounded by `leaningCode`: what lies all but half way between two doubles goes up.

How exact logarithms and powers of doubles are is left open by their documentation, which leaves them to
the mathematical library of the platform. These follow one platform, whose steps and constants they take.
Its results are nearest but for a few that lie a little less than half way to the upper neighbour and are
that neighbour all the same, such as the 23rd, the 126th and the 210th power of ten and the logarithms of
some doubles just below a power of ten. From 499 thousandths of the way on is what all of these have in
common; another platform may differ there in a last place, and so may its stand-ins.
-/

namespace DocQuery

namespace Binary64

/-! ## Rounding -/

/-- The code of the double nearest to `n / d` units, where from 499 thousandths of the way to the
upper neighbour on it is that neighbour which counts as the nearest. -/
def leaningCode (n d : Nat) : Nat :=
  let e := (n / d).log2 - 52
  let step := d <<< e
  let up := if 499 * step ≤ 1000 * (n % step) then 1 else 0
  min ((e <<< 52) + (n / step + up)) infinityCode

/-- The double nearest to `10 ^ k`, what lies all but half way going up. -/
def tenTo (k : Int) : Binary64 :=
  ofCode false (leaningCode (one * Nat.pow 10 k.toNat) (Nat.pow 10 (-k).toNat))

/-! ## Logarithms -/

/-- `count` terms of `t + t ^ 3 / 3 + t ^ 5 / 5 + …` for `t = a / b`. The first of them is
`power / odd`. -/
def artanhTerms (a b : Nat) : (count odd power : Nat) → Nat
  | 0, _, _ => 0
  | count + 1, odd, power =>
    power / odd + artanhTerms a b count (odd + 2) (power * (a * a) / (b * b))

/-- The magnitude of the natural logarithm of `p / q`, which lies between one half and two, in units
of `2 ^ -192`. It is twice the area tangent of `|p - q| / (p + q)`, at most one third, so each term
of the series is less than a ninth of the one before. -/
def lnMagnitude (p q : Nat) : Nat :=
  let distance := (p - q) + (q - p)
  2 * artanhTerms distance (p + q) 64 1 ((distance <<< 192) / (p + q))

/-- The natural logarithm of `p / q`, which lies between one half and two. -/
def lnRatio (p q : Nat) : Binary64 :=
  ofCode (p < q) (leaningCode (lnMagnitude p q * one) (1 <<< 192))

/-- The first 40 bits of the decimal logarithm of two. Their product with an exponent is exact. -/
def log10OfTwoLead : Binary64 := ⟨0x3FD34413509F6000⟩

/-- What the decimal logarithm of two is more than its first 40 bits. -/
def log10OfTwoRest : Binary64 := ⟨0x3D59FEF311F12B36⟩

/-- The decimal logarithm of the base of natural logarithms. -/
def log10OfE : Binary64 := ⟨0x3FDBCB7B1526E50E⟩

/-- The decimal logarithm of a positive finite double. The double is `2 ^ e` times a factor from one
up to below two, or from one half up to below one if the double lies below one. -/
def log10 (x : Binary64) : Binary64 :=
  let p := x.significand
  let e : Int := (x.unitExponent + p.log2 : Nat) - 1074
  let (e, q) := if e < 0 then (ofInt (e + 1), 2 <<< p.log2) else (ofInt e, 1 <<< p.log2)
  ((e.mul log10OfTwoRest).add (log10OfE.mul (lnRatio p q))).add (e.mul log10OfTwoLead)

/-- The largest whole number that a finite double reaches. -/
def floor (x : Binary64) : Int := x.scaled / (one : Int)

/-- The power of ten of a positive finite double: its decimal logarithm rounded down. -/
def powerOfTen (x : Binary64) : Int := x.log10.floor

end Binary64

end DocQuery
