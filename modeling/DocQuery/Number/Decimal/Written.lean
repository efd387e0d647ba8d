import DocQuery.Number.Decimal.Shortest

/-!
# How doubles are written

The shortest digits that read back, positional from `1e-4` up to below `1e16` and always with a
digit behind the point, otherwise with an exponent.
-/

namespace DocQuery

namespace Decimal

/-- Positional: `0.00012`, `12.0`, `1.2`. -/
def positional (d : Decimal) : List Char :=
  let digits := d.digits
  if d.point ≤ 0 then
    ['0', '.'] ++ List.replicate (-d.point).toNat '0' ++ digits
  else
    let whole := d.point.toNat
    if digits.length ≤ whole then
      digits ++ List.replicate (whole - digits.length) '0' ++ ['.', '0']
    else digits.take whole ++ '.' :: digits.drop whole

/-- With an exponent: `1e16`, `1.5e-7`. The point is left out behind a lone digit, and so is the
plus sign. -/
def scientific (d : Decimal) : List Char :=
  let mantissa := match d.digits with
    | [] => []
    | [c] => [c]
    | c :: rest => c :: '.' :: rest
  let e := d.point - 1
  mantissa ++ 'e' :: ((if e < 0 then ['-'] else []) ++ Nat.toDigits 10 e.natAbs)

/-- Positional from `1e-4` up to below `1e16`, otherwise with an exponent. -/
def chars (d : Decimal) : List Char :=
  if -3 ≤ d.point && d.point ≤ 16 then d.positional else d.scientific

end Decimal

namespace Binary64

/-- The characters of a double without its sign. -/
def unsignedChars (x : Binary64) : List Char :=
  if x.isInfinite then ['i', 'n', 'f']
  else if x.isZero then ['0', '.', '0']
  else x.shortest.chars

/-- The characters of a double. A NaN shows no sign. -/
def chars (x : Binary64) : List Char :=
  if x.isNaN then ['N', 'a', 'N']
  else if x.isNegative then '-' :: x.unsignedChars
  else x.unsignedChars

/-- The text of a double. -/
def text (x : Binary64) : String := String.ofList x.chars

end Binary64

end DocQuery
