import DocQuery.Number.Binary64
import DocQuery.Text.CharClass

/-!
# Decimal numerals

A numeral is digits with an optional point and an optional exponent: `42`, `1.`, `.5`, `6.02e23`.
It has no sign.

* `Numeral.scan`: the longest numeral at the start of some characters.
* `Numeral.chars`: its spelling; scanning takes exactly these characters.
* `Numeral.whole?`, `Numeral.toBinary64`: its value as a whole number, and the double nearest to
  its value.
-/

namespace DocQuery

open Text

/-- The number that a list of digits spells, after the digits of `acc`. -/
def digitsValue (acc : Nat) (digits : List Char) : Nat :=
  digits.foldl (fun n c => 10 * n + digitValue c) acc

/-- The exponent of a numeral: its mark (`e` or `E`), its sign if it has one, its digits. -/
structure Exponent where
  mark : Char
  sign? : Option Char
  digits : List Char
deriving DecidableEq, Repr

namespace Exponent

/-- The exponent at the start of some characters. A mark without digits is none. -/
def scan? : List Char → Option Exponent
  | mark :: rest =>
    if mark = 'e' || mark = 'E' then
      let (sign?, rest) := match rest with
        | '+' :: rest => (some '+', rest)
        | '-' :: rest => (some '-', rest)
        | rest => (none, rest)
      match rest.takeWhile isDigit with
      | [] => none
      | digits => some ⟨mark, sign?, digits⟩
    else none
  | [] => none

/-- The characters of an exponent. -/
def chars (e : Exponent) : List Char := e.mark :: (e.sign?.toList ++ e.digits)

/-- The power of ten. -/
def value (e : Exponent) : Int :=
  let n := digitsValue 0 e.digits
  if e.sign? = some '-' then -(n : Int) else n

end Exponent

/-- A decimal numeral: the digits before the point, those behind it if there is a point, and the
exponent if there is one. -/
structure Numeral where
  whole : List Char
  fraction? : Option (List Char)
  exponent? : Option Exponent
deriving DecidableEq, Repr

namespace Numeral

/-- The longest numeral at the start of some characters that begin with a digit or with a point and
a digit. -/
def scan (cs : List Char) : Numeral :=
  let whole := cs.takeWhile isDigit
  match cs.dropWhile isDigit with
  | '.' :: rest => ⟨whole, some (rest.takeWhile isDigit), Exponent.scan? (rest.dropWhile isDigit)⟩
  | rest => ⟨whole, none, Exponent.scan? rest⟩

/-- The characters of a numeral. -/
def chars (n : Numeral) : List Char :=
  n.whole ++ (match n.fraction? with | some digits => '.' :: digits | none => []) ++
    (match n.exponent? with | some e => e.chars | none => [])

/-- The spelling of a numeral. -/
def text (n : Numeral) : String := String.ofList n.chars

/-- The value of a numeral that has neither point nor exponent. -/
def whole? (n : Numeral) : Option Nat :=
  match n.fraction?, n.exponent? with
  | none, none => some (digitsValue 0 n.whole)
  | _, _ => none

/-- All digits before the exponent as one number. -/
def coefficient (n : Numeral) : Nat := digitsValue (digitsValue 0 n.whole) (n.fraction?.getD [])

/-- The power of ten that the coefficient is multiplied by. -/
def power (n : Numeral) : Int :=
  (match n.exponent? with | some e => e.value | none => 0) - (n.fraction?.getD []).length

end Numeral

namespace Binary64

/-- The double nearest to `m * 10 ^ e`. A value of at least `10 ^ 309` is beyond all doubles and
one below `10 ^ -324` is less than half the smallest, so the power of ten stays small. -/
def ofDecimal (m : Nat) (e : Int) : Binary64 :=
  let digits : Int := (Nat.toDigits 10 m).length
  if m = 0 then zero
  else if 309 < digits + e then infinity false
  else if digits + e < -323 then zero
  else if 0 ≤ e then round false (m * Nat.pow 10 e.toNat * one) 1
  else round false (m * one) (Nat.pow 10 (-e).toNat)

end Binary64

/-- The double nearest to the value of a numeral; infinite from half a unit above the largest
double on. -/
def Numeral.toBinary64 (n : Numeral) : Binary64 := Binary64.ofDecimal n.coefficient n.power

end DocQuery
