import DocQuery.Number.Decimal.Written

/-!
# Numbers of the query language

A number is a 64-bit integer or a double. Both kinds are kept as they are: an integer is never
rounded, also where it is compared with a double.

* `Extended`: a double with up to ten more bits. Every integer has an exact extended form, so
  integers and doubles meet there.
* `Number.compare`: the order of numbers.
* `Number.normalForm`: the extended form in which equal numbers are the same.
-/

namespace DocQuery

/-- A number: a 64-bit integer or a double. -/
inductive Number where
  | integer (n : Int64)
  | double (x : Binary64)
deriving DecidableEq

/-! ## Extended form -/

/-- A double with the bits of an integer that its significand has no room for. The value of the
field `extra` is `extra / 2 ^ 16` of the double's last place, away from zero. -/
structure Extended where
  double : Binary64
  extra : Nat
deriving DecidableEq, Repr

namespace Extended

/-- The extended form of an integer: its 53 leading bits as a double, and the bits below, as a
fraction of the last of them. -/
def ofInt (n : Int) : Extended :=
  let m := n.natAbs
  let e := m.log2 - 52
  ⟨Binary64.round (n < 0) (((m >>> e) <<< e) * Binary64.one) 1, (m % (1 <<< e)) <<< (16 - e)⟩

/-- The order of two extended forms: that of the doubles, and between equal doubles that of the
extra bits, which lead away from zero. -/
def compare (a b : Extended) : Ordering :=
  match a.double.compare b.double with
  | .eq =>
    if a.double.isNaN || a.double.isZero then .eq
    else if a.double.isNegative then Ord.compare b.extra a.extra
    else Ord.compare a.extra b.extra
  | order => order

/-- The form with a positive zero for both zeros and one NaN for all. -/
def normalize (a : Extended) : Extended :=
  if a.double.isZero then { a with double := .zero }
  else if a.double.isNaN then { a with double := .nan }
  else a

/-- The integer whose extended form has this double and these extra bits. Only doubles from
`2 ^ 53` up to below `2 ^ 63` leave room for extra bits, at most ten of them, at the upper end of
the field. -/
def toInt? (a : Extended) : Option Int :=
  let e := a.double.exponentField
  if a.extra % 64 = 0 && 1023 + 53 ≤ e && e ≤ 1023 + 62 then
    let m := (a.double.significand * 1024 + a.extra / 64) >>> (1023 + 62 - e)
    some (if a.double.isNegative then -(m : Int) else m)
  else none

/-- Low half, high half and extra bits of the pattern, mixed into 32 bits. -/
def mix (a : Extended) : UInt32 :=
  let w := a.double.word
  UInt32.ofNat (w % (1 <<< 32) ^^^ w >>> 32 ^^^ a.extra)

end Extended

namespace Number

/-- The extended form, which has the same value. -/
def extended : Number → Extended
  | .integer n => .ofInt n.toInt
  | .double x => ⟨x, 0⟩

/-- The order of numbers by value, with NaN equal to NaN and below all else. -/
def compare : Number → Number → Ordering
  | .integer a, .integer b => Ord.compare a.toInt b.toInt
  | .double x, .double y => x.compare y
  | a, b => a.extended.compare b.extended

/-- Numbers of one value, whatever their kinds. -/
def same (a b : Number) : Bool := a.compare b == .eq

/-- The extended form that equal numbers share. -/
def normalForm (a : Number) : Extended := a.extended.normalize

/-- A digest of the value in 32 bits. -/
def digest (a : Number) : UInt32 := a.normalForm.mix

/-- What a hash table hashes of a number: the double's pattern and the extra bits of the normal
form, one after the other. -/
def hashWords (a : Number) : UInt64 × UInt16 :=
  (a.normalForm.double.bits, UInt16.ofNat a.normalForm.extra)

def isInteger : Number → Bool
  | .integer _ => true
  | .double _ => false

def isDouble (a : Number) : Bool := !a.isInteger

def isInfinite : Number → Bool
  | .integer _ => false
  | .double x => x.isInfinite

def isNaN : Number → Bool
  | .integer _ => false
  | .double x => x.isNaN

/-- The value as a 64-bit integer: cut toward zero and held within the range. -/
def toInt64 : Number → Int64
  | .integer n => n
  | .double x => x.toInt64

/-- The value as a double, rounded if need be. -/
def toBinary64 : Number → Binary64
  | .integer n => .ofInt n.toInt
  | .double x => x

/-- The number is written with a minus sign in front, or is a NaN with its sign bit set. -/
def isNegative : Number → Bool
  | .integer n => n.toInt < 0
  | .double x => x.isNegative

/-- The largest finite number. -/
def largest : Number := .double .largest

/-- The finite number farthest below zero. -/
def smallest : Number := .double Binary64.largest.negate

/-- The characters of a number. -/
def chars : Number → List Char
  | .integer n => (if n.toInt < 0 then ['-'] else []) ++ Nat.toDigits 10 n.toInt.natAbs
  | .double x => x.chars

/-- The text of a number. -/
def text (a : Number) : String := String.ofList a.chars

/-- Numbers in ascending order; equal ones keep their order. -/
def sort (numbers : List Number) : List Number :=
  numbers.mergeSort fun a b => a.compare b != .gt

end Number

end DocQuery
