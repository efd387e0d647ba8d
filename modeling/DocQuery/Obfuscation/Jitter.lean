import DocQuery.Obfuscation.Cents
import DocQuery.Number.Logarithm
import DocQuery.Number.Basic

/-!
# Stand-ins for numbers

The stand-in of a number is the number rounded to cents, plus a ten-thousandth of its power of ten
for each number that has a stand-in already and for itself. Numbers that tell nothing keep their
value.
-/

namespace DocQuery

namespace Number

/-- Numbers that tell nothing: NaN and infinities, the least integer, whole numbers of at most two
digits, and what lies within `2 ^ -52` of zero. -/
def isExempt : Number → Bool
  | .integer n => n == Int64.minValue || n.toInt.natAbs < 100
  | .double x =>
    !x.isFinite || (x.magnitude < 100 * Binary64.one && x.isWhole) ||
      x.magnitude ≤ 1 <<< (1074 - 52)

/-- What is added to the number that is the `ordinal`-th to get a stand-in. -/
def jitter (x : Binary64) (ordinal : Nat) : Binary64 :=
  ((Binary64.tenTo x.powerOfTen).mul (.ofNat ordinal)).div (.ofNat 10000)

/-- The stand-in of the number that is the `ordinal`-th to get one. -/
def standIn (n : Number) (ordinal : Nat) : Number :=
  let x := n.toBinary64
  .double (x.toCents.add (jitter x.abs ordinal))

end Number

end DocQuery
