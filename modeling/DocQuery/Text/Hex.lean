/-!
# Hexadecimal numerals

Lower-case digits, most significant first, padded with zeros where a width is asked for.
-/

namespace DocQuery.Text

/-- The hexadecimal digits of `n`, at least one. -/
def hexDigits (n : Nat) : List Char := Nat.toDigits 16 n

/-- The hexadecimal digits of `n`, filled up with zeros to `width` digits. -/
def paddedHex (width n : Nat) : String :=
  let digits := hexDigits n
  String.ofList (List.replicate (width - digits.length) '0' ++ digits)

end DocQuery.Text
