import DocQuery.Text.Table.Letter
import DocQuery.Text.Table.Numeral
import DocQuery.Text.Table.Extender
import DocQuery.Text.Table.Unprintable

/-!
# Classes of characters

Blanks separate tokens, letters begin names, and letters and numerals go on with them. All three
are Unicode's classes; digits of numbers are ASCII alone.
-/

namespace DocQuery.Text

/-- `n` lies in one of the ranges, which are in ascending order. -/
def inRanges (n : Nat) : List (Nat × Nat) → Bool
  | [] => false
  | (first, last) :: ranges =>
    if n < first then false else if n ≤ last then true else inRanges n ranges

/-- First and last code point of each run of characters with the Unicode property White_Space, in
ascending order. -/
def blankRanges : List (Nat × Nat) := [
  (0x9, 0xD), (0x20, 0x20), (0x85, 0x85), (0xA0, 0xA0), (0x1680, 0x1680), (0x2000, 0x200A),
  (0x2028, 0x2029), (0x202F, 0x202F), (0x205F, 0x205F), (0x3000, 0x3000)]

/-- Characters between tokens. -/
def isBlank (c : Char) : Bool := inRanges c.toNat blankRanges

/-- Letters of any script. -/
def isLetter (c : Char) : Bool := inRanges c.toNat letterRanges

/-- Digits and other numerals of any script. -/
def isNumeral (c : Char) : Bool := inRanges c.toNat numeralRanges

/-- Letters and numerals of any script. -/
def isLetterOrNumeral (c : Char) : Bool := isLetter c || isNumeral c

/-- Characters that begin a name. -/
def beginsName (c : Char) : Bool := isLetter c || c == '_'

/-- Characters that go on with a name. -/
def continuesName (c : Char) : Bool := isLetterOrNumeral c || c == '_'

/-- The digits of numbers. -/
def isDigit (c : Char) : Bool := '0' ≤ c && c ≤ '9'

/-- The value of a digit of a number. -/
def digitValue (c : Char) : Nat := c.toNat - '0'.toNat

/-- The value of a hexadecimal digit in either case. -/
def hexDigit? (c : Char) : Option Nat :=
  if isDigit c then some (digitValue c)
  else if 'a' ≤ c && c ≤ 'f' then some (c.toNat - 'a'.toNat + 10)
  else if 'A' ≤ c && c ≤ 'F' then some (c.toNat - 'A'.toNat + 10)
  else none

/-- Characters that a message can show as they are: not a control, not a separator but the space,
and not one that would join the character before it. -/
def isShowable (c : Char) : Bool :=
  c == ' ' || !(inRanges c.toNat unprintableRanges || inRanges c.toNat extenderRanges)

end DocQuery.Text
