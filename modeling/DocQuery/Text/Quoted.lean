import DocQuery.Text.CharClass
import DocQuery.Text.Hex

/-!
# Strings between quotes

* `quote`: a string as query text spells it. Only the quote, the backslash and the controls below
  U+0020 are escaped.
* `showQuoted`: a string as messages show it. Whatever has no printed form of its own is escaped
  by its code point.
-/

namespace DocQuery.Text

/-- The spelling of one character between double quotes in query text. -/
def escape (c : Char) : List Char :=
  match c with
  | '"' => ['\\', '"']
  | '\\' => ['\\', '\\']
  | '\x08' => ['\\', 'b']
  | '\x0c' => ['\\', 'f']
  | '\n' => ['\\', 'n']
  | '\r' => ['\\', 'r']
  | '\t' => ['\\', 't']
  | c =>
    if c.toNat < 0x20 then
      ['\\', 'u', '0', '0', Nat.digitChar (c.toNat / 16), Nat.digitChar (c.toNat % 16)]
    else [c]

/-- The characters of a string's spelling in query text, with the quotes around it. -/
def quoteChars (cs : List Char) : List Char := '"' :: (cs.flatMap escape ++ ['"'])

/-- The spelling of a string in query text. -/
def quote (s : String) : String := String.ofList (quoteChars s.toList)

/-- One character as messages show it between double quotes. -/
def showChar (c : Char) : List Char :=
  match c with
  | '\x00' => ['\\', '0']
  | '\t' => ['\\', 't']
  | '\r' => ['\\', 'r']
  | '\n' => ['\\', 'n']
  | '"' => ['\\', '"']
  | '\\' => ['\\', '\\']
  | c => if isShowable c then [c] else ['\\', 'u', '\x7b'] ++ hexDigits c.toNat ++ ['\x7d']

/-- A string as messages show it, with its quotes. -/
def showQuoted (s : String) : String :=
  String.ofList ('"' :: (s.toList.flatMap showChar ++ ['"']))

end DocQuery.Text
