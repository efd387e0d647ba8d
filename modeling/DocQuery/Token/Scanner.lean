import DocQuery.Token.Basic
import DocQuery.Number.Decimal.Numeral
import DocQuery.Text.Position

/-!
# Splitting text into tokens

A `Scanner` stands somewhere in a text. `Scanner.next` passes over blanks and one token, and says
which token it was or why there is none. It may be asked again after an error: it then goes on from
where the error left it.

Where an error leaves the scanner:

* a character that begins no token, or a lone `!`, is not passed over; a lone `@` is;
* a malformed number is passed over without the character that makes it so;
* in a string, the scanner stands behind the backslash of an unknown escape, behind the last good
  digit of a short `\u` escape, behind the digits of a surrogate that has no partner, or at the end
  of the text if the string is not closed.
-/

namespace DocQuery

open Text

/-- Why there is no token, and where. -/
inductive ScanError where
  | unexpectedCharacter (c : Char) (position : Position)
  | unterminatedString (position : Position)
  | invalidEscape (sequence : String) (position : Position)
  | unexpectedEnd (position : Position)
  | malformedNumber (text : String) (position : Position)
  | numberOutOfRange (text : String) (position : Position)
deriving DecidableEq, Repr

namespace ScanError

def position : ScanError → Position
  | unexpectedCharacter _ p => p
  | unterminatedString p => p
  | invalidEscape _ p => p
  | unexpectedEnd p => p
  | malformedNumber _ p => p
  | numberOutOfRange _ p => p

def message : ScanError → String
  | unexpectedCharacter c p => s!"Unexpected character '{c}' at {p.describe}"
  | unterminatedString p => s!"Unterminated string starting at {p.describe}"
  | invalidEscape sequence p => s!"Invalid escape sequence '{sequence}' at {p.describe}"
  | unexpectedEnd p => s!"Unexpected end of input at {p.describe}"
  | malformedNumber text p => s!"Malformed number '{text}' at {p.describe}"
  | numberOutOfRange text p => s!"Number '{text}' at {p.describe} is out of range"

end ScanError

/-! ## Escapes -/

namespace Escape

/-- The character that a backslash and `c` stand for, if `c` needs no digits. -/
def short? (c : Char) : Option Char :=
  match c with
  | 'n' => some '\n'
  | 't' => some '\t'
  | 'r' => some '\r'
  | 'b' => some '\x08'
  | 'f' => some '\x0c'
  | '"' => some '"'
  | '\'' => some '\''
  | '\\' => some '\\'
  | '/' => some '/'
  | _ => none

/-- The first half of a pair of UTF-16 units. -/
def isHighSurrogate (n : Nat) : Bool := 0xD800 ≤ n && n < 0xDC00

/-- The second half of a pair of UTF-16 units. -/
def isLowSurrogate (n : Nat) : Bool := 0xDC00 ≤ n && n < 0xE000

/-- The code point of a pair of UTF-16 units. -/
def joinSurrogates (high low : Nat) : Nat := 0x10000 + (high - 0xD800) * 0x400 + (low - 0xDC00)

/-- The number that the next `count` hexadecimal digits spell, after the digits of `n`. Stops before
the first character that is no such digit. -/
def digits : Nat → Nat → Cursor → Option Nat × Cursor
  | 0, n, c => (some n, c)
  | count + 1, n, c =>
    match c.rest.head?.bind hexDigit? with
    | some d => digits count (16 * n + d) c.next
    | none => (none, c)

/-- The character of a `\u` escape, whose digits begin at the cursor, and the cursor behind it. Two
escapes that spell a pair of UTF-16 units are one character. -/
def unicode (c : Cursor) : Option Char × Cursor :=
  match digits 4 0 c with
  | (none, d) => (none, d)
  | (some high, d) =>
    if isHighSurrogate high then
      if d.rest.take 2 = ['\\', 'u'] then
        match digits 4 0 d.next.next with
        | (none, e) => (none, e)
        | (some low, e) =>
          if isLowSurrogate low then (some (Char.ofNat (joinSurrogates high low)), e)
          else (none, e)
      else (none, d)
    else if isLowSurrogate high then (none, d)
    else (some (Char.ofNat high), d)

/-- The character of an escape, whose backslash is at the cursor, and the cursor behind it.
`opening` is the place of the string's quote. -/
def read (opening : Position) (c : Cursor) : Except ScanError Char × Cursor :=
  let body := c.next
  match body.rest with
  | [] => (.error (.unterminatedString opening), body)
  | 'u' :: _ =>
    match unicode body.next with
    | (some ch, d) => (.ok ch, d)
    | (none, d) => (.error (.invalidEscape (String.ofList (c.upTo d)) c.position), d)
  | ch :: _ =>
    match short? ch with
    | some s => (.ok s, body.next)
    | none => (.error (.invalidEscape (String.ofList ['\\', ch]) c.position), body)

theorem length_digits_le (count n : Nat) (c : Cursor) :
    (digits count n c).2.rest.length ≤ c.rest.length := by
  induction count generalizing n c with
  | zero => simp [digits]
  | succ count ih =>
    unfold digits
    split
    · exact Nat.le_trans (ih _ _) c.length_next_le
    · exact Nat.le_refl _

theorem length_unicode_le (c : Cursor) : (unicode c).2.rest.length ≤ c.rest.length := by
  have h₁ := length_digits_le 4 0 c
  unfold unicode
  split
  · simp_all
  · rename_i high d hd
    rw [hd] at h₁
    have h₂ := length_digits_le 4 0 d.next.next
    have h₃ := d.next.length_next_le
    have h₄ := d.length_next_le
    simp only at h₁ ⊢
    split
    · split
      · split
        · simp_all; omega
        · split <;> simp_all <;> omega
      · exact h₁
    · split <;> exact h₁

/-- Reading an escape passes over its backslash at least. -/
theorem length_read_lt (opening : Position) {c : Cursor} (h : c.rest ≠ []) :
    (read opening c).2.rest.length < c.rest.length := by
  have h₁ := Cursor.length_next_lt h
  have h₂ := length_unicode_le c.next.next
  have h₃ := c.next.length_next_le
  unfold read
  simp only
  split
  · exact h₁
  · split <;> simp_all <;> omega
  · split <;> simp_all; omega

end Escape

/-! ## Literals and names -/

/-- The characters of a string up to the closing quote, whose body goes on at the cursor, and the
cursor behind that quote. `opening` is the place of the opening quote and `read` holds the
characters read so far, the last first. -/
def readString (quote : Char) (opening : Position) (read : List Char) (c : Cursor) :
    Except ScanError String × Cursor :=
  match _h : c.rest with
  | [] => (.error (.unterminatedString opening), c)
  | ch :: _ =>
    if ch = quote then (.ok (String.ofList read.reverse), c.next)
    else if ch = '\\' then
      match _e : Escape.read opening c with
      | (.ok decoded, d) => readString quote opening (decoded :: read) d
      | (.error e, d) => (.error e, d)
    else readString quote opening (ch :: read) c.next
termination_by c.rest.length
decreasing_by
  · have := Escape.length_read_lt opening (c := c) (by simp_all)
    simp_all
  · have := Cursor.length_next_lt (c := c) (by simp_all)
    simp_all

/-- The number at the cursor and the cursor behind it. A letter, numeral, underscore or point right
behind a number makes it malformed. Digits alone are an integer if they fit in 64 bits; all else is
the nearest double, which must be finite. -/
def readNumber (c : Cursor) : Except ScanError Token × Cursor :=
  let numeral := Numeral.scan c.rest
  let d := c.drop numeral.chars.length
  let result : Except ScanError Token :=
    match d.rest.head?.filter fun ch => continuesName ch || ch == '.' with
    | some ch => .error (.malformedNumber (numeral.text.push ch) c.position)
    | none =>
      match numeral.whole?.filter (· < 1 <<< 63) with
      | some n => .ok (.integer (Int64.ofNat n))
      | none =>
        let x := numeral.toBinary64
        if x.isFinite then .ok (.double x) else .error (.numberOutOfRange numeral.text c.position)
  (result, d)

/-- The name at the cursor: a keyword if it spells one. -/
def readName (c : Cursor) : Token × Cursor :=
  let name := c.rest.takeWhile continuesName
  let token := match Keyword.ofChars? name with
    | some word => .keyword word
    | none => .identifier (String.ofList name)
  (token, c.dropWhile continuesName)

/-- The parameter at the cursor, which stands at its `@`. -/
def readParameter (c : Cursor) : Except ScanError Token × Cursor :=
  let body := c.next
  if body.rest.head?.any beginsName then
    (.ok (.parameter (String.ofList (body.rest.takeWhile continuesName))),
      body.dropWhile continuesName)
  else (.error (.unexpectedCharacter '@' c.position), body)

/-! ## Marks -/

/-- The mark that a character alone is, whatever follows. -/
def Mark.ofChar? (c : Char) : Option Mark :=
  match c with
  | '*' => some .star
  | ',' => some .comma
  | ':' => some .colon
  | '(' => some .leftParen
  | ')' => some .rightParen
  | '[' => some .leftBracket
  | ']' => some .rightBracket
  | '\x7b' => some .leftBrace
  | '\x7d' => some .rightBrace
  | '+' => some .plus
  | '-' => some .minus
  | '/' => some .slash
  | '%' => some .percent
  | '=' => some .equal
  | '&' => some .ampersand
  | '^' => some .caret
  | '~' => some .tilde
  | _ => none

/-- The mark at the start of some characters, and how many it takes. A point is one whatever
follows, though before a digit it begins a number. -/
def Mark.scan? : List Char → Option (Mark × Nat)
  | '<' :: '=' :: _ => some (.lessOrEqual, 2)
  | '<' :: _ => some (.less, 1)
  | '>' :: '=' :: _ => some (.greaterOrEqual, 2)
  | '>' :: _ => some (.greater, 1)
  | '|' :: '|' :: _ => some (.doublePipe, 2)
  | '|' :: _ => some (.pipe, 1)
  | '?' :: '?' :: _ => some (.doubleQuestion, 2)
  | '?' :: _ => some (.question, 1)
  | '!' :: '=' :: _ => some (.notEqual, 2)
  | '.' :: _ => some (.dot, 1)
  | c :: _ => (ofChar? c).map (·, 1)
  | [] => none

/-! ## Tokens -/

/-- A number begins with a digit, or with a point and a digit. -/
def beginsNumber : List Char → Bool
  | '.' :: c :: _ => isDigit c
  | c :: _ => isDigit c
  | [] => false

/-- The token at the cursor, and the cursor where that leaves reading. -/
def Token.read (c : Cursor) : Except ScanError Token × Cursor :=
  match c.rest with
  | [] => (.ok .endOfText, c)
  | ch :: _ =>
    if beginsNumber c.rest then readNumber c
    else
      match Mark.scan? c.rest with
      | some (m, length) => (.ok (.mark m), c.drop length)
      | none =>
        if ch = '"' || ch = '\'' then
          match readString ch c.position [] c.next with
          | (.ok value, d) => (.ok (.string value), d)
          | (.error e, d) => (.error e, d)
        else if ch = '@' then readParameter c
        else if beginsName ch then
          let (token, d) := readName c
          (.ok token, d)
        else (.error (.unexpectedCharacter ch c.position), c)

/-- Reading of tokens: where it stands, and where the last token asked for begins. -/
structure Scanner where
  cursor : Cursor
  tokenStart : Position
deriving DecidableEq, Repr

namespace Scanner

/-- At the start of a text. -/
def ofText (text : String) : Scanner := ⟨.ofText text, .start⟩

/-- The next token, or why there is none, and the scanner behind it. -/
def next (s : Scanner) : Except ScanError Token × Scanner :=
  let c := s.cursor.dropWhile isBlank
  let (result, d) := Token.read c
  (result, ⟨d, c.position⟩)

end Scanner

end DocQuery
