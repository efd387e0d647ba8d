/-!
# Places in a text

* `Position`: bytes before a place, its line and its column.
* `Cursor`: where reading stands, with the characters still to read.

The place of a cursor is the place of its first unread character: `Cursor.next` and
`Cursor.dropWhile` move both together, so a cursor taken from `Cursor.ofText` never reports a place
that is not the start of a character.
-/

namespace DocQuery.Text

/-- A place in a text: the bytes of its UTF-8 form that lie before it (from 0), its line and its
column (both from 1; a column counts characters). -/
structure Position where
  offset : Nat
  line : Nat
  column : Nat
deriving DecidableEq, Repr

namespace Position

/-- The place of a text's first character. -/
def start : Position := ⟨0, 1, 1⟩

/-- The place behind one more character. Only a line feed begins a new line. -/
def step (p : Position) (c : Char) : Position :=
  if c = '\n' then ⟨p.offset + c.utf8Size, p.line + 1, 1⟩
  else ⟨p.offset + c.utf8Size, p.line, p.column + 1⟩

/-- The place behind some more characters. -/
def after (p : Position) (cs : List Char) : Position := cs.foldl step p

@[simp] theorem after_nil (p : Position) : p.after [] = p := rfl

@[simp] theorem after_cons (p : Position) (c : Char) (cs : List Char) :
    p.after (c :: cs) = (p.step c).after cs := rfl

theorem after_append (p : Position) (cs ds : List Char) :
    p.after (cs ++ ds) = (p.after cs).after ds := by
  simp [after, List.foldl_append]

/-- A place as messages name it. -/
def describe (p : Position) : String := s!"line {p.line}, column {p.column}"

end Position

/-- Where reading stands in a text: the characters still to read, and the place of the first of
them. -/
structure Cursor where
  rest : List Char
  position : Position
deriving DecidableEq, Repr

namespace Cursor

/-- At the start of a text. -/
def ofText (text : String) : Cursor := ⟨text.toList, .start⟩

/-- Behind the next character, if there is one. -/
def next (c : Cursor) : Cursor :=
  match c.rest with
  | [] => c
  | ch :: rest => ⟨rest, c.position.step ch⟩

/-- Behind the next `n` characters. -/
def drop (n : Nat) (c : Cursor) : Cursor := ⟨c.rest.drop n, c.position.after (c.rest.take n)⟩

/-- Behind the longest run of characters that have the property `p`. -/
def dropWhile (p : Char → Bool) (c : Cursor) : Cursor :=
  ⟨c.rest.dropWhile p, c.position.after (c.rest.takeWhile p)⟩

/-- The characters from `c` to `d`, a later cursor in the same text. -/
def upTo (c d : Cursor) : List Char := c.rest.take (c.rest.length - d.rest.length)

theorem length_next_le (c : Cursor) : c.next.rest.length ≤ c.rest.length := by
  unfold next; split <;> simp [*]

theorem length_next_lt {c : Cursor} (h : c.rest ≠ []) :
    c.next.rest.length < c.rest.length := by
  unfold next; split <;> simp_all

end Cursor

end DocQuery.Text
