import DocQuery.Token.Basic

/-!
# Laid-out text

Laid-out text is a list of pieces: tokens, and the blank space between them. A `Layout` settles
only what blank space looks like, so the tokens of a text are the same in every layout.
-/

namespace DocQuery

/-- Blank space between tokens. -/
inductive Gap where
  /-- A space. -/
  | space
  /-- Between two clauses of a query that stands `indent` subqueries deep. -/
  | clause (indent : Nat)
  /-- Between a subquery and one of its parentheses; what follows stands `indent` subqueries
  deep. -/
  | edge (indent : Nat)
deriving DecidableEq, Repr

/-- How blank space is written. -/
inductive Layout where
  /-- All on one line. -/
  | compact
  /-- A line for each clause, with four spaces in front for each subquery around it. -/
  | clausewise
deriving DecidableEq, Repr

/-- A token or the blank space between two. -/
inductive Piece where
  | token (token : Token)
  | gap (gap : Gap)
deriving DecidableEq

namespace Layout

/-- A new line, indented. -/
def newLine (indent : Nat) : List Char := '\n' :: List.replicate (4 * indent) ' '

/-- The characters of blank space. -/
def gapChars : Layout → Gap → List Char
  | _, .space => [' ']
  | compact, .clause _ => [' ']
  | compact, .edge _ => []
  | clausewise, .clause indent => newLine indent
  | clausewise, .edge indent => newLine indent

/-- The characters of a piece. -/
def pieceChars (layout : Layout) : Piece → List Char
  | .token t => t.spelling.toList
  | .gap g => layout.gapChars g

/-- The text of laid-out pieces. -/
def render (layout : Layout) (pieces : List Piece) : String :=
  String.ofList (pieces.flatMap layout.pieceChars)

end Layout

namespace Piece

def keyword (k : Keyword) : Piece := .token (.keyword k)

def mark (m : Mark) : Piece := .token (.mark m)

def identifier (name : String) : Piece := .token (.identifier name)

def space : Piece := .gap .space

/-- The token of a number. -/
def number : Number → Piece
  | .integer n => .token (.integer n)
  | .double x => .token (.double x)

/-- The tokens among some pieces. -/
def tokens (pieces : List Piece) : List Token :=
  pieces.filterMap fun
    | .token t => some t
    | .gap _ => none

/-- Pieces between parentheses. -/
def parenthesized (pieces : List Piece) : List Piece :=
  mark .leftParen :: (pieces ++ [mark .rightParen])

/-- Items with a comma and a space between them. -/
def commaSeparated (items : List (List Piece)) : List Piece :=
  [mark .comma, space].intercalate items

/-- The text of the pieces begins with a sign. -/
def beginsWithSign : List Piece → Bool
  | .token t :: _ => t.spelling.toList.head?.any fun c => c == '-' || c == '+'
  | _ => false

end Piece

end DocQuery
