import DocQuery.Grammar.Expression

/-!
# Reading whole texts

* `Session.start` begins the reading of a text; `Session.query`, `Session.scalar` and
  `Session.expression` go on with it, and may be called again, also after an error.
* `Query.parse` and `Scalar.parse` read a whole text.
-/

namespace DocQuery

/-- How many levels may nest if nothing else is said. -/
def defaultLimit : Nat := 64

namespace Session

/-- The session that looks at the first token of a text. -/
def start (text : String) (limit : Nat) : Except ParseError Session :=
  match (Scanner.ofText text).next with
  | (.ok token, scanner) =>
    .ok { scanner, token, position := scanner.tokenStart, limit, depth := 0, calls := [] }
  | (.error e, _) => .error (.scan e)

/-- Rounds enough for all that is left: from one token to the next there are at most fifteen calls,
and a token takes a character or more. -/
def fuel (s : Session) : Nat := 20 * (s.scanner.cursor.rest.length + 2)

/-- Takes a step with rounds enough for all that is left. -/
def run {α : Type} (s : Session) (step : Nat → Reading α) : Except ParseError α × Session :=
  (step s.fuel).run s

/-- Reads a query, behind which nothing may be left. -/
def query (s : Session) : Except ParseError Query × Session :=
  s.run fun fuel => do
    let q ← Reading.query fuel
    Reading.expectEnd
    return q

/-- Reads an expression, behind which nothing may be left. -/
def scalar (s : Session) : Except ParseError Scalar × Session :=
  s.run fun fuel => do
    let e ← Reading.expression fuel
    Reading.expectEnd
    return e

/-- Reads an expression, whatever is left behind it. -/
def expression (s : Session) : Except ParseError Scalar × Session := s.run Reading.expression

end Session

/-- The query that a text says, if it nests at most `limit` levels. -/
def Query.parse (text : String) (limit : Nat) : Except ParseError Query := do
  let s ← Session.start text limit
  s.query.1

/-- The expression that a text says, if it nests at most `limit` levels. -/
def Scalar.parse (text : String) (limit : Nat) : Except ParseError Scalar := do
  let s ← Session.start text limit
  s.scalar.1

end DocQuery
