import DocQuery.Token.Scanner
import DocQuery.Tree.Basic

/-!
# Reading sessions

A `Session` reads one text: it looks at one token, keeps the scanner behind it, and counts how
deeply what it reads is nested. `Reading` is a step of a session that gives a value or a
`ParseError`; an error keeps the session as it was then, so that reading may go on after it.

The parts that all of the grammar is made of stand here:

* `Reading.advance`, `Reading.bump`, `Reading.consume`, `Reading.expect` pass over tokens;
* `Reading.descend`, `Reading.ascend` enter and leave a level of nesting;
* `Reading.list`, `Reading.delimited` read items between commas;
* `Reading.chain` reads links such as `+ x` behind a first operand. Every link nests the operand
  before it one level deeper, and the levels are given back at the end of the chain.

Loops and recursion are bounded by a number of rounds, `fuel`. A round passes over a token, so
rounds in proportion to the text are enough and `ParseError.outOfFuel` does not arise.
-/

namespace DocQuery

open Text

/-- What a reading needed where it found something else. -/
inductive Expected where
  | token (token : Token)
  | identifier
  | expression
  | collection
  | subquery
  /-- The count of a `TOP`, `OFFSET` or `LIMIT`. -/
  | count
  /-- What stands between the brackets of a path. -/
  | pathKey
  /-- What follows an infix `NOT`. -/
  | rangeOrList
  | fieldKey
  | endOfText
deriving DecidableEq

namespace Expected

def describe : Expected → String
  | token t => t.describe
  | identifier => "identifier"
  | expression => "expression"
  | collection => "collection"
  | subquery => "subquery"
  | count => "number or parameter"
  | pathKey => "number or string"
  | rangeOrList => "BETWEEN or IN"
  | fieldKey => "property name string"
  | endOfText => "end of input"

end Expected

/-- Why a text is not what it was read as. -/
inductive ParseError where
  /-- There is no next token. -/
  | scan (error : ScanError)
  /-- The token at a place does not fit. -/
  | unexpected (position : Position) (expected : Expected) (found : Token)
  /-- What begins at a place is nested too deeply. -/
  | tooDeep (position : Position) (limit : Nat)
  /-- The rounds of a loop were used up. -/
  | outOfFuel (position : Position)
deriving DecidableEq

namespace ParseError

def position : ParseError → Position
  | scan e => e.position
  | unexpected p _ _ => p
  | tooDeep p _ => p
  | outOfFuel p => p

def message : ParseError → String
  | scan e => e.message
  | unexpected p expected found =>
    s!"Syntax error at {p.describe}: expected {expected.describe}, found {found.describe}"
  | tooDeep p limit =>
    s!"Nesting too deep at {p.describe}: expressions may nest at most {limit} levels"
  | outOfFuel p => s!"Reading stopped at {p.describe}"

end ParseError

/-- The name of a function in a call, and whether it is user-defined. -/
structure CallName where
  name : String
  userDefined : Bool
deriving DecidableEq, Repr

/-- The reading of one text. -/
structure Session where
  scanner : Scanner
  /-- The token to be read next, and where it begins. -/
  token : Token
  position : Position
  /-- How many levels may nest. -/
  limit : Nat
  /-- How many levels are open. -/
  depth : Nat
  /-- The calls read so far, the last first. -/
  calls : List CallName
deriving DecidableEq

/-- A step of a session. -/
abbrev Reading (α : Type) : Type := ExceptT ParseError (StateM Session) α

namespace Reading

variable {α β : Type}

/-- The step fails. -/
def fail (e : ParseError) : Reading α := throw e

/-- The token to be read next. -/
def token : Reading Token := return (← get).token

/-- Where the token to be read next begins. -/
def position : Reading Position := return (← get).position

/-- The token to be read next is `t`. -/
def isAt (t : Token) : Reading Bool := return (← get).token == t

/-- The token to be read next does not fit. -/
def unexpected (expected : Expected) : Reading α := do
  let s ← get
  fail (.unexpected s.position expected s.token)

/-- Gives up for want of rounds. -/
def outOfFuel : Reading α := do fail (.outOfFuel (← position))

/-! ## Passing over tokens -/

/-- Passes over a token. If there is no next one, the token to be read stays what it was. -/
def advance : Reading Unit := do
  let s ← get
  match s.scanner.next with
  | (.ok token, scanner) => set { s with scanner, token, position := scanner.tokenStart }
  | (.error e, scanner) =>
    set { s with scanner }
    fail (.scan e)

/-- Passes over a token and gives it. If there is no next one, the token to be read is the end of
the text. -/
def bump : Reading Token := do
  let t ← token
  modify ({ · with token := .endOfText })
  advance
  return t

/-- Passes over the token `t` if it is next, and tells whether it was. -/
def consume (t : Token) : Reading Bool := do
  if ← isAt t then
    advance
    return true
  else return false

/-- Passes over the token `t`, which must be next. -/
def expect (t : Token) : Reading Unit := do
  if ← isAt t then advance else unexpected (.token t)

/-- Passes over an identifier and gives its name. -/
def identifier : Reading String := do
  match ← token with
  | .identifier name =>
    advance
    return name
  | _ => unexpected .identifier

/-- Nothing is left to be read. -/
def expectEnd : Reading Unit := do
  if !(← isAt .endOfText) then unexpected .endOfText

/-! ## Nesting -/

/-- Enters a level of nesting. -/
def descend : Reading Unit := do
  modify fun s => { s with depth := s.depth + 1 }
  let s ← get
  if s.limit < s.depth then fail (.tooDeep s.position s.limit)

/-- Leaves some levels of nesting. -/
def release (levels : Nat) : Reading Unit :=
  modify fun s => { s with depth := s.depth - levels }

/-- Leaves a level of nesting. -/
def ascend : Reading Unit := release 1

/-! ## Loops -/

/-- Reads one item or more between commas. -/
def list (item : Reading α) : Nat → Reading (List α)
  | 0 => outOfFuel
  | fuel + 1 => do
    let first ← item
    if ← consume (.mark .comma) then
      let others ← list item fuel
      return first :: others
    else return [first]

/-- Reads items between commas up to the token `close`; there may be none. -/
def delimited (close : Token) (item : Reading α) (fuel : Nat) : Reading (List α) := do
  if ← consume close then return []
  else
    let items ← list item fuel
    expect close
    return items

/-- Reads links behind `first` while `operator` finds the beginning of one. Every link nests what
is before it one level deeper; `levels` of them are open already. -/
def chain (operator : Reading (Option β)) (link : α → β → Reading α) :
    (fuel levels : Nat) → (first : α) → Reading α
  | 0, _, _ => outOfFuel
  | fuel + 1, levels, first => do
    match ← operator with
    | none =>
      release levels
      return first
    | some op =>
      descend
      let next ← link first op
      chain operator link fuel (levels + 1) next

end Reading

end DocQuery
