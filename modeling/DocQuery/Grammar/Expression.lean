import DocQuery.Grammar.Clause

/-!
# Scalar expressions and queries

The ladder of levels: `Reading.atLevel` reads what binds at a level or tighter. All infix levels
are chains of operands from the level above; a prefix operator nests one level deeper, and so do
parentheses, calls and subqueries.

`expression`, `atLevel` and `query` call each other. Each call takes one round of `fuel`; from one
token to the next there are at most fifteen calls.
-/

namespace DocQuery.Reading

/-! ## Primary expressions -/

/-- The parentheses and arguments of a call. The call is noted once it is complete. -/
def call (name : String) (userDefined : Bool) (expression : Reading Scalar) (fuel : Nat) :
    Reading Scalar := do
  expect (.mark .leftParen)
  let arguments ← delimited (.mark .rightParen) expression fuel
  modify fun s => { s with calls := ⟨name, userDefined⟩ :: s.calls }
  return .call name userDefined arguments

/-- A field of an object. -/
def field (expression : Reading Scalar) : Reading Field := do
  match ← token with
  | .string key =>
    advance
    expect (.mark .colon)
    let value ← expression
    return ⟨key, value⟩
  | _ => unexpected .fieldKey

/-- The parentheses and the subquery of an `EXISTS` or `ARRAY`. -/
def queryArgument (query : Reading Query) : Reading Query := do
  expect (.mark .leftParen)
  parenthesizedQuery query

/-- A literal, a reference, a call, or something between brackets. An unfit token is passed over
before it is reported. -/
def primary (expression : Reading Scalar) (query : Reading Query) (fuel : Nat) :
    Reading Scalar := do
  let place ← position
  match ← bump with
  | .integer n => return .number (.integer n)
  | .double x => return .number (.double x)
  | .string value => return .literal (.string value)
  | .keyword .true => return .literal (.boolean true)
  | .keyword .false => return .literal (.boolean false)
  | .keyword .null => return .literal .null
  | .keyword .undefined => return .literal .undefined
  | .parameter name => return .parameter name
  | .mark .leftParen =>
    if ← isAt (.keyword .select) then .subquery .value <$> parenthesizedQuery query
    else
      let e ← expression
      expect (.mark .rightParen)
      return e
  | .mark .leftBracket => .array <$> delimited (.mark .rightBracket) expression fuel
  | .mark .leftBrace => .object <$> delimited (.mark .rightBrace) (field expression) fuel
  | .keyword .exists => .subquery .exists <$> queryArgument query
  | .keyword .array => .subquery .array <$> queryArgument query
  | .keyword .udf =>
    expect (.mark .dot)
    let name ← identifier
    call name true expression fuel
  | .identifier name =>
    if ← isAt (.mark .leftParen) then call name false expression fuel
    else return .name name
  | found => fail (.unexpected place .expression found)

/-- The rest of an access to `owner`, whose beginning has been read. -/
def accessStep (expression : Reading Scalar) (owner : Scalar) : Access → Reading Scalar
  | .dot => .property owner <$> identifier
  | .bracket => do
    let index ← expression
    expect (.mark .rightBracket)
    return .index owner index

/-! ## Infix levels -/

/-- What makes a link of an infix level. -/
inductive Infix where
  | binary (op : BinaryOp)
  | coalesce
  /-- `BETWEEN` or `IN`, which is still to be read, with or without a `NOT` before it. -/
  | rangeOrList (negated : Bool)

/-- The beginning of a link of an infix level. -/
def infix? (level : Level) : Reading (Option Infix) := do
  let t ← token
  match BinaryOp.ofToken? level t with
  | some op =>
    advance
    return some (.binary op)
  | none =>
    match level, t with
    | .coalesce, .mark .doubleQuestion =>
      advance
      return some .coalesce
    | .relational, .keyword .not =>
      advance
      match ← token with
      | .keyword .between => return some (.rangeOrList true)
      | .keyword .in => return some (.rangeOrList true)
      | _ => unexpected .rangeOrList
    | .relational, .keyword .between => return some (.rangeOrList false)
    | .relational, .keyword .in => return some (.rangeOrList false)
    | _, _ => return none

/-- The rest of a link behind `left`. `above` reads an operand of the level above. -/
def infixStep (above expression : Reading Scalar) (fuel : Nat) (left : Scalar) :
    Infix → Reading Scalar
  | .binary op => .binary op left <$> above
  | .coalesce => .coalesce left <$> above
  | .rangeOrList negated => do
    if ← consume (.keyword .between) then
      let low ← above
      expect (.keyword .and)
      let high ← above
      return .between left low high negated
    else
      expect (.keyword .in)
      expect (.mark .leftParen)
      let items ← list expression fuel
      expect (.mark .rightParen)
      return .among left items negated

/-! ## The ladder -/

mutual

/-- A whole expression, one level deeper. -/
def expression : (fuel : Nat) → Reading Scalar
  | 0 => outOfFuel
  | fuel + 1 => do
    descend
    let e ← atLevel .conditional fuel
    ascend
    return e

/-- An expression that binds at a level or tighter. -/
def atLevel (level : Level) : (fuel : Nat) → Reading Scalar
  | 0 => outOfFuel
  | fuel + 1 =>
    match level with
    | .conditional => do
      let condition ← atLevel .coalesce fuel
      if ← consume (.mark .question) then
        let consequent ← expression fuel
        expect (.mark .colon)
        let alternative ← expression fuel
        return .conditional condition consequent alternative
      else return condition
    | .unary => do
      match UnaryOp.ofToken? (← token) with
      | some op =>
        advance
        descend
        let operand ← atLevel .unary fuel
        ascend
        return .unary op operand
      | none => atLevel .primary fuel
    | .primary => do
      let first ← primary (expression fuel) (query fuel) fuel
      chain access? (accessStep (expression fuel)) fuel 0 first
    | level => do
      let first ← atLevel level.tighter fuel
      chain (infix? level) (infixStep (atLevel level.tighter fuel) (expression fuel) fuel) fuel 0
        first

/-- A query without what may surround it, one level deeper. -/
def query : (fuel : Nat) → Reading Query
  | 0 => outOfFuel
  | fuel + 1 => do
    descend
    let q ← clauses (expression fuel) (query fuel) fuel
    ascend
    return q

end

end DocQuery.Reading
