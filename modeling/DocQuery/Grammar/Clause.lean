import DocQuery.Grammar.Session

/-!
# Clauses of a query

Each clause is read by means of `expression`, which reads a scalar, and `query`, which reads a
subquery. So the clauses need no recursion of their own; `Grammar.Expression` ties the knot.
-/

namespace DocQuery.Reading

/-- A subquery with the parenthesis behind it; the one before it has been read. -/
def parenthesizedQuery (query : Reading Query) : Reading Query := do
  if ← isAt (.keyword .select) then
    let q ← query
    expect (.mark .rightParen)
    return q
  else unexpected .subquery

/-! ## Projection -/

/-- The count of a `TOP`, `OFFSET` or `LIMIT`: a number or a parameter. -/
def count : Reading Scalar := do
  match ← token with
  | .integer n =>
    advance
    return .number (.integer n)
  | .double x =>
    advance
    return .number (.double x)
  | .parameter name =>
    advance
    return .parameter name
  | _ => unexpected .count

/-- `AS name` or a bare name, if there is one. -/
def alias? : Reading (Option String) := do
  if ← consume (.keyword .as) then some <$> identifier
  else
    match ← token with
    | .identifier _ => some <$> identifier
    | _ => return none

/-- An item of a select list. -/
def selectItem (expression : Reading Scalar) : Reading SelectItem := do
  let e ← expression
  let a ← alias?
  return ⟨e, a⟩

/-- What stands behind `SELECT [DISTINCT] [TOP count]`. -/
def projection (expression : Reading Scalar) (fuel : Nat) : Reading Projection := do
  if ← consume (.mark .star) then return .all
  else if ← consume (.keyword .value) then .value <$> expression
  else .items <$> list (selectItem expression) fuel

/-! ## Sources -/

/-- How a path goes on. -/
inductive Access where
  | dot
  | bracket

/-- The beginning of a step of a path or of an access: a point or an opening bracket. -/
def access? : Reading (Option Access) := do
  if ← consume (.mark .dot) then return some .dot
  else if ← consume (.mark .leftBracket) then return some .bracket
  else return none

/-- What stands between the brackets of a path. An unfit token is passed over before it is
reported. -/
def pathKey : Reading Segment := do
  let place ← position
  match ← bump with
  | .integer n => return .number (.integer n)
  | .double x => return .number (.double x)
  | .string value => return .string value
  | found => fail (.unexpected place .pathKey found)

/-- The rest of a step of a path, whose beginning has been read. -/
def pathStep (before : List Segment) : Access → Reading (List Segment)
  | .dot => do
    let name ← identifier
    return before ++ [.name name]
  | .bracket => do
    let key ← pathKey
    expect (.mark .rightBracket)
    return before ++ [key]

/-- The path behind an input. -/
def inputPath (input : String) (fuel : Nat) : Reading Collection := do
  let segments ← chain access? pathStep fuel 0 []
  return .path input segments

/-- A collection: an input with a path, a subquery or an array that is not empty. -/
def collection (expression : Reading Scalar) (query : Reading Query) (fuel : Nat) :
    Reading Collection := do
  match ← token with
  | .identifier _ =>
    let input ← identifier
    inputPath input fuel
  | .mark .leftParen =>
    advance
    .subquery <$> parenthesizedQuery query
  | .mark .leftBracket =>
    advance
    let items ← list expression fuel
    expect (.mark .rightBracket)
    return .array items
  | _ => unexpected .collection

/-- An operand of a `JOIN`: `element IN collection` or `collection [AS alias]`. -/
def operand (expression : Reading Scalar) (query : Reading Query) (fuel : Nat) :
    Reading Source := do
  match ← token with
  | .identifier _ =>
    let name ← identifier
    if ← consume (.keyword .in) then .each name <$> collection expression query fuel
    else
      let c ← inputPath name fuel
      let a ← alias?
      return .aliased c a
  | _ =>
    let c ← collection expression query fuel
    let a ← alias?
    return .aliased c a

/-- Tells whether a `JOIN` follows, and passes over it. -/
def join? : Reading (Option Unit) := do
  if ← consume (.keyword .join) then return some () else return none

/-- Operands joined from the left. -/
def source (expression : Reading Scalar) (query : Reading Query) (fuel : Nat) :
    Reading Source := do
  let first ← operand expression query fuel
  chain join? (fun left _ => .join left <$> operand expression query fuel) fuel 0 first

/-! ## Sorting and windows -/

/-- A sort key. `ASC` says what is so without it. -/
def sortKey (expression : Reading Scalar) : Reading SortKey := do
  let e ← expression
  if ← consume (.keyword .desc) then return ⟨e, true⟩
  else
    let _ ← consume (.keyword .asc)
    return ⟨e, false⟩

/-- The counts behind `OFFSET`. -/
def window : Reading Window := do
  let offset ← count
  expect (.keyword .limit)
  let limit ← count
  return ⟨offset, limit⟩

/-! ## Queries -/

/-- `clause`, if the keyword that begins it follows. -/
def clause? {α : Type} (word : Keyword) (clause : Reading α) : Reading (Option α) := do
  if ← consume (.keyword word) then some <$> clause else return none

/-- `clause`, if the keyword that begins it follows; the keyword `BY` stands behind it. -/
def clauseBy? {α : Type} (word : Keyword) (clause : Reading α) : Reading (Option α) :=
  clause? word do
    expect (.keyword .by)
    clause

/-- The clauses of a query, in their fixed order. -/
def clauses (expression : Reading Scalar) (query : Reading Query) (fuel : Nat) :
    Reading Query := do
  expect (.keyword .select)
  let distinct ← consume (.keyword .distinct)
  let top? ← clause? .top count
  let projection ← projection expression fuel
  let source? ← clause? .from (source expression query fuel)
  let filter? ← clause? .where expression
  let groupKeys? ← clauseBy? .group (list expression fuel)
  let sortKeys? ← clauseBy? .order (list (sortKey expression) fuel)
  let window? ← clause? .offset window
  return { distinct, top?, projection, source?, filter?, groupKeys?, sortKeys?, window? }

end DocQuery.Reading
