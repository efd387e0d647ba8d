import DocQuery.Tree.Operator

/-!
# Trees of queries

A `Query` is its clauses, a `Scalar` is an expression with one value, a `Source` is what a `FROM`
clause ranges over. Trees hold what the text says and nothing of how it says it: no places, no
parentheses, no `ASC`.

A tree may be more than a text can say: lists that a text needs items in may be empty, names may
hold any characters, and numbers may be negative.
-/

namespace DocQuery

/-- A literal value. -/
inductive Literal where
  | null
  | undefined
  | boolean (value : Bool)
  | number (value : Number)
  | string (value : String)
deriving DecidableEq

/-- A step of a path behind an input: `.name`, `[3]`, `["name"]`. -/
inductive Segment where
  | name (identifier : String)
  | number (value : Number)
  | string (value : String)
deriving DecidableEq

/-- What a scalar makes of a subquery. -/
inductive SubqueryUse where
  /-- Whether it has results. -/
  | exists
  /-- The array of its results. -/
  | array
  /-- Its value. -/
  | value
deriving DecidableEq, Repr

mutual

/-- A scalar expression. -/
inductive Scalar where
  | literal (value : Literal)
  | unary (op : UnaryOp) (operand : Scalar)
  | binary (op : BinaryOp) (left right : Scalar)
  /-- `subject [NOT] BETWEEN low AND high` -/
  | between (subject low high : Scalar) (negated : Bool)
  /-- `condition ? consequent : alternative` -/
  | conditional (condition consequent alternative : Scalar)
  /-- `left ?? right` -/
  | coalesce (left right : Scalar)
  /-- `subject [NOT] IN (items)` -/
  | among (subject : Scalar) (items : List Scalar) (negated : Bool)
  /-- `EXISTS(query)`, `ARRAY(query)`, `(query)` -/
  | subquery (use : SubqueryUse) (query : Query)
  /-- `function(arguments)`, with `udf.` in front of a user-defined function. -/
  | call (function : String) (userDefined : Bool) (arguments : List Scalar)
  /-- `owner[index]` -/
  | index (owner index : Scalar)
  /-- `identifier` -/
  | name (identifier : String)
  /-- `owner.identifier` -/
  | property (owner : Scalar) (identifier : String)
  /-- `@name`; the name is held without its `@`. -/
  | parameter (name : String)
  /-- `[items]` -/
  | array (items : List Scalar)
  /-- The fields between braces. -/
  | object (fields : List Field)

/-- `"key": value` -/
structure Field where
  key : String
  value : Scalar

/-- `expression [AS alias]` -/
structure SelectItem where
  expression : Scalar
  alias? : Option String

/-- What a query gives for each result. -/
inductive Projection where
  /-- `*` -/
  | all
  | items (items : List SelectItem)
  /-- `VALUE expression` -/
  | value (expression : Scalar)

/-- `expression [DESC]` -/
structure SortKey where
  expression : Scalar
  descending : Bool

/-- `OFFSET offset LIMIT limit` -/
structure Window where
  offset : Scalar
  limit : Scalar

/-- Where documents come from. -/
inductive Collection where
  /-- An input, or the values at a path in it. -/
  | path (input : String) (segments : List Segment)
  /-- `(query)` -/
  | subquery (query : Query)
  /-- `[items]` -/
  | array (items : List Scalar)

/-- What a `FROM` clause ranges over. -/
inductive Source where
  /-- `collection [AS alias]` -/
  | aliased (collection : Collection) (alias? : Option String)
  /-- `element IN collection` -/
  | each (element : String) (collection : Collection)
  /-- `left JOIN right` -/
  | join (left right : Source)

/-- A query. All clauses but the projection may be missing. -/
structure Query where
  distinct : Bool
  top? : Option Scalar
  projection : Projection
  source? : Option Source
  filter? : Option Scalar
  groupKeys? : Option (List Scalar)
  sortKeys? : Option (List SortKey)
  window? : Option Window

end

namespace Scalar

def number (value : Number) : Scalar := .literal (.number value)

def isNumber : Scalar → Bool
  | .literal (.number _) => true
  | _ => false

end Scalar

end DocQuery
