import DocQuery.Layout.Piece
import DocQuery.Tree.Basic

/-!
# Trees as text

`Query.text` and `Scalar.text` write a tree in the language's own spelling. Parentheses stand only
where an operand binds looser than its place asks for, and around a number in front of a point,
which would otherwise be read as part of the number.
-/

namespace DocQuery

open Piece

/-- The level at which a scalar binds when it is written without parentheses. A negative number is
written with a sign, which reads as a prefix operator. -/
def Scalar.level : Scalar → Level
  | .conditional .. => .conditional
  | .coalesce .. => .coalesce
  | .binary op .. => op.level
  | .between .. => .relational
  | .among .. => .relational
  | .unary .. => .unary
  | .literal (.number n) => if n.isNegative then .unary else .primary
  | _ => .primary

/-- The pieces of `e`, in parentheses if it binds looser than `level`. -/
def Scalar.enclosed (e : Scalar) (level : Level) (pieces : List Piece) : List Piece :=
  if e.level.rung < level.rung then parenthesized pieces else pieces

/-- The pieces of a literal. -/
def Literal.pieces : Literal → List Piece
  | .null => [.keyword .null]
  | .undefined => [.keyword .undefined]
  | .boolean true => [.keyword .true]
  | .boolean false => [.keyword .false]
  | .number n => [.number n]
  | .string s => [.token (.string s)]

/-- The pieces of a step of a path. -/
def Segment.pieces : Segment → List Piece
  | .name identifier => [.mark .dot, .identifier identifier]
  | .number n => [.mark .leftBracket, .number n, .mark .rightBracket]
  | .string s => [.mark .leftBracket, .token (.string s), .mark .rightBracket]

/-- The pieces of a prefix operator before an operand. Two signs in a row are kept apart. -/
def UnaryOp.pieces (op : UnaryOp) (operand : List Piece) : List Piece :=
  .token op.token ::
    (if op = .not || beginsWithSign operand then .space :: operand else operand)

/-- The pieces of an infix operator between two operands. -/
def BinaryOp.pieces (op : BinaryOp) (left right : List Piece) : List Piece :=
  left ++ [.space, .token op.token, .space] ++ right

/-- The `NOT` before `BETWEEN` and `IN`. -/
def negation (negated : Bool) : List Piece := if negated then [.keyword .not, .space] else []

/-- The pieces of an alias. -/
def aliasPieces : Option String → List Piece
  | some name => [.space, .keyword .as, .space, .identifier name]
  | none => []

/-- The word before the parentheses of a subquery. -/
def SubqueryUse.pieces : SubqueryUse → List Piece
  | .exists => [.keyword .exists]
  | .array => [.keyword .array]
  | .value => []

/-- A subquery that stands `indent` subqueries deep, between its parentheses. -/
def subqueryPieces (indent : Nat) (query : List Piece) : List Piece :=
  .mark .leftParen :: .gap (.edge (indent + 1)) ::
    (query ++ [.gap (.edge indent), .mark .rightParen])

mutual

/-- The pieces of a scalar that stands `indent` subqueries deep. -/
def Scalar.pieces (indent : Nat) : Scalar → List Piece
  | .literal value => value.pieces
  | .unary op operand => op.pieces (operand.enclosed .unary (operand.pieces indent))
  | .binary op left right =>
    op.pieces (left.enclosed op.level (left.pieces indent))
      (right.enclosed op.level.tighter (right.pieces indent))
  | .between subject low high negated =>
    subject.enclosed .relational (subject.pieces indent) ++ .space :: negation negated ++
      [.keyword .between, .space] ++ low.enclosed .additive (low.pieces indent) ++
      [.space, .keyword .and, .space] ++ high.enclosed .additive (high.pieces indent)
  | .conditional condition consequent alternative =>
    condition.enclosed .coalesce (condition.pieces indent) ++ [.space, .mark .question, .space] ++
      consequent.pieces indent ++ [.space, .mark .colon, .space] ++ alternative.pieces indent
  | .coalesce left right =>
    BinaryOp.coalesce.pieces (left.enclosed .coalesce (left.pieces indent))
      (right.enclosed .concat (right.pieces indent))
  | .among subject items negated =>
    subject.enclosed .relational (subject.pieces indent) ++ .space :: negation negated ++
      [.keyword .in, .space] ++ parenthesized (commaSeparated (Scalar.listPieces indent items))
  | .subquery use query => use.pieces ++ subqueryPieces indent (query.pieces (indent + 1))
  | .call function userDefined arguments =>
    (if userDefined then [.keyword .udf, .mark .dot] else []) ++ .identifier function ::
      parenthesized (commaSeparated (Scalar.listPieces indent arguments))
  | .index owner index =>
    owner.enclosed .primary (owner.pieces indent) ++ .mark .leftBracket ::
      (index.pieces indent ++ [.mark .rightBracket])
  | .name identifier => [.identifier identifier]
  | .property owner identifier =>
    (if owner.isNumber then parenthesized (owner.pieces indent)
      else owner.enclosed .primary (owner.pieces indent)) ++ [.mark .dot, .identifier identifier]
  | .parameter name => [.token (.parameter name)]
  | .array items =>
    .mark .leftBracket :: (commaSeparated (Scalar.listPieces indent items) ++ [.mark .rightBracket])
  | .object fields =>
    .mark .leftBrace :: (commaSeparated (Field.listPieces indent fields) ++ [.mark .rightBrace])

/-- The pieces of each scalar. -/
def Scalar.listPieces (indent : Nat) : List Scalar → List (List Piece)
  | [] => []
  | e :: rest => e.pieces indent :: Scalar.listPieces indent rest

/-- The pieces of each field. -/
def Field.listPieces (indent : Nat) : List Field → List (List Piece)
  | [] => []
  | ⟨key, value⟩ :: rest =>
    (.token (.string key) :: .mark .colon :: .space :: value.pieces indent) ::
      Field.listPieces indent rest

/-- The pieces of each select item. -/
def SelectItem.listPieces (indent : Nat) : List SelectItem → List (List Piece)
  | [] => []
  | ⟨e, alias?⟩ :: rest =>
    (e.pieces indent ++ aliasPieces alias?) :: SelectItem.listPieces indent rest

/-- The pieces of each sort key. -/
def SortKey.listPieces (indent : Nat) : List SortKey → List (List Piece)
  | [] => []
  | ⟨e, descending⟩ :: rest =>
    (e.pieces indent ++ (if descending then [.space, .keyword .desc] else [])) ::
      SortKey.listPieces indent rest

/-- The pieces of a projection. -/
def Projection.pieces (indent : Nat) : Projection → List Piece
  | .all => [.mark .star]
  | .items items => commaSeparated (SelectItem.listPieces indent items)
  | .value e => .keyword .value :: .space :: e.pieces indent

/-- The pieces of a collection. -/
def Collection.pieces (indent : Nat) : Collection → List Piece
  | .path input segments => .identifier input :: segments.flatMap Segment.pieces
  | .subquery query => subqueryPieces indent (query.pieces (indent + 1))
  | .array items =>
    .mark .leftBracket :: (commaSeparated (Scalar.listPieces indent items) ++ [.mark .rightBracket])

/-- The pieces of a source. -/
def Source.pieces (indent : Nat) : Source → List Piece
  | .aliased collection alias? => collection.pieces indent ++ aliasPieces alias?
  | .each element collection =>
    .identifier element :: .space :: .keyword .in :: .space :: collection.pieces indent
  | .join left right =>
    left.pieces indent ++ [.space, .keyword .join, .space] ++ right.pieces indent

/-- The pieces of a query that stands `indent` subqueries deep. -/
def Query.pieces (indent : Nat) : Query → List Piece
  | ⟨distinct, top?, projection, source?, filter?, groupKeys?, sortKeys?, window?⟩ =>
    .keyword .select :: .space ::
    ((if distinct then [.keyword .distinct, .space] else []) ++
    (match top? with
      | some count => .keyword .top :: .space :: (count.pieces indent ++ [.space])
      | none => []) ++
    projection.pieces indent ++
    (match source? with
      | some source => .gap (.clause indent) :: .keyword .from :: .space :: source.pieces indent
      | none => []) ++
    (match filter? with
      | some e => .gap (.clause indent) :: .keyword .where :: .space :: e.pieces indent
      | none => []) ++
    (match groupKeys? with
      | some keys =>
        .gap (.clause indent) :: .keyword .group :: .space :: .keyword .by :: .space ::
          commaSeparated (Scalar.listPieces indent keys)
      | none => []) ++
    (match sortKeys? with
      | some keys =>
        .gap (.clause indent) :: .keyword .order :: .space :: .keyword .by :: .space ::
          commaSeparated (SortKey.listPieces indent keys)
      | none => []) ++
    (match window? with
      | some ⟨offset, limit⟩ =>
        .gap (.clause indent) :: .keyword .offset :: .space :: (offset.pieces indent ++
          .space :: .keyword .limit :: .space :: limit.pieces indent)
      | none => []))

end

/-- The text of a scalar. -/
def Scalar.text (e : Scalar) (layout : Layout) : String := layout.render (e.pieces 0)

/-- The text of a source. -/
def Source.text (s : Source) (layout : Layout) : String := layout.render (s.pieces 0)

/-- The text of a query. -/
def Query.text (q : Query) (layout : Layout) : String := layout.render (q.pieces 0)

end DocQuery
