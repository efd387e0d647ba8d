import DocQuery.Layout.Tree
import DocQuery.Proofs.Grammar.Rules

/-!
# The pieces of trees, and their tokens

* `Scalar.listPieces_eq` and so on: the pieces of a list, item by item.
* `Query.pieces_eq`: the pieces of a query, clause by clause.
* `Piece.tokens_append` and so on: `tokens` of pieces put together; `tokens_unary` of a prefix operator
  and its operand.
-/

namespace DocQuery

open Piece

/-! ## Items between commas -/

@[simp] theorem commaSeparated_single (pieces : List Piece) : commaSeparated [pieces] = pieces := by
  simp [commaSeparated, List.intercalate]

@[simp] theorem commaSeparated_cons (pieces next : List Piece) (rest : List (List Piece)) :
    commaSeparated (pieces :: next :: rest) =
      pieces ++ .mark .comma :: .space :: commaSeparated (next :: rest) := by
  simp [commaSeparated, List.intercalate]

/-- The pieces of a field. -/
def Field.pieces (indent : Nat) (f : Field) : List Piece :=
  .token (.string f.key) :: .mark .colon :: .space :: f.value.pieces indent

/-- The pieces of a select item. -/
def SelectItem.pieces (indent : Nat) (i : SelectItem) : List Piece :=
  i.expression.pieces indent ++ aliasPieces i.alias?

/-- The pieces of a sort key. -/
def SortKey.pieces (indent : Nat) (k : SortKey) : List Piece :=
  k.expression.pieces indent ++ if k.descending then [.space, .keyword .desc] else []

theorem Scalar.listPieces_eq (indent : Nat) (es : List Scalar) :
    Scalar.listPieces indent es = es.map (Scalar.pieces indent) := by
  induction es with
  | nil => rfl
  | cons e es ih => rw [listPieces, ih, List.map_cons]

theorem Field.listPieces_eq (indent : Nat) (fields : List Field) :
    Field.listPieces indent fields = fields.map (Field.pieces indent) := by
  induction fields with
  | nil => rfl
  | cons f fields ih =>
    obtain ⟨key, value⟩ := f
    rw [listPieces, ih, List.map_cons]
    rfl

theorem SelectItem.listPieces_eq (indent : Nat) (items : List SelectItem) :
    SelectItem.listPieces indent items = items.map (SelectItem.pieces indent) := by
  induction items with
  | nil => rfl
  | cons i items ih =>
    obtain ⟨e, alias?⟩ := i
    rw [listPieces, ih, List.map_cons]
    rfl

theorem SortKey.listPieces_eq (indent : Nat) (keys : List SortKey) :
    SortKey.listPieces indent keys = keys.map (SortKey.pieces indent) := by
  induction keys with
  | nil => rfl
  | cons k keys ih =>
    obtain ⟨e, descending⟩ := k
    rw [listPieces, ih, List.map_cons]
    rfl

/-! ## Queries -/

/-- The keywords of a clause, each with a space behind it. -/
def wordPieces (words : List Keyword) : List Piece := words.flatMap fun w => [.keyword w, .space]

/-- A clause of a query that stands `indent` subqueries deep, if it is there. -/
def clausePieces (indent : Nat) (words : List Keyword) : Option (List Piece) → List Piece
  | some body => .gap (.clause indent) :: (wordPieces words ++ body)
  | none => []

/-- The `TOP` of a query. -/
def topPieces (indent : Nat) : Option Scalar → List Piece
  | some count => .keyword .top :: .space :: (count.pieces indent ++ [.space])
  | none => []

def Window.pieces (indent : Nat) (w : Window) : List Piece :=
  w.offset.pieces indent ++ .space :: .keyword .limit :: .space :: w.limit.pieces indent

/-- The pieces of a query, clause by clause. -/
theorem Query.pieces_eq (indent : Nat) (q : Query) : q.pieces indent =
    .keyword .select :: .space :: ((if q.distinct then [.keyword .distinct, .space] else []) ++
      (topPieces indent q.top? ++ (q.projection.pieces indent ++
      (clausePieces indent [.from] (q.source?.map (Source.pieces indent)) ++
      (clausePieces indent [.where] (q.filter?.map (Scalar.pieces indent)) ++
      (clausePieces indent [.group, .by]
        (q.groupKeys?.map fun keys => commaSeparated (Scalar.listPieces indent keys)) ++
      (clausePieces indent [.order, .by]
        (q.sortKeys?.map fun keys => commaSeparated (SortKey.listPieces indent keys)) ++
      clausePieces indent [.offset] (q.window?.map (Window.pieces indent))))))))) := by
  obtain ⟨_, top?, _, source?, filter?, groupKeys?, sortKeys?, window?⟩ := q
  simp only [← List.append_assoc]
  -- The recursion goes through the clauses, so it goes on only where each is known to be there.
  rcases window? with _ | ⟨offset, limit⟩ <;> cases top? <;> cases source? <;> cases filter? <;>
    cases groupKeys? <;> cases sortKeys? <;> rfl

/-! ## Tokens -/

namespace Piece

@[simp] theorem tokens_nil : tokens [] = [] := rfl

@[simp] theorem tokens_append (ps qs : List Piece) : tokens (ps ++ qs) = tokens ps ++ tokens qs :=
  List.filterMap_append

@[simp] theorem tokens_token (t : Token) (ps : List Piece) :
    tokens (.token t :: ps) = t :: tokens ps := rfl

@[simp] theorem tokens_gap (g : Gap) (ps : List Piece) : tokens (.gap g :: ps) = tokens ps := rfl

@[simp] theorem tokens_space (ps : List Piece) : tokens (.space :: ps) = tokens ps := rfl

@[simp] theorem tokens_keyword (k : Keyword) (ps : List Piece) :
    tokens (.keyword k :: ps) = .keyword k :: tokens ps := rfl

@[simp] theorem tokens_mark (m : Mark) (ps : List Piece) :
    tokens (.mark m :: ps) = .mark m :: tokens ps := rfl

@[simp] theorem tokens_identifier (name : String) (ps : List Piece) :
    tokens (.identifier name :: ps) = .identifier name :: tokens ps := rfl

@[simp] theorem tokens_number (a : Number) (ps : List Piece) :
    tokens (.number a :: ps) = a.token :: tokens ps := by
  cases a <;> rfl

@[simp] theorem tokens_parenthesized (ps : List Piece) :
    tokens (parenthesized ps) = .mark .leftParen :: (tokens ps ++ [.mark .rightParen]) := by
  simp [parenthesized]

end Piece

@[simp] theorem tokens_wordPieces (words : List Keyword) :
    tokens (wordPieces words) = words.map .keyword := by
  induction words with
  | nil => rfl
  | cons w words ih => exact congrArg (Token.keyword w :: ·) ih

/-- The space that may keep a prefix operator apart from its operand is no token. -/
theorem tokens_unary (indent : Nat) (op : UnaryOp) (operand : Scalar) :
    tokens ((Scalar.unary op operand).pieces indent) =
      op.token :: tokens (operand.enclosed .unary (operand.pieces indent)) := by
  rw [Scalar.pieces, UnaryOp.pieces]
  split <;> rfl

end DocQuery
