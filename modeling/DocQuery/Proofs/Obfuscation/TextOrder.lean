import DocQuery.Proofs.Layout.Pieces
import DocQuery.Proofs.Obfuscation.Session

/-!
# Leaves in the text

* `Tree.words_pieces`: the words, numbers and function names of a tree's text, from left to right, are
  the tree's leaves, and so are those of each count.
-/

namespace DocQuery

open Piece

/-- A literal or a name, and no keyword or mark. -/
def Token.isWord : Token → Bool
  | .keyword _ => false
  | .mark _ => false
  | .endOfText => false
  | _ => true

namespace Piece

/-- The literals and names of a text from left to right. -/
def words (pieces : List Piece) : List Token := (tokens pieces).filter Token.isWord

variable (ps qs : List Piece)

@[simp] theorem words_nil : words [] = [] := rfl

@[simp] theorem words_append : words (ps ++ qs) = words ps ++ words qs := by simp [words]

@[simp] theorem words_gap (g : Gap) : words (.gap g :: ps) = words ps := rfl

@[simp] theorem words_space : words (.space :: ps) = words ps := rfl

@[simp] theorem words_keyword (k : Keyword) : words (.keyword k :: ps) = words ps := rfl

@[simp] theorem words_mark (m : Mark) : words (.mark m :: ps) = words ps := rfl

@[simp] theorem words_identifier (name : String) :
    words (.identifier name :: ps) = .identifier name :: words ps := rfl

@[simp] theorem words_string (s : String) :
    words (.token (.string s) :: ps) = .string s :: words ps := rfl

@[simp] theorem words_parameter (name : String) :
    words (.token (.parameter name) :: ps) = .parameter name :: words ps := rfl

@[simp] theorem words_number (n : Number) : words (.number n :: ps) = n.token :: words ps := by
  cases n <;> rfl

@[simp] theorem words_binaryOp (op : BinaryOp) : words (op.pieces ps qs) = words ps ++ words qs := by
  rw [BinaryOp.pieces, List.append_assoc, words_append]
  cases op <;> rfl

@[simp] theorem words_unaryOp (op : UnaryOp) : words (op.pieces ps) = words ps := by
  rw [UnaryOp.pieces]
  split <;> cases op <;> rfl

@[simp] theorem words_parenthesized : words (parenthesized ps) = words ps := by
  simp [parenthesized]

@[simp] theorem words_enclosed (e : Scalar) (level : Level) :
    words (e.enclosed level ps) = words ps := by
  rw [Scalar.enclosed]
  split
  · exact words_parenthesized ps
  · rfl

@[simp] theorem words_subqueryPieces (indent : Nat) : words (subqueryPieces indent ps) = words ps := by
  simp [subqueryPieces]

@[simp] theorem words_negation (negated : Bool) : words (negation negated) = [] := by
  cases negated <;> rfl

@[simp] theorem words_commaSeparated (items : List (List Piece)) :
    words (commaSeparated items) = items.flatMap words := by
  induction items with
  | nil => rfl
  | cons item rest ih =>
    cases rest with
    | nil => simp
    | cons next rest => simp [ih]

end Piece

/-- The literals and names that stand for a leaf in the text. Those of a count are all its own. -/
def Leaf.tokens : Leaf → List Token
  | .word .identifier text => [.identifier text]
  | .word .string text => [.string text]
  | .word .key text => [.string text]
  | .word .parameter text => [.parameter text]
  | .number n => [n.token]
  | .function name => [.identifier name]
  | .count e => words (e.pieces 0)

/-- The literals and names that stand for some leaves in the text. -/
def leafTokens (leaves : List Leaf) : List Token := leaves.flatMap Leaf.tokens

@[simp] theorem leafTokens_nil : leafTokens [] = [] := rfl

@[simp] theorem leafTokens_append (as bs : List Leaf) :
    leafTokens (as ++ bs) = leafTokens as ++ leafTokens bs := List.flatMap_append

@[simp] theorem leafTokens_cons (leaf : Leaf) (leaves : List Leaf) :
    leafTokens (leaf :: leaves) = leaf.tokens ++ leafTokens leaves := rfl

theorem Literal.words_pieces (v : Literal) : words v.pieces = leafTokens v.leaves := by
  cases v with
  | boolean value => cases value <;> rfl
  | number n => cases n <;> rfl
  | _ => rfl

theorem Segment.words_pieces (s : Segment) : words s.pieces = s.leaf.tokens := by
  cases s with
  | number n => cases n <;> rfl
  | _ => rfl

theorem words_aliasPieces (alias? : Option String) :
    words (aliasPieces alias?) = leafTokens (aliasLeaves alias?) := by
  cases alias? <;> rfl

@[simp] theorem words_wordPieces (keywords : List Keyword) : words (wordPieces keywords) = [] := by
  induction keywords with
  | nil => rfl
  | cons k keywords ih => exact ih

mutual

theorem Scalar.words_pieces (indent : Nat) : (e : Scalar) →
    words (e.pieces indent) = leafTokens e.leaves
  | .literal v => v.words_pieces
  | .unary op operand => by
    simp [Scalar.pieces, Scalar.leaves, Scalar.words_pieces indent operand]
  | .binary op left right => by
    simp [Scalar.pieces, Scalar.leaves, Scalar.words_pieces indent left,
      Scalar.words_pieces indent right]
  | .between subject low high negated => by
    simp [Scalar.pieces, Scalar.leaves, Scalar.words_pieces indent subject,
      Scalar.words_pieces indent low, Scalar.words_pieces indent high]
  | .conditional condition consequent alternative => by
    simp [Scalar.pieces, Scalar.leaves, Scalar.words_pieces indent condition,
      Scalar.words_pieces indent consequent, Scalar.words_pieces indent alternative]
  | .coalesce left right => by
    simp [Scalar.pieces, Scalar.leaves, Scalar.words_pieces indent left,
      Scalar.words_pieces indent right]
  | .among subject items negated => by
    simp [Scalar.pieces, Scalar.leaves, Scalar.words_pieces indent subject,
      Scalar.words_listPieces indent items]
  | .subquery use query => by
    cases use <;>
      simp [Scalar.pieces, Scalar.leaves, SubqueryUse.pieces, Query.words_pieces (indent + 1) query]
  | .call function userDefined arguments => by
    cases userDefined <;>
      simp [Scalar.pieces, Scalar.leaves, Leaf.tokens, Scalar.words_listPieces indent arguments]
  | .index owner index => by
    simp [Scalar.pieces, Scalar.leaves, Scalar.words_pieces indent owner,
      Scalar.words_pieces indent index]
  | .name identifier => rfl
  | .property owner identifier => by
    rw [Scalar.pieces]
    split <;> simp [Scalar.leaves, Leaf.tokens, Scalar.words_pieces indent owner]
  | .parameter name => rfl
  | .array items => by
    simp [Scalar.pieces, Scalar.leaves, Scalar.words_listPieces indent items]
  | .object fields => by
    simp [Scalar.pieces, Scalar.leaves, Field.words_listPieces indent fields]
termination_by structural e => e

theorem Scalar.words_listPieces (indent : Nat) : (es : List Scalar) →
    (Scalar.listPieces indent es).flatMap words = leafTokens (Scalar.listLeaves es)
  | [] => rfl
  | e :: rest => by
    simp [Scalar.listPieces, Scalar.listLeaves, Scalar.words_pieces indent e,
      Scalar.words_listPieces indent rest]
termination_by structural es => es

theorem Field.words_listPieces (indent : Nat) : (fields : List Field) →
    (Field.listPieces indent fields).flatMap words = leafTokens (Field.listLeaves fields)
  | [] => rfl
  | ⟨key, value⟩ :: rest => by
    simp [Field.listPieces, Field.listLeaves, Leaf.tokens, Scalar.words_pieces indent value,
      Field.words_listPieces indent rest]
termination_by structural fields => fields

theorem SelectItem.words_listPieces (indent : Nat) : (items : List SelectItem) →
    (SelectItem.listPieces indent items).flatMap words = leafTokens (SelectItem.listLeaves items)
  | [] => rfl
  | ⟨e, alias?⟩ :: rest => by
    simp [SelectItem.listPieces, SelectItem.listLeaves, words_aliasPieces,
      Scalar.words_pieces indent e, SelectItem.words_listPieces indent rest]
termination_by structural items => items

theorem SortKey.words_listPieces (indent : Nat) : (keys : List SortKey) →
    (SortKey.listPieces indent keys).flatMap words = leafTokens (SortKey.listLeaves keys)
  | [] => rfl
  | ⟨e, descending⟩ :: rest => by
    cases descending <;>
      simp [SortKey.listPieces, SortKey.listLeaves, Scalar.words_pieces indent e,
        SortKey.words_listPieces indent rest]
termination_by structural keys => keys

theorem Projection.words_pieces (indent : Nat) : (p : Projection) →
    words (p.pieces indent) = leafTokens p.leaves
  | .all => rfl
  | .items items => by
    simp [Projection.pieces, Projection.leaves, SelectItem.words_listPieces indent items]
  | .value e => Scalar.words_pieces indent e
termination_by structural p => p

theorem Collection.words_pieces (indent : Nat) : (c : Collection) →
    words (c.pieces indent) = leafTokens c.leaves
  | .path input segments => by
    have hsegments : words (segments.flatMap Segment.pieces) =
        leafTokens (segments.map Segment.leaf) := by
      induction segments with
      | nil => rfl
      | cons s ss ih => simp [ih, s.words_pieces]
    simp [Collection.pieces, Collection.leaves, Leaf.tokens, hsegments]
  | .subquery query => by
    simp [Collection.pieces, Collection.leaves, Query.words_pieces (indent + 1) query]
  | .array items => by
    simp [Collection.pieces, Collection.leaves, Scalar.words_listPieces indent items]
termination_by structural c => c

theorem Source.words_pieces (indent : Nat) : (s : Source) →
    words (s.pieces indent) = leafTokens s.leaves
  | .aliased collection alias? => by
    simp [Source.pieces, Source.leaves, words_aliasPieces, Collection.words_pieces indent collection]
  | .each element collection => by
    simp [Source.pieces, Source.leaves, Leaf.tokens, Collection.words_pieces indent collection]
  | .join left right => by
    simp [Source.pieces, Source.leaves, Source.words_pieces indent left,
      Source.words_pieces indent right]
termination_by structural s => s

theorem Query.words_pieces (indent : Nat) : (q : Query) →
    words (q.pieces indent) = leafTokens q.leaves
  | ⟨distinct, top?, projection, source?, filter?, groupKeys?, sortKeys?, window?⟩ => by
    have htop : words (topPieces indent top?) =
        leafTokens (clauseLeaves (fun count => [.count count]) top?) := by
      cases top? with
      | none => rfl
      | some count =>
        simp [topPieces, clauseLeaves, Leaf.tokens, Scalar.words_pieces indent count,
          Scalar.words_pieces 0 count]
    have hsource : words (clausePieces indent [.from] (source?.map (Source.pieces indent))) =
        leafTokens (clauseLeaves Source.leaves source?) := by
      cases source? with
      | none => rfl
      | some s => exact Source.words_pieces indent s
    have hfilter : words (clausePieces indent [.where] (filter?.map (Scalar.pieces indent))) =
        leafTokens (clauseLeaves Scalar.leaves filter?) := by
      cases filter? with
      | none => rfl
      | some e => exact Scalar.words_pieces indent e
    have hgroup : words (clausePieces indent [.group, .by]
          (groupKeys?.map fun keys => commaSeparated (Scalar.listPieces indent keys))) =
        leafTokens (clauseLeaves Scalar.listLeaves groupKeys?) := by
      cases groupKeys? with
      | none => rfl
      | some keys =>
        exact (words_commaSeparated _).trans (Scalar.words_listPieces indent keys)
    have hsort : words (clausePieces indent [.order, .by]
          (sortKeys?.map fun keys => commaSeparated (SortKey.listPieces indent keys))) =
        leafTokens (clauseLeaves SortKey.listLeaves sortKeys?) := by
      cases sortKeys? with
      | none => rfl
      | some keys =>
        exact (words_commaSeparated _).trans (SortKey.words_listPieces indent keys)
    have hwindow : words (clausePieces indent [.offset] (window?.map (Window.pieces indent))) =
        leafTokens (clauseLeaves Window.leaves window?) := by
      rcases window? with _ | ⟨offset, limit⟩
      · rfl
      · simp [clausePieces, clauseLeaves, Window.pieces, Window.leaves, Leaf.tokens,
          Scalar.words_pieces indent offset, Scalar.words_pieces 0 offset,
          Scalar.words_pieces indent limit, Scalar.words_pieces 0 limit]
    rw [Query.pieces_eq, Query.leaves_eq]
    cases distinct <;>
      simp [htop, hsource, hfilter, hgroup, hsort, hwindow, Projection.words_pieces indent projection]
termination_by structural q => q

end

end DocQuery
