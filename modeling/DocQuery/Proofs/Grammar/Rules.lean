import DocQuery.Proofs.Token.Spelling
import DocQuery.Tree.Basic

/-!
# The grammar of query text

Which tokens make up which tree, as a relation between the two, without a word on how it is found
out. A `Phrase` says besides how many levels of nesting its tokens take: one for each expression and
each query inside another, one for each prefix operator, and in a chain of infix operators, accesses
or joins as many for an operand as there are links before it.

* `IsScalar E Q level links`: scalars that bind at `level`, with `links` links in the chain of that
  level. `E` and `Q` are the phrases that stand between brackets: whole expressions and queries.
* `IsClauses E Q`: the clauses of a query, in their order.
* `IsExpression`, `IsQuery`: the two taken together.
-/

namespace DocQuery

/-! ## Tokens of leaves -/

/-- The token of a number. -/
def Number.token : Number → Token
  | .integer n => .integer n
  | .double x => .double x

/-- The token of a literal. -/
def Literal.token : Literal → Token
  | .null => .keyword .null
  | .undefined => .keyword .undefined
  | .boolean true => .keyword .true
  | .boolean false => .keyword .false
  | .number n => n.token
  | .string s => .string s

/-- The word before the parentheses of a subquery. -/
def SubqueryUse.tokens : SubqueryUse → List Token
  | .exists => [.keyword .exists]
  | .array => [.keyword .array]
  | .value => []

namespace Grammar

/-- Tokens, the tree that they say, and the levels of nesting that this takes. -/
abbrev Phrase (α : Type) : Type := List Token → α → Nat → Prop

section

variable {α : Type}

/-! ## Lists and clauses -/

/-- One item or more between commas. -/
inductive ListOf (item : Phrase α) : Phrase (List α)
  | single {ts a n} (h : item ts a n) : ListOf item ts [a] n
  | cons {ts us a as n m} (h : item ts a n) (hs : ListOf item us as m) :
    ListOf item (ts ++ .mark .comma :: us) (a :: as) (max n m)

/-- Items between commas, or nothing. -/
inductive Items (item : Phrase α) : Phrase (List α)
  | none : Items item [] [] 0
  | some {ts as n} (h : ListOf item ts as n) : Items item ts as n

/-- A part that some words begin, or nothing. -/
inductive Clause (words : List Keyword) (body : Phrase α) : Phrase (Option α)
  | absent : Clause words body [] none 0
  | present {ts a n} (h : body ts a n) : Clause words body (words.map .keyword ++ ts) (some a) n

end

/-- The count of a `TOP`, `OFFSET` or `LIMIT`. -/
inductive IsCount : Phrase Scalar
  | number {a : Number} (h : a.isPlain = true) : IsCount [a.token] (.number a) 0
  | parameter {name} (h : isName name = true) : IsCount [.parameter name] (.parameter name) 0

/-- `AS name`, a bare name, or nothing. -/
inductive IsAlias : Phrase (Option String)
  | none : IsAlias [] none 0
  | bare {name} (h : isIdentifier name = true) : IsAlias [.identifier name] (some name) 0
  | worded {name} (h : isIdentifier name = true) :
    IsAlias [.keyword .as, .identifier name] (some name) 0

/-- The counts behind `OFFSET`. -/
inductive IsWindow : Phrase Window
  | counts {ts us a b} (ha : IsCount ts a 0) (hb : IsCount us b 0) :
    IsWindow (ts ++ .keyword .limit :: us) ⟨a, b⟩ 0

/-- The steps of a path, each one level deeper than those before it. -/
inductive IsPath : Phrase (List Segment)
  | nil : IsPath [] [] 0
  | name {ts segments n name} (h : IsPath ts segments n) (hname : isIdentifier name = true) :
    IsPath (ts ++ [.mark .dot, .identifier name]) (segments ++ [.name name]) (n + 1)
  | number {ts segments n a} (h : IsPath ts segments n) (ha : Number.isPlain a = true) :
    IsPath (ts ++ [.mark .leftBracket, a.token, .mark .rightBracket]) (segments ++ [.number a])
      (n + 1)
  | string {ts segments n s} (h : IsPath ts segments n) :
    IsPath (ts ++ [.mark .leftBracket, .string s, .mark .rightBracket]) (segments ++ [.string s])
      (n + 1)

/-! ## Scalars -/

section

variable (E : Phrase Scalar) (Q : Phrase Query)

/-- `"key": value` -/
inductive IsField : Phrase Field
  | mk {ts key e n} (h : E ts e n) : IsField (.string key :: .mark .colon :: ts) ⟨key, e⟩ n

/-- The `NOT` before `BETWEEN` and `IN`. -/
def notTokens (negated : Bool) : List Token := if negated then [.keyword .not] else []

/-- Scalars that bind at a level or tighter, with `links` links in the chain of that very level. -/
inductive IsScalar : Level → (links : Nat) → Phrase Scalar
  /-- What binds tighter stands for itself. -/
  | lift {level links ts e n} (hlevel : level ≠ .primary)
    (h : IsScalar level.tighter links ts e n) : IsScalar level 0 ts e n
  | conditional {links ts us vs c a b n m p} (hc : IsScalar .coalesce links ts c n)
    (ha : E us a m) (hb : E vs b p) :
    IsScalar .conditional 0 (ts ++ .mark .question :: (us ++ .mark .colon :: vs))
      (.conditional c a b) (max n (max m p))
  | coalesce {links j ts us l r n m} (hl : IsScalar .coalesce links ts l n)
    (hr : IsScalar .concat j us r m) :
    IsScalar .coalesce (links + 1) (ts ++ .mark .doubleQuestion :: us) (.coalesce l r)
      (max n (links + 1 + m))
  | binary {op : BinaryOp} {links j ts us l r n m} (hop : op ≠ .coalesce)
    (hl : IsScalar op.level links ts l n) (hr : IsScalar op.level.tighter j us r m) :
    IsScalar op.level (links + 1) (ts ++ op.token :: us) (.binary op l r) (max n (links + 1 + m))
  | between {links i j ts us vs s l h n m p negated} (hs : IsScalar .relational links ts s n)
    (hl : IsScalar .additive i us l m) (hh : IsScalar .additive j vs h p) :
    IsScalar .relational (links + 1)
      (ts ++ (notTokens negated ++ .keyword .between :: (us ++ .keyword .and :: vs)))
      (.between s l h negated) (max n (links + 1 + max m p))
  | among {links ts us s es n m negated} (hs : IsScalar .relational links ts s n)
    (hes : ListOf E us es m) :
    IsScalar .relational (links + 1)
      (ts ++ (notTokens negated ++ .keyword .in :: .mark .leftParen :: (us ++ [.mark .rightParen])))
      (.among s es negated) (max n (links + 1 + m))
  | unary {op : UnaryOp} {links ts e n} (h : IsScalar .unary links ts e n) :
    IsScalar .unary 0 (op.token :: ts) (.unary op e) (n + 1)
  | property {links ts o name n} (ho : IsScalar .primary links ts o n)
    (hname : isIdentifier name = true) :
    IsScalar .primary (links + 1) (ts ++ [.mark .dot, .identifier name]) (.property o name)
      (max n (links + 1))
  | index {links ts us o e n m} (ho : IsScalar .primary links ts o n) (he : E us e m) :
    IsScalar .primary (links + 1) (ts ++ .mark .leftBracket :: (us ++ [.mark .rightBracket]))
      (.index o e) (max n (links + 1 + m))
  | literal {v : Literal} (h : v.token.isSpellable = true) :
    IsScalar .primary 0 [v.token] (.literal v) 0
  | parameter {name} (h : isName name = true) :
    IsScalar .primary 0 [.parameter name] (.parameter name) 0
  | name {name} (h : isIdentifier name = true) :
    IsScalar .primary 0 [.identifier name] (.name name) 0
  | group {ts e n} (h : E ts e n) :
    IsScalar .primary 0 (.mark .leftParen :: (ts ++ [.mark .rightParen])) e n
  | call {function userDefined ts es n} (hname : isIdentifier function = true)
    (hes : Items E ts es n) :
    IsScalar .primary 0 ((if userDefined then [.keyword .udf, .mark .dot] else []) ++
      .identifier function :: .mark .leftParen :: (ts ++ [.mark .rightParen]))
      (.call function userDefined es) n
  | array {ts es n} (hes : Items E ts es n) :
    IsScalar .primary 0 (.mark .leftBracket :: (ts ++ [.mark .rightBracket])) (.array es) n
  | object {ts fields n} (hfields : Items (IsField E) ts fields n) :
    IsScalar .primary 0 (.mark .leftBrace :: (ts ++ [.mark .rightBrace])) (.object fields) n
  | subquery {use : SubqueryUse} {ts q n} (hq : Q ts q n) :
    IsScalar .primary 0 (use.tokens ++ .mark .leftParen :: (ts ++ [.mark .rightParen]))
      (.subquery use q) n

/-! ## Clauses -/

/-- `expression [AS alias]` -/
inductive IsSelectItem : Phrase SelectItem
  | mk {ts us e alias? n} (he : E ts e n) (halias : IsAlias us alias? 0) :
    IsSelectItem (ts ++ us) ⟨e, alias?⟩ n

/-- What stands behind `SELECT [DISTINCT] [TOP count]`. -/
inductive IsProjection : Phrase Projection
  | all : IsProjection [.mark .star] .all 0
  | value {ts e n} (he : E ts e n) : IsProjection (.keyword .value :: ts) (.value e) n
  | items {ts is n} (h : ListOf (IsSelectItem E) ts is n) : IsProjection ts (.items is) n

/-- `expression [ASC | DESC]` -/
inductive IsSortKey : Phrase SortKey
  | plain {ts e n} (he : E ts e n) : IsSortKey ts ⟨e, false⟩ n
  | ascending {ts e n} (he : E ts e n) : IsSortKey (ts ++ [.keyword .asc]) ⟨e, false⟩ n
  | descending {ts e n} (he : E ts e n) : IsSortKey (ts ++ [.keyword .desc]) ⟨e, true⟩ n

/-- A collection: an input with a path, a subquery, or an array that is not empty. -/
inductive IsCollection : Phrase Collection
  | path {input ts segments n} (hinput : isIdentifier input = true) (h : IsPath ts segments n) :
    IsCollection (.identifier input :: ts) (.path input segments) n
  | subquery {ts q n} (hq : Q ts q n) :
    IsCollection (.mark .leftParen :: (ts ++ [.mark .rightParen])) (.subquery q) n
  | array {ts es n} (hes : ListOf E ts es n) :
    IsCollection (.mark .leftBracket :: (ts ++ [.mark .rightBracket])) (.array es) n

/-- An operand of a `JOIN`. -/
inductive IsOperand : Phrase Source
  | each {name ts c n} (hname : isIdentifier name = true) (hc : IsCollection E Q ts c n) :
    IsOperand (.identifier name :: .keyword .in :: ts) (.each name c) n
  | aliased {ts us c alias? n} (hc : IsCollection E Q ts c n) (halias : IsAlias us alias? 0) :
    IsOperand (ts ++ us) (.aliased c alias?) n

/-- Operands joined from the left. -/
inductive IsJoined : (links : Nat) → Phrase Source
  | operand {ts s n} (h : IsOperand E Q ts s n) : IsJoined 0 ts s n
  | join {links ts us l r n m} (hl : IsJoined links ts l n) (hr : IsOperand E Q us r m) :
    IsJoined (links + 1) (ts ++ .keyword .join :: us) (.join l r) (max n (links + 1 + m))

/-- What a `FROM` clause ranges over. -/
inductive IsSource : Phrase Source
  | mk {links ts s n} (h : IsJoined E Q links ts s n) : IsSource ts s n

/-- The clauses of a query. -/
inductive IsClauses : Phrase Query
  | mk {distinct top? projection source? filter? groupKeys? sortKeys? window?
      ts₁ ts₂ ts₃ ts₄ ts₅ ts₆ ts₇ n₂ n₃ n₄ n₅ n₆}
    (htop : Clause [.top] IsCount ts₁ top? 0)
    (hprojection : IsProjection E ts₂ projection n₂)
    (hsource : Clause [.from] (IsSource E Q) ts₃ source? n₃)
    (hfilter : Clause [.where] E ts₄ filter? n₄)
    (hgroup : Clause [.group, .by] (ListOf E) ts₅ groupKeys? n₅)
    (hsort : Clause [.order, .by] (ListOf (IsSortKey E)) ts₆ sortKeys? n₆)
    (hwindow : Clause [.offset] IsWindow ts₇ window? 0) :
    IsClauses (.keyword .select :: ((if distinct then [.keyword .distinct] else []) ++
        (ts₁ ++ (ts₂ ++ (ts₃ ++ (ts₄ ++ (ts₅ ++ (ts₆ ++ ts₇))))))))
      { distinct, top?, projection, source?, filter?, groupKeys?, sortKeys?, window? }
      (max n₂ (max n₃ (max n₄ (max n₅ n₆))))

end

/-! ## The whole grammar -/

mutual

/-- A whole expression: the loosest level, one level of nesting deeper. -/
inductive IsExpression : Phrase Scalar
  | nested {links ts e n} (h : IsScalar IsExpression IsQuery .conditional links ts e n) :
    IsExpression ts e (n + 1)

/-- A query, one level of nesting deeper. -/
inductive IsQuery : Phrase Query
  | nested {ts q n} (h : IsClauses IsExpression IsQuery ts q n) : IsQuery ts q (n + 1)

end

end Grammar

end DocQuery
