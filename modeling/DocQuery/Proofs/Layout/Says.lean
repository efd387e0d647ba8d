import Mathlib.Data.List.Induction
import DocQuery.Proofs.Grammar.Follow
import DocQuery.Proofs.Layout.Nesting
import DocQuery.Proofs.Layout.Pieces

/-!
# The text of a tree says that tree

By the grammar, the tokens of a well-formed tree's pieces say the tree and nothing else, and take
the levels that `nesting` counts: `Query.said`, `Scalar.said`. The grammar's rules go by the level
at which a scalar binds, and the parentheses do too (`Scalar.Says.enclosed`).
-/

namespace DocQuery

open Grammar Piece

namespace Grammar

/-- A number stands wherever a scalar may. -/
theorem isScalar_zero (E : Phrase Scalar) (Q : Phrase Query) (level : Level) :
    ∃ links, IsScalar E Q level links [.integer 0] (.number (.integer 0)) 0 :=
  ⟨_, (IsScalar.literal (v := .number (.integer 0)) rfl).at level.rung_le_primary⟩

/-- A query of everything stands wherever a query may. -/
theorem isClauses_all (E : Phrase Scalar) (Q : Phrase Query) :
    IsClauses E Q [.keyword .select, .mark .star]
      ⟨false, none, .all, none, none, none, none, none⟩ 0 := by
  have h : IsClauses E Q _ ⟨false, none, .all, none, none, none, none, none⟩ 0 :=
    .mk .absent .all .absent .absent .absent .absent .absent
  exact h

end Grammar

section

variable {indent : Nat} {e : Scalar}

/-! ## Operands -/

/-- The tokens of a scalar's pieces say that scalar. -/
def Scalar.Says (e : Scalar) (indent : Nat) : Prop :=
  IsScalar IsExpression IsQuery e.level e.links (tokens (e.pieces indent)) e e.nesting

namespace Scalar.Says

theorem expression (h : e.Says indent) :
    IsExpression (tokens (e.pieces indent)) e (e.nesting + 1) :=
  have hat : IsScalar IsExpression IsQuery .conditional _ _ _ _ := IsScalar.at h (Nat.zero_le _)
  .nested hat

theorem parenthesized (h : e.Says indent) : IsScalar IsExpression IsQuery .primary 0
    (tokens (parenthesized (e.pieces indent))) e (e.nesting + 1) := by
  rw [tokens_parenthesized]
  exact .group h.expression

/-- An operand, with parentheses or without. -/
theorem enclosed (h : e.Says indent) (level : Level) :
    IsScalar IsExpression IsQuery level (if e.level = level then e.links else 0)
      (tokens (e.enclosed level (e.pieces indent))) e (e.enclosedNesting level e.nesting) := by
  unfold Scalar.enclosed enclosedNesting
  by_cases hlt : e.level.rung < level.rung
  · rw [if_pos hlt, if_pos hlt]
    have hne : e.level ≠ level := by
      rintro rfl
      exact Nat.lt_irrefl _ hlt
    rw [if_neg hne]
    have hat := h.parenthesized.at level.rung_le_primary
    rwa [ite_self] at hat
  · rw [if_neg hlt, if_neg hlt]
    exact h.at (Nat.not_lt.mp hlt)

end Scalar.Says

/-! ## Lists and clauses -/

section

variable {α : Type} {P : Phrase α}

theorem listOf_single {pieces : List Piece} {a : α} {n : Nat} (h : P (tokens pieces) a n) :
    ListOf P (tokens (commaSeparated [pieces])) [a] (max n 0) := by
  rw [commaSeparated_single, Nat.max_zero]
  exact .single h

theorem listOf_cons {pieces : List Piece} {rest : List (List Piece)} {a : α} {as : List α} {n m : Nat}
    (h : P (tokens pieces) a n) (hrest : rest ≠ [])
    (hs : ListOf P (tokens (commaSeparated rest)) as m) :
    ListOf P (tokens (commaSeparated (pieces :: rest))) (a :: as) (max n m) := by
  cases rest with
  | nil => exact absurd rfl hrest
  | cons next rest =>
    rw [commaSeparated_cons, tokens_append, tokens_mark, tokens_space]
    exact .cons h hs

theorem items_of {pieces : List (List Piece)} {as : List α} {n : Nat}
    (hnil : as = [] → pieces = [] ∧ n = 0)
    (h : as ≠ [] → ListOf P (tokens (commaSeparated pieces)) as n) :
    Items P (tokens (commaSeparated pieces)) as n := by
  by_cases has : as = []
  · obtain ⟨rfl, rfl⟩ := hnil has
    subst has
    exact .none
  · exact .some (h has)

theorem clause_of (indent : Nat) {words : List Keyword} {a? : Option α} {pieces : α → List Piece}
    {levels : α → Nat} (h : ∀ a ∈ a?, P (tokens (pieces a)) a (levels a)) :
    Clause words P (tokens (clausePieces indent words (a?.map pieces))) a? (a?.elim 0 levels) := by
  cases a? with
  | none => exact .absent
  | some a =>
    have ha := h a rfl
    simp only [Option.map_some, clausePieces, tokens_gap, tokens_append, tokens_wordPieces]
    exact .present ha

end

theorem isCount_of (h : e.isCount = true) : IsCount (tokens (e.pieces indent)) e 0 := by
  unfold Scalar.isCount at h
  split at h
  · rename_i a
    have htokens : tokens ((Scalar.literal (.number a)).pieces indent) = [a.token] :=
      tokens_number a []
    rw [htokens]
    exact .number h
  · exact .parameter h
  · cases h

theorem isWindow_of {w : Window} (h : w.isWellFormed = true) :
    IsWindow (tokens (w.pieces indent)) w 0 := by
  obtain ⟨ha, hb⟩ := Bool.and_eq_true_iff.mp h
  obtain ⟨a, b⟩ := w
  simp only [Window.pieces, tokens_append, tokens_space, tokens_keyword]
  exact .counts (isCount_of ha) (isCount_of hb)

theorem isAlias_of {alias? : Option String} (h : isAlias alias? = true) :
    IsAlias (tokens (aliasPieces alias?)) alias? 0 := by
  cases alias? with
  | none => exact .none
  | some name => exact .worded h

/-! ## Scalars -/

/-- Without a sign a literal binds tightest. -/
theorem level_literal {v : Literal} (h : v.isWellFormed = true) :
    (Scalar.literal v).level = .primary := by
  cases v with
  | number a =>
    have hsign : a.isNegative = false := by
      cases a with
      | integer n => exact decide_eq_false (Int.not_lt.mpr (of_decide_eq_true h))
      | double x => exact Bool.not_eq_true' _ ▸ (Bool.and_eq_true_iff.mp h).2
    simp [Scalar.level, hsign]
  | _ => rfl

theorem tokens_literal (v : Literal) : tokens ((Scalar.literal v).pieces indent) = [v.token] := by
  cases v with
  | number a => exact tokens_number a []
  | boolean b => cases b <;> rfl
  | _ => rfl

theorem says_literal {v : Literal} (h : v.isWellFormed = true) :
    (Scalar.literal v).Says indent := by
  have hspell : v.token.isSpellable = true := by
    cases v with
    | number a => cases a <;> exact h
    | boolean b => cases b <;> rfl
    | _ => rfl
  unfold Scalar.Says
  rw [tokens_literal, level_literal h]
  exact .literal hspell

theorem Scalar.Says.unary (h : e.Says indent) (op : UnaryOp) : (Scalar.unary op e).Says indent := by
  unfold Scalar.Says
  rw [tokens_unary]
  exact .unary (h.enclosed .unary)

variable {l r c a b : Scalar}

theorem says_binary {op : BinaryOp} (hop : op ≠ .coalesce) (hl : l.Says indent)
    (hr : r.Says indent) : (Scalar.binary op l r).Says indent := by
  unfold Scalar.Says
  simp only [Scalar.pieces, BinaryOp.pieces, tokens_append, tokens_space, tokens_token,
    List.append_assoc, List.cons_append, List.nil_append]
  exact .binary hop (hl.enclosed op.level) (hr.enclosed op.level.tighter)

theorem says_coalesce (hl : l.Says indent) (hr : r.Says indent) :
    (Scalar.coalesce l r).Says indent := by
  unfold Scalar.Says
  simp only [Scalar.pieces, BinaryOp.pieces, tokens_append, tokens_space, tokens_token,
    List.append_assoc, List.cons_append, List.nil_append]
  exact .coalesce (hl.enclosed .coalesce) (hr.enclosed .concat)

@[simp] theorem tokens_negation (negated : Bool) : tokens (negation negated) = notTokens negated := by
  cases negated <;> rfl

theorem says_between (hc : c.Says indent) (ha : a.Says indent) (hb : b.Says indent)
    (negated : Bool) : (Scalar.between c a b negated).Says indent := by
  unfold Scalar.Says
  simp only [Scalar.pieces, tokens_append, tokens_space, tokens_keyword, tokens_negation,
    List.append_assoc, List.cons_append, List.nil_append]
  exact .between (hc.enclosed .relational) (ha.enclosed .additive) (hb.enclosed .additive)

theorem says_conditional (hc : c.Says indent) (ha : a.Says indent) (hb : b.Says indent) :
    (Scalar.conditional c a b).Says indent := by
  unfold Scalar.Says
  simp only [Scalar.pieces, tokens_append, tokens_space, tokens_mark,
    List.append_assoc, List.cons_append, List.nil_append]
  exact .conditional (hc.enclosed .coalesce) ha.expression hb.expression

theorem says_among {es : List Scalar} (hc : c.Says indent)
    (hes : ListOf IsExpression (tokens (commaSeparated (Scalar.listPieces indent es))) es
      (Scalar.listNesting es)) (negated : Bool) : (Scalar.among c es negated).Says indent := by
  unfold Scalar.Says
  simp only [Scalar.pieces, tokens_append, tokens_space, tokens_keyword, tokens_negation,
    tokens_parenthesized, List.append_assoc, List.cons_append, List.nil_append]
  exact .among (hc.enclosed .relational) hes

theorem says_subquery {q : Query} (hq : IsQuery (tokens (q.pieces (indent + 1))) q q.nesting)
    (use : SubqueryUse) : (Scalar.subquery use q).Says indent := by
  have huse : tokens use.pieces = use.tokens := by cases use <;> rfl
  unfold Scalar.Says
  simp only [Scalar.pieces, subqueryPieces, tokens_append, tokens_gap, tokens_mark, tokens_nil, huse]
  exact .subquery hq

theorem says_call {function : String} (hfunction : isIdentifier function = true) {es : List Scalar}
    (hes : Items IsExpression (tokens (commaSeparated (Scalar.listPieces indent es))) es
      (Scalar.listNesting es)) (userDefined : Bool) :
    (Scalar.call function userDefined es).Says indent := by
  have hword : tokens (if userDefined then [.keyword .udf, .mark .dot] else []) =
      if userDefined then [.keyword .udf, .mark .dot] else [] := by
    cases userDefined <;> rfl
  unfold Scalar.Says
  simp only [Scalar.pieces, tokens_append, tokens_identifier, tokens_parenthesized, hword]
  exact .call hfunction hes

theorem says_index (ho : l.Says indent) (hi : r.Says indent) :
    (Scalar.index l r).Says indent := by
  unfold Scalar.Says
  simp only [Scalar.pieces, tokens_append, tokens_mark, tokens_nil]
  exact .index (ho.enclosed .primary) hi.expression

/-- The owner of a property: a number stands between parentheses. -/
theorem says_property {name : String} (ho : l.Says indent) (hname : isIdentifier name = true) :
    (Scalar.property l name).Says indent := by
  unfold Scalar.Says
  simp only [Scalar.pieces, tokens_append, tokens_mark, tokens_identifier, tokens_nil]
  have howner : IsScalar IsExpression IsQuery .primary
      (if l.level = .primary then l.links else 0)
      (tokens (if l.isNumber then parenthesized (l.pieces indent)
        else l.enclosed .primary (l.pieces indent))) l
      (if l.isNumber then l.nesting + 1 else l.enclosedNesting .primary l.nesting) := by
    by_cases hnumber : l.isNumber = true
    · have hlinks : l.links = 0 := by
        cases l <;> first | rfl | cases hnumber
      rw [if_pos hnumber, if_pos hnumber, hlinks, ite_self]
      exact ho.parenthesized
    · rw [if_neg hnumber, if_neg hnumber]
      exact ho.enclosed .primary
  exact .property howner hname

theorem says_array {es : List Scalar}
    (hes : Items IsExpression (tokens (commaSeparated (Scalar.listPieces indent es))) es
      (Scalar.listNesting es)) : (Scalar.array es).Says indent := by
  unfold Scalar.Says
  simp only [Scalar.pieces, tokens_append, tokens_mark, tokens_nil]
  exact .array hes

theorem says_object {fields : List Field}
    (hfields : Items (IsField IsExpression) (tokens (commaSeparated (Field.listPieces indent fields)))
      fields (Field.listNesting fields)) : (Scalar.object fields).Says indent := by
  unfold Scalar.Says
  simp only [Scalar.pieces, tokens_append, tokens_mark, tokens_nil]
  exact .object hfields

/-! ## Sources -/

theorem isPath_of {segments : List Segment} (h : segments.all Segment.isWellFormed = true) :
    IsPath (tokens (segments.flatMap Segment.pieces)) segments segments.length := by
  induction segments using List.reverseRecOn with
  | nil => exact .nil
  | append_singleton segments segment ih =>
    rw [List.all_append, Bool.and_eq_true] at h
    have hsegment : segment.isWellFormed = true := by simpa using h.2
    rw [List.flatMap_append, tokens_append, List.length_append]
    cases segment with
    | name identifier => exact .name (ih h.1) hsegment
    | number a =>
      have htokens : tokens ([Segment.number a].flatMap Segment.pieces) =
          [.mark .leftBracket, a.token, .mark .rightBracket] := by
        cases a <;> rfl
      rw [htokens]
      exact .number (ih h.1) hsegment
    | string s => exact .string (ih h.1)

theorem operand_of_joined {links : Nat} {s : Source} {ts : List Token} {n : Nat}
    (h : IsJoined IsExpression IsQuery links ts s n) (hs : s.isJoin = false) :
    IsOperand IsExpression IsQuery ts s n := by
  cases h with
  | operand h => exact h
  | join _ _ => cases hs

/-! ## Clauses -/

theorem isField_of (h : e.Says indent) (key : String) : IsField IsExpression
    (tokens (.token (.string key) :: .mark .colon :: .space :: e.pieces indent)) ⟨key, e⟩
    (e.nesting + 1) := .mk h.expression

theorem isSelectItem_of (h : e.Says indent) {alias? : Option String} (halias : isAlias alias? = true) :
    IsSelectItem IsExpression (tokens (e.pieces indent ++ aliasPieces alias?)) ⟨e, alias?⟩
      (e.nesting + 1) := by
  rw [tokens_append]
  exact .mk h.expression (isAlias_of halias)

theorem isSortKey_of (h : e.Says indent) (descending : Bool) : IsSortKey IsExpression
    (tokens (e.pieces indent ++ if descending then [.space, .keyword .desc] else []))
    ⟨e, descending⟩ (e.nesting + 1) := by
  rw [tokens_append]
  cases descending
  · simpa using .plain h.expression
  · exact .descending h.expression

theorem isQuery_of {q : Query} (htop : ∀ e ∈ q.top?, e.isCount = true)
    (hprojection : IsProjection IsExpression (tokens (q.projection.pieces indent)) q.projection
      q.projection.nesting)
    (hsource : ∀ s ∈ q.source?,
      IsSource IsExpression IsQuery (tokens (s.pieces indent)) s s.nesting)
    (hfilter : ∀ e ∈ q.filter?, IsExpression (tokens (e.pieces indent)) e (e.nesting + 1))
    (hgroup : ∀ keys ∈ q.groupKeys?,
      ListOf IsExpression (tokens (commaSeparated (Scalar.listPieces indent keys))) keys
        (Scalar.listNesting keys))
    (hsort : ∀ keys ∈ q.sortKeys?,
      ListOf (IsSortKey IsExpression) (tokens (commaSeparated (SortKey.listPieces indent keys))) keys
        (SortKey.listNesting keys))
    (hwindow : ∀ w ∈ q.window?, w.isWellFormed = true) :
    IsQuery (tokens (q.pieces indent)) q q.nesting := by
  have htop : Clause [.top] IsCount (tokens (topPieces indent q.top?)) q.top? 0 := by
    cases htop? : q.top? with
    | none => exact .absent
    | some e =>
      simp only [topPieces, tokens_keyword, tokens_space, tokens_append, tokens_nil, List.append_nil]
      exact .present (isCount_of (htop e htop?))
  have hwindow : Clause [.offset] IsWindow
      (tokens (clausePieces indent [.offset] (q.window?.map (Window.pieces indent)))) q.window? 0 := by
    cases hwindow? : q.window? with
    | none => exact .absent
    | some w =>
      simp only [Option.map_some, clausePieces, tokens_gap, tokens_append, tokens_wordPieces]
      exact .present (isWindow_of (hwindow w hwindow?))
  have hdistinct : tokens (if q.distinct then [.keyword .distinct, .space] else []) =
      if q.distinct then [.keyword .distinct] else [] := by
    cases q.distinct <;> rfl
  rw [Query.pieces_eq, Query.nesting_eq]
  simp only [tokens_keyword, tokens_space, tokens_append, hdistinct]
  obtain ⟨distinct, top?, projection, source?, filter?, groupKeys?, sortKeys?, window?⟩ := q
  have hclauses : IsClauses IsExpression IsQuery _ ⟨distinct, top?, projection, source?, filter?,
      groupKeys?, sortKeys?, window?⟩ _ :=
    .mk htop hprojection (clause_of indent hsource) (clause_of indent hfilter)
      (clause_of indent hgroup) (clause_of indent hsort) hwindow
  exact .nested hclauses

end

/-! ## Trees -/

mutual

/-- The text of a well-formed scalar says it. -/
theorem Scalar.said (indent : Nat) : (e : Scalar) → e.isWellFormed = true → e.Says indent
  | .literal v, h => says_literal h
  | .unary op operand, h => (Scalar.said indent operand h).unary op
  | .binary op left right, h => by
    simp only [Scalar.isWellFormed, Bool.and_eq_true, bne_iff_ne] at h
    exact says_binary h.1.1 (Scalar.said indent left h.1.2) (Scalar.said indent right h.2)
  | .between subject low high negated, h => by
    simp only [Scalar.isWellFormed, Bool.and_eq_true] at h
    exact says_between (Scalar.said indent subject h.1.1) (Scalar.said indent low h.1.2)
      (Scalar.said indent high h.2) negated
  | .conditional condition consequent alternative, h => by
    simp only [Scalar.isWellFormed, Bool.and_eq_true] at h
    exact says_conditional (Scalar.said indent condition h.1.1)
      (Scalar.said indent consequent h.1.2) (Scalar.said indent alternative h.2)
  | .coalesce left right, h => by
    simp only [Scalar.isWellFormed, Bool.and_eq_true] at h
    exact says_coalesce (Scalar.said indent left h.1) (Scalar.said indent right h.2)
  | .among subject items negated, h => by
    simp only [Scalar.isWellFormed, Bool.and_eq_true, Bool.not_eq_true', List.isEmpty_eq_false_iff]
      at h
    exact says_among (Scalar.said indent subject h.1.1) (Scalar.listSays indent items h.2 h.1.2)
      negated
  | .subquery use query, h => says_subquery (Query.said (indent + 1) query h) use
  | .call function userDefined arguments, h => by
    simp only [Scalar.isWellFormed, Bool.and_eq_true] at h
    exact says_call h.1 (items_of (fun hnil => hnil ▸ ⟨rfl, rfl⟩)
      (Scalar.listSays indent arguments h.2)) userDefined
  | .index owner i, h => by
    simp only [Scalar.isWellFormed, Bool.and_eq_true] at h
    exact says_index (Scalar.said indent owner h.1) (Scalar.said indent i h.2)
  | .name identifier, h => .name h
  | .property owner identifier, h => by
    simp only [Scalar.isWellFormed, Bool.and_eq_true] at h
    exact says_property (Scalar.said indent owner h.1) h.2
  | .parameter name, h => .parameter h
  | .array items, h => says_array (items_of (fun hnil => hnil ▸ ⟨rfl, rfl⟩)
      (Scalar.listSays indent items h))
  | .object fields, h => says_object (items_of (fun hnil => hnil ▸ ⟨rfl, rfl⟩)
      (Field.listSays indent fields h))

theorem Scalar.listSays (indent : Nat) : (es : List Scalar) → Scalar.allWellFormed es = true →
    es ≠ [] → ListOf IsExpression (tokens (commaSeparated (Scalar.listPieces indent es))) es
      (Scalar.listNesting es)
  | [], _, hne => absurd rfl hne
  | [e], h, _ => by
    simp only [Scalar.allWellFormed, Bool.and_eq_true] at h
    exact listOf_single (Scalar.said indent e h.1).expression
  | e :: next :: rest, h, _ => by
    rw [Scalar.allWellFormed, Bool.and_eq_true] at h
    exact listOf_cons (Scalar.said indent e h.1).expression nofun
      (Scalar.listSays indent (next :: rest) h.2 nofun)

theorem Field.listSays (indent : Nat) : (fields : List Field) → Field.allWellFormed fields = true →
    fields ≠ [] → ListOf (IsField IsExpression)
      (tokens (commaSeparated (Field.listPieces indent fields))) fields (Field.listNesting fields)
  | [], _, hne => absurd rfl hne
  | [⟨key, value⟩], h, _ => by
    simp only [Field.allWellFormed, Bool.and_eq_true] at h
    exact listOf_single (isField_of (Scalar.said indent value h.1) key)
  | ⟨key, value⟩ :: next :: rest, h, _ => by
    rw [Field.allWellFormed, Bool.and_eq_true] at h
    exact listOf_cons (isField_of (Scalar.said indent value h.1) key) (by cases next; nofun)
      (Field.listSays indent (next :: rest) h.2 nofun)

theorem SelectItem.listSays (indent : Nat) : (items : List SelectItem) →
    SelectItem.allWellFormed items = true → items ≠ [] → ListOf (IsSelectItem IsExpression)
      (tokens (commaSeparated (SelectItem.listPieces indent items))) items
      (SelectItem.listNesting items)
  | [], _, hne => absurd rfl hne
  | [⟨e, alias?⟩], h, _ => by
    simp only [SelectItem.allWellFormed, Bool.and_eq_true] at h
    exact listOf_single (isSelectItem_of (Scalar.said indent e h.1.1) h.1.2)
  | ⟨e, alias?⟩ :: next :: rest, h, _ => by
    rw [SelectItem.allWellFormed, Bool.and_eq_true, Bool.and_eq_true] at h
    exact listOf_cons (isSelectItem_of (Scalar.said indent e h.1.1) h.1.2) (by cases next; nofun)
      (SelectItem.listSays indent (next :: rest) h.2 nofun)

theorem SortKey.listSays (indent : Nat) : (keys : List SortKey) → SortKey.allWellFormed keys = true →
    keys ≠ [] → ListOf (IsSortKey IsExpression)
      (tokens (commaSeparated (SortKey.listPieces indent keys))) keys (SortKey.listNesting keys)
  | [], _, hne => absurd rfl hne
  | [⟨e, descending⟩], h, _ => by
    simp only [SortKey.allWellFormed, Bool.and_eq_true] at h
    exact listOf_single (isSortKey_of (Scalar.said indent e h.1) descending)
  | ⟨e, descending⟩ :: next :: rest, h, _ => by
    rw [SortKey.allWellFormed, Bool.and_eq_true] at h
    exact listOf_cons (isSortKey_of (Scalar.said indent e h.1) descending) (by cases next; nofun)
      (SortKey.listSays indent (next :: rest) h.2 nofun)

theorem Projection.said (indent : Nat) : (p : Projection) → p.isWellFormed = true →
    IsProjection IsExpression (tokens (p.pieces indent)) p p.nesting
  | .all, _ => .all
  | .items items, h => by
    simp only [Projection.isWellFormed, Bool.and_eq_true, Bool.not_eq_true',
      List.isEmpty_eq_false_iff] at h
    exact .items (SelectItem.listSays indent items h.2 h.1)
  | .value e, h => .value (Scalar.said indent e h).expression

theorem Collection.said (indent : Nat) : (c : Collection) → c.isWellFormed = true →
    IsCollection IsExpression IsQuery (tokens (c.pieces indent)) c c.nesting
  | .path input segments, h => by
    simp only [Collection.isWellFormed, Bool.and_eq_true] at h
    exact .path h.1 (isPath_of h.2)
  | .subquery query, h => by
    have hquery := Query.said (indent + 1) query h
    simp only [Collection.pieces, subqueryPieces, tokens_append, tokens_gap, tokens_mark, tokens_nil]
    exact .subquery hquery
  | .array items, h => by
    simp only [Collection.isWellFormed, Bool.and_eq_true, Bool.not_eq_true',
      List.isEmpty_eq_false_iff] at h
    have hitems := Scalar.listSays indent items h.2 h.1
    simp only [Collection.pieces, tokens_append, tokens_mark, tokens_nil]
    exact .array hitems

theorem Source.said (indent : Nat) : (s : Source) → s.isWellFormed = true →
    IsJoined IsExpression IsQuery s.links (tokens (s.pieces indent)) s s.nesting
  | .aliased collection alias?, h => by
    simp only [Source.isWellFormed, Bool.and_eq_true] at h
    have hcollection := Collection.said indent collection h.1
    rw [Source.pieces, tokens_append]
    exact .operand (.aliased hcollection (isAlias_of h.2))
  | .each element collection, h => by
    simp only [Source.isWellFormed, Bool.and_eq_true] at h
    exact .operand (.each h.1 (Collection.said indent collection h.2))
  | .join left right, h => by
    simp only [Source.isWellFormed, Bool.and_eq_true, Bool.not_eq_true'] at h
    have hleft := Source.said indent left h.1.1
    have hright := Source.said indent right h.2
    simp only [Source.pieces, tokens_append, tokens_space, tokens_keyword, List.append_assoc,
      List.cons_append, List.nil_append]
    exact .join hleft (operand_of_joined hright h.1.2)

/-- The text of a well-formed query says it. -/
theorem Query.said (indent : Nat) : (q : Query) → q.isWellFormed = true →
    IsQuery (tokens (q.pieces indent)) q q.nesting
  | ⟨_, top?, projection, source?, filter?, groupKeys?, sortKeys?, window?⟩, h => by
    rw [Query.isWellFormed_eq] at h
    simp only [Bool.and_eq_true] at h
    obtain ⟨⟨⟨⟨⟨⟨htop, hprojection⟩, hsource⟩, hfilter⟩, hgroup⟩, hsort⟩, hwindow⟩ := h
    refine isQuery_of (fun e he => ?top) (Projection.said indent projection hprojection) ?source
      ?filter ?group ?sort (fun w hw => ?window)
    case top =>
      cases he
      exact htop
    case source =>
      cases source? with
      | none => nofun
      | some s =>
        rintro _ ⟨⟩
        exact .mk (Source.said indent s hsource)
    case filter =>
      cases filter? with
      | none => nofun
      | some e =>
        rintro _ ⟨⟩
        exact (Scalar.said indent e hfilter).expression
    case group =>
      cases groupKeys? with
      | none => nofun
      | some keys =>
        rintro _ ⟨⟩
        simp only [Option.all_some, Bool.and_eq_true, Bool.not_eq_true', List.isEmpty_eq_false_iff]
          at hgroup
        exact Scalar.listSays indent keys hgroup.2 hgroup.1
    case sort =>
      cases sortKeys? with
      | none => nofun
      | some keys =>
        rintro _ ⟨⟩
        simp only [Option.all_some, Bool.and_eq_true, Bool.not_eq_true', List.isEmpty_eq_false_iff]
          at hsort
        exact SortKey.listSays indent keys hsort.2 hsort.1
    case window =>
      cases hw
      exact hwindow

end

end DocQuery
