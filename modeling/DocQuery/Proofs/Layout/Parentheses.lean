import Mathlib.Data.List.Chain
import DocQuery.Proofs.Grammar.Regular
import DocQuery.Proofs.Layout.Point
import DocQuery.Proofs.Layout.Says

/-!
# No text of a tree has fewer parentheses

The grammar lets a tree be written in many ways. However it is written, it has as many points as its
pieces, and as many opening parentheses at least, unless a number stands directly in front of a point:
`covers_expression`, `covers_query`.

* `Covers ts us`: so the tokens `ts` and `us` compare. `Covers.append` and `Covers.cons` put
  comparisons together as the rules of the grammar put tokens together.
-/

namespace DocQuery

open Piece

@[simp] theorem Token.isNumber_number (a : Number) : a.token.isNumber = true := by
  cases a <;> rfl

/-- No number stands directly in front of a point. -/
def NumbersApart (ts : List Token) : Prop :=
  ts.IsChain fun t u => t.isNumber = true → u ≠ .mark .dot

theorem NumbersApart.of_append {ts us : List Token} (h : NumbersApart (ts ++ us)) :
    NumbersApart ts ∧ NumbersApart us := by
  obtain ⟨hts, hus, -⟩ := List.isChain_append.mp h
  exact ⟨hts, hus⟩

/-- The tokens `ts` have as many points as `us`, and as many opening parentheses at least, unless a
number stands in front of a point. -/
structure Covers (ts us : List Token) : Prop where
  points : ts.count (.mark .dot) = us.count (.mark .dot)
  parens : NumbersApart ts → us.count (.mark .leftParen) ≤ ts.count (.mark .leftParen)

/-- Where anything may stand no operand has parentheses. -/
theorem Scalar.enclosed_conditional (e : Scalar) (ps : List Piece) :
    e.enclosed .conditional ps = ps := if_neg (Nat.not_lt_zero _)

namespace Covers

variable {ts us vs ws : List Token} {ps : List Piece}

theorem refl (ts : List Token) : Covers ts ts := ⟨rfl, fun _ => Nat.le_refl _⟩

theorem append (h : Covers ts us) (h' : Covers vs ws) : Covers (ts ++ vs) (us ++ ws) where
  points := by rw [List.count_append, List.count_append, h.points, h'.points]
  parens hapart := by
    rw [List.count_append, List.count_append]
    exact Nat.add_le_add (h.parens hapart.of_append.1) (h'.parens hapart.of_append.2)

theorem cons (t : Token) (h : Covers ts us) : Covers (t :: ts) (t :: us) := (refl [t]).append h

/-- Parentheses that are not written. -/
theorem unparenthesized (h : Covers ts (tokens (parenthesized ps))) : Covers ts (tokens ps) where
  points := by
    rw [h.points, tokens_parenthesized]
    simp
  parens hapart := by
    have hle := h.parens hapart
    rw [tokens_parenthesized] at hle
    simp only [List.count_cons, List.count_append] at hle
    omega

/-- An operand covered with parentheses is so whether or not it has any. -/
theorem enclosed_of_parenthesized (h : Covers ts (tokens (parenthesized ps))) (e : Scalar)
    (level : Level) : Covers ts (tokens (e.enclosed level ps)) := by
  unfold Scalar.enclosed
  split
  · exact h
  · exact h.unparenthesized

/-- Where a looser operand may stand there are no more parentheses. -/
theorem loosen {e : Scalar} {level level' : Level} (h : Covers ts (tokens (e.enclosed level' ps)))
    (hrung : level.rung ≤ level'.rung) : Covers ts (tokens (e.enclosed level ps)) := by
  by_cases hlt : e.level.rung < level'.rung
  · rw [Scalar.enclosed, if_pos hlt] at h
    exact h.enclosed_of_parenthesized e level
  · rw [Scalar.enclosed, if_neg hlt] at h
    rwa [Scalar.enclosed, if_neg fun h => hlt (Nat.lt_of_lt_of_le h hrung)]

/-- At its own level an operand has no parentheses. -/
theorem here {e : Scalar} {level : Level} (hlevel : e.level = level)
    (h : Covers ts (tokens ps)) : Covers ts (tokens (e.enclosed level ps)) := by
  rw [Scalar.enclosed, hlevel, if_neg (Nat.lt_irrefl _)]
  exact h

end Covers

namespace Grammar

section

variable {α : Type} {P : Phrase α} {pieces : α → List Piece} {ts : List Token} {n indent : Nat}

/-! ## Lists and clauses -/

theorem ListOf.covers {as} (h : ListOf P ts as n)
    (hP : ∀ ⦃ts a n⦄, P ts a n → Covers ts (tokens (pieces a))) :
    Covers ts (tokens (commaSeparated (as.map pieces))) := by
  induction h with
  | single h =>
    rw [List.map_singleton, commaSeparated_single]
    exact hP h
  | @cons _ _ _ as _ _ h hs ih =>
    obtain ⟨b, bs, rfl⟩ : ∃ b bs, as = b :: bs := by cases hs <;> exact ⟨_, _, rfl⟩
    rw [List.map_cons, List.map_cons, commaSeparated_cons, tokens_append, tokens_mark, tokens_space]
    exact (hP h).append (ih.cons _)

theorem Items.covers {as} (h : Items P ts as n)
    (hP : ∀ ⦃ts a n⦄, P ts a n → Covers ts (tokens (pieces a))) :
    Covers ts (tokens (commaSeparated (as.map pieces))) := by
  cases h with
  | none => exact .refl _
  | some h => exact h.covers hP

theorem Clause.covers {words a?} (h : Clause words P ts a? n)
    (hP : ∀ ⦃ts a n⦄, P ts a n → Covers ts (tokens (pieces a))) :
    Covers ts (tokens (clausePieces indent words (a?.map pieces))) := by
  cases h with
  | absent => exact .refl _
  | present h =>
    simp only [Option.map_some, clausePieces, tokens_gap, tokens_append, tokens_wordPieces]
    exact (Covers.refl _).append (hP h)

theorem IsCount.covers {e} (h : IsCount ts e n) : Covers ts (tokens (e.pieces indent)) := by
  cases h with
  | number ha =>
    rw [Scalar.number, tokens_literal]
    exact .refl _
  | parameter hname => exact .refl _

theorem IsAlias.covers {alias?} (h : IsAlias ts alias? n) : Covers ts (tokens (aliasPieces alias?)) := by
  cases h with
  | none => exact .refl _
  | bare hname => exact ⟨rfl, fun _ => Nat.le_refl _⟩
  | worded hname => exact .refl _

theorem IsWindow.covers {w} (h : IsWindow ts w n) : Covers ts (tokens (w.pieces indent)) := by
  cases h with
  | counts ha hb =>
    simp only [Window.pieces, tokens_append, tokens_space, tokens_keyword]
    exact ha.covers.append (hb.covers.cons _)

theorem IsPath.covers {segments} (h : IsPath ts segments n) :
    Covers ts (tokens (segments.flatMap Segment.pieces)) := by
  induction h with
  | nil => exact .refl _
  | name _ hname ih =>
    rw [List.flatMap_append, tokens_append]
    exact ih.append (.refl _)
  | @number _ _ _ a _ ha ih =>
    have htokens : tokens ([Segment.number a].flatMap Segment.pieces) =
        [.mark .leftBracket, a.token, .mark .rightBracket] := by
      cases a <;> rfl
    rw [List.flatMap_append, tokens_append, htokens]
    exact ih.append (.refl _)
  | string _ ih =>
    rw [List.flatMap_append, tokens_append]
    exact ih.append (.refl _)

/-! ## Scalars -/

section

variable {E : Phrase Scalar} {Q : Phrase Query}

/-- What is taken for granted of phrases between brackets. -/
structure CoversInner (E : Phrase Scalar) (Q : Phrase Query) : Prop where
  expression : ∀ {ts e n}, E ts e n → ∀ indent, Covers ts (tokens (e.pieces indent))
  query : ∀ {ts q n}, Q ts q n → ∀ indent, Covers ts (tokens (q.pieces indent))

theorem IsField.covers (h : CoversInner E Q) {f} (hf : IsField E ts f n) (indent : Nat) :
    Covers ts (tokens (f.pieces indent)) := by
  cases hf with
  | mk he => exact ((h.expression he indent).cons _).cons _

/-- An expression between parentheses. -/
theorem covers_parenthesized {e : Scalar} (h : Covers ts (tokens (e.pieces indent))) :
    Covers (.mark .leftParen :: (ts ++ [.mark .rightParen]))
      (tokens (parenthesized (e.pieces indent))) := by
  rw [tokens_parenthesized]
  exact (h.append (.refl _)).cons _

/-- The owner of a property: a number in front of the point has parentheses, or is not apart. -/
theorem IsScalar.covers_owner (h : CoversInner E Q) {links o name}
    (ho : IsScalar E Q .primary links ts o n)
    (ih : Covers ts (tokens (o.enclosed .primary (o.pieces indent)))) :
    Covers (ts ++ [.mark .dot, .identifier name])
      (tokens ((Scalar.property o name).pieces indent)) := by
  rw [Scalar.pieces, tokens_append]
  by_cases hnumber : o.isNumber = true
  · rw [if_pos hnumber]
    generalize hprimary : Level.primary = level at ho
    cases ho with
    | lift hlevel _ => exact absurd hprimary.symm hlevel
    | group he => exact (covers_parenthesized (h.expression he indent)).append (.refl _)
    | @literal v hv =>
      cases v with
      | number a =>
        -- Without parentheses the number is not apart from the point, and parentheses do not count.
        refine ⟨?_, fun hapart => ?_⟩
        · simp [tokens_literal, Literal.token, List.count_cons]
        · have hne := (List.isChain_cons_cons.mp hapart).1
          exact absurd rfl (hne (Token.isNumber_number a))
      | _ => cases hnumber
    | _ => cases hnumber
  · rw [if_neg hnumber]
    exact ih.append (.refl _)

theorem IsScalar.covers (h : CoversInner E Q) {level links e}
    (he : IsScalar E Q level links ts e n) (indent : Nat) :
    Covers ts (tokens (e.enclosed level (e.pieces indent))) := by
  induction he with
  | lift hlevel _ ih =>
    have hrung := Level.rung_tighter hlevel
    exact ih.loosen (by omega)
  | conditional _ ha hb ih =>
    refine .here rfl ?_
    simp only [Scalar.pieces, tokens_append, tokens_space, tokens_mark, List.append_assoc,
      List.cons_append, List.nil_append]
    exact ih.append (((h.expression ha indent).append ((h.expression hb indent).cons _)).cons _)
  | coalesce _ _ ihl ihr =>
    refine .here rfl ?_
    simp only [Scalar.pieces, BinaryOp.pieces, tokens_append, tokens_space, tokens_token,
      List.append_assoc, List.cons_append, List.nil_append]
    exact ihl.append (ihr.cons _)
  | binary _ _ _ ihl ihr =>
    refine .here rfl ?_
    simp only [Scalar.pieces, BinaryOp.pieces, tokens_append, tokens_space, tokens_token,
      List.append_assoc, List.cons_append, List.nil_append]
    exact ihl.append (ihr.cons _)
  | between _ _ _ ihs ihl ihh =>
    refine .here rfl ?_
    simp only [Scalar.pieces, tokens_append, tokens_space, tokens_keyword, tokens_negation,
      List.append_assoc, List.cons_append, List.nil_append]
    exact ihs.append ((Covers.refl _).append ((ihl.append (ihh.cons _)).cons _))
  | among _ hes ihs =>
    have hes := hes.covers fun _ _ _ he => h.expression he indent
    refine .here rfl ?_
    simp only [Scalar.pieces, Scalar.listPieces_eq, tokens_append, tokens_space, tokens_keyword,
      tokens_negation, tokens_parenthesized, List.append_assoc, List.cons_append, List.nil_append]
    exact ihs.append ((Covers.refl _).append (((hes.append (.refl _)).cons _).cons _))
  | unary _ ih =>
    refine .here rfl ?_
    rw [tokens_unary]
    exact ih.cons _
  | property ho _ ih => exact .here rfl (ho.covers_owner h ih)
  | index _ he ih =>
    refine .here rfl ?_
    simp only [Scalar.pieces, tokens_append, tokens_mark, tokens_nil]
    exact ih.append (((h.expression he indent).append (.refl _)).cons _)
  | literal hv =>
    refine .here (level_literal (isWellFormed_of_spellable hv)) ?_
    rw [tokens_literal]
    exact .refl _
  | parameter _ => exact .here rfl (.refl _)
  | name _ => exact .here rfl (.refl _)
  | group he => exact (covers_parenthesized (h.expression he indent)).enclosed_of_parenthesized _ _
  | @call _ userDefined _ _ _ _ hes =>
    have hes := hes.covers fun _ _ _ he => h.expression he indent
    have hword : tokens (if userDefined then [.keyword .udf, .mark .dot] else []) =
        if userDefined then [.keyword .udf, .mark .dot] else [] := by
      cases userDefined <;> rfl
    refine .here rfl ?_
    simp only [Scalar.pieces, Scalar.listPieces_eq, tokens_append, tokens_identifier,
      tokens_parenthesized, hword]
    exact (Covers.refl _).append (((hes.append (.refl _)).cons _).cons _)
  | array hes =>
    have hes := hes.covers fun _ _ _ he => h.expression he indent
    refine .here rfl ?_
    simp only [Scalar.pieces, Scalar.listPieces_eq, tokens_append, tokens_mark, tokens_nil]
    exact (hes.append (.refl _)).cons _
  | object hfields =>
    have hfields := hfields.covers fun _ _ _ hf => hf.covers h indent
    refine .here rfl ?_
    simp only [Scalar.pieces, Field.listPieces_eq, tokens_append, tokens_mark, tokens_nil]
    exact (hfields.append (.refl _)).cons _
  | @subquery use _ _ _ hq =>
    have huse : tokens use.pieces = use.tokens := by cases use <;> rfl
    refine .here rfl ?_
    simp only [Scalar.pieces, subqueryPieces, tokens_append, tokens_gap, tokens_mark, tokens_nil, huse]
    exact (Covers.refl _).append (((h.query hq _).append (.refl _)).cons _)

/-! ## Clauses -/

theorem IsSelectItem.covers (h : CoversInner E Q) {i} (hi : IsSelectItem E ts i n) (indent : Nat) :
    Covers ts (tokens (i.pieces indent)) := by
  cases hi with
  | mk he halias =>
    rw [SelectItem.pieces, tokens_append]
    exact (h.expression he indent).append halias.covers

theorem IsProjection.covers (h : CoversInner E Q) {p} (hp : IsProjection E ts p n) :
    Covers ts (tokens (p.pieces indent)) := by
  cases hp with
  | all => exact .refl _
  | value he => exact (h.expression he indent).cons _
  | items his =>
    have his := his.covers fun _ _ _ hi => hi.covers h indent
    rwa [Projection.pieces, SelectItem.listPieces_eq]

theorem IsSortKey.covers (h : CoversInner E Q) {k} (hk : IsSortKey E ts k n) :
    Covers ts (tokens (k.pieces indent)) := by
  cases hk with
  | plain he =>
    rw [SortKey.pieces, tokens_append]
    simpa using h.expression he indent
  | ascending he =>
    rw [SortKey.pieces, tokens_append]
    exact (h.expression he indent).append ⟨rfl, fun _ => Nat.le_refl _⟩
  | descending he =>
    rw [SortKey.pieces, tokens_append]
    exact (h.expression he indent).append (.refl _)

theorem IsCollection.covers (h : CoversInner E Q) {c} (hc : IsCollection E Q ts c n) :
    Covers ts (tokens (c.pieces indent)) := by
  cases hc with
  | path _ hpath => exact hpath.covers.cons _
  | subquery hq =>
    simp only [Collection.pieces, subqueryPieces, tokens_append, tokens_gap, tokens_mark, tokens_nil]
    exact ((h.query hq _).append (.refl _)).cons _
  | array hes =>
    have hes := hes.covers fun _ _ _ he => h.expression he indent
    simp only [Collection.pieces, Scalar.listPieces_eq, tokens_append, tokens_mark, tokens_nil]
    exact (hes.append (.refl _)).cons _

theorem IsOperand.covers (h : CoversInner E Q) {s} (hs : IsOperand E Q ts s n) :
    Covers ts (tokens (s.pieces indent)) := by
  cases hs with
  | each _ hc => exact ((hc.covers h).cons _).cons _
  | aliased hc halias =>
    rw [Source.pieces, tokens_append]
    exact (hc.covers h).append halias.covers

theorem IsJoined.covers (h : CoversInner E Q) {links s} (hs : IsJoined E Q links ts s n) :
    Covers ts (tokens (s.pieces indent)) := by
  induction hs with
  | operand hs => exact hs.covers h
  | join _ hr ih =>
    simp only [Source.pieces, tokens_append, tokens_space, tokens_keyword, List.append_assoc,
      List.cons_append, List.nil_append]
    exact ih.append ((hr.covers h).cons _)

theorem IsSource.covers (h : CoversInner E Q) {s} (hs : IsSource E Q ts s n) :
    Covers ts (tokens (s.pieces indent)) := by
  cases hs with
  | mk hs => exact hs.covers h

theorem covers_top {top?} (h : Clause [.top] IsCount ts top? n) :
    Covers ts (tokens (topPieces indent top?)) := by
  cases h with
  | absent => exact .refl _
  | present hcount =>
    simp only [topPieces, tokens_keyword, tokens_space, tokens_append, tokens_nil, List.append_nil]
    exact hcount.covers.cons _

theorem IsClauses.covers (h : CoversInner E Q) {q} (hq : IsClauses E Q ts q n) :
    Covers ts (tokens (q.pieces indent)) := by
  cases hq with
  | @mk distinct _ _ _ _ _ _ _ _ _ _ _ _ _ _ _ _ _ _ _ htop hprojection hsource hfilter hgroup hsort
      hwindow =>
    have hdistinct : tokens (if distinct then [.keyword .distinct, .space] else []) =
        if distinct then [.keyword .distinct] else [] := by
      cases distinct <;> rfl
    rw [Query.pieces_eq]
    simp only [tokens_keyword, tokens_space, tokens_append, hdistinct, Scalar.listPieces_eq,
      SortKey.listPieces_eq]
    refine .cons _ ((Covers.refl _).append ((covers_top htop).append ((hprojection.covers h).append ?_)))
    refine (hsource.covers fun _ _ _ hs => hs.covers h).append ?_
    refine (hfilter.covers fun _ _ _ he => h.expression he indent).append ?_
    refine (hgroup.covers fun _ _ _ hes => hes.covers fun _ _ _ he => h.expression he indent).append ?_
    refine (hsort.covers fun _ _ _ hks => hks.covers fun _ _ _ hk => hk.covers h).append ?_
    exact hwindow.covers fun _ _ _ hw => hw.covers

end

end

/-! ## The whole grammar -/

theorem coversInner : CoversInner (fun ts e _ => ∀ indent, Covers ts (tokens (e.pieces indent)))
    (fun ts q _ => ∀ indent, Covers ts (tokens (q.pieces indent))) := ⟨id, id⟩

theorem covers_all (n : Nat) :
    Phrase.Upto n IsExpression (fun ts e _ => ∀ indent, Covers ts (tokens (e.pieces indent))) ∧
    Phrase.Upto n IsQuery (fun ts q _ => ∀ indent, Covers ts (tokens (q.pieces indent))) := by
  refine induction_levels (fun he indent => ?_) (fun hq indent => hq.covers coversInner) n
  have h := he.covers coversInner indent
  rwa [Scalar.enclosed_conditional] at h

/-- No text of an expression has fewer parentheses than its pieces. -/
theorem covers_expression {ts e n} (h : IsExpression ts e n) (indent : Nat) :
    Covers ts (tokens (e.pieces indent)) := (covers_all n).1 le_rfl h indent

/-- No text of a query has fewer parentheses than its pieces. -/
theorem covers_query {ts q n} (h : IsQuery ts q n) (indent : Nat) :
    Covers ts (tokens (q.pieces indent)) := (covers_all n).2 le_rfl h indent

end Grammar

end DocQuery
