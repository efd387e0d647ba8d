import DocQuery.Proofs.Grammar.Follow
import DocQuery.Proofs.Grammar.Induction
import DocQuery.Proofs.Tree.WellFormed

/-!
# What is true of all phrases

The tokens of a phrase can be spelled, it takes no more levels than it has tokens, and its tree is
one that text can say (`Regular`). This holds of all expressions and queries: `regular_expression`,
`regular_query`.
-/

namespace DocQuery

namespace Grammar

/-- The tokens can be spelled, there are no more levels than tokens, and the tree has the property
`W`. -/
structure Regular {α : Type} (W : α → Bool) (ts : List Token) (a : α) (n : Nat) : Prop where
  spellable : ts.all Token.isSpellable = true
  levels_le : n ≤ ts.length
  wellFormed : W a = true

section

variable {α : Type} {W : α → Bool} {P : Phrase α} {ts : List Token} {n : Nat}

theorem spellable_number {a : Number} (h : a.isPlain = true) : a.token.isSpellable = true := by
  cases a <;> exact h

theorem isWellFormed_of_spellable {v : Literal} (h : v.token.isSpellable = true) :
    v.isWellFormed = true := by
  cases v with
  | number a => cases a <;> exact h
  | _ => rfl

/-- A list of regular items is regular, and not empty. -/
theorem ListOf.regular (hP : ∀ {ts a n}, P ts a n → Regular W ts a n) {as} (h : ListOf P ts as n) :
    Regular (fun as => !as.isEmpty && as.all W) ts as n := by
  induction h with
  | single h =>
    have h := hP h
    exact ⟨h.spellable, h.levels_le, by simp [h.wellFormed]⟩
  | cons h _ ih =>
    have h := hP h
    have hlevels := h.levels_le
    have hlevels' := ih.levels_le
    obtain ⟨-, hall⟩ := Bool.and_eq_true_iff.mp ih.wellFormed
    refine ⟨?_, ?_, ?_⟩
    · simp [h.spellable, ih.spellable]
    · simp only [List.length_append, List.length_cons]
      omega
    · simp [h.wellFormed, hall]

theorem Items.regular (hP : ∀ {ts a n}, P ts a n → Regular W ts a n) {as} (h : Items P ts as n) :
    Regular (·.all W) ts as n := by
  cases h with
  | none => exact ⟨rfl, le_rfl, rfl⟩
  | some h =>
    have h := h.regular hP
    exact ⟨h.spellable, h.levels_le, (Bool.and_eq_true_iff.mp h.wellFormed).2⟩

/-- A clause of regular parts is regular, whether it is there or not. -/
theorem Clause.regular {words} (hP : ∀ {ts a n}, P ts a n → Regular W ts a n) {a?}
    (h : Clause words P ts a? n) : Regular (Option.all W) ts a? n := by
  cases h with
  | absent => exact ⟨rfl, le_rfl, rfl⟩
  | present h =>
    have h := hP h
    have hwords : (words.map Token.keyword).all Token.isSpellable = true := by
      simp
    exact ⟨by rw [List.all_append, hwords, h.spellable]; rfl,
      by rw [List.length_append]; exact Nat.le_add_left_of_le h.levels_le, h.wellFormed⟩

theorem IsCount.regular {e} (h : IsCount ts e n) : Regular Scalar.isCount ts e n := by
  cases h with
  | number ha => exact ⟨by simp [spellable_number ha], Nat.zero_le _, ha⟩
  | parameter hname => exact ⟨by simpa using hname, Nat.zero_le _, hname⟩

theorem IsAlias.regular {alias?} (h : IsAlias ts alias? n) : Regular isAlias ts alias? n := by
  cases h with
  | none => exact ⟨rfl, le_rfl, rfl⟩
  | bare hname => exact ⟨by simpa using hname, Nat.zero_le _, hname⟩
  | worded hname => exact ⟨by simpa using hname, Nat.zero_le _, hname⟩

theorem IsWindow.regular {w} (h : IsWindow ts w n) : Regular Window.isWellFormed ts w n := by
  cases h with
  | counts ha hb =>
    refine ⟨?_, Nat.zero_le _, ?_⟩
    · simp [ha.regular.spellable, hb.regular.spellable]
    · simp [Window.isWellFormed, ha.regular.wellFormed, hb.regular.wellFormed]

theorem IsPath.regular {segments} (h : IsPath ts segments n) :
    Regular (·.all Segment.isWellFormed) ts segments n := by
  induction h with
  | nil => exact ⟨rfl, le_rfl, rfl⟩
  | name _ hname ih =>
    have hlevels := ih.levels_le
    exact ⟨by simp [ih.spellable, hname], by simp; omega,
      by simp [ih.wellFormed, Segment.isWellFormed, hname]⟩
  | number _ ha ih =>
    have hlevels := ih.levels_le
    exact ⟨by simp [ih.spellable, spellable_number ha], by simp; omega,
      by simp [ih.wellFormed, Segment.isWellFormed, ha]⟩
  | string _ ih =>
    have hlevels := ih.levels_le
    exact ⟨by simp [ih.spellable], by simp; omega,
      by simp [ih.wellFormed, Segment.isWellFormed]⟩

/-! ## Scalars -/

section

variable {E : Phrase Scalar} {Q : Phrase Query}

/-- What is taken for granted of phrases between brackets. -/
structure RegularInner (E : Phrase Scalar) (Q : Phrase Query) : Prop where
  expression : ∀ {ts e n}, E ts e n → Regular Scalar.isWellFormed ts e n
  query : ∀ {ts q n}, Q ts q n → Regular Query.isWellFormed ts q n

theorem IsField.regular (h : RegularInner E Q) {f} (hf : IsField E ts f n) :
    Regular Field.isWellFormed ts f n := by
  cases hf with
  | mk he =>
    have he := h.expression he
    exact ⟨by simp [he.spellable], Nat.le_succ_of_le (Nat.le_succ_of_le he.levels_le),
      he.wellFormed⟩

theorem spellable_notTokens (negated : Bool) :
    (notTokens negated).all Token.isSpellable = true := by
  cases negated <;> rfl

/-- A scalar takes fewer levels than it has tokens. -/
theorem IsScalar.regular (h : RegularInner E Q) {level links e} (he : IsScalar E Q level links ts e n) :
    Regular Scalar.isWellFormed ts e (n + 1) := by
  induction he with
  | lift _ _ ih => exact ih
  | conditional _ ha hb ih =>
    have ha := h.expression ha
    have hb := h.expression hb
    have := ih.levels_le
    have := ha.levels_le
    have := hb.levels_le
    refine ⟨by simp [ih.spellable, ha.spellable, hb.spellable], ?_,
      by simp [Scalar.isWellFormed, ih.wellFormed, ha.wellFormed, hb.wellFormed]⟩
    simp only [List.length_append, List.length_cons]
    omega
  | coalesce hl _ ihl ihr =>
    have := hl.links_lt
    have := ihl.levels_le
    have := ihr.levels_le
    refine ⟨by simp [ihl.spellable, ihr.spellable], ?_,
      by simp [Scalar.isWellFormed, ihl.wellFormed, ihr.wellFormed]⟩
    simp only [List.length_append, List.length_cons]
    omega
  | @binary op _ _ _ _ _ _ _ _ hop hl _ ihl ihr =>
    have := hl.links_lt
    have := ihl.levels_le
    have := ihr.levels_le
    have hspell : op.token.isSpellable = true := by cases op <;> rfl
    refine ⟨by simp [ihl.spellable, ihr.spellable, hspell], ?_,
      by simp [Scalar.isWellFormed, hop, ihl.wellFormed, ihr.wellFormed]⟩
    simp only [List.length_append, List.length_cons]
    omega
  | between hs _ _ ihs ihl ihh =>
    have := hs.links_lt
    have := ihs.levels_le
    have := ihl.levels_le
    have := ihh.levels_le
    refine ⟨by simp [ihs.spellable, ihl.spellable, ihh.spellable, spellable_notTokens], ?_,
      by simp [Scalar.isWellFormed, ihs.wellFormed, ihl.wellFormed, ihh.wellFormed]⟩
    simp only [List.length_append, List.length_cons]
    omega
  | among hs hes ihs =>
    have hes := hes.regular h.expression
    have := hs.links_lt
    have := ihs.levels_le
    have := hes.levels_le
    refine ⟨by simp [ihs.spellable, hes.spellable, spellable_notTokens], ?_, ?_⟩
    · simp only [List.length_append, List.length_cons]
      omega
    · rw [Scalar.isWellFormed, Scalar.allWellFormed_eq, Bool.and_assoc, hes.wellFormed,
        ihs.wellFormed]
      rfl
  | @unary op _ _ _ _ _ ih =>
    have hspell : op.token.isSpellable = true := by cases op <;> rfl
    exact ⟨by simp [ih.spellable, hspell], Nat.succ_le_succ ih.levels_le, ih.wellFormed⟩
  | property ho hname ih =>
    have := ho.links_lt
    have := ih.levels_le
    refine ⟨by simp [ih.spellable, hname], ?_, by simp [Scalar.isWellFormed, ih.wellFormed, hname]⟩
    simp only [List.length_append, List.length_cons]
    omega
  | index ho hi ih =>
    have hi := h.expression hi
    have := ho.links_lt
    have := ih.levels_le
    have := hi.levels_le
    refine ⟨by simp [ih.spellable, hi.spellable], ?_,
      by simp [Scalar.isWellFormed, ih.wellFormed, hi.wellFormed]⟩
    simp only [List.length_append, List.length_cons]
    omega
  | literal hv => exact ⟨by simp [hv], Nat.le_refl _, isWellFormed_of_spellable hv⟩
  | parameter hname => exact ⟨by simp [hname], Nat.le_refl _, hname⟩
  | name hname => exact ⟨by simp [hname], Nat.le_refl _, hname⟩
  | group he =>
    have he := h.expression he
    refine ⟨by simp [he.spellable], ?_, he.wellFormed⟩
    simp only [List.length_append, List.length_cons]
    have := he.levels_le
    omega
  | @call _ userDefined _ _ _ hname hes =>
    have hes := hes.regular h.expression
    have := hes.levels_le
    refine ⟨by cases userDefined <;> simp [hes.spellable, hname], ?_, ?_⟩
    · simp only [List.length_append, List.length_cons]
      omega
    · rw [Scalar.isWellFormed, Scalar.allWellFormed_eq, hes.wellFormed, hname]
      rfl
  | array hes =>
    have hes := hes.regular h.expression
    have := hes.levels_le
    refine ⟨by simp [hes.spellable], ?_, ?_⟩
    · simp only [List.length_append, List.length_cons]
      omega
    · rw [Scalar.isWellFormed, Scalar.allWellFormed_eq, hes.wellFormed]
  | object hfields =>
    have hfields := hfields.regular (IsField.regular h)
    have := hfields.levels_le
    refine ⟨by simp [hfields.spellable], ?_, ?_⟩
    · simp only [List.length_append, List.length_cons]
      omega
    · rw [Scalar.isWellFormed, Field.allWellFormed_eq, hfields.wellFormed]
  | @subquery use _ _ _ hq =>
    have hq := h.query hq
    have := hq.levels_le
    refine ⟨by cases use <;> simp [SubqueryUse.tokens, hq.spellable], ?_, hq.wellFormed⟩
    simp only [List.length_append, List.length_cons]
    omega

/-! ## Clauses -/

theorem IsSelectItem.regular (h : RegularInner E Q) {i} (hi : IsSelectItem E ts i n) :
    Regular SelectItem.isWellFormed ts i n := by
  cases hi with
  | mk he halias =>
    have he := h.expression he
    refine ⟨by simp [he.spellable, halias.regular.spellable], ?_,
      by simp [SelectItem.isWellFormed, he.wellFormed, halias.regular.wellFormed]⟩
    rw [List.length_append]
    exact Nat.le_add_right_of_le he.levels_le

theorem IsProjection.regular (h : RegularInner E Q) {p} (hp : IsProjection E ts p n) :
    Regular Projection.isWellFormed ts p n := by
  cases hp with
  | all => exact ⟨rfl, Nat.zero_le _, rfl⟩
  | value he =>
    have he := h.expression he
    exact ⟨by simp [he.spellable], Nat.le_succ_of_le he.levels_le, he.wellFormed⟩
  | items his =>
    have his := his.regular (IsSelectItem.regular h)
    refine ⟨his.spellable, his.levels_le, ?_⟩
    rw [Projection.isWellFormed, SelectItem.allWellFormed_eq, his.wellFormed]

theorem IsSortKey.regular (h : RegularInner E Q) {k} (hk : IsSortKey E ts k n) :
    Regular SortKey.isWellFormed ts k n := by
  cases hk with
  | plain he =>
    have he := h.expression he
    exact ⟨he.spellable, he.levels_le, he.wellFormed⟩
  | ascending he =>
    have he := h.expression he
    refine ⟨by simp [he.spellable], ?_, he.wellFormed⟩
    rw [List.length_append]
    exact Nat.le_add_right_of_le he.levels_le
  | descending he =>
    have he := h.expression he
    refine ⟨by simp [he.spellable], ?_, he.wellFormed⟩
    rw [List.length_append]
    exact Nat.le_add_right_of_le he.levels_le

theorem IsCollection.regular (h : RegularInner E Q) {c} (hc : IsCollection E Q ts c n) :
    Regular Collection.isWellFormed ts c n := by
  cases hc with
  | path hinput hpath =>
    have hpath := hpath.regular
    exact ⟨by simp [hinput, hpath.spellable], Nat.le_succ_of_le hpath.levels_le,
      by rw [Collection.isWellFormed, hinput, hpath.wellFormed]; rfl⟩
  | subquery hq =>
    have hq := h.query hq
    refine ⟨by simp [hq.spellable], ?_, hq.wellFormed⟩
    simp only [List.length_append, List.length_cons]
    have := hq.levels_le
    omega
  | array hes =>
    have hes := hes.regular h.expression
    refine ⟨by simp [hes.spellable], ?_, ?_⟩
    · simp only [List.length_append, List.length_cons]
      have := hes.levels_le
      omega
    · rw [Collection.isWellFormed, Scalar.allWellFormed_eq, hes.wellFormed]

theorem IsOperand.regular (h : RegularInner E Q) {s} (hs : IsOperand E Q ts s n) :
    Regular (fun s => !s.isJoin && s.isWellFormed) ts s n := by
  cases hs with
  | each hname hc =>
    have hc := hc.regular h
    exact ⟨by simp [hname, hc.spellable], Nat.le_succ_of_le (Nat.le_succ_of_le hc.levels_le),
      by simp [Source.isJoin, Source.isWellFormed, hname, hc.wellFormed]⟩
  | aliased hc halias =>
    have hc := hc.regular h
    refine ⟨by simp [hc.spellable, halias.regular.spellable], ?_,
      by simp [Source.isJoin, Source.isWellFormed, hc.wellFormed, halias.regular.wellFormed]⟩
    rw [List.length_append]
    exact Nat.le_add_right_of_le hc.levels_le

theorem IsJoined.regular (h : RegularInner E Q) {links s} (hs : IsJoined E Q links ts s n) :
    links ≤ ts.length ∧ Regular Source.isWellFormed ts s n := by
  induction hs with
  | operand hs =>
    have hs := hs.regular h
    exact ⟨Nat.zero_le _, hs.spellable, hs.levels_le, (Bool.and_eq_true_iff.mp hs.wellFormed).2⟩
  | join _ hr ih =>
    obtain ⟨hlinks, hl⟩ := ih
    have hr := hr.regular h
    have := hl.levels_le
    have := hr.levels_le
    simp only [List.length_append, List.length_cons]
    refine ⟨by omega, by simp [hl.spellable, hr.spellable], ?_, ?_⟩
    · simp only [List.length_append, List.length_cons]
      omega
    · rw [Source.isWellFormed, Bool.and_assoc, hr.wellFormed, hl.wellFormed]
      rfl

theorem IsSource.regular (h : RegularInner E Q) {s} (hs : IsSource E Q ts s n) :
    Regular Source.isWellFormed ts s n := by
  cases hs with
  | mk hs => exact (hs.regular h).2

/-- The clauses of a query take fewer levels than they have tokens. -/
theorem IsClauses.regular (h : RegularInner E Q) {q} (hq : IsClauses E Q ts q n) :
    Regular Query.isWellFormed ts q (n + 1) := by
  cases hq with
  | @mk distinct top? p source? filter? groupKeys? sortKeys? window? ts₁ ts₂ ts₃ ts₄ ts₅ ts₆ ts₇
      n₂ n₃ n₄ n₅ n₆ htop hprojection hsource hfilter hgroup hsort hwindow =>
    have htop := htop.regular IsCount.regular
    have hprojection := hprojection.regular h
    have hsource := hsource.regular (IsSource.regular h)
    have hfilter := hfilter.regular h.expression
    have hgroup := hgroup.regular (ListOf.regular h.expression)
    have hsort := hsort.regular (ListOf.regular (IsSortKey.regular h))
    have hwindow := hwindow.regular IsWindow.regular
    have := hprojection.levels_le
    have := hsource.levels_le
    have := hfilter.levels_le
    have := hgroup.levels_le
    have := hsort.levels_le
    refine ⟨?_, ?_, ?_⟩
    · cases distinct <;> simp [htop.spellable, hprojection.spellable, hsource.spellable,
        hfilter.spellable, hgroup.spellable, hsort.spellable, hwindow.spellable]
    · simp only [List.length_append, List.length_cons]
      omega
    · simp only [Query.isWellFormed_eq, Scalar.allWellFormed_eq, SortKey.allWellFormed_eq,
        htop.wellFormed, hprojection.wellFormed, hsource.wellFormed, hfilter.wellFormed,
        hgroup.wellFormed, hsort.wellFormed, hwindow.wellFormed, Bool.and_self]

end

end

/-! ## The whole grammar -/

theorem regularInner : RegularInner (Regular Scalar.isWellFormed) (Regular Query.isWellFormed) :=
  ⟨id, id⟩

/-- All expressions are regular. -/
theorem regular_expression {ts e n} (h : IsExpression ts e n) :
    Regular Scalar.isWellFormed ts e n :=
  (induction_levels (IsScalar.regular regularInner) (IsClauses.regular regularInner) n).1 le_rfl h

/-- All queries are regular. -/
theorem regular_query {ts q n} (h : IsQuery ts q n) : Regular Query.isWellFormed ts q n :=
  (induction_levels (IsScalar.regular regularInner) (IsClauses.regular regularInner) n).2 le_rfl h

end Grammar

end DocQuery
