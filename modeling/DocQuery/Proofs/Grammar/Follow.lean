import DocQuery.Proofs.Grammar.Rules

/-!
# Which tokens begin a phrase, and which go on with one

A reader of query text looks at one token at a time, so what it does is settled by the token that
comes next:

* `Token.linkLevel?`: the level at which a token goes on with what is before it.
* `Level.stops`: tokens that go on with nothing at a level or above.
* `Token.beginsScalar`, `Token.beginsPrimary`: tokens that begin a scalar, and one without a prefix
  operator.
* `IsScalar.starts`: the scalars of the grammar begin with them.
* `IsScalar.at`: scalars stand where any looser level is asked for.
-/

namespace DocQuery

/-! ## Going on -/

/-- The level at which a token goes on with the scalar before it: as an operator, or for the opening
parenthesis as the beginning of the arguments of a call. -/
def Token.linkLevel? : Token → Option Level
  | .mark .question => some .conditional
  | .mark .doubleQuestion => some .coalesce
  | .mark .doublePipe => some .concat
  | .keyword .or => some .or
  | .keyword .and => some .and
  | .mark .pipe => some .bitOr
  | .mark .caret => some .bitXor
  | .mark .ampersand => some .bitAnd
  | .mark .equal => some .equality
  | .mark .notEqual => some .equality
  | .mark .less => some .relational
  | .mark .lessOrEqual => some .relational
  | .mark .greater => some .relational
  | .mark .greaterOrEqual => some .relational
  | .keyword .not => some .relational
  | .keyword .between => some .relational
  | .keyword .in => some .relational
  | .mark .plus => some .additive
  | .mark .minus => some .additive
  | .mark .star => some .multiplicative
  | .mark .slash => some .multiplicative
  | .mark .percent => some .multiplicative
  | .mark .dot => some .primary
  | .mark .leftBracket => some .primary
  | .mark .leftParen => some .primary
  | _ => none

/-- The token goes on with nothing that binds at the level or tighter. -/
def Level.stops (level : Level) (t : Token) : Bool :=
  match t.linkLevel? with
  | some l => l.rung < level.rung
  | none => true

namespace Level

theorem rung_tighter {level : Level} (h : level ≠ .primary) :
    level.tighter.rung = level.rung + 1 := by
  cases level <;> first | rfl | exact absurd rfl h

theorem rung_injective {l l' : Level} (h : l.rung = l'.rung) : l = l' := by
  cases l <;> cases l' <;> first | rfl | cases h

theorem rung_le_primary (l : Level) : l.rung ≤ Level.primary.rung := by
  cases l <;> decide

/-- What ends a level ends all tighter ones. -/
theorem stops_mono {l l' : Level} {t : Token} (h : l.stops t = true) (hl : l.rung ≤ l'.rung) :
    l'.stops t = true := by
  unfold stops at h ⊢
  split
  · rename_i k hk
    rw [hk] at h
    exact decide_eq_true (Nat.lt_of_lt_of_le (of_decide_eq_true h) hl)
  · rfl

theorem stops_tighter {level : Level} {t : Token} (h : level.stops t = true) :
    level.tighter.stops t = true :=
  stops_mono h (by cases level <;> decide)

/-- A token that goes on at some level ends all tighter ones. -/
theorem stops_of_linkLevel {level l : Level} {t : Token} (h : t.linkLevel? = some l)
    (hl : l.rung < level.rung) : level.stops t = true := by
  unfold stops
  rw [h]
  exact decide_eq_true hl

end Level

/-- An infix operator is found again at its level. -/
theorem BinaryOp.ofToken?_token {op : BinaryOp} (h : op ≠ .coalesce) :
    BinaryOp.ofToken? op.level op.token = some op := by
  cases op <;> first | rfl | exact absurd rfl h

theorem BinaryOp.linkLevel (op : BinaryOp) : op.token.linkLevel? = some op.level := by
  cases op <;> rfl

/-! ## Beginning -/

namespace Token

/-- The token begins a literal, a reference, a call or something between brackets. -/
def beginsPrimary : Token → Bool
  | .integer _ => true
  | .double _ => true
  | .string _ => true
  | .identifier _ => true
  | .parameter _ => true
  | .keyword .true => true
  | .keyword .false => true
  | .keyword .null => true
  | .keyword .undefined => true
  | .keyword .exists => true
  | .keyword .array => true
  | .keyword .udf => true
  | .mark .leftParen => true
  | .mark .leftBracket => true
  | .mark .leftBrace => true
  | _ => false

/-- The token begins a scalar. -/
def beginsScalar (t : Token) : Bool := t.beginsPrimary || (UnaryOp.ofToken? t).isSome

/-- The token begins a scalar that binds at the level. -/
def begins (level : Level) (t : Token) : Bool :=
  match level with
  | .primary => t.beginsPrimary
  | _ => t.beginsScalar

theorem beginsScalar_of_begins {level : Level} {t : Token} (h : t.begins level = true) :
    t.beginsScalar = true := by
  cases level
  case primary => exact Bool.or_eq_true_iff.mpr (.inl h)
  all_goals exact h

/-- No prefix operator begins what binds tighter than one. -/
theorem not_unary_of_beginsPrimary {t : Token} (h : t.beginsPrimary = true) :
    UnaryOp.ofToken? t = none := by
  unfold UnaryOp.ofToken?
  split
  · cases h
  · cases h
  · cases h
  · cases h
  · rfl

theorem beginsPrimary_number (a : Number) : a.token.beginsPrimary = true := by
  cases a <;> rfl

theorem beginsPrimary_literal (v : Literal) : v.token.beginsPrimary = true := by
  cases v with
  | number a => exact beginsPrimary_number a
  | boolean b => cases b <;> rfl
  | _ => rfl

end Token

namespace Grammar

/-- The first of the tokens is one that `T` allows. -/
def Starts (T : Token → Prop) (ts : List Token) : Prop := ∃ t us, ts = t :: us ∧ T t

theorem Starts.imp {T T' : Token → Prop} {ts} (h : Starts T ts) (hT : ∀ t, T t → T' t) :
    Starts T' ts := by
  obtain ⟨t, us, rfl, ht⟩ := h
  exact ⟨t, us, rfl, hT t ht⟩

theorem Starts.append {T : Token → Prop} {ts} (h : Starts T ts) (us : List Token) :
    Starts T (ts ++ us) := by
  obtain ⟨t, ts, rfl, ht⟩ := h
  exact ⟨t, ts ++ us, rfl, ht⟩

theorem ListOf.starts {α : Type} {P : Phrase α} {T : Token → Prop} {ts as n}
    (hP : ∀ {ts a n}, P ts a n → Starts T ts) (h : ListOf P ts as n) : Starts T ts := by
  cases h with
  | single h => exact hP h
  | cons h _ => exact (hP h).append _

/-- A scalar begins with a token that scalars begin with. -/
theorem IsScalar.starts {E : Phrase Scalar} {Q : Phrase Query} {level links ts e n}
    (h : IsScalar E Q level links ts e n) : Starts (·.begins level = true) ts := by
  induction h with
  | @lift level _ _ _ _ hlevel _ ih =>
    refine ih.imp fun t ht => ?_
    cases level
    case primary => exact absurd rfl hlevel
    all_goals exact Token.beginsScalar_of_begins ht
  | conditional _ _ _ ih => exact (ih.imp fun _ => Token.beginsScalar_of_begins).append _
  | coalesce _ _ ih _ => exact ih.append _
  | binary _ _ _ ih _ => exact ih.append _
  | between _ _ _ ih _ _ => exact ih.append _
  | among _ _ ih => exact ih.append _
  | @unary op _ _ _ _ _ => exact ⟨_, _, rfl, by cases op <;> rfl⟩
  | property _ _ ih => exact ih.append _
  | index _ _ ih => exact ih.append _
  | @literal v _ => exact ⟨_, _, rfl, Token.beginsPrimary_literal v⟩
  | @call _ userDefined _ _ _ _ _ => cases userDefined <;> exact ⟨_, _, rfl, rfl⟩
  | @subquery use _ _ _ _ => cases use <;> exact ⟨_, _, rfl, rfl⟩
  | _ => exact ⟨_, _, rfl, rfl⟩

/-- Every link takes a token at least, and so does the first operand. -/
theorem IsScalar.links_lt {E : Phrase Scalar} {Q : Phrase Query} {level links ts e n}
    (h : IsScalar E Q level links ts e n) : links < ts.length := by
  induction h with
  | lift _ _ ih => exact Nat.zero_lt_of_lt ih
  | call => simp only [List.length_append, List.length_cons]; omega
  | subquery => simp only [List.length_append, List.length_cons]; omega
  | _ => simp only [List.length_append, List.length_cons, List.length_nil]; omega

/-! ## Standing for itself -/

section

variable {E : Phrase Scalar} {Q : Phrase Query} {ts : List Token} {e : Scalar} {n links : Nat}
  {l : Level}

/-- What binds tighter stands for itself, however much tighter it binds. -/
theorem IsScalar.lift_to {level : Level} (h : IsScalar E Q l links ts e n)
    (hrung : level.rung < l.rung) : IsScalar E Q level 0 ts e n := by
  have hlevel : level ≠ .primary := by
    rintro rfl
    exact absurd hrung (Nat.not_lt.mpr l.rung_le_primary)
  have htighter := Level.rung_tighter hlevel
  by_cases heq : level.tighter.rung = l.rung
  · obtain rfl := Level.rung_injective heq
    exact .lift hlevel h
  · exact .lift hlevel (h.lift_to (by omega))
termination_by l.rung - level.rung

/-- A scalar stands wherever one binds that loose; it goes on with a chain of its own level only. -/
theorem IsScalar.at {level : Level} (h : IsScalar E Q l links ts e n)
    (hrung : level.rung ≤ l.rung) : IsScalar E Q level (if l = level then links else 0) ts e n := by
  split
  · rename_i heq
    exact heq ▸ h
  · rename_i hne
    exact h.lift_to (Nat.lt_of_le_of_ne hrung fun heq => hne (Level.rung_injective heq.symm))

end

end Grammar

end DocQuery
