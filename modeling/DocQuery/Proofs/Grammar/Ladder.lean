import DocQuery.Proofs.Grammar.Primary

/-!
# Scalars of the grammar are read

The grammar puts chains together from the left, and the reading goes through them in a loop: what is
shown of the beginning of a chain is that whatever reads the rest completes it (`OpensInfix`,
`OpensPrimary`). `ladder` puts the levels together, `Inner.reads_expression` the whole expression.
-/

namespace DocQuery

open Grammar

theorem BinaryOp.token_ne_endOfText (op : BinaryOp) : op.token ≠ .endOfText := by
  cases op <;> nofun

theorem UnaryOp.token_ne_endOfText (op : UnaryOp) : op.token ≠ .endOfText := by
  cases op <;> nofun

namespace Reading

/-- What binds at the level is read with sixteen rounds for each token, less one for each level above
that the reading went through. -/
def ReadsAt (level : Level) (ts : List Token) (e : Scalar) (n : Nat) : Prop :=
  ∀ fuel, 16 * ts.length ≤ fuel + 1 + level.rung →
    Reads (atLevel level fuel) ts e n (level.stops · = true)

/-! ## Accesses -/

theorem reads_dot : Reads access? [.mark .dot] (some .dot) 0 Anything :=
  .bind_one (reads_consume _) (.pure _)

theorem reads_bracket : Reads access? [.mark .leftBracket] (some .bracket) 0 Anything :=
  .consume_not nofun (.bind_one (reads_consume _) (.pure _))

theorem reads_no_access : Reads access? [] none 0 (Level.primary.stops · = true) := by
  refine .consume_not ?_ (.consume_not ?_ (.pure _))
  · rintro t ht rfl
    cases ht
  · rintro t ht rfl
    cases ht

/-- The tokens begin a chain of accesses. -/
def OpensPrimary (links : Nat) (ts : List Token) (e : Scalar) (n : Nat) : Prop :=
  ∀ fuel size, 16 * size ≤ fuel + 15 → Opens (atLevel .primary (fuel + 1)) access?
    (accessStep (Reading.expression fuel)) fuel size NoCall links ts e n

section

variable {ts : List Token} {e : Scalar} {n links : Nat}

/-- What the chain of accesses begins with. -/
theorem opens_primary (h : ∀ fuel, 16 * ts.length ≤ fuel + 15 →
    Reads (primary (Reading.expression fuel) (Reading.query fuel) fuel) ts e n NoCall) :
    OpensPrimary 0 ts e n :=
  fun fuel _ hfuel => opens rfl fun hsize => h fuel (by omega)

theorem OpensPrimary.readsAt (h : OpensPrimary links ts e n) (hlinks : links < ts.length) :
    ReadsAt .primary ts e n := by
  intro fuel hfuel
  have hrung : Level.primary.rung = 13 := rfl
  obtain ⟨fuel, rfl⟩ : ∃ k, fuel = k + 1 := ⟨fuel - 1, by omega⟩
  refine (h fuel ts.length (by omega)).close le_rfl (by omega) reads_no_access fun t ht => ?_
  rintro rfl
  cases ht

theorem OpensPrimary.property {name : String} (ho : OpensPrimary links ts e n) :
    OpensPrimary (links + 1) (ts ++ [.mark .dot, .identifier name]) (.property e name)
      (max n (links + 1)) :=
  fun fuel size hfuel => (ho fuel size hfuel).more reads_dot ⟨_, [.identifier name], rfl, nofun⟩
    (fun _ _ => meets_anything _) fun _ => .map ((reads_identifier name).weaken fun _ _ => trivial)

theorem OpensPrimary.index {E : Phrase Scalar} {Q : Phrase Query} (h : Inner E Q) {us i m}
    (ho : OpensPrimary links ts e n) (hi : E us i m) :
    OpensPrimary (links + 1) (ts ++ .mark .leftBracket :: (us ++ [.mark .rightBracket]))
      (.index e i) (max n (links + 1 + m)) := by
  intro fuel size hfuel
  refine (ho fuel size hfuel).more reads_bracket ⟨_, us ++ [.mark .rightBracket], rfl, nofun⟩
    (fun _ _ => meets_anything _) fun hsize => ?_
  change (us ++ [Token.mark .rightBracket]).length ≤ size at hsize
  simp only [List.length_append, List.length_cons, List.length_nil] at hsize
  exact .bind_zero (h.expression hi _ (by omega)) (.bind_one (reads_expect _) (.pure _)) rfl

end

/-! ## Infix levels -/

/-- The level is one of infix operators. -/
def IsInfix (level : Level) : Prop := level ≠ .conditional ∧ level ≠ .unary ∧ level ≠ .primary

theorem isInfix_or (level : Level) :
    IsInfix level ∨ level = .conditional ∨ level = .unary ∨ level = .primary := by
  unfold IsInfix
  cases level <;> decide

theorem atLevel_infixLevel {level : Level} (h : IsInfix level) (fuel : Nat) :
    atLevel level (fuel + 1) = (do
      let first ← atLevel level.tighter fuel
      chain (infix? level) (infixStep (atLevel level.tighter fuel) (Reading.expression fuel) fuel) fuel 0
        first) := by
  obtain ⟨h₁, h₂, h₃⟩ := h
  cases level <;> first | rfl | contradiction

theorem isInfix_of_binary {op : BinaryOp} : IsInfix op.level := by
  cases op <;> exact ⟨nofun, nofun, nofun⟩

theorem reads_binary {op : BinaryOp} (hop : op ≠ .coalesce) :
    Reads (infix? op.level) [op.token] (some (.binary op)) 0 Anything := by
  refine .token_cons ?_
  rw [BinaryOp.ofToken?_token hop]
  exact .bind_one (reads_advance _) (.pure _)

theorem reads_coalesce :
    Reads (infix? .coalesce) [.mark .doubleQuestion] (some .coalesce) 0 Anything :=
  .token_cons (.bind_one (reads_advance _) (.pure _))

theorem reads_rangeOrList (negated : Bool) : Reads (infix? .relational) (notTokens negated)
    (some (.rangeOrList negated)) 0 fun t => t = .keyword .between ∨ t = .keyword .in := by
  cases negated
  · refine .token_nil ?_
    rintro t (rfl | rfl)
    · exact .pure _
    · exact .pure _
  · refine .token_cons (.bind_one (reads_advance _) (.token_nil ?_))
    rintro t (rfl | rfl)
    · exact .pure _
    · exact .pure _

theorem reads_infix?_none (level : Level) : Reads (infix? level) [] none 0 (level.stops · = true) := by
  refine .token_nil fun t ht => ?_
  cases hop : BinaryOp.ofToken? level t with
  | some op =>
    obtain ⟨hlevel, htoken⟩ := BinaryOp.level_of_ofToken? hop
    rw [← htoken, Level.stops, op.linkLevel, hlevel] at ht
    exact absurd (of_decide_eq_true ht) (Nat.lt_irrefl _)
  | none =>
    simp only []
    split
    · cases ht
    · cases ht
    · cases ht
    · cases ht
    · exact .pure _

/-- The tokens begin a chain of infix operators. -/
def OpensInfix (level : Level) (links : Nat) (ts : List Token) (e : Scalar) (n : Nat) : Prop :=
  ∀ fuel size, 16 * size ≤ fuel + 2 + level.rung → Opens (atLevel level (fuel + 1)) (infix? level)
    (infixStep (atLevel level.tighter fuel) (Reading.expression fuel) fuel) fuel size
    (level.tighter.stops · = true) links ts e n

section

variable {level : Level} {ts us vs : List Token} {l e r : Scalar} {n m p links : Nat}

/-- What a chain of infix operators begins with. -/
theorem opens_infixLevel (hlevel : IsInfix level) (h : ReadsAt level.tighter ts e n) :
    OpensInfix level 0 ts e n := by
  intro fuel size hfuel
  have hrung := Level.rung_tighter hlevel.2.2
  exact opens (atLevel_infixLevel hlevel fuel) fun hsize => h fuel (by omega)

theorem OpensInfix.readsAt (hlevel : IsInfix level) (h : OpensInfix level links ts e n)
    (hlinks : links < ts.length) : ReadsAt level ts e n := by
  intro fuel hfuel
  have hrung := Level.rung_tighter hlevel.2.2
  have hrung' : level.tighter.rung ≤ 13 := by cases level <;> decide
  obtain ⟨fuel, rfl⟩ : ∃ k, fuel = k + 1 := ⟨fuel - 1, by omega⟩
  exact (h fuel ts.length (by omega)).close le_rfl (by omega) (reads_infix?_none level)
    fun _ => Level.stops_tighter

theorem OpensInfix.binary {op : BinaryOp} (hop : op ≠ .coalesce)
    (hl : OpensInfix op.level links ts l n) (hr : ReadsAt op.level.tighter us r m) :
    OpensInfix op.level (links + 1) (ts ++ op.token :: us) (.binary op l r)
      (max n (links + 1 + m)) := by
  intro fuel size hfuel
  have hinfix : IsInfix op.level := isInfix_of_binary
  have hrung := Level.rung_tighter hinfix.2.2
  refine (hl fuel size hfuel).more (reads_binary hop) ⟨op.token, us, rfl, ?_⟩
    (fun _ _ => meets_anything _) fun hsize => ?_
  · exact Level.stops_of_linkLevel op.linkLevel (by omega)
  · exact .map (hr _ (by omega))

theorem OpensInfix.coalesce (hl : OpensInfix .coalesce links ts l n) (hr : ReadsAt .concat us r m) :
    OpensInfix .coalesce (links + 1) (ts ++ .mark .doubleQuestion :: us) (.coalesce l r)
      (max n (links + 1 + m)) := by
  intro fuel size hfuel
  have hrung : Level.coalesce.rung = 1 := rfl
  have hrung' : Level.concat.rung = 2 := rfl
  exact (hl fuel size hfuel).more reads_coalesce ⟨_, us, rfl, rfl⟩ (fun _ _ => meets_anything _)
    fun hsize => .map (hr _ (by omega))

theorem OpensInfix.between {negated : Bool} (hs : OpensInfix .relational links ts l n)
    (hl : ReadsAt .additive us e m) (hh : ReadsAt .additive vs r p) :
    OpensInfix .relational (links + 1)
      (ts ++ (notTokens negated ++ .keyword .between :: (us ++ .keyword .and :: vs)))
      (.between l e r negated) (max n (links + 1 + max m p)) := by
  intro fuel size hfuel
  have hrung : Level.relational.rung = 9 := rfl
  have hrung' : Level.additive.rung = 10 := rfl
  refine (hs fuel size hfuel).more (reads_rangeOrList negated) ?_ (fun _ _ => Or.inl rfl) fun hsize => ?_
  · cases negated <;> exact ⟨_, _, rfl, rfl⟩
  · simp only [List.length_cons, List.length_append] at hsize
    exact .bind_one (reads_consume _) (.bind (hl _ (by omega)) (.bind_one (reads_expect _)
      (.bind_last (hh _ (by omega)) (.pure _) fun _ ht => ht)) rfl)

theorem OpensInfix.among {E : Phrase Scalar} {Q : Phrase Query} (h : Inner E Q) {negated : Bool} {es}
    (hs : OpensInfix .relational links ts l n) (hes : ListOf E us es m) :
    OpensInfix .relational (links + 1)
      (ts ++ (notTokens negated ++ .keyword .in :: .mark .leftParen :: (us ++ [.mark .rightParen])))
      (.among l es negated) (max n (links + 1 + m)) := by
  intro fuel size hfuel
  have hrung : Level.relational.rung = 9 := rfl
  refine (hs fuel size hfuel).more (reads_rangeOrList negated) ?_ (fun _ _ => Or.inr rfl) fun hsize => ?_
  · cases negated <;> exact ⟨_, _, rfl, rfl⟩
  · simp only [List.length_cons, List.length_append, List.length_nil] at hsize
    refine .consume_not nofun (.bind_one (reads_expect _) (.bind_one (reads_expect _) ?_))
    exact .bind_zero (reads_list us.length (fun he hlen => h.expression he _ (by omega)) rfl hes
      le_rfl (by omega)) (.bind_one (reads_expect _) (.pure _)) ⟨rfl, nofun⟩

end

/-! ## The ladder -/

/-- What is shown of each scalar of the grammar. -/
structure Ladder (level : Level) (links : Nat) (ts : List Token) (e : Scalar) (n : Nat) : Prop where
  readsAt : ReadsAt level ts e n
  opensInfix : IsInfix level → OpensInfix level links ts e n
  opensPrimary : level = .primary → OpensPrimary links ts e n

section

variable {E : Phrase Scalar} {Q : Phrase Query} {level : Level} {ts us vs : List Token}
  {c a b e : Scalar} {n m p links : Nat}

theorem ladder_infixLevel (hlevel : IsInfix level) (hlinks : links < ts.length)
    (h : OpensInfix level links ts e n) : Ladder level links ts e n :=
  ⟨h.readsAt hlevel hlinks, fun _ => h, fun heq => absurd heq hlevel.2.2⟩

theorem ladder_primary (hlinks : links < ts.length) (h : OpensPrimary links ts e n) :
    Ladder .primary links ts e n :=
  ⟨h.readsAt hlinks, fun hlevel => absurd rfl hlevel.2.2, fun _ => h⟩

/-- The condition alone. -/
theorem readsAt_condition (h : ReadsAt .coalesce ts e n) (hpos : 0 < ts.length) :
    ReadsAt .conditional ts e n := by
  intro fuel hfuel
  have hrung : Level.conditional.rung = 0 := rfl
  have hrung' : Level.coalesce.rung = 1 := rfl
  obtain ⟨fuel, rfl⟩ : ∃ k, fuel = k + 1 := ⟨fuel - 1, by omega⟩
  rw [atLevel]
  refine .bind_last (h _ (by omega)) (.consume_not ?_ (.pure _)) fun _ => Level.stops_tighter
  rintro t ht rfl
  cases ht

theorem readsAt_conditional (h : Inner E Q) (hc : ReadsAt .coalesce ts c n) (ha : E us a m)
    (hb : E vs b p) : ReadsAt .conditional (ts ++ .mark .question :: (us ++ .mark .colon :: vs))
      (.conditional c a b) (max n (max m p)) := by
  intro fuel hfuel
  have hrung : Level.conditional.rung = 0 := rfl
  have hrung' : Level.coalesce.rung = 1 := rfl
  simp only [List.length_cons, List.length_append] at hfuel
  obtain ⟨fuel, rfl⟩ : ∃ k, fuel = k + 1 := ⟨fuel - 1, by omega⟩
  rw [atLevel]
  refine .bind (hc _ (by omega)) (.bind_one (reads_consume _) ?_) rfl
  exact .bind (h.expression ha _ (by omega)) (.bind_one (reads_expect _)
    (.bind_last (h.expression hb _ (by omega)) (.pure _) fun _ ht => ht)) rfl

/-- No prefix operator. -/
theorem readsAt_unprefixed (h : ReadsAt .primary ts e n)
    (hstarts : Starts (·.beginsPrimary = true) ts) : ReadsAt .unary ts e n := by
  intro fuel hfuel
  have hrung : Level.unary.rung = 12 := rfl
  have hrung' : Level.primary.rung = 13 := rfl
  obtain ⟨t, us, rfl, ht⟩ := hstarts
  simp only [List.length_cons] at hfuel
  obtain ⟨fuel, rfl⟩ : ∃ k, fuel = k + 1 := ⟨fuel - 1, by omega⟩
  rw [atLevel]
  refine .token_cons ?_
  rw [Token.not_unary_of_beginsPrimary ht]
  exact (h _ (by simp only [List.length_cons]; omega)).weaken fun _ => Level.stops_tighter

theorem readsAt_unary {op : UnaryOp} (h : ReadsAt .unary ts e n) :
    ReadsAt .unary (op.token :: ts) (.unary op e) (n + 1) := by
  intro fuel hfuel
  have hrung : Level.unary.rung = 12 := rfl
  simp only [List.length_cons] at hfuel
  obtain ⟨fuel, rfl⟩ : ∃ k, fuel = k + 1 := ⟨fuel - 1, by omega⟩
  rw [atLevel]
  refine .token_cons ?_
  have hop : UnaryOp.ofToken? op.token = some op := by cases op <;> rfl
  rw [hop]
  exact .bind_one (reads_advance _) (.nested (h _ (by omega)))

/-- The scalars of the grammar are read at their level. -/
theorem ladder (h : Inner E Q) (he : IsScalar E Q level links ts e n) :
    Ladder level links ts e n := by
  have hlinks := he.links_lt
  induction he with
  | @lift level _ _ _ _ hlevel he ih =>
    have ih := ih he.links_lt
    obtain hinfix | rfl | rfl | rfl := isInfix_or level
    · exact ladder_infixLevel hinfix hlinks (opens_infixLevel hinfix ih.readsAt)
    · exact ⟨readsAt_condition ih.readsAt hlinks, fun h => absurd rfl h.1, nofun⟩
    · exact ⟨readsAt_unprefixed ih.readsAt he.starts, fun h => absurd rfl h.2.1, nofun⟩
    · exact absurd rfl hlevel
  | conditional hc ha hb ih =>
    exact ⟨readsAt_conditional h (ih hc.links_lt).readsAt ha hb, fun hlevel => absurd rfl hlevel.1,
      nofun⟩
  | coalesce hl hr ihl ihr =>
    have hlevel : IsInfix .coalesce := ⟨nofun, nofun, nofun⟩
    exact ladder_infixLevel hlevel hlinks
      (.coalesce ((ihl hl.links_lt).opensInfix hlevel) (ihr hr.links_lt).readsAt)
  | binary hop hl hr ihl ihr =>
    exact ladder_infixLevel isInfix_of_binary hlinks
      (.binary hop ((ihl hl.links_lt).opensInfix isInfix_of_binary) (ihr hr.links_lt).readsAt)
  | between hs hl hh ihs ihl ihh =>
    have hlevel : IsInfix .relational := ⟨nofun, nofun, nofun⟩
    exact ladder_infixLevel hlevel hlinks (.between ((ihs hs.links_lt).opensInfix hlevel)
      (ihl hl.links_lt).readsAt (ihh hh.links_lt).readsAt)
  | among hs hes ihs =>
    have hlevel : IsInfix .relational := ⟨nofun, nofun, nofun⟩
    exact ladder_infixLevel hlevel hlinks (.among h ((ihs hs.links_lt).opensInfix hlevel) hes)
  | unary he ih =>
    exact ⟨readsAt_unary (ih he.links_lt).readsAt, fun hlevel => absurd rfl hlevel.2.1, nofun⟩
  | property ho hname ih =>
    exact ladder_primary hlinks (.property ((ih ho.links_lt).opensPrimary rfl))
  | index ho he ih =>
    exact ladder_primary hlinks (.index h ((ih ho.links_lt).opensPrimary rfl) he)
  | literal hv => exact ladder_primary hlinks (opens_primary fun _ _ => reads_literal)
  | parameter hname => exact ladder_primary hlinks (opens_primary fun _ _ => reads_parameter _)
  | name hname => exact ladder_primary hlinks (opens_primary fun _ _ => reads_name _)
  | group he =>
    refine ladder_primary hlinks (opens_primary fun fuel hfuel => h.reads_group he ?_)
    simp only [List.length_cons, List.length_append, List.length_nil] at hfuel
    omega
  | call hname hes =>
    refine ladder_primary hlinks (opens_primary fun fuel hfuel => h.reads_call hes ?_)
    simp only [List.length_cons, List.length_append, List.length_nil] at hfuel
    omega
  | array hes =>
    refine ladder_primary hlinks (opens_primary fun fuel hfuel => h.reads_array hes ?_)
    simp only [List.length_cons, List.length_append, List.length_nil] at hfuel
    omega
  | object hfields =>
    refine ladder_primary hlinks (opens_primary fun fuel hfuel => h.reads_object hfields ?_)
    simp only [List.length_cons, List.length_append, List.length_nil] at hfuel
    omega
  | subquery hq =>
    refine ladder_primary hlinks (opens_primary fun fuel hfuel => h.reads_subquery hq ?_)
    simp only [List.length_cons, List.length_append, List.length_nil] at hfuel
    omega

/-- A whole expression, one level deeper. -/
theorem Inner.reads_expression (h : Inner E Q) (he : IsScalar E Q .conditional links ts e n)
    (fuel : Nat) (hfuel : 16 * ts.length ≤ fuel) :
    Reads (Reading.expression fuel) ts e (n + 1) (Level.conditional.stops · = true) := by
  have hlinks := he.links_lt
  obtain ⟨fuel, rfl⟩ : ∃ k, fuel = k + 1 := ⟨fuel - 1, by omega⟩
  rw [Reading.expression]
  exact .nested ((ladder h he).readsAt fuel (by omega))

end

end Reading

end DocQuery
