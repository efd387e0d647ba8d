import DocQuery.Proofs.Grammar.Tells
import DocQuery.Proofs.Grammar.Ladder

/-!
# What reading an expression tells

Each part of an expression tells phrases of the grammar (`Reading.Tells`) for any `expression` and
`query` that do so: primary expressions and their accesses, infix levels, and the levels of the ladder
(`tells_atLevel`).
-/

namespace DocQuery

open Grammar

namespace Reading

section

variable {expression : Reading Scalar} {query : Reading Query} {E : Phrase Scalar} {Q : Phrase Query}
  {fuel : Nat}

/-! ## Primary expressions -/

theorem tells_parenthesizedQuery (hQ : TellsPhrase query Q) :
    Tells (parenthesizedQuery query) fun ts q =>
      ∃ us n, ts = us ++ [.mark .rightParen] ∧ Q us q n := by
  have htells : Tells (do let q ← query; expect (.mark .rightParen); return q) fun ts q =>
      ∃ us n, ts = us ++ [.mark .rightParen] ∧ Q us q n :=
    .bind hQ fun us q ⟨n, hq⟩ => .expect nofun (.pure ⟨us, n, rfl, hq⟩)
  refine .isAt fun found => ?_
  split
  · exact htells
  · exact ⟨answers_unexpected htells.begins _, htells.begins⟩

theorem tells_queryArgument (hQ : TellsPhrase query Q) :
    Tells (queryArgument query) fun ts q =>
      ∃ us n, ts = .mark .leftParen :: (us ++ [.mark .rightParen]) ∧ Q us q n := by
  refine .expect nofun (.weaken (tells_parenthesizedQuery hQ) ?_)
  rintro _ q ⟨us, n, rfl, hq⟩
  exact ⟨us, n, rfl, hq⟩

theorem tells_call (hE : TellsPhrase expression E) (name : String) (userDefined : Bool) :
    Tells (call name userDefined expression fuel) fun ts e => ∃ us es n,
      ts = .mark .leftParen :: (us ++ [.mark .rightParen]) ∧ Items E us es n ∧
        e = .call name userDefined es := by
  refine .expect nofun (.bind (tells_delimited hE (.mark .rightParen) nofun) ?_)
  rintro _ es ⟨us, n, rfl, hes⟩
  refine .bind (tells_note ⟨name, userDefined⟩) fun _ _ hnil => .pure ⟨us, es, n, ?_, hes, rfl⟩
  rw [hnil, List.append_nil, List.append_nil]

theorem tells_field (hE : TellsPhrase expression E) : TellsPhrase (field expression) (IsField E) := by
  have htells (key : String) : Tells (do
      expect (.mark .colon)
      let value ← expression
      return Field.mk key value) fun ts a => ∃ n, IsField E (.string key :: ts) a n := by
    refine .expect nofun (.bind hE fun ts e ⟨n, he⟩ => .pure ⟨n, ?_⟩)
    rw [List.append_nil]
    exact .mk he
  have hbegins : Begins (fun ts a => ∃ n, IsField E ts a n) [] := by
    obtain ⟨us, a, n, ha⟩ := (htells "").begins
    exact ⟨_, a, n, ha⟩
  refine ⟨.token fun t _ => ?_, hbegins⟩
  split
  · exact .advance nofun (htells _)
  · exact answers_unexpected hbegins _

theorem tells_primary (hE : TellsPhrase expression E) (hQ : TellsPhrase query Q) :
    TellsPhrase (primary expression query fuel) (IsScalar E Q .primary 0) := by
  have hzero : IsScalar E Q .primary 0 [.integer 0] (.number (.integer 0)) 0 :=
    .literal (v := .number (.integer 0)) rfl
  refine tells_bump .expression ⟨[], _, 0, hzero⟩ fun t => ?_
  cases t with
  | integer k =>
    exact .inl ⟨nofun, fun _ => rfl, fun ht => .pure ⟨0, .literal (v := .number (.integer k)) ht⟩⟩
  | double x =>
    exact .inl ⟨nofun, fun _ => rfl, fun ht => .pure ⟨0, .literal (v := .number (.double x)) ht⟩⟩
  | string value =>
    exact .inl ⟨nofun, fun _ => rfl, fun ht => .pure ⟨0, .literal (v := .string value) ht⟩⟩
  | parameter name => exact .inl ⟨nofun, fun _ => rfl, fun ht => .pure ⟨0, .parameter ht⟩⟩
  | identifier name =>
    refine .inl ⟨nofun, fun _ => rfl, fun ht => .isAt fun found => ?_⟩
    split
    · refine .weaken (tells_call hE name false) ?_
      rintro _ _ ⟨us, es, n, rfl, hes, rfl⟩
      have h : IsScalar E Q .primary 0 _ (.call name false es) n := .call ht hes
      exact ⟨n, h⟩
    · exact .pure ⟨0, .name ht⟩
  | keyword k =>
    cases k
    case true =>
      exact .inl ⟨nofun, fun _ => rfl, fun ht => .pure ⟨0, .literal (v := .boolean true) ht⟩⟩
    case false =>
      exact .inl ⟨nofun, fun _ => rfl, fun ht => .pure ⟨0, .literal (v := .boolean false) ht⟩⟩
    case null => exact .inl ⟨nofun, fun _ => rfl, fun ht => .pure ⟨0, .literal (v := .null) ht⟩⟩
    case undefined =>
      exact .inl ⟨nofun, fun _ => rfl, fun ht => .pure ⟨0, .literal (v := .undefined) ht⟩⟩
    case «exists» =>
      refine .inl ⟨nofun, fun _ => rfl, fun _ => .map (tells_queryArgument hQ) ?_⟩
      rintro _ q ⟨us, n, rfl, hq⟩
      have h : IsScalar E Q .primary 0 _ (.subquery .exists q) n := .subquery hq
      exact ⟨n, h⟩
    case array =>
      refine .inl ⟨nofun, fun _ => rfl, fun _ => .map (tells_queryArgument hQ) ?_⟩
      rintro _ q ⟨us, n, rfl, hq⟩
      have h : IsScalar E Q .primary 0 _ (.subquery .array q) n := .subquery hq
      exact ⟨n, h⟩
    case udf =>
      refine .inl ⟨nofun, fun _ => rfl, fun _ => .expect nofun (.identifier fun name hname =>
        .weaken (tells_call hE name true) ?_)⟩
      rintro _ _ ⟨us, es, n, rfl, hes, rfl⟩
      have h : IsScalar E Q .primary 0 _ (.call name true es) n := .call hname hes
      exact ⟨n, h⟩
    all_goals exact .inr fun _ => rfl
  | mark m =>
    cases m
    case leftParen =>
      refine .inl ⟨nofun, fun _ => rfl, fun _ => .isAt fun found => ?_⟩
      split
      · refine .map (tells_parenthesizedQuery hQ) ?_
        rintro _ q ⟨us, n, rfl, hq⟩
        have h : IsScalar E Q .primary 0 _ (.subquery .value q) n := .subquery hq
        exact ⟨n, h⟩
      · exact .bind hE fun us e ⟨n, he⟩ => .expect nofun (.pure ⟨n, .group he⟩)
    case leftBracket =>
      refine .inl ⟨nofun, fun _ => rfl, fun _ =>
        .map (tells_delimited hE (.mark .rightBracket) nofun) ?_⟩
      rintro _ es ⟨us, n, rfl, hes⟩
      exact ⟨n, .array hes⟩
    case leftBrace =>
      refine .inl ⟨nofun, fun _ => rfl, fun _ =>
        .map (tells_delimited (tells_field hE) (.mark .rightBrace) nofun) ?_⟩
      rintro _ fields ⟨us, n, rfl, hfields⟩
      exact ⟨n, .object hfields⟩
    all_goals exact .inr fun _ => rfl
  | endOfText => exact .inr fun _ => rfl

/-! ## Accesses -/

/-- The tokens that an access or a step of a path begins with. -/
def Access.token : Access → Token
  | .dot => .mark .dot
  | .bracket => .mark .leftBracket

theorem tells_access : Tells access? (Link fun ts access => ts = [access.token]) :=
  .consume nofun (.pure rfl) (.consume nofun (.pure rfl) (.pure rfl))

theorem tells_accessStep (hE : TellsPhrase expression E) (access : Access) {links ts o}
    (ho : ∃ n, IsScalar E Q .primary links ts o n) :
    Tells (accessStep expression o access) fun us e =>
      ∃ n, IsScalar E Q .primary (links + 1) (ts ++ (access.token :: us)) e n := by
  obtain ⟨n, ho⟩ := ho
  cases access with
  | dot =>
    refine .map tells_identifier ?_
    rintro _ name ⟨hname, rfl⟩
    exact ⟨_, .property ho hname⟩
  | bracket => exact .bind hE fun us i ⟨m, hi⟩ => .expect nofun (.pure ⟨_, .index ho hi⟩)

/-- A primary expression and the accesses behind it. -/
theorem tells_accesses (hE : TellsPhrase expression E) (hQ : TellsPhrase query Q) :
    Tells (do
      let first ← primary expression query fuel
      chain access? (accessStep expression) fuel 0 first) fun ts e =>
      ∃ links n, IsScalar E Q .primary links ts e n := by
  refine .bind (tells_primary hE hQ) fun ts o ho => ?_
  refine tells_chain (C := fun links ts e => ∃ n, IsScalar E Q .primary links ts e n)
    tells_access ?_ ho
  rintro links ts l _ access hl rfl
  exact tells_accessStep hE access hl

/-! ## Infix levels -/

/-- The tokens that the beginning of a link passes over. -/
def Infix.tokens : Infix → List Token
  | .binary op => [op.token]
  | .coalesce => [.mark .doubleQuestion]
  | .rangeOrList negated => notTokens negated

/-- The level of a link. -/
def Infix.level : Infix → Level
  | .binary op => op.level
  | .coalesce => .coalesce
  | .rangeOrList _ => .relational

theorem tells_infix? (level : Level) : Tells (infix? level)
    (Link fun ts i => ts = i.tokens ∧ i.level = level ∧ i ≠ .binary .coalesce) := by
  refine ⟨.token fun t ht => ?_, [], none, rfl⟩
  split
  · rename_i op hop
    obtain ⟨hlevel, rfl⟩ := BinaryOp.level_of_ofToken? hop
    refine .advance op.token_ne_endOfText (.pure ⟨rfl, hlevel, ?_⟩)
    rintro ⟨⟩
    cases hlevel
    cases hop
  · split
    · exact .advance nofun (.pure ⟨rfl, rfl, nofun⟩)
    · -- behind `NOT` there is no link but one of these
      have hbegins : Begins (fun us (i? : Option Infix) => Link (fun ts (i : Infix) =>
          ts = i.tokens ∧ i.level = .relational ∧ i ≠ .binary .coalesce) (.keyword .not :: us) i?)
          [] :=
        ⟨[], some (.rangeOrList true), rfl, rfl, nofun⟩
      refine .advance nofun ⟨.token fun t _ => ?_, hbegins⟩
      split
      · exact .pure ⟨rfl, rfl, nofun⟩
      · exact .pure ⟨rfl, rfl, nofun⟩
      · exact answers_unexpected hbegins _
    · exact .pure ⟨rfl, rfl, nofun⟩
    · exact .pure ⟨rfl, rfl, nofun⟩
    · exact .pure rfl

theorem tells_infixStep {above : Reading Scalar} {level : Level}
    (habove : Tells above fun ts e => ∃ j n, IsScalar E Q level.tighter j ts e n)
    (hE : TellsPhrase expression E) {i : Infix} (hlevel : i.level = level)
    (hi : i ≠ .binary .coalesce) {links ts l} (hl : ∃ n, IsScalar E Q level links ts l n) :
    Tells (infixStep above expression fuel l i) fun us e =>
      ∃ n, IsScalar E Q level (links + 1) (ts ++ (i.tokens ++ us)) e n := by
  obtain ⟨n, hl⟩ := hl
  subst hlevel
  cases i with
  | binary op =>
    refine .map habove ?_
    rintro us r ⟨j, m, hr⟩
    exact ⟨_, .binary (fun hop => hi (congrArg _ hop)) hl hr⟩
  | coalesce =>
    refine .map habove ?_
    rintro us r ⟨j, m, hr⟩
    exact ⟨_, .coalesce hl hr⟩
  | rangeOrList negated =>
    refine .consume nofun ?_ ?_
    · refine .bind habove fun us low ⟨i, m, hlow⟩ => .expect nofun (.bind habove ?_)
      rintro vs high ⟨j, p, hhigh⟩
      refine .pure ?_
      rw [List.append_nil]
      exact ⟨_, .between hl hlow hhigh⟩
    · refine .expect nofun (.expect nofun (.bind (tells_list hE) fun us es ⟨m, hes⟩ =>
        .expect nofun (.pure ⟨_, .among hl hes⟩)))

/-! ## The ladder -/

/-- An infix level: operands of the level above in a chain. -/
theorem tells_infixLevel {above : Reading Scalar} {level : Level} (hlevel : level ≠ .primary)
    (habove : Tells above fun ts e => ∃ j n, IsScalar E Q level.tighter j ts e n)
    (hE : TellsPhrase expression E) :
    Tells (do
      let first ← above
      chain (infix? level) (infixStep above expression fuel) fuel 0 first) fun ts e =>
      ∃ links n, IsScalar E Q level links ts e n := by
  refine .bind habove ?_
  rintro ts l ⟨j, n, hl⟩
  refine tells_chain (C := fun links ts e => ∃ n, IsScalar E Q level links ts e n)
    (tells_infix? level) ?_ ⟨n, .lift hlevel hl⟩
  rintro links ts l _ i hl ⟨rfl, hi, hne⟩
  exact tells_infixStep habove hE hi hne hl

theorem tells_conditional {condition : Reading Scalar}
    (hcondition : Tells condition fun ts e => ∃ j n, IsScalar E Q .coalesce j ts e n)
    (hE : TellsPhrase expression E) :
    Tells (do
      let condition ← condition
      if ← consume (.mark .question) then
        let consequent ← expression
        expect (.mark .colon)
        let alternative ← expression
        return .conditional condition consequent alternative
      else return condition) fun ts e => ∃ links n, IsScalar E Q .conditional links ts e n := by
  refine .bind hcondition ?_
  rintro ts c ⟨j, n, hc⟩
  refine .consume nofun ?_ ?_
  · refine .bind hE fun us a ⟨m, ha⟩ => .expect nofun (.bind hE fun vs b ⟨p, hb⟩ => .pure ?_)
    rw [List.append_nil]
    exact ⟨_, _, .conditional hc ha hb⟩
  · refine .pure ?_
    rw [List.append_nil]
    exact ⟨_, _, .lift nofun hc⟩

theorem tells_prefixed {operand unprefixed : Reading Scalar}
    (hoperand : Tells operand fun ts e => ∃ j n, IsScalar E Q .unary j ts e n)
    (hunprefixed : Tells unprefixed fun ts e => ∃ j n, IsScalar E Q .primary j ts e n) :
    Tells (do
      match UnaryOp.ofToken? (← token) with
      | some op =>
        advance
        descend
        let operand ← operand
        ascend
        return .unary op operand
      | none => unprefixed) fun ts e => ∃ links n, IsScalar E Q .unary links ts e n := by
  have hlift : Tells unprefixed fun ts e => ∃ links n, IsScalar E Q .unary links ts e n := by
    refine .weaken hunprefixed ?_
    rintro ts e ⟨j, n, he⟩
    exact ⟨_, _, .lift nofun he⟩
  refine ⟨.token fun t _ => ?_, hlift.begins⟩
  split
  · rename_i op hop
    obtain rfl := UnaryOp.token_of_ofToken? hop
    refine .advance op.token_ne_endOfText (.nested hoperand ?_)
    rintro ts e ⟨j, n, he⟩
    exact ⟨_, _, .unary he⟩
  · exact .at hlift

/-- Each level tells scalars of the grammar, if whole expressions and queries tell phrases, and the next
level tells such. -/
theorem tells_atLevel {fuel : Nat} (hE : TellsPhrase (Reading.expression fuel) E)
    (hQ : TellsPhrase (Reading.query fuel) Q)
    (h : ∀ level, Tells (atLevel level fuel) fun ts e =>
      ∃ links n, IsScalar E Q level links ts e n) (level : Level) :
    Tells (atLevel level (fuel + 1)) fun ts e => ∃ links n, IsScalar E Q level links ts e n := by
  obtain hlevel | rfl | rfl | rfl := isInfix_or level
  · rw [atLevel_infixLevel hlevel]
    exact tells_infixLevel hlevel.2.2 (h _) hE
  · rw [atLevel]
    exact tells_conditional (h _) hE
  · rw [atLevel]
    exact tells_prefixed (h _) (h _)
  · rw [atLevel]
    exact tells_accesses hE hQ

end

end Reading

end DocQuery
