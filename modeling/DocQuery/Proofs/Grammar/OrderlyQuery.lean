import DocQuery.Proofs.Grammar.Orderly

/-!
# The grammar is in good order

All readings of the grammar are in good order. Rounds in proportion to the tokens that are left are
enough for them: fewer than sixteen calls follow each other before a token is passed over.

* `Reading.Paced step`: sixteen rounds of `step` for each token that is left are enough.
* `Reading.paced_expression`, `Reading.paced_query`: they are so for the whole grammar.
* `Session.run_ne_outOfFuel`: no session ends a reading for want of rounds.
-/

namespace DocQuery

namespace Reading

section

variable {α : Type} {body : Reading α} {expression : Reading Scalar} {query : Reading Query}
  {bound next fuel : Nat}

/-! ## Primary expressions -/

theorem Orderly.parenthesizedQuery (hQ : Orderly bound 0 query) :
    Orderly bound next (parenthesizedQuery query) :=
  .bind (.isAt _) fun _ =>
    .ite (.bind hQ fun _ => .bind (.expect nofun) fun _ => .pure _) (.unexpected _)

theorem Orderly.queryArgument (hQ : Orderly bound 0 query) :
    Orderly bound next (queryArgument query) :=
  .bind (.expect nofun) fun _ => hQ.parenthesizedQuery

theorem Orderly.call (hE : Orderly bound 0 expression) (hfuel : bound ≤ fuel) (name : String)
    (userDefined : Bool) : Orderly bound next (call name userDefined expression fuel) :=
  .bind (.expect nofun) fun _ => .bind (hE.delimited _ hfuel) fun _ =>
    .bind (.note ⟨name, userDefined⟩) fun _ => .pure _

theorem Orderly.field (hE : Orderly bound 0 expression) : Orderly bound next (field expression) := by
  refine .look fun t => ?_
  cases t with
  | string key =>
    exact .bind .advance fun _ => .bind (.expect nofun) fun _ => .bind hE fun _ => .pure _
  | _ => exact .unexpected _

/-- What stands behind the first token of a primary expression is one token shorter. -/
theorem Orderly.primary (hE : Orderly (bound - 1) 0 expression) (hQ : Orderly (bound - 1) 0 query)
    (hfuel : bound - 1 ≤ fuel) : Orderly bound next (primary expression query fuel) := by
  refine .bind .position fun place => .bump rfl nofun fun t ht => ?_
  cases t with
  | integer | double | string | parameter => exact .pure _
  | identifier name => exact .bind (.isAt _) fun _ => .ite (hE.call hfuel name false) (.pure _)
  | keyword k =>
    cases k with
    | true | false | null | undefined => exact .pure _
    | «exists» | array => exact .map hQ.queryArgument
    | udf =>
      exact .bind (.expect nofun) fun _ => .bind .identifier fun name => hE.call hfuel name true
    | _ => exact .fail nofun
  | mark m =>
    cases m with
    | leftParen =>
      exact .bind (.isAt _) fun _ => .ite (.map hQ.parenthesizedQuery)
        (.bind hE fun e => .bind (.expect nofun) fun _ => .pure e)
    | leftBracket => exact .map (hE.delimited _ hfuel)
    | leftBrace => exact .map (hE.field.delimited _ hfuel)
    | _ => exact .fail nofun
  | endOfText => exact absurd rfl ht

/-! ## Accesses and infix levels -/

theorem Orderly.access? : Orderly bound next access? :=
  .bind (.consume nofun) fun _ =>
    .ite (.pure _) (.bind (.consume nofun) fun _ => .ite (.pure _) (.pure _))

theorem takes_access? : Takes access? fun a? => a?.elim 0 fun _ => 1 := by
  refine .bind (takes_consume nofun) fun found => ?_
  cases found with
  | true => exact .pure rfl
  | false =>
    refine .bind (takes_consume nofun) fun found => ?_
    cases found with
    | true => exact .pure rfl
    | false => exact .pure rfl

theorem Orderly.accessStep (hE : Orderly bound 0 expression) (owner : Scalar) (access : Access) :
    Orderly bound 0 (accessStep expression owner access) := by
  cases access with
  | dot => exact .map .identifier
  | bracket => exact .bind hE fun _ => .bind (.expect nofun) fun _ => .pure _

theorem Orderly.infix? (level : Level) : Orderly bound next (infix? level) := by
  refine .look fun t => ?_
  split
  · rename_i op hop
    rw [← (BinaryOp.level_of_ofToken? hop).2, Token.count_of_ne op.token_ne_endOfText]
    exact .bind .advance fun _ => .pure _
  · split
    · exact .bind .advance fun _ => .pure _
    · refine .bind .advance fun _ => .look fun u => ?_
      split
      · exact .pure _
      · exact .pure _
      · exact .unexpected _
    · exact .pure _
    · exact .pure _
    · exact .pure _

/-- How many tokens have been passed over where a link of an infix level has begun. `BETWEEN` and
`IN` have not. -/
def Infix.count : Infix → Nat
  | .rangeOrList _ => 0
  | _ => 1

theorem takes_infix? (level : Level) : Takes (infix? level) fun i? => i?.elim 0 Infix.count := by
  intro s i? s' h
  have horderly : Orderly 0 0 (infix? level) := .infix? level
  have hle := horderly.takes h
  unfold infix? at h
  rw [run_bind_ok (run_token s)] at h
  split at h
  · rename_i op hop
    obtain ⟨_, m, hrun, hrest⟩ := exists_of_run_bind h
    have hleft := left_of_advance hrun
    rw [← (BinaryOp.level_of_ofToken? hop).2, Token.count_of_ne op.token_ne_endOfText] at hleft
    cases hrest
    exact hleft
  · split at h
    · rename_i htoken _
      obtain ⟨_, m, hrun, hrest⟩ := exists_of_run_bind h
      have hleft := left_of_advance hrun
      rw [htoken] at hleft
      cases hrest
      exact hleft
    · obtain ⟨_, m, hrun, hrest⟩ := exists_of_run_bind h
      rw [run_bind_ok (run_token m)] at hrest
      split at hrest <;> cases hrest
      · exact hle
      · exact hle
    · cases h
      exact hle
    · cases h
      exact hle
    · cases h
      exact hle

/-- A link passes over a token, at its beginning or behind it. -/
theorem Orderly.infixStep {above : Reading Scalar} (habove : Orderly bound 0 above)
    (hE : Orderly (bound - 1) 0 expression) (hfuel : bound - 1 ≤ fuel) (left : Scalar) (i : Infix) :
    Orderly (bound - i.count) 0 (infixStep above expression fuel left i) ∧
      Takes (infixStep above expression fuel left i) fun _ => 1 - i.count := by
  have hless := habove.mono (Nat.sub_le bound 1) (Nat.le_refl _)
  cases i with
  | binary op =>
    have hlink := hless.map (g := Scalar.binary op left)
    exact ⟨hlink, hlink.takes⟩
  | coalesce =>
    have hlink := hless.map (g := Scalar.coalesce left)
    exact ⟨hlink, hlink.takes⟩
  | rangeOrList negated =>
    have hrange : Orderly bound 0 (do
        let low ← above
        Reading.expect (.keyword .and)
        let high ← above
        return Scalar.between left low high negated) :=
      .bind habove fun _ => .bind (.expect nofun) fun _ => .bind habove fun _ => .pure _
    have hitems : Orderly (bound - 1) 0 (do
        Reading.expect (.mark .leftParen)
        let items ← Reading.list expression fuel
        Reading.expect (.mark .rightParen)
        return Scalar.among left items negated) :=
      .bind (.expect nofun) fun _ => .bind (hE.list hfuel) fun _ => .bind (.expect nofun) fun _ =>
        .pure _
    constructor
    · exact .bind (.consume nofun) fun _ => .ite hrange (.after nofun hitems)
    · refine .bind (takes_consume nofun) fun found => ?_
      cases found with
      | true => exact hrange.takes
      | false => exact .bind (takes_expect nofun) fun _ => hitems.takes

/-- A prefix operator and what stands behind it, or what binds tighter. -/
theorem Orderly.prefixed {operand unprefixed : Reading Scalar}
    (hoperand : Orderly (bound - 1) 0 operand) (hunprefixed : Orderly bound 0 unprefixed) :
    Orderly bound next (do
      match UnaryOp.ofToken? (← Reading.token) with
      | some op =>
        Reading.advance
        Reading.descend
        let e ← operand
        ascend
        return .unary op e
      | none => unprefixed) := by
  refine .look fun t => ?_
  split
  · rename_i op hop
    rw [← UnaryOp.token_of_ofToken? hop, Token.count_of_ne op.token_ne_endOfText]
    exact .pass (.nested hoperand)
  · exact hunprefixed.mono (Nat.le_refl _) (Nat.zero_le _)

/-! ## Clauses -/

theorem Orderly.clause? (word : Keyword) (hbody : Orderly bound 0 body) :
    Orderly bound next (clause? word body) :=
  .bind (.consume nofun) fun _ => .ite (.map hbody) (.pure none)

theorem Orderly.clauseBy? (word : Keyword) (hbody : Orderly bound 0 body) :
    Orderly bound next (clauseBy? word body) :=
  .clause? word (.bind (.expect nofun) fun _ => hbody)

theorem Orderly.count : Orderly bound next count := by
  refine .look fun t => ?_
  cases t with
  | integer | double | parameter => exact .bind .advance fun _ => .pure _
  | _ => exact .unexpected _

theorem Orderly.alias? : Orderly bound next alias? := by
  refine .bind (.consume nofun) fun _ => .ite (.map .identifier) (.look fun t => ?_)
  cases t with
  | identifier name => exact .map .identifier
  | _ => exact .pure none

theorem Orderly.selectItem (hE : Orderly bound 0 expression) :
    Orderly bound 0 (selectItem expression) :=
  .bind hE fun _ => .bind .alias? fun _ => .pure _

theorem Orderly.projection (hE : Orderly bound 0 expression) (hfuel : bound ≤ fuel) :
    Orderly bound next (projection expression fuel) :=
  .bind (.consume nofun) fun _ => .ite (.pure _) (.bind (.consume nofun) fun _ =>
    .ite (.map hE) (.map (hE.selectItem.list hfuel)))

theorem Orderly.pathKey : Orderly bound next pathKey := by
  refine .bind .position fun place => .bump rfl nofun fun t ht => ?_
  cases t with
  | integer | double | string => exact .pure _
  | _ => exact .fail nofun

theorem Orderly.pathStep (before : List Segment) (access : Access) :
    Orderly bound next (pathStep before access) := by
  cases access with
  | dot => exact .bind .identifier fun _ => .pure _
  | bracket => exact .bind .pathKey fun _ => .bind (.expect nofun) fun _ => .pure _

theorem Orderly.inputPath (hfuel : bound ≤ fuel) (input : String) :
    Orderly bound next (inputPath input fuel) :=
  .bind (.chain_one .access? takes_access? (fun before access => .pathStep before access) hfuel [])
    fun _ => .pure _

theorem Orderly.join? : Orderly bound next join? :=
  .bind (.consume nofun) fun _ => .ite (.pure _) (.pure _)

theorem takes_join? : Takes join? fun o? => o?.elim 0 fun _ => 1 := by
  refine .bind (takes_consume nofun) fun found => ?_
  cases found with
  | true => exact .pure rfl
  | false => exact .pure rfl

section

variable (hE : Orderly bound 0 expression) (hQ : Orderly bound 0 query) (hfuel : bound ≤ fuel)
include hE hQ hfuel

theorem Orderly.collection : Orderly bound next (collection expression query fuel) := by
  refine .look fun t => ?_
  cases t with
  | identifier name => exact .bind .identifier fun input => .inputPath hfuel input
  | mark m =>
    cases m with
    | leftParen => exact .bind .advance fun _ => .map hQ.parenthesizedQuery
    | leftBracket =>
      exact .bind .advance fun _ => .bind (hE.list hfuel) fun _ => .bind (.expect nofun) fun _ =>
        .pure _
    | _ => exact .unexpected _
  | _ => exact .unexpected _

theorem Orderly.operand : Orderly bound next (operand expression query fuel) := by
  refine .look fun t => ?_
  cases t with
  | identifier name =>
    exact .bind .identifier fun name => .bind (.consume nofun) fun _ =>
      .ite (.map (hE.collection hQ hfuel))
        (.bind (.inputPath hfuel name) fun _ => .bind .alias? fun _ => .pure _)
  | _ => exact .bind (hE.collection hQ hfuel) fun _ => .bind .alias? fun _ => .pure _

theorem Orderly.source : Orderly bound next (source expression query fuel) := by
  have hoperand : Orderly bound 0 (Reading.operand expression query fuel) := hE.operand hQ hfuel
  have hjoined := hoperand.mono (Nat.sub_le bound 1) (Nat.le_refl _)
  exact .bind (hE.operand hQ hfuel) fun first =>
    .chain_one .join? takes_join? (fun left _ => .map hjoined) hfuel first

end

theorem Orderly.sortKey (hE : Orderly bound 0 expression) : Orderly bound 0 (sortKey expression) :=
  .bind hE fun _ => .bind (.consume nofun) fun _ =>
    .ite (.pure _) (.bind (.consume nofun) fun _ => .pure _)

theorem Orderly.window : Orderly bound next window :=
  .bind .count fun _ => .bind (.expect nofun) fun _ => .bind .count fun _ => .pure _

/-- All clauses stand behind `SELECT`. -/
theorem Orderly.clauses (hE : Orderly (bound - 1) 0 expression) (hQ : Orderly (bound - 1) 0 query)
    (hfuel : bound - 1 ≤ fuel) : Orderly bound next (clauses expression query fuel) :=
  .after nofun <| .bind (.consume nofun) fun _ => .bind (.clause? _ .count) fun _ =>
    .bind (hE.projection hfuel) fun _ => .bind (.clause? _ (hE.source hQ hfuel)) fun _ =>
    .bind (.clause? _ hE) fun _ => .bind (.clauseBy? _ (hE.list hfuel)) fun _ =>
    .bind (.clauseBy? _ (hE.sortKey.list hfuel)) fun _ => .bind (.clause? _ .window) fun _ => .pure _

end

/-! ## The whole grammar -/

/-- A level has one round less than its expression for each call between them. -/
theorem orderly_all (fuel : Nat) :
    (∀ bound, 16 * bound ≤ fuel → Orderly bound 0 (expression fuel)) ∧
    (∀ level bound, 16 * bound ≤ fuel + 1 + level.rung → Orderly bound 0 (atLevel level fuel)) ∧
    (∀ bound, 16 * bound ≤ fuel → Orderly bound 0 (query fuel)) := by
  induction fuel with
  | zero =>
    refine ⟨fun bound h => ?_, fun level bound h => ?_, fun bound h => ?_⟩
    · obtain rfl : bound = 0 := by omega
      rw [expression]
      exact .spent
    · have hrung : level.rung ≤ 13 := level.rung_le_primary
      obtain rfl : bound = 0 := by omega
      rw [atLevel]
      exact .spent
    · obtain rfl : bound = 0 := by omega
      rw [query]
      exact .spent
  | succ fuel ih =>
    obtain ⟨hE, hlevel, hQ⟩ := ih
    refine ⟨fun bound h => ?_, fun level bound h => ?_, fun bound h => ?_⟩
    · rw [expression]
      exact .nested (hlevel .conditional bound (by omega))
    · have hrung : level.rung ≤ 13 := level.rung_le_primary
      have hinner := hE (bound - 1) (by omega)
      obtain hinfix | rfl | rfl | rfl := isInfix_or level
      · have htighter := Level.rung_tighter hinfix.2.2
        have habove := hlevel level.tighter bound (by omega)
        rw [atLevel_infixLevel hinfix]
        exact .bind habove fun first => .chain _ (.infix? level) (takes_infix? level)
          (fun left i => (habove.infixStep hinner (by omega) left i).1)
          (fun left i => (habove.infixStep hinner (by omega) left i).2) (by omega) first
      · rw [atLevel]
        exact .bind (hlevel _ bound h) fun _ => .option (by decide)
          (.bind hinner fun _ => .bind (.expect (by decide)) fun _ => .bind hinner fun _ => .pure _)
          (.pure _)
      · rw [atLevel]
        exact .prefixed (hlevel .unary (bound - 1) (by omega)) (hlevel .primary bound h)
      · have hfuel : bound - 1 ≤ fuel := by omega
        have hprimary : Orderly bound 0 (primary (expression fuel) (query fuel) fuel) :=
          hinner.primary (hQ (bound - 1) (by omega)) hfuel
        rw [atLevel]
        exact .bind hprimary fun first => .chain_one .access? takes_access?
          (fun owner access => hinner.accessStep owner access) (by omega) first
    · rw [query]
      exact .nested ((hE (bound - 1) (by omega)).clauses (hQ (bound - 1) (by omega)) (by omega))

/-- Whatever the rounds, the grammar is in good order. -/
theorem orderly_expression (fuel : Nat) : Orderly 0 0 (expression fuel) :=
  (orderly_all fuel).1 0 (Nat.zero_le _)

theorem orderly_atLevel (level : Level) (fuel : Nat) : Orderly 0 0 (atLevel level fuel) :=
  (orderly_all fuel).2.1 level 0 (Nat.zero_le _)

theorem orderly_query (fuel : Nat) : Orderly 0 0 (query fuel) :=
  (orderly_all fuel).2.2 0 (Nat.zero_le _)

/-! ## Rounds -/

/-- Sixteen rounds for each token that is left are enough. -/
def Paced {α : Type} (step : Nat → Reading α) : Prop :=
  ∀ ⦃bound fuel⦄, 16 * bound ≤ fuel → Orderly bound 0 (step fuel)

theorem paced_expression : Paced expression := fun bound fuel => (orderly_all fuel).1 bound

theorem paced_query : Paced query := fun bound fuel => (orderly_all fuel).2.2 bound

section

variable {α : Type} {step : Nat → Reading α}

theorem Paced.whole (h : Paced step) : Paced fun fuel => (step fuel).whole :=
  fun _ _ hfuel => (h hfuel).whole

/-- Whatever the rounds, the reading is in good order. -/
theorem Paced.orderly (h : Paced step) (fuel : Nat) : Orderly 0 0 (step fuel) := h (Nat.zero_le _)

/-- Whatever the rounds, the reading is made of small steps. -/
theorem Paced.composed (h : Paced step) (fuel : Nat) : Composed (step fuel) := (h.orderly fuel).composed

/-- Where fewer tokens are left than there are sixteens of rounds, these are enough. -/
theorem Paced.ne_outOfFuel (h : Paced step) {s : Session} {fuel : Nat} (hfuel : 16 * (s.left + 1) ≤ fuel)
    (place : Text.Position) : ((step fuel).run s).1 ≠ .error (.outOfFuel place) :=
  (h hfuel).ne_outOfFuel (Nat.zero_le _) (Nat.lt_succ_self _) place

end

end Reading

/-- A session has rounds enough, however it came about. -/
theorem Session.run_ne_outOfFuel {α : Type} {step : Nat → Reading α} (h : Reading.Paced step)
    (s : Session) (place : Text.Position) : (s.run step).1 ≠ .error (.outOfFuel place) := by
  have hfuel : 16 * (s.left + 1) ≤ s.fuel := by
    have hcount := s.token.count_le_one
    unfold left fuel
    omega
  exact h.ne_outOfFuel hfuel place

end DocQuery
