import DocQuery.Proofs.Grammar.Induction
import DocQuery.Proofs.Grammar.Ladder

/-!
# Queries of the grammar are read

Every clause but the projection begins with a keyword of its own, and the clauses stand in one order.
So a clause ends where a later one begins: `Token.place` numbers their keywords, and `After k` is
what may come behind the clause with the number `k`.

* `Inner.reads_projection`, `Inner.reads_source`, `reads_window` and so on: the clauses are read.
* `Inner.reads_clauses`: so are all clauses of a query.
* `reads_expression`, `reads_query`: so is everything that the grammar has.
-/

namespace DocQuery

open Grammar

/-- The place of a keyword in the order of the clauses. What ends a query stands behind all. -/
def Token.place : Token → Nat
  | .keyword .from => 1
  | .keyword .where => 2
  | .keyword .group => 3
  | .keyword .order => 4
  | .keyword .offset => 5
  | .mark .rightParen => 6
  | .endOfText => 6
  | _ => 0

theorem Token.place_of_endsQuery {t : Token} (h : t.endsQuery = true) : t.place = 6 := by
  unfold endsQuery at h
  split at h
  · rfl
  · rfl
  · cases h

namespace Reading

/-- What may come behind the clause with the number `k`. -/
def After (k : Nat) : Follow := fun t => k < t.place

/-- What may come behind an item of a clause. -/
def AfterItem : Follow := fun t => t = .mark .comma ∨ 0 < t.place

/-- What may come behind an operand of a join. -/
def AfterOperand : Follow := fun t => t = .keyword .join ∨ 0 < t.place

/-- What ends a scalar, and is no alias either. -/
structure Ends (t : Token) : Prop where
  stops : Level.conditional.stops t = true
  ne_as : t ≠ .keyword .as
  ne_identifier : ∀ name, t ≠ .identifier name
  ne_asc : t ≠ .keyword .asc
  ne_desc : t ≠ .keyword .desc

theorem ends_of_place {t : Token} (h : 0 < t.place) :
    Ends t ∧ t ≠ .mark .comma ∧ t ≠ .keyword .join := by
  unfold Token.place at h
  split at h
  case h_8 => cases h
  all_goals exact ⟨⟨rfl, nofun, nofun, nofun, nofun⟩, nofun, nofun⟩

theorem AfterItem.ends {t : Token} (h : AfterItem t) : Ends t := by
  rcases h with rfl | h
  · exact ⟨rfl, nofun, nofun, nofun, nofun⟩
  · exact (ends_of_place h).1

theorem AfterOperand.ends {t : Token} (h : AfterOperand t) : Ends t := by
  rcases h with rfl | h
  · exact ⟨rfl, nofun, nofun, nofun, nofun⟩
  · exact (ends_of_place h).1

theorem afterItem_of_after {k : Nat} {t : Token} (h : After k t) : AfterItem t ∧ t ≠ .mark .comma :=
  ⟨.inr (Nat.zero_lt_of_lt h), (ends_of_place (Nat.zero_lt_of_lt h)).2.1⟩

section

variable {α : Type} {P : Phrase α} {body : Reading α} {E : Phrase Scalar} {Q : Phrase Query}
  {ts us : List Token} {n m fuel : Nat} {F G : Follow}

/-! ## Optional clauses -/

/-- A clause, or nothing if its keyword does not follow. -/
theorem reads_clause {word : Keyword} {a? : Option α} (h : Clause [word] P ts a? n)
    (hbody : ∀ {us a}, P us a n → us.length < ts.length → Reads body us a n F)
    (hne : ∀ t, F t → t ≠ .keyword word) : Reads (clause? word body) ts a? n F := by
  cases h with
  | absent => exact .consume_not hne (.pure none)
  | present h =>
    exact .bind_one (reads_consume _) (.map (hbody h (Nat.lt_succ_self _)))

theorem reads_clauseBy {word : Keyword} {a? : Option α} (h : Clause [word, .by] P ts a? n)
    (hbody : ∀ {us a}, P us a n → us.length < ts.length → Reads body us a n F)
    (hne : ∀ t, F t → t ≠ .keyword word) : Reads (clauseBy? word body) ts a? n F := by
  cases h with
  | absent => exact .consume_not hne (.pure none)
  | present h =>
    refine .bind_one (reads_consume _) (.map (.bind_one (reads_expect _) (hbody h ?_)))
    change _ < (Token.keyword word :: Token.keyword .by :: _).length
    simp only [List.length_cons]
    omega

/-- Behind a clause comes a later one, or what comes behind them all. -/
theorem meets_clause {word : Keyword} {words : List Keyword} {a? : Option α} {k : Nat}
    (h : Clause (word :: words) P ts a? n) (hplace : (Token.keyword word).place = k + 1)
    (hus : Meets (After (k + 1)) G us) : Meets (After k) G (ts ++ us) := by
  cases h with
  | absent =>
    cases us with
    | nil => exact fun t ht => Nat.lt_of_succ_lt (hus t ht)
    | cons u us => exact Nat.lt_of_succ_lt hus
  | present _ => exact Nat.lt_of_lt_of_eq (Nat.lt_succ_self k) hplace.symm

theorem ne_of_after {word : Keyword} {k : Nat} {t : Token} (h : After k t)
    (hplace : (Token.keyword word).place ≤ k) : t ≠ .keyword word := by
  rintro rfl
  exact absurd h (Nat.not_lt.mpr hplace)

/-! ## Projections -/

theorem reads_count {e} (h : IsCount ts e n) : Reads count ts e n Anything := by
  cases h with
  | @number a _ => cases a <;> exact .token_cons (.bind_one (reads_advance _) (.pure _))
  | parameter _ => exact .token_cons (.bind_one (reads_advance _) (.pure _))

theorem reads_alias {alias?} (h : IsAlias ts alias? n) (hF : ∀ t, F t → Ends t) :
    Reads Reading.alias? ts alias? n F := by
  unfold Reading.alias?
  cases h with
  | none =>
    refine .consume_not (fun t ht => (hF t ht).ne_as) (.token_nil fun t ht => ?_)
    split
    · exact absurd rfl ((hF _ ht).ne_identifier _)
    · exact .pure none
  | bare _ =>
    exact .consume_not nofun (.token_cons (.map ((reads_identifier _).weaken fun _ _ => trivial)))
  | worded _ =>
    exact .bind_one (reads_consume _) (.map ((reads_identifier _).weaken fun _ _ => trivial))

/-- An alias, or what comes behind it, ends a scalar. -/
theorem meets_alias {alias?} (h : IsAlias ts alias? n) (hF : ∀ t, F t → Ends t) :
    Meets (Level.conditional.stops · = true) F ts := by
  cases h with
  | none => exact fun t ht => (hF t ht).stops
  | bare _ => exact rfl
  | worded _ => exact rfl

theorem Inner.reads_selectItem (h : Inner E Q) {i} (hi : IsSelectItem E ts i n)
    (hfuel : 16 * ts.length ≤ fuel) :
    Reads (selectItem (Reading.expression fuel)) ts i n AfterItem := by
  cases hi with
  | mk he halias =>
    simp only [List.length_append] at hfuel
    exact .bind_zero (h.expression he _ (by omega))
      (.bind_last (reads_alias halias fun _ => AfterItem.ends) (.pure _) fun _ ht => ht)
      (meets_alias halias fun _ => AfterItem.ends)

/-- What a projection begins with. -/
def BeginsProjection (t : Token) : Prop :=
  t = .mark .star ∨ t = .keyword .value ∨ t.beginsScalar = true

theorem Inner.starts_projection (h : Inner E Q) {p} (hp : IsProjection E ts p n) :
    Starts BeginsProjection ts := by
  cases hp with
  | all => exact ⟨_, _, rfl, .inl rfl⟩
  | value _ => exact ⟨_, _, rfl, .inr (.inl rfl)⟩
  | items his =>
    refine his.starts fun hi => ?_
    cases hi with
    | mk he _ => exact ((h.starts_expression he).append _).imp fun t ht => .inr (.inr ht)

theorem Inner.reads_projection (h : Inner E Q) {p} (hp : IsProjection E ts p n)
    (hfuel : 16 * ts.length ≤ fuel) :
    Reads (projection (Reading.expression fuel) fuel) ts p n (After 0) := by
  cases hp with
  | all => exact .bind_one (reads_consume _) (.pure _)
  | value he =>
    simp only [List.length_cons] at hfuel
    exact .consume_not nofun (.bind_one (reads_consume _)
      (.map ((h.expression he _ (by omega)).weaken fun _ ht => (ends_of_place ht).1.stops)))
  | items his =>
    have hstarts : Starts (·.beginsScalar = true) ts := his.starts fun hi => by
      cases hi with
      | mk he _ => exact (h.starts_expression he).append _
    refine .consume_not (meets_of_starts hstarts ?_) (.consume_not (meets_of_starts hstarts ?_) ?_)
    · rintro t ht rfl
      cases ht
    · rintro t ht rfl
      cases ht
    · obtain ⟨t, us, rfl, -⟩ := hstarts
      simp only [List.length_cons] at hfuel
      exact .map ((reads_list (t :: us).length (fun hi hlen => h.reads_selectItem hi
        (by simp only [List.length_cons] at hlen; omega)) (.inl rfl) his le_rfl
        (by simp only [List.length_cons]; omega)).weaken fun _ => afterItem_of_after)

/-! ## Sources -/

/-- Every step of a path takes a token at least. -/
theorem levels_le_of_isPath {segments} (h : IsPath ts segments n) : n ≤ ts.length := by
  induction h with
  | nil => exact le_rfl
  | _ => simp only [List.length_append, List.length_cons, List.length_nil]; omega

/-- A path begins with a point or a bracket, if it is not empty. -/
theorem meets_path {segments} (h : IsPath ts segments n) (hdot : F (.mark .dot))
    (hbracket : F (.mark .leftBracket)) (hus : Meets F G us) : Meets F G (ts ++ us) := by
  induction h generalizing us with
  | nil => exact hus
  | name _ _ ih =>
    rw [List.append_assoc]
    exact ih hdot
  | number _ _ ih =>
    rw [List.append_assoc]
    exact ih hbracket
  | string _ ih =>
    rw [List.append_assoc]
    exact ih hbracket

theorem reads_pathStep_bracket {t : Token} {segment : Segment} {segments : List Segment}
    (h : Reads pathKey [t] segment 0 Anything) :
    Reads (pathStep segments .bracket) [t, .mark .rightBracket] (segments ++ [segment]) 0 Anything :=
  .bind_one h (.bind_one (reads_expect _) (.pure _))

theorem reads_path {input segments} (h : IsPath ts segments n) (hfuel : ts.length < fuel) :
    Reads (inputPath input fuel) ts (.path input segments) n (Level.primary.stops · = true) := by
  have hopens (size : Nat) : Opens (chain access? pathStep fuel 0 []) access? pathStep fuel size
      Anything n ts segments n := by
    clear hfuel
    have hmax (n : Nat) : max n (n + 1 + 0) = n + 1 := by omega
    induction h with
    | nil => exact opens (show _ = pure [] >>= _ from rfl) fun _ => .pure []
    | @name _ _ n name _ _ ih =>
      have hmore := ih.more reads_dot ⟨_, [.identifier name], rfl, trivial⟩
        (fun _ _ => meets_anything _) fun _ => .bind_one (reads_identifier name) (.pure _)
      rwa [hmax] at hmore
    | @number _ _ n a _ _ ih =>
      have hkey : Reads pathKey [a.token] (.number a) 0 Anything :=
        .position fun _ => .bind_one (reads_bump _) (by cases a <;> exact .pure _)
      have hmore := ih.more reads_bracket ⟨_, [a.token, .mark .rightBracket], rfl, trivial⟩
        (fun _ _ => meets_anything _) fun _ => reads_pathStep_bracket hkey
      rwa [hmax] at hmore
    | @string _ _ n s _ ih =>
      have hkey : Reads pathKey [.string s] (.string s) 0 Anything :=
        .position fun _ => .bind_one (reads_bump _) (.pure _)
      have hmore := ih.more reads_bracket ⟨_, [.string s, .mark .rightBracket], rfl, trivial⟩
        (fun _ _ => meets_anything _) fun _ => reads_pathStep_bracket hkey
      rwa [hmax] at hmore
  have hlevels := levels_le_of_isPath h
  exact .bind_last ((hopens ts.length).close le_rfl (by omega) reads_no_access fun _ _ => trivial)
    (.pure _) fun _ ht => ht

/-- Behind a collection no access may stand, which would make its path longer. -/
theorem Inner.reads_collection (h : Inner E Q) {c} (hc : IsCollection E Q ts c n)
    (hfuel : 16 * ts.length ≤ fuel) :
    Reads (collection (Reading.expression fuel) (Reading.query fuel) fuel) ts c n
      (Level.primary.stops · = true) := by
  cases hc with
  | path hinput hpath =>
    simp only [List.length_cons] at hfuel
    exact .token_cons (.bind_one (reads_identifier _) (reads_path hpath (by omega)))
  | subquery hq =>
    simp only [List.length_cons, List.length_append] at hfuel
    exact .token_cons (.bind_one (reads_advance _)
      (.map ((h.reads_query hq (by omega)).weaken fun _ _ => trivial)))
  | @array ts es _ hes =>
    simp only [List.length_cons, List.length_append] at hfuel
    refine .token_cons (.bind_one (reads_advance _) ?_)
    exact .bind_zero (reads_list ts.length (fun he hlen => h.expression he _ (by omega)) rfl hes
      le_rfl (by omega)) (.bind_one (reads_expect _) (.pure _)) ⟨rfl, nofun⟩

theorem AfterOperand.stops {t : Token} (h : AfterOperand t) : Level.primary.stops t = true :=
  Level.stops_mono h.ends.stops (by decide)

/-- An alias, or what comes behind it, is no access. -/
theorem meets_alias_primary {alias?} (h : IsAlias ts alias? n) (hF : ∀ t, F t → Ends t) :
    Meets (Level.primary.stops · = true) F ts := by
  have hmeets := meets_alias h hF
  cases ts with
  | nil => exact fun t ht => Level.stops_mono (hmeets t ht) (by decide)
  | cons t ts => exact Level.stops_mono hmeets (by decide)

theorem Inner.reads_operand (h : Inner E Q) {s} (hs : IsOperand E Q ts s n)
    (hfuel : 16 * ts.length ≤ fuel) :
    Reads (operand (Reading.expression fuel) (Reading.query fuel) fuel) ts s n AfterOperand := by
  cases hs with
  | each hname hc =>
    simp only [List.length_cons] at hfuel
    exact .token_cons (.bind_one (reads_identifier _) (.bind_one (reads_consume _)
      (.map ((h.reads_collection hc (by omega)).weaken fun _ => AfterOperand.stops))))
  | @aliased ts us c _ _ hc halias =>
    have hrest (c : Collection) : Reads (do let a ← alias?; return Source.aliased c a) us
        (.aliased c _) 0 AfterOperand :=
      .bind_last (reads_alias halias fun _ => AfterOperand.ends) (.pure _) fun _ ht => ht
    have hmeets := meets_alias_primary halias fun _ => AfterOperand.ends
    cases hc with
    | @path input ts segments n hinput hpath =>
      simp only [List.length_cons, List.length_append] at hfuel
      refine .token_cons (.bind_one (reads_identifier _) (.consume_not ?_
        (.bind_zero (reads_path hpath (by omega)) (hrest _) hmeets)))
      refine meets_path hpath nofun nofun ?_
      cases halias with
      | none =>
        rintro t ht rfl
        rcases ht with ht | ht <;> cases ht
      | bare _ => nofun
      | worded _ => nofun
    | subquery hq =>
      exact .token_cons (.bind_zero (h.reads_collection (.subquery hq) (by
        simp only [List.length_append] at hfuel; omega)) (hrest _) hmeets)
    | array hes =>
      exact .token_cons (.bind_zero (h.reads_collection (.array hes) (by
        simp only [List.length_append] at hfuel; omega)) (hrest _) hmeets)

/-- Every join takes a token, and so does the first operand. -/
theorem links_lt_of_isJoined {links s} (hs : IsJoined E Q links ts s n) :
    links < ts.length := by
  induction hs with
  | operand hs =>
    cases hs with
    | each _ _ => exact Nat.zero_lt_succ _
    | aliased hc _ =>
      cases hc with
      | path _ _ => exact Nat.zero_lt_succ _
      | subquery _ => exact Nat.zero_lt_succ _
      | array _ => exact Nat.zero_lt_succ _
  | join _ _ ih =>
    simp only [List.length_append, List.length_cons]
    omega

theorem reads_join : Reads join? [.keyword .join] (some ()) 0 Anything :=
  .bind_one (reads_consume _) (.pure _)

theorem reads_no_join : Reads join? [] none 0 (· ≠ .keyword .join) :=
  .consume_not (fun _ ht => ht) (.pure _)

theorem Inner.opens_joined (h : Inner E Q) {links s} (hs : IsJoined E Q links ts s n) (size : Nat)
    (hfuel : 16 * size ≤ fuel) :
    Opens (source (Reading.expression fuel) (Reading.query fuel) fuel) join?
      (fun left _ => .join left <$> operand (Reading.expression fuel) (Reading.query fuel) fuel)
      fuel size AfterOperand links ts s n := by
  induction hs with
  | operand hs => exact opens rfl fun hsize => h.reads_operand hs (by omega)
  | join _ hr ih =>
    exact ih.more reads_join ⟨_, _, rfl, .inl rfl⟩ (fun _ _ => meets_anything _) fun hsize =>
      .map (h.reads_operand hr (by omega))

theorem Inner.reads_source (h : Inner E Q) {s} (hs : IsSource E Q ts s n)
    (hfuel : 16 * ts.length ≤ fuel) :
    Reads (source (Reading.expression fuel) (Reading.query fuel) fuel) ts s n (After 1) := by
  cases hs with
  | mk hs =>
    have hlinks := links_lt_of_isJoined hs
    exact (h.opens_joined hs ts.length hfuel).close le_rfl (by omega)
      (reads_no_join.weaken fun _ ht => (ends_of_place (Nat.zero_lt_of_lt ht)).2.2)
      fun _ ht => .inr (Nat.zero_lt_of_lt ht)

/-! ## Sorting and windows -/

theorem Inner.reads_sortKey (h : Inner E Q) {k} (hk : IsSortKey E ts k n)
    (hfuel : 16 * ts.length ≤ fuel) :
    Reads (sortKey (Reading.expression fuel)) ts k n AfterItem := by
  cases hk with
  | plain he =>
    exact .bind_last (h.expression he _ hfuel)
      (.consume_not (fun _ ht => ht.ends.ne_desc)
        (.consume_not (fun _ ht => ht.ends.ne_asc) (.pure _))) fun _ ht => ht.ends.stops
  | ascending he =>
    simp only [List.length_append] at hfuel
    exact .bind_zero (h.expression he _ (by omega))
      (.consume_not nofun (.bind_one (reads_consume _) (.pure _))) rfl
  | descending he =>
    simp only [List.length_append] at hfuel
    exact .bind_zero (h.expression he _ (by omega)) (.bind_one (reads_consume _) (.pure _)) rfl

theorem reads_window {w} (hw : IsWindow ts w n) : Reads window ts w n (After 5) := by
  cases hw with
  | counts ha hb =>
    exact .bind_zero (reads_count ha) (.bind_one (reads_expect _)
      (.bind_last (reads_count hb) (.pure _) fun _ _ => trivial)) trivial

/-! ## Queries -/

/-- The clauses behind `SELECT [DISTINCT]`. -/
theorem Inner.reads_body (h : Inner E Q) (distinct : Bool) {top? p source? filter? groupKeys? sortKeys?
    window? ts₁ ts₂ ts₃ ts₄ ts₅ ts₆ ts₇ n₂ n₃ n₄ n₅ n₆}
    (htop : Clause [.top] IsCount ts₁ top? 0) (hprojection : IsProjection E ts₂ p n₂)
    (hsource : Clause [.from] (IsSource E Q) ts₃ source? n₃)
    (hfilter : Clause [.where] E ts₄ filter? n₄)
    (hgroup : Clause [.group, .by] (ListOf E) ts₅ groupKeys? n₅)
    (hsort : Clause [.order, .by] (ListOf (IsSortKey E)) ts₆ sortKeys? n₆)
    (hwindow : Clause [.offset] IsWindow ts₇ window? 0)
    (hfuel : 16 * (ts₁ ++ (ts₂ ++ (ts₃ ++ (ts₄ ++ (ts₅ ++ (ts₆ ++ ts₇)))))).length < fuel) :
    Reads (do
      let top? ← clause? .top count
      let p ← projection (Reading.expression fuel) fuel
      let source? ← clause? .from (source (Reading.expression fuel) (Reading.query fuel) fuel)
      let filter? ← clause? .where (Reading.expression fuel)
      let groupKeys? ← clauseBy? .group (list (Reading.expression fuel) fuel)
      let sortKeys? ← clauseBy? .order (list (sortKey (Reading.expression fuel)) fuel)
      let window? ← clause? .offset window
      return Query.mk distinct top? p source? filter? groupKeys? sortKeys? window?)
      (ts₁ ++ (ts₂ ++ (ts₃ ++ (ts₄ ++ (ts₅ ++ (ts₆ ++ ts₇))))))
      ⟨distinct, top?, p, source?, filter?, groupKeys?, sortKeys?, window?⟩
      (max n₂ (max n₃ (max n₄ (max n₅ n₆)))) (·.endsQuery = true) := by
  simp only [List.length_append] at hfuel
  have hend (t : Token) (ht : t.endsQuery = true) : After 5 t := by
    unfold After
    rw [Token.place_of_endsQuery ht]
    decide
  have hends {k : Nat} {t : Token} (ht : After k t) : Ends t :=
    (ends_of_place (Nat.zero_lt_of_lt ht)).1
  -- Each clause is read where a later one, or the end, comes behind it.
  have htop : Reads (clause? .top count) ts₁ top? 0 BeginsProjection :=
    reads_clause htop (fun hc _ => (reads_count hc).weaken fun _ _ => trivial) fun t ht => by
      rintro rfl
      rcases ht with ht | ht | ht <;> cases ht
  have hstarts := (h.starts_projection hprojection).append (ts₃ ++ (ts₄ ++ (ts₅ ++ (ts₆ ++ ts₇))))
  have hprojection := h.reads_projection hprojection (show 16 * ts₂.length ≤ fuel by omega)
  have hsource' : Reads (clause? .from (source (Reading.expression fuel) (Reading.query fuel) fuel))
      ts₃ source? n₃ (After 1) :=
    reads_clause hsource (fun hs hlen => h.reads_source hs (by omega))
      fun _ ht => ne_of_after ht le_rfl
  have hfilter' : Reads (clause? .where (Reading.expression fuel)) ts₄ filter? n₄ (After 2) :=
    reads_clause hfilter (fun he hlen => (h.expression he _ (by omega)).weaken fun _ ht =>
      (hends ht).stops) fun _ ht => ne_of_after ht le_rfl
  have hgroup' : Reads (clauseBy? .group (list (Reading.expression fuel) fuel)) ts₅ groupKeys? n₅
      (After 3) :=
    reads_clauseBy hgroup (fun {us _} hes hlen => (reads_list us.length
      (fun he hlen => h.expression he _ (by omega)) rfl hes le_rfl (by omega)).weaken fun _ ht =>
        ⟨(hends ht).stops, (afterItem_of_after ht).2⟩) fun _ ht => ne_of_after ht le_rfl
  have hsort' : Reads (clauseBy? .order (list (sortKey (Reading.expression fuel)) fuel)) ts₆ sortKeys?
      n₆ (After 4) :=
    reads_clauseBy hsort (fun {us _} hes hlen => (reads_list us.length
      (fun he hlen => h.reads_sortKey he (by omega)) (.inl rfl) hes le_rfl (by omega)).weaken
        fun _ => afterItem_of_after) fun _ ht => ne_of_after ht le_rfl
  have hwindow' : Reads (clause? .offset window) ts₇ window? 0 (After 5) :=
    reads_clause hwindow (fun hw _ => reads_window hw) fun _ ht => ne_of_after ht le_rfl
  -- And it does come there.
  have meets₇ : Meets (After 4) (·.endsQuery = true) ts₇ := by
    have h : Meets (After 4) (·.endsQuery = true) (ts₇ ++ []) := meets_clause hwindow rfl hend
    rwa [List.append_nil] at h
  have meets₆ := meets_clause hsort rfl meets₇
  have meets₅ := meets_clause hgroup rfl meets₆
  have meets₄ := meets_clause hfilter rfl meets₅
  have meets₃ := meets_clause hsource rfl meets₄
  rw [← Nat.zero_max (max n₂ _)]
  exact .bind htop (.bind hprojection (.bind hsource' (.bind hfilter' (.bind hgroup' (.bind_zero hsort'
    (.bind_last hwindow' (.pure _) hend) meets₇) meets₆) meets₅) meets₄) meets₃)
    (meets_of_starts hstarts fun _ ht => ht)

theorem Inner.reads_clauses (h : Inner E Q) {q} (hq : IsClauses E Q ts q n)
    (hfuel : 16 * ts.length ≤ fuel + 1) :
    Reads (clauses (Reading.expression fuel) (Reading.query fuel) fuel) ts q n
      (·.endsQuery = true) := by
  cases hq with
  | @mk distinct _ _ _ _ _ _ _ ts₁ ts₂ ts₃ ts₄ ts₅ ts₆ ts₇ _ _ _ _ _ htop hprojection hsource hfilter
      hgroup hsort hwindow =>
    have hbody (distinct : Bool) :=
      h.reads_body distinct htop hprojection hsource hfilter hgroup hsort hwindow
        (show 16 * _ < fuel by
          simp only [List.length_append, List.length_cons] at hfuel ⊢
          omega)
    refine .bind_one (reads_expect _) ?_
    cases distinct
    · refine .consume_not ?_ (hbody false)
      cases htop with
      | absent =>
        refine meets_of_starts ((h.starts_projection hprojection).append _) ?_
        rintro t ht rfl
        rcases ht with ht | ht | ht <;> cases ht
      | present _ => nofun
    · exact .bind_one (reads_consume _) (hbody true)

/-! ## The whole grammar -/

/-- Whole expressions, as far as they begin as they should and are read. -/
def ReadExpression : Phrase Scalar := fun ts e n => Starts (·.beginsScalar = true) ts ∧
  ∀ fuel, 16 * ts.length ≤ fuel →
    Reads (Reading.expression fuel) ts e n (Level.conditional.stops · = true)

/-- Queries, as far as they begin as they should and are read. -/
def ReadQuery : Phrase Query := fun ts q n => Starts (· = .keyword .select) ts ∧
  ∀ fuel, 16 * ts.length ≤ fuel → Reads (Reading.query fuel) ts q n (·.endsQuery = true)

theorem inner_read : Inner ReadExpression ReadQuery := ⟨And.left, And.right, And.left, And.right⟩

theorem readQuery_nested {q} (hq : IsClauses ReadExpression ReadQuery ts q n) :
    ReadQuery ts q (n + 1) := by
  have hstarts : Starts (· = .keyword .select) ts := by
    cases hq with
    | mk => exact ⟨_, _, rfl, rfl⟩
  refine ⟨hstarts, fun fuel hfuel => ?_⟩
  have hpos : 0 < ts.length := by
    obtain ⟨t, us, rfl, -⟩ := hstarts
    exact Nat.zero_lt_succ _
  obtain ⟨fuel, rfl⟩ : ∃ k, fuel = k + 1 := ⟨fuel - 1, by omega⟩
  rw [Reading.query]
  exact .nested (inner_read.reads_clauses hq hfuel)

theorem readExpression_nested {links e}
    (he : IsScalar ReadExpression ReadQuery .conditional links ts e n) :
    ReadExpression ts e (n + 1) :=
  ⟨he.starts.imp fun _ => Token.beginsScalar_of_begins, inner_read.reads_expression he⟩

end

/-- All expressions of the grammar are read. -/
theorem reads_expression {ts e n} (he : IsExpression ts e n) (fuel : Nat)
    (hfuel : 16 * ts.length ≤ fuel) :
    Reads (expression fuel) ts e n (Level.conditional.stops · = true) :=
  ((induction_levels readExpression_nested readQuery_nested n).1 le_rfl he).2 fuel hfuel

/-- All queries of the grammar are read. -/
theorem reads_query {ts q n} (hq : IsQuery ts q n) (fuel : Nat) (hfuel : 16 * ts.length ≤ fuel) :
    Reads (query fuel) ts q n (·.endsQuery = true) :=
  ((induction_levels readExpression_nested readQuery_nested n).2 le_rfl hq).2 fuel hfuel

end Reading

end DocQuery
