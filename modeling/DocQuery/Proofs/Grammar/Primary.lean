import DocQuery.Proofs.Grammar.Reads

/-!
# Primary expressions of the grammar are read

* `Inner E Q`: what is said of the phrases between brackets, whole expressions and queries.
* `Inner.reads_group`, `Inner.reads_call` and so on: each primary expression is read.
-/

namespace DocQuery

open Grammar

/-- The token may come behind a query: nothing, or the parenthesis that closes a subquery. -/
def Token.endsQuery : Token → Bool
  | .mark .rightParen => true
  | .endOfText => true
  | _ => false

namespace Reading

/-- What is said of the phrases between brackets: whole expressions and queries begin as they should
and are read with sixteen rounds for each of their tokens. -/
structure Inner (E : Phrase Scalar) (Q : Phrase Query) : Prop where
  starts_expression : ∀ {ts e n}, E ts e n → Starts (·.beginsScalar = true) ts
  expression : ∀ {ts e n}, E ts e n → ∀ fuel, 16 * ts.length ≤ fuel →
    Reads (expression fuel) ts e n (Level.conditional.stops · = true)
  starts_query : ∀ {ts q n}, Q ts q n → Starts (· = .keyword .select) ts
  query : ∀ {ts q n}, Q ts q n → ∀ fuel, 16 * ts.length ≤ fuel →
    Reads (query fuel) ts q n (·.endsQuery = true)

section

variable {E : Phrase Scalar} {Q : Phrase Query} {ts : List Token} {e : Scalar} {n fuel : Nat}

/-! ## Primary expressions -/

theorem Inner.reads_query (h : Inner E Q) {q} (hq : Q ts q n) (hfuel : 16 * ts.length ≤ fuel) :
    Reads (parenthesizedQuery (Reading.query fuel)) (ts ++ [.mark .rightParen]) q n Anything := by
  unfold parenthesizedQuery
  obtain ⟨t, us, hts, rfl⟩ := h.starts_query hq
  have hclose : Reads (do expect (.mark .rightParen); return q) [.mark .rightParen] q 0 Anything :=
    .bind_one (reads_expect _) (.pure q)
  have hrest := (h.query hq _ hfuel).bind_zero (f := fun q => do expect (.mark .rightParen); return q)
    hclose rfl
  rw [hts] at hrest ⊢
  exact .isAt_cons hrest

theorem Inner.reads_items (h : Inner E Q) {es} {close : Token} (hes : Items E ts es n)
    (hclose : close = .mark .rightParen ∨ close = .mark .rightBracket)
    (hfuel : 16 * (ts.length + 1) ≤ fuel) :
    Reads (delimited close (Reading.expression fuel) fuel) (ts ++ [close]) es n Anything := by
  refine reads_delimited ts.length (fun he hlen => h.expression he _ (by omega))
    h.starts_expression ?_ rfl ?_ hes le_rfl (by omega)
  · rintro t ht rfl
    rcases hclose with rfl | rfl <;> cases ht
  · rcases hclose with rfl | rfl <;> exact ⟨rfl, nofun⟩

/-- Behind a primary expression no parenthesis may stand, which would make a name a call. -/
def NoCall : Follow := (· ≠ .mark .leftParen)

theorem reads_literal {v : Literal} :
    Reads (primary (Reading.expression fuel) (Reading.query fuel) fuel) [v.token] (.literal v) 0
      NoCall := by
  refine .position fun place => .bind_one (reads_bump _) ?_
  cases v with
  | number a => cases a <;> exact .pure _
  | boolean b => cases b <;> exact .pure _
  | _ => exact .pure _

theorem reads_parameter (name : String) :
    Reads (primary (Reading.expression fuel) (Reading.query fuel) fuel) [.parameter name]
      (.parameter name) 0 NoCall :=
  .position fun _ => .bind_one (reads_bump _) (.pure _)

theorem reads_name (name : String) :
    Reads (primary (Reading.expression fuel) (Reading.query fuel) fuel) [.identifier name]
      (.name name) 0 NoCall :=
  .position fun _ => .bind_one (reads_bump _) (.isAt_nil (fun _ h => h) (.pure _))

theorem Inner.reads_group (h : Inner E Q) (he : E ts e n) (hfuel : 16 * (ts.length + 1) ≤ fuel) :
    Reads (primary (Reading.expression fuel) (Reading.query fuel) fuel)
      (.mark .leftParen :: (ts ++ [.mark .rightParen])) e n NoCall := by
  refine .position fun _ => .bind_one (reads_bump _) ?_
  have hclose : Reads (do expect (.mark .rightParen); return e) [.mark .rightParen] e 0 NoCall :=
    .bind_one (reads_expect _) (.pure e)
  have hrest := (h.expression he fuel (by omega)).bind_zero
    (f := fun e => do expect (.mark .rightParen); return e) hclose rfl
  obtain ⟨t, us, rfl, ht⟩ := h.starts_expression he
  refine .isAt_cons ?_
  have hselect : (t == .keyword .select) = false := by
    rw [beq_eq_false_iff_ne]
    rintro rfl
    cases ht
  rw [hselect]
  exact hrest

theorem Inner.reads_call (h : Inner E Q) {function es userDefined} (hes : Items E ts es n)
    (hfuel : 16 * (ts.length + 2) ≤ fuel) :
    Reads (primary (Reading.expression fuel) (Reading.query fuel) fuel)
      ((if userDefined then [.keyword .udf, .mark .dot] else []) ++
        .identifier function :: .mark .leftParen :: (ts ++ [.mark .rightParen]))
      (.call function userDefined es) n NoCall := by
  have hcall (userDefined : Bool) : Reads (call function userDefined (Reading.expression fuel) fuel)
      (.mark .leftParen :: (ts ++ [.mark .rightParen])) (.call function userDefined es) n NoCall :=
    .bind_one (reads_expect _) (.bind_last (h.reads_items hes (.inl rfl) (by omega))
      (.bind_look (reads_note _) (.pure _) (meets_anything [])) fun _ _ => trivial)
  cases userDefined
  · refine .position fun _ => .bind_one (reads_bump _) (.isAt_cons ?_)
    exact hcall false
  · refine .position fun _ => .bind_one (reads_bump _) (.bind_one (reads_expect _)
      (.bind_one (reads_identifier _) (hcall true)))

theorem Inner.reads_array (h : Inner E Q) {es} (hes : Items E ts es n)
    (hfuel : 16 * (ts.length + 1) ≤ fuel) :
    Reads (primary (Reading.expression fuel) (Reading.query fuel) fuel)
      (.mark .leftBracket :: (ts ++ [.mark .rightBracket])) (.array es) n NoCall :=
  .position fun _ => .bind_one (reads_bump _)
    (.map ((h.reads_items hes (.inr rfl) hfuel).weaken fun _ _ => trivial))

theorem Inner.reads_object (h : Inner E Q) {fields} (hfields : Items (IsField E) ts fields n)
    (hfuel : 16 * (ts.length + 1) ≤ fuel) :
    Reads (primary (Reading.expression fuel) (Reading.query fuel) fuel)
      (.mark .leftBrace :: (ts ++ [.mark .rightBrace])) (.object fields) n NoCall := by
  have hfield {ts f n} (hf : IsField E ts f n) (hlen : 16 * ts.length ≤ fuel) :
      Reads (field (Reading.expression fuel)) ts f n (Level.conditional.stops · = true) := by
    cases hf with
    | mk he =>
      simp only [List.length_cons] at hlen
      exact .token_cons (.bind_one (reads_advance _) (.bind_one (reads_expect _)
        (.bind_last (h.expression he _ (by omega)) (.pure _) fun _ ht => ht)))
  have hstarts {ts f n} (hf : IsField E ts f n) : Starts (fun t => ∃ key, t = .string key) ts := by
    cases hf with
    | mk he => exact ⟨_, _, rfl, _, rfl⟩
  refine .position fun _ => .bind_one (reads_bump _) (.map (.weaken ?_ fun _ _ => trivial))
  refine reads_delimited ts.length (fun hf hlen => hfield hf (by omega)) hstarts ?_ rfl
    ⟨rfl, nofun⟩ hfields le_rfl (by omega)
  rintro t ⟨key, rfl⟩
  nofun

theorem Inner.reads_subquery (h : Inner E Q) {use : SubqueryUse} {q} (hq : Q ts q n)
    (hfuel : 16 * (ts.length + 1) ≤ fuel) :
    Reads (primary (Reading.expression fuel) (Reading.query fuel) fuel)
      (use.tokens ++ .mark .leftParen :: (ts ++ [.mark .rightParen])) (.subquery use q) n NoCall := by
  have hfuel' : 16 * ts.length ≤ fuel := by omega
  have hquery : Reads (parenthesizedQuery (Reading.query fuel)) (ts ++ [.mark .rightParen]) q n NoCall :=
    (h.reads_query hq hfuel').weaken fun _ _ => trivial
  have hargument : Reads (queryArgument (Reading.query fuel))
      (.mark .leftParen :: (ts ++ [.mark .rightParen])) q n NoCall :=
    .bind_one (reads_expect _) hquery
  refine .position fun _ => ?_
  cases use with
  | «exists» => exact .bind_one (reads_bump _) (.map hargument)
  | array => exact .bind_one (reads_bump _) (.map hargument)
  | value =>
    refine .bind_one (reads_bump _) ?_
    obtain ⟨t, us, rfl, rfl⟩ := h.starts_query hq
    exact .isAt_cons (.map hquery)

end

end Reading

end DocQuery
