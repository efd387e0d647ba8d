import DocQuery.Proofs.Grammar.Clauses
import DocQuery.Proofs.Grammar.TellsQuery
import DocQuery.Proofs.Grammar.Regular
import DocQuery.Proofs.Token.Progress

/-!
# Whole texts

* `Parses step P`: `step` reads the phrases of `P` and tells of nothing else.
* `parseWith_of_phrase`: what becomes of a text whose tokens are a phrase, for any limit of nesting.
* `exists_of_parseWith`: the tokens of a text that gives a tree are a phrase of that tree.
* `parse_iff_derives`: texts are read just as the grammar has it.
-/

namespace DocQuery

open Grammar Reading

/-! ## Reading from the start to the end -/

/-- Reads a whole text in rounds of `step`. -/
def parseWith {α : Type} (step : Nat → Reading α) (text : String) (limit : Nat) :
    Except ParseError α := do
  let s ← Session.start text limit
  (s.run fun fuel => do
    let a ← step fuel
    expectEnd
    return a).1

namespace Session

/-- The session at the start of a text looks at its first token. -/
theorem start_ok {text : String} {limit : Nat} {s : Session} (h : start text limit = .ok s) :
    (Scanner.ofText text).next = (.ok s.token, s.scanner) ∧ s.limit = limit ∧ s.depth = 0 := by
  unfold start at h
  rcases hnext : (Scanner.ofText text).next with ⟨e | t, scanner⟩
  · rw [hnext] at h
    cases h
  · rw [hnext] at h
    cases h
    exact ⟨rfl, rfl, rfl⟩

theorem exists_start {text : String} {ts : List Token} (h : Tokens text ts) (limit : Nat) :
    ∃ s, start text limit = .ok s := by
  unfold start
  cases h with
  | done h =>
    rw [h]
    exact ⟨_, rfl⟩
  | step h _ _ =>
    rw [h]
    exact ⟨_, rfl⟩

/-- What is passed over behind the next token takes a character for each token. -/
theorem Leads.length_le {s s' : Session} {ts : List Token} (h : s.Leads ts s') :
    ts.length ≤ s.scanner.cursor.rest.length + 1 := by
  induction h with
  | done _ => exact Nat.zero_le _
  | @step s s' t scanner ts hnext _ hrest ih =>
    by_cases hend : t = .endOfText
    · cases hrest with
      | done _ => exact Nat.le_add_left _ _
      | step _ hne _ => exact absurd hend hne
    · have hlt := Scanner.length_next_lt hnext hend
      have hle : ts.length ≤ scanner.cursor.rest.length + 1 := ih
      simp only [List.length_cons]
      omega

/-- There are rounds enough for all tokens of a text. -/
theorem Leads.fuel_le {s s' : Session} {ts : List Token} (h : s.Leads ts s') :
    16 * ts.length ≤ s.fuel := by
  have hle := h.length_le
  unfold fuel
  omega

end Session

section

variable {α : Type} {P : Phrase α} {F : Follow} {p : Reading α} {step : Nat → Reading α}
  {text : String} {ts : List Token} {a : α} {n limit : Nat}

theorem reads_expectEnd : Reads expectEnd [] () 0 (· = .endOfText) := by
  intro s s' hs hend hdepth
  cases hs with
  | done hlike =>
    have htoken : s.token = .endOfText := hlike.token.symm.trans hend
    have hrun : expectEnd.run s = (.ok (), s) := by
      unfold expectEnd
      rw [run_bind_ok (run_isAt _ s), htoken]
      rfl
    exact ⟨fun _ => ⟨s, hlike.symm, hrun⟩, fun hlt => by omega⟩

theorem token_of_expectEnd {s s' : Session} (h : expectEnd.run s = (.ok (), s')) :
    s.token = .endOfText := by
  unfold expectEnd at h
  rw [run_bind_ok (run_isAt _ s)] at h
  by_cases hend : s.token = .endOfText
  · exact hend
  · rw [beq_eq_false_iff_ne.mpr hend] at h
    cases h

/-- Phrases that reading in rounds gives, and no others; where it fails, the tokens before the error begin
one. `F` is what may come behind one. -/
structure Parses (step : Nat → Reading α) (P : Phrase α) (F : Follow) : Prop where
  reads : ∀ {ts a n}, P ts a n → ∀ fuel, 16 * ts.length ≤ fuel → Reads (step fuel) ts a n F
  tells : ∀ fuel, TellsPhrase (step fuel) P
  follow : F .endOfText

theorem parses_query : Parses Reading.query IsQuery (·.endsQuery = true) :=
  ⟨reads_query, tells_query, rfl⟩

theorem parses_expression :
    Parses Reading.expression IsExpression (Level.conditional.stops · = true) :=
  ⟨reads_expression, tells_expression, rfl⟩

/-- A text whose tokens are a phrase gives its tree, if as many levels may nest as it takes; if they
may not, that is the error. -/
theorem parseWith_of_phrase (h : Parses step P F) (htext : Tokens text ts) (ha : P ts a n) :
    (n ≤ limit → parseWith step text limit = .ok a) ∧
    (limit < n → ∃ place, parseWith step text limit = .error (.tooDeep place limit)) := by
  obtain ⟨s, hs⟩ := Session.exists_start htext limit
  obtain ⟨hnext, hlimit, hdepth⟩ := Session.start_ok hs
  obtain ⟨s', hleads, hend⟩ := Session.exists_leads htext hnext
  have hwhole : Reads (do let a ← step s.fuel; expectEnd; return a) ts a n (· = .endOfText) :=
    .bind_last (h.reads ha _ hleads.fuel_le)
      (.bind_look reads_expectEnd (.pure a) fun _ ht => ht) fun _ ht => ht ▸ h.follow
  obtain ⟨hok, hdeep⟩ := hwhole s s' hleads hend (by omega)
  rw [hdepth, hlimit, Nat.zero_add] at hok hdeep
  have hparse : parseWith step text limit =
      ((do let a ← step s.fuel; expectEnd; return a : Reading α).run s).1 := by
    unfold parseWith
    rw [hs]
    rfl
  constructor
  · intro hle
    obtain ⟨s'', -, hrun⟩ := hok hle
    rw [hparse, hrun]
  · intro hlt
    obtain ⟨place, s'', hrun⟩ := hdeep hlt
    exact ⟨place, by rw [hparse, hrun]⟩

/-- A text that gives a tree has tokens, and they are a phrase of that tree. -/
theorem exists_of_parseWith (h : Parses step P F) (hparse : parseWith step text limit = .ok a) :
    ∃ ts, Tokens text ts ∧ ∃ n, P ts a n := by
  unfold parseWith at hparse
  cases hs : Session.start text limit with
  | error e =>
    rw [hs] at hparse
    cases hparse
  | ok s =>
    rw [hs] at hparse
    obtain ⟨hnext, -, -⟩ := Session.start_ok hs
    have hscanned : s.Scanned := by
      by_cases hend : s.token = .endOfText
      · exact .inl hend
      · exact .inr (Scanner.isSpellable_of_next hnext hend)
    change ((do let a ← step s.fuel; expectEnd; return a : Reading α).run s).1 = .ok a at hparse
    obtain ⟨b, m, hrun, hrest⟩ := exists_of_run_bind (Prod.ext hparse rfl)
    obtain ⟨_, m', hexpect, hpure⟩ := exists_of_run_bind hrest
    cases hpure
    obtain ⟨ts, hpasses, n, ha⟩ := (h.tells s.fuel).finds s a m hscanned trivial hrun
    have hend := token_of_expectEnd hexpect
    exact ⟨ts, Session.Leads.yields hpasses hend hnext, n, ha⟩

/-- A list of tokens is a phrase of at most one tree: it is the tokens of some text, and reading
that text gives but one tree. -/
theorem Parses.unique (h : Parses step P F) (hspell : ts.all Token.isSpellable = true) {b : α}
    {m : Nat} (ha : P ts a n) (hb : P ts b m) : a = b := by
  obtain ⟨text, htext⟩ := exists_tokens (List.all_eq_true.mp hspell)
  have hparse : parseWith step text (max n m) = .ok a :=
    (parseWith_of_phrase h htext ha).1 (Nat.le_max_left n m)
  rw [(parseWith_of_phrase h htext hb).1 (Nat.le_max_right n m)] at hparse
  exact (Except.ok.inj hparse).symm

end

/-! ## What is accepted -/

/-- The tokens say the tree, however many levels that takes. -/
def Derives {α : Type} (P : Phrase α) (ts : List Token) (a : α) : Prop := ∃ n, P ts a n

theorem Parses.iff {α : Type} {step : Nat → Reading α} {P : Phrase α} {F : Follow}
    (h : Parses step P F) {W : α → Bool} (hregular : ∀ {ts a n}, P ts a n → Regular W ts a n)
    {text : String} {limit : Nat} (hlimit : ∀ ts, Tokens text ts → ts.length ≤ limit) (a : α) :
    parseWith step text limit = .ok a ↔ ∃ ts, Tokens text ts ∧ Derives P ts a := by
  constructor
  · exact exists_of_parseWith h
  · rintro ⟨ts, htext, n, ha⟩
    exact (parseWith_of_phrase h htext ha).1 ((hregular ha).levels_le.trans (hlimit ts htext))

/-- Texts are read just as the grammar has it, where more levels may nest than there are tokens; and
no tokens say two trees. -/
theorem parse_iff_derives :
    (∀ text limit, (∀ ts, Tokens text ts → ts.length + 1 < limit) →
      (∀ q, Query.parse text limit = .ok q ↔ ∃ ts, Tokens text ts ∧ Derives IsQuery ts q) ∧
      (∀ e, Scalar.parse text limit = .ok e ↔ ∃ ts, Tokens text ts ∧ Derives IsExpression ts e)) ∧
    (∀ ts q q', Derives IsQuery ts q → Derives IsQuery ts q' → q = q') ∧
    (∀ ts e e', Derives IsExpression ts e → Derives IsExpression ts e' → e = e') := by
  refine ⟨fun text limit hlimit => ?_, ?_, ?_⟩
  · have hlimit (ts) (htext : Tokens text ts) : ts.length ≤ limit :=
      (Nat.le_succ _).trans (hlimit ts htext).le
    exact ⟨parses_query.iff regular_query hlimit, parses_expression.iff regular_expression hlimit⟩
  · rintro ts q q' ⟨n, hq⟩ ⟨m, hq'⟩
    exact parses_query.unique (regular_query hq).spellable hq hq'
  · rintro ts e e' ⟨n, he⟩ ⟨m, he'⟩
    exact parses_expression.unique (regular_expression he).spellable he he'

/-- A product binds tighter than the sum that it is an operand of. -/
theorem parse_select_sum : Query.parse "SELECT VALUE a + b * 2 FROM c" 64 =
    .ok ⟨false, none, .value (.binary .add (.name "a")
        (.binary .multiply (.name "b") (.number (.integer 2)))),
      some (.aliased (.path "c" []) none), none, none, none, none⟩ := by
  have htext : Tokens "SELECT VALUE a + b * 2 FROM c" [.keyword .select, .keyword .value,
      .identifier "a", .mark .plus, .identifier "b", .mark .star, .integer 2, .keyword .from,
      .identifier "c"] := by
    have h := Spells.nil.token (t := .identifier "c") rfl (by nofun)
    have h := (h.spaced (t := .keyword .from) rfl).spaced (t := .integer 2) (by decide)
    have h := (h.spaced (t := .mark .star) rfl).spaced (t := .identifier "b") rfl
    have h := (h.spaced (t := .mark .plus) rfl).spaced (t := .identifier "a") rfl
    exact ((h.spaced (t := .keyword .value) rfl).spaced (t := .keyword .select) rfl).tokens
  have hname {s : String} (h : isIdentifier s = true) :
      IsScalar IsExpression IsQuery .primary 0 [.identifier s] (.name s) 0 := .name h
  have htwo : IsScalar IsExpression IsQuery .primary 0 [.integer 2] (.number (.integer 2)) 0 :=
    .literal (v := .number (.integer 2)) rfl
  have hproduct : IsScalar IsExpression IsQuery (BinaryOp.level .multiply) 1 _ _ _ :=
    .binary nofun ((hname (s := "b") rfl).lift_to (by decide)) (htwo.lift_to (by decide))
  have hsum : IsScalar IsExpression IsQuery (BinaryOp.level .add) 1 _ _ _ :=
    .binary nofun ((hname (s := "a") rfl).lift_to (by decide)) hproduct
  have hvalue : IsExpression _ _ _ := .nested (hsum.lift_to (by decide))
  have hsource : IsSource IsExpression IsQuery [.identifier "c"] (.aliased (.path "c" []) none) 0 :=
    .mk (.operand (.aliased (.path rfl .nil) .none))
  have hclauses : IsClauses IsExpression IsQuery _
      ⟨false, none, .value _, some _, none, none, none, none⟩ _ :=
    .mk .absent (.value hvalue) (.present hsource) .absent .absent .absent .absent
  refine ((parse_iff_derives.1 _ 64 fun ts hts => ?_).1 _).mpr ⟨_, htext, _, .nested hclauses⟩
  rw [Scanner.Yields.unique hts htext]
  decide

end DocQuery
