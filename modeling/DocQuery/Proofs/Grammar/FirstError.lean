import DocQuery.Proofs.Grammar.Exact
import DocQuery.Proofs.Grammar.MirrorsQuery
import DocQuery.Proofs.Token.Forward

/-!
# Errors and where they are reported

`IsOpening parse ts`: some text that `parse` reads, under some limit of nesting, begins with the
tokens `ts`.

* `parse_unexpected`: a token that does not fit is the first one that goes on with no such text: the
  tokens before it are an opening, and behind them no token of its kind is.
* `parse_scan`: where there is no next token, the tokens before are an opening, but for the last one
  where an expression or the key of a path must begin. Such a token is passed over before it is
  looked at, so that the error behind it hides that it does not fit (`parse_scan_hides`).
-/

namespace DocQuery

open Grammar Reading

/-- Some text that is read, under some limit of nesting, begins with these tokens. The end of a text
counts as a token. -/
def IsOpening {α : Type} (parse : String → Nat → Except ParseError α) (ts : List Token) : Prop :=
  ∃ text us limit a, Tokens text us ∧ ts <+: us ++ [.endOfText] ∧ parse text limit = .ok a

/-! ## Sessions and the scanners behind them -/

namespace Session

variable {s w : Session} {ts us : List Token} {t : Token}

/-- What a session passes over, the scanner that its token came from passes over. -/
theorem Leads.scans {before : Scanner} (h : s.Leads ts w)
    (hs : before.next = (.ok s.token, s.scanner)) (hplace : s.position = s.scanner.tokenStart) :
    ∃ m, before.Passes ts m ∧ m.next = (.ok w.token, w.scanner) ∧
      w.position = w.scanner.tokenStart := by
  induction h generalizing before with
  | @done s s' h =>
    have hposition : s'.position = s.position := by rw [h]
    refine ⟨before, .done before, ?_, ?_⟩
    · rw [h.token, h.scanner, hs]
    · rw [hposition, h.scanner, hplace]
  | step hnext hend _ ih =>
    obtain ⟨m, hm, hw⟩ := ih hnext rfl
    exact ⟨m, .step hs hend hm, hw⟩

theorem Passes.scans {before : Scanner} (h : s.Passes ts w)
    (hs : before.next = (.ok s.token, s.scanner)) (hplace : s.position = s.scanner.tokenStart) :
    ∃ m, before.Passes ts m ∧ m.next = (.ok w.token, w.scanner) ∧
      w.position = w.scanner.tokenStart :=
  Leads.scans (s := { s with depth := 0 }) (w := { w with depth := 0 }) h hs hplace

/-- A session that passes over the tokens of a text passes over the first of them. -/
theorem Leads.passes_of_prefix (h : s.Leads us w) (hend : w.token = .endOfText)
    (hts : ts ++ [t] <+: us ++ [.endOfText]) : ∃ m, s.Passes ts m ∧ m.token = t := by
  obtain heq | ⟨vs, rfl⟩ := List.prefix_concat_iff.mp hts
  · obtain ⟨rfl, ht⟩ := List.append_inj' heq rfl
    exact ⟨w, h.withDepth 0, hend.trans (List.cons.inj ht).1.symm⟩
  · rw [List.append_assoc] at h
    obtain ⟨m, hm, hrest⟩ := Passes.split (h.withDepth 0)
    exact ⟨m, hm, hrest.token_eq⟩

theorem start_position {text : String} {limit : Nat} (h : start text limit = .ok s) :
    s.position = s.scanner.tokenStart := by
  unfold start at h
  rcases hnext : (Scanner.ofText text).next with ⟨e | t, scanner⟩
  · rw [hnext] at h
    cases h
  · rw [hnext] at h
    cases h
    rfl

theorem start_scanned {text : String} {limit : Nat} (h : start text limit = .ok s) : s.Scanned := by
  obtain ⟨hnext, -⟩ := start_ok h
  by_cases hend : s.token = .endOfText
  · exact .inl hend
  · exact .inr (Scanner.isSpellable_of_next hnext hend)

theorem start_error {text : String} {limit : Nat} {e : ParseError}
    (h : start text limit = .error e) :
    ∃ e' scanner, e = .scan e' ∧ (Scanner.ofText text).next = (.error e', scanner) := by
  unfold start at h
  rcases hnext : (Scanner.ofText text).next with ⟨e' | t, scanner⟩
  · rw [hnext] at h
    cases h
    exact ⟨e', scanner, rfl, rfl⟩
  · rw [hnext] at h
    cases h

end Session

/-! ## Whole readings -/

section

variable {α : Type} {P : Phrase α} {F : Reading.Follow} {step : Nat → Reading α} {text : String}
  {limit : Nat}

/-- A reading with nothing behind it. -/
def Reading.whole (p : Reading α) : Reading α := do
  let a ← p
  expectEnd
  return a

theorem Reading.Mirrors.whole {p p' : Reading α} (h : Mirror p p') : Mirror p.whole p'.whole := by
  have hend : Mirror expectEnd expectEnd := by
    refine .bind (mirror_isAt rfl) fun found => ?_
    cases found with
    | true => exact .pure ()
    | false => exact mirrors_unexpected _
  exact .bind h fun a => .bind hend fun _ => .pure a

theorem Reading.Tells.whole {p : Reading α} (h : TellsPhrase p P) : TellsPhrase p.whole P := by
  have hend : Tells expectEnd fun ts _ => ts = [] := by
    refine .isAt fun found => ?_
    cases found with
    | true => exact .pure rfl
    | false => exact ⟨answers_unexpected ⟨[], (), rfl⟩ _, [], (), rfl⟩
  refine .bind h fun ts a ha => .bind hend fun _ _ hnil => .pure ?_
  rw [hnil, List.append_nil, List.append_nil]
  exact ha

theorem parseWith_of_start {s : Session} (hs : Session.start text limit = .ok s) :
    parseWith step text limit = ((step s.fuel).whole.run s).1 := by
  unfold parseWith
  rw [hs]
  rfl

/-- Phrases that reading in rounds gives, and no others; and where tokens go on with none, it stops
in front of them. -/
structure Foresees (step : Nat → Reading α) (P : Phrase α) (F : Reading.Follow) : Prop
    extends Parses step P F where
  spellable : ∀ {ts a n}, P ts a n → ts.all Token.isSpellable = true
  mirror : ∀ fuel fuel', Mirror (step fuel) (step fuel')

theorem foresees_query : Foresees Reading.query IsQuery (·.endsQuery = true) :=
  ⟨parses_query, fun h => (regular_query h).spellable, mirror_query⟩

theorem foresees_expression :
    Foresees Reading.expression IsExpression (Level.conditional.stops · = true) :=
  ⟨parses_expression, fun h => (regular_expression h).spellable, mirror_expression⟩

/-- What begins a phrase begins the text of one. -/
theorem Foresees.isOpening (h : Foresees step P F) {ts : List Token}
    (hts : Begins (fun ts a => ∃ n, P ts a n) ts) : IsOpening (parseWith step) ts := by
  obtain ⟨us, a, n, ha⟩ := hts
  obtain ⟨text, htext⟩ := exists_tokens (List.all_eq_true.mp (h.spellable ha))
  refine ⟨text, ts ++ us, n, a, htext, ?_, (parseWith_of_phrase h.toParses htext ha).1 le_rfl⟩
  rw [List.append_assoc]
  exact List.prefix_append _ _

/-- The first token that does not fit. -/
theorem Foresees.unexpected (h : Foresees step P F) {place : Text.Position} {expected : Expected}
    {found : Token}
    (hparse : parseWith step text limit = .error (.unexpected place expected found)) :
    ∃ ts s s', (Scanner.ofText text).Passes ts s ∧ s.next = (.ok found, s') ∧
      s'.tokenStart = place ∧ IsOpening (parseWith step) ts ∧
      ∀ t, found.SameKind t → ¬IsOpening (parseWith step) (ts ++ [t]) := by
  cases hs : Session.start text limit with
  | error e =>
    obtain ⟨e', scanner, rfl, -⟩ := Session.start_error hs
    unfold parseWith at hparse
    rw [hs] at hparse
    cases hparse
  | ok s =>
    obtain ⟨hnext, -⟩ := Session.start_ok hs
    have hposition := Session.start_position hs
    rw [parseWith_of_start hs] at hparse
    have hrun : (step s.fuel).whole.run s = (.error _, ((step s.fuel).whole.run s).2) :=
      Prod.ext hparse rfl
    obtain ⟨ts, w, hts, rfl, rfl, hbegins⟩ :=
      (h.tells _).whole.falters s _ _ (Session.start_scanned hs) trivial hrun
    obtain ⟨m, hm, hw, hplace⟩ := hts.scans hnext hposition
    refine ⟨ts, m, w.scanner, hm, hw, hplace.symm, h.isOpening hbegins, ?_⟩
    rintro t hkind ⟨text', us, limit', a, htext', hprefix, hok⟩
    cases hs' : Session.start text' limit' with
    | error e =>
      unfold parseWith at hok
      rw [hs'] at hok
      cases hok
    | ok s' =>
      obtain ⟨hnext', -⟩ := Session.start_ok hs'
      rw [parseWith_of_start hs'] at hok
      obtain ⟨ts', w', hts', hplace', hfound', hbalks⟩ :=
        (Mirrors.whole (h.mirror s.fuel s'.fuel)).balks s _ _ _ _ trivial hrun
      obtain ⟨m', hm', hw', hplace''⟩ := hts'.scans hnext hposition
      obtain rfl := hm.unique hw hm' hw' (by rw [← hplace, ← hplace'', hplace'])
      obtain ⟨k, hk, hend⟩ := Session.exists_leads htext' hnext'
      obtain ⟨l, hl, rfl⟩ := hk.passes_of_prefix hend hprefix
      exact hbalks s' l hl hkind a _ (Prod.ext hok rfl)

/-- The tokens before the place where there is no next one. -/
theorem Foresees.scan (h : Foresees step P F) {e : ScanError}
    (hparse : parseWith step text limit = .error (.scan e)) :
    ∃ ts s s', (Scanner.ofText text).Passes ts s ∧ s.next = (.error e, s') ∧
      s.cursor.position.offset ≤ e.position.offset ∧
      (IsOpening (parseWith step) ts ∨
        ∃ us t, ts = us ++ [t] ∧ IsOpening (parseWith step) (us ++ [.integer 0])) := by
  cases hs : Session.start text limit with
  | error e' =>
    obtain ⟨e'', scanner, rfl, hnext⟩ := Session.start_error hs
    unfold parseWith at hparse
    rw [hs] at hparse
    cases hparse
    exact ⟨[], _, scanner, .done _, hnext, Scanner.offset_le_of_error hnext,
      .inl (h.isOpening (h.tells 0).begins)⟩
  | ok s =>
    obtain ⟨hnext, -⟩ := Session.start_ok hs
    rw [parseWith_of_start hs] at hparse
    have hrun : (step s.fuel).whole.run s = (.error _, ((step s.fuel).whole.run s).2) :=
      Prod.ext hparse rfl
    obtain ⟨ts, w, scanner, hts, herror, hbegins⟩ :=
      (h.tells _).whole.falters s _ _ (Session.start_scanned hs) trivial hrun
    obtain ⟨m, hm, hw, -⟩ := hts.scans hnext (Session.start_position hs)
    have hend : w.token ≠ .endOfText := by
      intro hend
      rw [hend] at hw
      exact Scanner.next_ne_error_of_endOfText hw e scanner herror
    exact ⟨ts ++ [w.token], w.scanner, scanner, hm.concat hw hend, herror,
      Scanner.offset_le_of_error herror, hbegins.imp h.isOpening fun hzero =>
        ⟨ts, w.token, rfl, h.isOpening hzero⟩⟩

end

/-! ## Queries and expressions -/

/-- A token is reported as unfit where it is the first one that does not fit: the tokens before it
begin a text that is read, and with a token of its kind behind them they begin none. -/
theorem parse_unexpected :
    (∀ text limit place expected found,
      Query.parse text limit = .error (.unexpected place expected found) →
      ∃ ts s s', (Scanner.ofText text).Passes ts s ∧ s.next = (.ok found, s') ∧
        s'.tokenStart = place ∧ IsOpening Query.parse ts ∧
        ∀ t, found.SameKind t → ¬IsOpening Query.parse (ts ++ [t])) ∧
    (∀ text limit place expected found,
      Scalar.parse text limit = .error (.unexpected place expected found) →
      ∃ ts s s', (Scanner.ofText text).Passes ts s ∧ s.next = (.ok found, s') ∧
        s'.tokenStart = place ∧ IsOpening Scalar.parse ts ∧
        ∀ t, found.SameKind t → ¬IsOpening Scalar.parse (ts ++ [t])) :=
  ⟨fun _ _ _ _ _ => foresees_query.unexpected, fun _ _ _ _ _ => foresees_expression.unexpected⟩

/-- The error of a text that is not read. -/
def errorOf? {α : Type} : Except ParseError α → Option ParseError
  | .error e => some e
  | .ok _ => none

theorem eq_error_of_errorOf? {α : Type} {r : Except ParseError α} {e : ParseError}
    (h : errorOf? r = some e) : r = .error e := by
  cases r with
  | error e' => rw [Option.some.inj h]
  | ok a => cases h

theorem parse_unexpected_paren :
    (∃ ts s s', (Scanner.ofText "SELECT )").Passes ts s ∧
      s.next = (.ok (.mark .rightParen), s') ∧ s'.tokenStart = ⟨7, 1, 8⟩ ∧
      IsOpening Query.parse ts ∧
      ∀ t, (Token.mark .rightParen).SameKind t → ¬IsOpening Query.parse (ts ++ [t])) ∧
    ∃ ts s s', (Scanner.ofText "1 +").Passes ts s ∧ s.next = (.ok .endOfText, s') ∧
      s'.tokenStart = ⟨3, 1, 4⟩ ∧ IsOpening Scalar.parse ts ∧
      ∀ t, Token.endOfText.SameKind t → ¬IsOpening Scalar.parse (ts ++ [t]) := by
  have hquery : errorOf? (Query.parse "SELECT )" defaultLimit) =
      some (.unexpected ⟨7, 1, 8⟩ .expression (.mark .rightParen)) := by decide +kernel
  have hscalar : errorOf? (Scalar.parse "1 +" defaultLimit) =
      some (.unexpected ⟨3, 1, 4⟩ .expression .endOfText) := by decide +kernel
  exact ⟨parse_unexpected.1 _ _ _ _ _ (eq_error_of_errorOf? hquery),
    parse_unexpected.2 _ _ _ _ _ (eq_error_of_errorOf? hscalar)⟩

/-- Where there is no next token, the tokens before begin a text that is read, or they do so with a
number in place of the last: that one stands where an expression or the key of a path must begin,
and is passed over before it is looked at. -/
theorem parse_scan (text : String) (limit : Nat) (e : ScanError) :
    (Query.parse text limit = .error (.scan e) →
      ∃ ts s s', (Scanner.ofText text).Passes ts s ∧ s.next = (.error e, s') ∧
        s.cursor.position.offset ≤ e.position.offset ∧
        (IsOpening Query.parse ts ∨
          ∃ us t, ts = us ++ [t] ∧ IsOpening Query.parse (us ++ [.integer 0]))) ∧
    (Scalar.parse text limit = .error (.scan e) →
      ∃ ts s s', (Scanner.ofText text).Passes ts s ∧ s.next = (.error e, s') ∧
        s.cursor.position.offset ≤ e.position.offset ∧
        (IsOpening Scalar.parse ts ∨
          ∃ us t, ts = us ++ [t] ∧ IsOpening Scalar.parse (us ++ [.integer 0]))) :=
  ⟨foresees_query.scan, foresees_expression.scan⟩

theorem parse_scan_star : ∃ ts s s', (Scanner.ofText "SELECT * !").Passes ts s ∧
    s.next = (.error (.unexpectedCharacter '!' ⟨9, 1, 10⟩), s') ∧
    s.cursor.position.offset ≤ 9 ∧
    (IsOpening Query.parse ts ∨
      ∃ us t, ts = us ++ [t] ∧ IsOpening Query.parse (us ++ [.integer 0])) := by
  have herror : errorOf? (Query.parse "SELECT * !" defaultLimit) =
      some (.scan (.unexpectedCharacter '!' ⟨9, 1, 10⟩)) := by decide +kernel
  exact (parse_scan _ _ _).1 (eq_error_of_errorOf? herror)

/-- Behind `SELECT` no text goes on with a parenthesis that closes, but that is not what is
reported. -/
theorem parse_scan_hides : ∃ s s',
    Query.parse "SELECT ) !" defaultLimit = .error (.scan (.unexpectedCharacter '!' ⟨9, 1, 10⟩)) ∧
    (Scanner.ofText "SELECT ) !").Passes [.keyword .select, .mark .rightParen] s ∧
    s.next = (.error (.unexpectedCharacter '!' ⟨9, 1, 10⟩), s') ∧
    ¬IsOpening Query.parse [.keyword .select, .mark .rightParen] := by
  have herror : errorOf? (Query.parse "SELECT ) !" defaultLimit) =
      some (.scan (.unexpectedCharacter '!' ⟨9, 1, 10⟩)) := by decide +kernel
  have hselect : (Scanner.ofText "SELECT ) !").next =
      (.ok (.keyword .select), ⟨⟨" ) !".toList, ⟨6, 1, 7⟩⟩, .start⟩) := by decide +kernel
  have hparen : Scanner.next ⟨⟨" ) !".toList, ⟨6, 1, 7⟩⟩, .start⟩ =
      (.ok (.mark .rightParen), ⟨⟨" !".toList, ⟨8, 1, 9⟩⟩, ⟨7, 1, 8⟩⟩) := by decide +kernel
  refine ⟨⟨⟨" !".toList, ⟨8, 1, 9⟩⟩, ⟨7, 1, 8⟩⟩, _, eq_error_of_errorOf? herror,
    .step hselect nofun (.step hparen nofun (.done _)), rfl, ?_⟩
  -- without the lone mark behind it, the parenthesis is reported
  have hunfit : errorOf? (Query.parse "SELECT )" defaultLimit) =
      some (.unexpected ⟨7, 1, 8⟩ .expression (.mark .rightParen)) := by decide +kernel
  have hselect' : (Scanner.ofText "SELECT )").next =
      (.ok (.keyword .select), ⟨⟨" )".toList, ⟨6, 1, 7⟩⟩, .start⟩) := by decide +kernel
  have hparen' : Scanner.next ⟨⟨" )".toList, ⟨6, 1, 7⟩⟩, .start⟩ =
      (.ok (.mark .rightParen), ⟨⟨[], ⟨8, 1, 9⟩⟩, ⟨7, 1, 8⟩⟩) := by decide +kernel
  obtain ⟨ts, s, s', hts, hnext, hplace, -, hnot⟩ :=
    foresees_query.unexpected (eq_error_of_errorOf? hunfit)
  obtain rfl := hts.unique hnext (.step hselect' nofun (.done _)) hparen' hplace
  exact hnot _ (.refl _)

end DocQuery
