import DocQuery.Grammar.Parse
import DocQuery.Proofs.Token.Stream

/-!
# What a session passes over

* `Session.Like s s'`: the sessions differ in the calls noted at most, which no reading looks at.
* `Session.Leads s ts s'`: passing over the tokens `ts` takes `s` to a session like `s'`.
* `Session.Scanned s`: the token to be read next is one that text can have.
* `Reading.run_bind`, `Reading.run_advance` and so on: how the parts of a reading run.
-/

namespace DocQuery

namespace Session

/-! ## Sessions that differ in the calls noted -/

/-- The sessions differ in the calls noted at most. -/
def Like (s s' : Session) : Prop := s' = { s with calls := s'.calls }

section

variable {s s' s'' : Session}

theorem Like.refl (s : Session) : s.Like s := rfl

theorem Like.symm (h : s.Like s') : s'.Like s := by
  obtain ⟨_, _, _, _, _, _⟩ := s
  obtain ⟨_, _, _, _, _, _⟩ := s'
  cases h
  rfl

theorem Like.trans (h : s.Like s') (h' : s'.Like s'') : s.Like s'' := by
  unfold Like at h h' ⊢
  rw [h'] at ⊢
  rw [h]

theorem Like.scanner (h : s.Like s') : s'.scanner = s.scanner := by rw [h]

theorem Like.token (h : s.Like s') : s'.token = s.token := by rw [h]

theorem Like.limit (h : s.Like s') : s'.limit = s.limit := by rw [h]

theorem Like.depth (h : s.Like s') : s'.depth = s.depth := by rw [h]

theorem Like.withDepth (h : s.Like s') (d : Nat) :
    { s with depth := d }.Like { s' with depth := d } := by
  unfold Like at h ⊢
  rw [h]

end

/-! ## Passing over tokens -/

/-- The session behind the token to be read next, if `t` comes after it. -/
def passed (s : Session) (t : Token) (scanner : Scanner) : Session :=
  { s with scanner, token := t, position := scanner.tokenStart }

/-- Passing over the tokens `ts` takes `s` to a session like `s'`. -/
inductive Leads : Session → List Token → Session → Prop
  | done {s s' : Session} (h : s.Like s') : Leads s [] s'
  | step {s s' : Session} {t : Token} {scanner : Scanner} {ts : List Token}
    (hnext : s.scanner.next = (.ok t, scanner)) (hend : s.token ≠ .endOfText)
    (hrest : Leads (s.passed t scanner) ts s') : Leads s (s.token :: ts) s'

section

variable {s m s' : Session} {ts us : List Token}

theorem Leads.refl (s : Session) : s.Leads [] s := .done (.refl s)

theorem Like.passed (h : s.Like s') (t : Token) (scanner : Scanner) :
    (s.passed t scanner).Like (s'.passed t scanner) := by
  unfold Like Session.passed at *
  rw [h]

theorem Leads.like_left (hlike : s.Like m) (h : m.Leads ts s') : s.Leads ts s' := by
  induction h generalizing s with
  | done h => exact .done (hlike.trans h)
  | step hnext hend _ ih =>
    rw [hlike.scanner] at hnext
    rw [hlike.token] at hend ⊢
    exact .step hnext hend (ih (hlike.passed _ _))

theorem Leads.append (h : s.Leads ts m) (h' : m.Leads us s') : s.Leads (ts ++ us) s' := by
  induction h with
  | done h => exact h'.like_left h
  | step hnext hend _ ih => exact .step hnext hend (ih h')

theorem Leads.split (h : s.Leads (ts ++ us) s') : ∃ m, s.Leads ts m ∧ m.Leads us s' := by
  induction ts generalizing s with
  | nil => exact ⟨s, .refl s, h⟩
  | cons t ts ih =>
    cases h with
    | step hnext hend hrest =>
      obtain ⟨m, h₁, h₂⟩ := ih hrest
      exact ⟨m, .step hnext hend h₁, h₂⟩

theorem Leads.token_eq {t : Token} (h : s.Leads (t :: ts) s') : s.token = t := by
  cases h
  rfl

theorem Leads.limit (h : s.Leads ts s') : s'.limit = s.limit := by
  induction h with
  | done h => exact h.limit
  | step _ _ _ ih => exact ih

theorem Leads.depth (h : s.Leads ts s') : s'.depth = s.depth := by
  induction h with
  | done h => exact h.depth
  | step _ _ _ ih => exact ih

/-- Levels of nesting have no part in passing over tokens. -/
theorem Leads.withDepth (h : s.Leads ts s') (d : Nat) :
    { s with depth := d }.Leads ts { s' with depth := d } := by
  induction h with
  | done h => exact .done (h.withDepth d)
  | @step s s' t scanner ts hnext hend _ ih =>
    exact .step (s := { s with depth := d }) hnext hend ih

/-! ## Tokens that text can have -/

/-- The token to be read next is one that text can have, or the end of the text. -/
def Scanned (s : Session) : Prop := s.token = .endOfText ∨ s.token.isSpellable = true

theorem Like.scanned (h : s.Like s') (hs : s.Scanned) : s'.Scanned := by
  unfold Scanned
  rwa [h.token]

theorem scanned_passed {t : Token} {scanner : Scanner} (h : s.scanner.next = (.ok t, scanner)) :
    (s.passed t scanner).Scanned := by
  by_cases hend : t = .endOfText
  · exact .inl hend
  · exact .inr (Scanner.isSpellable_of_next h hend)

theorem Leads.scanned (h : s.Leads ts s') (hs : s.Scanned) : s'.Scanned := by
  induction h with
  | done h => exact h.scanned hs
  | step hnext _ _ ih => exact ih (scanned_passed hnext)

end

/-! ## Whole texts -/

/-- A session that looks at the first of some tokens and passes over them all to the end of the text
has the text of these tokens. -/
theorem Leads.yields {s s' : Session} {ts : List Token} (h : s.Leads ts s')
    (hend : s'.token = .endOfText) {before : Scanner} (hs : before.next = (.ok s.token, s.scanner)) :
    before.Yields ts := by
  induction h generalizing before with
  | done h =>
    rw [← h.token, hend] at hs
    exact .done hs
  | step hnext hne _ ih => exact .step hs hne (ih hend hnext)

/-- A session in the text of some tokens passes over them all to the end of the text. -/
theorem exists_leads {s : Session} {ts : List Token} {before : Scanner} (h : before.Yields ts)
    (hs : before.next = (.ok s.token, s.scanner)) :
    ∃ s', s.Leads ts s' ∧ s'.token = .endOfText := by
  induction h generalizing s with
  | done h =>
    obtain ⟨htoken, -⟩ := Prod.mk.inj (h.symm.trans hs)
    exact ⟨s, .refl s, (Except.ok.inj htoken).symm⟩
  | step h hend hrest ih =>
    obtain ⟨htoken, hscanner⟩ := Prod.mk.inj (h.symm.trans hs)
    have htoken := Except.ok.inj htoken
    subst hscanner htoken
    obtain ⟨t, scanner, hnext⟩ : ∃ t scanner, s.scanner.next = (.ok t, scanner) := by
      cases hrest with
      | done hnext => exact ⟨_, _, hnext⟩
      | step hnext _ _ => exact ⟨_, _, hnext⟩
    obtain ⟨s', hleads, hs'⟩ := ih (s := s.passed t scanner) hnext
    exact ⟨s', .step hnext hend hleads, hs'⟩

end Session

/-! ## Running readings -/

namespace Reading

variable {α β : Type} {p : Reading α} {f : α → Reading β} {s s' : Session} {a : α} {b : β}

theorem run_bind (p : Reading α) (f : α → Reading β) (s : Session) : (p >>= f).run s =
    match p.run s with
    | (.ok a, s') => (f a).run s'
    | (.error e, s') => (.error e, s') := by
  have h : (p >>= f).run s = ExceptT.bindCont f (p.run s).1 (p.run s).2 := rfl
  rw [h]
  rcases p.run s with ⟨_ | _, _⟩ <;> rfl

theorem run_bind_ok (h : p.run s = (.ok a, s')) : (p >>= f).run s = (f a).run s' := by
  rw [run_bind, h]

theorem run_bind_error {e : ParseError} (h : p.run s = (.error e, s')) :
    (p >>= f).run s = (.error e, s') := by
  rw [run_bind, h]

/-- A reading in two steps gives a value only if both do. -/
theorem exists_of_run_bind (h : (p >>= f).run s = (.ok b, s')) :
    ∃ a m, p.run s = (.ok a, m) ∧ (f a).run m = (.ok b, s') := by
  rw [run_bind] at h
  rcases hp : p.run s with ⟨e | a, m⟩
  · rw [hp] at h
    cases h
  · rw [hp] at h
    exact ⟨a, m, rfl, h⟩

theorem run_token (s : Session) : token.run s = (.ok s.token, s) := rfl

theorem run_position (s : Session) : position.run s = (.ok s.position, s) := rfl

theorem run_isAt (t : Token) (s : Session) : (isAt t).run s = (.ok (s.token == t), s) := rfl

/-- Passing over a token: there must be one behind it, or the end of the text. -/
theorem run_advance (s : Session) : advance.run s =
    match s.scanner.next with
    | (.ok t, scanner) => (.ok (), s.passed t scanner)
    | (.error e, scanner) => (.error (.scan e), { s with scanner }) := by
  unfold advance
  rw [run_bind_ok (show (get : Reading Session).run s = (.ok s, s) from rfl)]
  rcases s.scanner.next with ⟨_ | _, _⟩ <;> rfl

theorem run_bump (s : Session) : bump.run s =
    match s.scanner.next with
    | (.ok t, scanner) => (.ok s.token, s.passed t scanner)
    | (.error e, scanner) => (.error (.scan e), { s with scanner, token := .endOfText }) := by
  unfold bump
  rw [run_bind_ok (run_token s)]
  rw [run_bind_ok (show (modify ({ · with token := .endOfText }) : Reading Unit).run s =
    (.ok (), { s with token := .endOfText }) from rfl)]
  rw [run_bind, run_advance]
  rcases s.scanner.next with ⟨_ | _, _⟩ <;> rfl

theorem run_consume (t : Token) (s : Session) : (consume t).run s =
    if s.token = t then (do advance; return true : Reading Bool).run s
    else (Pure.pure false : Reading Bool).run s := by
  unfold consume
  rw [run_bind_ok (run_isAt t s)]
  by_cases hat : s.token = t
  · rw [hat, beq_self_eq_true, if_pos rfl, if_pos rfl]
  · rw [beq_eq_false_iff_ne.mpr hat, if_neg hat]
    rfl

theorem run_expect (t : Token) (s : Session) : (expect t).run s =
    if s.token = t then advance.run s else (unexpected (.token t) : Reading Unit).run s := by
  unfold expect
  rw [run_bind_ok (run_isAt t s)]
  by_cases hat : s.token = t
  · rw [hat, beq_self_eq_true, if_pos rfl, if_pos rfl]
  · rw [beq_eq_false_iff_ne.mpr hat, if_neg hat]
    rfl

theorem run_descend (s : Session) : descend.run s =
    if s.limit < s.depth + 1 then
      (.error (.tooDeep s.position s.limit), { s with depth := s.depth + 1 })
    else (.ok (), { s with depth := s.depth + 1 }) := by
  unfold descend
  rw [run_bind_ok (show (modify fun s => { s with depth := s.depth + 1 } : Reading Unit).run s =
    (.ok (), { s with depth := s.depth + 1 }) from rfl)]
  rw [run_bind_ok (show (get : Reading Session).run { s with depth := s.depth + 1 } =
    (.ok { s with depth := s.depth + 1 }, { s with depth := s.depth + 1 }) from rfl)]
  simp only []
  split <;> rfl

end Reading

theorem exists_of_isOk {α : Type} {r : Except ParseError α} (h : r.isOk = true) :
    ∃ a, r = .ok a := by
  cases r with
  | ok a => exact ⟨a, rfl⟩
  | error e => cases h

theorem exists_of_map {α β : Type} {r : Except ParseError α} {f : α → β} {b : β}
    (h : r.toOption.map f = some b) : ∃ a, r = .ok a ∧ f a = b := by
  cases r with
  | ok a => exact ⟨a, rfl, Option.some.inj h⟩
  | error e => cases h

end DocQuery
