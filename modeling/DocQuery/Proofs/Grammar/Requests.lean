import DocQuery.Proofs.Grammar.OrderlyQuery

/-!
# Sessions that go on

A session may be asked for queries and expressions as often as one likes, also after an error.

* `Session.after s requests`: the session behind some requests, whether or not they were met.
* `Session.Kept.after`: what the small steps of readings keep, any requests keep.
* `Session.after_ne_outOfFuel`: no request is given up for want of rounds.
* `isWellFormed_of_session`: all trees that a session ever gives are well-formed.
-/

namespace DocQuery

open Grammar Reading

namespace Session

/-- What a session may be asked for. -/
inductive Request where
  /-- A query with nothing behind it. -/
  | query
  /-- An expression with nothing behind it. -/
  | scalar
  /-- An expression with anything behind it. -/
  | expression

/-- The session behind a request, whether or not it was met. -/
def behind (s : Session) : Request → Session
  | .query => s.query.2
  | .scalar => s.scalar.2
  | .expression => s.expression.2

/-- The session behind some requests, one after another. -/
def after (s : Session) (requests : List Request) : Session := requests.foldl behind s

section

variable {α : Type} {P : Phrase α} {p : Reading α} {s : Session} {a : α}

/-! ## Invariants -/

theorem Kept.behind {I : Session → Prop} (hI : Kept I) (hs : I s) (request : Request) :
    I (s.behind request) := by
  cases request with
  | query => exact (paced_query.whole.composed s.fuel).keeps hI hs
  | scalar => exact (paced_expression.whole.composed s.fuel).keeps hI hs
  | expression => exact (paced_expression.composed s.fuel).keeps hI hs

/-- What the small steps of readings keep, any requests keep. -/
theorem Kept.after {I : Session → Prop} (hI : Kept I) (hs : I s) (requests : List Request) :
    I (s.after requests) := by
  induction requests generalizing s with
  | nil => exact hs
  | cons request requests ih => exact ih (hI.behind hs request)

/-! ## Answers -/

/-- A session that goes on never gives up for want of rounds. -/
theorem after_ne_outOfFuel (s : Session) (requests : List Request) (place : Text.Position) :
    (s.after requests).query.1 ≠ .error (.outOfFuel place) ∧
    (s.after requests).scalar.1 ≠ .error (.outOfFuel place) ∧
    (s.after requests).expression.1 ≠ .error (.outOfFuel place) :=
  ⟨run_ne_outOfFuel paced_query.whole _ place, run_ne_outOfFuel paced_expression.whole _ place,
    run_ne_outOfFuel paced_expression _ place⟩

/-- A reading with nothing behind it gives what the reading gives. -/
theorem ok_of_whole (h : (p.whole.run s).1 = .ok a) : (p.run s).1 = .ok a := by
  obtain ⟨b, m, hrun, hrest⟩ := exists_of_run_bind (Prod.ext h rfl)
  obtain ⟨_, _, _, hpure⟩ := exists_of_run_bind hrest
  cases hpure
  rw [hrun]

/-- What a session gives is a phrase, whatever was read before. -/
theorem Scanned.exists_phrase (hs : s.Scanned) (hp : TellsPhrase p P)
    (h : (p.run s).1 = .ok a) : ∃ ts n, P ts a n := by
  obtain ⟨ts, -, n, ha⟩ := hp.finds s a _ hs trivial (Prod.ext h rfl)
  exact ⟨ts, n, ha⟩

theorem Scanned.isWellFormed_query {q : Query} (hs : s.Scanned) (h : s.query.1 = .ok q) :
    q.isWellFormed = true := by
  obtain ⟨ts, n, hq⟩ := hs.exists_phrase (tells_query s.fuel) (ok_of_whole h)
  exact (regular_query hq).wellFormed

theorem Scanned.isWellFormed_expression {e : Scalar} (hs : s.Scanned)
    (h : s.expression.1 = .ok e) : e.isWellFormed = true := by
  obtain ⟨ts, n, he⟩ := hs.exists_phrase (tells_expression s.fuel) h
  exact (regular_expression he).wellFormed

theorem Scanned.isWellFormed_scalar {e : Scalar} (hs : s.Scanned) (h : s.scalar.1 = .ok e) :
    e.isWellFormed = true :=
  hs.isWellFormed_expression (ok_of_whole h)

end

end Session

/-- All trees that a session gives are well-formed, whatever it was asked for before and whether or
not it could give it. -/
theorem isWellFormed_of_session {text : String} {limit : Nat} {s : Session}
    (hs : Session.start text limit = .ok s) (requests : List Session.Request) :
    (∀ q, (s.after requests).query.1 = .ok q → q.isWellFormed = true) ∧
    (∀ e, (s.after requests).scalar.1 = .ok e → e.isWellFormed = true) ∧
    (∀ e, (s.after requests).expression.1 = .ok e → e.isWellFormed = true) := by
  have hscanned : (s.after requests).Scanned :=
    Session.kept_scanned.after (Session.start_scanned hs) requests
  exact ⟨fun _ => hscanned.isWellFormed_query, fun _ => hscanned.isWellFormed_scalar,
    fun _ => hscanned.isWellFormed_expression⟩

/-- The comma is passed over before it is found unfit, and leaves a level open; no `SELECT` follows
it, but an expression does. -/
theorem isWellFormed_of_session_comma : ∃ s, Session.start "1 + , c.x" defaultLimit = .ok s ∧
    s.expression.1.isOk = false ∧ (s.after [.expression]).query.1.isOk = false ∧
    ∃ e, (s.after [.expression, .query]).scalar.1 = .ok e ∧ e.isWellFormed = true := by
  have hanswers : (Session.start "1 + , c.x" defaultLimit).toOption.map (fun s =>
      (s.expression.1.isOk, (s.after [.expression]).query.1.isOk,
        (s.after [.expression, .query]).scalar.1.isOk)) = some (false, false, true) := by
    decide +kernel
  obtain ⟨s, hs, hanswers⟩ := exists_of_map hanswers
  simp only [Prod.mk.injEq] at hanswers
  obtain ⟨hfirst, hsecond, hthird⟩ := hanswers
  obtain ⟨e, he⟩ := exists_of_isOk hthird
  exact ⟨s, hs, hfirst, hsecond, e, he, (isWellFormed_of_session hs _).2.1 e he⟩

end DocQuery
