import DocQuery.Proofs.Grammar.OrderlyQuery

/-!
# What the limit of nesting decides

A reading looks at the limit only where it enters a level. So two sessions that differ in the limit
alone go hand in hand until the one with the lower limit is too deep (`Composed.run_withLimit`).

* `parseWith_ne_outOfFuel`: no text is given up for want of rounds.
* `parse_limit`: under a lower limit a text is too deep, or what becomes of it is what becomes of it
  under a higher one.
-/

namespace DocQuery

open Reading

namespace Session

/-- The session with another limit. -/
def withLimit (s : Session) (limit : Nat) : Session := { s with limit }

/-- Sessions at the start of a text differ in the limit alone. -/
theorem start_withLimit (text : String) (limit limit' : Nat) :
    start text limit' = (start text limit).map (·.withLimit limit') := by
  unfold start
  rcases (Scanner.ofText text).next with ⟨e | t, scanner⟩ <;> rfl

end Session

namespace Reading

variable {α : Type} {p : Reading α} {s : Session} {limit : Nat}

theorem Composed.limit_run (hp : Composed p) (s : Session) : (p.run s).2.limit = s.limit :=
  hp.keeps (Session.kept_limit s.limit) rfl

/-- Under a higher limit a reading does the same, unless it is too deep under the lower one. -/
theorem Composed.run_withLimit (hp : Composed p) (h : s.limit ≤ limit) :
    (∃ place, (p.run s).1 = .error (.tooDeep place s.limit)) ∨
      p.run (s.withLimit limit) = ((p.run s).1, (p.run s).2.withLimit limit) := by
  induction hp generalizing s with
  | pure | fail | token | position | release | note => exact .inr rfl
  | advance =>
    right
    rw [run_advance, run_advance]
    simp only [Session.withLimit]
    rcases s.scanner.next with ⟨e | t, scanner⟩ <;> rfl
  | bump =>
    right
    rw [run_bump, run_bump]
    simp only [Session.withLimit]
    rcases s.scanner.next with ⟨e | t, scanner⟩ <;> rfl
  | descend =>
    rw [run_descend, run_descend]
    by_cases hlow : s.limit < s.depth + 1
    · left
      exact ⟨s.position, by rw [if_pos hlow]⟩
    · right
      have hhigh : ¬ (s.withLimit limit).limit < (s.withLimit limit).depth + 1 := by
        simp only [Session.withLimit]
        omega
      rw [if_neg hlow, if_neg hhigh]
      rfl
  | @bind α β p f hp hf ihp ihf =>
    have hlimit := hp.limit_run s
    rw [run_bind, run_bind]
    obtain ⟨place, hdeep⟩ | hsame := ihp h
    · left
      refine ⟨place, ?_⟩
      rcases hrun : p.run s with ⟨e | a, m⟩ <;> rw [hrun] at hdeep <;> cases hdeep
      rfl
    · rw [hsame]
      rcases hrun : p.run s with ⟨e | a, m⟩ <;> rw [hrun] at hlimit
      · right
        rfl
      · have hm : m.limit = s.limit := hlimit
        have hnext := ihf a (s := m) (hm ▸ h)
        rwa [hm] at hnext

end Reading

/-! ## Whole texts -/

section

variable {α : Type} {step : Nat → Reading α}

/-- No text is given up for want of rounds. -/
theorem parseWith_ne_outOfFuel (hstep : Paced step) (text : String) (limit : Nat)
    (place : Text.Position) : parseWith step text limit ≠ .error (.outOfFuel place) := by
  cases hs : Session.start text limit with
  | error e =>
    have hscan : ∃ scan, e = .scan scan := by
      unfold Session.start at hs
      split at hs <;> cases hs
      exact ⟨_, rfl⟩
    obtain ⟨scan, rfl⟩ := hscan
    unfold parseWith
    rw [hs]
    nofun
  | ok s =>
    rw [parseWith_of_start hs]
    exact s.run_ne_outOfFuel hstep.whole place

/-- What becomes of a text under a lower limit. -/
theorem parseWith_limit (hstep : Paced step) (text : String) {limit limit' : Nat}
    (h : limit ≤ limit') :
    (∃ place, parseWith step text limit = .error (.tooDeep place limit)) ∨
      parseWith step text limit = parseWith step text limit' := by
  have hstart := Session.start_withLimit text limit limit'
  cases hs : Session.start text limit with
  | error e =>
    right
    rw [hs] at hstart
    unfold parseWith
    rw [hs, hstart]
    rfl
  | ok s =>
    rw [hs] at hstart
    obtain ⟨-, rfl, -⟩ := Session.start_ok hs
    have hfuel : (s.withLimit limit').fuel = s.fuel := rfl
    rw [parseWith_of_start hs, parseWith_of_start hstart, hfuel]
    obtain hdeep | hsame := (hstep.whole.composed s.fuel).run_withLimit h
    · exact .inl hdeep
    · right
      rw [hsame]

end

/-- The limit of nesting makes texts too deep, and nothing else. Of two limits, the lower one makes
a text too deep, or under both the same becomes of it: the same tree, or the same error at the same
place. So what is accepted under a limit is accepted under all higher ones, and no two limits give
two trees. None of the errors is that rounds have run out. -/
theorem parse_limit (text : String) :
    (∀ limit limit', limit ≤ limit' →
      ((∃ place, Query.parse text limit = .error (.tooDeep place limit)) ∨
        Query.parse text limit = Query.parse text limit') ∧
      ((∃ place, Scalar.parse text limit = .error (.tooDeep place limit)) ∨
        Scalar.parse text limit = Scalar.parse text limit')) ∧
    (∀ limit limit' q, limit ≤ limit' → Query.parse text limit = .ok q →
      Query.parse text limit' = .ok q) ∧
    (∀ limit limit' q q', Query.parse text limit = .ok q → Query.parse text limit' = .ok q' →
      q = q') ∧
    (∀ limit place, Query.parse text limit ≠ .error (.outOfFuel place) ∧
      Scalar.parse text limit ≠ .error (.outOfFuel place)) := by
  have hquery {limit limit' : Nat} (h : limit ≤ limit') :
      (∃ place, Query.parse text limit = .error (.tooDeep place limit)) ∨
        Query.parse text limit = Query.parse text limit' :=
    parseWith_limit paced_query text h
  have hmono {limit limit' : Nat} {q : Query} (h : limit ≤ limit')
      (hq : Query.parse text limit = .ok q) : Query.parse text limit' = .ok q := by
    obtain ⟨place, hdeep⟩ | hsame := hquery h
    · rw [hq] at hdeep
      cases hdeep
    · rwa [← hsame]
  refine ⟨fun limit limit' h => ⟨hquery h, parseWith_limit paced_expression text h⟩,
    fun _ _ _ h => hmono h, fun limit limit' q q' hq hq' => ?_, fun limit place =>
      ⟨parseWith_ne_outOfFuel paced_query text limit place,
        parseWith_ne_outOfFuel paced_expression text limit place⟩⟩
  obtain h | h := Nat.le_total limit limit'
  · have := hmono h hq
    rw [hq'] at this
    exact (Except.ok.inj this).symm
  · have := hmono h hq'
    rw [hq] at this
    exact Except.ok.inj this

/-- A number in parentheses is three levels deep: too deep under two, and one tree under three and
under sixty-four. What does not fit behind it is so under both. -/
theorem parse_limit_parentheses :
    (∃ place, Query.parse "SELECT VALUE (1)" 2 = .error (.tooDeep place 2)) ∧
    (∃ q, Query.parse "SELECT VALUE (1)" 3 = .ok q ∧ Query.parse "SELECT VALUE (1)" 64 = .ok q) ∧
    Query.parse "SELECT VALUE (1 ]" 64 =
      .error (.unexpected ⟨16, 1, 17⟩ (.token (.mark .rightParen)) (.mark .rightBracket)) := by
  refine ⟨⟨⟨14, 1, 15⟩, eq_error_of_errorOf? (by decide +kernel)⟩, ?_, ?_⟩
  · have hread : (Query.parse "SELECT VALUE (1)" 3).isOk = true := by decide +kernel
    obtain ⟨q, hq⟩ := exists_of_isOk hread
    exact ⟨q, hq, (parse_limit _).2.1 3 64 q (by decide) hq⟩
  · have herror : Query.parse "SELECT VALUE (1 ]" 3 =
        .error (.unexpected ⟨16, 1, 17⟩ (.token (.mark .rightParen)) (.mark .rightBracket)) :=
      eq_error_of_errorOf? (by decide +kernel)
    obtain ⟨place, hdeep⟩ | hsame := ((parse_limit "SELECT VALUE (1 ]").1 3 64 (by decide)).1
    · rw [herror] at hdeep
      cases hdeep
    · rw [← hsame, herror]

end DocQuery
