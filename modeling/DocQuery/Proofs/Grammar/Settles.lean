import DocQuery.Proofs.Grammar.Asks

/-!
# Requests end by themselves

The grammar asks for no token that it does not need: it passes over a token only after it has looked at
it, but for the first token of a primary expression and the key of a path, and these fail at the end of
the text. So however the text goes on and however deeply it may nest, a request asks once more than there
are tokens at most, and it has rounds enough.

* `Reading.settles_of_paced`: so it is for any reading in good order.
* `Session.settles_of_start`: all that a session is asked for ends by itself, and how often it asks.
-/

namespace DocQuery

namespace Reading

/-- Run from `s`, the reading ends by itself: sixteen rounds for each token that is left are enough, and
it asks the scanner for `asks` tokens at most. -/
structure Settles {α : Type} (step : Nat → Reading α) (s : Session) (asks : Nat) : Prop where
  rounds : ∀ fuel, 16 * (s.left + 1) ≤ fuel → ∀ place,
    ((step fuel).run s).1 ≠ .error (.outOfFuel place)
  asks : ∀ fuel, ∃ k ≤ asks, Asks (step fuel) s k ∧
    ((step fuel).run s).2.scanner = s.scanner.asked k

section

variable {α : Type} {step : Nat → Reading α} {s : Session} {n m : Nat}

theorem Settles.mono (h : Settles step s n) (hnm : n ≤ m) : Settles step s m where
  rounds := h.rounds
  asks fuel := by
    obtain ⟨k, hk, hasks⟩ := h.asks fuel
    exact ⟨k, hk.trans hnm, hasks⟩

theorem settles_of_paced (h : Paced step) (s : Session) : Settles step s (s.toCome + 1) where
  rounds _ hfuel := h.ne_outOfFuel hfuel
  asks fuel := by
    obtain ⟨k, hk, hle, -⟩ := (h.orderly fuel).frugal s
    exact ⟨k, hle, hk, hk.scanner_eq⟩

end

end Reading

namespace Session

open Reading

/-- Whatever the session is asked for ends by itself, with rounds to spare, and asks the scanner for
`asks` tokens at most. -/
structure Settles (s : Session) (asks : Nat) : Prop where
  fuel : 16 * (s.left + 1) ≤ s.fuel
  query : Reading.Settles (fun fuel => (Reading.query fuel).whole) s asks
  scalar : Reading.Settles (fun fuel => (Reading.expression fuel).whole) s asks
  expression : Reading.Settles Reading.expression s asks

variable {text : String} {limit : Nat} {s : Session} {n m : Nat}

theorem Settles.mono (h : s.Settles n) (hnm : n ≤ m) : s.Settles m :=
  ⟨h.fuel, h.query.mono hnm, h.scalar.mono hnm, h.expression.mono hnm⟩

/-- A session asks once more than there are tokens to come at most, whatever was asked of it before and
however deeply its text may nest. -/
theorem settles (s : Session) : s.Settles (s.toCome + 1) where
  fuel := by
    have hcount := s.token.count_le_one
    unfold left fuel
    omega
  query := settles_of_paced paced_query.whole s
  scalar := settles_of_paced paced_expression.whole s
  expression := settles_of_paced paced_expression s

/-- Of the tokens of a text, `start` has asked for the first. -/
theorem toCome_start_le (hs : start text limit = .ok s) :
    s.toCome ≤ (Scanner.ofText text).tokens.length := by
  obtain ⟨hnext, -⟩ := start_ok hs
  by_cases hend : s.token = .endOfText
  · rw [toCome_of_end hend]
    exact Nat.zero_le _
  · rw [toCome_of_ne hend, Scanner.tokens_of_ok hnext hend]
    exact Nat.le_refl _

theorem left_start_le (hs : start text limit = .ok s) : s.left ≤ text.length := by
  obtain ⟨hnext, -⟩ := start_ok hs
  have hleft := left_passed_le (s := ⟨.ofText text, .endOfText, .start, limit, 0, []⟩) hnext
  exact hleft.trans_eq String.length_toList

/-- The reading of a text ends by itself, however deeply the text may nest. Rounds in proportion to its
length are enough. With the call of `start` there is one call for each token, one for the end of the
text and one more at most. What the session is asked for later on ends likewise. -/
theorem settles_of_start (hs : start text limit = .ok s) :
    s.Settles ((Scanner.ofText text).tokens.length + 1) ∧ s.fuel ≤ 20 * (text.length + 2) ∧
      ∀ requests, (s.after requests).left ≤ text.length ∧
        (s.after requests).Settles ((s.after requests).toCome + 1) := by
  have hleft := left_start_le hs
  refine ⟨s.settles.mono (Nat.succ_le_succ (toCome_start_le hs)), ?_, fun requests => ⟨?_, ?_⟩⟩
  · unfold left at hleft
    unfold fuel
    omega
  · exact (kept_left _).after hleft requests
  · exact settles _

/-- An operator with nothing behind it, and no useful bound on nesting. -/
theorem settles_of_start_plus : ∃ s, start "1 +" (2 ^ 64 - 1) = .ok s ∧ s.Settles 3 ∧
    (Scanner.ofText "1 +").tokens = [.integer 1, .mark .plus] := by
  have htokens : (Scanner.ofText "1 +").tokens = [.integer 1, .mark .plus] := by
    let s := Scanner.ofText "1 +"
    have hone : s.next = (.ok (.integer 1), s.next.2) := by decide +kernel
    have hplus : s.next.2.next = (.ok (.mark .plus), s.next.2.next.2) := by decide +kernel
    have hend : s.next.2.next.2.next = (.ok .endOfText, s.next.2.next.2.next.2) := by decide +kernel
    exact Scanner.Yields.tokens_eq (.step hone nofun (.step hplus nofun (.done hend)))
  obtain ⟨s, hs⟩ := exists_of_isOk (r := start "1 +" (2 ^ 64 - 1)) (by decide +kernel)
  have hsettles := (settles_of_start hs).1
  rw [htokens] at hsettles
  exact ⟨s, hs, hsettles, htokens⟩

end Session

end DocQuery
