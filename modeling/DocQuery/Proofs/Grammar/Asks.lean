import DocQuery.Proofs.Grammar.Requests
import DocQuery.Proofs.Token.Places

/-!
# How often a reading asks for a token

A reading asks its scanner for a token where it passes over one. How often it does so is told by rules
that follow how the reading is put together, and it is bounded by the tokens that are still to come.

* `Scanner.tokens`: the tokens from a scanner on, up to the end of the text or the first error.
* `Asks p s k`: run from `s`, the reading `p` asks for a token `k` times. `Asks.scanner_eq`: that is
  how often the scanner it leaves has been asked.
* `Session.toCome`: how many times a session is asked if it is read to the end of the text.
* `Frugal p`: from whatever session, `p` asks once more than that at most, and what it asks for is gone
  where it goes on. Passing over a token is frugal where the text has not ended, so readings in good
  order are frugal (`Orderly.frugal`).
-/

namespace DocQuery

/-! ## Tokens to come -/

/-- The tokens from here on, up to the end of the text or to where there is no next one. -/
def Scanner.tokens (s : Scanner) : List Token :=
  match _h : s.next with
  | (.ok t, s') => if _hend : t = .endOfText then [] else t :: s'.tokens
  | (.error _, _) => []
termination_by s.cursor.rest.length
decreasing_by exact length_next_lt _h _hend

section

variable {s s' : Scanner} {t : Token} {ts : List Token}

theorem Scanner.tokens_of_end (h : s.next = (.ok .endOfText, s')) : s.tokens = [] := by
  rw [tokens]
  split
  · rename_i u m hnext
    obtain ⟨hu, -⟩ := Prod.mk.inj (hnext.symm.trans h)
    exact dif_pos (Except.ok.inj hu)
  · rfl

theorem Scanner.tokens_of_ok (h : s.next = (.ok t, s')) (hend : t ≠ .endOfText) :
    s.tokens = t :: s'.tokens := by
  rw [tokens]
  split
  · rename_i u m hnext
    obtain ⟨hu, hm⟩ := Prod.mk.inj (hnext.symm.trans h)
    obtain rfl := Except.ok.inj hu
    rw [dif_neg hend, hm]
  · rename_i e m hnext
    cases hnext.symm.trans h

/-- If the text is read without an error, these are all its tokens. -/
theorem Scanner.Yields.tokens_eq (h : s.Yields ts) : s.tokens = ts := by
  induction h with
  | done h => exact tokens_of_end h
  | step h hend _ ih => rw [tokens_of_ok h hend, ih]

end

/-- How many times a session is asked for a token if it is read to the end of the text: for each of
the tokens behind the next one, and for the end. -/
def Session.toCome (s : Session) : Nat :=
  if s.token = .endOfText then 0 else s.scanner.tokens.length + 1

section

variable {s : Session} {t : Token} {scanner : Scanner}

theorem Session.toCome_of_end (h : s.token = .endOfText) : s.toCome = 0 := if_pos h

theorem Session.toCome_of_ne (h : s.token ≠ .endOfText) :
    s.toCome = s.scanner.tokens.length + 1 := if_neg h

/-- Behind a token there is one less to come. -/
theorem Session.toCome_passed (hnext : s.scanner.next = (.ok t, scanner))
    (h : s.token ≠ .endOfText) : 1 + (s.passed t scanner).toCome = s.toCome := by
  rw [toCome_of_ne h]
  by_cases hend : t = .endOfText
  · rw [hend] at hnext ⊢
    rw [toCome_of_end rfl, Scanner.tokens_of_end hnext]
    rfl
  · have hpassed : (s.passed t scanner).toCome = scanner.tokens.length + 1 := toCome_of_ne hend
    rw [hpassed, Scanner.tokens_of_ok hnext hend, List.length_cons, Nat.add_comm]

end

namespace Reading

/-! ## Counting -/

/-- Run from `s`, the reading `p` asks for a token `k` times. Only `advance` does so; a reading in two
steps does so in its first one and, if that gives a value, in its second. -/
inductive Asks : {α : Type} → Reading α → Session → Nat → Prop
  | pure {α : Type} (a : α) (s : Session) : Asks (Pure.pure a) s 0
  | fail {α : Type} (e : ParseError) (s : Session) : Asks (fail e : Reading α) s 0
  | get (s : Session) : Asks MonadState.get s 0
  /-- Another part of the session changes. -/
  | change {g : Session → Session} (hg : ∀ s, (g s).scanner = s.scanner) (s : Session) :
      Asks (modify g) s 0
  | advance (s : Session) : Asks advance s 1
  | bind {α β : Type} {p : Reading α} {f : α → Reading β} {s m : Session} {a : α} {k j : Nat}
      (hp : Asks p s k) (hrun : p.run s = (.ok a, m)) (hf : Asks (f a) m j) :
      Asks (p >>= f) s (k + j)
  | stop {α β : Type} {p : Reading α} {f : α → Reading β} {s m : Session} {e : ParseError} {k : Nat}
      (hp : Asks p s k) (hrun : p.run s = (.error e, m)) : Asks (p >>= f) s k

section

variable {α β : Type} {p q : Reading α} {f : α → Reading β} {s : Session} {t : Token}

/-- A count tells how often the scanner that a reading leaves has been asked. -/
theorem Asks.scanner_eq {k : Nat} (h : Asks p s k) : (p.run s).2.scanner = s.scanner.asked k := by
  induction h with
  | pure | fail | get => rfl
  | change hg s => exact hg s
  | advance s =>
    rw [run_advance]
    rcases hnext : s.scanner.next with ⟨e | t, scanner⟩
    · exact (congrArg Prod.snd hnext).symm
    · exact (congrArg Prod.snd hnext).symm
  | bind _ hrun _ ihp ihf =>
    rw [hrun] at ihp
    rw [run_bind_ok hrun, ihf, ihp, Scanner.asked_asked]
  | stop _ hrun ihp =>
    rw [hrun] at ihp
    rw [run_bind_error hrun, ihp]

theorem Asks.token (s : Session) : Asks token s 0 := by
  have h : Asks (do return (← MonadState.get).token : Reading Token) s (0 + 0) :=
    .bind (f := fun s => Pure.pure s.token) (.get s) rfl (.pure s.token s)
  exact h

theorem Asks.bump (s : Session) : Asks bump s 1 := by
  have hadvance (m : Session) :
      Asks (do Reading.advance; return s.token : Reading Token) m 1 := by
    rcases hrun : Reading.advance.run m with ⟨e | _, m'⟩
    · exact .stop (.advance m) hrun
    · exact .bind (f := fun _ => Pure.pure s.token) (.advance m) hrun (.pure s.token m')
  have htaken : Asks (do
      modify ({ · with token := .endOfText })
      Reading.advance
      return s.token : Reading Token) s (0 + 1) :=
    .bind (.change (g := ({ · with token := .endOfText })) (fun _ => rfl) s) rfl (hadvance _)
  unfold Reading.bump
  exact .bind (k := 0) (j := 1) (.token s) (run_token s) htaken

/-! ## Frugal readings -/

/-- Run from `s`, the reading asks for a token once more at most than is to come, and what it has asked
for is no more to come where it gives a value. -/
def FrugalAt (p : Reading α) (s : Session) : Prop :=
  ∃ k, Asks p s k ∧ k ≤ s.toCome + 1 ∧ ∀ ⦃a s'⦄, p.run s = (.ok a, s') → k + s'.toCome ≤ s.toCome

/-- The reading is frugal from wherever it is run. -/
def Frugal (p : Reading α) : Prop := ∀ s, FrugalAt p s

/-- A small step that does not ask leaves as much to come as there was. -/
theorem frugalAt_of_asks_zero (h : Asks p s 0) (hrun : (p.run s).2.toCome = s.toCome) :
    FrugalAt p s := by
  refine ⟨0, h, Nat.zero_le _, fun a s' hs' => ?_⟩
  rw [hs'] at hrun
  exact (Nat.zero_add _).trans_le hrun.le

/-- One reading after another: the second one counts where the first one ends. -/
theorem FrugalAt.seq (hp : FrugalAt p s)
    (hf : ∀ ⦃a m⦄, p.run s = (.ok a, m) → FrugalAt (f a) m) : FrugalAt (p >>= f) s := by
  obtain ⟨k, hk, hle, hok⟩ := hp
  rcases hrun : p.run s with ⟨e | a, m⟩
  · refine ⟨k, hk.stop hrun, hle, fun b s' h => ?_⟩
    rw [run_bind_error hrun] at h
    cases h
  · obtain ⟨j, hj, hjle, hjok⟩ := hf hrun
    have hm := hok hrun
    refine ⟨k + j, hk.bind hrun hj, by omega, fun b s' h => ?_⟩
    rw [run_bind_ok hrun] at h
    have hs' := hjok h
    omega

theorem FrugalAt.bind (hp : FrugalAt p s) (hf : ∀ a, Frugal (f a)) : FrugalAt (p >>= f) s :=
  hp.seq fun a m _ => hf a m

theorem Frugal.bind (hp : Frugal p) (hf : ∀ a, Frugal (f a)) : Frugal (p >>= f) :=
  fun s => (hp s).bind hf

theorem Frugal.pure (a : α) : Frugal (Pure.pure a : Reading α) :=
  fun s => frugalAt_of_asks_zero (.pure a s) rfl

theorem Frugal.fail (e : ParseError) : Frugal (fail e : Reading α) :=
  fun s => frugalAt_of_asks_zero (.fail e s) rfl

theorem Frugal.get : Frugal (MonadState.get : Reading Session) :=
  fun s => frugalAt_of_asks_zero (.get s) rfl

/-- A change that keeps the scanner and the next token. -/
theorem Frugal.change {g : Session → Session} (hscanner : ∀ s, (g s).scanner = s.scanner)
    (htoken : ∀ s, (g s).token = s.token) : Frugal (modify g : Reading Unit) := by
  refine fun s => frugalAt_of_asks_zero (.change hscanner s) ?_
  show (g s).toCome = s.toCome
  rw [Session.toCome, Session.toCome, hscanner, htoken]

/-- Passing over a token is frugal where the text has not ended. -/
theorem FrugalAt.advance (hs : s.token = t) (ht : t ≠ .endOfText) : FrugalAt advance s := by
  subst hs
  refine ⟨1, .advance s, Nat.le_add_left 1 _, fun a s' h => ?_⟩
  rw [run_advance] at h
  rcases hnext : s.scanner.next with ⟨e | t, scanner⟩ <;> rw [hnext] at h <;> cases h
  exact (Session.toCome_passed hnext ht).le

end

/-! ## Readings in good order -/

section

variable {α β : Type} {p : Reading α} {f : Token → Reading α} {s : Session} {bound next : Nat}

theorem Frugal.token : Frugal token := .bind .get fun s => .pure s.token

theorem Frugal.position : Frugal position := .bind .get fun s => .pure s.position

theorem Frugal.outOfFuel : Frugal (outOfFuel : Reading α) := by
  have h : Frugal (do Reading.fail (.outOfFuel (← Reading.position)) : Reading α) :=
    .bind .position fun _ => .fail _
  exact h

/-- A reading that goes on by what the next token is. -/
theorem FrugalAt.look (hf : FrugalAt (f s.token) s) : FrugalAt (Reading.token >>= f) s := by
  refine (Frugal.token s).seq fun t m h => ?_
  cases h
  exact hf

/-- The token is taken before it is looked at, so the end of the text may be asked for once more; what
comes then must fail. -/
theorem Frugal.bump (hf : ∀ t, t ≠ .endOfText → Frugal (f t)) {e : ParseError}
    (hend : f .endOfText = Reading.fail e) : Frugal (Reading.bump >>= f) := by
  intro s
  rcases hnext : s.scanner.next with ⟨e' | t, scanner⟩
  · have hrun : Reading.bump.run s =
        (.error (.scan e'), { s with scanner, token := .endOfText }) := by rw [run_bump, hnext]
    refine ⟨1, .stop (.bump s) hrun, Nat.le_add_left 1 _, fun a s' h => ?_⟩
    rw [run_bind_error hrun] at h
    cases h
  · have hrun : Reading.bump.run s = (.ok s.token, s.passed t scanner) := by rw [run_bump, hnext]
    by_cases hs : s.token = .endOfText
    -- The scanner tells the end once more, so no value may come of it: none is left to ask for.
    · rw [hs] at hrun
      refine ⟨1 + 0, .bind (.bump s) hrun (hend ▸ .fail e _), Nat.le_add_left 1 _, fun a s' h => ?_⟩
      rw [run_bind_ok hrun, hend] at h
      cases h
    · have hbump : FrugalAt Reading.bump s := by
        refine ⟨1, .bump s, Nat.le_add_left 1 _, fun u s' h => ?_⟩
        cases hrun.symm.trans h
        exact (Session.toCome_passed hnext hs).le
      refine hbump.seq fun u m h => ?_
      cases hrun.symm.trans h
      exact hf s.token hs _

theorem Frugal.descend : Frugal descend := by
  have h : Frugal (do
      modify fun s => { s with depth := s.depth + 1 }
      let s ← MonadState.get
      if s.limit < s.depth then Reading.fail (.tooDeep s.position s.limit) : Reading Unit) := by
    refine .bind (.change (fun _ => rfl) fun _ => rfl) fun _ => .bind .get fun s => ?_
    split
    · exact .fail _
    · exact .pure _
  exact h

theorem Frugal.release (levels : Nat) : Frugal (release levels) :=
  .change (fun _ => rfl) fun _ => rfl

/-- A reading one level deeper. -/
theorem Frugal.nested {g : α → β} (hp : Frugal p) :
    Frugal (do Reading.descend; let a ← p; ascend; return g a) :=
  .bind .descend fun _ => .bind hp fun a => .bind (.release 1) fun _ => .pure (g a)

theorem Frugal.chain {operator : Reading (Option β)} {link : α → β → Reading α}
    (hoperator : Frugal operator) (hlink : ∀ a o, Frugal (link a o)) (fuel levels : Nat)
    (first : α) : Frugal (chain operator link fuel levels first) := by
  induction fuel generalizing levels first with
  | zero => exact .outOfFuel
  | succ fuel ih =>
    refine .bind hoperator fun o? => ?_
    cases o? with
    | none => exact .bind (.release levels) fun _ => .pure first
    | some o => exact .bind .descend fun _ => .bind (hlink first o) fun next => ih (levels + 1) next

/-- A reading in good order asks for a token only where the next one is not the end of the text. -/
theorem Orderly.frugalAt (hp : Orderly bound next p) (hs : next ≤ s.token.count) : FrugalAt p s := by
  induction hp generalizing s with
  | pure a => exact Frugal.pure a s
  | fail => exact Frugal.fail _ s
  | position => exact Frugal.position s
  | note name =>
    exact Frugal.change (g := fun s => { s with calls := name :: s.calls }) (fun _ => rfl)
      (fun _ => rfl) s
  | look _ ih => exact .look (ih s.token (Nat.le_refl _))
  | pass _ ih =>
    have ht : s.token ≠ .endOfText := fun hend => by
      rw [hend] at hs
      exact Nat.not_succ_le_zero _ hs
    exact (FrugalAt.advance rfl ht).bind fun _ m => ih (Nat.zero_le m.token.count)
  | bump hend _ _ ih => exact Frugal.bump (fun t ht m => ih t ht (Nat.zero_le m.token.count)) hend s
  | nested _ ih => exact Frugal.nested (fun m => ih (Nat.zero_le m.token.count)) s
  | chain _ _ _ _ _ _ first ihoperator ihlink =>
    exact Frugal.chain (fun m => ihoperator (Nat.zero_le m.token.count))
      (fun a o m => ihlink a o (Nat.zero_le m.token.count)) _ 0 first s
  | spent => exact Frugal.outOfFuel s
  | behind _ _ _ _ ihp ihf => exact (ihp hs).bind fun a m => ihf a (Nat.zero_le m.token.count)

theorem Orderly.frugal (hp : Orderly bound 0 p) : Frugal p := fun _ => hp.frugalAt (Nat.zero_le _)

end

end Reading

end DocQuery
