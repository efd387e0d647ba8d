import DocQuery.Proofs.Grammar.FirstError

/-!
# What readings are made of

`Composed p`: the reading `p` is made of a few small steps. It looks at the next token or passes over
it, enters and leaves levels, notes a call or fails, and goes on by what it has found. So what holds of
the small steps, and of one after another, holds of all readings: the proof is an induction on
`Composed`, and the grammar does not appear in it.

* `Session.left`: how many tokens are left at most. `Takes p k`: a reading that gives `a` has passed
  over `k a` of them.
* `Session.Kept I`, `Composed.keeps`: the small steps keep the invariant `I`, so all readings do.
-/

namespace DocQuery

/-! ## How many tokens are left -/

/-- The end of the text is no token to be passed over. -/
def Token.count : Token → Nat
  | .endOfText => 0
  | _ => 1

theorem Token.count_of_ne {t : Token} (h : t ≠ .endOfText) : t.count = 1 := by
  cases t with
  | endOfText => exact absurd rfl h
  | _ => rfl

theorem Token.count_le_one (t : Token) : t.count ≤ 1 := by
  cases t with
  | endOfText => exact Nat.zero_le 1
  | _ => exact Nat.le_refl 1

theorem Scanner.length_next_le {s s' : Scanner} {r : Except ScanError Token}
    (h : s.next = (r, s')) : s'.cursor.rest.length ≤ s.cursor.rest.length := by
  obtain ⟨-, rfl⟩ := Prod.mk.inj h
  obtain ⟨cs, hcs, -⟩ := (s.cursor.ahead_dropWhile Text.isBlank).trans (Token.ahead_read _)
  have hlength := congrArg List.length hcs
  rw [List.length_append] at hlength
  show (Token.read (s.cursor.dropWhile Text.isBlank)).2.rest.length ≤ s.cursor.rest.length
  omega

namespace Session

/-- How many tokens are left at most: the next one, and no more than there are characters. -/
def left (s : Session) : Nat := s.scanner.cursor.rest.length + s.token.count

variable {s : Session} {t : Token} {scanner : Scanner}

theorem left_passed_le (h : s.scanner.next = (.ok t, scanner)) :
    (s.passed t scanner).left + s.token.count ≤ s.left := by
  have hle : scanner.cursor.rest.length + t.count ≤ s.scanner.cursor.rest.length := by
    by_cases hend : t = .endOfText
    · rw [hend]
      exact Scanner.length_next_le h
    · have hlt := Scanner.length_next_lt h hend
      rw [Token.count_of_ne hend]
      omega
  exact Nat.add_le_add_right hle _

/-! ## Invariants of sessions -/

/-- Whatever a small step makes of a session, `I` goes on to hold of it. -/
structure Kept (I : Session → Prop) : Prop where
  passed : ∀ {s t scanner}, s.scanner.next = (.ok t, scanner) → I s → I (s.passed t scanner)
  /-- There is no next token. -/
  stopped : ∀ {s e scanner}, s.scanner.next = (.error e, scanner) → I s → I { s with scanner }
  /-- The next token has been taken, and no other has come. -/
  taken : ∀ {s}, I s → I { s with token := .endOfText }
  depth : ∀ {s} depth, I s → I { s with depth }
  calls : ∀ {s} calls, I s → I { s with calls }

/-- No reading changes how many levels may nest. -/
theorem kept_limit (limit : Nat) : Kept (·.limit = limit) where
  passed _ h := h
  stopped _ h := h
  taken h := h
  depth _ h := h
  calls _ h := h

/-- After any reading the next token is one that text can have. -/
theorem kept_scanned : Kept Scanned where
  passed hnext _ := scanned_passed hnext
  stopped _ h := h
  taken _ := .inl rfl
  depth _ h := h
  calls _ h := h

/-- No reading goes back in the text. -/
theorem kept_left (n : Nat) : Kept (·.left ≤ n) where
  passed hnext h := by
    have hle := left_passed_le hnext
    omega
  stopped hnext h := (Nat.add_le_add_right (Scanner.length_next_le hnext) _).trans h
  taken h := (Nat.le_add_right _ _).trans h
  depth _ h := h
  calls _ h := h

end Session

namespace Reading

section

variable {α β : Type} {p : Reading α} {f : α → Reading β}

/-- The reading is made of small steps. -/
inductive Composed : {α : Type} → Reading α → Prop
  | pure {α : Type} (a : α) : Composed (Pure.pure a : Reading α)
  | fail {α : Type} (e : ParseError) : Composed (fail e : Reading α)
  | token : Composed token
  | position : Composed position
  | advance : Composed advance
  | bump : Composed bump
  | descend : Composed descend
  | release (levels : Nat) : Composed (release levels)
  | note (name : CallName) : Composed (modify fun s => { s with calls := name :: s.calls })
  | bind {α β : Type} {p : Reading α} {f : α → Reading β} (hp : Composed p)
      (hf : ∀ a, Composed (f a)) : Composed (p >>= f)

/-- What the small steps keep, all readings keep, also those that fail. -/
theorem Composed.keeps (hp : Composed p) {I : Session → Prop} (hI : Session.Kept I)
    {s : Session} (hs : I s) : I (p.run s).2 := by
  induction hp generalizing s with
  | pure | fail | token | position => exact hs
  | release levels => exact hI.depth (s.depth - levels) hs
  | note name => exact hI.calls (name :: s.calls) hs
  | @bind α β p f hp hf ihp ihf =>
    have hm := ihp hs
    rw [run_bind]
    rcases hrun : p.run s with ⟨e | a, m⟩ <;> rw [hrun] at hm
    · exact hm
    · exact ihf a hm
  | advance =>
    rw [run_advance]
    rcases hnext : s.scanner.next with ⟨e | t, scanner⟩
    · exact hI.stopped hnext hs
    · exact hI.passed hnext hs
  | bump =>
    rw [run_bump]
    rcases hnext : s.scanner.next with ⟨e | t, scanner⟩
    · exact hI.stopped (s := { s with token := .endOfText }) hnext (hI.taken hs)
    · exact hI.passed hnext hs
  | descend =>
    rw [run_descend]
    split
    · exact hI.depth (s.depth + 1) hs
    · exact hI.depth (s.depth + 1) hs

/-! ## Loops and nesting -/

theorem Composed.outOfFuel : Composed (outOfFuel : Reading α) := by
  have h : Composed (do Reading.fail (.outOfFuel (← Reading.position)) : Reading α) :=
    .bind .position fun _ => .fail _
  exact h

/-- A reading one level deeper. -/
theorem Composed.nested {g : α → β} (hp : Composed p) :
    Composed (do Reading.descend; let a ← p; ascend; return g a) :=
  .bind .descend fun _ => .bind hp fun a => .bind (.release 1) fun _ => .pure (g a)

theorem Composed.chain {operator : Reading (Option β)} {link : α → β → Reading α}
    (hoperator : Composed operator) (hlink : ∀ a o, Composed (link a o)) (fuel levels : Nat)
    (first : α) : Composed (chain operator link fuel levels first) := by
  induction fuel generalizing levels first with
  | zero => exact .outOfFuel
  | succ fuel ih =>
    refine .bind hoperator fun o? => ?_
    cases o? with
    | none => exact .bind (.release levels) fun _ => .pure first
    | some o => exact .bind .descend fun _ => .bind (hlink first o) fun next => ih (levels + 1) next

/-! ## Passing over tokens -/

/-- A reading that gives `a` has passed over `k a` tokens at least. -/
def Takes (p : Reading α) (k : α → Nat) : Prop :=
  ∀ ⦃s a s'⦄, p.run s = (.ok a, s') → s'.left + k a ≤ s.left

theorem Takes.pure {a : α} {k : α → Nat} (h : k a = 0) : Takes (Pure.pure a) k := by
  rintro s _ _ ⟨⟩
  rw [h]
  exact Nat.le_refl _

/-- What comes after takes what is still to be taken. -/
theorem Takes.bind {k : α → Nat} {i : β → Nat} (hp : Takes p k)
    (hf : ∀ a, Takes (f a) fun b => i b - k a) : Takes (p >>= f) i := by
  intro s b s' h
  obtain ⟨a, m, hrun, hrest⟩ := exists_of_run_bind h
  have hm := hp hrun
  have hs' : s'.left + (i b - k a) ≤ m.left := hf a hrest
  omega

/-- No reading goes back. -/
theorem Composed.takes (hp : Composed p) : Takes p fun _ => 0 := by
  intro s a s' h
  have hleft := hp.keeps (Session.kept_left s.left) (Nat.le_refl _)
  rwa [h] at hleft

/-- Passing over a token takes it, unless the text has ended. -/
theorem left_of_advance {s s' : Session} (h : advance.run s = (.ok (), s')) :
    s'.left + s.token.count ≤ s.left := by
  rw [run_advance] at h
  rcases hnext : s.scanner.next with ⟨e | u, scanner⟩ <;> rw [hnext] at h <;> cases h
  exact Session.left_passed_le hnext

theorem takes_bump : Takes bump Token.count := by
  intro s t s' h
  rw [run_bump] at h
  rcases hnext : s.scanner.next with ⟨e | u, scanner⟩ <;> rw [hnext] at h <;> cases h
  exact Session.left_passed_le hnext

theorem takes_consume {t : Token} (ht : t ≠ .endOfText) : Takes (consume t) Bool.toNat := by
  intro s found s' h
  rw [run_consume] at h
  by_cases hnext : s.token = t
  · rw [if_pos hnext] at h
    obtain ⟨_, m, hrun, hrest⟩ := exists_of_run_bind h
    have hleft := left_of_advance hrun
    rw [hnext, Token.count_of_ne ht] at hleft
    cases hrest
    exact hleft
  · rw [if_neg hnext] at h
    cases h
    exact Nat.le_refl _

theorem takes_expect {t : Token} (ht : t ≠ .endOfText) : Takes (expect t) fun _ => 1 := by
  intro s _ s' h
  rw [run_expect] at h
  by_cases hnext : s.token = t
  · rw [if_pos hnext] at h
    have hleft := left_of_advance h
    rwa [hnext, Token.count_of_ne ht] at hleft
  · rw [if_neg hnext] at h
    cases h

end

end Reading

end DocQuery
