import DocQuery.Proofs.Grammar.OrderlyQuery

/-!
# Levels of nesting that are left have been entered

The depth of a session is one number that all readings share: whoever enters a level has to leave it
again, and nobody may leave more levels than are open. `release` cuts off at zero, so what is left too
often could not be told from the depth afterwards.

* `Covered p s`: run from `s`, the reading `p` leaves no more levels at any time than are open then.
* `Balanced own p left`: of the levels that are open where it begins, `p` leaves `own` at most, and
  where it gives a value, `left` levels stand in their place. Where it fails, the others are open still.
* `Balanced.bind`, `Balanced.nested`, `Balanced.chain` and so on: readings that are made of balanced ones
  are so. Readings in good order leave just the levels that they enter (`Orderly.balanced`).
-/

namespace DocQuery

namespace Reading

/-! ## Levels that are open -/

/-- Run from `s`, the reading leaves no more levels at any time than are open then. Only `release` leaves
levels; a reading in two steps does so in its first one and, if that gives a value, in its second. No
small step tells how many levels are open, so what is left does not hang on it. -/
inductive Covered : {α : Type} → Reading α → Session → Prop
  | pure {α : Type} (a : α) (s : Session) : Covered (Pure.pure a : Reading α) s
  | fail {α : Type} (e : ParseError) (s : Session) : Covered (fail e : Reading α) s
  | token (s : Session) : Covered token s
  | position (s : Session) : Covered position s
  | advance (s : Session) : Covered advance s
  | bump (s : Session) : Covered bump s
  | note (name : CallName) (s : Session) :
      Covered (modify fun s => { s with calls := name :: s.calls }) s
  | descend (s : Session) : Covered descend s
  | release {levels : Nat} {s : Session} (h : levels ≤ s.depth) : Covered (release levels) s
  | bind {α β : Type} {p : Reading α} {f : α → Reading β} {s : Session} (hp : Covered p s)
      (hf : ∀ ⦃a m⦄, p.run s = (.ok a, m) → Covered (f a) m) : Covered (p >>= f) s

/-- Of the levels that are open where it begins, the reading leaves `own` at most, at any time. Where it
gives a value, `left` levels are open in the place of these. -/
structure Balanced {α : Type} (own : Nat) (p : Reading α) (left : Nat) : Prop where
  covered : ∀ ⦃s : Session⦄, own ≤ s.depth → Covered p s
  ok : ∀ ⦃s a m⦄, own ≤ s.depth → p.run s = (.ok a, m) → m.depth + own = s.depth + left
  error : ∀ ⦃s e m⦄, own ≤ s.depth → p.run s = (.error e, m) → s.depth ≤ m.depth + own

section

variable {α β : Type} {p q : Reading α} {f : α → Reading β} {own mid left : Nat}

/-- More levels may be open that the reading does not touch. -/
theorem Balanced.more (h : Balanced own p left) (k : Nat) : Balanced (own + k) p (left + k) where
  covered _ hs := h.covered (by omega)
  ok _ _ _ hs hrun := by
    have := h.ok (by omega) hrun
    omega
  error _ _ _ hs hrun := by
    have := h.error (by omega) hrun
    omega

/-- A reading that has no level of its own, where some are open. -/
theorem Balanced.within (h : Balanced 0 p 0) (k : Nat) : Balanced k p k := by
  have hmore := h.more k
  rwa [Nat.zero_add] at hmore

/-- A small step that keeps the depth. -/
theorem Balanced.still (hcovered : ∀ s, Covered p s) (hdepth : ∀ s, (p.run s).2.depth = s.depth)
    (own : Nat) : Balanced own p own where
  covered s _ := hcovered s
  ok s _ m _ hrun := by
    have hm : m.depth = s.depth := (congrArg (·.2.depth) hrun).symm.trans (hdepth s)
    omega
  error s _ m _ hrun := by
    have hm : m.depth = s.depth := (congrArg (·.2.depth) hrun).symm.trans (hdepth s)
    omega

/-- One reading after another: what the first one leaves open is the second one's own. -/
theorem Balanced.bind (hp : Balanced own p mid) (hf : ∀ a, Balanced mid (f a) left) :
    Balanced own (p >>= f) left where
  covered s hs := .bind (hp.covered hs) fun a m hrun => (hf a).covered (by
    have := hp.ok hs hrun
    omega)
  ok s b s' hs h := by
    obtain ⟨a, m, hrun, hrest⟩ := exists_of_run_bind h
    have hm := hp.ok hs hrun
    have hs' := (hf a).ok (by omega) hrest
    omega
  error s e s' hs h := by
    rw [run_bind] at h
    rcases hrun : p.run s with ⟨e' | a, m⟩ <;> rw [hrun] at h
    · obtain ⟨-, rfl⟩ := Prod.mk.inj h
      exact hp.error hs hrun
    · have hm := hp.ok hs hrun
      have hs' := (hf a).error (by omega) h
      omega

/-! ## Small steps -/

theorem Balanced.pure (a : α) : Balanced own (Pure.pure a : Reading α) own :=
  .still (.pure a) (fun _ => rfl) own

/-- Behind a failure nothing is left to be done. -/
theorem Balanced.fail (e : ParseError) : Balanced own (fail e : Reading α) left where
  covered s _ := .fail e s
  ok _ _ _ _ hrun := nomatch hrun
  error s _ _ _ hrun := by
    obtain ⟨-, rfl⟩ := Prod.mk.inj hrun
    exact Nat.le_add_right _ _

theorem Balanced.token : Balanced own token own := .still .token (fun _ => rfl) own

theorem Balanced.position : Balanced own position own := .still .position (fun _ => rfl) own

theorem Balanced.note (name : CallName) :
    Balanced own (modify fun s => { s with calls := name :: s.calls }) own :=
  .still (.note name) (fun _ => rfl) own

theorem Balanced.advance : Balanced own advance own := by
  refine .still .advance (fun s => ?_) own
  rw [run_advance]
  rcases s.scanner.next with ⟨e | t, scanner⟩ <;> rfl

theorem Balanced.bump : Balanced own bump own := by
  refine .still .bump (fun s => ?_) own
  rw [run_bump]
  rcases s.scanner.next with ⟨e | t, scanner⟩ <;> rfl

/-- A level is entered, whether or not it is too deep. -/
theorem depth_descend (s : Session) : (descend.run s).2.depth = s.depth + 1 := by
  rw [run_descend]
  split <;> rfl

theorem Balanced.descend : Balanced own descend (own + 1) where
  covered s _ := .descend s
  ok s _ m _ hrun := by
    have hm : m.depth = s.depth + 1 := (congrArg (·.2.depth) hrun).symm.trans (depth_descend s)
    omega
  error s _ m _ hrun := by
    have hm : m.depth = s.depth + 1 := (congrArg (·.2.depth) hrun).symm.trans (depth_descend s)
    omega

theorem Balanced.release (levels : Nat) : Balanced (own + levels) (release levels) own where
  covered _ hs := .release (by omega)
  ok s _ _ hs hrun := by
    obtain ⟨-, rfl⟩ := Prod.mk.inj hrun
    show s.depth - levels + (own + levels) = s.depth + own
    omega
  error _ _ _ _ hrun := nomatch hrun

/-! ## Parts of readings -/

theorem Balanced.map {g : α → β} (hp : Balanced own p left) : Balanced own (g <$> p) left := by
  rw [map_eq_pure_bind]
  exact hp.bind fun a => .pure (g a)

/-- A reading that goes one of two ways. -/
theorem Balanced.ite {c : Prop} [Decidable c] (hp : Balanced own p left)
    (hq : Balanced own q left) : Balanced own (if c then p else q) left := by
  by_cases hc : c
  · rwa [if_pos hc]
  · rwa [if_neg hc]

theorem Balanced.isAt (t : Token) : Balanced own (isAt t) own := by
  have h : Balanced own (do return (← Reading.token) == t) own := .bind .token fun _ => .pure _
  exact h

theorem Balanced.unexpected (expected : Expected) :
    Balanced own (unexpected expected : Reading α) left := by
  have h : Balanced own (do
      let place ← Reading.position
      let found ← Reading.token
      Reading.fail (.unexpected place expected found) : Reading α) left :=
    .bind .position fun _ => .bind .token fun _ => .fail _
  exact h

theorem Balanced.outOfFuel : Balanced own (outOfFuel : Reading α) left := by
  have h : Balanced own (do
      let place ← Reading.position
      Reading.fail (.outOfFuel place) : Reading α) left :=
    .bind .position fun _ => .fail _
  exact h

theorem Balanced.consume (t : Token) : Balanced own (consume t) own :=
  .bind (.isAt t) fun _ => .ite (.bind .advance fun _ => .pure true) (.pure false)

theorem Balanced.expect (t : Token) : Balanced own (expect t) own :=
  .bind (.isAt t) fun _ => .ite .advance (.unexpected _)

/-- A reading one level deeper leaves the level that it enters. -/
theorem Balanced.nested {g : α → β} (hp : Balanced 0 p 0) :
    Balanced 0 (do Reading.descend; let a ← p; ascend; return g a) 0 := by
  have hascend : Balanced (0 + 1) ascend 0 := .release 1
  exact .bind .descend fun _ => .bind (hp.within 1) fun a => .bind hascend fun _ => .pure (g a)

/-! ## Loops -/

/-- A chain leaves the levels of its links at its end, however many links there are. -/
theorem Balanced.chain {operator : Reading (Option β)} {link : α → β → Reading α}
    (hoperator : Balanced 0 operator 0) (hlink : ∀ a o, Balanced 0 (link a o) 0) (fuel : Nat)
    (levels : Nat) (first : α) : Balanced levels (chain operator link fuel levels first) 0 := by
  induction fuel generalizing levels first with
  | zero => exact .outOfFuel
  | succ fuel ih =>
    refine .bind (hoperator.within levels) fun o? => ?_
    cases o? with
    | none =>
      have hrelease : Balanced (0 + levels) (Reading.release levels) 0 := .release levels
      rw [Nat.zero_add] at hrelease
      exact .bind hrelease fun _ => .pure first
    | some o =>
      exact .bind .descend fun _ => .bind ((hlink first o).within (levels + 1)) fun next =>
        ih (levels + 1) next

theorem Balanced.list (hp : Balanced 0 p 0) (fuel : Nat) : Balanced 0 (list p fuel) 0 := by
  induction fuel with
  | zero => exact .outOfFuel
  | succ fuel ih =>
    exact .bind hp fun a => .bind (.consume _) fun _ =>
      .ite (.bind ih fun as => .pure (a :: as)) (.pure [a])

theorem Balanced.delimited (hp : Balanced 0 p 0) (close : Token) (fuel : Nat) :
    Balanced 0 (delimited close p fuel) 0 :=
  .bind (.consume close) fun _ =>
    .ite (.pure []) (.bind (hp.list fuel) fun as => .bind (.expect close) fun _ => .pure as)

/-- A reading in good order leaves the levels that it enters, and no others. -/
theorem Orderly.balanced {bound next : Nat} (hp : Orderly bound next p) : Balanced 0 p 0 := by
  induction hp with
  | pure a => exact .pure a
  | fail => exact .fail _
  | position => exact .position
  | note name => exact .note name
  | look _ ih => exact .bind .token ih
  | pass _ ih => exact .bind .advance fun _ => ih
  | @bump bound next α f e hend he hf ih =>
    refine .bind .bump fun t => ?_
    by_cases ht : t = .endOfText
    · rw [ht, hend]
      exact .fail e
    · exact ih t ht
  | nested _ ih => exact .nested ih
  | chain _ _ _ _ _ _ first ihoperator ihlink => exact .chain ihoperator ihlink _ 0 first
  | spent => exact .outOfFuel
  | behind _ _ _ _ ihp ihf => exact .bind ihp ihf

end

end Reading

end DocQuery
