import DocQuery.Proofs.Grammar.Composed

/-!
# Readings in good order

The readings of the grammar are not made of small steps at random. They pass over a token only behind a
look at it, they leave the levels that they enter, and their loops pass over a token in each round.
`Orderly bound next p` says so of the reading `p`. So the grammar is walked through once, for `Orderly`,
and whatever follows from good order is an induction on it.

* `Orderly.composed`: orderly readings are made of small steps.
* `Orderly.ne_outOfFuel`: an orderly reading with few tokens left does not end for want of rounds.
* `Orderly.list`, `Orderly.chain_one` and so on: readings that are made of orderly ones are so.
-/

namespace DocQuery

namespace Reading

/-- The reading passes over a token only behind a look at it, or fails if that is the end of the text.
It leaves the levels that it enters, and no others. Where fewer than `bound` tokens are left, it has
rounds enough. `next` is 0 where nothing is known of the next token, and 1 where it is known not to be
the end of the text. -/
inductive Orderly : (bound next : Nat) → {α : Type} → Reading α → Prop
  | pure {bound next : Nat} {α : Type} (a : α) : Orderly bound next (Pure.pure a : Reading α)
  | fail {bound next : Nat} {α : Type} {e : ParseError} (he : ∀ place, e ≠ .outOfFuel place) :
      Orderly bound next (fail e : Reading α)
  | position {bound next : Nat} : Orderly bound next position
  | note {bound next : Nat} (name : CallName) :
      Orderly bound next (modify fun s => { s with calls := name :: s.calls })
  | look {bound next : Nat} {α : Type} {f : Token → Reading α} (hf : ∀ t, Orderly bound t.count (f t)) :
      Orderly bound next (token >>= f)
  | pass {bound next : Nat} {α : Type} {p : Reading α} (hp : Orderly (bound - 1) 0 p) :
      Orderly bound (next + 1) (advance >>= fun _ => p)
  /-- The token is passed over before it is looked at. -/
  | bump {bound next : Nat} {α : Type} {f : Token → Reading α} {e : ParseError}
      (hend : f .endOfText = Reading.fail e) (he : ∀ place, e ≠ .outOfFuel place)
      (hf : ∀ t, t ≠ .endOfText → Orderly (bound - 1) 0 (f t)) : Orderly bound next (bump >>= f)
  | nested {bound next : Nat} {α β : Type} {p : Reading α} {g : α → β} (hp : Orderly bound 0 p) :
      Orderly bound next (do descend; let a ← p; ascend; return g a)
  /-- Each link passes over a token: `k o` at its beginning, and what is missing behind it. -/
  | chain {bound next : Nat} {α β : Type} {operator : Reading (Option β)} {link : α → β → Reading α}
      (k : β → Nat) (hoperator : Orderly bound 0 operator)
      (hk : Takes operator fun o? => o?.elim 0 k)
      (hlink : ∀ a o, Orderly (bound - k o) 0 (link a o))
      (htakes : ∀ a o, Takes (link a o) fun _ => 1 - k o) {fuel : Nat} (hfuel : bound ≤ fuel)
      (first : α) : Orderly bound next (chain operator link fuel 0 first)
  /-- Fewer tokens than none are never left. -/
  | spent {next : Nat} {α : Type} : Orderly 0 next (outOfFuel : Reading α)
  /-- What has passed over some tokens leaves fewer to what comes after. -/
  | behind {bound next : Nat} {α β : Type} {p : Reading α} {f : α → Reading β} (k : α → Nat)
      (hp : Orderly bound next p) (hk : Takes p k) (hf : ∀ a, Orderly (bound - k a) 0 (f a)) :
      Orderly bound next (p >>= f)

section

variable {α β : Type} {p q : Reading α} {bound next : Nat} {t : Token}

theorem Orderly.composed (hp : Orderly bound next p) : Composed p := by
  induction hp with
  | pure a => exact .pure a
  | fail => exact .fail _
  | position => exact .position
  | note name => exact .note name
  | look _ ih => exact .bind .token ih
  | pass _ ih => exact .bind .advance fun _ => ih
  | @bump bound next α f e hend he hf ih =>
    refine .bind .bump fun t => ?_
    by_cases ht : t = .endOfText
    · rw [ht, hend]
      exact .fail e
    · exact ih t ht
  | nested _ ih => exact .nested ih
  | chain _ _ _ _ _ _ first ihoperator ihlink => exact .chain ihoperator ihlink _ 0 first
  | spent => exact .outOfFuel
  | behind _ _ _ _ ihp ihf => exact .bind ihp ihf

/-- No reading goes back. -/
theorem Orderly.takes (hp : Orderly bound next p) : Takes p fun _ => 0 := hp.composed.takes

/-- What has rounds enough for many tokens has so for few, and what may be run at any token may be run
at some. -/
theorem Orderly.mono {bound' next' : Nat} (hp : Orderly bound next p) (h : bound' ≤ bound)
    (hnext : next ≤ next') : Orderly bound' next' p := by
  induction hp generalizing bound' next' with
  | pure a => exact .pure a
  | fail he => exact .fail he
  | position => exact .position
  | note name => exact .note name
  | look _ ih => exact .look fun t => ih t h (Nat.le_refl _)
  | pass _ ih =>
    obtain ⟨n, rfl⟩ := Nat.exists_eq_succ_of_ne_zero (Nat.ne_of_gt (Nat.zero_lt_of_lt hnext))
    exact .pass (ih (Nat.sub_le_sub_right h 1) (Nat.le_refl _))
  | bump hend he _ ih =>
    exact .bump hend he fun t ht => ih t ht (Nat.sub_le_sub_right h 1) (Nat.le_refl _)
  | nested _ ih => exact .nested (ih h (Nat.le_refl _))
  | chain k _ hk _ htakes hfuel first ihoperator ihlink =>
    exact .chain k (ihoperator h (Nat.le_refl _)) hk
      (fun a o => ihlink a o (Nat.sub_le_sub_right h _) (Nat.le_refl _)) htakes (h.trans hfuel) first
  | spent =>
    obtain rfl := Nat.le_zero.mp h
    exact .spent
  | behind k _ hk _ ihp ihf =>
    exact .behind k (ihp h hnext) hk fun a => ihf a (Nat.sub_le_sub_right h _) (Nat.le_refl _)

end

/-! ## Rounds -/

/-- Where fewer than `bound` tokens are left, the reading does not end for want of rounds. -/
def Ample {α : Type} (bound : Nat) (p : Reading α) : Prop :=
  ∀ ⦃s : Session⦄, s.left < bound → ∀ place, (p.run s).1 ≠ .error (.outOfFuel place)

section

variable {α β : Type} {p : Reading α} {f : α → Reading β} {bound next : Nat}

theorem Ample.mono {bound' : Nat} (hp : Ample bound p) (h : bound' ≤ bound) : Ample bound' p :=
  fun _ hs => hp (hs.trans_le h)

theorem ample_bind {s : Session} {place : Text.Position}
    (hp : (p.run s).1 ≠ .error (.outOfFuel place))
    (hf : ∀ ⦃a m⦄, p.run s = (.ok a, m) → ((f a).run m).1 ≠ .error (.outOfFuel place)) :
    ((p >>= f).run s).1 ≠ .error (.outOfFuel place) := by
  rw [run_bind]
  rcases hrun : p.run s with ⟨e | a, m⟩
  · rw [hrun] at hp
    exact fun h => hp (congrArg Except.error (Except.error.inj h))
  · exact hf hrun

/-- What has passed over some tokens leaves fewer to what comes after. -/
theorem Ample.behind {k : α → Nat} (hp : Ample bound p) (hk : Takes p k)
    (hf : ∀ a, Ample (bound - k a) (f a)) : Ample bound (p >>= f) := by
  refine fun s hs place => ample_bind (hp hs place) fun a m hrun => hf a ?_ place
  have hleft := hk hrun
  omega

theorem ample_descend : Ample bound descend := by
  intro s _ place
  rw [run_descend]
  split <;> nofun

/-- A reading one level deeper. -/
theorem Ample.nested {g : α → β} (hp : Ample bound p) (hk : Takes p fun _ => 0) :
    Ample bound (do descend; let a ← p; ascend; return g a) :=
  ample_descend.behind Composed.descend.takes fun _ => hp.behind hk fun _ _ _ _ => nofun

theorem Ample.chain {operator : Reading (Option β)} {link : α → β → Reading α} {k : β → Nat}
    (hoperator : Ample bound operator) (hk : Takes operator fun o? => o?.elim 0 k)
    (hlink : ∀ a o, Ample (bound - k o) (link a o)) (htakes : ∀ a o, Takes (link a o) fun _ => 1 - k o)
    {fuel : Nat} (hfuel : bound ≤ fuel) (levels : Nat) (first : α) :
    Ample bound (chain operator link fuel levels first) := by
  induction fuel generalizing bound levels first with
  | zero =>
    intro s hs
    omega
  | succ fuel ih =>
    refine hoperator.behind hk fun o? => ?_
    cases o? with
    | none => exact fun _ _ _ => nofun
    | some o =>
      refine ample_descend.behind Composed.descend.takes fun _ =>
        (hlink first o).behind (htakes first o) fun next => ?_
      have hless : bound - k o - (1 - k o) ≤ bound := by omega
      exact ih (hoperator.mono hless) (fun a o' => (hlink a o').mono (by omega)) (by omega) _ _

/-- A reading in good order with few tokens left does not end for want of rounds. -/
theorem Orderly.ne_outOfFuel (hp : Orderly bound next p) {s : Session} (hnext : next ≤ s.token.count)
    (hs : s.left < bound) (place : Text.Position) : (p.run s).1 ≠ .error (.outOfFuel place) := by
  induction hp generalizing s place with
  | pure | position | note => nofun
  | fail he => exact fun h => he place (Except.error.inj h)
  | look _ ih => exact ih s.token (Nat.le_refl _) hs place
  | @pass bound next α p hp ih =>
    have hadvance : (advance.run s).1 ≠ .error (.outOfFuel place) := by
      rw [run_advance]
      rcases s.scanner.next with ⟨e | t, scanner⟩ <;> nofun
    refine ample_bind hadvance fun _ m hrun => ih (Nat.zero_le _) ?_ place
    have hleft := left_of_advance hrun
    omega
  | @bump bound next α f e hend he hf ih =>
    have hbump : (Reading.bump.run s).1 ≠ .error (.outOfFuel place) := by
      rw [run_bump]
      rcases s.scanner.next with ⟨e | t, scanner⟩ <;> nofun
    refine ample_bind hbump fun t m hrun => ?_
    have hleft := takes_bump hrun
    by_cases ht : t = .endOfText
    · rw [ht, hend]
      exact fun h => he place (Except.error.inj h)
    · rw [Token.count_of_ne ht] at hleft
      exact ih t ht (Nat.zero_le _) (by omega) place
  | nested hp ih =>
    have hample : Ample _ _ := fun _ => ih (Nat.zero_le _)
    exact hample.nested hp.takes hs place
  | chain k _ hk _ htakes hfuel first ihoperator ihlink =>
    have hample : Ample _ _ := fun _ => ihoperator (Nat.zero_le _)
    exact hample.chain hk (fun a o _ => ihlink a o (Nat.zero_le _)) htakes hfuel 0 first hs place
  | spent => exact absurd hs (Nat.not_lt_zero _)
  | @behind bound next α β p f k hp hk hf ihp ihf =>
    refine ample_bind (ihp hnext hs place) fun a m hrun => ihf a (Nat.zero_le _) ?_ place
    have hleft := hk hrun
    omega

end

/-! ## Parts of readings -/

section

variable {α β : Type} {p q : Reading α} {bound next : Nat} {t : Token}

/-- One reading after another, whether or not the first passes over tokens. -/
theorem Orderly.bind {f : α → Reading β} (hp : Orderly bound next p)
    (hf : ∀ a, Orderly bound 0 (f a)) : Orderly bound next (p >>= f) :=
  .behind (fun _ => 0) hp hp.takes hf

theorem Orderly.map {g : α → β} (hp : Orderly bound next p) : Orderly bound next (g <$> p) := by
  rw [map_eq_pure_bind]
  exact hp.bind fun a => .pure (g a)

/-- A reading that goes one of two ways. -/
theorem Orderly.ite {c : Prop} [Decidable c] (hp : Orderly bound next p)
    (hq : Orderly bound next q) : Orderly bound next (if c then p else q) := by
  by_cases hc : c
  · rwa [if_pos hc]
  · rwa [if_neg hc]

theorem Orderly.advance : Orderly bound (next + 1) advance := by
  have h : Orderly bound (next + 1) (do Reading.advance; return ()) := .pass (.pure ())
  rwa [bind_pure_unit] at h

theorem Orderly.isAt (t : Token) : Orderly bound next (isAt t) := by
  have h : Orderly bound next (do return (← Reading.token) == t) := .look fun _ => .pure _
  exact h

/-- A reading that goes one of two ways by whether the token `t` is next. -/
theorem Orderly.fork (hp : Orderly bound t.count p) (hq : Orderly bound 0 q) :
    Orderly bound next (do if ← Reading.isAt t then p else q) := by
  have h : Orderly bound next (do if (← Reading.token) == t then p else q) := by
    refine .look fun u => ?_
    by_cases hu : u = t
    · rwa [hu, beq_self_eq_true, if_pos rfl]
    · rw [beq_eq_false_iff_ne.mpr hu]
      exact hq.mono (Nat.le_refl _) (Nat.zero_le _)
  exact h

theorem Orderly.unexpected (expected : Expected) :
    Orderly bound next (unexpected expected : Reading α) := by
  have h : Orderly bound next (do
      let place ← Reading.position
      let found ← Reading.token
      Reading.fail (.unexpected place expected found) : Reading α) :=
    .bind .position fun _ => .look fun _ => .fail nofun
  exact h

theorem Orderly.consume (ht : t ≠ .endOfText) : Orderly bound next (consume t) := by
  have hpass : Orderly bound t.count (do Reading.advance; return true) :=
    Token.count_of_ne ht ▸ .bind .advance fun _ => .pure true
  exact .fork hpass (.pure false)

theorem Orderly.expect (ht : t ≠ .endOfText) : Orderly bound next (expect t) := by
  have hpass : Orderly bound t.count Reading.advance := Token.count_of_ne ht ▸ .advance
  exact .fork hpass (.unexpected _)

/-- A reading that goes on behind the token `t`, if it is next. -/
theorem Orderly.option (ht : t ≠ .endOfText) (hp : Orderly (bound - 1) 0 p)
    (hq : Orderly bound 0 q) : Orderly bound next (do if ← Reading.consume t then p else q) :=
  .behind Bool.toNat (.consume ht) (takes_consume ht) fun found => by
    cases found with
    | true => exact hp
    | false => exact hq

/-- A reading that goes on behind the token `t`, which must be next. -/
theorem Orderly.after {f : Unit → Reading α} (ht : t ≠ .endOfText)
    (hf : Orderly (bound - 1) 0 (f ())) : Orderly bound next (Reading.expect t >>= f) :=
  .behind (fun _ => 1) (.expect ht) (takes_expect ht) fun _ => hf

theorem Orderly.identifier : Orderly bound next identifier := by
  refine .look fun t => ?_
  cases t with
  | identifier name => exact .bind .advance fun _ => .pure name
  | _ => exact .unexpected _

theorem Orderly.expectEnd : Orderly bound next expectEnd :=
  .bind (.isAt _) fun _ => .ite (.unexpected _) (.pure _)

/-- A reading with nothing behind it. -/
theorem Orderly.whole (hp : Orderly bound next p) : Orderly bound next p.whole :=
  .bind hp fun _ => .bind .expectEnd fun _ => .pure _

/-! ## Chains and lists -/

/-- A chain whose links begin with a token. -/
theorem Orderly.chain_one {operator : Reading (Option β)} {link : α → β → Reading α}
    (hoperator : Orderly bound 0 operator) (hk : Takes operator fun o? => o?.elim 0 fun _ => 1)
    (hlink : ∀ a o, Orderly (bound - 1) 0 (link a o)) {fuel : Nat} (hfuel : bound ≤ fuel)
    (first : α) : Orderly bound next (Reading.chain operator link fuel 0 first) :=
  .chain _ hoperator hk hlink (fun a o => (hlink a o).takes) hfuel first

theorem Orderly.list (hp : Orderly bound 0 p) {fuel : Nat} (hfuel : bound ≤ fuel) :
    Orderly bound 0 (list p fuel) := by
  induction fuel generalizing bound with
  | zero =>
    obtain rfl := Nat.le_zero.mp hfuel
    exact .spent
  | succ fuel ih =>
    have hrest := ih (hp.mono (Nat.sub_le bound 1) (Nat.le_refl _)) (by omega)
    exact .bind hp fun a => .option nofun (.bind hrest fun as => .pure (a :: as)) (.pure [a])

theorem Orderly.delimited (hp : Orderly bound 0 p) (close : Mark) {fuel : Nat}
    (hfuel : bound ≤ fuel) : Orderly bound 0 (delimited (.mark close) p fuel) :=
  .bind (.consume nofun) fun _ => .ite (.pure []) (.bind (hp.list hfuel) fun as =>
    .bind (.expect nofun) fun _ => .pure as)

end

end Reading

end DocQuery
