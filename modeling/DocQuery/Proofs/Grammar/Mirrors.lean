import DocQuery.Proofs.Grammar.Passes

/-!
# What a reading looks at

A reading acts on the tokens that it passes over, and on the kind of the one behind them, and on
nothing else but the levels that may nest and its rounds: `Mirrors p p'` says that of `p`, where `p'`
is the same reading with other rounds, in a session of its own. So what `p` gives, `p'` gives, if it
gives anything; and where `p` finds a token that does not fit, `p'` gives nothing.

There is a rule for each part that readings are made of.
-/

namespace DocQuery

/-- The tokens differ at most in the number, the string or the name that they hold. -/
inductive Token.SameKind : Token → Token → Prop
  | integer (n m) : SameKind (.integer n) (.integer m)
  | double (x y) : SameKind (.double x) (.double y)
  | string (a b) : SameKind (.string a) (.string b)
  | identifier (a b) : SameKind (.identifier a) (.identifier b)
  | parameter (a b) : SameKind (.parameter a) (.parameter b)
  | keyword (word) : SameKind (.keyword word) (.keyword word)
  | mark (symbol) : SameKind (.mark symbol) (.mark symbol)
  | endOfText : SameKind .endOfText .endOfText

namespace Token

theorem SameKind.refl (t : Token) : t.SameKind t := by cases t <;> constructor

/-- The token holds nothing but its kind. -/
def isFixed : Token → Bool
  | keyword _ => true
  | mark _ => true
  | .endOfText => true
  | _ => false

theorem SameKind.eq_iff {t t' u : Token} (h : t.SameKind t') (hu : u.isFixed = true) :
    t = u ↔ t' = u := by
  cases h <;> first | exact Iff.rfl | (constructor <;> rintro rfl <;> cases hu)

end Token

/-- Sessions that pass over the same tokens, to one of the same kind, begin with a token of the same
kind. -/
theorem Session.Passes.sameKind {s s' w w' : Session} {ts : List Token} (h : s.Passes ts w)
    (h' : s'.Passes ts w') (hkind : w.token.SameKind w'.token) : s.token.SameKind s'.token := by
  cases ts with
  | nil => rwa [← h.token_nil, ← h'.token_nil]
  | cons t ts =>
    rw [h.token_eq, h'.token_eq]
    exact .refl t

namespace Reading

variable {α β : Type}

/-- What the reading `p` does where the next token is one that `pre` allows, `p'` does in a session
of its own, unless its rounds or the levels that may nest forbid it. -/
structure Mirrors (pre : Follow) (p p' : Reading α) : Prop where
  /-- If `p` gives a value, `p'` gives no other, nor does it pass over other tokens. -/
  gives : ∀ s a m, pre s.token → p.run s = (.ok a, m) → ∃ ts, s.Passes ts m ∧
    ∀ s' m', s'.Passes ts m' → m.token.SameKind m'.token →
      ∀ b w, p'.run s' = (.ok b, w) → b = a ∧ m'.Passes [] w
  /-- If `p` finds a token that does not fit, `p'` gives no value. -/
  balks : ∀ s place expected found m, pre s.token →
    p.run s = (.error (.unexpected place expected found), m) →
      ∃ ts w, s.Passes ts w ∧ w.position = place ∧ w.token = found ∧
        ∀ s' w', s'.Passes ts w' → found.SameKind w'.token → ∀ b m', p'.run s' ≠ (.ok b, m')

/-- The readings do the same, whatever comes next. -/
abbrev Mirror (p p' : Reading α) : Prop := Mirrors Anything p p'

section

variable {pre : Follow} {p p' q q' : Reading α} {f f' : α → Reading β} {t : Token}

theorem Mirrors.at (h : Mirror p p') (pre : Follow) : Mirrors pre p p' :=
  ⟨fun s a m _ => h.gives s a m trivial, fun s place expected found m _ =>
    h.balks s place expected found m trivial⟩

/-- One reading after another. -/
theorem Mirrors.bind (hp : Mirrors pre p p') (hf : ∀ a, Mirror (f a) (f' a)) :
    Mirrors pre (p >>= f) (p' >>= f') where
  gives s b m hpre hrun := by
    obtain ⟨a, k, hpa, hfa⟩ := exists_of_run_bind hrun
    obtain ⟨ts, hts, hp'⟩ := hp.gives s a k hpre hpa
    obtain ⟨us, hus, hf'⟩ := (hf a).gives k b m trivial hfa
    refine ⟨ts ++ us, hts.append hus, fun s' m' hpasses hkind c w hrun' => ?_⟩
    obtain ⟨a', l, hpa', hfa'⟩ := exists_of_run_bind hrun'
    obtain ⟨k', hts', hus'⟩ := hpasses.split
    obtain ⟨rfl, hl⟩ := hp' s' k' hts' (hus.sameKind hus' hkind) a' l hpa'
    exact hf' l m' (hl.symm.append hus') hkind c w hfa'
  balks s place expected found m hpre hrun := by
    rw [run_bind] at hrun
    rcases hpa : p.run s with ⟨e | a, k⟩ <;> rw [hpa] at hrun
    · cases hrun
      obtain ⟨ts, w, hts, hplace, hfound, hp'⟩ := hp.balks s place expected found _ hpre hpa
      refine ⟨ts, w, hts, hplace, hfound, fun s' w' hpasses hkind b m' hrun' => ?_⟩
      obtain ⟨a', l, hpa', -⟩ := exists_of_run_bind hrun'
      exact hp' s' w' hpasses hkind a' l hpa'
    · obtain ⟨ts, hts, hp'⟩ := hp.gives s a k hpre hpa
      obtain ⟨us, w, hus, hplace, rfl, hf'⟩ := (hf a).balks k place expected found m trivial hrun
      refine ⟨ts ++ us, w, hts.append hus, hplace, rfl, fun s' w' hpasses hkind b m' hrun' => ?_⟩
      obtain ⟨a', l, hpa', hfa'⟩ := exists_of_run_bind hrun'
      obtain ⟨k', hts', hus'⟩ := hpasses.split
      obtain ⟨rfl, hl⟩ := hp' s' k' hts' (hus.sameKind hus' hkind) a' l hpa'
      exact hf' l w' (hl.symm.append hus') hkind b m' hfa'

/-- A reading that passes over nothing, finds all fit, and tells what the kind of the next token
is. -/
theorem Mirrors.quiet (g : Token → α) (hg : ∀ t t', t.SameKind t' → g t' = g t)
    (hgives : ∀ s a m, p.run s = (.ok a, m) → s.Passes [] m ∧ a = g s.token)
    (hbalks : ∀ s place expected found m,
      p.run s ≠ (.error (.unexpected place expected found), m)) : Mirrors pre p p where
  gives s a m _ hrun := by
    obtain ⟨hpasses, rfl⟩ := hgives s a m hrun
    refine ⟨[], hpasses, fun s' m' hpasses' hkind b w hrun' => ?_⟩
    obtain ⟨hw, rfl⟩ := hgives s' b w hrun'
    exact ⟨hg _ _ (hpasses.sameKind hpasses' hkind), hpasses'.symm.append hw⟩
  balks s place expected found m _ hrun := absurd hrun (hbalks s place expected found m)

theorem Mirrors.pure (a : α) : Mirrors pre (Pure.pure a : Reading α) (Pure.pure a) := by
  refine .quiet (fun _ => a) (fun _ _ _ => rfl) ?_ fun s place expected found m h => by cases h
  rintro s b m ⟨⟩
  exact ⟨.refl s, rfl⟩

/-- Making something else of what is read. -/
theorem Mirrors.map {g : α → β} (hp : Mirrors pre p p') : Mirrors pre (g <$> p) (g <$> p') := by
  rw [map_eq_pure_bind, map_eq_pure_bind]
  exact .bind hp fun a => .pure (g a)

theorem mirrors_unexpected (expected : Expected) :
    Mirrors pre (unexpected expected : Reading α) (unexpected expected) where
  gives s a m _ hrun := by cases hrun
  balks s place expected found m _ hrun := by
    cases hrun
    exact ⟨[], s, .refl s, rfl, rfl, fun s' w' _ _ b m' hrun' => by cases hrun'⟩

/-! ## Rounds -/

theorem mirrors_outOfFuel : Mirrors pre (outOfFuel : Reading α) p' where
  gives s a m _ hrun := by cases hrun
  balks s place expected found m _ hrun := by cases hrun

/-- Where the other reading has no rounds, it gives nothing. -/
theorem Mirrors.spent (h : Mirrors pre p q) : Mirrors pre p outOfFuel where
  gives s a m hpre hrun := by
    obtain ⟨ts, hts, -⟩ := h.gives s a m hpre hrun
    exact ⟨ts, hts, fun s' m' _ _ b w hrun' => by cases hrun'⟩
  balks s place expected found m hpre hrun := by
    obtain ⟨ts, w, hts, hplace, hfound, -⟩ := h.balks s place expected found m hpre hrun
    exact ⟨ts, w, hts, hplace, hfound, fun s' w' _ _ b m' hrun' => by cases hrun'⟩

/-- What rounds mirror, all numbers of rounds mirror. -/
theorem mirror_rounds (step : Nat → Reading α) (hzero : step 0 = outOfFuel)
    (hsucc : ∀ fuel, Mirror p (step (fuel + 1))) (fuel : Nat) : Mirror p (step fuel) := by
  cases fuel with
  | zero =>
    rw [hzero]
    exact (hsucc 0).spent
  | succ fuel => exact hsucc fuel

/-! ## Tokens -/

/-- Readings that mirror each other for each kind of the next token. -/
theorem Mirrors.of_kind (h : ∀ t, pre t → ∃ q q', Mirrors (· = t) q q' ∧
    (∀ s, s.token = t → p.run s = q.run s) ∧
    ∀ s : Session, t.SameKind s.token → p'.run s = q'.run s) : Mirrors pre p p' := by
  constructor
  · intro s a m hpre hrun
    obtain ⟨q, q', hq, hp, hp'⟩ := h s.token hpre
    rw [hp s rfl] at hrun
    obtain ⟨ts, hts, hgives⟩ := hq.gives s a m rfl hrun
    refine ⟨ts, hts, fun s' m' hpasses hkind b w hrun' => ?_⟩
    rw [hp' s' (hts.sameKind hpasses hkind)] at hrun'
    exact hgives s' m' hpasses hkind b w hrun'
  · intro s place expected found m hpre hrun
    obtain ⟨q, q', hq, hp, hp'⟩ := h s.token hpre
    rw [hp s rfl] at hrun
    obtain ⟨ts, w, hts, hplace, rfl, hbalks⟩ := hq.balks s place expected found m rfl hrun
    refine ⟨ts, w, hts, hplace, rfl, fun s' w' hpasses hkind b m' hrun' => ?_⟩
    rw [hp' s' (hts.sameKind hpasses hkind)] at hrun'
    exact hbalks s' w' hpasses hkind b m' hrun'

/-- A reading that goes by what token is next. -/
theorem Mirrors.token {f : Token → Reading β} {p' : Reading β}
    (h : ∀ t, Mirrors (· = t) (f t) p') : Mirrors pre (Reading.token >>= f) p' := by
  refine .of_kind fun t _ => ⟨f t, p', h t, ?_, fun _ _ => rfl⟩
  rintro s rfl
  exact run_bind_ok (run_token s)

/-- The other reading goes by the kind of the next token alone. -/
theorem Mirrors.looks {f' : Token → Reading α} (hf' : ∀ t', t.SameKind t' → f' t' = q')
    (h : Mirrors (· = t) p q') : Mirrors (· = t) p (Reading.token >>= f') := by
  refine .of_kind fun u hu => ⟨p, q', hu ▸ h, fun _ _ => rfl, fun s hs => ?_⟩
  rw [run_bind_ok (run_token s), hf' _ (hu ▸ hs)]

/-- A reading that goes by the next token, first where the kind is all of it, then where it holds a
number, a string or a name besides. -/
theorem Mirrors.kind {f : Token → Reading α}
    (hfixed : ∀ t, t.isFixed = true → Mirrors (· = t) (f t) (f t))
    (hfree : ∀ t, t.isFixed = false → Mirrors (· = t) (f t) (Reading.token >>= f)) :
    Mirrors pre (Reading.token >>= f) (Reading.token >>= f) := by
  refine .token fun t => ?_
  by_cases ht : t.isFixed = true
  · exact .looks (fun t' h => by rw [(h.eq_iff ht).mp rfl]) (hfixed t ht)
  · exact hfree t (Bool.not_eq_true _ ▸ ht)

/-- A reading that goes one way if the token `t` is next, and another if it is not. -/
theorem Mirrors.fork {r r' : Reading α} (ht : t.isFixed = true)
    (hp : ∀ s, p.run s = if s.token = t then q.run s else r.run s)
    (hp' : ∀ s, p'.run s = if s.token = t then q'.run s else r'.run s)
    (hq : Mirrors (· = t) q q') (hr : Mirror r r') : Mirrors pre p p' := by
  refine .of_kind fun u _ => ?_
  by_cases hu : u = t
  · refine ⟨q, q', hu ▸ hq, fun s hs => ?_, fun s hs => ?_⟩
    · rw [hp, if_pos (hs.trans hu)]
    · rw [hp', if_pos ((hs.eq_iff ht).mp hu)]
  · refine ⟨r, r', hr.at _, fun s hs => ?_, fun s hs => ?_⟩
    · rw [hp, if_neg (hs ▸ hu)]
    · rw [hp', if_neg fun h => hu ((hs.eq_iff ht).mpr h)]

/-- Both readings pass over the next token, if it is this one. -/
theorem Mirrors.past (ht : t ≠ .endOfText) (hp : PassesOver t p q) (hp' : PassesOver t p' q')
    (h : Mirror q q') : Mirrors (· = t) p p' := by
  have hstep {s s' w : Session} {us : List Token} {b : α} (hpasses : s'.Passes (t :: us) s)
      (hrun : p'.run s' = (.ok b, w)) : ∃ k, k.Passes us s ∧ q'.run k = (.ok b, w) := by
    obtain ⟨-, u, scanner, hnext, hrest⟩ := hpasses.cons
    refine ⟨_, hrest, ?_⟩
    rw [← (hp' s' hpasses.token_eq).1 u scanner hnext, hrun]
  constructor
  · rintro s a m rfl hrun
    rcases hnext : s.scanner.next with ⟨e | u, scanner⟩
    · obtain ⟨k, herror⟩ := (hp s rfl).2 e scanner hnext
      cases hrun.symm.trans herror
    · rw [(hp s rfl).1 u scanner hnext] at hrun
      obtain ⟨us, hus, hq⟩ := h.gives _ a m trivial hrun
      refine ⟨s.token :: us, (Session.passes_step hnext ht).append hus, ?_⟩
      intro s' m' hpasses hkind b w hrun'
      obtain ⟨k, hk, hrun'⟩ := hstep hpasses hrun'
      exact hq k m' hk hkind b w hrun'
  · rintro s place expected found m rfl hrun
    rcases hnext : s.scanner.next with ⟨e | u, scanner⟩
    · obtain ⟨k, herror⟩ := (hp s rfl).2 e scanner hnext
      cases hrun.symm.trans herror
    · rw [(hp s rfl).1 u scanner hnext] at hrun
      obtain ⟨us, w, hus, hplace, hfound, hq⟩ := h.balks _ place expected found m trivial hrun
      refine ⟨s.token :: us, w, (Session.passes_step hnext ht).append hus, hplace, hfound, ?_⟩
      intro s' w' hpasses hkind b m' hrun'
      obtain ⟨k, hk, hrun'⟩ := hstep hpasses hrun'
      exact hq k w' hk hkind b m' hrun'

/-- The other reading goes by the next token and passes over it, if it is this one. -/
theorem Mirrors.passes {f' : Token → Reading β} {g g' : Unit → Reading β} (ht : t ≠ .endOfText)
    (hf' : f' t = advance >>= g') (h : Mirror (g ()) (g' ())) :
    Mirrors (· = t) (advance >>= g) (Reading.token >>= f') :=
  .past ht passesOver_advance (.token (hf' ▸ passesOver_advance)) h

/-! ## Parts of readings -/

theorem mirror_advance (ht : t ≠ .endOfText) : Mirrors (· = t) advance advance := by
  have h := Mirrors.past (p := advance >>= Pure.pure) ht passesOver_advance passesOver_advance
    (.pure ())
  rwa [bind_pure] at h

theorem Mirrors.advance {f f' : Unit → Reading β} (ht : t ≠ .endOfText)
    (h : Mirror (f ()) (f' ())) : Mirrors (· = t) (Reading.advance >>= f) (Reading.advance >>= f') :=
  .bind (mirror_advance ht) fun _ => h

theorem mirror_isAt (ht : t.isFixed = true) : Mirror (isAt t) (isAt t) := by
  refine .quiet (· == t) (fun u u' h => ?_) ?_ fun s place expected found m h => by cases h
  · rw [Bool.eq_iff_iff, beq_iff_eq, beq_iff_eq, h.eq_iff ht]
  · rintro s b m ⟨⟩
    exact ⟨.refl s, rfl⟩

theorem mirror_consume (ht : t.isFixed = true) (hend : t ≠ .endOfText) :
    Mirror (consume t) (consume t) :=
  .fork ht (run_consume t) (run_consume t) (.bind (mirror_advance hend) fun _ => .pure true)
    (.pure false)

theorem mirror_expect (ht : t.isFixed = true) (hend : t ≠ .endOfText) :
    Mirror (expect t) (expect t) :=
  .fork ht (run_expect t) (run_expect t) (mirror_advance hend) (mirrors_unexpected _)

theorem mirror_identifier : Mirror identifier identifier := by
  refine .token fun t => ?_
  cases t with
  | identifier name => exact .passes nofun rfl (.pure name)
  | _ => exact .looks (by rintro _ ⟨⟩; rfl) (mirrors_unexpected _)

theorem mirror_bump {f f' : Text.Position → Token → Reading β}
    (h : ∀ t, (t ≠ .endOfText ∧ (∀ place, f place t = f .start t ∧ f' place t = f' .start t) ∧
        Mirror (f .start t) (f' .start t)) ∨
      ∃ expected, ∀ t', t.SameKind t' → ∀ place,
        f place t' = fail (.unexpected place expected t') ∧
          f' place t' = fail (.unexpected place expected t')) :
    Mirror (do let place ← position; let t ← bump; f place t)
      (do let place ← position; let t ← bump; f' place t) := by
  refine .of_kind fun t _ => ⟨_, _, ?_, fun _ _ => rfl, fun _ _ => rfl⟩
  obtain ⟨hend, hplace, hmirror⟩ | ⟨expected, hunfit⟩ := h t
  · exact .past hend (.position fun place => (hplace place).1 ▸ passesOver_bump)
      (.position fun place => (hplace place).2 ▸ passesOver_bump) hmirror
  · constructor
    · rintro s a m rfl hrun
      rw [run_bump_unfit fun place => (hunfit _ (.refl _) place).1] at hrun
      split at hrun <;> cases hrun
    · rintro s place expected' found m rfl hrun
      rw [run_bump_unfit fun place => (hunfit _ (.refl _) place).1] at hrun
      split at hrun <;> cases hrun
      refine ⟨[], s, .refl s, rfl, rfl, fun s' w' hpasses hkind b m' hrun' => ?_⟩
      rw [hpasses.token_nil] at hkind
      rw [run_bump_unfit fun place => (hunfit _ hkind place).2] at hrun'
      split at hrun' <;> cases hrun'

theorem mirror_descend : Mirror descend descend := by
  refine .quiet (fun _ => ()) (fun _ _ _ => rfl) (fun s a m hrun => ?_)
    fun s place expected found m hrun => ?_
  · rw [run_descend] at hrun
    split at hrun <;> cases hrun
    exact ⟨.refl s, rfl⟩
  · rw [run_descend] at hrun
    split at hrun <;> cases hrun

theorem mirror_release (levels : Nat) : Mirror (release levels) (release levels) := by
  refine .quiet (fun _ => ()) (fun _ _ _ => rfl) ?_ fun s place expected found m h => by cases h
  rintro s a m ⟨⟩
  exact ⟨.refl s, rfl⟩

/-- A reading one level deeper. -/
theorem Mirrors.nested {g : α → β} (hp : Mirror p p') :
    Mirror (do descend; let a ← p; ascend; return g a)
      (do descend; let a ← p'; ascend; return g a) :=
  .bind mirror_descend fun _ => .bind hp fun a => .bind (mirror_release 1) fun _ => .pure (g a)

/-! ## Chains and lists -/

theorem mirror_chain {γ : Type} {operator : Reading (Option γ)} {link link' : α → γ → Reading α}
    (hoperator : Mirror operator operator) (hlink : ∀ a o, Mirror (link a o) (link' a o))
    (fuel fuel' levels : Nat) (first : α) :
    Mirror (chain operator link fuel levels first) (chain operator link' fuel' levels first) := by
  induction fuel generalizing fuel' levels first with
  | zero => exact mirrors_outOfFuel
  | succ fuel ih =>
    refine mirror_rounds (fun fuel' => chain operator link' fuel' levels first) rfl
      (fun fuel' => ?_) fuel'
    refine .bind hoperator fun o? => ?_
    cases o? with
    | none => exact .bind (mirror_release levels) fun _ => .pure first
    | some o => exact .bind mirror_descend fun _ => .bind (hlink first o) fun next => ih fuel' _ next

theorem mirror_list (hp : Mirror p p') (fuel fuel' : Nat) :
    Mirror (list p fuel) (list p' fuel') := by
  induction fuel generalizing fuel' with
  | zero => exact mirrors_outOfFuel
  | succ fuel ih =>
    refine mirror_rounds (list p') rfl (fun fuel' => ?_) fuel'
    refine .bind hp fun a => .bind (mirror_consume rfl nofun) fun more => ?_
    cases more with
    | false => exact .pure [a]
    | true => exact .bind (ih fuel') fun as => .pure (a :: as)

theorem mirror_delimited (hp : Mirror p p') (close : Token) (hclose : close.isFixed = true)
    (hend : close ≠ .endOfText) (fuel fuel' : Nat) :
    Mirror (delimited close p fuel) (delimited close p' fuel') := by
  refine .bind (mirror_consume hclose hend) fun closed => ?_
  cases closed with
  | true => exact .pure []
  | false =>
    exact .bind (mirror_list hp fuel fuel') fun as =>
      .bind (mirror_expect hclose hend) fun _ => .pure as

end

end Reading

end DocQuery
