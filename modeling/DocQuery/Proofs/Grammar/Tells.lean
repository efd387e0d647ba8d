import DocQuery.Proofs.Grammar.Passes

/-!
# What readings tell

`Tells p P`: what the reading `p` gives is a phrase of `P`, with the tokens that it has passed over.
Where it finds a token that does not fit, the tokens before it begin a phrase of `P`; and where there is
no next token, so do the tokens up to there (`Faults`). An exception are readings that take a token
before they look at it: there the last token may be unfit, and what begins a phrase is the tokens before
it, with a number in its place. Nothing is said of when a reading gives a value; that is
`Reading.Reads`.

There is a rule for each part that readings are made of. A reading in steps keeps the tokens of the
first step in what it says of the next (`Tells.bind`), and a chain keeps those of the links so far
(`tells_chain`). Behind a look at the next token, `Answers pre p P` says the same of where that is one
that `pre` allows.
-/

namespace DocQuery.Reading

open Grammar

variable {α β : Type}

/-- Some more tokens make a phrase of these. -/
def Begins (P : List Token → α → Prop) (ts : List Token) : Prop := ∃ us a, P (ts ++ us) a

/-- The tokens that a session passes over before an error begin a phrase. -/
def Faults (P : List Token → α → Prop) (s : Session) : ParseError → Prop
  | .unexpected place _ found =>
    ∃ ts w, s.Passes ts w ∧ w.position = place ∧ w.token = found ∧ Begins P ts
  | .scan e => ∃ ts w scanner, s.Passes ts w ∧ w.scanner.next = (.error e, scanner) ∧
    (Begins P (ts ++ [w.token]) ∨ Begins P (ts ++ [.integer 0]))
  | .tooDeep _ _ => True
  | .outOfFuel _ => True

/-- What the reading does where the next token is one that `pre` allows. -/
structure Answers (pre : Follow) (p : Reading α) (P : List Token → α → Prop) : Prop where
  /-- What it gives is a phrase, with the tokens that it has passed over. -/
  finds : ∀ s a m, s.Scanned → pre s.token → p.run s = (.ok a, m) → ∃ ts, s.Passes ts m ∧ P ts a
  /-- If it fails, the tokens before the error begin a phrase. -/
  falters : ∀ s e m, s.Scanned → pre s.token → p.run s = (.error e, m) → Faults P s e

/-- What the reading does whatever comes next, and there are phrases. -/
structure Tells (p : Reading α) (P : List Token → α → Prop) : Prop extends
    Answers Anything p P where
  begins : Begins P []

/-- What the reading tells are phrases. -/
abbrev TellsPhrase (p : Reading α) (P : Phrase α) : Prop :=
  Tells p fun ts a => ∃ n, P ts a n

section

variable {pre : Follow} {p q r : Reading α} {f : α → Reading β} {P : List Token → α → Prop}
  {S : List Token → β → Prop} {s m : Session} {ts : List Token} {t : Token} {e : ParseError}

/-! ## Beginnings and errors -/

theorem Begins.behind {us : List Token} (h : Begins (fun us b => S (ts ++ us) b) us) :
    Begins S (ts ++ us) := by
  obtain ⟨vs, b, h⟩ := h
  exact ⟨vs, b, by rwa [List.append_assoc]⟩

theorem Begins.imp {g : α → β} (h : Begins P ts) (hP : ∀ ts a, P ts a → S ts (g a)) :
    Begins S ts := by
  obtain ⟨us, a, hus⟩ := h
  exact ⟨us, g a, hP _ a hus⟩

theorem Faults.imp (h : Faults P s e) (hP : ∀ ts, Begins P ts → Begins S ts) : Faults S s e := by
  cases e with
  | unexpected place expected found =>
    obtain ⟨ts, w, hts, hplace, hfound, hbegins⟩ := h
    exact ⟨ts, w, hts, hplace, hfound, hP ts hbegins⟩
  | scan e =>
    obtain ⟨ts, w, scanner, hts, hnext, hbegins⟩ := h
    exact ⟨ts, w, scanner, hts, hnext, hbegins.imp (hP _) (hP _)⟩
  | tooDeep => trivial
  | outOfFuel => trivial

/-- An error behind some tokens. -/
theorem Faults.behind (hts : s.Passes ts m) (h : Faults (fun us b => S (ts ++ us) b) m e) :
    Faults S s e := by
  cases e with
  | unexpected place expected found =>
    obtain ⟨us, w, hus, hplace, hfound, hbegins⟩ := h
    exact ⟨ts ++ us, w, hts.append hus, hplace, hfound, hbegins.behind⟩
  | scan e =>
    obtain ⟨us, w, scanner, hus, hnext, hbegins⟩ := h
    refine ⟨ts ++ us, w, scanner, hts.append hus, hnext, ?_⟩
    rw [List.append_assoc, List.append_assoc]
    exact hbegins.imp .behind .behind
  | tooDeep => trivial
  | outOfFuel => trivial

/-! ## One reading after another -/

/-- What a reading tells whatever comes next. -/
theorem Answers.at (h : Tells p P) : Answers pre p P :=
  ⟨fun s a m hs _ hrun => h.finds s a m hs trivial hrun,
    fun s e m hs _ hrun => h.falters s e m hs trivial hrun⟩

theorem Tells.weaken {P' : List Token → α → Prop} (h : Tells p P)
    (hP : ∀ ts a, P ts a → P' ts a) : Tells p P' where
  finds s a m hs hpre hrun := by
    obtain ⟨ts, hpasses, hts⟩ := h.finds s a m hs hpre hrun
    exact ⟨ts, hpasses, hP ts a hts⟩
  falters s e m hs hpre hrun := (h.falters s e m hs hpre hrun).imp fun _ hts => hts.imp (g := id) hP
  begins := h.begins.imp (g := id) hP

/-- One reading after another. -/
theorem Tells.bind (hp : Tells p P) (hf : ∀ ts a, P ts a → Tells (f a) fun us b => S (ts ++ us) b) :
    Tells (p >>= f) S := by
  have hbegins (ts) (hts : Begins P ts) : Begins S ts := by
    obtain ⟨us, a, hus⟩ := hts
    obtain ⟨vs, b, hvs⟩ := (hf _ a hus).begins
    exact ⟨us ++ vs, b, by rwa [← List.append_assoc]⟩
  refine ⟨⟨fun s b m hs hpre hrun => ?_, fun s e m hs hpre hrun => ?_⟩, hbegins [] hp.begins⟩
  · obtain ⟨a, k, hpa, hfa⟩ := exists_of_run_bind hrun
    obtain ⟨ts, hts, ha⟩ := hp.finds s a k hs hpre hpa
    obtain ⟨us, hus, hb⟩ := (hf ts a ha).finds k b m (hts.scanned hs) trivial hfa
    exact ⟨ts ++ us, hts.append hus, hb⟩
  · rw [run_bind] at hrun
    rcases hpa : p.run s with ⟨e' | a, k⟩
    · rw [hpa] at hrun
      cases hrun
      exact (hp.falters s e _ hs hpre hpa).imp hbegins
    · rw [hpa] at hrun
      obtain ⟨ts, hts, ha⟩ := hp.finds s a k hs hpre hpa
      exact .behind hts ((hf ts a ha).falters k e m (hts.scanned hs) trivial hrun)

theorem Answers.pure {a : α} (h : P [] a) : Answers pre (Pure.pure a : Reading α) P where
  finds s b m _ _ hrun := by
    cases hrun
    exact ⟨[], .refl s, h⟩
  falters s e m _ _ hrun := by cases hrun

theorem Tells.pure {a : α} (h : P [] a) : Tells (Pure.pure a : Reading α) P :=
  ⟨.pure h, [], a, h⟩

/-- Making something else of what is read. -/
theorem Tells.map {g : α → β} (hp : Tells p P) (h : ∀ ts a, P ts a → S ts (g a)) :
    Tells (g <$> p) S := by
  rw [map_eq_pure_bind]
  refine .bind hp fun ts a hts => .pure ?_
  rw [List.append_nil]
  exact h ts a hts

theorem answers_unexpected (h : Begins P []) (expected : Expected) :
    Answers pre (unexpected expected : Reading α) P where
  finds s a m _ _ hrun := by cases hrun
  falters s e m _ _ hrun := by
    cases hrun
    exact ⟨[], s, .refl s, rfl, rfl, h⟩

theorem tells_outOfFuel (h : Begins P []) : Tells (outOfFuel : Reading α) P where
  finds s a m _ _ hrun := by cases hrun
  falters s e m _ _ hrun := by
    cases hrun
    trivial
  begins := h

/-! ## Tokens -/

/-- The next token is one that text can have, or the end of the text. -/
theorem Answers.token {f : Token → Reading β}
    (h : ∀ t, t = .endOfText ∨ t.isSpellable = true → Answers (· = t) (f t) S) :
    Answers pre (token >>= f) S where
  finds s b m hs _ hrun := by
    rw [run_bind_ok (run_token s)] at hrun
    exact (h s.token hs).finds s b m hs rfl hrun
  falters s e m hs _ hrun := by
    rw [run_bind_ok (run_token s)] at hrun
    exact (h s.token hs).falters s e m hs rfl hrun

theorem Tells.isAt {f : Bool → Reading β} (h : ∀ found, Tells (f found) S) :
    Tells (isAt t >>= f) S where
  finds s b m hs hpre hrun := by
    rw [run_bind_ok (run_isAt t s)] at hrun
    exact (h _).finds s b m hs hpre hrun
  falters s e m hs hpre hrun := by
    rw [run_bind_ok (run_isAt t s)] at hrun
    exact (h _).falters s e m hs hpre hrun
  begins := (h true).begins

/-- A reading that goes one way if the token `t` is next, and another if it is not. -/
theorem Answers.fork (hp : ∀ s, p.run s = if s.token = t then q.run s else r.run s)
    (hq : Answers (· = t) q P) (hr : Answers pre r P) : Answers pre p P := by
  refine ⟨fun s a m hs hpre hrun => ?_, fun s e m hs hpre hrun => ?_⟩ <;> rw [hp] at hrun
  · split at hrun
    · rename_i hat
      exact hq.finds s a m hs hat hrun
    · exact hr.finds s a m hs hpre hrun
  · split at hrun
    · rename_i hat
      exact hq.falters s e m hs hat hrun
    · exact hr.falters s e m hs hpre hrun

/-- Passing over the next token, where it is this one. -/
theorem Answers.past (ht : t ≠ .endOfText) (hp : PassesOver t p q)
    (h : Tells q fun us a => P (t :: us) a) : Answers (· = t) p P := by
  refine ⟨?_, ?_⟩
  · rintro s a m hs rfl hrun
    rcases hnext : s.scanner.next with ⟨e | u, scanner⟩
    · obtain ⟨k, herror⟩ := (hp s rfl).2 e scanner hnext
      cases hrun.symm.trans herror
    · rw [(hp s rfl).1 u scanner hnext] at hrun
      obtain ⟨us, hus, ha⟩ := h.finds _ a m (Session.scanned_passed hnext) trivial hrun
      exact ⟨s.token :: us, (Session.passes_step hnext ht).append hus, ha⟩
  · rintro s e m hs rfl hrun
    rcases hnext : s.scanner.next with ⟨e' | u, scanner⟩
    · obtain ⟨k, herror⟩ := (hp s rfl).2 e' scanner hnext
      cases hrun.symm.trans herror
      exact ⟨[], s, scanner, .refl s, hnext, .inl h.begins⟩
    · rw [(hp s rfl).1 u scanner hnext] at hrun
      exact .behind (Session.passes_step hnext ht)
        (h.falters _ e m (Session.scanned_passed hnext) trivial hrun)

theorem Answers.advance {f : Unit → Reading β} (ht : t ≠ .endOfText)
    (h : Tells (f ()) fun us b => S (t :: us) b) : Answers (· = t) (advance >>= f) S :=
  .past ht passesOver_advance h

theorem answers_advance (ht : t ≠ .endOfText) : Answers (· = t) advance fun ts _ => ts = [t] := by
  rw [← bind_pure advance]
  exact .advance ht (.pure rfl)

theorem tells_consume (ht : t ≠ .endOfText) :
    Tells (consume t) fun ts found => ts = if found then [t] else [] :=
  ⟨.fork (run_consume t) (.advance ht (.pure rfl)) (.pure rfl), [], false, rfl⟩

/-- A token is passed over, or it is not there. -/
theorem Tells.consume {f : Bool → Reading β} (ht : t ≠ .endOfText)
    (h : Tells (f true) fun us b => S (t :: us) b) (hnot : Tells (f false) S) :
    Tells (consume t >>= f) S := by
  refine .bind (tells_consume ht) ?_
  rintro _ found rfl
  cases found with
  | true => exact h
  | false => exact hnot

theorem tells_expect (ht : t ≠ .endOfText) : Tells (expect t) fun ts _ => ts = [t] :=
  ⟨.fork (run_expect t) (answers_advance ht) (answers_unexpected ⟨[t], (), rfl⟩ _), [t], (), rfl⟩

theorem Tells.expect {f : Unit → Reading β} (ht : t ≠ .endOfText)
    (h : Tells (f ()) fun us b => S (t :: us) b) : Tells (expect t >>= f) S :=
  .bind (tells_expect ht) fun _ _ hts => hts ▸ h

theorem tells_identifier :
    Tells identifier fun ts name => isIdentifier name = true ∧ ts = [.identifier name] := by
  have hbegins : Begins (fun ts name => isIdentifier name = true ∧ ts = [.identifier name]) [] :=
    ⟨[.identifier "a"], "a", by decide, rfl⟩
  refine ⟨.token fun t ht => ?_, hbegins⟩
  split
  · exact .advance nofun (.pure ⟨ht.resolve_left nofun, rfl⟩)
  · exact answers_unexpected hbegins _

theorem Tells.identifier {f : String → Reading β}
    (h : ∀ name, isIdentifier name = true →
      Tells (f name) fun us b => S (.identifier name :: us) b) :
    Tells (identifier >>= f) S :=
  .bind tells_identifier fun _ name hts => hts.2 ▸ h name hts.1

/-- A reading that takes the next token before it looks at it. -/
theorem tells_bump {f : Text.Position → Token → Reading β} (expected : Expected)
    (hbegins : Begins S [.integer 0])
    (h : ∀ t, (t ≠ .endOfText ∧ (∀ place, f place t = f .start t) ∧
        (t.isSpellable = true → Tells (f .start t) fun us b => S (t :: us) b)) ∨
      ∀ place, f place t = fail (.unexpected place expected t)) :
    Tells (do let place ← position; let t ← bump; f place t) S := by
  have hbegins' : Begins S [] := by
    obtain ⟨us, b, hus⟩ := hbegins
    exact ⟨.integer 0 :: us, b, hus⟩
  have hfits {t : Token} (ht : t = .endOfText ∨ t.isSpellable = true) (hend : t ≠ .endOfText)
      (hplace : ∀ place, f place t = f .start t)
      (htells : t.isSpellable = true → Tells (f .start t) fun us b => S (t :: us) b) :
      Answers (· = t) (do let place ← position; let t ← bump; f place t) S :=
    .past hend (.position fun place => hplace place ▸ passesOver_bump)
      (htells (ht.resolve_left hend))
  refine ⟨⟨fun s b m hs _ hrun => ?_, fun s e m hs _ hrun => ?_⟩, hbegins'⟩ <;>
    obtain ⟨hend, hplace, htells⟩ | hunfit := h s.token
  · exact (hfits hs hend hplace htells).finds s b m hs rfl hrun
  · rw [run_bump_unfit hunfit] at hrun
    split at hrun <;> cases hrun
  · exact (hfits hs hend hplace htells).falters s e m hs rfl hrun
  · rw [run_bump_unfit hunfit] at hrun
    split at hrun <;> cases hrun
    · exact ⟨[], s, .refl s, rfl, rfl, hbegins'⟩
    · rename_i hnext
      exact ⟨[], s, _, .refl s, hnext, .inr hbegins⟩

/-! ## Nesting -/

/-- A reading that passes over nothing and does not find a token unfit. -/
theorem Tells.quiet (a : α) (hgives : ∀ s b m, p.run s = (.ok b, m) → s.Passes [] m)
    (hfails : ∀ s e m, p.run s = (.error e, m) → ∃ place limit, e = .tooDeep place limit) :
    Tells p fun ts _ => ts = [] where
  finds s b m _ _ hrun := ⟨[], hgives s b m hrun, rfl⟩
  falters s e m _ _ hrun := by
    obtain ⟨place, limit, rfl⟩ := hfails s e m hrun
    trivial
  begins := ⟨[], a, rfl⟩

theorem tells_descend : Tells descend fun ts _ => ts = [] := by
  refine .quiet () (fun s b m hrun => ?_) fun s e m hrun => ?_
  · rw [run_descend] at hrun
    split at hrun <;> cases hrun
    exact .refl s
  · rw [run_descend] at hrun
    split at hrun <;> cases hrun
    exact ⟨_, _, rfl⟩

theorem tells_release (levels : Nat) : Tells (release levels) fun ts _ => ts = [] := by
  refine .quiet () (fun s b m hrun => ?_) fun s e m hrun => by cases hrun
  cases hrun
  exact .refl s

theorem tells_note (name : CallName) :
    Tells (modify fun s => { s with calls := name :: s.calls } : Reading Unit) fun ts _ => ts = [] := by
  refine .quiet () (fun s b m hrun => ?_) fun s e m hrun => by cases hrun
  cases hrun
  exact .done rfl

/-- A reading one level deeper. -/
theorem Tells.nested {g : α → β} (hp : Tells p P) (h : ∀ ts a, P ts a → S ts (g a)) :
    Tells (do descend; let a ← p; ascend; return g a) S := by
  refine .bind tells_descend fun _ _ hnil => .bind hp fun ts a hts =>
    .bind (tells_release 1) fun _ _ hnil' => .pure ?_
  subst hnil hnil'
  rw [List.append_nil, List.append_nil]
  exact h ts a hts

/-! ## Chains and lists -/

/-- The beginning of a link with its tokens, or nothing. -/
def Link {γ : Type} (O : List Token → γ → Prop) (ts : List Token) : Option γ → Prop
  | some o => O ts o
  | none => ts = []

/-- A chain: what its links so far make up is `C`, and each link keeps it so. -/
theorem tells_chain {γ : Type} {operator : Reading (Option γ)} {link : α → γ → Reading α}
    {C : Nat → List Token → α → Prop} {O : List Token → γ → Prop}
    (hoperator : Tells operator (Link O))
    (hlink : ∀ links ts l ots o, C links ts l → O ots o →
      Tells (link l o) fun us e => C (links + 1) (ts ++ (ots ++ us)) e)
    {fuel levels links : Nat} {ts : List Token} {first : α} (hfirst : C links ts first) :
    Tells (chain operator link fuel levels first) fun us e => ∃ links', C links' (ts ++ us) e := by
  induction fuel generalizing levels links ts first with
  | zero => exact tells_outOfFuel ⟨[], first, links, by simpa using hfirst⟩
  | succ fuel ih =>
    rw [chain]
    refine .bind hoperator fun ots o? hots => ?_
    cases o? with
    | none =>
      subst hots
      refine .bind (tells_release levels) fun _ _ hnil => .pure ?_
      subst hnil
      exact ⟨links, by simpa using hfirst⟩
    | some o =>
      refine .bind tells_descend fun _ _ hnil => .bind (hlink links ts first ots o hfirst hots)
        fun us next hnext => .weaken (ih hnext) fun vs e he => ?_
      subst hnil
      simpa using he

/-- Items between commas. -/
theorem tells_list {P : Phrase α} (hp : TellsPhrase p P) {fuel : Nat} :
    TellsPhrase (list p fuel) (ListOf P) := by
  induction fuel with
  | zero =>
    obtain ⟨us, a, n, ha⟩ := hp.begins
    exact tells_outOfFuel ⟨us, [a], n, .single ha⟩
  | succ fuel ih =>
    rw [list]
    refine .bind hp fun ts a ⟨n, ha⟩ => .consume nofun ?_ ?_
    · refine .bind ih fun us as ⟨m, has⟩ => .pure ⟨max n m, ?_⟩
      rw [List.append_nil]
      exact .cons ha has
    · refine .pure ⟨n, ?_⟩
      rw [List.append_nil]
      exact .single ha

/-- Items between commas up to a closing token. -/
theorem tells_delimited {P : Phrase α} (hp : TellsPhrase p P) (close : Token)
    (hclose : close ≠ .endOfText) {fuel : Nat} :
    Tells (delimited close p fuel) fun ts as => ∃ us n, ts = us ++ [close] ∧ Items P us as n := by
  unfold delimited
  refine .consume hclose (.pure ⟨[], 0, rfl, .none⟩) ?_
  exact .bind (tells_list hp) fun us as ⟨n, has⟩ => .expect hclose (.pure ⟨us, n, rfl, .some has⟩)

end

end DocQuery.Reading
