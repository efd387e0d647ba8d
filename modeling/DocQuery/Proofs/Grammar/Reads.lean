import DocQuery.Proofs.Grammar.Follow
import DocQuery.Proofs.Grammar.Session

/-!
# Readings that give a tree

`Reads p ts a n F`: where the tokens `ts` come next and behind them one that `F` allows, the reading
`p` passes over just `ts` and gives `a`, if `n` more levels may nest; if they may not, it fails for
that reason and no other. `ReadsFrom levels` is the same for a reading that begins with `levels`
levels open and gives them back.

There is a rule for each part that readings are made of. The levels of a reading in steps are the
most that one of the steps takes (`Reads.bind`).
-/

namespace DocQuery

open Grammar

namespace Reading

variable {α β : Type}

/-- What may come behind. -/
abbrev Follow : Type := Token → Prop

/-- Anything may come behind. -/
def Anything : Follow := fun _ => True

/-- The first of the tokens `ts` is one that `F` allows; if there is none, so are those that may
come behind `ts`. -/
def Meets (F G : Follow) : List Token → Prop
  | [] => ∀ t, G t → F t
  | t :: _ => F t

/-- The reading takes `s` to a session like `s'` and gives `a`, if levels may nest up to the depth
`top`; if they may not, it fails for that reason. -/
def Gives (p : Reading α) (s : Session) (top : Nat) (a : α) (s' : Session) : Prop :=
  (top ≤ s.limit → ∃ s'', s'.Like s'' ∧ p.run s = (.ok a, s'')) ∧
  (s.limit < top → ∃ place s'', p.run s = (.error (.tooDeep place s.limit), s''))

/-- Where the tokens `ts` come next, a reading that begins with `levels` levels open passes over
them, gives `a`, and gives the levels back. -/
def ReadsFrom (levels : Nat) (p : Reading α) (ts : List Token) (a : α) (n : Nat) (F : Follow) :
    Prop :=
  ∀ s s' : Session, s.Leads ts s' → F s'.token → s.depth + levels ≤ s.limit →
    Gives p { s with depth := s.depth + levels } (s.depth + n) a s'

/-- Where the tokens `ts` come next, the reading passes over them and gives `a`. -/
def Reads (p : Reading α) (ts : List Token) (a : α) (n : Nat) (F : Follow) : Prop :=
  ∀ s s' : Session, s.Leads ts s' → F s'.token → s.depth ≤ s.limit → Gives p s (s.depth + n) a s'

section

variable {p : Reading α} {f : α → Reading β} {ts us : List Token} {a : α} {b : β} {n m : Nat}
  {F G : Follow}

theorem meets_of_starts {T : Token → Prop} (h : Starts T ts) (hT : ∀ t, T t → F t) :
    Meets F G ts := by
  obtain ⟨t, us, rfl, ht⟩ := h
  exact hT t ht

theorem meets_anything (us : List Token) : Meets Anything G us := by
  cases us <;> simp [Meets, Anything]

theorem Meets.token {s s' : Session} (h : Meets F G us) (hs : s.Leads us s') (hG : G s'.token) :
    F s.token := by
  cases us with
  | nil =>
    cases hs with
    | done hlike =>
      rw [hlike.token] at hG
      exact h _ hG
  | cons u us => rwa [hs.token_eq]

theorem Gives.bind {s mid s' : Session} {top top' : Nat} (hp : Gives p s top a mid)
    (hlimit : mid.limit = s.limit)
    (hf : ∀ m, mid.Like m → top ≤ s.limit → Gives (f a) m top' b s') :
    Gives (p >>= f) s (max top top') b s' := by
  by_cases htop : top ≤ s.limit
  · obtain ⟨m, hlike, hrun⟩ := hp.1 htop
    obtain ⟨hok, hdeep⟩ := hf m hlike htop
    rw [hlike.limit, hlimit] at hok hdeep
    unfold Gives
    rw [run_bind_ok hrun]
    exact ⟨fun hle => hok (by omega), fun hlt => hdeep (by omega)⟩
  · obtain ⟨place, m, hrun⟩ := hp.2 (by omega)
    exact ⟨fun hle => by omega, fun _ => ⟨place, m, run_bind_error hrun⟩⟩

theorem Gives.pure {s s' : Session} (h : s'.Like s) (hdepth : s.depth ≤ s.limit) :
    Gives (Pure.pure a : Reading α) s s.depth a s' :=
  ⟨fun _ => ⟨s, h, rfl⟩, fun hlt => by omega⟩

theorem reads_iff : Reads p ts a n F ↔ ReadsFrom 0 p ts a n F := Iff.rfl

theorem Reads.weaken (h : Reads p ts a n F) (hG : ∀ t, G t → F t) : Reads p ts a n G :=
  fun s s' hs hF => h s s' hs (hG _ hF)

/-- One reading after another. -/
theorem ReadsFrom.bind {levels : Nat} (hp : ReadsFrom levels p ts a n F) (hf : Reads (f a) us b m G)
    (h : Meets F G us) : ReadsFrom levels (p >>= f) (ts ++ us) b (max n m) G := by
  intro s s' hs hG hdepth
  obtain ⟨mid, h₁, h₂⟩ := hs.split
  have hp := hp s mid h₁ (h.token h₂ hG) hdepth
  rw [← Nat.add_max_add_left]
  refine hp.bind h₁.limit fun m' hlike _ => ?_
  have hf := hf m' s' (h₂.like_left hlike.symm) hG
  rw [hlike.depth, hlike.limit, h₁.depth, h₁.limit] at hf
  exact hf (by omega)

theorem Reads.bind (hp : Reads p ts a n F) (hf : Reads (f a) us b m G) (h : Meets F G us) :
    Reads (p >>= f) (ts ++ us) b (max n m) G :=
  reads_iff.mpr ((reads_iff.mp hp).bind hf h)

theorem Reads.pure (a : α) : Reads (Pure.pure a) [] a 0 F := by
  intro s s' hs _ hdepth
  cases hs with
  | done hlike => exact Gives.pure hlike.symm hdepth

/-- Passing over a token before all else. -/
theorem Reads.bind_one {t : Token} (hp : Reads p [t] a 0 Anything) (hf : Reads (f a) us b m G) :
    Reads (p >>= f) (t :: us) b m G := by
  simpa using Reads.bind hp hf (meets_anything us)

/-- Looking at what comes next before all else. -/
theorem Reads.bind_look (hp : Reads p [] a 0 F) (hf : Reads (f a) us b m G) (h : Meets F G us) :
    Reads (p >>= f) us b m G := by
  simpa using Reads.bind hp hf h

/-- What comes after nests no deeper. -/
theorem Reads.bind_zero (hp : Reads p ts a n F) (hf : Reads (f a) us b 0 G) (h : Meets F G us) :
    Reads (p >>= f) (ts ++ us) b n G := by
  simpa using Reads.bind hp hf h

/-- What comes after passes over nothing. -/
theorem Reads.bind_last (hp : Reads p ts a n F) (hf : Reads (f a) [] b 0 G) (h : ∀ t, G t → F t) :
    Reads (p >>= f) ts b n G := by
  have hmeets : Meets F G [] := h
  simpa using Reads.bind hp hf hmeets

/-- Making something else of what is read. -/
theorem Reads.map {g : α → β} (hp : Reads p ts a n F) : Reads (g <$> p) ts (g a) n F := by
  rw [map_eq_pure_bind]
  exact .bind_last hp (.pure _) fun _ h => h

/-! ## Tokens -/

theorem reads_advance (t : Token) : Reads advance [t] () 0 Anything := by
  intro s s' hs _ hdepth
  cases hs with
  | step hnext _ hrest =>
    cases hrest with
    | done hlike =>
      refine ⟨fun _ => ⟨_, hlike.symm, ?_⟩, fun hlt => by omega⟩
      rw [run_advance, hnext]

theorem reads_bump (t : Token) : Reads bump [t] t 0 Anything := by
  intro s s' hs _ hdepth
  cases hs with
  | step hnext _ hrest =>
    cases hrest with
    | done hlike =>
      refine ⟨fun _ => ⟨_, hlike.symm, ?_⟩, fun hlt => by omega⟩
      rw [run_bump, hnext]

/-- The token that comes next, among the tokens `us` or behind them. -/
theorem Leads.next {s s' : Session} (hs : s.Leads us s') :
    (us = [] → s'.token = s.token) ∧ ∀ t vs, us = t :: vs → s.token = t := by
  constructor
  · rintro rfl
    cases hs with
    | done hlike => exact hlike.token
  · rintro t vs rfl
    exact hs.token_eq

theorem Reads.token_cons {f : Token → Reading β} {t : Token} (h : Reads (f t) (t :: us) b m G) :
    Reads (token >>= f) (t :: us) b m G := by
  intro s s' hs hG hdepth
  unfold Gives
  rw [run_bind_ok (run_token s), hs.token_eq]
  exact h s s' hs hG hdepth

theorem Reads.token_nil {f : Token → Reading β} (h : ∀ t, G t → Reads (f t) [] b m (· = t)) :
    Reads (token >>= f) [] b m G := by
  intro s s' hs hG hdepth
  have htoken := (Leads.next hs).1 rfl
  unfold Gives
  rw [run_bind_ok (run_token s)]
  exact h s.token (by rwa [← htoken]) s s' hs htoken hdepth

theorem Reads.position {f : Text.Position → Reading β} (h : ∀ place, Reads (f place) ts b m G) :
    Reads (position >>= f) ts b m G := by
  intro s s' hs hG hdepth
  unfold Gives
  rw [run_bind_ok (run_position s)]
  exact h s.position s s' hs hG hdepth

theorem Reads.isAt_cons {f : Bool → Reading β} {t u : Token}
    (h : Reads (f (u == t)) (u :: us) b m G) : Reads (isAt t >>= f) (u :: us) b m G := by
  intro s s' hs hG hdepth
  unfold Gives
  rw [run_bind_ok (run_isAt t s), hs.token_eq]
  exact h s s' hs hG hdepth

theorem Reads.isAt_nil {f : Bool → Reading β} {t : Token} (hne : ∀ u, G u → u ≠ t)
    (h : Reads (f false) [] b m G) : Reads (isAt t >>= f) [] b m G := by
  intro s s' hs hG hdepth
  have htoken := (Leads.next hs).1 rfl
  have hne : (s.token == t) = false := by
    rw [beq_eq_false_iff_ne, ← htoken]
    exact hne _ hG
  unfold Gives
  rw [run_bind_ok (run_isAt t s), hne]
  exact h s s' hs hG hdepth

theorem reads_consume (t : Token) : Reads (consume t) [t] true 0 Anything := by
  unfold consume
  apply Reads.isAt_cons
  rw [beq_self_eq_true]
  exact .bind_one (reads_advance t) (.pure true)

theorem reads_consume_not (t : Token) : Reads (consume t) [] false 0 (· ≠ t) := by
  unfold consume
  exact .isAt_nil (fun _ h => h) (.pure false)

theorem reads_expect (t : Token) : Reads (expect t) [t] () 0 Anything := by
  unfold expect
  apply Reads.isAt_cons
  rw [beq_self_eq_true]
  exact reads_advance t

theorem reads_identifier (name : String) : Reads identifier [.identifier name] name 0 Anything := by
  unfold identifier
  apply Reads.token_cons
  exact .bind_one (reads_advance _) (.pure name)

/-- A call is noted. -/
theorem reads_note (name : CallName) :
    Reads (modify fun s => { s with calls := name :: s.calls }) [] () 0 F := by
  intro s s' hs _ hdepth
  have hnote : s.Like { s with calls := name :: s.calls } := rfl
  cases hs with
  | done hlike => exact ⟨fun _ => ⟨_, hlike.symm.trans hnote, rfl⟩, fun hlt => by omega⟩

/-- A token that is not there is not passed over. -/
theorem Reads.consume_not {f : Bool → Reading β} {t : Token} (hne : Meets (· ≠ t) G us)
    (h : Reads (f false) us b m G) : Reads (consume t >>= f) us b m G :=
  .bind_look (reads_consume_not t) h hne

/-! ## Nesting -/

theorem gives_descend (s : Session) :
    Gives descend s (s.depth + 1) () { s with depth := s.depth + 1 } := by
  unfold Gives
  rw [run_descend]
  constructor
  · intro hle
    exact ⟨_, .refl _, if_neg (by omega)⟩
  · intro hlt
    exact ⟨_, _, if_pos (by omega)⟩

/-- Levels are given back before a value that is there already. -/
theorem gives_release {levels d : Nat} {s s' : Session} (a : α)
    (h : { s' with depth := d }.Like s) (hd : d - levels = s'.depth) (hlimit : s.depth ≤ s.limit) :
    Gives (do release levels; return a) s s.depth a s' := by
  refine ⟨fun _ => ⟨{ s with depth := s.depth - levels }, ?_, rfl⟩, fun hlt => by omega⟩
  have hdepth : s.depth = d := h.depth
  rw [hdepth, hd]
  exact h.withDepth s'.depth

/-- A reading one level deeper. -/
theorem Reads.nested {g : α → β} (hp : Reads p ts a n F) :
    Reads (do descend; let a ← p; ascend; return g a) ts (g a) (n + 1) F := by
  intro s s' hs hF _
  have htop : s.depth + (n + 1) = max (s.depth + 1) (max (s.depth + 1 + n) (s.depth + 1)) := by omega
  rw [htop]
  refine (gives_descend s).bind rfl fun m hlike hle => ?_
  have hlimit : m.limit = s.limit := hlike.limit
  have hp := hp m _ ((hs.withDepth (s.depth + 1)).like_left hlike.symm) hF
  rw [show m.depth = s.depth + 1 from hlike.depth, hlimit] at hp
  refine (hp hle).bind (hs.limit.trans hlimit.symm) fun m' hlike' _ => ?_
  have hdepth : m'.depth = s.depth + 1 := hlike'.depth
  have hlimit' : m'.limit = s.limit := hlike'.limit.trans hs.limit
  rw [← hdepth]
  exact gives_release (g a) hlike' hs.depth.symm (by omega)

/-! ## Chains -/

section

variable {γ : Type} {operator : Reading (Option γ)} {link : α → γ → Reading α} {fuel levels : Nat}
  {first next : α} {o : γ} {ots vs : List Token} {Fo Fl : Follow}

/-- The end of a chain: nothing follows that would go on with it. -/
theorem ReadsFrom.chain_stop (h : Reads operator [] none 0 F) :
    ReadsFrom levels (chain operator link (fuel + 1) levels first) [] first 0 F := by
  intro s s' hs hF hdepth
  have ho := h { s with depth := s.depth + levels } _ (hs.withDepth _) hF hdepth
  refine ⟨fun _ => ?_, fun hlt => absurd hlt (by simp only; omega)⟩
  obtain ⟨m, hlike, hrun⟩ := ho.1 hdepth
  have hd : m.depth = s.depth + levels := hlike.depth
  have hl : m.limit = s.limit := hlike.limit.trans hs.limit
  have hbase : s.depth + levels - levels = s'.depth := by rw [Nat.add_sub_cancel, hs.depth]
  obtain ⟨m', hlike', hrun'⟩ := (gives_release first hlike hbase (by omega)).1 (by omega)
  exact ⟨m', hlike', by rw [chain, run_bind_ok hrun]; exact hrun'⟩

/-- A link of a chain, and the rest of the chain behind it. -/
theorem ReadsFrom.chain_link (ho : Reads operator ots (some o) 0 Fo)
    (hlink : Reads (link first o) us next m Fl)
    (hrest : ReadsFrom (levels + 1) (chain operator link fuel (levels + 1) next) vs a n G)
    (hFo : Meets Fo G (us ++ vs)) (hFl : Meets Fl G vs) :
    ReadsFrom levels (chain operator link (fuel + 1) levels first) (ots ++ (us ++ vs)) a
      (max (levels + 1 + m) n) G := by
  intro s s' hs hG hdepth
  obtain ⟨s₁, h₁, hs⟩ := hs.split
  obtain ⟨s₂, h₂, h₃⟩ := hs.split
  have hdepth₁ := h₁.depth
  have hdepth₂ := h₂.depth
  have hlimit₁ := h₁.limit
  have hlimit₂ := h₂.limit
  have htop : s.depth + max (levels + 1 + m) n = max (s.depth + levels + 0)
      (max (s.depth + levels + 1) (max (s.depth + levels + 1 + m) (s.depth + n))) := by omega
  rw [htop]
  -- Find the operator, go one level deeper, read the link, go on with the chain.
  refine (ho { s with depth := s.depth + levels } { s₁ with depth := s.depth + levels }
    (h₁.withDepth _) (hFo.token (s := s₁) hs hG) hdepth).bind hlimit₁ fun m₁ hlike₁ _ => ?_
  have hd₁ : m₁.depth = s.depth + levels := hlike₁.depth
  have hl₁ : m₁.limit = s.limit := hlike₁.limit.trans hlimit₁
  have hdescend := gives_descend m₁
  rw [hd₁] at hdescend
  refine hdescend.bind rfl fun m₂ hlike₂ hle => ?_
  rw [hl₁] at hle
  have hlike : { s₁ with depth := s.depth + levels + 1 }.Like m₂ :=
    (hlike₁.withDepth (s.depth + levels + 1)).trans hlike₂
  have hd₂ : m₂.depth = s.depth + levels + 1 := hlike.depth
  have hl₂ : m₂.limit = s.limit := hlike.limit.trans hlimit₁
  have hlink := hlink m₂ _ ((h₂.withDepth _).like_left hlike.symm) (hFl.token (s := s₂) h₃ hG)
    (by omega)
  rw [hd₂] at hlink
  refine hlink.bind ?_ fun m₃ hlike₃ _ => ?_
  · exact (hlimit₂.trans hlimit₁).trans hl₂.symm
  · have hself : { s₂ with depth := s.depth } = s₂ := by rw [← hdepth₁, ← hdepth₂]
    have hbase := hlike₃.symm.withDepth s.depth
    simp only [hself] at hbase
    have hd₃ : s.depth + (levels + 1) = m₃.depth := hlike₃.depth.symm
    have hl₃ : m₃.limit = s.limit := hlike₃.limit.trans (hlimit₂.trans hlimit₁)
    have hrest := hrest { m₃ with depth := s.depth } s' (h₃.like_left hbase) hG
      (by simp only; omega)
    simp only [hd₃] at hrest
    exact hrest

/-- The reading `whole` passes over the tokens `ts` and has then read `links` links of a chain, which
make up `e`. Whatever reads the rest of the chain from there on, the two together are the whole, if
this is `size` tokens at most. -/
def Opens (whole : Reading α) (operator : Reading (Option γ)) (link : α → γ → Reading α)
    (fuel size : Nat) (F : Follow) (links : Nat) (ts : List Token) (e : α) (n : Nat) : Prop :=
  ∀ rounds vs b m G, ts.length + vs.length ≤ size → rounds + links = fuel → Meets F G vs →
    ReadsFrom links (chain operator link rounds links e) vs b m G →
    Reads whole (ts ++ vs) b (max n m) G

variable {whole : Reading α} {size : Nat} {e l : α}

/-- The first operand of a chain. -/
theorem opens {head : Reading α} (hwhole : whole = head >>= chain operator link fuel 0)
    (h : ts.length ≤ size → Reads head ts e n F) :
    Opens whole operator link fuel size F 0 ts e n := by
  intro rounds vs b m G hsize hrounds hvs hrest
  obtain rfl : rounds = fuel := hrounds
  rw [hwhole]
  exact (h (by omega)).bind hrest hvs

/-- One more link. -/
theorem Opens.more (hl : Opens whole operator link fuel size F levels ts l n)
    (hoperator : Reads operator ots (some o) 0 Fo) (hfirst : Starts F (ots ++ us))
    (hnext : ∀ G vs, Meets Fo G (us ++ vs)) (hlink : us.length ≤ size → Reads (link l o) us e m F) :
    Opens whole operator link fuel size F (levels + 1) (ts ++ (ots ++ us)) e
      (max n (levels + 1 + m)) := by
  intro rounds vs b p G hsize hrounds hvs hrest
  simp only [List.length_append] at hsize
  have hchain := ReadsFrom.chain_link hoperator (hlink (by omega)) hrest (hnext G vs) hvs
  rw [← List.append_assoc ots us vs] at hchain
  have hwhole := hl (rounds + 1) _ b _ G (by simp only [List.length_append]; omega) (by omega)
    (meets_of_starts (hfirst.append vs) fun _ ht => ht) hchain
  rwa [List.append_assoc, max_assoc]

/-- The end of the chain. -/
theorem Opens.close (h : Opens whole operator link fuel size F levels ts e n)
    (hsize : ts.length ≤ size) (hlevels : levels < fuel) (hstop : Reads operator [] none 0 G)
    (hF : ∀ t, G t → F t) : Reads whole ts e n G := by
  obtain ⟨rounds, rfl⟩ : ∃ rounds, fuel = rounds + 1 + levels := ⟨fuel - levels - 1, by omega⟩
  simpa using h (rounds + 1) [] e 0 G hsize rfl hF (ReadsFrom.chain_stop hstop)

end

/-! ## Lists -/

/-- Items between commas, none of them with more than `size` tokens. -/
theorem reads_list {P : Phrase α} (size : Nat) {fuel : Nat} {as : List α}
    (hitem : ∀ {ts a n}, P ts a n → ts.length ≤ size → Reads p ts a n F)
    (hcomma : F (.mark .comma)) (h : ListOf P ts as n) (hsize : ts.length ≤ size)
    (hfuel : ts.length < fuel) : Reads (list p fuel) ts as n fun t => F t ∧ t ≠ .mark .comma := by
  induction h generalizing fuel with
  | @single ts a n h =>
    obtain ⟨fuel, rfl⟩ : ∃ k, fuel = k + 1 := ⟨fuel - 1, by omega⟩
    exact .bind_last (hitem h hsize) (.consume_not (fun t ht => ht.2) (.pure _)) fun t ht => ht.1
  | @cons ts us a as n m h hs ih =>
    obtain ⟨fuel, rfl⟩ : ∃ k, fuel = k + 1 := ⟨fuel - 1, by omega⟩
    simp only [List.length_append, List.length_cons] at hsize hfuel
    exact .bind (hitem h (by omega)) (.bind_one (reads_consume _)
      (.bind_last (ih (by omega) (by omega)) (.pure _) fun t ht => ht)) hcomma

/-- Items between commas up to a closing token, which none of them begins with. -/
theorem reads_delimited {P : Phrase α} {T : Token → Prop} (size : Nat) {fuel : Nat}
    {as : List α} {close : Token}
    (hitem : ∀ {ts a n}, P ts a n → ts.length ≤ size → Reads p ts a n F)
    (hstarts : ∀ {ts a n}, P ts a n → Starts T ts) (hT : ∀ t, T t → t ≠ close)
    (hcomma : F (.mark .comma)) (hclose : F close ∧ close ≠ .mark .comma) (h : Items P ts as n)
    (hsize : ts.length ≤ size) (hfuel : ts.length < fuel) :
    Reads (delimited close p fuel) (ts ++ [close]) as n Anything := by
  unfold delimited
  cases h with
  | none => exact .bind_one (reads_consume close) (.pure [])
  | some h =>
    refine .consume_not (meets_of_starts ((h.starts hstarts).append _) hT) ?_
    exact .bind_zero (reads_list size hitem hcomma h hsize hfuel)
      (.bind_one (reads_expect close) (.pure as)) hclose

end

end Reading

end DocQuery
