import DocQuery.Proofs.Grammar.Reads

/-!
# Passing over tokens at any level

* `Session.Passes s ts s'`: passing over the tokens `ts` takes `s` to a session like `s'`, whatever
  levels are open.
* `Reading.PassesOver t p q`: where the token `t` is next, `p` passes over it and goes on as `q`.
-/

namespace DocQuery

/-- Passing over the tokens `ts` takes `s` to a session like `s'`, whatever levels are open. -/
def Session.Passes (s : Session) (ts : List Token) (s' : Session) : Prop :=
  { s with depth := 0 }.Leads ts { s' with depth := 0 }

namespace Session

variable {s m s' : Session} {ts us : List Token} {t : Token}

theorem Passes.refl (s : Session) : s.Passes [] s := Leads.refl _

theorem Passes.append (h : s.Passes ts m) (h' : m.Passes us s') : s.Passes (ts ++ us) s' :=
  Leads.append h h'

theorem Passes.split (h : s.Passes (ts ++ us) s') : ∃ m, s.Passes ts m ∧ m.Passes us s' := by
  obtain ⟨m, h, h'⟩ := Leads.split h
  have hm : { m with depth := 0 } = m := by rw [show 0 = m.depth from h.depth.symm]
  exact ⟨m, by rwa [Passes, hm], by rwa [Passes, hm]⟩

theorem Passes.scanned (h : s.Passes ts s') (hs : s.Scanned) : s'.Scanned :=
  show Session.Scanned { s' with depth := 0 } from Leads.scanned (s := { s with depth := 0 }) h hs

theorem passes_step {t : Token} {scanner : Scanner} (hnext : s.scanner.next = (.ok t, scanner))
    (hend : s.token ≠ .endOfText) : s.Passes [s.token] (s.passed t scanner) :=
  .step (s := { s with depth := 0 }) hnext hend (.refl _)

theorem Passes.symm (h : s.Passes [] s') : s'.Passes [] s := by
  cases h with
  | done h => exact .done h.symm

theorem Passes.token_eq (h : s.Passes (t :: ts) s') : s.token = t :=
  Leads.token_eq (s := { s with depth := 0 }) h

theorem Passes.token_nil (h : s.Passes [] s') : s'.token = s.token := by
  cases h with
  | done h => exact h.token

theorem Passes.cons (h : s.Passes (t :: ts) s') : t ≠ .endOfText ∧
    ∃ u scanner, s.scanner.next = (.ok u, scanner) ∧ (s.passed u scanner).Passes ts s' := by
  have htoken := h.token_eq
  cases h with
  | step hnext hend hrest => exact ⟨htoken ▸ hend, _, _, hnext, hrest⟩

end Session

namespace Reading

variable {α β : Type} {q : Reading α} {t : Token}

/-- Where the token `t` is next, `p` passes over it and goes on as `q`. -/
def PassesOver (t : Token) (p q : Reading α) : Prop :=
  ∀ s, s.token = t →
    (∀ u scanner, s.scanner.next = (.ok u, scanner) → p.run s = q.run (s.passed u scanner)) ∧
    (∀ e scanner, s.scanner.next = (.error e, scanner) → ∃ m, p.run s = (.error (.scan e), m))

theorem passesOver_advance {f : Unit → Reading α} : PassesOver t (advance >>= f) (f ()) := by
  refine fun s _ => ⟨fun u scanner hnext => ?_, fun e scanner hnext => ?_⟩
  · rw [run_bind, run_advance, hnext]
  · exact ⟨_, by rw [run_bind, run_advance, hnext]⟩

theorem passesOver_bump {f : Token → Reading α} : PassesOver t (bump >>= f) (f t) := by
  refine fun s ht => ⟨fun u scanner hnext => ?_, fun e scanner hnext => ?_⟩
  · rw [run_bind, run_bump, hnext, ht]
  · exact ⟨_, by rw [run_bind, run_bump, hnext]⟩

theorem PassesOver.token {f : Token → Reading α} (h : PassesOver t (f t) q) :
    PassesOver t (Reading.token >>= f) q := by
  intro s ht
  rw [run_bind_ok (run_token s), ht]
  exact h s ht

theorem PassesOver.position {f : Text.Position → Reading α}
    (h : ∀ place, PassesOver t (f place) q) :
    PassesOver t (Reading.position >>= f) q := by
  intro s ht
  rw [run_bind_ok (run_position s)]
  exact h s.position s ht

/-- A reading that takes the next token before it looks at it: an unfit one is passed over first, and
the error says where it was. -/
theorem run_bump_unfit {f : Text.Position → Token → Reading β} {expected : Expected} {s : Session}
    (hf : ∀ place, f place s.token = fail (.unexpected place expected s.token)) :
    (do let place ← position; let t ← bump; f place t : Reading β).run s =
      match s.scanner.next with
      | (.ok u, scanner) => (.error (.unexpected s.position expected s.token), s.passed u scanner)
      | (.error e, scanner) => (.error (.scan e), { s with scanner, token := .endOfText }) := by
  rw [run_bind_ok (run_position s), run_bind, run_bump]
  rcases s.scanner.next with ⟨e | u, scanner⟩
  · rfl
  · simp only [hf]
    rfl

end Reading

end DocQuery
