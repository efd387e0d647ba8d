import DocQuery.Proofs.Grammar.Children
import DocQuery.Proofs.Grammar.Induction

/-!
# The levels that are counted

A link counts for what stands behind it, not for what stands before it and has been read by then. So
a path that never goes to what stands before a link has fewer levels than may nest, and each step to
such a part may add one: `nests_levels`.
-/

namespace DocQuery.Grammar

/-- What is taken for granted of the phrases between brackets. -/
structure NestingInner (E : Phrase Scalar) (Q : Phrase Query) : Prop where
  expression : ∀ {ts e n}, E ts e n → ∃ m, (Node.scalar e).Nests m ∧ m + 1 ≤ n
  query : ∀ {ts q n}, Q ts q n → ∃ m, (Node.query q).Nests m ∧ m + 1 ≤ n

section

variable {E : Phrase Scalar} {Q : Phrase Query} {ts : List Token} {n : Nat}

theorem NestingInner.scalar (h : NestingInner E Q) {e m} (he : E ts e m) (hm : m ≤ n) :
    (Node.scalar e).Nests n := by
  obtain ⟨k, hk, hle⟩ := h.expression he
  exact hk.mono (by omega)

/-- A link with its operands behind it. -/
theorem nests_link {e : Scalar} {links m : Nat} (hlevel : (Node.scalar e).isLevel = true)
    (hearlier : ∀ b ∈ (Node.scalar e).earlier, b.Nests n)
    (hlater : ∀ b ∈ (Node.scalar e).later, b.Nests m) :
    (Node.scalar e).Nests (max n (links + 1 + m)) :=
  Node.nests_level hlevel (fun b hb => (hearlier b hb).mono (Nat.le_max_left _ _)) hlater (by omega)

theorem IsScalar.nests (h : NestingInner E Q) {level links e}
    (he : IsScalar E Q level links ts e n) : (Node.scalar e).Nests n := by
  induction he with
  | lift _ _ ih => exact ih
  | conditional _ ha hb ih =>
    refine Node.nests_flat rfl ?_
    simp only [Node.later, Node.children, Scalar.children, List.mem_cons, List.not_mem_nil,
      or_false, forall_eq_or_imp, forall_eq]
    exact ⟨ih.mono (by omega), h.scalar ha (by omega), h.scalar hb (by omega)⟩
  | coalesce _ _ ihl ihr =>
    exact nests_link rfl (List.forall_mem_singleton.mpr ihl) (List.forall_mem_singleton.mpr ihr)
  | binary _ _ _ ihl ihr =>
    exact nests_link rfl (List.forall_mem_singleton.mpr ihl) (List.forall_mem_singleton.mpr ihr)
  | between _ _ _ ihs ihl ihh =>
    refine nests_link rfl (List.forall_mem_singleton.mpr ihs) ?_
    simp only [Node.later, List.mem_cons, List.not_mem_nil, or_false, forall_eq_or_imp, forall_eq]
    exact ⟨ihl.mono (Nat.le_max_left _ _), ihh.mono (Nat.le_max_right _ _)⟩
  | among _ hes ihs =>
    exact nests_link rfl (List.forall_mem_singleton.mpr ihs) (hes.forall_scalar h.scalar)
  | unary _ ih => exact Node.nests_level rfl (List.forall_mem_nil _) (List.forall_mem_singleton.mpr ih) le_rfl
  | property _ _ ih =>
    exact nests_link (m := 0) rfl (List.forall_mem_singleton.mpr ih) (List.forall_mem_nil _)
  | index _ he ih =>
    exact nests_link rfl (List.forall_mem_singleton.mpr ih)
      (List.forall_mem_singleton.mpr (h.scalar he le_rfl))
  | literal | parameter | name => exact Node.nests_flat rfl (List.forall_mem_nil _)
  | group he => exact h.scalar he le_rfl
  | call _ hes => exact Node.nests_flat rfl (hes.forall_scalar h.scalar)
  | array hes => exact Node.nests_flat rfl (hes.forall_scalar h.scalar)
  | object hfields => exact Node.nests_flat rfl (hfields.forall_field h.scalar)
  | subquery hq =>
    obtain ⟨m, hm, hle⟩ := h.query hq
    exact Node.nests_level rfl (List.forall_mem_nil _) (List.forall_mem_singleton.mpr hm) hle

/-! ## Sources -/

theorem IsCollection.nests (h : NestingInner E Q) {c} (hc : IsCollection E Q ts c n) :
    (Node.collection c).Nests n := by
  cases hc with
  | path _ hpath =>
    refine Node.nests_flat rfl ?_
    rw [← hpath.length_eq]
    exact Node.nests_steps _
  | subquery hq =>
    obtain ⟨m, hm, hle⟩ := h.query hq
    exact Node.nests_level rfl nofun (List.forall_mem_singleton.mpr hm) hle
  | array hes => exact Node.nests_flat rfl (hes.forall_scalar h.scalar)

theorem IsOperand.nests (h : NestingInner E Q) {s} (hs : IsOperand E Q ts s n) :
    (Node.source s).Nests n := by
  cases hs with
  | each _ hc => exact Node.nests_flat rfl (List.forall_mem_singleton.mpr (hc.nests h))
  | aliased hc _ => exact Node.nests_flat rfl (List.forall_mem_singleton.mpr (hc.nests h))

theorem IsJoined.nests (h : NestingInner E Q) {links s} (hs : IsJoined E Q links ts s n) :
    (Node.source s).Nests n := by
  induction hs with
  | operand hs => exact hs.nests h
  | join _ hr ih =>
    exact Node.nests_level rfl (List.forall_mem_singleton.mpr (ih.mono (Nat.le_max_left _ _)))
      (List.forall_mem_singleton.mpr (hr.nests h)) (by omega)

theorem IsSource.nests (h : NestingInner E Q) {s} (hs : IsSource E Q ts s n) :
    (Node.source s).Nests n := by
  cases hs with
  | mk hs => exact hs.nests h

/-! ## Clauses -/

theorem IsCount.nests {e} (h : IsCount ts e n) (m : Nat) : (Node.scalar e).Nests m := by
  cases h <;> exact Node.nests_flat rfl nofun

theorem IsClauses.nests (h : NestingInner E Q) {q} (hq : IsClauses E Q ts q n) :
    (Node.query q).Nests n :=
  Node.nests_flat rfl
    (hq.forall_children (fun he => he.nests _) h.scalar fun hs hm => (hs.nests h).mono hm)

end

/-! ## The whole grammar -/

/-- Whole expressions and queries nest less than they count. -/
theorem nests_levels (n : Nat) :
    Phrase.Upto n IsExpression (fun _ e n => ∃ m, (Node.scalar e).Nests m ∧ m + 1 ≤ n) ∧
    Phrase.Upto n IsQuery (fun _ q n => ∃ m, (Node.query q).Nests m ∧ m + 1 ≤ n) := by
  have hinner : NestingInner (fun _ e n => ∃ m, (Node.scalar e).Nests m ∧ m + 1 ≤ n)
      (fun _ q n => ∃ m, (Node.query q).Nests m ∧ m + 1 ≤ n) := ⟨id, id⟩
  exact induction_levels (fun he => ⟨_, he.nests hinner, le_rfl⟩)
    (fun hq => ⟨_, hq.nests hinner, le_rfl⟩) n

end DocQuery.Grammar
