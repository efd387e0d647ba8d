import DocQuery.Proofs.Grammar.Rules
import DocQuery.Proofs.Tree.Nodes

/-!
# What stands below the trees of the grammar

What holds of the whole expressions and the sources that a tree is made of holds of the nodes right
below it.

* `ListOf.forall_scalar`, `Items.forall_scalar`, `Items.forall_field`: lists of expressions.
* `IsClauses.forall_children`: the clauses of a query.
-/

namespace DocQuery.Grammar

section

variable {α : Type} {P : Phrase α} {ts : List Token} {n : Nat}

theorem ListOf.forall_mem {as} (h : ListOf P ts as n) : ∀ a ∈ as, ∃ us m, m ≤ n ∧ P us a m := by
  induction h with
  | single h =>
    intro a ha
    rw [List.mem_singleton] at ha
    exact ⟨_, _, le_rfl, ha ▸ h⟩
  | @cons ts us a as n m h _ ih =>
    intro b hb
    rcases List.mem_cons.mp hb with rfl | hb
    · exact ⟨_, _, le_max_left n m, h⟩
    · obtain ⟨vs, k, hk, hb⟩ := ih b hb
      exact ⟨vs, k, hk.trans (le_max_right n m), hb⟩

theorem Items.forall_mem {as} (h : Items P ts as n) : ∀ a ∈ as, ∃ us m, m ≤ n ∧ P us a m := by
  cases h with
  | none => nofun
  | some h => exact h.forall_mem

theorem Clause.forall_mem {words a?} (h : Clause words P ts a? n) :
    ∀ a ∈ a?, ∃ us, P us a n := by
  cases h with
  | absent => nofun
  | present h =>
    rintro a ⟨⟩
    exact ⟨_, h⟩

/-- The items of a clause that is a list. -/
theorem Clause.forall_mem_getD {words as?} (h : Clause words (ListOf P) ts as? n) :
    ∀ a ∈ as?.getD [], ∃ us m, m ≤ n ∧ P us a m := by
  cases h with
  | absent => nofun
  | present h => exact h.forall_mem

end

theorem IsPath.length_eq {ts : List Token} {segments n} (h : IsPath ts segments n) :
    segments.length = n := by
  induction h with
  | nil => rfl
  | _ => simpa using ‹_ = _›

section

variable {E : Phrase Scalar} {Q : Phrase Query} {p : Node → Prop} {ts : List Token} {n : Nat}

theorem ListOf.forall_scalar {es} (hes : ListOf E ts es n)
    (h : ∀ {us e m}, E us e m → m ≤ n → p (.scalar e)) : ∀ a ∈ es.map Node.scalar, p a := by
  intro a ha
  obtain ⟨e, he, rfl⟩ := List.mem_map.mp ha
  obtain ⟨us, m, hm, he⟩ := hes.forall_mem e he
  exact h he hm

theorem Items.forall_scalar {es} (hes : Items E ts es n)
    (h : ∀ {us e m}, E us e m → m ≤ n → p (.scalar e)) : ∀ a ∈ es.map Node.scalar, p a := by
  cases hes with
  | none => nofun
  | some hes => exact hes.forall_scalar h

theorem Items.forall_field {fields} (hfields : Items (IsField E) ts fields n)
    (h : ∀ {us e m}, E us e m → m ≤ n → p (.scalar e)) :
    ∀ a ∈ fields.map (fun f => Node.scalar f.value), p a := by
  intro a ha
  obtain ⟨f, hf, rfl⟩ := List.mem_map.mp ha
  obtain ⟨us, m, hm, hf⟩ := hfields.forall_mem f hf
  cases hf with
  | mk he => exact h he hm

theorem IsProjection.forall_children {projection} (hprojection : IsProjection E ts projection n)
    (h : ∀ {us e m}, E us e m → m ≤ n → p (.scalar e)) : ∀ a ∈ projection.children, p a := by
  cases hprojection with
  | all => nofun
  | value he => exact List.forall_mem_singleton.mpr (h he le_rfl)
  | items his =>
    intro a ha
    obtain ⟨i, hi, rfl⟩ := List.mem_map.mp ha
    obtain ⟨us, m, hm, hi⟩ := his.forall_mem i hi
    cases hi with
    | mk he _ => exact h he hm

theorem IsSortKey.exists_expression {k} (h : IsSortKey E ts k n) : ∃ us, E us k.expression n := by
  cases h <;> exact ⟨_, ‹_›⟩

/-- Below a query there are counts, whole expressions and a source. -/
theorem IsClauses.forall_children {q} (hq : IsClauses E Q ts q n)
    (hcount : ∀ {us e m}, IsCount us e m → p (.scalar e))
    (hexpression : ∀ {us e m}, E us e m → m ≤ n → p (.scalar e))
    (hsource : ∀ {us s m}, IsSource E Q us s m → m ≤ n → p (.source s)) :
    ∀ a ∈ (Node.query q).children, p a := by
  cases hq with
  | @mk distinct top? projection source? filter? groupKeys? sortKeys? window? ts₁ ts₂ ts₃ ts₄ ts₅
      ts₆ ts₇ n₂ n₃ n₄ n₅ n₆ htop hprojection hfrom hfilter hgroup hsort hwindow =>
    simp only [Node.children, Query.children, List.forall_mem_append, List.forall_mem_map,
      Option.mem_toList, List.mem_flatMap, forall_exists_index, and_imp]
    refine ⟨fun e he => ?_, ?_, fun s hs => ?_, fun e he => ?_, fun e he => ?_, fun k hk => ?_,
      fun a w hw ha => ?_⟩
    · obtain ⟨us, he⟩ := htop.forall_mem e he
      exact hcount he
    · exact hprojection.forall_children fun he hm => hexpression he (by omega)
    · obtain ⟨us, hs⟩ := hfrom.forall_mem s hs
      exact hsource hs (by omega)
    · obtain ⟨us, he⟩ := hfilter.forall_mem e he
      exact hexpression he (by omega)
    · obtain ⟨us, m, hm, he⟩ := hgroup.forall_mem_getD e he
      exact hexpression he (by omega)
    · obtain ⟨us, m, hm, hk⟩ := hsort.forall_mem_getD k hk
      obtain ⟨vs, he⟩ := hk.exists_expression
      exact hexpression he (by omega)
    · obtain ⟨us, hw⟩ := hwindow.forall_mem w hw
      cases hw with
      | counts hoffset hlimit =>
        simp only [Window.children, List.mem_cons, List.not_mem_nil, or_false] at ha
        rcases ha with rfl | rfl
        · exact hcount hoffset
        · exact hcount hlimit

end

end DocQuery.Grammar
