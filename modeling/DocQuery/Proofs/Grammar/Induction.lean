import Mathlib.Order.Lattice
import DocQuery.Proofs.Grammar.Rules

/-!
# Induction over the grammar

The rules of the grammar are monotone in the phrases that stand between brackets (`ListOf.imp` to
`IsClauses.imp`), and what stands between brackets takes fewer levels than the whole. So what the
rules preserve holds of all expressions and queries: `induction_levels`.
-/

namespace DocQuery.Grammar

variable {α : Type}

/-- Of the phrases with at most `n` levels, all that are `P` are `P'`. -/
def Phrase.Upto (n : Nat) (P P' : Phrase α) : Prop := ∀ ⦃ts a m⦄, m ≤ n → P ts a m → P' ts a m

theorem Phrase.Upto.mono {n m : Nat} {P P' : Phrase α} (h : Phrase.Upto n P P') (hm : m ≤ n) :
    Phrase.Upto m P P' :=
  fun _ _ _ hk => h (hk.trans hm)

theorem ListOf.imp {P P' : Phrase α} {ts as n} (h : ListOf P ts as n) (hP : Phrase.Upto n P P') :
    ListOf P' ts as n := by
  induction h with
  | single h => exact .single (hP le_rfl h)
  | cons h _ ih => exact .cons (hP (by omega) h) (ih (hP.mono (by omega)))

theorem Items.imp {P P' : Phrase α} {ts as n} (h : Items P ts as n) (hP : Phrase.Upto n P P') :
    Items P' ts as n := by
  cases h with
  | none => exact .none
  | some h => exact .some (h.imp hP)

theorem Clause.imp {words} {P P' : Phrase α} {ts a n} (h : Clause words P ts a n)
    (hP : Phrase.Upto n P P') : Clause words P' ts a n := by
  cases h with
  | absent => exact .absent
  | present h => exact .present (hP le_rfl h)

section

variable {E E' : Phrase Scalar} {Q Q' : Phrase Query} {ts : List Token} {n : Nat}

theorem IsField.imp {f} (h : IsField E ts f n) (hE : Phrase.Upto n E E') : IsField E' ts f n := by
  cases h with
  | mk h => exact .mk (hE le_rfl h)

theorem IsScalar.imp {level links e} (h : IsScalar E Q level links ts e n) (hE : Phrase.Upto n E E')
    (hQ : Phrase.Upto n Q Q') : IsScalar E' Q' level links ts e n := by
  induction h with
  | lift hlevel _ ih => exact .lift hlevel (ih hE hQ)
  | conditional _ ha hb ih =>
    exact .conditional (ih (hE.mono (by omega)) (hQ.mono (by omega))) (hE (by omega) ha)
      (hE (by omega) hb)
  | coalesce _ _ ihl ihr =>
    exact .coalesce (ihl (hE.mono (by omega)) (hQ.mono (by omega)))
      (ihr (hE.mono (by omega)) (hQ.mono (by omega)))
  | binary hop _ _ ihl ihr =>
    exact .binary hop (ihl (hE.mono (by omega)) (hQ.mono (by omega)))
      (ihr (hE.mono (by omega)) (hQ.mono (by omega)))
  | between _ _ _ ihs ihl ihh =>
    exact .between (ihs (hE.mono (by omega)) (hQ.mono (by omega)))
      (ihl (hE.mono (by omega)) (hQ.mono (by omega)))
      (ihh (hE.mono (by omega)) (hQ.mono (by omega)))
  | among _ hes ihs =>
    exact .among (ihs (hE.mono (by omega)) (hQ.mono (by omega))) (hes.imp (hE.mono (by omega)))
  | unary _ ih => exact .unary (ih (hE.mono (by omega)) (hQ.mono (by omega)))
  | property _ hname ih => exact .property (ih (hE.mono (by omega)) (hQ.mono (by omega))) hname
  | index _ he ih => exact .index (ih (hE.mono (by omega)) (hQ.mono (by omega))) (hE (by omega) he)
  | literal h => exact .literal h
  | parameter h => exact .parameter h
  | name h => exact .name h
  | group h => exact .group (hE le_rfl h)
  | call hname hes => exact .call hname (hes.imp hE)
  | array hes => exact .array (hes.imp hE)
  | object hfields => exact .object (hfields.imp fun _ _ _ hm h => h.imp (hE.mono hm))
  | subquery hq => exact .subquery (hQ le_rfl hq)

theorem IsSelectItem.imp {i} (h : IsSelectItem E ts i n) (hE : Phrase.Upto n E E') :
    IsSelectItem E' ts i n := by
  cases h with
  | mk he halias => exact .mk (hE le_rfl he) halias

theorem IsProjection.imp {p} (h : IsProjection E ts p n) (hE : Phrase.Upto n E E') :
    IsProjection E' ts p n := by
  cases h with
  | all => exact .all
  | value he => exact .value (hE le_rfl he)
  | items h => exact .items (h.imp fun _ _ _ hm h => h.imp (hE.mono hm))

theorem IsSortKey.imp {k} (h : IsSortKey E ts k n) (hE : Phrase.Upto n E E') :
    IsSortKey E' ts k n := by
  cases h with
  | plain he => exact .plain (hE le_rfl he)
  | ascending he => exact .ascending (hE le_rfl he)
  | descending he => exact .descending (hE le_rfl he)

theorem IsCollection.imp {c} (h : IsCollection E Q ts c n) (hE : Phrase.Upto n E E')
    (hQ : Phrase.Upto n Q Q') : IsCollection E' Q' ts c n := by
  cases h with
  | path hinput h => exact .path hinput h
  | subquery hq => exact .subquery (hQ le_rfl hq)
  | array hes => exact .array (hes.imp hE)

theorem IsOperand.imp {s} (h : IsOperand E Q ts s n) (hE : Phrase.Upto n E E')
    (hQ : Phrase.Upto n Q Q') : IsOperand E' Q' ts s n := by
  cases h with
  | each hname hc => exact .each hname (hc.imp hE hQ)
  | aliased hc halias => exact .aliased (hc.imp hE hQ) halias

theorem IsJoined.imp {links s} (h : IsJoined E Q links ts s n) (hE : Phrase.Upto n E E')
    (hQ : Phrase.Upto n Q Q') : IsJoined E' Q' links ts s n := by
  induction h with
  | operand h => exact .operand (h.imp hE hQ)
  | join _ hr ih =>
    exact .join (ih (hE.mono (by omega)) (hQ.mono (by omega)))
      (hr.imp (hE.mono (by omega)) (hQ.mono (by omega)))

theorem IsSource.imp {s} (h : IsSource E Q ts s n) (hE : Phrase.Upto n E E')
    (hQ : Phrase.Upto n Q Q') : IsSource E' Q' ts s n := by
  cases h with
  | mk h => exact .mk (h.imp hE hQ)

theorem IsClauses.imp {q} (h : IsClauses E Q ts q n) (hE : Phrase.Upto n E E')
    (hQ : Phrase.Upto n Q Q') : IsClauses E' Q' ts q n := by
  cases h with
  | mk htop hprojection hsource hfilter hgroup hsort hwindow =>
    refine .mk htop (hprojection.imp (hE.mono (by omega))) (hsource.imp fun _ _ m hm h => ?_)
      (hfilter.imp (hE.mono (by omega))) (hgroup.imp fun _ _ m hm h => ?_)
      (hsort.imp fun _ _ m hm h => ?_) hwindow
    · exact h.imp (hE.mono (by omega)) (hQ.mono (by omega))
    · exact h.imp (hE.mono (by omega))
    · exact h.imp fun _ _ _ hk h => h.imp (hE.mono (by omega))

end

/-- What the rules make of phrases between brackets holds of all expressions and queries. The
induction is on the levels of nesting. -/
theorem induction_levels {E : Phrase Scalar} {Q : Phrase Query}
    (hE : ∀ {links ts e n}, IsScalar E Q .conditional links ts e n → E ts e (n + 1))
    (hQ : ∀ {ts q n}, IsClauses E Q ts q n → Q ts q (n + 1)) (n : Nat) :
    Phrase.Upto n IsExpression E ∧ Phrase.Upto n IsQuery Q := by
  induction n with
  | zero => exact ⟨fun _ _ m hm h => by cases h; omega, fun _ _ m hm h => by cases h; omega⟩
  | succ n ih =>
    constructor
    · intro ts e m hm h
      cases h with
      | nested h => exact hE (h.imp (ih.1.mono (by omega)) (ih.2.mono (by omega)))
    · intro ts q m hm h
      cases h with
      | nested h => exact hQ (h.imp (ih.1.mono (by omega)) (ih.2.mono (by omega)))

end DocQuery.Grammar
