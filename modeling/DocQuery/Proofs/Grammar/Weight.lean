import Mathlib.Tactic.Ring
import DocQuery.Proofs.Grammar.Children
import DocQuery.Proofs.Grammar.Induction

/-!
# What the trees of the grammar bear

A chain gives its levels back where it ends, so the chains of all the levels of the ladder may stand
one inside the other at the same depth: each of eleven infix levels and the accesses take as many
levels as may still nest. Between brackets the grammar counts one level more.

* `coreWeight`: how many levels lie on a path below a primary expression that nests `n` levels.
* `IsScalar.bears`, `IsClauses.bears`: what scalars and clauses bear, level by level.
* `bears_levels`: what whole expressions and queries bear.
-/

namespace DocQuery

/-! ## Chains of the ladder -/

namespace Level

/-- Whether the level has chains. -/
def hasChain : Level → Bool
  | conditional => false
  | unary => false
  | _ => true

/-- How many chains may stand one inside the other in an operand of the level. -/
def innerChains : Level → Nat
  | conditional => 12
  | coalesce => 11
  | concat => 10
  | .or => 9
  | .and => 8
  | bitOr => 7
  | bitXor => 6
  | bitAnd => 5
  | equality => 4
  | relational => 3
  | additive => 2
  | multiplicative => 1
  | unary => 1
  | primary => 0

theorem innerChains_tighter {level : Level} (h : level ≠ .primary) :
    level.innerChains = level.tighter.innerChains + level.tighter.hasChain.toNat := by
  cases level <;> first | rfl | exact absurd rfl h

end Level

namespace Grammar

section

variable {ts : List Token} {n : Nat}

/-- The links of a chain are levels that may nest; only some levels have chains. -/
theorem IsScalar.links_le {E : Phrase Scalar} {Q : Phrase Query} {level links e}
    (h : IsScalar E Q level links ts e n) : links ≤ level.hasChain.toNat * n := by
  induction h with
  | @binary op _ _ _ _ _ _ _ _ hop _ _ _ _ =>
    have hchain : op.level.hasChain = true := by cases op <;> rfl
    simp only [hchain, Bool.toNat_true]
    omega
  | unary _ ih => exact Nat.zero_le _
  | _ => simp only [Level.hasChain, Bool.toNat_true, Bool.toNat_false]; omega

/-! ## What scalars bear -/

/-- The levels on a path below a primary expression that nests `n` levels. -/
def coreWeight : Nat → Nat
  | 0 => 0
  | n + 1 => 6 * ((n + 1) * n) + 1

/-- What a primary expression bears that nests `n` levels: two nodes that are no levels for each
whole expression, and one more. -/
def baseWeight (flat n : Nat) : Nat := flat + flat * (2 * n) + coreWeight n

theorem coreWeight_succ_le (n : Nat) : 12 * n + coreWeight n ≤ coreWeight (n + 1) := by
  cases n with
  | zero => decide
  | succ n =>
    have h : (n + 1 + 1) * (n + 1) = (n + 1) * n + 2 * (n + 1) := by ring
    simp only [coreWeight, h]
    omega

theorem coreWeight_mono {n m : Nat} (h : n ≤ m) : coreWeight n ≤ coreWeight m :=
  monotone_nat_of_le_succ (fun n => (Nat.le_add_left _ _).trans (coreWeight_succ_le n)) h

theorem baseWeight_mono (flat : Nat) {n m : Nat} (h : n ≤ m) :
    baseWeight flat n ≤ baseWeight flat m := by
  have hcore := coreWeight_mono h
  have hflat : flat * (2 * n) ≤ flat * (2 * m) := Nat.mul_le_mul_left _ (by omega)
  unfold baseWeight
  omega

theorem flat_le_baseWeight (flat n : Nat) : flat ≤ baseWeight flat n := by
  unfold baseWeight
  omega

/-- What a whole expression bears that nests `n` levels. -/
def expressionWeight (flat n : Nat) : Nat := flat * (2 * n) + coreWeight n

/-- Twelve chains one inside the other, and what the innermost begins with. -/
theorem expressionWeight_succ (flat n : Nat) :
    flat + (12 * n + baseWeight flat n) ≤ expressionWeight flat (n + 1) := by
  have hcore := coreWeight_succ_le n
  have hflat : flat * (2 * (n + 1)) = flat * (2 * n) + (flat + flat) := by ring
  unfold baseWeight expressionWeight
  omega

theorem baseWeight_eq (flat n : Nat) : baseWeight flat n = flat + expressionWeight flat n := by
  unfold baseWeight expressionWeight
  omega

/-- What a scalar bears that binds at the level, with `links` links in the chain of that level; a
conditional bears one node more that is no level. -/
def scalarWeight (flat : Nat) (level : Level) (links n : Nat) : Nat :=
  links + (level.innerChains * n + baseWeight flat n)

theorem expressionWeight_mono (flat : Nat) {n m : Nat} (h : n ≤ m) :
    expressionWeight flat n ≤ expressionWeight flat m := by
  have hbase := baseWeight_mono flat h
  rw [baseWeight_eq, baseWeight_eq] at hbase
  omega

section

variable {flat m links j : Nat} {level : Level}

theorem scalarWeight_mono (h : n ≤ m) :
    scalarWeight flat level links n ≤ scalarWeight flat level links m := by
  have hbase := baseWeight_mono flat h
  have hchains := Nat.mul_le_mul_left level.innerChains h
  unfold scalarWeight
  omega

/-- An operand of the next tighter level bears no more than is allowed below a link. -/
theorem scalarWeight_tighter (hlevel : level ≠ .primary)
    (hlinks : j ≤ level.tighter.hasChain.toNat * n) (h : n ≤ m) :
    scalarWeight flat level.tighter j n ≤ scalarWeight flat level links m := by
  have hmono : scalarWeight flat level links n ≤ scalarWeight flat level links m :=
    scalarWeight_mono h
  have hchains := congrArg (· * n) (level.innerChains_tighter hlevel)
  simp only [Nat.add_mul] at hchains
  simp only [scalarWeight] at hmono ⊢
  omega

/-- So does a whole expression between brackets. -/
theorem expressionWeight_le (h : n ≤ m) (k : Nat) :
    expressionWeight flat n ≤ k + scalarWeight flat level links m := by
  have hexpression := expressionWeight_mono flat h
  unfold scalarWeight
  rw [baseWeight_eq]
  omega

end

/-- What is taken for granted of the phrases between brackets. -/
structure BearingInner (flat : Nat) (E : Phrase Scalar) (Q : Phrase Query) : Prop where
  expression : ∀ {ts e n}, E ts e n → (Node.scalar e).Bears flat (expressionWeight flat n)
  query : ∀ {ts q n}, Q ts q n → ∃ k, (Node.query q).Bears flat k ∧ k + 1 ≤ baseWeight flat n

section

variable {flat : Nat} {E : Phrase Scalar} {Q : Phrase Query}

theorem BearingInner.scalar (h : BearingInner flat E Q) {e m} (he : E ts e m) (hm : m ≤ n) :
    (Node.scalar e).Bears flat (expressionWeight flat n) :=
  (h.expression he).mono (expressionWeight_mono flat hm)

/-- One more link. -/
theorem bears_link {e : Scalar} {level : Level} {links k : Nat}
    (hlevel : (Node.scalar e).isLevel = true)
    (h : ∀ b ∈ e.children, b.Bears flat (k + scalarWeight flat level links n)) :
    (Node.scalar e).Bears flat (k + scalarWeight flat level (links + 1) n) := by
  refine (Node.bears_level hlevel h).mono ?_
  unfold scalarWeight
  omega

/-- A primary expression that is no level, with whole expressions below it. -/
theorem bears_brackets {e : Scalar} (hlevel : (Node.scalar e).isLevel = false)
    (h : ∀ b ∈ e.children, b.Bears flat (expressionWeight flat n)) :
    (Node.scalar e).Bears flat (scalarWeight flat .primary 0 n) :=
  (Node.bears_flat hlevel h).mono (by unfold scalarWeight; rw [baseWeight_eq]; omega)

/-- What a conditional bears more than other scalars. -/
def conditionalWeight (flat : Nat) (level : Level) : Nat := if level = .conditional then flat else 0

theorem conditionalWeight_tighter (flat : Nat) (level : Level) :
    conditionalWeight flat level.tighter = 0 :=
  if_neg (by cases level <;> nofun)

/-- What an operand of the next tighter level bears. -/
theorem IsScalar.bears_tighter (level : Level) {links j m : Nat} {k e}
    (hlevel : level ≠ .primary) (he : IsScalar E Q level.tighter j ts e n)
    (hbears : (Node.scalar e).Bears flat
      (conditionalWeight flat level.tighter + scalarWeight flat level.tighter j n)) (hn : n ≤ m) :
    (Node.scalar e).Bears flat (k + scalarWeight flat level links m) := by
  rw [conditionalWeight_tighter, Nat.zero_add] at hbears
  exact hbears.mono (Nat.le_add_left_of_le (scalarWeight_tighter hlevel he.links_le hn))

/-- What a scalar of the grammar bears. -/
theorem IsScalar.bears (h : BearingInner flat E Q) {level links e}
    (he : IsScalar E Q level links ts e n) :
    (Node.scalar e).Bears flat
      (conditionalWeight flat level + scalarWeight flat level links n) := by
  induction he with
  | lift hlevel he ih => exact he.bears_tighter _ hlevel ih le_rfl
  | @conditional links ts us vs c a b n m p hc ha hb ih =>
    refine Node.bears_flat rfl ?_
    have hbranch {us e k} (he : E us e k) (hk : k ≤ max n (max m p)) : (Node.scalar e).Bears flat
        (scalarWeight flat .conditional 0 (max n (max m p))) :=
      (h.expression he).mono ((expressionWeight_le hk 0).trans_eq (Nat.zero_add _))
    have hcondition : (Node.scalar c).Bears flat
        (0 + scalarWeight flat .conditional 0 (max n (max m p))) :=
      hc.bears_tighter .conditional (by decide) ih (by omega)
    rw [Nat.zero_add] at hcondition
    simp only [Node.children, Scalar.children, List.mem_cons, List.not_mem_nil, or_false,
      forall_eq_or_imp, forall_eq]
    exact ⟨hcondition, hbranch ha (by omega), hbranch hb (by omega)⟩
  | @coalesce links j ts us l r n m hl hr ihl ihr =>
    refine bears_link rfl ?_
    simp only [Scalar.children, List.mem_cons, List.not_mem_nil, or_false, forall_eq_or_imp,
      forall_eq]
    exact ⟨ihl.mono (Nat.add_le_add_left (scalarWeight_mono (by omega)) _),
      hr.bears_tighter .coalesce (by decide) ihr (by omega)⟩
  | @binary op links j ts us l r n m hop hl hr ihl ihr =>
    refine bears_link rfl ?_
    simp only [Scalar.children, List.mem_cons, List.not_mem_nil, or_false, forall_eq_or_imp,
      forall_eq]
    exact ⟨ihl.mono (Nat.add_le_add_left (scalarWeight_mono (by omega)) _),
      hr.bears_tighter op.level (by cases op <;> decide) ihr (by omega)⟩
  | @between links i j ts us vs s l h n m p negated hs hl hh ihs ihl ihh =>
    refine bears_link rfl ?_
    simp only [Scalar.children, List.mem_cons, List.not_mem_nil, or_false, forall_eq_or_imp,
      forall_eq]
    exact ⟨ihs.mono (Nat.add_le_add_left (scalarWeight_mono (by omega)) _),
      hl.bears_tighter .relational (by decide) ihl (by omega),
      hh.bears_tighter .relational (by decide) ihh (by omega)⟩
  | @among links ts us s es n m negated hs hes ihs =>
    refine bears_link rfl (List.forall_mem_cons.mpr ⟨?_, hes.forall_scalar fun he hm => ?_⟩)
    · exact ihs.mono (Nat.add_le_add_left (scalarWeight_mono (by omega)) _)
    · exact (h.expression he).mono (expressionWeight_le (by omega) _)
  | @unary op links ts e n he ih =>
    have hlinks : links = 0 := Nat.le_zero.mp (by simpa [Level.hasChain] using he.links_le)
    refine (Node.bears_level rfl (k := scalarWeight flat .unary links n) ?_).mono ?_
    · simpa [Node.children, Scalar.children, conditionalWeight] using ih
    · have hbase := baseWeight_mono flat (Nat.le_add_right n 1)
      simp only [scalarWeight, Level.innerChains, hlinks]
      omega
  | @property links ts o name n ho hname ih =>
    refine bears_link rfl ?_
    simp only [Scalar.children, List.mem_cons, List.not_mem_nil, or_false, forall_eq]
    exact ih.mono (Nat.add_le_add_left (scalarWeight_mono (by omega)) _)
  | @index links ts us o e n m ho he ih =>
    refine bears_link rfl ?_
    simp only [Scalar.children, List.mem_cons, List.not_mem_nil, or_false, forall_eq_or_imp,
      forall_eq]
    exact ⟨ih.mono (Nat.add_le_add_left (scalarWeight_mono (by omega)) _),
      (h.expression he).mono (expressionWeight_le (by omega) _)⟩
  | literal | parameter | name => exact (Node.bears_leaf rfl rfl).mono (by
      have hflat := flat_le_baseWeight flat 0
      unfold scalarWeight
      omega)
  | group he =>
    exact (h.expression he).mono (expressionWeight_le le_rfl _)
  | @call function userDefined _ es _ _ hes =>
    refine (bears_brackets (e := .call function userDefined es) rfl ?_).mono (Nat.le_add_left _ _)
    exact hes.forall_scalar h.scalar
  | @array _ es _ hes =>
    refine (bears_brackets (e := .array es) rfl ?_).mono (Nat.le_add_left _ _)
    exact hes.forall_scalar h.scalar
  | @object _ fields _ hfields =>
    refine (bears_brackets (e := .object fields) rfl ?_).mono (Nat.le_add_left _ _)
    exact hfields.forall_field h.scalar
  | subquery hq =>
    obtain ⟨k, hq, hk⟩ := h.query hq
    refine (Node.bears_level rfl (k := k) ?_).mono ?_
    · simpa [Node.children, Scalar.children] using hq
    · unfold scalarWeight
      omega

/-! ## What queries bear -/

/-- What a source bears that nests `n` levels, with `links` joins. -/
def sourceWeight (flat links n : Nat) : Nat := links + (flat + (n + baseWeight flat n))

theorem sourceWeight_mono {flat links n m : Nat} (h : n ≤ m) :
    sourceWeight flat links n ≤ sourceWeight flat links m := by
  have hbase := baseWeight_mono flat h
  unfold sourceWeight
  omega

theorem IsCollection.bears (h : BearingInner flat E Q) {c} (hc : IsCollection E Q ts c n) :
    (Node.collection c).Bears flat (n + baseWeight flat n) := by
  cases hc with
  | @path input _ segments _ _ hpath =>
    rw [← hpath.length_eq]
    refine (Node.bears_flat (a := .collection (.path input segments)) rfl
      (Node.bears_steps segments)).mono ?_
    have hflat := flat_le_baseWeight flat segments.length
    omega
  | @subquery _ q _ hq =>
    obtain ⟨k, hq, hk⟩ := h.query hq
    refine (Node.bears_level rfl (k := k) ?_).mono (by omega)
    simpa [Node.children, Collection.children] using hq
  | @array _ es _ hes =>
    refine (Node.bears_flat (a := .collection (.array es)) rfl (hes.forall_scalar h.scalar)).mono ?_
    rw [baseWeight_eq]
    omega

theorem IsOperand.bears (h : BearingInner flat E Q) {s} (hs : IsOperand E Q ts s n) :
    (Node.source s).Bears flat (sourceWeight flat 0 n) := by
  have hsource {s c us} (hchildren : s.children = [.collection c])
      (hlevel : (Node.source s).isLevel = false) (hc : IsCollection E Q us c n) :
      (Node.source s).Bears flat (sourceWeight flat 0 n) := by
    refine (Node.bears_flat hlevel (k := n + baseWeight flat n) ?_).mono (by simp [sourceWeight])
    simpa [Node.children, hchildren] using hc.bears h
  cases hs with
  | each _ hc => exact hsource rfl rfl hc
  | aliased hc _ => exact hsource rfl rfl hc

theorem IsJoined.links_le {links s} (h : IsJoined E Q links ts s n) : links ≤ n := by
  induction h with
  | operand => exact Nat.zero_le _
  | join => omega

theorem IsJoined.bears (h : BearingInner flat E Q) {links s} (hs : IsJoined E Q links ts s n) :
    (Node.source s).Bears flat (sourceWeight flat links n) := by
  induction hs with
  | operand hs => exact hs.bears h
  | @join links ts us l r n m hl hr ih =>
    refine (Node.bears_level rfl (k := sourceWeight flat links (max n (links + 1 + m))) ?_).mono ?_
    · simp only [Node.children, Source.children, List.mem_cons, List.not_mem_nil, or_false,
        forall_eq_or_imp, forall_eq]
      refine ⟨ih.mono (sourceWeight_mono (by omega)), (hr.bears h).mono ?_⟩
      refine (sourceWeight_mono (m := max n (links + 1 + m)) (by omega)).trans ?_
      unfold sourceWeight
      omega
    · unfold sourceWeight
      omega

theorem IsSource.bears (h : BearingInner flat E Q) {s} (hs : IsSource E Q ts s n) :
    (Node.source s).Bears flat (flat + (2 * n + baseWeight flat n)) := by
  cases hs with
  | mk hs =>
    have hlinks := hs.links_le
    refine (hs.bears h).mono ?_
    unfold sourceWeight
    omega

theorem IsCount.bears {e} (h : IsCount ts e n) : (Node.scalar e).Bears flat flat := by
  cases h <;> exact Node.bears_leaf rfl rfl

theorem queryWeight_succ (flat n : Nat) :
    flat + (flat + (2 * n + baseWeight flat n)) + 1 ≤ baseWeight flat (n + 1) := by
  have hflat : flat * (2 * (n + 1)) = flat * (2 * n) + (flat + flat) := by ring
  unfold baseWeight
  cases n with
  | zero => simp [coreWeight]; omega
  | succ n =>
    have hcore := coreWeight_succ_le (n + 1)
    omega

/-- What a query bears. -/
theorem IsClauses.bears (h : BearingInner flat E Q) {q} (hq : IsClauses E Q ts q n) :
    (Node.query q).Bears flat (flat + (flat + (2 * n + baseWeight flat n))) := by
  refine Node.bears_flat rfl (hq.forall_children (fun he => ?_) (fun he hm => ?_) fun hs hm => ?_)
  · exact he.bears.mono (Nat.le_add_right _ _)
  · refine (h.scalar he hm).mono ?_
    rw [baseWeight_eq]
    omega
  · have hbase := baseWeight_mono flat hm
    refine (hs.bears h).mono ?_
    omega

end

end

/-! ## The whole grammar -/

/-- What whole expressions and queries bear. -/
theorem bears_levels (flat n : Nat) :
    Phrase.Upto n IsExpression (fun _ e n => (Node.scalar e).Bears flat (expressionWeight flat n)) ∧
    Phrase.Upto n IsQuery (fun _ q n =>
      ∃ k, (Node.query q).Bears flat k ∧ k + 1 ≤ baseWeight flat n) := by
  have hinner : BearingInner flat
      (fun _ e n => (Node.scalar e).Bears flat (expressionWeight flat n))
      (fun _ q n => ∃ k, (Node.query q).Bears flat k ∧ k + 1 ≤ baseWeight flat n) := ⟨id, id⟩
  refine induction_levels (fun he => (he.bears hinner).mono ?_)
    (fun hq => ⟨_, hq.bears hinner, queryWeight_succ flat _⟩) n
  have hlinks := he.links_le
  have hweight := expressionWeight_succ flat ‹_›
  simp only [Level.hasChain, Bool.toNat_false, Nat.zero_mul, Nat.le_zero] at hlinks
  simpa [conditionalWeight, scalarWeight, Level.innerChains, hlinks] using hweight

end Grammar

end DocQuery
