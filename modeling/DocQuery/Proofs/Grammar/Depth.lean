import DocQuery.Proofs.Grammar.Counted
import DocQuery.Proofs.Grammar.Exact
import DocQuery.Proofs.Grammar.Weight
import DocQuery.Proofs.Layout.Says

/-!
# How deep a tree can be that was read under a limit

* `parse_levels_le`: a path that never goes to what stands before a link has fewer levels than may
  nest. Each step to such a part may add one, up to `6 * n * (n - 1) + 1` levels under the limit
  `n`, and there may be so many.
* `parse_levels_gt`: that is more than the limit.
* `parse_path_length_le`: the limit alone bounds how long a path can be.
-/

namespace DocQuery

open Grammar Reading

section

variable {α : Type} {P : Phrase α} {F : Reading.Follow} {step : Nat → Reading α} {text : String}
  {limit : Nat}

/-- A tree that was read is that of a phrase that takes no more levels than may nest. -/
theorem levels_of_parseWith (h : Parses step P F) {a : α}
    (hparse : parseWith step text limit = .ok a) : ∃ ts n, n ≤ limit ∧ P ts a n := by
  obtain ⟨ts, htext, n, ha⟩ := exists_of_parseWith h hparse
  refine ⟨ts, n, ?_, ha⟩
  by_contra hlimit
  obtain ⟨place, herror⟩ := (parseWith_of_phrase h htext ha).2 (Nat.lt_of_not_le hlimit)
  rw [hparse] at herror
  cases herror

theorem Scalar.bears_of_parse {e : Scalar} (h : Scalar.parse text limit = .ok e) (flat : Nat) :
    (Node.scalar e).Bears flat (expressionWeight flat limit) := by
  obtain ⟨ts, n, hn, he⟩ := levels_of_parseWith parses_expression h
  exact ((bears_levels flat n).1 le_rfl he).mono (expressionWeight_mono flat hn)

theorem Query.bears_of_parse {q : Query} (h : Query.parse text limit = .ok q) (flat : Nat) :
    (Node.query q).Bears flat (flat + expressionWeight flat limit - 1) := by
  obtain ⟨ts, n, hn, hq⟩ := levels_of_parseWith parses_query h
  obtain ⟨k, hbears, hk⟩ := (bears_levels flat n).2 le_rfl hq
  have hmono := baseWeight_mono flat hn
  rw [baseWeight_eq flat limit] at hmono
  exact hbears.mono (by omega)

theorem Scalar.nests_of_parse {e : Scalar} (h : Scalar.parse text limit = .ok e) :
    ∃ m, (Node.scalar e).Nests m ∧ m < limit := by
  obtain ⟨ts, n, hn, he⟩ := levels_of_parseWith parses_expression h
  obtain ⟨m, hm, hle⟩ := (nests_levels n).1 le_rfl he
  exact ⟨m, hm, by omega⟩

theorem Query.nests_of_parse {q : Query} (h : Query.parse text limit = .ok q) :
    ∃ m, (Node.query q).Nests m ∧ m < limit := by
  obtain ⟨ts, n, hn, hq⟩ := levels_of_parseWith parses_query h
  obtain ⟨m, hm, hle⟩ := (nests_levels n).2 le_rfl hq
  exact ⟨m, hm, by omega⟩

end

theorem coreWeight_le (n : Nat) : coreWeight n ≤ 6 * (n * (n - 1)) + 1 := by
  cases n with
  | zero => exact Nat.zero_le _
  | succ n => exact le_rfl

theorem expressionWeight_one_le (n : Nat) : expressionWeight 1 n ≤ 16 * (n + 1) ^ 2 := by
  have hcore := coreWeight_le n
  have hmul : n * (n - 1) ≤ n * n := Nat.mul_le_mul_left n (Nat.sub_le n 1)
  have hsquare : (n + 1) ^ 2 = n * n + 2 * n + 1 := by ring
  unfold expressionWeight
  omega

/-! ## Trees that are as deep as can be -/

section

variable {level : Level} {links n k : Nat}

/-- Some scalar of the level, with `links` links in its chain, nests `n` levels and has `k` levels
on a path down from it. -/
def Reaches (level : Level) (links n k : Nat) : Prop :=
  ∃ ts e as, IsScalar IsExpression IsQuery level links ts e n ∧ (Node.scalar e).Path as ∧
    as.countP Node.isLevel = k

theorem Reaches.of_child {us : List Token} {e e' : Scalar} {as : List Node}
    (he' : IsScalar IsExpression IsQuery level links us e' n) (has : (Node.scalar e).Path as)
    (hchild : Node.scalar e ∈ e'.children) (hlevel : (Node.scalar e').isLevel = true) :
    Reaches level links n (as.countP Node.isLevel + 1) := by
  refine ⟨us, e', .scalar e' :: as, he', .down hchild has, ?_⟩
  rw [List.countP_cons, hlevel, if_pos rfl]

/-- One more link, if as many levels may nest. -/
theorem Reaches.link (h : Reaches level links n k) (hchain : level.hasChain = true)
    (hn : links + 1 ≤ n) : Reaches level (links + 1) n (k + 1) := by
  obtain ⟨ts, e, as, he, has, rfl⟩ := h
  have hbinary (op : BinaryOp) (hop : op ≠ .coalesce)
      (he : IsScalar IsExpression IsQuery op.level links ts e n) :
      Reaches op.level (links + 1) n (as.countP Node.isLevel + 1) := by
    obtain ⟨j, hzero⟩ := isScalar_zero IsExpression IsQuery op.level.tighter
    have hlink := IsScalar.binary hop he hzero
    rw [Nat.max_eq_left (by omega)] at hlink
    exact .of_child hlink has List.mem_cons_self rfl
  cases level with
  | conditional => cases hchain
  | coalesce =>
    obtain ⟨j, hzero⟩ := isScalar_zero IsExpression IsQuery .concat
    have hlink := IsScalar.coalesce he hzero
    rw [Nat.max_eq_left (by omega)] at hlink
    exact .of_child hlink has List.mem_cons_self rfl
  | concat => exact hbinary .concat nofun he
  | or => exact hbinary .or nofun he
  | and => exact hbinary .and nofun he
  | bitOr => exact hbinary .bitOr nofun he
  | bitXor => exact hbinary .bitXor nofun he
  | bitAnd => exact hbinary .bitAnd nofun he
  | equality => exact hbinary .equal nofun he
  | relational => exact hbinary .less nofun he
  | additive => exact hbinary .add nofun he
  | multiplicative => exact hbinary .multiply nofun he
  | unary => cases hchain
  | primary =>
    have hlink : IsScalar IsExpression IsQuery .primary _ _ (.property e "a") _ :=
      .property he (by decide)
    rw [Nat.max_eq_left (by omega)] at hlink
    exact .of_child hlink has List.mem_cons_self rfl

/-- As many links as levels may nest. -/
theorem Reaches.chain (h : Reaches level 0 n k) (hchain : level.hasChain = true) :
    Reaches level n n (k + n) := by
  suffices ∀ j ≤ n, Reaches level j n (k + j) from this n le_rfl
  intro j hj
  induction j with
  | zero => exact h
  | succ j ih => exact (ih (by omega)).link hchain hj

/-- A chain of each level one inside the other, down to the primary expression. -/
theorem Reaches.ladder (h : Reaches .primary 0 n k) (level : Level) :
    ∃ links, Reaches level links n (k + (level.innerChains + level.hasChain.toNat) * n) := by
  by_cases hlevel : level = .primary
  · subst hlevel
    have hchain := h.chain rfl
    exact ⟨n, by simpa [Level.innerChains, Level.hasChain] using hchain⟩
  · obtain ⟨j, ts, e, as, he, has, hcount⟩ := h.ladder level.tighter
    rw [← Level.innerChains_tighter hlevel] at hcount
    have hlift : Reaches level 0 n (k + level.innerChains * n) :=
      ⟨ts, e, as, .lift hlevel he, has, hcount⟩
    cases hchain : level.hasChain with
    | false => exact ⟨0, by simpa using hlift⟩
    | true =>
      have hlinks := hlift.chain hchain
      exact ⟨n, by simpa [Nat.add_mul, Nat.add_assoc] using hlinks⟩
termination_by 13 - level.rung
decreasing_by
  have htighter := Level.rung_tighter hlevel
  have hle := level.tighter.rung_le_primary
  have hprimary : Level.primary.rung = 13 := rfl
  omega

/-- A subquery, or parentheses around twelve chains. -/
theorem reaches_core (n : Nat) : Reaches .primary 0 (n + 1) (coreWeight (n + 1)) := by
  induction n with
  | zero =>
    have he : IsScalar IsExpression IsQuery .primary 0 _ (.subquery .value _) 1 :=
      .subquery (.nested (isClauses_all _ _))
    exact ⟨_, _, _, he, .here _, rfl⟩
  | succ n ih =>
    obtain ⟨links, ts, e, as, he, has, hcount⟩ := ih.ladder .conditional
    refine ⟨_, e, as, .group (.nested he), has, hcount.trans ?_⟩
    simp only [coreWeight, Level.innerChains, Level.hasChain, Bool.toNat_false]
    ring

/-- Under every limit from two on there is a text whose tree is as deep as can be. -/
theorem exists_levels_eq {limit : Nat} (hlimit : 2 ≤ limit) : ∃ text e as,
    Scalar.parse text limit = .ok e ∧ (Node.scalar e).Path as ∧
      as.countP Node.isLevel = 6 * (limit * (limit - 1)) + 1 := by
  obtain ⟨n, rfl⟩ : ∃ n, limit = n + 1 + 1 := ⟨limit - 2, by omega⟩
  obtain ⟨links, ts, e, as, he, has, hcount⟩ := (reaches_core n).ladder .conditional
  have he : IsExpression ts e (n + 1 + 1) := .nested he
  obtain ⟨text, htext⟩ := exists_tokens (List.all_eq_true.mp (regular_expression he).spellable)
  refine ⟨text, e, as, (parseWith_of_phrase parses_expression htext he).1 le_rfl, has,
    hcount.trans ?_⟩
  simp only [coreWeight, Level.innerChains, Level.hasChain, Bool.toNat_false, Nat.add_sub_cancel]
  ring

end

/-! ## Levels and nodes on a path -/

theorem Scalar.levels_le_of_parse {text : String} {limit : Nat} {e : Scalar}
    (h : Scalar.parse text limit = .ok e) {as : List Node} (has : (Node.scalar e).Path as) :
    as.countP Node.isLevel ≤ 6 * (limit * (limit - 1)) + 1 := by
  have hsum := Scalar.bears_of_parse h 0 as has
  rw [Node.sum_weight_zero, expressionWeight, Nat.zero_mul, Nat.zero_add] at hsum
  exact hsum.trans (coreWeight_le limit)

theorem Query.levels_le_of_parse {text : String} {limit : Nat} {q : Query}
    (h : Query.parse text limit = .ok q) {as : List Node} (has : (Node.query q).Path as) :
    as.countP Node.isLevel ≤ 6 * (limit * (limit - 1)) + 1 := by
  have hsum := Query.bears_of_parse h 0 as has
  rw [Node.sum_weight_zero, expressionWeight, Nat.zero_mul, Nat.zero_add, Nat.zero_add] at hsum
  exact (hsum.trans (Nat.sub_le _ 1)).trans (coreWeight_le limit)

/-- On a path down from the root of a tree that was read there are fewer levels than may nest, but
for one more with each step from a link to what stands before it. These steps add up: there are up
to `6 * limit * (limit - 1) + 1` levels, and under every limit from two on there may be so many,
where twelve chains lie one inside the other, each as long as the limit allows, before a level
nests. -/
theorem parse_levels_le (limit : Nat) :
    (∀ text q, Query.parse text limit = .ok q → ∀ k as, (Node.query q).Walk k as →
      as.countP Node.isLevel < limit + k ∧
        as.countP Node.isLevel ≤ 6 * (limit * (limit - 1)) + 1) ∧
    (∀ text e, Scalar.parse text limit = .ok e → ∀ k as, (Node.scalar e).Walk k as →
      as.countP Node.isLevel < limit + k ∧
        as.countP Node.isLevel ≤ 6 * (limit * (limit - 1)) + 1) ∧
    (2 ≤ limit → ∃ text e as, Scalar.parse text limit = .ok e ∧ (Node.scalar e).Path as ∧
      as.countP Node.isLevel = 6 * (limit * (limit - 1)) + 1) := by
  refine ⟨fun text q hq k as has => ?_, fun text e he k as has => ?_, exists_levels_eq⟩
  · obtain ⟨m, hm, hlimit⟩ := Query.nests_of_parse hq
    exact ⟨(hm k as has).trans_lt (by omega), Query.levels_le_of_parse hq has.path⟩
  · obtain ⟨m, hm, hlimit⟩ := Scalar.nests_of_parse he
    exact ⟨(hm k as has).trans_lt (by omega), Scalar.levels_le_of_parse he has.path⟩

/-- Twelve chains one inside the other, the innermost on a subquery. -/
def twelveChains : String := "SELECT VALUE (SELECT *).a*1+1<1=1&1^1|1 AND 1 OR 1||1??1"

theorem parse_levels_le_twelveChains : ∃ q, Query.parse twelveChains 3 = .ok q ∧
    ∃ k as, (Node.query q).Walk k as ∧ as.countP Node.isLevel = 13 ∧
      as.countP Node.isLevel < 3 + k ∧ as.countP Node.isLevel ≤ 6 * (3 * (3 - 1)) + 1 := by
  obtain ⟨q, hq, hcount⟩ := exists_of_map
    (show (Query.parse twelveChains 3).toOption.map
      (fun q => ((Node.query q).leftmost 20).countP Node.isLevel) = some 13 by decide +kernel)
  obtain ⟨k, has⟩ := (Node.path_leftmost 20 (.query q)).exists_walk
  exact ⟨q, hq, k, _, has, hcount, (parse_levels_le 3).1 _ q hq k _ has⟩

/-- Two chains of sixty-two links each, the products inside the sum. -/
def longChains : String := "SELECT VALUE 1" ++ String.join (List.replicate 62 "*1") ++
  String.join (List.replicate 62 "+1")

theorem toList_longChains : longChains.toList = "SELECT VALUE 1".toList ++
    (List.replicate 62 "*1").flatMap String.toList ++
    (List.replicate 62 "+1").flatMap String.toList := by
  unfold longChains
  rw [String.toList_append, String.toList_append, String.toList_join, String.toList_join]

/-- A chain gives its levels back when it ends, though it then is the left operand of the chain
around it. -/
theorem parse_levels_gt : ∃ q, Query.parse longChains defaultLimit = .ok q ∧
    ∃ as, (Node.query q).Path as ∧ defaultLimit < as.countP Node.isLevel := by
  have hcount : (Query.parse longChains defaultLimit).toOption.map
      (fun q => ((Node.query q).leftmost 200).countP Node.isLevel) = some 124 := by
    rw [Query.parse, Session.start, Scanner.ofText_eq toList_longChains]
    decide +kernel
  obtain ⟨q, hq, hcount⟩ := exists_of_map hcount
  refine ⟨q, hq, _, Node.path_leftmost 200 (.query q), ?_⟩
  rw [hcount]
  decide

/-- A path down from the root of a tree has a number of nodes that the limit alone bounds. -/
theorem parse_path_length_le :
    (∀ text limit q, Query.parse text limit = .ok q → ∀ as, (Node.query q).Path as →
      as.length ≤ 16 * (limit + 1) ^ 2) ∧
    (∀ text limit e, Scalar.parse text limit = .ok e → ∀ as, (Node.scalar e).Path as →
      as.length ≤ 16 * (limit + 1) ^ 2) := by
  constructor
  · intro text limit q hq as has
    rw [← Node.sum_weight_one]
    refine (Query.bears_of_parse hq 1 as has).trans ?_
    rw [Nat.add_sub_cancel_left]
    exact expressionWeight_one_le limit
  · intro text limit e he as has
    rw [← Node.sum_weight_one]
    exact (Scalar.bears_of_parse he 1 as has).trans (expressionWeight_one_le limit)

theorem parse_path_length_le_parentheses : ∃ q, Query.parse "SELECT VALUE ((1+1)*1)" 5 = .ok q ∧
    ∃ as, (Node.query q).Path as ∧ as.length = 4 ∧ as.length ≤ 16 * (5 + 1) ^ 2 := by
  obtain ⟨q, hq, hlength⟩ := exists_of_map
    (show (Query.parse "SELECT VALUE ((1+1)*1)" 5).toOption.map
      (fun q => ((Node.query q).leftmost 20).length) = some 4 by decide +kernel)
  have hpath := Node.path_leftmost 20 (.query q)
  exact ⟨q, hq, _, hpath, hlength, parse_path_length_le.1 _ _ q hq _ hpath⟩

end DocQuery
