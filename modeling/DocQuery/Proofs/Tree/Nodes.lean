import Mathlib.Algebra.GroupWithZero.Nat
import Mathlib.Algebra.Order.Group.Nat
import Mathlib.Data.List.Induction
import DocQuery.Tree.Basic

/-!
# Nodes of a tree and paths down from them

* `Node.children`: the nodes right below a node.
* `Node.Path a as`: the nodes `as` lead down from `a`, each right below the one before it. A path
  may end at a leaf or before it.
* `Node.isLevel`: the nodes that a limit of nesting is meant to count: prefix operators, subqueries,
  and the links of chains.
* `Node.Walk a k as`: such a path that goes `k` times from a link to what stands before it; and
  `Node.Nests a n`: but for these steps there are no more than `n` levels on a path.
* `Node.Bears flat a k`: on no path down from `a` do the nodes weigh more than `k`, where a level
  weighs one and any other node weighs `flat`.
-/

namespace DocQuery

/-- A node of a tree. -/
inductive Node where
  | scalar (e : Scalar)
  | query (q : Query)
  | source (s : Source)
  | collection (c : Collection)
  /-- The last of some steps of a path, with the steps before it below it. -/
  | steps (segments : List Segment)

/-! ## Children -/

/-- The node of the last step, if there is one. -/
def Segment.nodes : List Segment → List Node
  | [] => []
  | segments => [.steps segments]

theorem Segment.nodes_concat (segments : List Segment) (s : Segment) :
    Segment.nodes (segments ++ [s]) = [.steps (segments ++ [s])] := by
  cases segments <;> rfl

def Scalar.children : Scalar → List Node
  | .literal _ => []
  | .unary _ operand => [.scalar operand]
  | .binary _ left right => [.scalar left, .scalar right]
  | .between subject low high _ => [.scalar subject, .scalar low, .scalar high]
  | .conditional condition consequent alternative =>
    [.scalar condition, .scalar consequent, .scalar alternative]
  | .coalesce left right => [.scalar left, .scalar right]
  | .among subject items _ => .scalar subject :: items.map .scalar
  | .subquery _ query => [.query query]
  | .call _ _ arguments => arguments.map .scalar
  | .index owner key => [.scalar owner, .scalar key]
  | .name _ => []
  | .property owner _ => [.scalar owner]
  | .parameter _ => []
  | .array items => items.map .scalar
  | .object fields => fields.map fun f => .scalar f.value

def Projection.children : Projection → List Node
  | .all => []
  | .items selected => selected.map fun i => .scalar i.expression
  | .value e => [.scalar e]

def Window.children (w : Window) : List Node := [.scalar w.offset, .scalar w.limit]

def Query.children (q : Query) : List Node :=
  q.top?.toList.map .scalar ++ (q.projection.children ++ (q.source?.toList.map .source ++
    (q.filter?.toList.map .scalar ++ ((q.groupKeys?.getD []).map .scalar ++
      ((q.sortKeys?.getD []).map (fun k => .scalar k.expression) ++
        q.window?.toList.flatMap Window.children)))))

def Collection.children : Collection → List Node
  | .path _ segments => Segment.nodes segments
  | .subquery query => [.query query]
  | .array items => items.map .scalar

def Source.children : Source → List Node
  | .aliased collection _ => [.collection collection]
  | .each _ collection => [.collection collection]
  | .join left right => [.source left, .source right]

namespace Node

/-- The nodes right below a node. -/
def children : Node → List Node
  | scalar e => e.children
  | query q => q.children
  | source s => s.children
  | collection c => c.children
  | steps segments => Segment.nodes segments.dropLast

/-- The nodes lead down from the first, each right below the one before it. -/
inductive Path : Node → List Node → Prop
  | here (a) : Path a [a]
  | down {a b as} (hb : b ∈ a.children) (h : Path b as) : Path a (a :: as)

/-- The nodes that lead down by the first child, so many steps at most. -/
def leftmost : Nat → Node → List Node
  | 0, a => [a]
  | n + 1, a =>
    match a.children with
    | [] => [a]
    | b :: _ => a :: b.leftmost n

theorem path_leftmost (n : Nat) (a : Node) : a.Path (a.leftmost n) := by
  induction n generalizing a with
  | zero => exact .here a
  | succ n ih =>
    rw [leftmost]
    cases hchildren : a.children with
    | nil => exact .here a
    | cons b bs => exact .down (hchildren ▸ List.mem_cons_self) (ih b)

/-- The node is a prefix operator, a subquery, or a link of a chain of infix operators, accesses,
joins or steps. -/
def isLevel : Node → Bool
  | scalar (.unary ..) => true
  | scalar (.binary ..) => true
  | scalar (.between ..) => true
  | scalar (.coalesce ..) => true
  | scalar (.among ..) => true
  | scalar (.subquery ..) => true
  | scalar (.index ..) => true
  | scalar (.property ..) => true
  | source (.join ..) => true
  | collection (.subquery _) => true
  | steps _ => true
  | _ => false

/-! ## Steps to what stands before a link -/

/-- What stands before a link: it has been read when the link begins. -/
def earlier : Node → List Node
  | scalar (.binary _ left _) => [.scalar left]
  | scalar (.between subject _ _ _) => [.scalar subject]
  | scalar (.coalesce left _) => [.scalar left]
  | scalar (.among subject _ _) => [.scalar subject]
  | scalar (.index owner _) => [.scalar owner]
  | scalar (.property owner _) => [.scalar owner]
  | source (.join left _) => [.source left]
  | steps segments => Segment.nodes segments.dropLast
  | _ => []

/-- The other nodes below a node. -/
def later : Node → List Node
  | scalar (.binary _ _ right) => [.scalar right]
  | scalar (.between _ low high _) => [.scalar low, .scalar high]
  | scalar (.coalesce _ right) => [.scalar right]
  | scalar (.among _ items _) => items.map .scalar
  | scalar (.index _ key) => [.scalar key]
  | scalar (.property _ _) => []
  | source (.join _ right) => [.source right]
  | steps _ => []
  | a => a.children

theorem children_eq (a : Node) : a.children = a.earlier ++ a.later := by
  cases a with
  | scalar e => cases e <;> rfl
  | source s => cases s <;> rfl
  | steps segments => exact (List.append_nil _).symm
  | query => rfl
  | collection => rfl

/-- Only links have something before them. -/
theorem earlier_eq_nil {a : Node} (h : a.isLevel = false) : a.earlier = [] := by
  cases a with
  | scalar e => cases e <;> first | rfl | cases h
  | source s => cases s <;> first | rfl | cases h
  | steps => cases h
  | query => rfl
  | collection => rfl

/-- The nodes lead down from the first, `k` times from a link to what stands before it. -/
inductive Walk : Node → (k : Nat) → List Node → Prop
  | here (a) : Walk a 0 [a]
  | earlier {a b k as} (hb : b ∈ a.earlier) (h : Walk b k as) : Walk a (k + 1) (a :: as)
  | later {a b k as} (hb : b ∈ a.later) (h : Walk b k as) : Walk a k (a :: as)

theorem Path.exists_walk {a as} (h : Path a as) : ∃ k, a.Walk k as := by
  induction h with
  | here a => exact ⟨0, .here a⟩
  | down hb _ ih =>
    obtain ⟨k, hk⟩ := ih
    rw [children_eq, List.mem_append] at hb
    rcases hb with hb | hb
    · exact ⟨k + 1, .earlier hb hk⟩
    · exact ⟨k, .later hb hk⟩

theorem Walk.path {a k as} (h : Walk a k as) : a.Path as := by
  induction h with
  | here a => exact .here a
  | earlier hb _ ih => exact .down (by rw [children_eq]; exact List.mem_append_left _ hb) ih
  | later hb _ ih => exact .down (by rw [children_eq]; exact List.mem_append_right _ hb) ih

/-- Down from the node there are no more than `n` levels, but for one more with each step to what
stands before a link. -/
def Nests (a : Node) (n : Nat) : Prop := ∀ k as, a.Walk k as → as.countP isLevel ≤ n + k

section

variable {a : Node} {n m : Nat}

theorem Nests.mono (h : a.Nests n) (hn : n ≤ m) : a.Nests m :=
  fun k as has => (h k as has).trans (Nat.add_le_add_right hn k)

/-- A node that is no level. -/
theorem nests_flat (hlevel : a.isLevel = false) (h : ∀ b ∈ a.later, b.Nests n) : a.Nests n := by
  intro k as has
  cases has with
  | here => simp [hlevel]
  | earlier hb =>
    rw [earlier_eq_nil hlevel] at hb
    cases hb
  | later hb hwalk =>
    rw [List.countP_cons_of_neg (by simp [hlevel])]
    exact h _ hb _ _ hwalk

/-- A level: what stands before it does not nest in it. -/
theorem nests_level (hlevel : a.isLevel = true) (hearlier : ∀ b ∈ a.earlier, b.Nests n)
    (hlater : ∀ b ∈ a.later, b.Nests m) (hm : m + 1 ≤ n) : a.Nests n := by
  intro k as has
  cases has with
  | here =>
    rw [List.countP_cons_of_pos hlevel, List.countP_nil]
    omega
  | earlier hb hwalk =>
    have hcount := hearlier _ hb _ _ hwalk
    rw [List.countP_cons_of_pos hlevel]
    omega
  | later hb hwalk =>
    have hcount := hlater _ hb _ _ hwalk
    rw [List.countP_cons_of_pos hlevel]
    omega

theorem nests_steps (segments : List Segment) :
    ∀ a ∈ Segment.nodes segments, a.Nests segments.length := by
  induction segments using List.reverseRecOn with
  | nil => nofun
  | append_singleton segments s ih =>
    intro a ha
    rw [Segment.nodes_concat, List.mem_singleton] at ha
    subst ha
    refine nests_level (m := 0) rfl (fun b hb => ?_) nofun (by simp)
    rw [earlier, List.dropLast_concat] at hb
    exact (ih b hb).mono (by simp)

end

/-! ## Weights -/

/-- A level weighs one, any other node weighs `flat`. -/
def weight (flat : Nat) (a : Node) : Nat := if a.isLevel then 1 else flat

theorem sum_weight_zero (as : List Node) : (as.map (weight 0)).sum = as.countP isLevel := by
  induction as with
  | nil => rfl
  | cons a as ih =>
    rw [List.map_cons, List.sum_cons, ih, List.countP_cons, weight]
    omega

theorem sum_weight_one (as : List Node) : (as.map (weight 1)).sum = as.length := by
  induction as with
  | nil => rfl
  | cons a as ih =>
    rw [List.map_cons, List.sum_cons, ih, weight, ite_self, List.length_cons, Nat.add_comm]

/-- On no path down from the node do the nodes weigh more than `k`. -/
def Bears (flat : Nat) (a : Node) (k : Nat) : Prop :=
  ∀ as, a.Path as → (as.map (weight flat)).sum ≤ k

section

variable {flat k m : Nat} {a : Node}

theorem Bears.mono (h : a.Bears flat k) (hk : k ≤ m) : a.Bears flat m :=
  fun as has => (h as has).trans hk

/-- The node itself, and below it what each of its children bears. -/
theorem bears_of_children (h : ∀ b ∈ a.children, b.Bears flat k) :
    a.Bears flat (a.weight flat + k) := by
  intro as has
  cases has with
  | here =>
    rw [List.map_singleton, List.sum_singleton]
    exact Nat.le_add_right _ _
  | down hb hpath =>
    rw [List.map_cons, List.sum_cons]
    exact Nat.add_le_add_left (h _ hb _ hpath) _

/-- A node that is no level. -/
theorem bears_flat (hlevel : a.isLevel = false) (h : ∀ b ∈ a.children, b.Bears flat k) :
    a.Bears flat (flat + k) := by
  have ha := bears_of_children h
  rwa [weight, hlevel, if_neg (by decide)] at ha

/-- A node that is a level. -/
theorem bears_level (hlevel : a.isLevel = true) (h : ∀ b ∈ a.children, b.Bears flat k) :
    a.Bears flat (1 + k) := by
  have ha := bears_of_children h
  rwa [weight, hlevel, if_pos rfl] at ha

/-- A leaf. -/
theorem bears_leaf (hlevel : a.isLevel = false) (h : a.children = []) : a.Bears flat flat :=
  bears_flat (k := 0) hlevel (by simp [h])

/-- Each step of a path is a level. -/
theorem bears_steps (segments : List Segment) :
    ∀ a ∈ Segment.nodes segments, a.Bears flat segments.length := by
  induction segments using List.reverseRecOn with
  | nil => nofun
  | append_singleton segments s ih =>
    intro a ha
    rw [Segment.nodes_concat, List.mem_singleton] at ha
    subst ha
    have hchildren : (steps (segments ++ [s])).children = Segment.nodes segments := by
      rw [children, List.dropLast_concat]
    refine (bears_level (k := segments.length) rfl (hchildren ▸ ih)).mono ?_
    rw [List.length_append, List.length_singleton, Nat.add_comm]

end

end Node

end DocQuery
