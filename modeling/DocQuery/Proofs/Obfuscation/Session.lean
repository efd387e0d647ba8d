import DocQuery.Proofs.Obfuscation.Pass

/-!
# What sessions keep

* `Tree.hide_run`, `obfuscateSession_eq`: a tree with stand-ins is the tree relabelled by the ledger
  that comes out, and so is a session.
* `obfuscateSession_append`: what a session has given does not change when it goes on.
* `Tree.hide_shape`: a tree with stand-ins has the shape of the tree, and zeros for counts.
-/

namespace DocQuery

/-- What stands behind `TOP`, `OFFSET` or `LIMIT`. -/
def Leaf.count? : Leaf → Option Scalar
  | .count e => some e
  | _ => none

namespace Tree

/-- The leaves of a tree in the order of its text. -/
def leaves : Tree → List Leaf
  | .query q => q.leaves
  | .scalar e => e.leaves

/-- The tree with other words and numbers, and zeros for counts. -/
def relabel (ρ : Relabeling) : Tree → Tree
  | .query q => .query (q.relabel ρ)
  | .scalar e => .scalar (e.relabel ρ)

/-- The tree with `_` for all words and zero for all numbers and counts. -/
def shape (t : Tree) : Tree := t.relabel .blank

/-- The counts of a tree in the order of its text. -/
def counts (t : Tree) : List Scalar := t.leaves.filterMap Leaf.count?

theorem leaves_relabel (ρ : Relabeling) (t : Tree) :
    (t.relabel ρ).leaves = t.leaves.map (Leaf.relabel ρ) := by
  cases t with
  | query q => exact q.leaves_relabel ρ
  | scalar e => exact e.leaves_relabel ρ

theorem shape_relabel (ρ : Relabeling) (t : Tree) : (t.relabel ρ).shape = t.shape := by
  cases t with
  | query q => exact congrArg Tree.query (q.shape_relabel ρ)
  | scalar e => exact congrArg Tree.scalar (e.shape_relabel ρ)

theorem hide_writes {final : Ledger} (t : Tree) :
    Writes final t.hide t.leaves (t.relabel final.relabeling) := by
  cases t with
  | query q => exact q.hide_writes.map Tree.query
  | scalar e => exact e.hide_writes.map Tree.scalar

theorem list_hide_writes {final : Ledger} (trees : List Tree) :
    Writes final (trees.mapM hide) (trees.flatMap leaves)
      (trees.map (relabel final.relabeling)) := by
  induction trees with
  | nil => exact .pure final []
  | cons t trees ih =>
    rw [List.mapM_cons]
    exact t.hide_writes.bind (ih.bind_pure _)

/-- A tree with stand-ins is the tree relabelled by the ledger that comes out. -/
theorem hide_run (t : Tree) (l : Ledger) :
    t.hide.run l = (t.relabel (l.recordAll t.leaves).relabeling, l.recordAll t.leaves) :=
  t.hide_writes l (.refl _)

/-- A tree with stand-ins has the shape of the tree, whatever has been replaced before, and each count
is the integer 0. -/
theorem hide_shape (t : Tree) (l : Ledger) : (t.hide.run l).1.shape = t.shape ∧
    (t.hide.run l).1.counts = t.counts.map fun _ => .number (.integer 0) := by
  have hcount (ρ : Relabeling) (leaf : Leaf) :
      (leaf.relabel ρ).count? = leaf.count?.map fun _ => hiddenCount := by
    cases leaf <;> rfl
  refine ⟨by rw [hide_run, shape_relabel], ?_⟩
  rw [hide_run, counts, leaves_relabel]
  exact filterMap_relabel (hcount _) t.leaves

theorem obfuscate_eq (t : Tree) :
    t.obfuscate = t.relabel (Ledger.empty.recordAll t.leaves).relabeling := by
  rw [obfuscate, hide_run]

theorem obfuscate_query (q : Query) : (Tree.query q).obfuscate = .query q.obfuscate := rfl

end Tree

theorem Query.obfuscate_eq (q : Query) :
    q.obfuscate = q.relabel (Ledger.empty.recordAll q.leaves).relabeling :=
  Tree.query.inj ((Tree.obfuscate_query q).symm.trans (Tree.query q).obfuscate_eq)

/-- The ledger at the end of a session. -/
def sessionLedger (trees : List Tree) : Ledger :=
  Ledger.empty.recordAll (trees.flatMap Tree.leaves)

/-- A session relabels all its trees alike, by its own ledger or by any that goes on. -/
theorem obfuscateSession_eq_of_within {trees : List Tree} {final : Ledger}
    (h : (sessionLedger trees).Within final) :
    obfuscateSession trees = trees.map (Tree.relabel final.relabeling) :=
  congrArg Prod.fst (Tree.list_hide_writes trees .empty h)

theorem obfuscateSession_eq (trees : List Tree) :
    obfuscateSession trees = trees.map (Tree.relabel (sessionLedger trees).relabeling) :=
  obfuscateSession_eq_of_within (.refl _)

/-- What a session has given does not change when it goes on. -/
theorem obfuscateSession_append (trees more : List Tree) :
    obfuscateSession trees <+: obfuscateSession (trees ++ more) := by
  have hwithin : (sessionLedger trees).Within (sessionLedger (trees ++ more)) := by
    rw [sessionLedger, sessionLedger, List.flatMap_append, Ledger.recordAll_append]
    exact Ledger.within_recordAll _ _
  rw [obfuscateSession_eq (trees ++ more), obfuscateSession_eq_of_within hwithin, List.map_append]
  exact List.prefix_append _ _

end DocQuery
