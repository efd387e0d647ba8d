import DocQuery.Proofs.Obfuscation.Leaves
import DocQuery.Proofs.Tree.WellFormed

/-!
# Well-formed leaves

* `Query.isWellFormed_eq_and`, `Scalar.isWellFormed_eq_and`: a tree is well-formed if its shape and all
  its leaves are. So other words and numbers keep a tree well-formed if they are well-formed
  themselves (`Query.isWellFormed_relabel`).
-/

namespace DocQuery

/-- The leaf can stand in a text. -/
def Leaf.isWellFormed : Leaf → Bool
  | .word .identifier text => isIdentifier text
  | .word .parameter text => isName text
  | .word .string _ => true
  | .word .key _ => true
  | .number n => n.isPlain
  | .function name => isIdentifier name
  | .count e => e.isCount

theorem isName_blank : isName "_" = true := by decide

theorem isIdentifier_blank : isIdentifier "_" = true := by decide

theorem isCount_hiddenCount : hiddenCount.isCount = true := by decide

theorem Literal.isWellFormed_eq_and (v : Literal) : v.isWellFormed =
    ((v.relabel .blank).isWellFormed && v.leaves.all Leaf.isWellFormed) := by
  cases v with
  | number n => exact (Bool.and_true _).symm
  | _ => rfl

theorem Segment.isWellFormed_eq_and (s : Segment) : s.isWellFormed =
    ((s.relabel .blank).isWellFormed && s.leaf.isWellFormed) := by
  cases s with
  | name identifier => simp only [relabel, isWellFormed, Relabeling.blank, isIdentifier_blank]; rfl
  | _ => rfl

theorem alias_isWellFormed_eq_and (alias? : Option String) : isAlias alias? =
    (isAlias (alias?.map (Relabeling.blank.word .identifier)) &&
      (aliasLeaves alias?).all Leaf.isWellFormed) := by
  cases alias? with
  | none => rfl
  | some name =>
    simp [isAlias, aliasLeaves, Relabeling.blank, isIdentifier_blank, Leaf.isWellFormed]

theorem Source.isJoin_relabel (ρ : Relabeling) (s : Source) : (s.relabel ρ).isJoin = s.isJoin := by
  cases s <;> rfl

theorem Scalar.isEmpty_relabelList (ρ : Relabeling) (es : List Scalar) :
    (Scalar.relabelList ρ es).isEmpty = es.isEmpty := by
  cases es <;> rfl

theorem SelectItem.isEmpty_relabelList (ρ : Relabeling) (items : List SelectItem) :
    (SelectItem.relabelList ρ items).isEmpty = items.isEmpty := by
  obtain _ | ⟨⟨_, _⟩, _⟩ := items <;> rfl

theorem SortKey.isEmpty_relabelList (ρ : Relabeling) (keys : List SortKey) :
    (SortKey.relabelList ρ keys).isEmpty = keys.isEmpty := by
  obtain _ | ⟨⟨_, _⟩, _⟩ := keys <;> rfl

/-- A clause is well-formed if its shape and its leaves are, if what stands in it is so. -/
theorem clause_isWellFormed_eq_and {α : Type} {leaves : α → List Leaf} {shape : α → α}
    {isWellFormed : α → Bool} {a? : Option α}
    (h : ∀ a ∈ a?, isWellFormed a =
      (isWellFormed (shape a) && (leaves a).all Leaf.isWellFormed)) :
    a?.all isWellFormed =
      ((a?.map shape).all isWellFormed && (clauseLeaves leaves a?).all Leaf.isWellFormed) := by
  cases a? with
  | none => rfl
  | some a => exact h a rfl

mutual

theorem Scalar.isWellFormed_eq_relabel : (e : Scalar) → e.isWellFormed =
    ((e.relabel .blank).isWellFormed && e.leaves.all Leaf.isWellFormed)
  | .literal v => v.isWellFormed_eq_and
  | .unary op operand => Scalar.isWellFormed_eq_relabel operand
  | .binary op left right => by
    simp only [Scalar.isWellFormed, Scalar.relabel, Scalar.leaves, List.all_append,
      Scalar.isWellFormed_eq_relabel left, Scalar.isWellFormed_eq_relabel right]
    ac_rfl
  | .between subject low high negated => by
    simp only [Scalar.isWellFormed, Scalar.relabel, Scalar.leaves, List.all_append,
      Scalar.isWellFormed_eq_relabel subject, Scalar.isWellFormed_eq_relabel low,
      Scalar.isWellFormed_eq_relabel high]
    ac_rfl
  | .conditional condition consequent alternative => by
    simp only [Scalar.isWellFormed, Scalar.relabel, Scalar.leaves, List.all_append,
      Scalar.isWellFormed_eq_relabel condition, Scalar.isWellFormed_eq_relabel consequent,
      Scalar.isWellFormed_eq_relabel alternative]
    ac_rfl
  | .coalesce left right => by
    simp only [Scalar.isWellFormed, Scalar.relabel, Scalar.leaves, List.all_append,
      Scalar.isWellFormed_eq_relabel left, Scalar.isWellFormed_eq_relabel right]
    ac_rfl
  | .among subject items negated => by
    simp only [Scalar.isWellFormed, Scalar.relabel, Scalar.leaves, List.all_append,
      Scalar.isEmpty_relabelList, Scalar.isWellFormed_eq_relabel subject,
      Scalar.allWellFormed_eq_relabel items]
    ac_rfl
  | .subquery use query => Query.isWellFormed_eq_relabel query
  | .call function userDefined arguments => by
    -- The name of the function stands in the shape and is a leaf.
    simp only [Scalar.isWellFormed, Scalar.relabel, Scalar.leaves, List.all_cons, Leaf.isWellFormed,
      Scalar.allWellFormed_eq_relabel arguments]
    cases isIdentifier function <;> simp
  | .index owner index => by
    simp only [Scalar.isWellFormed, Scalar.relabel, Scalar.leaves, List.all_append,
      Scalar.isWellFormed_eq_relabel owner, Scalar.isWellFormed_eq_relabel index]
    ac_rfl
  | .name identifier => by
    simp [Scalar.isWellFormed, Scalar.relabel, Scalar.leaves, Leaf.isWellFormed, Relabeling.blank,
      isIdentifier_blank]
  | .property owner identifier => by
    simp [Scalar.isWellFormed, Scalar.relabel, Scalar.leaves, Leaf.isWellFormed, Relabeling.blank,
      isIdentifier_blank, Scalar.isWellFormed_eq_relabel owner, Bool.and_assoc]
  | .parameter name => by
    simp [Scalar.isWellFormed, Scalar.relabel, Scalar.leaves, Leaf.isWellFormed, Relabeling.blank,
      isName_blank]
  | .array items => Scalar.allWellFormed_eq_relabel items
  | .object fields => Field.allWellFormed_eq_relabel fields
termination_by structural e => e

theorem Scalar.allWellFormed_eq_relabel : (es : List Scalar) → Scalar.allWellFormed es =
    (Scalar.allWellFormed (Scalar.relabelList .blank es) &&
      (Scalar.listLeaves es).all Leaf.isWellFormed)
  | [] => rfl
  | e :: rest => by
    simp only [Scalar.allWellFormed, Scalar.relabelList, Scalar.listLeaves, List.all_append,
      Scalar.isWellFormed_eq_relabel e, Scalar.allWellFormed_eq_relabel rest]
    ac_rfl
termination_by structural es => es

theorem Field.allWellFormed_eq_relabel : (fields : List Field) → Field.allWellFormed fields =
    (Field.allWellFormed (Field.relabelList .blank fields) &&
      (Field.listLeaves fields).all Leaf.isWellFormed)
  | [] => rfl
  | ⟨_, value⟩ :: rest => by
    simp only [Field.allWellFormed, Field.relabelList, Field.listLeaves, List.all_cons,
      List.all_append, Leaf.isWellFormed, Bool.true_and, Scalar.isWellFormed_eq_relabel value,
      Field.allWellFormed_eq_relabel rest]
    ac_rfl
termination_by structural fields => fields

theorem SelectItem.allWellFormed_eq_relabel : (items : List SelectItem) →
    SelectItem.allWellFormed items = (SelectItem.allWellFormed (SelectItem.relabelList .blank items) &&
      (SelectItem.listLeaves items).all Leaf.isWellFormed)
  | [] => rfl
  | ⟨e, alias?⟩ :: rest => by
    simp only [SelectItem.allWellFormed, SelectItem.relabelList, SelectItem.listLeaves,
      List.all_append, Scalar.isWellFormed_eq_relabel e, alias_isWellFormed_eq_and alias?,
      SelectItem.allWellFormed_eq_relabel rest]
    ac_rfl
termination_by structural items => items

theorem SortKey.allWellFormed_eq_relabel : (keys : List SortKey) → SortKey.allWellFormed keys =
    (SortKey.allWellFormed (SortKey.relabelList .blank keys) &&
      (SortKey.listLeaves keys).all Leaf.isWellFormed)
  | [] => rfl
  | ⟨e, _⟩ :: rest => by
    simp only [SortKey.allWellFormed, SortKey.relabelList, SortKey.listLeaves, List.all_append,
      Scalar.isWellFormed_eq_relabel e, SortKey.allWellFormed_eq_relabel rest]
    ac_rfl
termination_by structural keys => keys

theorem Projection.isWellFormed_eq_relabel : (p : Projection) → p.isWellFormed =
    ((p.relabel .blank).isWellFormed && p.leaves.all Leaf.isWellFormed)
  | .all => rfl
  | .items items => by
    simp only [Projection.isWellFormed, Projection.relabel, Projection.leaves,
      SelectItem.isEmpty_relabelList, SelectItem.allWellFormed_eq_relabel items, Bool.and_assoc]
  | .value e => Scalar.isWellFormed_eq_relabel e
termination_by structural p => p

theorem Collection.isWellFormed_eq_relabel : (c : Collection) → c.isWellFormed =
    ((c.relabel .blank).isWellFormed && c.leaves.all Leaf.isWellFormed)
  | .path input segments => by
    have hsegments : segments.all Segment.isWellFormed =
        ((segments.map (Segment.relabel .blank)).all Segment.isWellFormed &&
          (segments.map Segment.leaf).all Leaf.isWellFormed) := by
      induction segments with
      | nil => rfl
      | cons s ss ih =>
        simp only [List.map_cons, List.all_cons, s.isWellFormed_eq_and, ih]
        ac_rfl
    simp only [Collection.isWellFormed, Collection.relabel, Collection.leaves, List.all_cons,
      Leaf.isWellFormed, Relabeling.blank, isIdentifier_blank, Bool.true_and, hsegments]
    ac_rfl
  | .subquery query => Query.isWellFormed_eq_relabel query
  | .array items => by
    simp only [Collection.isWellFormed, Collection.relabel, Collection.leaves,
      Scalar.isEmpty_relabelList, Scalar.allWellFormed_eq_relabel items, Bool.and_assoc]
termination_by structural c => c

theorem Source.isWellFormed_eq_relabel : (s : Source) → s.isWellFormed =
    ((s.relabel .blank).isWellFormed && s.leaves.all Leaf.isWellFormed)
  | .aliased collection alias? => by
    simp only [Source.isWellFormed, Source.relabel, Source.leaves, List.all_append,
      Collection.isWellFormed_eq_relabel collection, alias_isWellFormed_eq_and alias?]
    ac_rfl
  | .each element collection => by
    simp only [Source.isWellFormed, Source.relabel, Source.leaves, List.all_cons, Leaf.isWellFormed,
      Relabeling.blank, isIdentifier_blank, Bool.true_and,
      Collection.isWellFormed_eq_relabel collection]
    ac_rfl
  | .join left right => by
    simp only [Source.isWellFormed, Source.relabel, Source.leaves, List.all_append,
      Source.isJoin_relabel, Source.isWellFormed_eq_relabel left,
      Source.isWellFormed_eq_relabel right]
    ac_rfl
termination_by structural s => s

theorem Query.isWellFormed_eq_relabel : (q : Query) → q.isWellFormed =
    ((q.relabel .blank).isWellFormed && q.leaves.all Leaf.isWellFormed)
  | ⟨_, top?, projection, source?, filter?, groupKeys?, sortKeys?, window?⟩ => by
    have htop : top?.all Scalar.isCount = ((top?.map fun _ => hiddenCount).all Scalar.isCount &&
        (clauseLeaves (fun count => [.count count]) top?).all Leaf.isWellFormed) :=
      clause_isWellFormed_eq_and fun count _ => by
        simp [isCount_hiddenCount, Leaf.isWellFormed]
    have hsource : source?.all Source.isWellFormed =
        ((source?.map (Source.relabel .blank)).all Source.isWellFormed &&
          (clauseLeaves Source.leaves source?).all Leaf.isWellFormed) := by
      cases source? with
      | none => rfl
      | some s => exact Source.isWellFormed_eq_relabel s
    have hfilter : filter?.all Scalar.isWellFormed =
        ((filter?.map (Scalar.relabel .blank)).all Scalar.isWellFormed &&
          (clauseLeaves Scalar.leaves filter?).all Leaf.isWellFormed) := by
      cases filter? with
      | none => rfl
      | some e => exact Scalar.isWellFormed_eq_relabel e
    have hgroup : groupKeys?.all (fun keys => !keys.isEmpty && Scalar.allWellFormed keys) =
        ((groupKeys?.map (Scalar.relabelList .blank)).all
            (fun keys => !keys.isEmpty && Scalar.allWellFormed keys) &&
          (clauseLeaves Scalar.listLeaves groupKeys?).all Leaf.isWellFormed) := by
      cases groupKeys? with
      | none => rfl
      | some keys =>
        simp only [Option.all_some, Option.map_some, clauseLeaves, Option.elim_some,
          Scalar.isEmpty_relabelList, Scalar.allWellFormed_eq_relabel keys, Bool.and_assoc]
    have hsort : sortKeys?.all (fun keys => !keys.isEmpty && SortKey.allWellFormed keys) =
        ((sortKeys?.map (SortKey.relabelList .blank)).all
            (fun keys => !keys.isEmpty && SortKey.allWellFormed keys) &&
          (clauseLeaves SortKey.listLeaves sortKeys?).all Leaf.isWellFormed) := by
      cases sortKeys? with
      | none => rfl
      | some keys =>
        simp only [Option.all_some, Option.map_some, clauseLeaves, Option.elim_some,
          SortKey.isEmpty_relabelList, SortKey.allWellFormed_eq_relabel keys, Bool.and_assoc]
    have hwindow : window?.all Window.isWellFormed =
        ((window?.map fun _ => ⟨hiddenCount, hiddenCount⟩).all Window.isWellFormed &&
          (clauseLeaves Window.leaves window?).all Leaf.isWellFormed) :=
      clause_isWellFormed_eq_and fun w _ => by
        simp [Window.isWellFormed, Window.leaves, isCount_hiddenCount, Leaf.isWellFormed]
    rw [Query.relabel_eq]
    simp only [Query.isWellFormed_eq, Query.leaves_eq, List.all_append, htop,
      Projection.isWellFormed_eq_relabel projection, hsource, hfilter, hgroup, hsort, hwindow]
    ac_rfl
termination_by structural q => q

end

/-- A scalar is well-formed if its shape and all its leaves are. -/
theorem Scalar.isWellFormed_eq_and (e : Scalar) :
    e.isWellFormed = (e.shape.isWellFormed && e.leaves.all Leaf.isWellFormed) :=
  e.isWellFormed_eq_relabel

/-- A query is well-formed if its shape and all its leaves are. -/
theorem Query.isWellFormed_eq_and (q : Query) :
    q.isWellFormed = (q.shape.isWellFormed && q.leaves.all Leaf.isWellFormed) :=
  q.isWellFormed_eq_relabel

/-- With other words and numbers, a well-formed query is well-formed if its leaves are. -/
theorem Query.isWellFormed_relabel {q : Query} (h : q.isWellFormed = true) (ρ : Relabeling) :
    (q.relabel ρ).isWellFormed = (q.leaves.map (Leaf.relabel ρ)).all Leaf.isWellFormed := by
  rw [isWellFormed_eq_and, Bool.and_eq_true] at h
  rw [isWellFormed_eq_and, shape_relabel, h.1, Bool.true_and, leaves_relabel]

end DocQuery
