import Mathlib.Data.List.Basic
import DocQuery.Obfuscation.Session

/-!
# Leaves and shapes of trees

A tree is a shape with leaves. The leaves are its words, numbers and function names, and the counts
of `TOP`, `OFFSET` and `LIMIT` as they stand.

* `Query.leaves`, `Scalar.leaves`: the leaves in the order of the text.
* `Query.relabel`, `Scalar.relabel`: the tree with other words and numbers, and zeros for counts.
* `Query.shape`, `Scalar.shape`: the tree with `_` for all words and zero for all numbers and counts.
* `leaves_relabel`, `shape_relabel`: other words and numbers are the leaves of the new tree, and leave
  its shape as it was.
-/

namespace DocQuery

/-- What a tree holds at the places where trees of one shape may differ, and its function names. -/
inductive Leaf where
  /-- A name or a string. -/
  | word (category : Category) (text : String)
  | number (value : Number)
  | function (name : String)
  /-- What stands behind `TOP`, `OFFSET` or `LIMIT`. -/
  | count (value : Scalar)

/-- Other words and numbers for those of a tree. -/
structure Relabeling where
  word : Category → String → String
  number : Number → Number

/-- `_` for all words and zero for all numbers. -/
def Relabeling.blank : Relabeling := ⟨fun _ _ => "_", fun _ => .integer 0⟩

/-- The leaf at the same place of the tree with other words and numbers. -/
def Leaf.relabel (ρ : Relabeling) : Leaf → Leaf
  | .word category text => .word category (ρ.word category text)
  | .number n => .number (ρ.number n)
  | .function name => .function name
  | .count _ => .count hiddenCount

/-! ## Leaves -/

def Literal.leaves : Literal → List Leaf
  | .number n => [.number n]
  | .string s => [.word .string s]
  | _ => []

def Segment.leaf : Segment → Leaf
  | .name identifier => .word .identifier identifier
  | .number n => .number n
  | .string s => .word .string s

def aliasLeaves : Option String → List Leaf
  | some name => [.word .identifier name]
  | none => []

def Window.leaves (w : Window) : List Leaf := [.count w.offset, .count w.limit]

mutual

/-- The leaves of a scalar in the order of its text. -/
def Scalar.leaves : Scalar → List Leaf
  | .literal value => value.leaves
  | .unary _ operand => operand.leaves
  | .binary _ left right => left.leaves ++ right.leaves
  | .between subject low high _ => subject.leaves ++ (low.leaves ++ high.leaves)
  | .conditional condition consequent alternative =>
    condition.leaves ++ (consequent.leaves ++ alternative.leaves)
  | .coalesce left right => left.leaves ++ right.leaves
  | .among subject items _ => subject.leaves ++ Scalar.listLeaves items
  | .subquery _ query => query.leaves
  | .call function _ arguments => .function function :: Scalar.listLeaves arguments
  | .index owner index => owner.leaves ++ index.leaves
  | .name identifier => [.word .identifier identifier]
  | .property owner identifier => owner.leaves ++ [.word .identifier identifier]
  | .parameter name => [.word .parameter name]
  | .array items => Scalar.listLeaves items
  | .object fields => Field.listLeaves fields

def Scalar.listLeaves : List Scalar → List Leaf
  | [] => []
  | e :: rest => e.leaves ++ Scalar.listLeaves rest

def Field.listLeaves : List Field → List Leaf
  | [] => []
  | ⟨key, value⟩ :: rest => .word .key key :: (value.leaves ++ Field.listLeaves rest)

def SelectItem.listLeaves : List SelectItem → List Leaf
  | [] => []
  | ⟨e, alias?⟩ :: rest => e.leaves ++ (aliasLeaves alias? ++ SelectItem.listLeaves rest)

def SortKey.listLeaves : List SortKey → List Leaf
  | [] => []
  | ⟨e, _⟩ :: rest => e.leaves ++ SortKey.listLeaves rest

def Projection.leaves : Projection → List Leaf
  | .all => []
  | .items items => SelectItem.listLeaves items
  | .value e => e.leaves

def Collection.leaves : Collection → List Leaf
  | .path input segments => .word .identifier input :: segments.map Segment.leaf
  | .subquery query => query.leaves
  | .array items => Scalar.listLeaves items

def Source.leaves : Source → List Leaf
  | .aliased collection alias? => collection.leaves ++ aliasLeaves alias?
  | .each element collection => .word .identifier element :: collection.leaves
  | .join left right => left.leaves ++ right.leaves

/-- The leaves of a query in the order of its text. -/
def Query.leaves : Query → List Leaf
  | ⟨_, top?, projection, source?, filter?, groupKeys?, sortKeys?, window?⟩ =>
    (match top? with
      | some count => [.count count]
      | none => []) ++ (projection.leaves ++
    ((match source? with
      | some source => source.leaves
      | none => []) ++
    ((match filter? with
      | some e => e.leaves
      | none => []) ++
    ((match groupKeys? with
      | some keys => Scalar.listLeaves keys
      | none => []) ++
    ((match sortKeys? with
      | some keys => SortKey.listLeaves keys
      | none => []) ++
    (match window? with
      | some window => window.leaves
      | none => []))))))

end

/-- The leaves of a clause, if it is there. -/
def clauseLeaves {α : Type} (leaves : α → List Leaf) (a? : Option α) : List Leaf := a?.elim [] leaves

/-- The leaves of a query, clause by clause. -/
theorem Query.leaves_eq (q : Query) : q.leaves =
    clauseLeaves (fun count => [.count count]) q.top? ++ (q.projection.leaves ++
      (clauseLeaves Source.leaves q.source? ++ (clauseLeaves Scalar.leaves q.filter? ++
      (clauseLeaves Scalar.listLeaves q.groupKeys? ++ (clauseLeaves SortKey.listLeaves q.sortKeys? ++
      clauseLeaves Window.leaves q.window?))))) := by
  obtain ⟨_, top?, _, source?, filter?, groupKeys?, sortKeys?, window?⟩ := q
  -- The recursion goes through the clauses, so it goes on only where each is known to be there.
  cases top? <;> cases source? <;> cases filter? <;> cases groupKeys? <;> cases sortKeys? <;>
    cases window? <;> rfl

/-! ## Other words and numbers -/

def Literal.relabel (ρ : Relabeling) : Literal → Literal
  | .number n => .number (ρ.number n)
  | .string s => .string (ρ.word .string s)
  | v => v

def Segment.relabel (ρ : Relabeling) : Segment → Segment
  | .name identifier => .name (ρ.word .identifier identifier)
  | .number n => .number (ρ.number n)
  | .string s => .string (ρ.word .string s)

mutual

/-- A scalar with other words and numbers, and zeros for counts. -/
def Scalar.relabel (ρ : Relabeling) : Scalar → Scalar
  | .literal value => .literal (value.relabel ρ)
  | .unary op operand => .unary op (operand.relabel ρ)
  | .binary op left right => .binary op (left.relabel ρ) (right.relabel ρ)
  | .between subject low high negated =>
    .between (subject.relabel ρ) (low.relabel ρ) (high.relabel ρ) negated
  | .conditional condition consequent alternative =>
    .conditional (condition.relabel ρ) (consequent.relabel ρ) (alternative.relabel ρ)
  | .coalesce left right => .coalesce (left.relabel ρ) (right.relabel ρ)
  | .among subject items negated =>
    .among (subject.relabel ρ) (Scalar.relabelList ρ items) negated
  | .subquery use query => .subquery use (query.relabel ρ)
  | .call function userDefined arguments =>
    .call function userDefined (Scalar.relabelList ρ arguments)
  | .index owner index => .index (owner.relabel ρ) (index.relabel ρ)
  | .name identifier => .name (ρ.word .identifier identifier)
  | .property owner identifier => .property (owner.relabel ρ) (ρ.word .identifier identifier)
  | .parameter name => .parameter (ρ.word .parameter name)
  | .array items => .array (Scalar.relabelList ρ items)
  | .object fields => .object (Field.relabelList ρ fields)

def Scalar.relabelList (ρ : Relabeling) : List Scalar → List Scalar
  | [] => []
  | e :: rest => e.relabel ρ :: Scalar.relabelList ρ rest

def Field.relabelList (ρ : Relabeling) : List Field → List Field
  | [] => []
  | ⟨key, value⟩ :: rest => ⟨ρ.word .key key, value.relabel ρ⟩ :: Field.relabelList ρ rest

def SelectItem.relabelList (ρ : Relabeling) : List SelectItem → List SelectItem
  | [] => []
  | ⟨e, alias?⟩ :: rest =>
    ⟨e.relabel ρ, alias?.map (ρ.word .identifier)⟩ :: SelectItem.relabelList ρ rest

def SortKey.relabelList (ρ : Relabeling) : List SortKey → List SortKey
  | [] => []
  | ⟨e, descending⟩ :: rest => ⟨e.relabel ρ, descending⟩ :: SortKey.relabelList ρ rest

def Projection.relabel (ρ : Relabeling) : Projection → Projection
  | .all => .all
  | .items items => .items (SelectItem.relabelList ρ items)
  | .value e => .value (e.relabel ρ)

def Collection.relabel (ρ : Relabeling) : Collection → Collection
  | .path input segments => .path (ρ.word .identifier input) (segments.map (Segment.relabel ρ))
  | .subquery query => .subquery (query.relabel ρ)
  | .array items => .array (Scalar.relabelList ρ items)

def Source.relabel (ρ : Relabeling) : Source → Source
  | .aliased collection alias? =>
    .aliased (collection.relabel ρ) (alias?.map (ρ.word .identifier))
  | .each element collection => .each (ρ.word .identifier element) (collection.relabel ρ)
  | .join left right => .join (left.relabel ρ) (right.relabel ρ)

/-- A query with other words and numbers, and zeros for counts. -/
def Query.relabel (ρ : Relabeling) : Query → Query
  | ⟨distinct, top?, projection, source?, filter?, groupKeys?, sortKeys?, window?⟩ =>
    ⟨distinct, top?.map fun _ => hiddenCount, projection.relabel ρ,
      (match source? with
        | some source => some (source.relabel ρ)
        | none => none),
      (match filter? with
        | some e => some (e.relabel ρ)
        | none => none),
      (match groupKeys? with
        | some keys => some (Scalar.relabelList ρ keys)
        | none => none),
      (match sortKeys? with
        | some keys => some (SortKey.relabelList ρ keys)
        | none => none),
      window?.map fun _ => ⟨hiddenCount, hiddenCount⟩⟩

end

/-- A query with other words and numbers, clause by clause. -/
theorem Query.relabel_eq (ρ : Relabeling) (q : Query) : q.relabel ρ =
    ⟨q.distinct, q.top?.map fun _ => hiddenCount, q.projection.relabel ρ,
      q.source?.map (Source.relabel ρ), q.filter?.map (Scalar.relabel ρ),
      q.groupKeys?.map (Scalar.relabelList ρ), q.sortKeys?.map (SortKey.relabelList ρ),
      q.window?.map fun _ => ⟨hiddenCount, hiddenCount⟩⟩ := by
  obtain ⟨_, _, _, source?, filter?, groupKeys?, sortKeys?, _⟩ := q
  cases source? <;> cases filter? <;> cases groupKeys? <;> cases sortKeys? <;> rfl

/-- The scalar with `_` for all words and zero for all numbers and counts. -/
def Scalar.shape (e : Scalar) : Scalar := e.relabel .blank

/-- The query with `_` for all words and zero for all numbers and counts. -/
def Query.shape (q : Query) : Query := q.relabel .blank

/-! ## The leaves of a relabelled tree -/

theorem Literal.leaves_relabel (ρ : Relabeling) (v : Literal) :
    (v.relabel ρ).leaves = v.leaves.map (Leaf.relabel ρ) := by
  cases v <;> rfl

theorem Segment.leaf_relabel (ρ : Relabeling) (s : Segment) :
    (s.relabel ρ).leaf = s.leaf.relabel ρ := by
  cases s <;> rfl

theorem aliasLeaves_map (ρ : Relabeling) (alias? : Option String) :
    aliasLeaves (alias?.map (ρ.word .identifier)) = (aliasLeaves alias?).map (Leaf.relabel ρ) := by
  cases alias? <;> rfl

mutual

theorem Scalar.leaves_relabel (ρ : Relabeling) : (e : Scalar) →
    (e.relabel ρ).leaves = e.leaves.map (Leaf.relabel ρ)
  | .literal v => v.leaves_relabel ρ
  | .unary op operand => Scalar.leaves_relabel ρ operand
  | .binary op left right => by
    simp only [Scalar.relabel, Scalar.leaves, List.map_append, Scalar.leaves_relabel ρ left,
      Scalar.leaves_relabel ρ right]
  | .between subject low high negated => by
    simp only [Scalar.relabel, Scalar.leaves, List.map_append, Scalar.leaves_relabel ρ subject,
      Scalar.leaves_relabel ρ low, Scalar.leaves_relabel ρ high]
  | .conditional condition consequent alternative => by
    simp only [Scalar.relabel, Scalar.leaves, List.map_append, Scalar.leaves_relabel ρ condition,
      Scalar.leaves_relabel ρ consequent, Scalar.leaves_relabel ρ alternative]
  | .coalesce left right => by
    simp only [Scalar.relabel, Scalar.leaves, List.map_append, Scalar.leaves_relabel ρ left,
      Scalar.leaves_relabel ρ right]
  | .among subject items negated => by
    simp only [Scalar.relabel, Scalar.leaves, List.map_append, Scalar.leaves_relabel ρ subject,
      Scalar.listLeaves_relabel ρ items]
  | .subquery use query => Query.leaves_relabel ρ query
  | .call function userDefined arguments =>
    congrArg (Leaf.function function :: ·) (Scalar.listLeaves_relabel ρ arguments)
  | .index owner index => by
    simp only [Scalar.relabel, Scalar.leaves, List.map_append, Scalar.leaves_relabel ρ owner,
      Scalar.leaves_relabel ρ index]
  | .name identifier => rfl
  | .property owner identifier => by
    simp only [Scalar.relabel, Scalar.leaves, List.map_append, Scalar.leaves_relabel ρ owner]
    rfl
  | .parameter name => rfl
  | .array items => Scalar.listLeaves_relabel ρ items
  | .object fields => Field.listLeaves_relabel ρ fields

theorem Scalar.listLeaves_relabel (ρ : Relabeling) : (es : List Scalar) →
    Scalar.listLeaves (Scalar.relabelList ρ es) = (Scalar.listLeaves es).map (Leaf.relabel ρ)
  | [] => rfl
  | e :: rest => by
    simp only [Scalar.relabelList, Scalar.listLeaves, List.map_append, Scalar.leaves_relabel ρ e,
      Scalar.listLeaves_relabel ρ rest]

theorem Field.listLeaves_relabel (ρ : Relabeling) : (fields : List Field) →
    Field.listLeaves (Field.relabelList ρ fields) = (Field.listLeaves fields).map (Leaf.relabel ρ)
  | [] => rfl
  | ⟨key, value⟩ :: rest => by
    simp only [Field.relabelList, Field.listLeaves, List.map_cons, List.map_append,
      Scalar.leaves_relabel ρ value, Field.listLeaves_relabel ρ rest]
    rfl

theorem SelectItem.listLeaves_relabel (ρ : Relabeling) : (items : List SelectItem) →
    SelectItem.listLeaves (SelectItem.relabelList ρ items) =
      (SelectItem.listLeaves items).map (Leaf.relabel ρ)
  | [] => rfl
  | ⟨e, alias?⟩ :: rest => by
    simp only [SelectItem.relabelList, SelectItem.listLeaves, List.map_append, aliasLeaves_map,
      Scalar.leaves_relabel ρ e, SelectItem.listLeaves_relabel ρ rest]

theorem SortKey.listLeaves_relabel (ρ : Relabeling) : (keys : List SortKey) →
    SortKey.listLeaves (SortKey.relabelList ρ keys) = (SortKey.listLeaves keys).map (Leaf.relabel ρ)
  | [] => rfl
  | ⟨e, descending⟩ :: rest => by
    simp only [SortKey.relabelList, SortKey.listLeaves, List.map_append, Scalar.leaves_relabel ρ e,
      SortKey.listLeaves_relabel ρ rest]

theorem Projection.leaves_relabel (ρ : Relabeling) : (p : Projection) →
    (p.relabel ρ).leaves = p.leaves.map (Leaf.relabel ρ)
  | .all => rfl
  | .items items => SelectItem.listLeaves_relabel ρ items
  | .value e => Scalar.leaves_relabel ρ e

theorem Collection.leaves_relabel (ρ : Relabeling) : (c : Collection) →
    (c.relabel ρ).leaves = c.leaves.map (Leaf.relabel ρ)
  | .path input segments => by
    simp [Collection.relabel, Collection.leaves, Leaf.relabel, Segment.leaf_relabel]
  | .subquery query => Query.leaves_relabel ρ query
  | .array items => Scalar.listLeaves_relabel ρ items

theorem Source.leaves_relabel (ρ : Relabeling) : (s : Source) →
    (s.relabel ρ).leaves = s.leaves.map (Leaf.relabel ρ)
  | .aliased collection alias? => by
    simp only [Source.relabel, Source.leaves, List.map_append, aliasLeaves_map,
      Collection.leaves_relabel ρ collection]
  | .each element collection =>
    congrArg (Leaf.word .identifier (ρ.word .identifier element) :: ·)
      (Collection.leaves_relabel ρ collection)
  | .join left right => by
    simp only [Source.relabel, Source.leaves, List.map_append, Source.leaves_relabel ρ left,
      Source.leaves_relabel ρ right]

theorem Query.leaves_relabel (ρ : Relabeling) : (q : Query) →
    (q.relabel ρ).leaves = q.leaves.map (Leaf.relabel ρ)
  | ⟨_, top?, projection, source?, filter?, groupKeys?, sortKeys?, window?⟩ => by
    have htop : clauseLeaves (fun count => [.count count]) (top?.map fun _ => hiddenCount) =
        (clauseLeaves (fun count => [.count count]) top?).map (Leaf.relabel ρ) := by
      cases top? <;> rfl
    have hsource : clauseLeaves Source.leaves (source?.map (Source.relabel ρ)) =
        (clauseLeaves Source.leaves source?).map (Leaf.relabel ρ) := by
      cases source? with
      | none => rfl
      | some s => exact Source.leaves_relabel ρ s
    have hfilter : clauseLeaves Scalar.leaves (filter?.map (Scalar.relabel ρ)) =
        (clauseLeaves Scalar.leaves filter?).map (Leaf.relabel ρ) := by
      cases filter? with
      | none => rfl
      | some e => exact Scalar.leaves_relabel ρ e
    have hgroup : clauseLeaves Scalar.listLeaves (groupKeys?.map (Scalar.relabelList ρ)) =
        (clauseLeaves Scalar.listLeaves groupKeys?).map (Leaf.relabel ρ) := by
      cases groupKeys? with
      | none => rfl
      | some keys => exact Scalar.listLeaves_relabel ρ keys
    have hsort : clauseLeaves SortKey.listLeaves (sortKeys?.map (SortKey.relabelList ρ)) =
        (clauseLeaves SortKey.listLeaves sortKeys?).map (Leaf.relabel ρ) := by
      cases sortKeys? with
      | none => rfl
      | some keys => exact SortKey.listLeaves_relabel ρ keys
    have hwindow : clauseLeaves Window.leaves (window?.map fun _ => ⟨hiddenCount, hiddenCount⟩) =
        (clauseLeaves Window.leaves window?).map (Leaf.relabel ρ) := by
      cases window? <;> rfl
    rw [Query.relabel_eq]
    simp only [Query.leaves_eq, List.map_append, htop, Projection.leaves_relabel ρ projection,
      hsource, hfilter, hgroup, hsort, hwindow]

end

/-- What is picked from the leaves of a relabelled tree. -/
theorem filterMap_relabel {α : Type} {pick : Leaf → Option α} {f : α → α} {ρ : Relabeling}
    (h : ∀ leaf : Leaf, pick (leaf.relabel ρ) = (pick leaf).map f) (leaves : List Leaf) :
    (leaves.map (Leaf.relabel ρ)).filterMap pick = (leaves.filterMap pick).map f := by
  rw [List.filterMap_map, List.map_filterMap]
  exact List.filterMap_congr fun leaf _ => h leaf

/-! ## Relabelling twice -/

/-- First `ρ`, then `σ`. -/
def Relabeling.andThen (ρ σ : Relabeling) : Relabeling :=
  ⟨fun category text => σ.word category (ρ.word category text), fun n => σ.number (ρ.number n)⟩

section

variable (ρ σ : Relabeling)

theorem Literal.relabel_relabel (v : Literal) :
    (v.relabel ρ).relabel σ = v.relabel (ρ.andThen σ) := by
  cases v <;> rfl

theorem Segment.relabel_relabel (s : Segment) :
    (s.relabel ρ).relabel σ = s.relabel (ρ.andThen σ) := by
  cases s <;> rfl

theorem map_alias_map (alias? : Option String) :
    (alias?.map (ρ.word .identifier)).map (σ.word .identifier) =
      alias?.map ((ρ.andThen σ).word .identifier) := by
  cases alias? <;> rfl

mutual

theorem Scalar.relabel_relabel : (e : Scalar) → (e.relabel ρ).relabel σ = e.relabel (ρ.andThen σ)
  | .literal v => congrArg Scalar.literal (v.relabel_relabel ρ σ)
  | .unary op operand => congrArg (Scalar.unary op) (Scalar.relabel_relabel operand)
  | .binary op left right =>
    congrArg₂ (Scalar.binary op) (Scalar.relabel_relabel left) (Scalar.relabel_relabel right)
  | .between subject low high negated => by
    simp only [Scalar.relabel, Scalar.relabel_relabel subject, Scalar.relabel_relabel low,
      Scalar.relabel_relabel high]
  | .conditional condition consequent alternative => by
    simp only [Scalar.relabel, Scalar.relabel_relabel condition, Scalar.relabel_relabel consequent,
      Scalar.relabel_relabel alternative]
  | .coalesce left right =>
    congrArg₂ Scalar.coalesce (Scalar.relabel_relabel left) (Scalar.relabel_relabel right)
  | .among subject items negated => by
    simp only [Scalar.relabel, Scalar.relabel_relabel subject, Scalar.relabelList_relabelList items]
  | .subquery use query => congrArg (Scalar.subquery use) (Query.relabel_relabel query)
  | .call function userDefined arguments =>
    congrArg (Scalar.call function userDefined) (Scalar.relabelList_relabelList arguments)
  | .index owner index =>
    congrArg₂ Scalar.index (Scalar.relabel_relabel owner) (Scalar.relabel_relabel index)
  | .name identifier => rfl
  | .property owner identifier =>
    congrArg (Scalar.property · _) (Scalar.relabel_relabel owner)
  | .parameter name => rfl
  | .array items => congrArg Scalar.array (Scalar.relabelList_relabelList items)
  | .object fields => congrArg Scalar.object (Field.relabelList_relabelList fields)

theorem Scalar.relabelList_relabelList : (es : List Scalar) →
    Scalar.relabelList σ (Scalar.relabelList ρ es) = Scalar.relabelList (ρ.andThen σ) es
  | [] => rfl
  | e :: rest =>
    congrArg₂ List.cons (Scalar.relabel_relabel e) (Scalar.relabelList_relabelList rest)

theorem Field.relabelList_relabelList : (fields : List Field) →
    Field.relabelList σ (Field.relabelList ρ fields) = Field.relabelList (ρ.andThen σ) fields
  | [] => rfl
  | ⟨_, value⟩ :: rest =>
    congrArg₂ List.cons (congrArg (Field.mk _) (Scalar.relabel_relabel value))
      (Field.relabelList_relabelList rest)

theorem SelectItem.relabelList_relabelList : (items : List SelectItem) →
    SelectItem.relabelList σ (SelectItem.relabelList ρ items) =
      SelectItem.relabelList (ρ.andThen σ) items
  | [] => rfl
  | ⟨e, alias?⟩ :: rest =>
    congrArg₂ List.cons (congrArg₂ SelectItem.mk (Scalar.relabel_relabel e) (map_alias_map ρ σ alias?))
      (SelectItem.relabelList_relabelList rest)

theorem SortKey.relabelList_relabelList : (keys : List SortKey) →
    SortKey.relabelList σ (SortKey.relabelList ρ keys) = SortKey.relabelList (ρ.andThen σ) keys
  | [] => rfl
  | ⟨e, descending⟩ :: rest =>
    congrArg₂ List.cons (congrArg (SortKey.mk · descending) (Scalar.relabel_relabel e))
      (SortKey.relabelList_relabelList rest)

theorem Projection.relabel_relabel : (p : Projection) →
    (p.relabel ρ).relabel σ = p.relabel (ρ.andThen σ)
  | .all => rfl
  | .items items => congrArg Projection.items (SelectItem.relabelList_relabelList items)
  | .value e => congrArg Projection.value (Scalar.relabel_relabel e)

theorem Collection.relabel_relabel : (c : Collection) →
    (c.relabel ρ).relabel σ = c.relabel (ρ.andThen σ)
  | .path input segments => by
    simp [Collection.relabel, Segment.relabel_relabel, Relabeling.andThen]
  | .subquery query => congrArg Collection.subquery (Query.relabel_relabel query)
  | .array items => congrArg Collection.array (Scalar.relabelList_relabelList items)

theorem Source.relabel_relabel : (s : Source) → (s.relabel ρ).relabel σ = s.relabel (ρ.andThen σ)
  | .aliased collection alias? =>
    congrArg₂ Source.aliased (Collection.relabel_relabel collection) (map_alias_map ρ σ alias?)
  | .each _ collection =>
    congrArg (Source.each _) (Collection.relabel_relabel collection)
  | .join left right =>
    congrArg₂ Source.join (Source.relabel_relabel left) (Source.relabel_relabel right)

theorem Query.relabel_relabel : (q : Query) → (q.relabel ρ).relabel σ = q.relabel (ρ.andThen σ)
  | ⟨_, top?, projection, source?, filter?, groupKeys?, sortKeys?, window?⟩ => by
    simp only [Query.relabel_eq, Option.map_map]
    congr 1
    case e_projection => exact Projection.relabel_relabel projection
    case e_source? =>
      cases source? with
      | none => rfl
      | some s => exact congrArg some (Source.relabel_relabel s)
    case e_filter? =>
      cases filter? with
      | none => rfl
      | some e => exact congrArg some (Scalar.relabel_relabel e)
    case e_groupKeys? =>
      cases groupKeys? with
      | none => rfl
      | some keys => exact congrArg some (Scalar.relabelList_relabelList keys)
    case e_sortKeys? =>
      cases sortKeys? with
      | none => rfl
      | some keys => exact congrArg some (SortKey.relabelList_relabelList keys)

end

end

/-- Other words and numbers leave the shape as it was. -/
theorem Scalar.shape_relabel (ρ : Relabeling) (e : Scalar) : (e.relabel ρ).shape = e.shape :=
  e.relabel_relabel ρ .blank

/-- Other words and numbers leave the shape as it was. -/
theorem Query.shape_relabel (ρ : Relabeling) (q : Query) : (q.relabel ρ).shape = q.shape :=
  q.relabel_relabel ρ .blank

end DocQuery
