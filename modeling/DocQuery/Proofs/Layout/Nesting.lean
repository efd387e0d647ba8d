import DocQuery.Layout.Tree
import DocQuery.Proofs.Tree.WellFormed

/-!
# How many levels the text of a tree takes

The text of a tree has parentheses only where they are needed. `Query.nesting` is how many levels of
nesting it takes: in a chain of infix operators, accesses or joins as many for an operand as there
are links before it, one for each expression and each query inside another, and one for each prefix
operator. `Scalar.nesting` leaves out the level of the whole expression.
-/

namespace DocQuery

/-- The links in the chain of a scalar's own level. -/
def Scalar.links : Scalar → Nat
  | .binary op left _ => (if left.level = op.level then left.links else 0) + 1
  | .coalesce left _ => (if left.level = .coalesce then left.links else 0) + 1
  | .between subject .. => (if subject.level = .relational then subject.links else 0) + 1
  | .among subject .. => (if subject.level = .relational then subject.links else 0) + 1
  | .property owner _ => (if owner.level = .primary then owner.links else 0) + 1
  | .index owner _ => (if owner.level = .primary then owner.links else 0) + 1
  | _ => 0

/-- Parentheses around an operand that binds looser than `level` take a level. -/
def Scalar.enclosedNesting (e : Scalar) (level : Level) (nesting : Nat) : Nat :=
  if e.level.rung < level.rung then nesting + 1 else nesting

/-- The joins in a chain of sources. -/
def Source.links : Source → Nat
  | .join left _ => left.links + 1
  | _ => 0

mutual

/-- The levels that the text of a scalar takes, without the one of the whole expression. -/
def Scalar.nesting : Scalar → Nat
  | .literal _ => 0
  | .unary _ operand => operand.enclosedNesting .unary operand.nesting + 1
  | .binary op left right =>
    max (left.enclosedNesting op.level left.nesting)
      ((Scalar.binary op left right).links + right.enclosedNesting op.level.tighter right.nesting)
  | .between subject low high negated =>
    max (subject.enclosedNesting .relational subject.nesting)
      ((Scalar.between subject low high negated).links +
        max (low.enclosedNesting .additive low.nesting) (high.enclosedNesting .additive high.nesting))
  | .conditional condition consequent alternative =>
    max (condition.enclosedNesting .coalesce condition.nesting)
      (max (consequent.nesting + 1) (alternative.nesting + 1))
  | .coalesce left right =>
    max (left.enclosedNesting .coalesce left.nesting)
      ((Scalar.coalesce left right).links + right.enclosedNesting .concat right.nesting)
  | .among subject items negated =>
    max (subject.enclosedNesting .relational subject.nesting)
      ((Scalar.among subject items negated).links + Scalar.listNesting items)
  | .subquery _ query => query.nesting
  | .call _ _ arguments => Scalar.listNesting arguments
  | .index owner index =>
    max (owner.enclosedNesting .primary owner.nesting)
      ((Scalar.index owner index).links + (index.nesting + 1))
  | .name _ => 0
  | .property owner identifier =>
    max (if owner.isNumber then owner.nesting + 1 else owner.enclosedNesting .primary owner.nesting)
      (Scalar.property owner identifier).links
  | .parameter _ => 0
  | .array items => Scalar.listNesting items
  | .object fields => Field.listNesting fields

/-- The levels that the deepest of some expressions takes. -/
def Scalar.listNesting : List Scalar → Nat
  | [] => 0
  | e :: rest => max (e.nesting + 1) (Scalar.listNesting rest)

def Field.listNesting : List Field → Nat
  | [] => 0
  | ⟨_, value⟩ :: rest => max (value.nesting + 1) (Field.listNesting rest)

def SelectItem.listNesting : List SelectItem → Nat
  | [] => 0
  | ⟨e, _⟩ :: rest => max (e.nesting + 1) (SelectItem.listNesting rest)

def SortKey.listNesting : List SortKey → Nat
  | [] => 0
  | ⟨e, _⟩ :: rest => max (e.nesting + 1) (SortKey.listNesting rest)

def Projection.nesting : Projection → Nat
  | .all => 0
  | .items items => SelectItem.listNesting items
  | .value e => e.nesting + 1

def Collection.nesting : Collection → Nat
  | .path _ segments => segments.length
  | .subquery query => query.nesting
  | .array items => Scalar.listNesting items

def Source.nesting : Source → Nat
  | .aliased collection _ => collection.nesting
  | .each _ collection => collection.nesting
  | .join left right => max left.nesting (left.links + 1 + right.nesting)

/-- The levels that the text of a query takes. -/
def Query.nesting : Query → Nat
  | ⟨_, _, projection, source?, filter?, groupKeys?, sortKeys?, _⟩ =>
    max projection.nesting
      (max (match source? with
          | some source => source.nesting
          | none => 0)
        (max (match filter? with
            | some e => e.nesting + 1
            | none => 0)
          (max (match groupKeys? with
              | some keys => Scalar.listNesting keys
              | none => 0)
            (match sortKeys? with
              | some keys => SortKey.listNesting keys
              | none => 0)))) + 1

end

/-- The levels that the text of a query takes, clause by clause. -/
theorem Query.nesting_eq (q : Query) : q.nesting =
    max q.projection.nesting (max (q.source?.elim 0 Source.nesting)
      (max (q.filter?.elim 0 (·.nesting + 1)) (max (q.groupKeys?.elim 0 Scalar.listNesting)
        (q.sortKeys?.elim 0 SortKey.listNesting)))) + 1 := by
  obtain ⟨_, _, _, source?, filter?, groupKeys?, sortKeys?, _⟩ := q
  -- The recursion goes through the clauses, so it goes on only where each is known to be there.
  cases source? <;> cases filter? <;> cases groupKeys? <;> cases sortKeys? <;> rfl

end DocQuery
