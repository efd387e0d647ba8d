import DocQuery.Proofs.Token.Literal
import DocQuery.Tree.Basic

/-!
# Trees that text can say

Trees may be more than a text can say. `Query.isWellFormed` and `Scalar.isWellFormed` tell whether a
tree is not: names are names, numbers are without a sign and finite, lists are not empty where text
needs items, the missing-value operator is `Scalar.coalesce`, joins are put together from the left,
and counts are numbers or parameters.
-/

namespace DocQuery

/-- A number of a text, or no number. -/
def Literal.isWellFormed : Literal → Bool
  | .number a => a.isPlain
  | _ => true

def Segment.isWellFormed : Segment → Bool
  | .name identifier => isIdentifier identifier
  | .number a => a.isPlain
  | .string _ => true

/-- An alias is an identifier. -/
def isAlias : Option String → Bool
  | some name => isIdentifier name
  | none => true

/-- The scalar is the count of a `TOP`, `OFFSET` or `LIMIT`. -/
def Scalar.isCount : Scalar → Bool
  | .literal (.number a) => a.isPlain
  | .parameter n => isName n
  | _ => false

def Window.isWellFormed (w : Window) : Bool := w.offset.isCount && w.limit.isCount

def Source.isJoin : Source → Bool
  | .join .. => true
  | _ => false

mutual

def Scalar.isWellFormed : Scalar → Bool
  | .literal value => value.isWellFormed
  | .unary _ operand => operand.isWellFormed
  | .binary op left right => op != .coalesce && left.isWellFormed && right.isWellFormed
  | .between subject low high _ =>
    subject.isWellFormed && low.isWellFormed && high.isWellFormed
  | .conditional condition consequent alternative =>
    condition.isWellFormed && consequent.isWellFormed && alternative.isWellFormed
  | .coalesce left right => left.isWellFormed && right.isWellFormed
  | .among subject items _ =>
    subject.isWellFormed && !items.isEmpty && Scalar.allWellFormed items
  | .subquery _ query => query.isWellFormed
  | .call function _ arguments => isIdentifier function && Scalar.allWellFormed arguments
  | .index owner index => owner.isWellFormed && index.isWellFormed
  | .name identifier => isIdentifier identifier
  | .property owner identifier => owner.isWellFormed && isIdentifier identifier
  | .parameter name => isName name
  | .array items => Scalar.allWellFormed items
  | .object fields => Field.allWellFormed fields

def Scalar.allWellFormed : List Scalar → Bool
  | [] => true
  | e :: rest => e.isWellFormed && Scalar.allWellFormed rest

def Field.allWellFormed : List Field → Bool
  | [] => true
  | ⟨_, value⟩ :: rest => value.isWellFormed && Field.allWellFormed rest

def SelectItem.allWellFormed : List SelectItem → Bool
  | [] => true
  | ⟨e, alias?⟩ :: rest => e.isWellFormed && isAlias alias? && SelectItem.allWellFormed rest

def SortKey.allWellFormed : List SortKey → Bool
  | [] => true
  | ⟨e, _⟩ :: rest => e.isWellFormed && SortKey.allWellFormed rest

def Projection.isWellFormed : Projection → Bool
  | .all => true
  | .items items => !items.isEmpty && SelectItem.allWellFormed items
  | .value e => e.isWellFormed

def Collection.isWellFormed : Collection → Bool
  | .path input segments => isIdentifier input && segments.all Segment.isWellFormed
  | .subquery query => query.isWellFormed
  | .array items => !items.isEmpty && Scalar.allWellFormed items

def Source.isWellFormed : Source → Bool
  | .aliased collection alias? => collection.isWellFormed && isAlias alias?
  | .each element collection => isIdentifier element && collection.isWellFormed
  | .join left right => left.isWellFormed && !right.isJoin && right.isWellFormed

def Query.isWellFormed : Query → Bool
  | ⟨_, top?, projection, source?, filter?, groupKeys?, sortKeys?, window?⟩ =>
    (match top? with
      | some count => count.isCount
      | none => true) &&
    projection.isWellFormed &&
    (match source? with
      | some source => source.isWellFormed
      | none => true) &&
    (match filter? with
      | some e => e.isWellFormed
      | none => true) &&
    (match groupKeys? with
      | some keys => !keys.isEmpty && Scalar.allWellFormed keys
      | none => true) &&
    (match sortKeys? with
      | some keys => !keys.isEmpty && SortKey.allWellFormed keys
      | none => true) &&
    (match window? with
      | some window => window.isWellFormed
      | none => true)

end

/-! ## Lists of well-formed trees -/

theorem Scalar.allWellFormed_eq (es : List Scalar) :
    Scalar.allWellFormed es = es.all Scalar.isWellFormed := by
  induction es with
  | nil => rfl
  | cons e es ih => rw [allWellFormed, ih, List.all_cons]

/-- A field with a well-formed value. -/
def Field.isWellFormed (f : Field) : Bool := f.value.isWellFormed

theorem Field.allWellFormed_eq (fields : List Field) :
    Field.allWellFormed fields = fields.all Field.isWellFormed := by
  induction fields with
  | nil => rfl
  | cons f fields ih =>
    obtain ⟨key, value⟩ := f
    rw [List.all_cons, ← ih, allWellFormed]
    rfl

/-- A well-formed expression under an identifier. -/
def SelectItem.isWellFormed (i : SelectItem) : Bool := i.expression.isWellFormed && isAlias i.alias?

theorem SelectItem.allWellFormed_eq (items : List SelectItem) :
    SelectItem.allWellFormed items = items.all SelectItem.isWellFormed := by
  induction items with
  | nil => rfl
  | cons i items ih =>
    obtain ⟨e, alias?⟩ := i
    rw [List.all_cons, ← ih, allWellFormed]
    rfl

/-- A well-formed expression to sort by. -/
def SortKey.isWellFormed (k : SortKey) : Bool := k.expression.isWellFormed

theorem SortKey.allWellFormed_eq (keys : List SortKey) :
    SortKey.allWellFormed keys = keys.all SortKey.isWellFormed := by
  induction keys with
  | nil => rfl
  | cons k keys ih =>
    obtain ⟨e, descending⟩ := k
    rw [List.all_cons, ← ih, allWellFormed]
    rfl

/-- A well-formed query, clause by clause. -/
theorem Query.isWellFormed_eq (q : Query) : q.isWellFormed =
    (q.top?.all Scalar.isCount && q.projection.isWellFormed && q.source?.all Source.isWellFormed &&
      q.filter?.all Scalar.isWellFormed &&
      q.groupKeys?.all (fun keys => !keys.isEmpty && Scalar.allWellFormed keys) &&
      q.sortKeys?.all (fun keys => !keys.isEmpty && SortKey.allWellFormed keys) &&
      q.window?.all Window.isWellFormed) := by
  obtain ⟨_, top?, _, source?, filter?, groupKeys?, sortKeys?, window?⟩ := q
  -- The recursion goes through the clauses, so it goes on only where each is known to be there.
  cases top? <;> cases source? <;> cases filter? <;> cases groupKeys? <;> cases sortKeys? <;>
    cases window? <;> rfl

end DocQuery
