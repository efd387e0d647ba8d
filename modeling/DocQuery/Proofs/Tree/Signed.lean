import DocQuery.Layout.Tree
import DocQuery.Proofs.Number.Order
import DocQuery.Proofs.Tree.WellFormed

/-!
# Signs as operators

A tree may hold numbers with a sign, but in a text the sign of a number is an operator before it.

* `Number.isSigned`, `Number.unsigned`: the numbers that are written with a sign, and what is written
  behind it.
* `Scalar.withSigns`, `Query.withSigns`: the tree in which every literal with a sign is the operator `-`
  before the number without it. Counts and the numbers of paths have no signs.
* `isWellFormed_withSign`: what literals a tree may have for this tree to be well-formed.
* `Scalar.level_withSigns`: a scalar binds as it did.
-/

namespace DocQuery

/-! ## Numbers -/

namespace Number

/-- The number is finite and written with a sign. -/
def isSigned : Number → Bool
  | .integer n => n.toInt < 0
  | .double x => x.isFinite && x.isNegative

/-- The number without its sign. The magnitude of the smallest integer is no integer any more, so a
double holds it. -/
def unsigned : Number → Number
  | .integer n =>
    let k := n.toInt.natAbs
    if k < 1 <<< 63 then .integer (Int64.ofNat k) else .double (.ofInt k)
  | .double x => .double x.abs

theorem isNegative_of_isSigned {a : Number} (h : a.isSigned = true) : a.isNegative = true := by
  cases a with
  | integer n => exact h
  | double x => exact (Bool.and_eq_true_iff.mp h).2

theorem isPlain_unsigned {a : Number} (h : a.isSigned = true) : a.unsigned.isPlain = true := by
  cases a with
  | integer n =>
    unfold unsigned
    simp only
    split
    · rename_i hlt
      rw [Nat.one_shiftLeft] at hlt
      exact decide_eq_true (by rw [Int64.toInt_ofNat_of_lt hlt]; exact Int.natCast_nonneg _)
    · rename_i hge
      have hle := natAbs_toInt_le n
      rw [Nat.one_shiftLeft] at hge
      have hk : n.toInt.natAbs = 2 ^ 63 := by omega
      rw [hk]
      decide +kernel
  | double x =>
    have hfinite : x.abs.isFinite = true := by
      unfold Binary64.isFinite
      rw [Binary64.code_abs]
      exact (Bool.and_eq_true_iff.mp h).1
    have hsign : x.abs.isNegative = false := Binary64.isNegative_ofCode x.code_lt
    exact Bool.and_eq_true_iff.mpr ⟨hfinite, by rw [hsign]; rfl⟩

end Number

/-! ## Trees -/

/-- A literal, with an operator for its sign. -/
def Literal.withSign : Literal → Scalar
  | .number a => if a.isSigned then .unary .minus (.number a.unsigned) else .number a
  | v => .literal v

theorem Literal.withSign_of_isSigned {a : Number} (h : a.isSigned = true) :
    (Literal.number a).withSign = .unary .minus (.number a.unsigned) := if_pos h

theorem Literal.withSign_of_not_isSigned {a : Number} (h : ¬ a.isSigned = true) :
    (Literal.number a).withSign = .number a := if_neg h

mutual

/-- The scalar with operators for the signs of its literals. -/
def Scalar.withSigns : Scalar → Scalar
  | .literal value => value.withSign
  | .unary op operand => .unary op operand.withSigns
  | .binary op left right => .binary op left.withSigns right.withSigns
  | .between subject low high negated =>
    .between subject.withSigns low.withSigns high.withSigns negated
  | .conditional condition consequent alternative =>
    .conditional condition.withSigns consequent.withSigns alternative.withSigns
  | .coalesce left right => .coalesce left.withSigns right.withSigns
  | .among subject items negated => .among subject.withSigns (Scalar.listWithSigns items) negated
  | .subquery use query => .subquery use query.withSigns
  | .call function userDefined arguments =>
    .call function userDefined (Scalar.listWithSigns arguments)
  | .index owner index => .index owner.withSigns index.withSigns
  | .name identifier => .name identifier
  | .property owner identifier => .property owner.withSigns identifier
  | .parameter name => .parameter name
  | .array items => .array (Scalar.listWithSigns items)
  | .object fields => .object (Field.listWithSigns fields)

def Scalar.listWithSigns : List Scalar → List Scalar
  | [] => []
  | e :: rest => e.withSigns :: Scalar.listWithSigns rest

def Field.listWithSigns : List Field → List Field
  | [] => []
  | ⟨key, value⟩ :: rest => ⟨key, value.withSigns⟩ :: Field.listWithSigns rest

def SelectItem.listWithSigns : List SelectItem → List SelectItem
  | [] => []
  | ⟨e, alias?⟩ :: rest => ⟨e.withSigns, alias?⟩ :: SelectItem.listWithSigns rest

def SortKey.listWithSigns : List SortKey → List SortKey
  | [] => []
  | ⟨e, descending⟩ :: rest => ⟨e.withSigns, descending⟩ :: SortKey.listWithSigns rest

def Projection.withSigns : Projection → Projection
  | .all => .all
  | .items items => .items (SelectItem.listWithSigns items)
  | .value e => .value e.withSigns

def Collection.withSigns : Collection → Collection
  | .path input segments => .path input segments
  | .subquery query => .subquery query.withSigns
  | .array items => .array (Scalar.listWithSigns items)

def Source.withSigns : Source → Source
  | .aliased collection alias? => .aliased collection.withSigns alias?
  | .each element collection => .each element collection.withSigns
  | .join left right => .join left.withSigns right.withSigns

/-- The query with operators for the signs of its literals. -/
def Query.withSigns : Query → Query
  | ⟨distinct, top?, projection, source?, filter?, groupKeys?, sortKeys?, window?⟩ =>
    ⟨distinct, top?, projection.withSigns,
      match source? with
      | some source => some source.withSigns
      | none => none,
      match filter? with
      | some e => some e.withSigns
      | none => none,
      match groupKeys? with
      | some keys => some (Scalar.listWithSigns keys)
      | none => none,
      match sortKeys? with
      | some keys => some (SortKey.listWithSigns keys)
      | none => none,
      window?⟩

end

/-- A literal is well-formed but for its sign. -/
theorem isWellFormed_withSign (v : Literal) : v.withSign.isWellFormed =
    match v with
    | .number a => a.isPlain || a.isSigned
    | _ => true := by
  cases v with
  | number a =>
    by_cases h : a.isSigned = true
    · simp [Literal.withSign_of_isSigned h, h, Scalar.isWellFormed, Scalar.number,
        Literal.isWellFormed, Number.isPlain_unsigned h]
    · simp [Literal.withSign_of_not_isSigned h, h, Scalar.isWellFormed, Scalar.number,
        Literal.isWellFormed]
  | _ => rfl

/-- A number with a sign binds as loose as the operator in its place. -/
theorem Scalar.level_withSigns (e : Scalar) : e.withSigns.level = e.level := by
  cases e with
  | literal v =>
    cases v with
    | number a =>
      rw [withSigns]
      by_cases h : a.isSigned = true
      · rw [Literal.withSign_of_isSigned h]
        exact (if_pos (Number.isNegative_of_isSigned h)).symm
      · rw [Literal.withSign_of_not_isSigned h, number]
    | _ => rfl
  | _ => rfl

/-- The query with operators for signs, clause by clause. -/
theorem Query.withSigns_eq (q : Query) : q.withSigns =
    ⟨q.distinct, q.top?, q.projection.withSigns, q.source?.map Source.withSigns,
      q.filter?.map Scalar.withSigns, q.groupKeys?.map Scalar.listWithSigns,
      q.sortKeys?.map SortKey.listWithSigns, q.window?⟩ := by
  obtain ⟨_, _, _, source?, filter?, groupKeys?, sortKeys?, _⟩ := q
  -- The recursion goes through the clauses, so it goes on only where each is known to be there.
  cases source? <;> cases filter? <;> cases groupKeys? <;> cases sortKeys? <;> rfl

end DocQuery
