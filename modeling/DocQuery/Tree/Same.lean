import DocQuery.Tree.Basic

/-!
# Trees that say the same

Two trees say the same if they differ at most in how numbers are held: an integer and the double of
its value, both zeros, and all NaN count as one number.
-/

namespace DocQuery

/-- Literals that say the same. -/
def Literal.same : Literal → Literal → Bool
  | .number a, .number b => a.same b
  | a, b => a = b

/-- Path segments that say the same. -/
def Segment.same : Segment → Segment → Bool
  | .number a, .number b => a.same b
  | a, b => a = b

/-- Lists that say the same item by item. -/
def Segment.sameList : List Segment → List Segment → Bool
  | [], [] => true
  | a :: as, b :: bs => a.same b && sameList as bs
  | _, _ => false

mutual

/-- Scalars that say the same. -/
def Scalar.same : Scalar → Scalar → Bool
  | .literal a, .literal b => a.same b
  | .unary o a, .unary p b => o = p && a.same b
  | .binary o a b, .binary p c d => o = p && a.same c && b.same d
  | .between a b c m, .between d e f n => a.same d && b.same e && c.same f && m = n
  | .conditional a b c, .conditional d e f => a.same d && b.same e && c.same f
  | .coalesce a b, .coalesce c d => a.same c && b.same d
  | .among a as m, .among b bs n => a.same b && Scalar.sameList as bs && m = n
  | .subquery u a, .subquery v b => u = v && a.same b
  | .call f m as, .call g n bs => f = g && m = n && Scalar.sameList as bs
  | .index a b, .index c d => a.same c && b.same d
  | .name a, .name b => a = b
  | .property a p, .property b q => a.same b && p = q
  | .parameter a, .parameter b => a = b
  | .array as, .array bs => Scalar.sameList as bs
  | .object as, .object bs => Field.sameList as bs
  | _, _ => false
termination_by structural a => a

/-- Lists of scalars that say the same item by item. -/
def Scalar.sameList : List Scalar → List Scalar → Bool
  | [], [] => true
  | a :: as, b :: bs => a.same b && Scalar.sameList as bs
  | _, _ => false
termination_by structural a => a

/-- Lists of fields that say the same item by item. -/
def Field.sameList : List Field → List Field → Bool
  | [], [] => true
  | ⟨j, a⟩ :: as, ⟨k, b⟩ :: bs => j = k && a.same b && Field.sameList as bs
  | _, _ => false
termination_by structural a => a

/-- Lists of select items that say the same item by item. -/
def SelectItem.sameList : List SelectItem → List SelectItem → Bool
  | [], [] => true
  | ⟨a, x⟩ :: as, ⟨b, y⟩ :: bs => a.same b && x = y && SelectItem.sameList as bs
  | _, _ => false
termination_by structural a => a

/-- Projections that say the same. -/
def Projection.same : Projection → Projection → Bool
  | .all, .all => true
  | .items as, .items bs => SelectItem.sameList as bs
  | .value a, .value b => a.same b
  | _, _ => false
termination_by structural a => a

/-- Lists of sort keys that say the same item by item. -/
def SortKey.sameList : List SortKey → List SortKey → Bool
  | [], [] => true
  | ⟨a, m⟩ :: as, ⟨b, n⟩ :: bs => a.same b && m = n && SortKey.sameList as bs
  | _, _ => false
termination_by structural a => a

/-- Collections that say the same. -/
def Collection.same : Collection → Collection → Bool
  | .path a as, .path b bs => a = b && Segment.sameList as bs
  | .subquery a, .subquery b => a.same b
  | .array as, .array bs => Scalar.sameList as bs
  | _, _ => false
termination_by structural a => a

/-- Sources that say the same. -/
def Source.same : Source → Source → Bool
  | .aliased a x, .aliased b y => a.same b && x = y
  | .each x a, .each y b => x = y && a.same b
  | .join a b, .join c d => a.same c && b.same d
  | _, _ => false
termination_by structural a => a

/-- Clauses of one scalar that say the same; both may be missing. -/
def Scalar.sameClause : Option Scalar → Option Scalar → Bool
  | none, none => true
  | some a, some b => a.same b
  | _, _ => false
termination_by structural a => a

/-- Clauses of several scalars that say the same; both may be missing. -/
def Scalar.sameListClause : Option (List Scalar) → Option (List Scalar) → Bool
  | none, none => true
  | some as, some bs => Scalar.sameList as bs
  | _, _ => false
termination_by structural a => a

/-- Clauses of sort keys that say the same; both may be missing. -/
def SortKey.sameListClause : Option (List SortKey) → Option (List SortKey) → Bool
  | none, none => true
  | some as, some bs => SortKey.sameList as bs
  | _, _ => false
termination_by structural a => a

/-- Sources that say the same; both may be missing. -/
def Source.sameClause : Option Source → Option Source → Bool
  | none, none => true
  | some a, some b => a.same b
  | _, _ => false
termination_by structural a => a

/-- Windows that say the same; both may be missing. -/
def Window.sameClause : Option Window → Option Window → Bool
  | none, none => true
  | some ⟨a, b⟩, some ⟨c, d⟩ => a.same c && b.same d
  | _, _ => false
termination_by structural a => a

/-- Queries that say the same. -/
def Query.same : Query → Query → Bool
  | ⟨d, top, p, source, filter, group, sort, window⟩,
    ⟨d', top', p', source', filter', group', sort', window'⟩ =>
    d = d' && Scalar.sameClause top top' && p.same p' && Source.sameClause source source' &&
      Scalar.sameClause filter filter' && Scalar.sameListClause group group' &&
      SortKey.sameListClause sort sort' && Window.sameClause window window'
termination_by structural a => a

end

end DocQuery
