import DocQuery.Proofs.Layout.Says
import DocQuery.Tree.Same

/-!
# Trees that say the same are written with the same marks

Well-formed trees that differ at most in how their numbers are held have the same marks in their pieces,
and as many of each: a number has no mark, and binds alike however it is held.

* `Piece.marks ps m`: how many times the mark `m` stands among the pieces.
* `Scalar.marks_eq_of_same`, `Query.marks_eq_of_same`: by recursion on both trees.
-/

namespace DocQuery

open Piece

namespace Piece

/-- How many times a mark stands among the pieces. -/
def marks (ps : List Piece) (m : Mark) : Nat := (tokens ps).count (.mark m)

theorem marks_cons (p : Piece) (ps : List Piece) :
    marks (p :: ps) = fun m => (if p = .mark m then 1 else 0) + marks ps m := by
  funext m
  cases p with
  | gap g => simp [marks, Piece.mark]
  | token t => simp [marks, Piece.mark, List.count_cons, Nat.add_comm]

theorem marks_append (ps qs : List Piece) :
    marks (ps ++ qs) = fun m => marks ps m + marks qs m := by
  funext m
  rw [marks, tokens_append, List.count_append, marks, marks]

theorem marks_parenthesized {ps qs : List Piece} (h : marks ps = marks qs) :
    marks (parenthesized ps) = marks (parenthesized qs) := by
  simp only [parenthesized, marks_cons, marks_append, h]

theorem marks_commaSeparated {items items' : List (List Piece)}
    (h : items.map marks = items'.map marks) :
    marks (commaSeparated items) = marks (commaSeparated items') := by
  induction items generalizing items' with
  | nil =>
    obtain rfl := List.map_eq_nil_iff.mp h.symm
    rfl
  | cons ps items ih =>
    obtain ⟨qs, items', rfl, hps, hitems⟩ := List.map_eq_cons_iff.mp h.symm
    cases items with
    | nil =>
      obtain rfl := List.map_eq_nil_iff.mp hitems
      rw [commaSeparated_single, commaSeparated_single, hps]
    | cons ps' items =>
      obtain ⟨qs', items', rfl, -, -⟩ := List.map_eq_cons_iff.mp hitems
      simp only [commaSeparated_cons, marks_append, marks_cons, hps, ih hitems.symm]

end Piece

section

variable {a b : Scalar} {ps qs : List Piece} {indent : Nat}

theorem Scalar.level_eq_of_same (h : a.same b = true) (ha : a.isWellFormed = true)
    (hb : b.isWellFormed = true) : a.level = b.level := by
  cases a with
  | literal v =>
    cases b with
    | literal w => rw [level_literal ha, level_literal hb]
    | _ => cases h
  | binary op _ _ =>
    cases b with
    | binary op' _ _ =>
      simp only [same, Bool.and_eq_true, decide_eq_true_eq] at h
      rw [level, level, h.1.1]
    | _ => cases h
  | _ => cases b <;> first | rfl | cases h

theorem Scalar.isNumber_eq_of_same (h : a.same b = true) : a.isNumber = b.isNumber := by
  cases a with
  | literal v =>
    cases b with
    | literal w =>
      cases v with
      | number m => cases w <;> first | rfl | cases h
      | _ =>
        obtain rfl := of_decide_eq_true h
        rfl
    | _ => cases h
  | _ => cases b <;> first | rfl | cases h

theorem marks_enclosed (hlevel : a.level = b.level) (h : marks ps = marks qs) (level : Level) :
    marks (a.enclosed level ps) = marks (b.enclosed level qs) := by
  unfold Scalar.enclosed
  rw [hlevel]
  split
  · exact marks_parenthesized h
  · exact h

theorem marks_unary (h : marks ps = marks qs) (op : UnaryOp) :
    marks (op.pieces ps) = marks (op.pieces qs) := by
  have hop (rs : List Piece) : marks (op.pieces rs) = marks (.token op.token :: rs) := by
    unfold UnaryOp.pieces
    split <;> rfl
  rw [hop, hop, marks_cons, marks_cons, h]

theorem marks_binary {ps' qs' : List Piece} (h : marks ps = marks qs) (h' : marks ps' = marks qs')
    (op : BinaryOp) : marks (op.pieces ps ps') = marks (op.pieces qs qs') := by
  simp only [BinaryOp.pieces, marks_append, h, h']

theorem marks_owner (hlevel : a.level = b.level) (hnumber : a.isNumber = b.isNumber)
    (h : marks ps = marks qs) :
    marks (if a.isNumber then parenthesized ps else a.enclosed .primary ps) =
      marks (if b.isNumber then parenthesized qs else b.enclosed .primary qs) := by
  rw [hnumber]
  split
  · exact marks_parenthesized h
  · exact marks_enclosed hlevel h .primary

theorem marks_literal {v w : Literal} (h : v.same w = true) : marks v.pieces = marks w.pieces := by
  cases v with
  | number m =>
    cases w with
    | number n => cases m <;> cases n <;> rfl
    | _ => cases h
  | _ =>
    obtain rfl := of_decide_eq_true h
    rfl

/-- A count has no marks. -/
theorem marks_count {e : Scalar} (h : e.isCount = true) : marks (e.pieces indent) = fun _ => 0 := by
  unfold Scalar.isCount at h
  split at h
  · rename_i a
    cases a <;> rfl
  · rfl
  · cases h

theorem marks_window {w : Window} (h : w.isWellFormed = true) :
    marks (w.pieces indent) = fun _ => 0 := by
  obtain ⟨ha, hb⟩ := Bool.and_eq_true_iff.mp h
  simp only [Window.pieces, marks_append, marks_cons, marks_count ha, marks_count hb]
  rfl

theorem marks_segments {ss ts : List Segment} (h : Segment.sameList ss ts = true) :
    marks (ss.flatMap Segment.pieces) = marks (ts.flatMap Segment.pieces) := by
  induction ss generalizing ts with
  | nil =>
    cases ts with
    | nil => rfl
    | cons t ts => cases h
  | cons s ss ih =>
    cases ts with
    | nil => cases h
    | cons t ts =>
      obtain ⟨hs, hss⟩ := Bool.and_eq_true_iff.mp h
      have hpieces : marks s.pieces = marks t.pieces := by
        cases s with
        | number m =>
          cases t with
          | number n => cases m <;> cases n <;> rfl
          | _ => cases hs
        | _ =>
          obtain rfl := of_decide_eq_true hs
          rfl
      rw [List.flatMap_cons, List.flatMap_cons, marks_append, marks_append, hpieces, ih hss]

theorem marks_clause {words : List Keyword} {body? body'? : Option (List Piece)}
    (h : body?.map marks = body'?.map marks) :
    marks (clausePieces indent words body?) = marks (clausePieces indent words body'?) := by
  cases body? with
  | none =>
    obtain rfl := Option.map_eq_none_iff.mp h.symm
    rfl
  | some ps =>
    obtain ⟨qs, rfl, hqs⟩ := Option.map_eq_some_iff.mp h.symm
    simp only [clausePieces, marks_cons, marks_append, hqs]

theorem marks_subquery (h : marks ps = marks qs) :
    marks (subqueryPieces indent ps) = marks (subqueryPieces indent qs) := by
  simp only [subqueryPieces, marks_cons, marks_append, h]

end

/-! ## Trees -/

mutual

/-- Well-formed scalars that say the same have the same marks. -/
theorem Scalar.marks_eq_of_same (indent : Nat) : (a b : Scalar) → a.same b = true →
    a.isWellFormed = true → b.isWellFormed = true →
    marks (a.pieces indent) = marks (b.pieces indent)
  | .literal v, b, h, _, _ => by
    cases b with
    | literal w => exact marks_literal h
    | _ => cases h
  | .unary op operand, b, h, ha, hb => by
    cases b with
    | unary op' operand' =>
      simp only [Scalar.same, Bool.and_eq_true, decide_eq_true_eq] at h
      obtain ⟨rfl, hoperand⟩ := h
      exact marks_unary (marks_enclosed (Scalar.level_eq_of_same hoperand ha hb)
        (Scalar.marks_eq_of_same indent operand operand' hoperand ha hb) _) op
    | _ => cases h
  | .binary op left right, b, h, ha, hb => by
    cases b with
    | binary op' left' right' =>
      simp only [Scalar.same, Bool.and_eq_true, decide_eq_true_eq] at h
      simp only [Scalar.isWellFormed, Bool.and_eq_true] at ha hb
      obtain ⟨⟨rfl, hleft⟩, hright⟩ := h
      exact marks_binary (marks_enclosed (Scalar.level_eq_of_same hleft ha.1.2 hb.1.2)
        (Scalar.marks_eq_of_same indent left left' hleft ha.1.2 hb.1.2) _)
        (marks_enclosed (Scalar.level_eq_of_same hright ha.2 hb.2)
          (Scalar.marks_eq_of_same indent right right' hright ha.2 hb.2) _) op
    | _ => cases h
  | .between subject low high negated, b, h, ha, hb => by
    cases b with
    | between subject' low' high' negated' =>
      simp only [Scalar.same, Bool.and_eq_true, decide_eq_true_eq] at h
      simp only [Scalar.isWellFormed, Bool.and_eq_true] at ha hb
      obtain ⟨⟨⟨hsubject, hlow⟩, hhigh⟩, rfl⟩ := h
      have hsubject := marks_enclosed (Scalar.level_eq_of_same hsubject ha.1.1 hb.1.1)
        (Scalar.marks_eq_of_same indent subject subject' hsubject ha.1.1 hb.1.1) .relational
      have hlow := marks_enclosed (Scalar.level_eq_of_same hlow ha.1.2 hb.1.2)
        (Scalar.marks_eq_of_same indent low low' hlow ha.1.2 hb.1.2) .additive
      have hhigh := marks_enclosed (Scalar.level_eq_of_same hhigh ha.2 hb.2)
        (Scalar.marks_eq_of_same indent high high' hhigh ha.2 hb.2) .additive
      simp only [Scalar.pieces, marks_append, hsubject, hlow, hhigh]
    | _ => cases h
  | .conditional condition consequent alternative, b, h, ha, hb => by
    cases b with
    | conditional condition' consequent' alternative' =>
      simp only [Scalar.same, Bool.and_eq_true] at h
      simp only [Scalar.isWellFormed, Bool.and_eq_true] at ha hb
      have hcondition := marks_enclosed (Scalar.level_eq_of_same h.1.1 ha.1.1 hb.1.1)
        (Scalar.marks_eq_of_same indent condition condition' h.1.1 ha.1.1 hb.1.1) .coalesce
      simp only [Scalar.pieces, marks_append, hcondition,
        Scalar.marks_eq_of_same indent consequent consequent' h.1.2 ha.1.2 hb.1.2,
        Scalar.marks_eq_of_same indent alternative alternative' h.2 ha.2 hb.2]
    | _ => cases h
  | .coalesce left right, b, h, ha, hb => by
    cases b with
    | coalesce left' right' =>
      simp only [Scalar.same, Bool.and_eq_true] at h
      simp only [Scalar.isWellFormed, Bool.and_eq_true] at ha hb
      exact marks_binary (marks_enclosed (Scalar.level_eq_of_same h.1 ha.1 hb.1)
        (Scalar.marks_eq_of_same indent left left' h.1 ha.1 hb.1) _)
        (marks_enclosed (Scalar.level_eq_of_same h.2 ha.2 hb.2)
          (Scalar.marks_eq_of_same indent right right' h.2 ha.2 hb.2) _) .coalesce
    | _ => cases h
  | .among subject items negated, b, h, ha, hb => by
    cases b with
    | among subject' items' negated' =>
      simp only [Scalar.same, Bool.and_eq_true, decide_eq_true_eq] at h
      simp only [Scalar.isWellFormed, Bool.and_eq_true] at ha hb
      obtain ⟨⟨hsubject, hitems⟩, rfl⟩ := h
      have hsubject := marks_enclosed (Scalar.level_eq_of_same hsubject ha.1.1 hb.1.1)
        (Scalar.marks_eq_of_same indent subject subject' hsubject ha.1.1 hb.1.1) .relational
      have hitems := marks_parenthesized
        (marks_commaSeparated (Scalar.listMarks_eq_of_same indent items items' hitems ha.2 hb.2))
      simp only [Scalar.pieces, marks_append, hsubject, hitems]
    | _ => cases h
  | .subquery use query, b, h, ha, hb => by
    cases b with
    | subquery use' query' =>
      simp only [Scalar.same, Bool.and_eq_true, decide_eq_true_eq] at h
      obtain ⟨rfl, hquery⟩ := h
      simp only [Scalar.pieces, marks_append,
        marks_subquery (Query.marks_eq_of_same (indent + 1) query query' hquery ha hb)]
    | _ => cases h
  | .call function userDefined arguments, b, h, ha, hb => by
    cases b with
    | call function' userDefined' arguments' =>
      simp only [Scalar.same, Bool.and_eq_true, decide_eq_true_eq] at h
      simp only [Scalar.isWellFormed, Bool.and_eq_true] at ha hb
      obtain ⟨⟨rfl, rfl⟩, harguments⟩ := h
      have harguments := marks_parenthesized (marks_commaSeparated
        (Scalar.listMarks_eq_of_same indent arguments arguments' harguments ha.2 hb.2))
      simp only [Scalar.pieces, marks_append, marks_cons, harguments]
    | _ => cases h
  | .index owner index, b, h, ha, hb => by
    cases b with
    | index owner' index' =>
      simp only [Scalar.same, Bool.and_eq_true] at h
      simp only [Scalar.isWellFormed, Bool.and_eq_true] at ha hb
      have howner := marks_enclosed (Scalar.level_eq_of_same h.1 ha.1 hb.1)
        (Scalar.marks_eq_of_same indent owner owner' h.1 ha.1 hb.1) .primary
      simp only [Scalar.pieces, marks_append, marks_cons, howner,
        Scalar.marks_eq_of_same indent index index' h.2 ha.2 hb.2]
    | _ => cases h
  | .name identifier, b, h, _, _ => by
    cases b with
    | name identifier' =>
      obtain rfl := of_decide_eq_true h
      rfl
    | _ => cases h
  | .property owner identifier, b, h, ha, hb => by
    cases b with
    | property owner' identifier' =>
      simp only [Scalar.same, Bool.and_eq_true, decide_eq_true_eq] at h
      simp only [Scalar.isWellFormed, Bool.and_eq_true] at ha hb
      obtain ⟨howner, rfl⟩ := h
      have howner := marks_owner (Scalar.level_eq_of_same howner ha.1 hb.1)
        (Scalar.isNumber_eq_of_same howner)
        (Scalar.marks_eq_of_same indent owner owner' howner ha.1 hb.1)
      rw [Scalar.pieces, Scalar.pieces, marks_append, marks_append, howner]
    | _ => cases h
  | .parameter name, b, h, _, _ => by
    cases b with
    | parameter name' =>
      obtain rfl := of_decide_eq_true h
      rfl
    | _ => cases h
  | .array items, b, h, ha, hb => by
    cases b with
    | array items' =>
      simp only [Scalar.pieces, marks_cons, marks_append,
        marks_commaSeparated (Scalar.listMarks_eq_of_same indent items items' h ha hb)]
    | _ => cases h
  | .object fields, b, h, ha, hb => by
    cases b with
    | object fields' =>
      simp only [Scalar.pieces, marks_cons, marks_append,
        marks_commaSeparated (Field.listMarks_eq_of_same indent fields fields' h ha hb)]
    | _ => cases h
termination_by structural a => a

theorem Scalar.listMarks_eq_of_same (indent : Nat) : (as bs : List Scalar) →
    Scalar.sameList as bs = true → Scalar.allWellFormed as = true → Scalar.allWellFormed bs = true →
    (Scalar.listPieces indent as).map marks = (Scalar.listPieces indent bs).map marks
  | [], bs, h, _, _ => by
    cases bs with
    | nil => rfl
    | cons b bs => cases h
  | a :: as, bs, h, ha, hb => by
    cases bs with
    | nil => cases h
    | cons b bs =>
      simp only [Scalar.sameList, Bool.and_eq_true] at h
      simp only [Scalar.allWellFormed, Bool.and_eq_true] at ha hb
      simp only [Scalar.listPieces, List.map_cons, Scalar.marks_eq_of_same indent a b h.1 ha.1 hb.1,
        Scalar.listMarks_eq_of_same indent as bs h.2 ha.2 hb.2]
termination_by structural a => a

theorem Field.listMarks_eq_of_same (indent : Nat) : (as bs : List Field) →
    Field.sameList as bs = true → Field.allWellFormed as = true → Field.allWellFormed bs = true →
    (Field.listPieces indent as).map marks = (Field.listPieces indent bs).map marks
  | [], bs, h, _, _ => by
    cases bs with
    | nil => rfl
    | cons b bs => cases h
  | ⟨key, a⟩ :: as, bs, h, ha, hb => by
    cases bs with
    | nil => cases h
    | cons b bs =>
      obtain ⟨key', b⟩ := b
      simp only [Field.sameList, Bool.and_eq_true, decide_eq_true_eq] at h
      simp only [Field.allWellFormed, Bool.and_eq_true] at ha hb
      obtain ⟨⟨rfl, hvalue⟩, hrest⟩ := h
      simp only [Field.listPieces, List.map_cons, marks_cons,
        Scalar.marks_eq_of_same indent a b hvalue ha.1 hb.1,
        Field.listMarks_eq_of_same indent as bs hrest ha.2 hb.2]
termination_by structural a => a

theorem SelectItem.listMarks_eq_of_same (indent : Nat) : (as bs : List SelectItem) →
    SelectItem.sameList as bs = true → SelectItem.allWellFormed as = true →
    SelectItem.allWellFormed bs = true →
    (SelectItem.listPieces indent as).map marks = (SelectItem.listPieces indent bs).map marks
  | [], bs, h, _, _ => by
    cases bs with
    | nil => rfl
    | cons b bs => cases h
  | ⟨a, alias?⟩ :: as, bs, h, ha, hb => by
    cases bs with
    | nil => cases h
    | cons b bs =>
      obtain ⟨b, alias'?⟩ := b
      simp only [SelectItem.sameList, Bool.and_eq_true, decide_eq_true_eq] at h
      simp only [SelectItem.allWellFormed, Bool.and_eq_true] at ha hb
      obtain ⟨⟨hexpression, rfl⟩, hrest⟩ := h
      simp only [SelectItem.listPieces, List.map_cons, marks_append,
        Scalar.marks_eq_of_same indent a b hexpression ha.1.1 hb.1.1,
        SelectItem.listMarks_eq_of_same indent as bs hrest ha.2 hb.2]
termination_by structural a => a

theorem SortKey.listMarks_eq_of_same (indent : Nat) : (as bs : List SortKey) →
    SortKey.sameList as bs = true → SortKey.allWellFormed as = true →
    SortKey.allWellFormed bs = true →
    (SortKey.listPieces indent as).map marks = (SortKey.listPieces indent bs).map marks
  | [], bs, h, _, _ => by
    cases bs with
    | nil => rfl
    | cons b bs => cases h
  | ⟨a, descending⟩ :: as, bs, h, ha, hb => by
    cases bs with
    | nil => cases h
    | cons b bs =>
      obtain ⟨b, descending'⟩ := b
      simp only [SortKey.sameList, Bool.and_eq_true, decide_eq_true_eq] at h
      simp only [SortKey.allWellFormed, Bool.and_eq_true] at ha hb
      obtain ⟨⟨hexpression, rfl⟩, hrest⟩ := h
      simp only [SortKey.listPieces, List.map_cons, marks_append,
        Scalar.marks_eq_of_same indent a b hexpression ha.1 hb.1,
        SortKey.listMarks_eq_of_same indent as bs hrest ha.2 hb.2]
termination_by structural a => a

theorem Projection.marks_eq_of_same (indent : Nat) : (p r : Projection) → p.same r = true →
    p.isWellFormed = true → r.isWellFormed = true →
    marks (p.pieces indent) = marks (r.pieces indent)
  | .all, r, h, _, _ => by
    cases r with
    | all => rfl
    | _ => cases h
  | .items items, r, h, hp, hr => by
    cases r with
    | items items' =>
      simp only [Projection.isWellFormed, Bool.and_eq_true] at hp hr
      exact marks_commaSeparated (SelectItem.listMarks_eq_of_same indent items items' h hp.2 hr.2)
    | _ => cases h
  | .value e, r, h, hp, hr => by
    cases r with
    | value f =>
      simp only [Projection.pieces, marks_cons, Scalar.marks_eq_of_same indent e f h hp hr]
    | _ => cases h

theorem Collection.marks_eq_of_same (indent : Nat) : (c d : Collection) → c.same d = true →
    c.isWellFormed = true → d.isWellFormed = true →
    marks (c.pieces indent) = marks (d.pieces indent)
  | .path input segments, d, h, _, _ => by
    cases d with
    | path input' segments' =>
      simp only [Collection.same, Bool.and_eq_true, decide_eq_true_eq] at h
      obtain ⟨rfl, hsegments⟩ := h
      simp only [Collection.pieces, marks_cons, marks_segments hsegments]
    | _ => cases h
  | .subquery query, d, h, hc, hd => by
    cases d with
    | subquery query' =>
      exact marks_subquery (Query.marks_eq_of_same (indent + 1) query query' h hc hd)
    | _ => cases h
  | .array items, d, h, hc, hd => by
    cases d with
    | array items' =>
      simp only [Collection.isWellFormed, Bool.and_eq_true] at hc hd
      simp only [Collection.pieces, marks_cons, marks_append,
        marks_commaSeparated (Scalar.listMarks_eq_of_same indent items items' h hc.2 hd.2)]
    | _ => cases h

theorem Source.marks_eq_of_same (indent : Nat) : (s t : Source) → s.same t = true →
    s.isWellFormed = true → t.isWellFormed = true →
    marks (s.pieces indent) = marks (t.pieces indent)
  | .aliased collection alias?, t, h, hs, ht => by
    cases t with
    | aliased collection' alias'? =>
      simp only [Source.same, Bool.and_eq_true, decide_eq_true_eq] at h
      simp only [Source.isWellFormed, Bool.and_eq_true] at hs ht
      obtain ⟨hcollection, rfl⟩ := h
      simp only [Source.pieces, marks_append,
        Collection.marks_eq_of_same indent collection collection' hcollection hs.1 ht.1]
    | _ => cases h
  | .each element collection, t, h, hs, ht => by
    cases t with
    | each element' collection' =>
      simp only [Source.same, Bool.and_eq_true, decide_eq_true_eq] at h
      simp only [Source.isWellFormed, Bool.and_eq_true] at hs ht
      obtain ⟨rfl, hcollection⟩ := h
      simp only [Source.pieces, marks_cons,
        Collection.marks_eq_of_same indent collection collection' hcollection hs.2 ht.2]
    | _ => cases h
  | .join left right, t, h, hs, ht => by
    cases t with
    | join left' right' =>
      simp only [Source.same, Bool.and_eq_true] at h
      simp only [Source.isWellFormed, Bool.and_eq_true] at hs ht
      simp only [Source.pieces, marks_append,
        Source.marks_eq_of_same indent left left' h.1 hs.1.1 ht.1.1,
        Source.marks_eq_of_same indent right right' h.2 hs.2 ht.2]
    | _ => cases h
termination_by structural a => a

/-- Well-formed queries that say the same have the same marks. -/
theorem Query.marks_eq_of_same (indent : Nat) : (q r : Query) → q.same r = true →
    q.isWellFormed = true → r.isWellFormed = true →
    marks (q.pieces indent) = marks (r.pieces indent)
  | ⟨_, top?, projection, source?, filter?, groupKeys?, sortKeys?, window?⟩, r, h, hq, hr => by
    obtain ⟨_, top'?, projection', source'?, filter'?, groupKeys'?, sortKeys'?, window'?⟩ := r
    rw [Query.isWellFormed_eq] at hq hr
    simp only [Query.same, Bool.and_eq_true, decide_eq_true_eq] at h
    simp only [Bool.and_eq_true] at hq hr
    obtain ⟨⟨⟨⟨⟨⟨⟨rfl, htop⟩, hprojection⟩, hsource⟩, hfilter⟩, hgroup⟩, hsort⟩, hwindow⟩ := h
    obtain ⟨⟨⟨⟨⟨⟨qtop, qprojection⟩, qsource⟩, qfilter⟩, qgroup⟩, qsort⟩, qwindow⟩ := hq
    obtain ⟨⟨⟨⟨⟨⟨rtop, rprojection⟩, rsource⟩, rfilter⟩, rgroup⟩, rsort⟩, rwindow⟩ := hr
    have hprojection := Projection.marks_eq_of_same indent projection projection' hprojection
      qprojection rprojection
    have hsource : (source?.map (Source.pieces indent)).map marks =
        (source'?.map (Source.pieces indent)).map marks := by
      cases source? with
      | none => cases source'? <;> first | rfl | cases hsource
      | some s =>
        cases source'? with
        | none => cases hsource
        | some t => exact congrArg some (Source.marks_eq_of_same indent s t hsource qsource rsource)
    have hfilter : (filter?.map (Scalar.pieces indent)).map marks =
        (filter'?.map (Scalar.pieces indent)).map marks := by
      cases filter? with
      | none => cases filter'? <;> first | rfl | cases hfilter
      | some a =>
        cases filter'? with
        | none => cases hfilter
        | some b => exact congrArg some (Scalar.marks_eq_of_same indent a b hfilter qfilter rfilter)
    have hgroup : (groupKeys?.map fun keys => commaSeparated (Scalar.listPieces indent keys)).map
        marks = (groupKeys'?.map fun keys => commaSeparated (Scalar.listPieces indent keys)).map
          marks := by
      cases groupKeys? with
      | none => cases groupKeys'? <;> first | rfl | cases hgroup
      | some as =>
        cases groupKeys'? with
        | none => cases hgroup
        | some bs =>
          exact congrArg some (marks_commaSeparated (Scalar.listMarks_eq_of_same indent as bs hgroup
            (Bool.and_eq_true_iff.mp qgroup).2 (Bool.and_eq_true_iff.mp rgroup).2))
    have hsort : (sortKeys?.map fun keys => commaSeparated (SortKey.listPieces indent keys)).map
        marks = (sortKeys'?.map fun keys => commaSeparated (SortKey.listPieces indent keys)).map
          marks := by
      cases sortKeys? with
      | none => cases sortKeys'? <;> first | rfl | cases hsort
      | some as =>
        cases sortKeys'? with
        | none => cases hsort
        | some bs =>
          exact congrArg some (marks_commaSeparated (SortKey.listMarks_eq_of_same indent as bs hsort
            (Bool.and_eq_true_iff.mp qsort).2 (Bool.and_eq_true_iff.mp rsort).2))
    have htop : marks (topPieces indent top?) = marks (topPieces indent top'?) := by
      cases top? with
      | none => cases top'? <;> first | rfl | cases htop
      | some a =>
        cases top'? with
        | none => cases htop
        | some b =>
          simp only [topPieces, marks_cons, marks_append, marks_count qtop, marks_count rtop]
    have hwindow : (window?.map (Window.pieces indent)).map marks =
        (window'?.map (Window.pieces indent)).map marks := by
      cases window? with
      | none => cases window'? <;> first | rfl | cases hwindow
      | some v =>
        cases window'? with
        | none =>
          obtain ⟨_, _⟩ := v
          cases hwindow
        | some w => exact congrArg some ((marks_window qwindow).trans (marks_window rwindow).symm)
    rw [Query.pieces_eq, Query.pieces_eq]
    simp only [marks_cons, marks_append, htop, hprojection, marks_clause hsource,
      marks_clause hfilter, marks_clause hgroup, marks_clause hsort, marks_clause hwindow]

end

end DocQuery
