import DocQuery.Proofs.Layout.RoundTrip
import DocQuery.Proofs.Layout.Signed

/-!
# Numbers with a sign are read back as operators

A number with a sign is printed as an operator in its place would be, so the text of a tree is read
back as the tree in which all signs are operators.

* `Scalar.pieces_withSigns`, `Query.pieces_withSigns`: the pieces of that tree are the pieces of the
  tree with a minus for each sign, by recursion on the tree.
* `parse_text_withSigns`: the text is read back as that tree.
-/

namespace DocQuery

open Piece Grammar

mutual

/-- The tree with operators for signs is printed with a minus for each sign. -/
theorem Scalar.pieces_withSigns (indent : Nat) : (e : Scalar) → e.withSigns.isWellFormed = true →
    Piece.withSigns (e.pieces indent) = e.withSigns.pieces indent
  | .literal v, _ => withSigns_literal v
  | .unary op operand, h => by
    rw [Scalar.withSigns, Scalar.pieces, Scalar.pieces, withSigns_unary, withSigns_enclosed,
      Scalar.pieces_withSigns indent operand h]
  | .binary op left right, h => by
    simp only [Scalar.withSigns, Scalar.isWellFormed, Bool.and_eq_true] at h
    rw [Scalar.withSigns, Scalar.pieces, Scalar.pieces, withSigns_binary, withSigns_enclosed,
      withSigns_enclosed, Scalar.pieces_withSigns indent left h.1.2,
      Scalar.pieces_withSigns indent right h.2]
  | .between subject low high negated, h => by
    simp only [Scalar.withSigns, Scalar.isWellFormed, Bool.and_eq_true] at h
    simp only [Scalar.withSigns, Scalar.pieces, withSigns_append, withSigns_enclosed,
      withSigns_space, withSigns_keyword, withSigns_nil, withSigns_negation,
      Scalar.pieces_withSigns indent subject h.1.1, Scalar.pieces_withSigns indent low h.1.2,
      Scalar.pieces_withSigns indent high h.2]
  | .conditional condition consequent alternative, h => by
    simp only [Scalar.withSigns, Scalar.isWellFormed, Bool.and_eq_true] at h
    simp only [Scalar.withSigns, Scalar.pieces, withSigns_append, withSigns_enclosed,
      withSigns_space, withSigns_mark, withSigns_nil,
      Scalar.pieces_withSigns indent condition h.1.1,
      Scalar.pieces_withSigns indent consequent h.1.2,
      Scalar.pieces_withSigns indent alternative h.2]
  | .coalesce left right, h => by
    simp only [Scalar.withSigns, Scalar.isWellFormed, Bool.and_eq_true] at h
    rw [Scalar.withSigns, Scalar.pieces, Scalar.pieces, withSigns_binary, withSigns_enclosed,
      withSigns_enclosed, Scalar.pieces_withSigns indent left h.1,
      Scalar.pieces_withSigns indent right h.2]
  | .among subject items negated, h => by
    simp only [Scalar.withSigns, Scalar.isWellFormed, Bool.and_eq_true] at h
    simp only [Scalar.withSigns, Scalar.pieces, withSigns_append, withSigns_enclosed,
      withSigns_space, withSigns_keyword, withSigns_nil, withSigns_negation, withSigns_parenthesized,
      withSigns_commaSeparated, Scalar.pieces_withSigns indent subject h.1.1,
      Scalar.listPieces_withSigns indent items h.2]
  | .subquery use query, h => by
    have huse : Piece.withSigns use.pieces = use.pieces := by cases use <;> rfl
    rw [Scalar.withSigns, Scalar.pieces, Scalar.pieces, withSigns_append, huse, withSigns_subquery,
      Query.pieces_withSigns (indent + 1) query h]
  | .call function userDefined arguments, h => by
    simp only [Scalar.withSigns, Scalar.isWellFormed, Bool.and_eq_true] at h
    have hudf : Piece.withSigns (if userDefined then [.keyword .udf, .mark .dot] else []) =
        if userDefined then [.keyword .udf, .mark .dot] else [] := by
      cases userDefined <;> rfl
    simp only [Scalar.withSigns, Scalar.pieces, withSigns_append, hudf, withSigns_identifier,
      withSigns_parenthesized, withSigns_commaSeparated,
      Scalar.listPieces_withSigns indent arguments h.2]
  | .index owner index, h => by
    simp only [Scalar.withSigns, Scalar.isWellFormed, Bool.and_eq_true] at h
    simp only [Scalar.withSigns, Scalar.pieces, withSigns_append, withSigns_enclosed,
      withSigns_mark, withSigns_nil, Scalar.pieces_withSigns indent owner h.1,
      Scalar.pieces_withSigns indent index h.2]
  | .name _, _ => rfl
  | .property owner identifier, h => by
    simp only [Scalar.withSigns, Scalar.isWellFormed, Bool.and_eq_true] at h
    rw [Scalar.withSigns, Scalar.pieces, Scalar.pieces, withSigns_append, withSigns_owner,
      Scalar.pieces_withSigns indent owner h.1]
    rfl
  | .parameter _, _ => rfl
  | .array items, h => by
    simp only [Scalar.withSigns, Scalar.pieces, withSigns_append, withSigns_mark, withSigns_nil,
      withSigns_commaSeparated, Scalar.listPieces_withSigns indent items h]
  | .object fields, h => by
    simp only [Scalar.withSigns, Scalar.pieces, withSigns_append, withSigns_mark, withSigns_nil,
      withSigns_commaSeparated, Field.listPieces_withSigns indent fields h]

theorem Scalar.listPieces_withSigns (indent : Nat) : (es : List Scalar) →
    Scalar.allWellFormed (Scalar.listWithSigns es) = true →
    (Scalar.listPieces indent es).map Piece.withSigns =
      Scalar.listPieces indent (Scalar.listWithSigns es)
  | [], _ => rfl
  | e :: rest, h => by
    simp only [Scalar.listWithSigns, Scalar.allWellFormed, Bool.and_eq_true] at h
    simp only [Scalar.listWithSigns, Scalar.listPieces, List.map_cons,
      Scalar.pieces_withSigns indent e h.1, Scalar.listPieces_withSigns indent rest h.2]

theorem Field.listPieces_withSigns (indent : Nat) : (fields : List Field) →
    Field.allWellFormed (Field.listWithSigns fields) = true →
    (Field.listPieces indent fields).map Piece.withSigns =
      Field.listPieces indent (Field.listWithSigns fields)
  | [], _ => rfl
  | ⟨key, value⟩ :: rest, h => by
    simp only [Field.listWithSigns, Field.allWellFormed, Bool.and_eq_true] at h
    simp only [Field.listWithSigns, Field.listPieces, List.map_cons, withSigns_string,
      withSigns_mark, withSigns_space, Scalar.pieces_withSigns indent value h.1,
      Field.listPieces_withSigns indent rest h.2]

theorem SelectItem.listPieces_withSigns (indent : Nat) : (items : List SelectItem) →
    SelectItem.allWellFormed (SelectItem.listWithSigns items) = true →
    (SelectItem.listPieces indent items).map Piece.withSigns =
      SelectItem.listPieces indent (SelectItem.listWithSigns items)
  | [], _ => rfl
  | ⟨e, alias?⟩ :: rest, h => by
    simp only [SelectItem.listWithSigns, SelectItem.allWellFormed, Bool.and_eq_true] at h
    simp only [SelectItem.listWithSigns, SelectItem.listPieces, List.map_cons, withSigns_append,
      withSigns_alias, Scalar.pieces_withSigns indent e h.1.1,
      SelectItem.listPieces_withSigns indent rest h.2]

theorem SortKey.listPieces_withSigns (indent : Nat) : (keys : List SortKey) →
    SortKey.allWellFormed (SortKey.listWithSigns keys) = true →
    (SortKey.listPieces indent keys).map Piece.withSigns =
      SortKey.listPieces indent (SortKey.listWithSigns keys)
  | [], _ => rfl
  | ⟨e, descending⟩ :: rest, h => by
    simp only [SortKey.listWithSigns, SortKey.allWellFormed, Bool.and_eq_true] at h
    have hdescending : Piece.withSigns (if descending then [.space, .keyword .desc] else []) =
        if descending then [.space, .keyword .desc] else [] := by
      cases descending <;> rfl
    simp only [SortKey.listWithSigns, SortKey.listPieces, List.map_cons, withSigns_append,
      hdescending, Scalar.pieces_withSigns indent e h.1, SortKey.listPieces_withSigns indent rest h.2]

theorem Projection.pieces_withSigns (indent : Nat) : (p : Projection) →
    p.withSigns.isWellFormed = true → Piece.withSigns (p.pieces indent) = p.withSigns.pieces indent
  | .all, _ => rfl
  | .items items, h => by
    simp only [Projection.withSigns, Projection.isWellFormed, Bool.and_eq_true] at h
    simp only [Projection.withSigns, Projection.pieces, withSigns_commaSeparated,
      SelectItem.listPieces_withSigns indent items h.2]
  | .value e, h => by
    simp only [Projection.withSigns, Projection.pieces, withSigns_keyword, withSigns_space,
      Scalar.pieces_withSigns indent e h]

theorem Collection.pieces_withSigns (indent : Nat) : (c : Collection) →
    c.withSigns.isWellFormed = true → Piece.withSigns (c.pieces indent) = c.withSigns.pieces indent
  | .path input segments, h => by
    simp only [Collection.withSigns, Collection.isWellFormed, Bool.and_eq_true] at h
    rw [Collection.withSigns, Collection.pieces, withSigns_identifier, withSigns_segments h.2]
  | .subquery query, h => by
    rw [Collection.withSigns, Collection.pieces, Collection.pieces, withSigns_subquery,
      Query.pieces_withSigns (indent + 1) query h]
  | .array items, h => by
    simp only [Collection.withSigns, Collection.isWellFormed, Bool.and_eq_true] at h
    simp only [Collection.withSigns, Collection.pieces, withSigns_append, withSigns_mark,
      withSigns_nil, withSigns_commaSeparated, Scalar.listPieces_withSigns indent items h.2]

theorem Source.pieces_withSigns (indent : Nat) : (s : Source) → s.withSigns.isWellFormed = true →
    Piece.withSigns (s.pieces indent) = s.withSigns.pieces indent
  | .aliased collection alias?, h => by
    simp only [Source.withSigns, Source.isWellFormed, Bool.and_eq_true] at h
    simp only [Source.withSigns, Source.pieces, withSigns_append, withSigns_alias,
      Collection.pieces_withSigns indent collection h.1]
  | .each element collection, h => by
    simp only [Source.withSigns, Source.isWellFormed, Bool.and_eq_true] at h
    simp only [Source.withSigns, Source.pieces, withSigns_identifier, withSigns_space,
      withSigns_keyword, Collection.pieces_withSigns indent collection h.2]
  | .join left right, h => by
    simp only [Source.withSigns, Source.isWellFormed, Bool.and_eq_true] at h
    simp only [Source.withSigns, Source.pieces, withSigns_append, withSigns_space,
      withSigns_keyword, withSigns_nil, Source.pieces_withSigns indent left h.1.1,
      Source.pieces_withSigns indent right h.2]

/-- The query with operators for signs is printed with a minus for each sign. -/
theorem Query.pieces_withSigns (indent : Nat) : (q : Query) → q.withSigns.isWellFormed = true →
    Piece.withSigns (q.pieces indent) = q.withSigns.pieces indent
  | ⟨distinct, top?, projection, source?, filter?, groupKeys?, sortKeys?, window?⟩, h => by
    rw [Query.withSigns_eq, Query.isWellFormed_eq] at h
    simp only [Bool.and_eq_true] at h
    obtain ⟨⟨⟨⟨⟨⟨htop, hprojection⟩, hsource⟩, hfilter⟩, hgroup⟩, hsort⟩, hwindow⟩ := h
    have hdistinct : Piece.withSigns (if distinct then [.keyword .distinct, .space] else []) =
        if distinct then [.keyword .distinct, .space] else [] := by
      cases distinct <;> rfl
    have hsource : (source?.map (Source.pieces indent)).map Piece.withSigns =
        (source?.map Source.withSigns).map (Source.pieces indent) := by
      cases source? with
      | none => rfl
      | some s => exact congrArg some (Source.pieces_withSigns indent s hsource)
    have hfilter : (filter?.map (Scalar.pieces indent)).map Piece.withSigns =
        (filter?.map Scalar.withSigns).map (Scalar.pieces indent) := by
      cases filter? with
      | none => rfl
      | some e => exact congrArg some (Scalar.pieces_withSigns indent e hfilter)
    have hgroup : (groupKeys?.map fun keys => commaSeparated (Scalar.listPieces indent keys)).map
        Piece.withSigns = (groupKeys?.map Scalar.listWithSigns).map
          fun keys => commaSeparated (Scalar.listPieces indent keys) := by
      cases groupKeys? with
      | none => rfl
      | some keys =>
        have hkeys := Scalar.listPieces_withSigns indent keys (Bool.and_eq_true_iff.mp hgroup).2
        simp only [Option.map_some, withSigns_commaSeparated, hkeys]
    have hsort : (sortKeys?.map fun keys => commaSeparated (SortKey.listPieces indent keys)).map
        Piece.withSigns = (sortKeys?.map SortKey.listWithSigns).map
          fun keys => commaSeparated (SortKey.listPieces indent keys) := by
      cases sortKeys? with
      | none => rfl
      | some keys =>
        have hkeys := SortKey.listPieces_withSigns indent keys (Bool.and_eq_true_iff.mp hsort).2
        simp only [Option.map_some, withSigns_commaSeparated, hkeys]
    have hwindow : (window?.map (Window.pieces indent)).map Piece.withSigns =
        window?.map (Window.pieces indent) := by
      cases window? with
      | none => rfl
      | some w => exact congrArg some (withSigns_window hwindow)
    rw [Query.withSigns_eq, Query.pieces_eq, Query.pieces_eq]
    simp only [withSigns_keyword, withSigns_space, withSigns_append, withSigns_clause, hdistinct,
      withSigns_top htop, Projection.pieces_withSigns indent projection hprojection, hsource, hfilter,
      hgroup, hsort, hwindow]

end

/-! ## Reading back -/

theorem Query.tokens_withSigns {q : Query} (h : q.withSigns.isWellFormed = true) (layout : Layout) :
    Tokens (q.text layout) (tokens (q.withSigns.pieces 0)) := by
  have hpieces := Query.pieces_withSigns 0 q h
  have hlegible := Query.closed layout 0 q.withSigns h [] endNumber_nil
  rw [← hpieces] at hlegible ⊢
  exact (spells_withSigns hlegible).tokens

theorem Scalar.tokens_withSigns {e : Scalar} (h : e.withSigns.isWellFormed = true) (layout : Layout) :
    Tokens (e.text layout) (tokens (e.withSigns.pieces 0)) := by
  have hpieces := Scalar.pieces_withSigns 0 e h
  have hlegible := (Scalar.legible layout 0 e.withSigns h).closed [] endNumber_nil
  rw [← hpieces] at hlegible ⊢
  exact (spells_withSigns hlegible).tokens

/-- A tree that is well-formed but for the signs of its literals is read back with operators for
them, in each layout, under some limit of nesting and all higher ones. -/
theorem parse_text_withSigns :
    (∀ q : Query, q.withSigns.isWellFormed = true → ∀ layout, ∃ bound, ∀ limit, bound ≤ limit →
      Query.parse (q.text layout) limit = .ok q.withSigns) ∧
    (∀ e : Scalar, e.withSigns.isWellFormed = true → ∀ layout, ∃ bound, ∀ limit, bound ≤ limit →
      Scalar.parse (e.text layout) limit = .ok e.withSigns) := by
  constructor
  · intro q hq layout
    exact ⟨q.withSigns.nesting, fun limit => (parseWith_of_phrase parses_query
      (Query.tokens_withSigns hq layout) (Query.said 0 q.withSigns hq)).1⟩
  · intro e he layout
    exact ⟨e.withSigns.nesting + 1, fun limit => (parseWith_of_phrase parses_expression
      (Scalar.tokens_withSigns he layout) (Scalar.said 0 e.withSigns he).expression).1⟩

/-- `(-5).a BETWEEN - -0.0 AND (-9223372036854775808)[1]` -/
theorem parse_text_withSigns_between : ∀ layout, ∃ bound, ∀ limit, bound ≤ limit →
    Scalar.parse ((Scalar.between (.property (.number (.integer (-5))) "a")
      (.unary .minus (.number (.double ⟨0x8000000000000000⟩)))
      (.index (.number (.integer Int64.minValue)) (.number (.integer 1))) false).text layout) limit =
        .ok (.between (.property (.unary .minus (.number (.integer 5))) "a")
          (.unary .minus (.unary .minus (.number (.double ⟨0⟩))))
          (.index (.unary .minus (.number (.double ⟨0x43E0000000000000⟩))) (.number (.integer 1)))
          false) := by
  have hsign {a b : Number} (h : a.isSigned = true) (hb : a.unsigned = b) :
      Literal.withSign (.number a) = .unary .minus (.number b) :=
    hb ▸ Literal.withSign_of_isSigned h
  have hfive : Literal.withSign (.number (.integer (-5))) = .unary .minus (.number (.integer 5)) :=
    hsign (by decide +kernel) (by decide +kernel)
  have hzero : Literal.withSign (.number (.double ⟨0x8000000000000000⟩)) =
      .unary .minus (.number (.double ⟨0⟩)) :=
    hsign (by decide +kernel) (by decide +kernel)
  have hsmallest : Literal.withSign (.number (.integer Int64.minValue)) =
      .unary .minus (.number (.double ⟨0x43E0000000000000⟩)) :=
    hsign (by decide +kernel) (by decide +kernel)
  have hone : Literal.withSign (.number (.integer 1)) = .number (.integer 1) :=
    Literal.withSign_of_not_isSigned (by decide +kernel)
  have hread := parse_text_withSigns.2 (.between (.property (.number (.integer (-5))) "a")
    (.unary .minus (.number (.double ⟨0x8000000000000000⟩)))
    (.index (.number (.integer Int64.minValue)) (.number (.integer 1))) false) (by decide +kernel)
  simpa only [Scalar.withSigns, Scalar.number, hfive, hzero, hsmallest, hone] using hread

end DocQuery
