import DocQuery.Proofs.Grammar.Exact
import DocQuery.Proofs.Layout.LegibleTree
import DocQuery.Proofs.Layout.Says

/-!
# Trees are read back from their text

* `Query.parse_text_limit`, `Scalar.parse_text_limit`: the text of a well-formed tree is read back as
  that tree in every layout, if as many levels may nest as `nesting` counts, and is too deep if not.
* `parse_text`: so it is read back under every limit that is high enough.
* `parse_canonical`: what becomes of the canonical text of a query that was accepted.
-/

namespace DocQuery

open Grammar Reading

section

variable {q : Query} {e : Scalar}

theorem Query.tokens_text (h : q.isWellFormed = true) (layout : Layout) :
    Tokens (q.text layout) (Piece.tokens (q.pieces 0)) :=
  (Query.closed layout 0 q h [] endNumber_nil).spells.tokens

theorem Scalar.tokens_text (h : e.isWellFormed = true) (layout : Layout) :
    Tokens (e.text layout) (Piece.tokens (e.pieces 0)) :=
  ((Scalar.legible layout 0 e h).closed [] endNumber_nil).spells.tokens

/-- The text of a query is read back just if all its levels may nest. -/
theorem Query.parse_text_limit (h : q.isWellFormed = true) (layout : Layout) (limit : Nat) :
    (q.nesting ≤ limit → Query.parse (q.text layout) limit = .ok q) ∧
    (limit < q.nesting →
      ∃ place, Query.parse (q.text layout) limit = .error (.tooDeep place limit)) :=
  parseWith_of_phrase parses_query (Query.tokens_text h layout) (Query.said 0 q h)

/-- The text of a scalar is read back just if all its levels, and the one of the whole expression,
may nest. -/
theorem Scalar.parse_text_limit (h : e.isWellFormed = true) (layout : Layout) (limit : Nat) :
    (e.nesting + 1 ≤ limit → Scalar.parse (e.text layout) limit = .ok e) ∧
    (limit < e.nesting + 1 →
      ∃ place, Scalar.parse (e.text layout) limit = .error (.tooDeep place limit)) :=
  parseWith_of_phrase parses_expression (Scalar.tokens_text h layout) (Scalar.said 0 e h).expression

/-- A tree that was read is well-formed. -/
theorem Query.isWellFormed_of_parse {text : String} {limit : Nat}
    (h : Query.parse text limit = .ok q) : q.isWellFormed = true := by
  obtain ⟨ts, -, n, hq⟩ := exists_of_parseWith parses_query h
  exact (regular_query hq).wellFormed

end

/-- Every well-formed tree is read back from its text, in each layout, and exactly: under some limit
of nesting and all higher ones. -/
theorem parse_text :
    (∀ q : Query, q.isWellFormed = true → ∀ layout, ∃ bound, ∀ limit, bound ≤ limit →
      Query.parse (q.text layout) limit = .ok q) ∧
    (∀ e : Scalar, e.isWellFormed = true → ∀ layout, ∃ bound, ∀ limit, bound ≤ limit →
      Scalar.parse (e.text layout) limit = .ok e) :=
  ⟨fun q hq layout => ⟨q.nesting, fun limit => (Query.parse_text_limit hq layout limit).1⟩,
    fun e he layout => ⟨e.nesting + 1, fun limit => (Scalar.parse_text_limit he layout limit).1⟩⟩

/-- `(1).a - -2 NOT BETWEEN 0.5 AND @b`, where each of the pieces could run into the next. -/
theorem parse_text_between : ∀ layout, ∃ bound, ∀ limit, bound ≤ limit →
    Scalar.parse ((Scalar.between (.binary .subtract (.property (.number (.integer 1)) "a")
      (.unary .minus (.number (.integer 2)))) (.number (.double ⟨0x3FE0000000000000⟩))
      (.parameter "b") true).text layout) limit = .ok (.between (.binary .subtract
        (.property (.number (.integer 1)) "a") (.unary .minus (.number (.integer 2))))
        (.number (.double ⟨0x3FE0000000000000⟩)) (.parameter "b") true) :=
  parse_text.2 _ (by decide)

/-- A sum of sixty-two ones in parentheses, and two more added to it. -/
def longSum : String := "SELECT VALUE (1" ++ String.join (List.replicate 61 "+1") ++ ")+1+1"

theorem toList_longSum : longSum.toList = "SELECT VALUE (1".toList ++
    (List.replicate 61 "+1").flatMap String.toList ++ ")+1+1".toList := by
  unfold longSum
  rw [String.toList_append, String.toList_append, String.toList_join]

/-- Sums in parentheses to which more is added, and what they nest without the parentheses. -/
theorem nesting_sums :
    (Query.parse "SELECT VALUE (1+1)+1+1" 5).toOption.map Query.nesting = some 5 ∧
    (Query.parse longSum defaultLimit).toOption.map Query.nesting = some 65 := by
  constructor
  · decide +kernel
  · rw [Query.parse, Session.start, Scanner.ofText_eq toList_longSum]
    decide +kernel

/-- The canonical text of a query that was accepted is accepted under the same limit just if all its
levels may nest: dropped parentheses can leave a chain of more links than the limit has levels. -/
theorem parse_canonical {text : String} {limit : Nat} {q : Query}
    (h : Query.parse text limit = .ok q) (layout : Layout) :
    (Query.parse (q.text layout) limit = .ok q ↔ q.nesting ≤ limit) ∧
    (limit < q.nesting →
      ∃ place, Query.parse (q.text layout) limit = .error (.tooDeep place limit)) := by
  obtain ⟨hread, hdeep⟩ := Query.parse_text_limit (Query.isWellFormed_of_parse h) layout limit
  refine ⟨⟨fun htext => ?_, hread⟩, hdeep⟩
  by_contra hlimit
  obtain ⟨place, herror⟩ := hdeep (by omega)
  rw [htext] at herror
  cases herror

theorem parse_canonical_sum : ∃ q, Query.parse "SELECT VALUE (1+1)+1+1" 5 = .ok q ∧
    ∀ layout, Query.parse (q.text layout) 5 = .ok q := by
  obtain ⟨q, hq, hnesting⟩ := exists_of_map nesting_sums.1
  exact ⟨q, hq, fun layout => (parse_canonical hq layout).1.mpr hnesting.le⟩

/-- The sum in parentheses takes sixty-four levels, and gives them back before the chain it starts
goes on; without the parentheses the chain has sixty-three links. -/
theorem parse_canonical_too_deep : ∃ q, Query.parse longSum defaultLimit = .ok q ∧
    ∀ layout, ∃ place,
      Query.parse (q.text layout) defaultLimit = .error (.tooDeep place defaultLimit) := by
  obtain ⟨q, hq, hnesting⟩ := exists_of_map nesting_sums.2
  refine ⟨q, hq, fun layout => ?_⟩
  refine (Query.parse_text_limit (Query.isWellFormed_of_parse hq) layout defaultLimit).2 ?_
  rw [hnesting]
  decide

end DocQuery
