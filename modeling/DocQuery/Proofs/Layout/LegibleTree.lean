import DocQuery.Proofs.Layout.Legible
import DocQuery.Proofs.Layout.Pieces
import DocQuery.Proofs.Tree.WellFormed

/-!
# Trees are legible

The text of every well-formed tree is read back token by token, in every layout: no two of its
pieces merge and none is split (`Query.legible`, `Scalar.legible`). What matters at each place is the
character that comes next, and only behind names and numbers: `Scalar.MayPrecede` says which
characters may come behind a scalar.
-/

namespace DocQuery

open Text Piece Layout

section

variable {layout : Layout} {pieces : List Piece} {cs : List Char} {name : String} {a : Number}
  {t : Token} {m : Mark}

/-! ## Leaves -/

@[simp] theorem legible_token_space : layout.Legible (.token t :: .space :: pieces) cs ↔
    t.isSpellable = true ∧ layout.Legible pieces cs := by
  simp [Legible, t.apart_space]

@[simp] theorem legible_mark_space :
    layout.Legible (.mark m :: .space :: pieces) cs ↔ layout.Legible pieces cs :=
  legible_token_space.trans (and_iff_right rfl)

@[simp] theorem legible_number : layout.Legible (.number a :: pieces) cs ↔
    a.isPlain = true ∧ EndNumber (layout.chars pieces ++ cs) ∧ layout.Legible pieces cs := by
  cases a <;> rfl

@[simp] theorem legible_string {s : String} :
    layout.Legible (.token (.string s) :: pieces) cs ↔ layout.Legible pieces cs :=
  ⟨fun h => h.2.2, fun h => ⟨rfl, fun _ _ => rfl, h⟩⟩

/-- A name behind a point does not make the point a number. -/
@[simp] theorem legible_dot : layout.Legible (.mark .dot :: .identifier name :: pieces) cs ↔
    isIdentifier name = true ∧ EndName (layout.chars pieces ++ cs) ∧ layout.Legible pieces cs := by
  refine ⟨fun h => h.2.2, fun h => ⟨rfl, ?_, h⟩⟩
  obtain ⟨c, ds, hlist, hc, -⟩ := exists_of_isName (Bool.and_eq_true_iff.mp h.1).1
  intro d hd
  have hchars : layout.chars (.identifier name :: pieces) = name.toList ++ layout.chars pieces := rfl
  rw [hchars, hlist] at hd
  cases hd
  exact not_isDigit_of_beginsName hc

/-! ## Groups -/

/-- The pieces are legible before all that ends a number. -/
def Layout.Closed (layout : Layout) (pieces : List Piece) : Prop :=
  ∀ cs, EndNumber cs → layout.Legible pieces cs

/-- Between marks that end a number and are no parts of longer ones. -/
theorem Layout.Closed.between (h : layout.Closed pieces) {l r : Mark}
    (hl : ∀ c, (Token.mark l).goesOnWith c = false)
    (hr : ∀ c, (Token.mark r).goesOnWith c = false) (hdot : r ≠ .dot) :
    layout.Legible (.mark l :: (pieces ++ [.mark r])) cs := by
  rw [legible_mark hl, legible_append, legible_mark hr]
  refine ⟨h _ ?_, legible_nil⟩
  exact endNumber_mark hdot

theorem legible_parenthesized (h : layout.Closed pieces) :
    layout.Legible (parenthesized pieces) cs :=
  h.between (fun _ => rfl) (fun _ => rfl) nofun

theorem closed_commaSeparated {items : List (List Piece)} (h : ∀ ps ∈ items, layout.Closed ps) :
    layout.Closed (commaSeparated items) := by
  intro cs hcs
  induction items with
  | nil => exact legible_nil
  | cons ps items ih =>
    have hps := h ps List.mem_cons_self
    have hitems := ih fun qs hqs => h qs (List.mem_cons_of_mem _ hqs)
    cases items with
    | nil =>
      rw [commaSeparated_single]
      exact hps cs hcs
    | cons qs items =>
      rw [commaSeparated_cons, legible_append, legible_mark_space]
      refine ⟨hps _ ?_, hitems⟩
      exact endNumber_mark nofun

/-- What may come behind a scalar: what ends a number, and behind all that binds tightest but
numbers also a point. -/
def Scalar.MayPrecede (e : Scalar) (cs : List Char) : Prop :=
  EndNumber cs ∨ e.level = .primary ∧ e.isNumber = false ∧ EndName cs

theorem Scalar.MayPrecede.endName {e : Scalar} (h : e.MayPrecede cs) : EndName cs :=
  h.elim EndNumber.endName fun h => h.2.2

theorem Scalar.MayPrecede.endNumber {e : Scalar} (h : e.MayPrecede cs) (he : e.level ≠ .primary) :
    EndNumber cs :=
  h.resolve_right fun h => he h.1

/-- The scalar is legible before all that may come behind it. -/
def Scalar.LegibleIn (e : Scalar) (layout : Layout) (indent : Nat) : Prop :=
  ∀ cs, e.MayPrecede cs → layout.Legible (e.pieces indent) cs

namespace Scalar.LegibleIn

variable {e : Scalar} {indent : Nat}

theorem closed (h : e.LegibleIn layout indent) : layout.Closed (e.pieces indent) :=
  fun cs hcs => h cs (.inl hcs)

/-- An operand, with parentheses or without. -/
theorem enclosed (h : e.LegibleIn layout indent) (level : Level) :
    layout.Closed (e.enclosed level (e.pieces indent)) := by
  unfold Scalar.enclosed
  split
  · exact fun _ _ => legible_parenthesized h.closed
  · exact h.closed

/-- The owner of a property: a number stands between parentheses. -/
theorem owner (h : e.LegibleIn layout indent) (hcs : EndName cs) :
    layout.Legible (if e.isNumber then parenthesized (e.pieces indent)
      else e.enclosed .primary (e.pieces indent)) cs := by
  unfold Scalar.enclosed
  split
  · exact legible_parenthesized h.closed
  · split
    · exact legible_parenthesized h.closed
    · rename_i hnumber hlevel
      refine h cs (.inr ⟨?_, by simpa using hnumber, hcs⟩)
      revert hlevel
      generalize e.level = level
      cases level <;> decide

end Scalar.LegibleIn

end

/-! ## Trees -/

theorem Literal.legible {layout : Layout} {v : Literal} (hv : v.isWellFormed = true)
    {cs : List Char} (hcs : (Scalar.literal v).MayPrecede cs) : layout.Legible v.pieces cs := by
  cases v with
  | number a =>
    have ha : a.isPlain = true := hv
    exact legible_number.mpr ⟨ha, hcs.resolve_right (fun h => nomatch h.2.1), legible_nil⟩
  | boolean b => cases b <;> exact legible_keyword.mpr ⟨hcs.endName, legible_nil⟩
  | null => exact legible_keyword.mpr ⟨hcs.endName, legible_nil⟩
  | undefined => exact legible_keyword.mpr ⟨hcs.endName, legible_nil⟩
  | string s => exact legible_string.mpr legible_nil

section

variable {layout : Layout} {pieces left right low high : List Piece} {cs : List Char}

theorem closed_unary {op : UnaryOp} (h : layout.Closed pieces) : layout.Closed (op.pieces pieces) := by
  intro cs hcs
  have hrest := h cs hcs
  have hop : op.token.isSpellable = true := by cases op <;> rfl
  unfold UnaryOp.pieces
  split
  · exact legible_token_space.mpr ⟨hop, hrest⟩
  · rename_i hnot
    have hwhole (c : Char) : op.token.goesOnWith c = false := by
      cases op
      case not => exact absurd (by simp) hnot
      all_goals rfl
    exact ⟨hop, fun c _ => hwhole c, hrest⟩

theorem closed_binary {op : BinaryOp} (hl : layout.Closed left) (hr : layout.Closed right) :
    layout.Closed (op.pieces left right) := by
  intro cs hcs
  have hop : op.token.isSpellable = true := by cases op <;> rfl
  simp [BinaryOp.pieces, hop, hl _ (endNumber_space _), hr cs hcs]

@[simp] theorem legible_negation (negated : Bool) : layout.Legible (negation negated) cs := by
  cases negated
  · exact legible_nil
  · exact legible_token_space.mpr ⟨rfl, legible_nil⟩

theorem closed_between (hs : layout.Closed pieces) (hl : layout.Closed low)
    (hh : layout.Closed high) (negated : Bool) :
    layout.Closed (pieces ++ .space :: negation negated ++ [.keyword .between, .space] ++ low ++
      [.space, .keyword .and, .space] ++ high) := by
  intro cs hcs
  simp [hs _ (endNumber_space _), hl _ (endNumber_space _), hh cs hcs]

theorem closed_among (hs : layout.Closed pieces) {items : List (List Piece)}
    (hitems : ∀ ps ∈ items, layout.Closed ps) (negated : Bool) :
    layout.Closed (pieces ++ .space :: negation negated ++ [.keyword .in, .space] ++
      parenthesized (commaSeparated items)) := by
  intro cs hcs
  simp [hs _ (endNumber_space _), legible_parenthesized (closed_commaSeparated hitems)]

theorem closed_conditional (hc : layout.Closed pieces) (ha : layout.Closed left)
    (hb : layout.Closed right) : layout.Closed (pieces ++ [.space, .mark .question, .space] ++
      left ++ [.space, .mark .colon, .space] ++ right) := by
  intro cs hcs
  simp [hc _ (endNumber_space _), ha _ (endNumber_space _), hb cs hcs]

theorem legible_subquery (h : layout.Closed pieces) (indent : Nat) :
    layout.Legible (subqueryPieces indent pieces) cs := by
  have hmark (m : Mark) (hm : ∀ c, (Token.mark m).goesOnWith c = false) {ps : List Piece} :
      layout.Legible (.mark m :: ps) cs ↔ layout.Legible ps cs := legible_mark hm
  rw [subqueryPieces, hmark .leftParen fun _ => rfl, legible_gap, legible_append, legible_gap,
    hmark .rightParen fun _ => rfl]
  refine ⟨h _ ?_, legible_nil⟩
  rw [chars_gap, List.append_assoc]
  exact endNumber_gap _ (endNumber_mark nofun)

theorem legible_use (use : SubqueryUse) (h : layout.Legible pieces cs)
    (hname : EndName (layout.chars pieces ++ cs)) : layout.Legible (use.pieces ++ pieces) cs := by
  cases use with
  | «exists» => exact legible_keyword.mpr ⟨hname, h⟩
  | array => exact legible_keyword.mpr ⟨hname, h⟩
  | value => exact h

theorem legible_call {function : String} (hfunction : isIdentifier function = true)
    (userDefined : Bool) {items : List (List Piece)} (hitems : ∀ ps ∈ items, layout.Closed ps) :
    layout.Legible ((if userDefined then [.keyword .udf, .mark .dot] else []) ++
      .identifier function :: parenthesized (commaSeparated items)) cs := by
  have hparens : layout.Legible (parenthesized (commaSeparated items)) cs :=
    legible_parenthesized (closed_commaSeparated hitems)
  have hname : EndName (layout.chars (parenthesized (commaSeparated items)) ++ cs) :=
    endName_mark _
  cases userDefined
  · exact ⟨hfunction, hname, hparens⟩
  · exact legible_keyword.mpr ⟨endName_mark _, legible_dot.mpr ⟨hfunction, hname, hparens⟩⟩

/-- An access by a name. -/
theorem legible_property {name : String} (hname : isIdentifier name = true) (hcs : EndName cs)
    (ho : ∀ cs, EndName cs → layout.Legible pieces cs) :
    layout.Legible (pieces ++ [.mark .dot, .identifier name]) cs := by
  rw [legible_append, legible_dot]
  exact ⟨ho _ (endName_mark _), hname, hcs, legible_nil⟩

theorem legible_index (ho : layout.Closed pieces) (hi : layout.Closed left) :
    layout.Legible (pieces ++ .mark .leftBracket :: (left ++ [.mark .rightBracket])) cs := by
  rw [legible_append]
  exact ⟨ho _ (endNumber_mark nofun),
    hi.between (fun _ => rfl) (fun _ => rfl) nofun⟩

theorem closed_field (h : layout.Closed pieces) (key : String) :
    layout.Closed (.token (.string key) :: .mark .colon :: .space :: pieces) :=
  fun cs hcs => legible_string.mpr (legible_mark_space.mpr (h cs hcs))

theorem legible_alias {alias? : Option String} (h : isAlias alias? = true) (hcs : EndNumber cs) :
    layout.Legible (aliasPieces alias?) cs := by
  cases alias? with
  | none => exact legible_nil
  | some name => exact legible_token_space.mpr ⟨rfl, h, hcs.endName, legible_nil⟩

theorem closed_aliased {alias? : Option String} (h : layout.Closed pieces)
    (halias : isAlias alias? = true) : layout.Closed (pieces ++ aliasPieces alias?) := by
  intro cs hcs
  refine legible_append.mpr ⟨h _ ?_, legible_alias halias hcs⟩
  cases alias? with
  | none => exact hcs
  | some name => simp [aliasPieces]

theorem closed_sorted (h : layout.Closed pieces) (descending : Bool) :
    layout.Closed (pieces ++ if descending then [.space, .keyword .desc] else []) := by
  intro cs hcs
  cases descending
  · simpa using h cs hcs
  · refine legible_append.mpr ⟨h _ ?_, legible_keyword.mpr ⟨hcs.endName, legible_nil⟩⟩
    simp

/-- The steps of a path. -/
theorem legible_segments {segments : List Segment} (h : segments.all Segment.isWellFormed = true)
    (hcs : EndName cs) : layout.Legible (segments.flatMap Segment.pieces) cs ∧
      EndName (layout.chars (segments.flatMap Segment.pieces) ++ cs) := by
  induction segments with
  | nil => exact ⟨legible_nil, hcs⟩
  | cons segment segments ih =>
    obtain ⟨hsegment, hrest⟩ := Bool.and_eq_true_iff.mp h
    obtain ⟨hlegible, hname⟩ := ih hrest
    rw [List.flatMap_cons, legible_append, chars_append, List.append_assoc]
    cases segment with
    | name identifier =>
      exact ⟨⟨legible_dot.mpr ⟨hsegment, hname, legible_nil⟩, hlegible⟩, endName_mark _⟩
    | number a =>
      have ha : layout.Closed [.number a] := fun cs hcs =>
        legible_number.mpr ⟨hsegment, hcs, legible_nil⟩
      exact ⟨⟨ha.between (fun _ => rfl) (fun _ => rfl) nofun, hlegible⟩,
        endName_mark _⟩
    | string s =>
      have hs : layout.Closed [.token (.string s)] := fun cs _ => legible_string.mpr legible_nil
      exact ⟨⟨hs.between (fun _ => rfl) (fun _ => rfl) nofun, hlegible⟩,
        endName_mark _⟩

theorem closed_path {input : String} (hinput : isIdentifier input = true) {segments : List Segment}
    (h : segments.all Segment.isWellFormed = true) :
    layout.Closed (.identifier input :: segments.flatMap Segment.pieces) := by
  intro cs hcs
  have hsegments : layout.Legible (segments.flatMap Segment.pieces) cs ∧
      EndName (layout.chars (segments.flatMap Segment.pieces) ++ cs) :=
    legible_segments h hcs.endName
  obtain ⟨hlegible, hname⟩ := hsegments
  exact ⟨hinput, hname, hlegible⟩

theorem closed_each {name : String} (hname : isIdentifier name = true) (h : layout.Closed pieces) :
    layout.Closed (.identifier name :: .space :: .keyword .in :: .space :: pieces) :=
  fun cs hcs => legible_token_space.mpr ⟨hname, legible_token_space.mpr ⟨rfl, h cs hcs⟩⟩

theorem closed_join (hl : layout.Closed left) (hr : layout.Closed right) :
    layout.Closed (left ++ [.space, .keyword .join, .space] ++ right) := by
  intro cs hcs
  simp [hl _ (endNumber_space _), hr cs hcs]

/-! ## Clauses -/

theorem closed_count {e : Scalar} (h : e.isCount = true) (indent : Nat) :
    layout.Closed (e.pieces indent) := by
  intro cs hcs
  unfold Scalar.isCount at h
  split at h
  · rename_i a
    exact Literal.legible (v := .number a) h (.inl hcs)
  · exact ⟨h, hcs.endName, legible_nil⟩
  · cases h

theorem legible_words (words : List Keyword) :
    layout.Legible (wordPieces words ++ pieces) cs ↔ layout.Legible pieces cs := by
  induction words with
  | nil => rfl
  | cons w words ih => exact (legible_token_space.trans (and_iff_right rfl)).trans ih

theorem endNumber_clause (indent : Nat) :
    EndNumber (layout.gapChars (.clause indent) ++ cs) := by
  cases layout
  · exact endNumber_space _
  · exact endNumber_cons (by decide)

/-- A clause, and what comes behind it: it ends what stands before it, whether it is there or not. -/
theorem legible_clause {body? : Option (List Piece)} (h : ∀ ps ∈ body?, layout.Closed ps)
    (hcs : EndNumber cs) (indent : Nat) (words : List Keyword) :
    layout.Legible (clausePieces indent words body?) cs ∧
      EndNumber (layout.chars (clausePieces indent words body?) ++ cs) := by
  cases body? with
  | none => exact ⟨legible_nil, hcs⟩
  | some body =>
    refine ⟨legible_gap.mpr ((legible_words words).mpr (h body rfl cs hcs)), ?_⟩
    rw [clausePieces, chars_gap, List.append_assoc]
    exact endNumber_clause indent

theorem legible_top {top? : Option Scalar} (h : ∀ e ∈ top?, e.isCount = true) (indent : Nat) :
    layout.Legible (topPieces indent top?) cs := by
  cases top? with
  | none => exact legible_nil
  | some e =>
    have hcount : layout.Legible _ _ := closed_count (h e rfl) indent _ (endNumber_space cs)
    exact legible_token_space.mpr ⟨rfl, legible_append.mpr ⟨hcount, legible_space.mpr legible_nil⟩⟩

theorem closed_window {w : Window} (h : w.isWellFormed = true) (indent : Nat) :
    layout.Closed (w.pieces indent) := by
  obtain ⟨ha, hb⟩ := Bool.and_eq_true_iff.mp h
  intro cs hcs
  refine legible_append.mpr ⟨closed_count ha indent _ (endNumber_space _), ?_⟩
  exact legible_token_space.mpr ⟨rfl, closed_count hb indent cs hcs⟩

theorem closed_query {q : Query} {indent : Nat} (htop : ∀ e ∈ q.top?, e.isCount = true)
    (hprojection : layout.Closed (q.projection.pieces indent))
    (hsource : ∀ ps ∈ q.source?.map (Source.pieces indent), layout.Closed ps)
    (hfilter : ∀ ps ∈ q.filter?.map (Scalar.pieces indent), layout.Closed ps)
    (hgroup : ∀ ps ∈ q.groupKeys?.map (fun keys => commaSeparated (Scalar.listPieces indent keys)),
      layout.Closed ps)
    (hsort : ∀ ps ∈ q.sortKeys?.map (fun keys => commaSeparated (SortKey.listPieces indent keys)),
      layout.Closed ps)
    (hwindow : ∀ ps ∈ q.window?.map (Window.pieces indent), layout.Closed ps) :
    layout.Closed (q.pieces indent) := by
  intro cs hcs
  -- From the last clause to the first: each is legible before the next.
  obtain ⟨h₇, h⟩ := legible_clause hwindow hcs indent [.offset]
  obtain ⟨h₆, h⟩ := legible_clause hsort h indent [.order, .by]
  obtain ⟨h₅, h⟩ := legible_clause hgroup h indent [.group, .by]
  obtain ⟨h₄, h⟩ := legible_clause hfilter h indent [.where]
  obtain ⟨h₃, h⟩ := legible_clause hsource h indent [.from]
  have hdistinct {cs : List Char} :
      layout.Legible (if q.distinct then [.keyword .distinct, .space] else []) cs := by
    cases q.distinct
    · exact legible_nil
    · exact legible_token_space.mpr ⟨rfl, legible_nil⟩
  rw [Query.pieces_eq]
  refine legible_token_space.mpr ⟨rfl, ?_⟩
  simp only [legible_append, chars_append, List.append_assoc]
  exact ⟨hdistinct, legible_top htop indent, hprojection _ h, h₃, h₄, h₅, h₆, h₇⟩

end

mutual

/-- A well-formed scalar is legible before all that may come behind it. -/
theorem Scalar.legible (layout : Layout) (indent : Nat) : (e : Scalar) → e.isWellFormed = true →
    e.LegibleIn layout indent
  | .literal v, h, cs, hcs => Literal.legible h hcs
  | .unary op operand, h, cs, hcs =>
    closed_unary ((Scalar.legible layout indent operand h).enclosed _) cs (hcs.endNumber nofun)
  | .binary op left right, h, cs, hcs => by
    simp only [Scalar.isWellFormed, Bool.and_eq_true] at h
    have hlevel : (Scalar.binary op left right).level ≠ .primary := by cases op <;> nofun
    exact closed_binary ((Scalar.legible layout indent left h.1.2).enclosed _)
      ((Scalar.legible layout indent right h.2).enclosed _) cs (hcs.endNumber hlevel)
  | .between subject low high negated, h, cs, hcs => by
    simp only [Scalar.isWellFormed, Bool.and_eq_true] at h
    exact closed_between ((Scalar.legible layout indent subject h.1.1).enclosed _)
      ((Scalar.legible layout indent low h.1.2).enclosed _)
      ((Scalar.legible layout indent high h.2).enclosed _) negated cs (hcs.endNumber nofun)
  | .conditional condition consequent alternative, h, cs, hcs => by
    simp only [Scalar.isWellFormed, Bool.and_eq_true] at h
    exact closed_conditional ((Scalar.legible layout indent condition h.1.1).enclosed _)
      (Scalar.legible layout indent consequent h.1.2).closed
      (Scalar.legible layout indent alternative h.2).closed cs (hcs.endNumber nofun)
  | .coalesce left right, h, cs, hcs => by
    simp only [Scalar.isWellFormed, Bool.and_eq_true] at h
    exact closed_binary ((Scalar.legible layout indent left h.1).enclosed _)
      ((Scalar.legible layout indent right h.2).enclosed _) cs (hcs.endNumber nofun)
  | .among subject items negated, h, cs, hcs => by
    simp only [Scalar.isWellFormed, Bool.and_eq_true] at h
    exact closed_among ((Scalar.legible layout indent subject h.1.1).enclosed _)
      (Scalar.listClosed layout indent items h.2) negated cs (hcs.endNumber nofun)
  | .subquery use query, h, cs, hcs =>
    legible_use use (legible_subquery (Query.closed layout (indent + 1) query h) indent)
      (endName_mark _)
  | .call function userDefined arguments, h, cs, hcs => by
    simp only [Scalar.isWellFormed, Bool.and_eq_true] at h
    exact legible_call h.1 userDefined (Scalar.listClosed layout indent arguments h.2)
  | .index owner index, h, cs, hcs => by
    simp only [Scalar.isWellFormed, Bool.and_eq_true] at h
    exact legible_index ((Scalar.legible layout indent owner h.1).enclosed _)
      (Scalar.legible layout indent index h.2).closed
  | .name identifier, h, cs, hcs => ⟨h, hcs.endName, legible_nil⟩
  | .property owner identifier, h, cs, hcs => by
    simp only [Scalar.isWellFormed, Bool.and_eq_true] at h
    exact legible_property h.2 hcs.endName fun _ =>
      (Scalar.legible layout indent owner h.1).owner
  | .parameter name, h, cs, hcs => ⟨h, hcs.endName, legible_nil⟩
  | .array items, h, cs, hcs =>
    (closed_commaSeparated (Scalar.listClosed layout indent items h)).between (fun _ => rfl)
      (fun _ => rfl) nofun
  | .object fields, h, cs, hcs =>
    (closed_commaSeparated (Field.listClosed layout indent fields h)).between (fun _ => rfl)
      (fun _ => rfl) nofun

theorem Scalar.listClosed (layout : Layout) (indent : Nat) : (es : List Scalar) →
    Scalar.allWellFormed es = true → ∀ ps ∈ Scalar.listPieces indent es, layout.Closed ps
  | [], _ => nofun
  | e :: rest, h => by
    simp only [Scalar.allWellFormed, Bool.and_eq_true] at h
    exact List.forall_mem_cons.mpr
      ⟨(Scalar.legible layout indent e h.1).closed, Scalar.listClosed layout indent rest h.2⟩

theorem Field.listClosed (layout : Layout) (indent : Nat) : (fields : List Field) →
    Field.allWellFormed fields = true → ∀ ps ∈ Field.listPieces indent fields, layout.Closed ps
  | [], _ => nofun
  | ⟨key, value⟩ :: rest, h => by
    simp only [Field.allWellFormed, Bool.and_eq_true] at h
    exact List.forall_mem_cons.mpr
      ⟨closed_field (Scalar.legible layout indent value h.1).closed key,
        Field.listClosed layout indent rest h.2⟩

theorem SelectItem.listClosed (layout : Layout) (indent : Nat) : (items : List SelectItem) →
    SelectItem.allWellFormed items = true →
    ∀ ps ∈ SelectItem.listPieces indent items, layout.Closed ps
  | [], _ => nofun
  | ⟨e, alias?⟩ :: rest, h => by
    simp only [SelectItem.allWellFormed, Bool.and_eq_true] at h
    exact List.forall_mem_cons.mpr
      ⟨closed_aliased (Scalar.legible layout indent e h.1.1).closed h.1.2,
        SelectItem.listClosed layout indent rest h.2⟩

theorem SortKey.listClosed (layout : Layout) (indent : Nat) : (keys : List SortKey) →
    SortKey.allWellFormed keys = true → ∀ ps ∈ SortKey.listPieces indent keys, layout.Closed ps
  | [], _ => nofun
  | ⟨e, descending⟩ :: rest, h => by
    simp only [SortKey.allWellFormed, Bool.and_eq_true] at h
    exact List.forall_mem_cons.mpr
      ⟨closed_sorted (Scalar.legible layout indent e h.1).closed descending,
        SortKey.listClosed layout indent rest h.2⟩

theorem Projection.closed (layout : Layout) (indent : Nat) : (p : Projection) →
    p.isWellFormed = true → layout.Closed (p.pieces indent)
  | .all, _ => fun _ _ => ⟨rfl, fun _ _ => rfl, legible_nil⟩
  | .items items, h => by
    simp only [Projection.isWellFormed, Bool.and_eq_true] at h
    exact closed_commaSeparated (SelectItem.listClosed layout indent items h.2)
  | .value e, h => fun cs hcs =>
    legible_token_space.mpr ⟨rfl, Scalar.legible layout indent e h cs (.inl hcs)⟩

theorem Collection.closed (layout : Layout) (indent : Nat) : (c : Collection) →
    c.isWellFormed = true → layout.Closed (c.pieces indent)
  | .path input segments, h => by
    simp only [Collection.isWellFormed, Bool.and_eq_true] at h
    exact closed_path h.1 h.2
  | .subquery query, h => fun _ _ =>
    legible_subquery (Query.closed layout (indent + 1) query h) indent
  | .array items, h => by
    simp only [Collection.isWellFormed, Bool.and_eq_true] at h
    exact fun _ _ => (closed_commaSeparated (Scalar.listClosed layout indent items h.2)).between
      (fun _ => rfl) (fun _ => rfl) nofun

theorem Source.closed (layout : Layout) (indent : Nat) : (s : Source) → s.isWellFormed = true →
    layout.Closed (s.pieces indent)
  | .aliased collection alias?, h => by
    simp only [Source.isWellFormed, Bool.and_eq_true] at h
    exact closed_aliased (Collection.closed layout indent collection h.1) h.2
  | .each element collection, h => by
    simp only [Source.isWellFormed, Bool.and_eq_true] at h
    exact closed_each h.1 (Collection.closed layout indent collection h.2)
  | .join left right, h => by
    simp only [Source.isWellFormed, Bool.and_eq_true] at h
    exact closed_join (Source.closed layout indent left h.1.1)
      (Source.closed layout indent right h.2)

theorem Query.closed (layout : Layout) (indent : Nat) : (q : Query) → q.isWellFormed = true →
    layout.Closed (q.pieces indent)
  | ⟨_, top?, projection, source?, filter?, groupKeys?, sortKeys?, window?⟩, h => by
    rw [Query.isWellFormed_eq] at h
    simp only [Bool.and_eq_true] at h
    obtain ⟨⟨⟨⟨⟨⟨htop, hprojection⟩, hsource⟩, hfilter⟩, hgroup⟩, hsort⟩, hwindow⟩ := h
    refine closed_query (fun e he => ?top) (Projection.closed layout indent _ hprojection) ?source
      ?filter ?group ?sort ?window
    case top =>
      cases he
      exact htop
    case source =>
      cases source? with
      | none => nofun
      | some s =>
        rintro _ ⟨⟩
        exact Source.closed layout indent s hsource
    case filter =>
      cases filter? with
      | none => nofun
      | some e =>
        rintro _ ⟨⟩
        exact (Scalar.legible layout indent e hfilter).closed
    case group =>
      cases groupKeys? with
      | none => nofun
      | some keys =>
        rintro _ ⟨⟩
        exact closed_commaSeparated
          (Scalar.listClosed layout indent keys (Bool.and_eq_true_iff.mp hgroup).2)
    case sort =>
      cases sortKeys? with
      | none => nofun
      | some keys =>
        rintro _ ⟨⟩
        exact closed_commaSeparated
          (SortKey.listClosed layout indent keys (Bool.and_eq_true_iff.mp hsort).2)
    case window =>
      cases window? with
      | none => nofun
      | some w =>
        rintro _ ⟨⟩
        exact closed_window hwindow indent

end

end DocQuery
