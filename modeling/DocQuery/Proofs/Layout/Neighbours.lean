import DocQuery.Proofs.Layout.Pieces
import DocQuery.Proofs.Tree.WellFormed

/-!
# What stands beside a parenthesis

In laid-out text, what stands directly before an opening parenthesis is blank space, a mark behind which
an operand begins, or a word whose own parenthesis it is. Behind a word or a closing parenthesis stand
blank space or a few marks, no blank space stands before a point, and an identifier behind it.

* `Left`: what stands directly to the left of the next piece; `Left.next` and `Left.run` say what may
  stand behind it.
* `Fits A B pieces`: behind all of `A`, the pieces may stand there, and they end in one of `B`.
* `Query.fits`, `Scalar.fits`: so it is with the pieces of all well-formed trees.
-/

namespace DocQuery

open Piece

/-- What stands directly to the left of the next piece. -/
inductive Left where
  /-- Nothing, or blank space. -/
  | blank
  /-- A mark behind which an operand begins: an opening bracket or a sign. -/
  | opening
  /-- The opening parenthesis behind a word. -/
  | applied
  /-- A point, behind which an identifier comes next. -/
  | point
  /-- An identifier or a keyword. -/
  | word
  /-- A closing parenthesis. -/
  | closing
  /-- The end of a subquery, whose closing parenthesis comes next. -/
  | rim
  | other
deriving DecidableEq

namespace Left

/-- An operand may begin here. -/
def begins : Left → Bool
  | blank | opening | applied => true
  | _ => false

/-- An operand may have ended here. -/
def ends : Left → Bool
  | word | closing | other => true
  | _ => false

/-- What a token leaves to its right, if the token is no parenthesis. -/
def ofToken : Token → Left
  | .identifier _ | .keyword _ => word
  | .mark .leftBracket | .mark .leftBrace | .mark .plus | .mark .minus | .mark .tilde => opening
  | _ => other

/-- What is to the left when the piece has been written, or nothing if the piece may not stand here. -/
def next (l : Left) : Piece → Option Left
  | .gap (.edge _) =>
    match l with
    | opening | applied => some l
    | blank | point | rim => none
    | word | closing | other => some rim
  | .gap _ => if l = rim ∨ l = point then none else some blank
  | .token (.mark .leftParen) =>
    match l with
    | blank | opening | applied => some opening
    | word => some applied
    | _ => none
  | .token (.mark .rightParen) =>
    if l = blank ∨ l = opening ∨ l = point then none else some closing
  | .token (.mark .dot) => if l.ends then some point else none
  | .token t =>
    match l with
    | rim => none
    | point => match t with
      | .identifier _ => some word
      | _ => none
    -- An operand has ended, and may be accessed or closed around; operators have blank space before them.
    | word | closing => match t with
      | .mark .leftBracket => some opening
      | .mark .rightBracket | .mark .comma | .mark .rightBrace => some other
      | _ => none
    | _ => some (ofToken t)

/-- What is to the left when the pieces have been written one after another. -/
def run (l : Left) : List Piece → Option Left
  | [] => some l
  | p :: ps => (l.next p).bind fun l' => l'.run ps

theorem run_append (l : Left) (ps qs : List Piece) :
    l.run (ps ++ qs) = (l.run ps).bind fun l' => l'.run qs := by
  induction ps generalizing l with
  | nil => rfl
  | cons p ps ih =>
    simp only [List.cons_append, run, Option.bind_assoc, ih]

end Left

/-- Behind all of `A` the pieces may stand, and one of `B` is where they end. -/
def Fits (A B : Left → Bool) (pieces : List Piece) : Prop :=
  ∀ l, A l = true → (l.run pieces).any B = true

/-- The pieces may stand where an operand may. -/
abbrev FitsOperand (pieces : List Piece) : Prop := Fits Left.begins Left.ends pieces

section

variable {A B C : Left → Bool} {p : Piece} {ps qs rs : List Piece} {t : Token}

theorem Fits.append (hp : Fits A B ps) (hq : Fits B C qs) : Fits A C (ps ++ qs) := by
  intro l hl
  have h := hp l hl
  rw [Left.run_append]
  rcases hrun : l.run ps with _ | l' <;> rw [hrun] at h
  · cases h
  · exact hq l' h

/-! ## Operands -/

theorem fits_word (k : Keyword) : FitsOperand [.keyword k] := by rintro ⟨⟩ ⟨⟩ <;> rfl

theorem fits_identifier (name : String) : FitsOperand [.identifier name] := by
  rintro ⟨⟩ ⟨⟩ <;> rfl

theorem fits_number (a : Number) : FitsOperand [.number a] := by
  cases a <;> rintro ⟨⟩ ⟨⟩ <;> rfl

theorem fits_literal (v : Literal) : FitsOperand v.pieces := by
  cases v with
  | number a => exact fits_number a
  | boolean b => cases b <;> exact fits_word _
  | null | undefined => exact fits_word _
  | string s => rintro ⟨⟩ ⟨⟩ <;> rfl

/-- Between brackets. -/
theorem FitsOperand.parenthesized (h : FitsOperand ps) : FitsOperand (parenthesized ps) := by
  have hopen : Fits Left.begins Left.begins [.mark .leftParen] := by rintro ⟨⟩ ⟨⟩ <;> rfl
  have hclose : Fits Left.ends Left.ends [.mark .rightParen] := by rintro ⟨⟩ ⟨⟩ <;> rfl
  exact hopen.append (h.append hclose)

/-- An operand, with parentheses or without. -/
theorem FitsOperand.enclosed (h : FitsOperand ps) (e : Scalar) (level : Level) :
    FitsOperand (e.enclosed level ps) := by
  unfold Scalar.enclosed
  split
  · exact h.parenthesized
  · exact h

/-! ## Scalars -/

theorem fits_nil (A : Left → Bool) : Fits A A [] := fun _ hl => hl

theorem FitsOperand.unary (h : FitsOperand ps) (op : UnaryOp) : FitsOperand (op.pieces ps) := by
  unfold UnaryOp.pieces
  split
  · have hop : Fits Left.begins Left.begins [.token op.token, .space] := by
      cases op <;> rintro ⟨⟩ ⟨⟩ <;> rfl
    exact hop.append h
  · rename_i hnot
    have hop : Fits Left.begins Left.begins [.token op.token] := by
      cases op
      case not => exact absurd (by simp) hnot
      all_goals rintro ⟨⟩ ⟨⟩ <;> rfl
    exact hop.append h

theorem FitsOperand.binary (hp : FitsOperand ps) (hq : FitsOperand qs) (op : BinaryOp) :
    FitsOperand (op.pieces ps qs) := by
  have hop : Fits Left.ends Left.begins [.space, .token op.token, .space] := by
    cases op <;> rintro ⟨⟩ ⟨⟩ <;> rfl
  exact (hp.append hop).append hq

/-- The words before what `BETWEEN` or `IN` compares with. -/
theorem fits_comparison (negated : Bool) (k : Keyword) :
    Fits Left.ends Left.begins (.space :: negation negated ++ [.keyword k, .space]) := by
  cases negated <;> rintro ⟨⟩ ⟨⟩ <;> rfl

theorem fits_spaced_word (k : Keyword) : Fits Left.ends Left.begins [.space, .keyword k, .space] := by
  rintro ⟨⟩ ⟨⟩ <;> rfl

theorem FitsOperand.between (hp : FitsOperand ps) (hq : FitsOperand qs) (hr : FitsOperand rs)
    (negated : Bool) : FitsOperand (ps ++ .space :: negation negated ++ [.keyword .between, .space] ++
      qs ++ [.space, .keyword .and, .space] ++ rs) := by
  have h := hp.append ((fits_comparison negated .between).append
    (hq.append ((fits_spaced_word .and).append hr)))
  simpa only [List.append_assoc] using h

theorem FitsOperand.conditional (hp : FitsOperand ps) (hq : FitsOperand qs) (hr : FitsOperand rs) :
    FitsOperand (ps ++ [.space, .mark .question, .space] ++ qs ++ [.space, .mark .colon, .space] ++
      rs) := by
  have hquestion : Fits Left.ends Left.begins [.space, .mark .question, .space] := by
    rintro ⟨⟩ ⟨⟩ <;> rfl
  have hcolon : Fits Left.ends Left.begins [.space, .mark .colon, .space] := by
    rintro ⟨⟩ ⟨⟩ <;> rfl
  exact (((hp.append hquestion).append hq).append hcolon).append hr

theorem fits_commaSeparated {items : List (List Piece)} (hne : items ≠ [])
    (h : ∀ ps ∈ items, FitsOperand ps) : FitsOperand (commaSeparated items) := by
  induction items with
  | nil => exact absurd rfl hne
  | cons ps items ih =>
    have hps := h ps List.mem_cons_self
    have hitems := fun hne => ih hne fun qs hqs => h qs (List.mem_cons_of_mem _ hqs)
    cases items with
    | nil => rwa [commaSeparated_single]
    | cons qs items =>
      have hcomma : Fits Left.ends Left.begins [.mark .comma, .space] := by
        rintro ⟨⟩ ⟨⟩ <;> rfl
      rw [commaSeparated_cons]
      exact hps.append (hcomma.append (hitems nofun))

theorem FitsOperand.among (hp : FitsOperand ps) {items : List (List Piece)} (hne : items ≠ [])
    (h : ∀ ps ∈ items, FitsOperand ps) (negated : Bool) :
    FitsOperand (ps ++ .space :: negation negated ++ [.keyword .in, .space] ++
      Piece.parenthesized (commaSeparated items)) := by
  have h := hp.append ((fits_comparison negated .in).append (fits_commaSeparated hne h).parenthesized)
  simpa only [List.append_assoc] using h

/-- Between brackets there may be no items. -/
theorem fits_bracketed {items : List (List Piece)} (h : ∀ ps ∈ items, FitsOperand ps) {l r : Mark}
    (hl : Fits Left.begins Left.begins [.mark l]) (hr : Fits Left.ends Left.ends [.mark r])
    (hlr : FitsOperand [.mark l, .mark r]) :
    FitsOperand (.mark l :: (commaSeparated items ++ [.mark r])) := by
  by_cases hne : items = []
  · subst hne
    exact hlr
  · exact hl.append ((fits_commaSeparated hne h).append hr)

theorem fits_array {items : List (List Piece)} (h : ∀ ps ∈ items, FitsOperand ps) :
    FitsOperand (.mark .leftBracket :: (commaSeparated items ++ [.mark .rightBracket])) := by
  refine fits_bracketed h ?_ ?_ ?_ <;> rintro ⟨⟩ ⟨⟩ <;> rfl

theorem fits_object {items : List (List Piece)} (h : ∀ ps ∈ items, FitsOperand ps) :
    FitsOperand (.mark .leftBrace :: (commaSeparated items ++ [.mark .rightBrace])) := by
  refine fits_bracketed h ?_ ?_ ?_ <;> rintro ⟨⟩ ⟨⟩ <;> rfl

theorem FitsOperand.field (h : FitsOperand ps) (key : String) :
    FitsOperand (.token (.string key) :: .mark .colon :: .space :: ps) := by
  have hkey : Fits Left.begins Left.begins [.token (.string key), .mark .colon, .space] := by
    rintro ⟨⟩ ⟨⟩ <;> rfl
  exact hkey.append h

/-- The parentheses of a call stand behind a word. -/
theorem fits_call {items : List (List Piece)} (h : ∀ ps ∈ items, FitsOperand ps) (function : String)
    (userDefined : Bool) : FitsOperand ((if userDefined then [.keyword .udf, .mark .dot] else []) ++
      .identifier function :: parenthesized (commaSeparated items)) := by
  have hword : Fits Left.begins (· == .word)
      ((if userDefined then [.keyword .udf, .mark .dot] else []) ++ [.identifier function]) := by
    cases userDefined <;> rintro ⟨⟩ ⟨⟩ <;> rfl
  have hparens : Fits (· == .word) Left.ends (parenthesized (commaSeparated items)) := by
    by_cases hne : items = []
    · subst hne
      rintro ⟨⟩ ⟨⟩
      rfl
    · have hopen : Fits (· == .word) Left.begins [.mark .leftParen] := by rintro ⟨⟩ ⟨⟩; rfl
      have hclose : Fits Left.ends Left.ends [.mark .rightParen] := by rintro ⟨⟩ ⟨⟩ <;> rfl
      exact hopen.append ((fits_commaSeparated hne h).append hclose)
  simpa only [List.append_assoc, List.cons_append, List.nil_append] using hword.append hparens

theorem FitsOperand.index (hp : FitsOperand ps) (hq : FitsOperand qs) :
    FitsOperand (ps ++ .mark .leftBracket :: (qs ++ [.mark .rightBracket])) := by
  have hopen : Fits Left.ends Left.begins [.mark .leftBracket] := by rintro ⟨⟩ ⟨⟩ <;> rfl
  have hclose : Fits Left.ends Left.ends [.mark .rightBracket] := by rintro ⟨⟩ ⟨⟩ <;> rfl
  exact hp.append (hopen.append (hq.append hclose))

theorem fits_access (name : String) :
    Fits Left.ends Left.ends [.mark .dot, .identifier name] := by rintro ⟨⟩ ⟨⟩ <;> rfl

theorem FitsOperand.property (h : FitsOperand ps) (owner : Scalar) (name : String) :
    FitsOperand ((if owner.isNumber then Piece.parenthesized ps else owner.enclosed .primary ps) ++
      [.mark .dot, .identifier name]) := by
  refine Fits.append ?_ (fits_access name)
  split
  · exact h.parenthesized
  · exact h.enclosed owner .primary

/-- A subquery between its parentheses, behind a word or where an operand may begin. -/
theorem FitsOperand.subquery (h : FitsOperand ps) (indent : Nat) :
    Fits (fun l => l.begins || l == .word) Left.ends (subqueryPieces indent ps) := by
  have hopen : Fits (fun l => l.begins || l == .word) Left.begins
      [.mark .leftParen, .gap (.edge (indent + 1))] := by rintro ⟨⟩ ⟨⟩ <;> rfl
  have hclose : Fits Left.ends Left.ends [.gap (.edge indent), .mark .rightParen] := by
    rintro ⟨⟩ ⟨⟩ <;> rfl
  exact hopen.append (h.append hclose)

theorem FitsOperand.use (h : FitsOperand ps) (indent : Nat) (use : SubqueryUse) :
    FitsOperand (use.pieces ++ subqueryPieces indent ps) := by
  have huse : Fits Left.begins (fun l => l.begins || l == .word) use.pieces := by
    cases use <;> rintro ⟨⟩ ⟨⟩ <;> rfl
  exact huse.append (h.subquery indent)

/-! ## Clauses -/

theorem FitsOperand.aliased (h : FitsOperand ps) (alias? : Option String) :
    FitsOperand (ps ++ aliasPieces alias?) := by
  have halias : Fits Left.ends Left.ends (aliasPieces alias?) := by
    cases alias? <;> rintro ⟨⟩ ⟨⟩ <;> rfl
  exact h.append halias

theorem FitsOperand.sorted (h : FitsOperand ps) (descending : Bool) :
    FitsOperand (ps ++ if descending then [.space, .keyword .desc] else []) := by
  have hdescending : Fits Left.ends Left.ends
      (if descending then [.space, .keyword .desc] else []) := by
    cases descending <;> rintro ⟨⟩ ⟨⟩ <;> rfl
  exact h.append hdescending

theorem fits_path (input : String) (segments : List Segment) :
    FitsOperand (.identifier input :: segments.flatMap Segment.pieces) := by
  have hsegments : Fits Left.ends Left.ends (segments.flatMap Segment.pieces) := by
    induction segments with
    | nil => exact fits_nil _
    | cons segment segments ih =>
      have hsegment : Fits Left.ends Left.ends segment.pieces := by
        cases segment with
        | name identifier => exact fits_access identifier
        | number a => cases a <;> rintro ⟨⟩ ⟨⟩ <;> rfl
        | string s => rintro ⟨⟩ ⟨⟩ <;> rfl
      exact hsegment.append ih
  exact (fits_identifier input).append hsegments

theorem FitsOperand.each (h : FitsOperand ps) (element : String) :
    FitsOperand (.identifier element :: .space :: .keyword .in :: .space :: ps) :=
  (fits_identifier element).append ((fits_spaced_word .in).append h)

theorem FitsOperand.join (hp : FitsOperand ps) (hq : FitsOperand qs) :
    FitsOperand (ps ++ [.space, .keyword .join, .space] ++ qs) :=
  (hp.append (fits_spaced_word .join)).append hq

theorem fits_count {e : Scalar} (h : e.isCount = true) (indent : Nat) :
    FitsOperand (e.pieces indent) := by
  unfold Scalar.isCount at h
  split at h
  · rename_i a
    exact fits_number a
  · rintro ⟨⟩ ⟨⟩ <;> rfl
  · cases h

theorem fits_words (words : List Keyword) : Fits (· == .blank) (· == .blank) (wordPieces words) := by
  induction words with
  | nil => exact fits_nil _
  | cons w words ih =>
    have hword : Fits (· == .blank) (· == .blank) [.keyword w, .space] := by rintro ⟨⟩ ⟨⟩; rfl
    exact hword.append ih

theorem fits_clause {body? : Option (List Piece)} (h : ∀ ps ∈ body?, FitsOperand ps) (indent : Nat)
    (words : List Keyword) : Fits Left.ends Left.ends (clausePieces indent words body?) := by
  cases body? with
  | none => exact fits_nil _
  | some body =>
    have hgap : Fits Left.ends (· == .blank) [.gap (.clause indent)] := by
      rintro ⟨⟩ ⟨⟩ <;> rfl
    have hbody : Fits (· == .blank) Left.ends body := fun l hl =>
      h body rfl l (by rw [eq_of_beq hl]; rfl)
    exact hgap.append ((fits_words words).append hbody)

theorem fits_window {w : Window} (h : w.isWellFormed = true) (indent : Nat) :
    FitsOperand (w.pieces indent) := by
  obtain ⟨ha, hb⟩ := Bool.and_eq_true_iff.mp h
  exact (fits_count ha indent).append ((fits_spaced_word .limit).append (fits_count hb indent))

theorem fits_query {q : Query} {indent : Nat} (htop : ∀ e ∈ q.top?, e.isCount = true)
    (hprojection : FitsOperand (q.projection.pieces indent))
    (hsource : ∀ ps ∈ q.source?.map (Source.pieces indent), FitsOperand ps)
    (hfilter : ∀ ps ∈ q.filter?.map (Scalar.pieces indent), FitsOperand ps)
    (hgroup : ∀ ps ∈ q.groupKeys?.map (fun keys => commaSeparated (Scalar.listPieces indent keys)),
      FitsOperand ps)
    (hsort : ∀ ps ∈ q.sortKeys?.map (fun keys => commaSeparated (SortKey.listPieces indent keys)),
      FitsOperand ps)
    (hwindow : ∀ ps ∈ q.window?.map (Window.pieces indent), FitsOperand ps) :
    FitsOperand (q.pieces indent) := by
  have hselect : Fits Left.begins (· == .blank) [.keyword .select, .space] := by
    rintro ⟨⟩ ⟨⟩ <;> rfl
  have hdistinct : Fits (· == .blank) (· == .blank)
      (if q.distinct then [.keyword .distinct, .space] else []) := by
    cases q.distinct <;> rintro ⟨⟩ ⟨⟩ <;> rfl
  have htop : Fits (· == .blank) Left.begins (topPieces indent q.top?) := by
    cases htop? : q.top? with
    | none =>
      rintro ⟨⟩ ⟨⟩
      rfl
    | some e =>
      have hword : Fits (· == .blank) Left.begins [.keyword .top, .space] := by
        rintro ⟨⟩ ⟨⟩; rfl
      have hspace : Fits Left.ends Left.begins [.space] := by rintro ⟨⟩ ⟨⟩ <;> rfl
      exact hword.append ((fits_count (htop e htop?) indent).append hspace)
  rw [Query.pieces_eq]
  exact hselect.append (hdistinct.append (htop.append (hprojection.append
    ((fits_clause hsource indent _).append ((fits_clause hfilter indent _).append
      ((fits_clause hgroup indent _).append ((fits_clause hsort indent _).append
        (fits_clause hwindow indent _))))))))

end

/-! ## Trees -/

mutual

/-- The pieces of a well-formed scalar may stand where an operand may. -/
theorem Scalar.fits (indent : Nat) : (e : Scalar) → e.isWellFormed = true →
    FitsOperand (e.pieces indent)
  | .literal v, _ => fits_literal v
  | .unary op operand, h => ((Scalar.fits indent operand h).enclosed operand .unary).unary op
  | .binary op left right, h => by
    simp only [Scalar.isWellFormed, Bool.and_eq_true] at h
    exact ((Scalar.fits indent left h.1.2).enclosed left _).binary
      ((Scalar.fits indent right h.2).enclosed right _) op
  | .between subject low high negated, h => by
    simp only [Scalar.isWellFormed, Bool.and_eq_true] at h
    exact ((Scalar.fits indent subject h.1.1).enclosed subject _).between
      ((Scalar.fits indent low h.1.2).enclosed low _) ((Scalar.fits indent high h.2).enclosed high _)
      negated
  | .conditional condition consequent alternative, h => by
    simp only [Scalar.isWellFormed, Bool.and_eq_true] at h
    exact ((Scalar.fits indent condition h.1.1).enclosed condition _).conditional
      (Scalar.fits indent consequent h.1.2) (Scalar.fits indent alternative h.2)
  | .coalesce left right, h => by
    simp only [Scalar.isWellFormed, Bool.and_eq_true] at h
    exact ((Scalar.fits indent left h.1).enclosed left _).binary
      ((Scalar.fits indent right h.2).enclosed right _) .coalesce
  | .among subject items negated, h => by
    simp only [Scalar.isWellFormed, Bool.and_eq_true, Bool.not_eq_true', List.isEmpty_eq_false_iff]
      at h
    exact ((Scalar.fits indent subject h.1.1).enclosed subject _).among
      (by simpa [Scalar.listPieces_eq] using h.1.2) (Scalar.listFits indent items h.2) negated
  | .subquery use query, h => (Query.fits (indent + 1) query h).use indent use
  | .call function userDefined arguments, h => by
    simp only [Scalar.isWellFormed, Bool.and_eq_true] at h
    exact fits_call (Scalar.listFits indent arguments h.2) function userDefined
  | .index owner index, h => by
    simp only [Scalar.isWellFormed, Bool.and_eq_true] at h
    exact ((Scalar.fits indent owner h.1).enclosed owner _).index (Scalar.fits indent index h.2)
  | .name identifier, _ => fits_identifier identifier
  | .property owner identifier, h => by
    simp only [Scalar.isWellFormed, Bool.and_eq_true] at h
    exact (Scalar.fits indent owner h.1).property owner identifier
  | .parameter name, _ => by rintro ⟨⟩ ⟨⟩ <;> rfl
  | .array items, h => fits_array (Scalar.listFits indent items h)
  | .object fields, h => fits_object (Field.listFits indent fields h)

theorem Scalar.listFits (indent : Nat) : (es : List Scalar) → Scalar.allWellFormed es = true →
    ∀ ps ∈ Scalar.listPieces indent es, FitsOperand ps
  | [], _ => nofun
  | e :: rest, h => by
    simp only [Scalar.allWellFormed, Bool.and_eq_true] at h
    exact List.forall_mem_cons.mpr ⟨Scalar.fits indent e h.1, Scalar.listFits indent rest h.2⟩

theorem Field.listFits (indent : Nat) : (fields : List Field) → Field.allWellFormed fields = true →
    ∀ ps ∈ Field.listPieces indent fields, FitsOperand ps
  | [], _ => nofun
  | ⟨key, value⟩ :: rest, h => by
    simp only [Field.allWellFormed, Bool.and_eq_true] at h
    exact List.forall_mem_cons.mpr
      ⟨(Scalar.fits indent value h.1).field key, Field.listFits indent rest h.2⟩

theorem SelectItem.listFits (indent : Nat) : (items : List SelectItem) →
    SelectItem.allWellFormed items = true → ∀ ps ∈ SelectItem.listPieces indent items, FitsOperand ps
  | [], _ => nofun
  | ⟨e, alias?⟩ :: rest, h => by
    simp only [SelectItem.allWellFormed, Bool.and_eq_true] at h
    exact List.forall_mem_cons.mpr
      ⟨(Scalar.fits indent e h.1.1).aliased alias?, SelectItem.listFits indent rest h.2⟩

theorem SortKey.listFits (indent : Nat) : (keys : List SortKey) → SortKey.allWellFormed keys = true →
    ∀ ps ∈ SortKey.listPieces indent keys, FitsOperand ps
  | [], _ => nofun
  | ⟨e, descending⟩ :: rest, h => by
    simp only [SortKey.allWellFormed, Bool.and_eq_true] at h
    exact List.forall_mem_cons.mpr
      ⟨(Scalar.fits indent e h.1).sorted descending, SortKey.listFits indent rest h.2⟩

theorem Projection.fits (indent : Nat) : (p : Projection) → p.isWellFormed = true →
    FitsOperand (p.pieces indent)
  | .all, _ => by rintro ⟨⟩ ⟨⟩ <;> rfl
  | .items items, h => by
    simp only [Projection.isWellFormed, Bool.and_eq_true, Bool.not_eq_true',
      List.isEmpty_eq_false_iff] at h
    exact fits_commaSeparated (by simpa [SelectItem.listPieces_eq] using h.1)
      (SelectItem.listFits indent items h.2)
  | .value e, h => by
    have hword : Fits Left.begins Left.begins [.keyword .value, .space] := by
      rintro ⟨⟩ ⟨⟩ <;> rfl
    exact hword.append (Scalar.fits indent e h)

theorem Collection.fits (indent : Nat) : (c : Collection) → c.isWellFormed = true →
    FitsOperand (c.pieces indent)
  | .path input segments, _ => fits_path input segments
  | .subquery query, h => (Query.fits (indent + 1) query h).use indent .value
  | .array items, h => by
    simp only [Collection.isWellFormed, Bool.and_eq_true] at h
    exact fits_array (Scalar.listFits indent items h.2)

theorem Source.fits (indent : Nat) : (s : Source) → s.isWellFormed = true →
    FitsOperand (s.pieces indent)
  | .aliased collection alias?, h => by
    simp only [Source.isWellFormed, Bool.and_eq_true] at h
    exact (Collection.fits indent collection h.1).aliased alias?
  | .each element collection, h => by
    simp only [Source.isWellFormed, Bool.and_eq_true] at h
    exact (Collection.fits indent collection h.2).each element
  | .join left right, h => by
    simp only [Source.isWellFormed, Bool.and_eq_true] at h
    exact (Source.fits indent left h.1.1).join (Source.fits indent right h.2)

/-- The pieces of a well-formed query may stand where an operand may. -/
theorem Query.fits (indent : Nat) : (q : Query) → q.isWellFormed = true →
    FitsOperand (q.pieces indent)
  | ⟨_, top?, projection, source?, filter?, groupKeys?, sortKeys?, window?⟩, h => by
    rw [Query.isWellFormed_eq] at h
    simp only [Bool.and_eq_true] at h
    obtain ⟨⟨⟨⟨⟨⟨htop, hprojection⟩, hsource⟩, hfilter⟩, hgroup⟩, hsort⟩, hwindow⟩ := h
    refine fits_query (fun e he => ?top) (Projection.fits indent _ hprojection) ?source ?filter
      ?group ?sort ?window
    case top =>
      cases he
      exact htop
    case source =>
      cases source? with
      | none => nofun
      | some s =>
        rintro _ ⟨⟩
        exact Source.fits indent s hsource
    case filter =>
      cases filter? with
      | none => nofun
      | some e =>
        rintro _ ⟨⟩
        exact Scalar.fits indent e hfilter
    case group =>
      cases groupKeys? with
      | none => nofun
      | some keys =>
        rintro _ ⟨⟩
        simp only [Option.all_some, Bool.and_eq_true, Bool.not_eq_true', List.isEmpty_eq_false_iff]
          at hgroup
        exact fits_commaSeparated (by simpa [Scalar.listPieces_eq] using hgroup.1)
          (Scalar.listFits indent keys hgroup.2)
    case sort =>
      cases sortKeys? with
      | none => nofun
      | some keys =>
        rintro _ ⟨⟩
        simp only [Option.all_some, Bool.and_eq_true, Bool.not_eq_true', List.isEmpty_eq_false_iff]
          at hsort
        exact fits_commaSeparated (by simpa [SortKey.listPieces_eq] using hsort.1)
          (SortKey.listFits indent keys hsort.2)
    case window =>
      cases window? with
      | none => nofun
      | some w =>
        rintro _ ⟨⟩
        exact fits_window hwindow indent

end

end DocQuery
