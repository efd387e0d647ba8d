import DocQuery.Proofs.Layout.Legible
import DocQuery.Proofs.Layout.Says
import DocQuery.Proofs.Tree.Signed

/-!
# Pieces with a minus for each sign

* `Piece.withSigns`: the pieces in which a number with a sign is a minus and the number without it.
* `spells_withSigns`: the characters of the pieces are the tokens of these.
* `withSigns_enclosed`, `withSigns_owner`: parentheses stand where they stood, around an operator as
  around a number with a sign.

The characters of the two may differ: the magnitude of the smallest integer is a double, and would be
written as one.
-/

namespace DocQuery

open Text Piece Layout Grammar

/-! ## Pieces -/

/-- The pieces of a number, with a minus for its sign. -/
def Number.signPieces (a : Number) : List Piece :=
  if a.isSigned then [.mark .minus, .number a.unsigned] else [.number a]

/-- The piece, with a minus for the sign of a number. -/
def Piece.withSign : Piece → List Piece
  | .token (.integer n) => (Number.integer n).signPieces
  | .token (.double x) => (Number.double x).signPieces
  | p => [p]

namespace Piece

/-- The pieces, with a minus for the sign of each number. -/
def withSigns (ps : List Piece) : List Piece := ps.flatMap withSign

variable {ps qs : List Piece}

@[simp] theorem withSigns_nil : withSigns [] = [] := rfl

theorem withSigns_cons (p : Piece) (ps : List Piece) :
    withSigns (p :: ps) = withSign p ++ withSigns ps := rfl

@[simp] theorem withSigns_append (ps qs : List Piece) :
    withSigns (ps ++ qs) = withSigns ps ++ withSigns qs := List.flatMap_append

@[simp] theorem withSigns_gap (g : Gap) (ps : List Piece) :
    withSigns (.gap g :: ps) = .gap g :: withSigns ps := rfl

@[simp] theorem withSigns_space (ps : List Piece) :
    withSigns (.space :: ps) = .space :: withSigns ps := rfl

@[simp] theorem withSigns_keyword (k : Keyword) (ps : List Piece) :
    withSigns (.keyword k :: ps) = .keyword k :: withSigns ps := rfl

@[simp] theorem withSigns_mark (m : Mark) (ps : List Piece) :
    withSigns (.mark m :: ps) = .mark m :: withSigns ps := rfl

@[simp] theorem withSigns_identifier (name : String) (ps : List Piece) :
    withSigns (.identifier name :: ps) = .identifier name :: withSigns ps := rfl

@[simp] theorem withSigns_string (s : String) (ps : List Piece) :
    withSigns (.token (.string s) :: ps) = .token (.string s) :: withSigns ps := rfl

@[simp] theorem withSigns_unaryOp (op : UnaryOp) (ps : List Piece) :
    withSigns (.token op.token :: ps) = .token op.token :: withSigns ps := by
  cases op <;> rfl

@[simp] theorem withSigns_binaryOp (op : BinaryOp) (ps : List Piece) :
    withSigns (.token op.token :: ps) = .token op.token :: withSigns ps := by
  cases op <;> rfl

@[simp] theorem withSigns_number (a : Number) (ps : List Piece) :
    withSigns (.number a :: ps) = a.signPieces ++ withSigns ps := by
  cases a <;> rfl

@[simp] theorem withSigns_parenthesized (ps : List Piece) :
    withSigns (parenthesized ps) = parenthesized (withSigns ps) := by
  simp [parenthesized]

theorem withSigns_commaSeparated (items : List (List Piece)) :
    withSigns (commaSeparated items) = commaSeparated (items.map withSigns) := by
  induction items with
  | nil => rfl
  | cons ps items ih =>
    cases items with
    | nil => rw [List.map_singleton, commaSeparated_single, commaSeparated_single]
    | cons qs items =>
      simp only [List.map_cons, commaSeparated_cons] at ih ⊢
      rw [withSigns_append, withSigns_mark, withSigns_space, ih]

end Piece

/-! ## Characters of numbers with a sign -/

/-- The magnitude of an integer is read as the number without its sign. -/
theorem Numeral.token_toDigits (n : Int64) (p : Position) :
    (⟨Nat.toDigits 10 n.toInt.natAbs, none, none⟩ : Numeral).token p =
      .ok (Number.integer n).unsigned.token := by
  have hwhole : Numeral.whole? ⟨Nat.toDigits 10 n.toInt.natAbs, none, none⟩ =
      some n.toInt.natAbs := by
    rw [Numeral.whole?, digitsValue_toDigits]
  by_cases hlt : n.toInt.natAbs < 1 <<< 63
  · rw [Numeral.token_of_whole hwhole hlt, Number.unsigned, if_pos hlt]
    rfl
  -- Only the magnitude of the smallest integer is no integer.
  · have hk : n.toInt.natAbs = 2 ^ 63 := by
      have hle := Number.natAbs_toInt_le n
      rw [Nat.one_shiftLeft] at hlt
      omega
    have hdouble : (⟨Nat.toDigits 10 (2 ^ 63), none, none⟩ : Numeral).toBinary64 =
        .ofInt (2 ^ 63 : Nat) := by decide +kernel
    have hfinite : (Binary64.ofInt (2 ^ 63 : Nat)).isFinite = true := by decide +kernel
    rw [Numeral.token, hwhole, Option.filter_some_neg (by simpa using hlt), Number.unsigned,
      if_neg hlt, hk, hdouble]
    exact if_pos hfinite

/-- A number with a sign is written as a minus and a numeral that is read as the number without the
sign. -/
theorem Number.exists_numeral_of_isSigned {a : Number} (h : a.isSigned = true) :
    ∃ n : Numeral, n.Proper ∧
      a.chars = '-' :: n.chars ∧ ∀ p, n.token p = .ok a.unsigned.token := by
  cases a with
  | integer n =>
    refine ⟨⟨Nat.toDigits 10 n.toInt.natAbs, none, none⟩, Numeral.proper_whole _, ?_,
      Numeral.token_toDigits n⟩
    rw [chars, if_pos (of_decide_eq_true h)]
    simp [Numeral.chars]
  | double x =>
    have hnan (y : Binary64) (hy : y.isFinite = true) : y.isNaN = false :=
      decide_eq_false (Nat.lt_asymm (of_decide_eq_true hy))
    obtain ⟨hfinite, hsign⟩ := Bool.and_eq_true_iff.mp h
    obtain ⟨habs, hpositive⟩ := Bool.and_eq_true_iff.mp (isPlain_unsigned h)
    rw [Bool.not_eq_true'] at hpositive
    obtain ⟨n, hproper, hchars, hwhole, hvalue⟩ := Binary64.exists_numeral habs hpositive
    refine ⟨n, hproper, ?_, fun p => ?_⟩
    · simp [chars, Binary64.chars, hnan _ hfinite, hnan _ habs, hsign, hpositive, hchars,
        Binary64.unsignedChars_abs]
    · rw [Numeral.token_of_double hwhole (by rwa [hvalue]), hvalue]
      rfl

/-- The sign of a number is read as a minus, and behind it the number without the sign. -/
theorem spells_sign {a : Number} (h : a.isSigned = true) {cs : List Char} (hcs : EndNumber cs)
    {ts : List Token} (hts : Spells cs ts) :
    Spells (a.chars ++ cs) (.mark .minus :: a.unsigned.token :: ts) := by
  obtain ⟨n, hproper, hchars, htoken⟩ := Number.exists_numeral_of_isSigned h
  obtain ⟨c, ds, hcons, hc⟩ := hproper.exists_chars
  have hread (p : Position) : ∃ p', Token.read ⟨n.chars ++ cs, p⟩ =
      (.ok a.unsigned.token, ⟨cs, p'⟩) := by
    obtain ⟨p', hread⟩ := readNumber_chars hproper hcs p
    exact ⟨p', by rw [Token.read_number (beginsNumber_chars hproper cs), hread, htoken]⟩
  have hnumber : Spells (n.chars ++ cs) (a.unsigned.token :: ts) :=
    .read ⟨c, ds, hcons, not_isBlank_of_continuesName (continuesName_of_isDigit hc)⟩ hread
      (by cases a.unsigned <;> nofun) hts
  rw [hchars]
  exact .token (t := .mark .minus) rfl (fun c _ => rfl) hnumber

/-- Only numbers with a sign are taken apart. -/
theorem Piece.withSign_token (t : Token) : withSign (.token t) = [.token t] ∨
    ∃ a : Number, a.isSigned = true ∧ t.spelling.toList = a.chars ∧
      withSign (.token t) = [.mark .minus, .token a.unsigned.token] := by
  have hnumber (a : Number) : a.isSigned = true →
      a.signPieces = [.mark .minus, .token a.unsigned.token] := by
    intro h
    rw [Number.signPieces, if_pos h]
    cases a.unsigned <;> rfl
  cases t with
  | integer n =>
    by_cases h : (Number.integer n).isSigned = true
    · exact .inr ⟨.integer n, h, String.toList_ofList, hnumber _ h⟩
    · exact .inl (if_neg h)
  | double x =>
    by_cases h : (Number.double x).isSigned = true
    · exact .inr ⟨.double x, h, String.toList_ofList, hnumber _ h⟩
    · exact .inl (if_neg h)
  | _ => exact .inl rfl

section

variable {layout : Layout} {ps : List Piece}

/-- Both begin with the same character. -/
theorem head_chars_withSigns (ps : List Piece) :
    (layout.chars (withSigns ps)).head? = (layout.chars ps).head? := by
  induction ps with
  | nil => rfl
  | cons p ps ih =>
    cases p with
    | gap g => rw [withSigns_gap, chars_gap, chars_gap, List.head?_append, List.head?_append, ih]
    | token t =>
      rw [withSigns_cons, chars_token]
      rcases withSign_token t with h | ⟨a, ha, hspelling, h⟩
      · rw [h, List.singleton_append, chars_token, List.head?_append, List.head?_append, ih]
      · obtain ⟨n, -, hchars, -⟩ := Number.exists_numeral_of_isSigned ha
        rw [h, hspelling, hchars]
        rfl

/-- Where the pieces with operators are legible, the characters of the pieces are their tokens. -/
theorem spells_withSigns (h : layout.Legible (withSigns ps) []) :
    Spells (layout.chars ps) (tokens (withSigns ps)) := by
  induction ps with
  | nil => exact .nil
  | cons p ps ih =>
    cases p with
    | gap g => exact .blanks (layout.isBlank_gapChars g) (ih h)
    | token t =>
      have hapart {u : Token} (hu : u.Apart (layout.chars (withSigns ps) ++ [])) :
          u.Apart (layout.chars ps) := by
        rw [List.append_nil] at hu
        unfold Token.Apart at hu ⊢
        rwa [head_chars_withSigns] at hu
      rw [withSigns_cons] at h ⊢
      rw [chars_token]
      rcases withSign_token t with hsign | ⟨a, ha, hspelling, hsign⟩
      · rw [hsign] at h ⊢
        obtain ⟨ht, hnext, hrest⟩ := h
        exact .token ht (hapart hnext) (ih hrest)
      · rw [hsign] at h ⊢
        obtain ⟨-, -, -, hnext, hrest⟩ := h
        have hend : EndNumber (layout.chars ps) := by
          have hnext := hapart hnext
          cases hu : a.unsigned <;> rw [hu] at hnext <;> exact hnext
        rw [hspelling]
        exact spells_sign ha hend (ih hrest)

end

/-! ## Pieces of trees -/

section

variable {ps qs : List Piece} {indent : Nat}

/-- A sign stands before the operand as it did. -/
theorem beginsWithSign_withSigns (ps : List Piece) :
    beginsWithSign (withSigns ps) = beginsWithSign ps := by
  cases ps with
  | nil => rfl
  | cons p ps =>
    cases p with
    | gap g => rfl
    | token t =>
      rw [withSigns_cons]
      rcases withSign_token t with h | ⟨a, ha, hspelling, h⟩
      · rw [h]
        rfl
      · obtain ⟨n, -, hchars, -⟩ := Number.exists_numeral_of_isSigned ha
        rw [h, beginsWithSign, hspelling, hchars]
        rfl

theorem withSigns_enclosed (e : Scalar) (level : Level) (ps : List Piece) :
    withSigns (e.enclosed level ps) = e.withSigns.enclosed level (withSigns ps) := by
  simp only [Scalar.enclosed, Scalar.level_withSigns]
  split
  · exact withSigns_parenthesized ps
  · rfl

theorem withSigns_unary (op : UnaryOp) (ps : List Piece) :
    withSigns (op.pieces ps) = op.pieces (withSigns ps) := by
  simp only [UnaryOp.pieces, withSigns_unaryOp, beginsWithSign_withSigns]
  split <;> rfl

theorem withSigns_binary (op : BinaryOp) (ps qs : List Piece) :
    withSigns (op.pieces ps qs) = op.pieces (withSigns ps) (withSigns qs) := by
  simp [BinaryOp.pieces]

@[simp] theorem withSigns_negation (negated : Bool) :
    withSigns (negation negated) = negation negated := by
  cases negated <;> rfl

@[simp] theorem withSigns_alias (alias? : Option String) :
    withSigns (aliasPieces alias?) = aliasPieces alias? := by
  cases alias? <;> rfl

theorem isNumber_withSigns {e : Scalar} (h : ¬ e.isNumber = true) : ¬ e.withSigns.isNumber = true := by
  cases e with
  | literal v => cases v <;> first | exact h | exact absurd rfl h
  | _ => exact h

/-- In front of a point a number has parentheses, and so has an operator. -/
theorem withSigns_owner (e : Scalar) (ps : List Piece) :
    withSigns (if e.isNumber then parenthesized ps else e.enclosed .primary ps) =
      if e.withSigns.isNumber then parenthesized (withSigns ps)
      else e.withSigns.enclosed .primary (withSigns ps) := by
  by_cases hnumber : e.isNumber = true
  · obtain ⟨a, rfl⟩ : ∃ a, e = .literal (.number a) := by
      unfold Scalar.isNumber at hnumber
      split at hnumber
      · exact ⟨_, rfl⟩
      · cases hnumber
    rw [if_pos hnumber, withSigns_parenthesized, Scalar.withSigns]
    by_cases h : a.isSigned = true
    · rw [Literal.withSign_of_isSigned h]
      rfl
    · rw [Literal.withSign_of_not_isSigned h]
      rfl
  · rw [if_neg hnumber, if_neg (isNumber_withSigns hnumber), withSigns_enclosed]

/-! ## Numbers -/

/-- A minus stands directly before a number. -/
theorem pieces_minus {a : Number} (h : a.isPlain = true) :
    (Scalar.unary .minus (.number a)).pieces indent = [.mark .minus, .number a] := by
  have hlevel : (Scalar.number a).level = .primary := level_literal (v := .number a) h
  have hbegins : beginsWithSign [.number a] = false := by
    obtain ⟨n, hproper, hchars⟩ := Number.exists_numeral_of_isPlain h
    obtain ⟨c, ds, hcons, hc⟩ := hproper.exists_chars
    have hspelling : beginsWithSign [.number a] = a.chars.head?.any fun c => c == '-' || c == '+' := by
      cases a <;> simp only [beginsWithSign, number, Token.spelling, Number.text, Binary64.text,
        Number.chars, String.toList_ofList]
    rw [hspelling, ← hchars, hcons]
    exact Bool.or_eq_false_iff.mpr
      ⟨beq_false_of_ne (ne_of_class hc (by decide)), beq_false_of_ne (ne_of_class hc (by decide))⟩
  rw [Scalar.pieces, Scalar.enclosed, hlevel, if_neg (by decide)]
  simp only [UnaryOp.pieces, Scalar.number, Scalar.pieces, Literal.pieces, hbegins]
  rfl

/-- A number without a sign is left alone. -/
theorem Number.signPieces_of_isPlain {a : Number} (h : a.isPlain = true) :
    a.signPieces = [.number a] := by
  refine if_neg fun hsigned => ?_
  exact nomatch (isNegative_of_isSigned hsigned).symm.trans (isNegative_of_isPlain h)

theorem withSigns_literal (v : Literal) :
    withSigns ((Scalar.literal v).pieces indent) = v.withSign.pieces indent := by
  cases v with
  | number a =>
    rw [Scalar.pieces, Literal.pieces, withSigns_number, Number.signPieces, withSigns_nil,
      List.append_nil]
    by_cases h : a.isSigned = true
    · rw [Literal.withSign_of_isSigned h, if_pos h, pieces_minus (Number.isPlain_unsigned h)]
    · rw [Literal.withSign_of_not_isSigned h, if_neg h]
      rfl
  | boolean b => cases b <;> rfl
  | _ => rfl

/-- Counts have no signs. -/
theorem withSigns_count {e : Scalar} (h : e.isCount = true) :
    withSigns (e.pieces indent) = e.pieces indent := by
  unfold Scalar.isCount at h
  split at h
  · rename_i a
    simp only [Scalar.pieces, Literal.pieces, withSigns_number, Number.signPieces_of_isPlain h]
    rfl
  · rfl
  · cases h

theorem withSigns_segments {segments : List Segment} (h : segments.all Segment.isWellFormed = true) :
    withSigns (segments.flatMap Segment.pieces) = segments.flatMap Segment.pieces := by
  induction segments with
  | nil => rfl
  | cons segment segments ih =>
    obtain ⟨hsegment, hrest⟩ := Bool.and_eq_true_iff.mp h
    have hpieces : withSigns segment.pieces = segment.pieces := by
      cases segment with
      | name | string => rfl
      | number a =>
        simp only [Segment.pieces, withSigns_mark, withSigns_number,
          Number.signPieces_of_isPlain hsegment]
        rfl
    rw [List.flatMap_cons, withSigns_append, hpieces, ih hrest]

/-! ## Clauses -/

theorem withSigns_clause (words : List Keyword) (body? : Option (List Piece)) :
    withSigns (clausePieces indent words body?) =
      clausePieces indent words (body?.map withSigns) := by
  have hwords : withSigns (wordPieces words) = wordPieces words := by
    induction words with
    | nil => rfl
    | cons w words ih =>
      have hcons : wordPieces (w :: words) = .keyword w :: .space :: wordPieces words := rfl
      rw [hcons, withSigns_keyword, withSigns_space, ih]
  cases body? with
  | none => rfl
  | some body => simp only [clausePieces, Option.map_some, withSigns_gap, withSigns_append, hwords]

theorem withSigns_subquery (ps : List Piece) :
    withSigns (subqueryPieces indent ps) = subqueryPieces indent (withSigns ps) := by
  simp only [subqueryPieces, withSigns_mark, withSigns_gap, withSigns_append, withSigns_nil]

theorem withSigns_window {w : Window} (h : w.isWellFormed = true) :
    withSigns (w.pieces indent) = w.pieces indent := by
  obtain ⟨ha, hb⟩ := Bool.and_eq_true_iff.mp h
  simp only [Window.pieces, withSigns_append, withSigns_space, withSigns_keyword, withSigns_count ha,
    withSigns_count hb]

theorem withSigns_top {top? : Option Scalar} (h : top?.all Scalar.isCount = true) :
    withSigns (topPieces indent top?) = topPieces indent top? := by
  cases top? with
  | none => rfl
  | some e =>
    simp only [topPieces, withSigns_keyword, withSigns_space, withSigns_append, withSigns_count h,
      withSigns_nil]

end

end DocQuery
