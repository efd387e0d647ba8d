import Mathlib.Tactic.IntervalCases
import DocQuery.Proofs.Number.Written
import DocQuery.Token.Scanner

/-!
# Literals and names read back from their characters

* `isName`, `isIdentifier`, `Number.isPlain`: names and numbers as text can have them.
* `Number.read_chars`: a number without a sign is read back, as the kind of number that it is.
* `readName_eq`: where a name ends, and what word it is.
* `readString_flatMap`: a string's body is read back up to its closing quote.

A cursor keeps the place where it stands, which depends on all that was read before. It is left open
throughout.
-/

namespace DocQuery

open Text

/-- A letter or an underscore, then letters, numerals and underscores. -/
def isName (name : String) : Bool :=
  match name.toList with
  | [] => false
  | c :: cs => beginsName c && cs.all continuesName

/-- A name that is no keyword. -/
def isIdentifier (name : String) : Bool := isName name && (Keyword.ofName? name).isNone

/-- A number without a sign, and finite. -/
def Number.isPlain : Number → Bool
  | .integer n => 0 ≤ n.toInt
  | .double x => x.isFinite && !x.isNegative

/-! ## Numbers -/

theorem Cursor.drop_append (ds cs : List Char) (p : Position) :
    ∃ p', Cursor.drop ds.length ⟨ds ++ cs, p⟩ = ⟨cs, p'⟩ := by
  simp [Cursor.drop]

/-- The token that a numeral stands for. -/
def Numeral.token (n : Numeral) (p : Position) : Except ScanError Token :=
  match n.whole?.filter (· < 1 <<< 63) with
  | some k => .ok (.integer (Int64.ofNat k))
  | none =>
    if n.toBinary64.isFinite then .ok (.double n.toBinary64)
    else .error (.numberOutOfRange n.text p)

theorem Numeral.token_of_whole {n : Numeral} {k : Nat} (hwhole : n.whole? = some k)
    (hk : k < 1 <<< 63) (p : Position) : n.token p = .ok (.integer (Int64.ofNat k)) := by
  have hfilter : n.whole?.filter (· < 1 <<< 63) = some k := by
    rw [hwhole]
    exact Option.filter_some_pos (decide_eq_true hk)
  rw [token, hfilter]

theorem Numeral.token_of_double {n : Numeral} (hwhole : n.whole? = none)
    (hfin : n.toBinary64.isFinite = true) (p : Position) :
    n.token p = .ok (.double n.toBinary64) := by
  rw [token, hwhole, Option.filter_none]
  exact if_pos hfin

/-- A numeral at the cursor that is not malformed. -/
theorem readNumber_chars {n : Numeral} (hn : n.Proper) {cs : List Char} (h : EndNumber cs)
    (p : Position) : ∃ p', readNumber ⟨n.chars ++ cs, p⟩ = (n.token p, ⟨cs, p'⟩) := by
  have hnone : cs.head?.filter (fun ch => continuesName ch || ch == '.') = none := by
    cases cs with
    | nil => rfl
    | cons c cs => exact Option.filter_some_neg (by simpa [continuesNumber] using h c rfl)
  obtain ⟨p', hdrop⟩ := Cursor.drop_append n.chars cs p
  refine ⟨p', ?_⟩
  unfold readNumber
  simp only [Numeral.scan_chars hn h, hdrop, hnone]
  rfl

/-- A numeral begins with a digit. -/
theorem Numeral.Proper.exists_chars {n : Numeral} (hn : n.Proper) :
    ∃ c cs, n.chars = c :: cs ∧ isDigit c = true := by
  obtain ⟨c, ds, hwhole⟩ := List.exists_cons_of_ne_nil hn.ne_nil
  refine ⟨c, _, by rw [chars, hwhole]; rfl, hn.whole c ?_⟩
  rw [hwhole]
  exact List.mem_cons_self

theorem beginsNumber_chars {n : Numeral} (hn : n.Proper) (cs : List Char) :
    beginsNumber (n.chars ++ cs) = true := by
  obtain ⟨c, ds, hchars, hc⟩ := hn.exists_chars
  have hdot : c ≠ '.' := ne_of_class hc (by decide)
  rw [hchars, List.cons_append]
  unfold beginsNumber
  split
  · exact absurd (List.cons.inj ‹_›).1 hdot
  · cases (List.cons.inj ‹_›).1
    exact hc
  · cases ‹_ = []›

theorem Token.read_number {c : Cursor} (h : beginsNumber c.rest = true) :
    Token.read c = readNumber c := by
  unfold Token.read
  split
  · rename_i hnil
    rw [hnil] at h
    cases h
  · rw [if_pos h]

theorem Number.chars_of_nonneg {n : Int64} (hn : 0 ≤ n.toInt) : (Number.integer n).chars =
    (⟨Nat.toDigits 10 n.toInt.natAbs, none, none⟩ : Numeral).chars := by
  simp [chars, Numeral.chars, show ¬ n.toInt < 0 by omega]

theorem Number.isNegative_of_isPlain {a : Number} (ha : a.isPlain = true) : a.isNegative = false := by
  cases a with
  | integer n => exact decide_eq_false (of_decide_eq_true ha).not_gt
  | double x =>
    rw [isPlain, Bool.and_eq_true, Bool.not_eq_true'] at ha
    exact ha.2

/-- A number without a sign is written as a numeral. -/
theorem Number.exists_numeral_of_isPlain {a : Number} (ha : a.isPlain = true) :
    ∃ n : Numeral, n.Proper ∧ n.chars = a.chars := by
  cases a with
  | integer n => exact ⟨_, Numeral.proper_whole _, (chars_of_nonneg (of_decide_eq_true ha)).symm⟩
  | double x =>
    have hx := Bool.and_eq_true_iff.mp ha
    obtain ⟨n, hproper, hchars, -⟩ := Binary64.exists_numeral hx.1 (by simpa using hx.2)
    exact ⟨n, hproper, hchars⟩

/-- A number without a sign is read back. -/
theorem Number.read_chars {a : Number} (ha : a.isPlain = true) {cs : List Char} (h : EndNumber cs)
    (p : Position) : ∃ p', Token.read ⟨a.chars ++ cs, p⟩ =
      (.ok (match a with | .integer n => .integer n | .double x => .double x), ⟨cs, p'⟩) := by
  cases a with
  | integer n =>
    have hn : 0 ≤ n.toInt := of_decide_eq_true ha
    have hlt := n.toInt_lt
    have hproper := Numeral.proper_whole n.toInt.natAbs
    obtain ⟨p', hread⟩ := readNumber_chars hproper h p
    refine ⟨p', ?_⟩
    have hwhole : Numeral.whole? ⟨Nat.toDigits 10 n.toInt.natAbs, none, none⟩ =
        some n.toInt.natAbs := by
      rw [Numeral.whole?, digitsValue_toDigits]
    have hsmall : n.toInt.natAbs < 1 <<< 63 := by
      rw [Nat.one_shiftLeft]
      omega
    have hvalue : Int64.ofNat n.toInt.natAbs = n := by
      apply Int64.toInt_inj.mp
      rw [Int64.toInt_ofNat_of_lt (by omega)]
      omega
    rw [chars_of_nonneg hn, Token.read_number (beginsNumber_chars hproper cs), hread,
      Numeral.token_of_whole hwhole hsmall, hvalue]
  | double x =>
    have hx := Bool.and_eq_true_iff.mp ha
    obtain ⟨n, hproper, hchars, hwhole, hvalue⟩ :=
      Binary64.exists_numeral hx.1 (by simpa using hx.2)
    obtain ⟨p', hread⟩ := readNumber_chars hproper h p
    have hfin : n.toBinary64.isFinite = true := by
      rw [hvalue]
      exact hx.1
    refine ⟨p', ?_⟩
    rw [chars, ← hchars, Token.read_number (beginsNumber_chars hproper cs), hread,
      Numeral.token_of_double hwhole hfin, hvalue]

/-! ## Names -/

theorem isName_ofList {c : Char} {cs : List Char} (hc : beginsName c = true)
    (hcs : ∀ d ∈ cs, continuesName d = true) : isName (String.ofList (c :: cs)) = true := by
  simp only [isName, String.toList_ofList, hc, Bool.true_and, List.all_eq_true]
  exact hcs

theorem exists_of_isName {name : String} (h : isName name = true) : ∃ c cs, name.toList = c :: cs ∧
    beginsName c = true ∧ ∀ d ∈ name.toList, continuesName d = true := by
  unfold isName at h
  cases hname : name.toList with
  | nil =>
    rw [hname] at h
    cases h
  | cons c cs =>
    rw [hname] at h
    simp only [Bool.and_eq_true, List.all_eq_true] at h
    refine ⟨c, cs, rfl, h.1, fun d hd => ?_⟩
    rcases List.mem_cons.mp hd with rfl | hd
    · exact continuesName_of_beginsName h.1
    · exact h.2 d hd

theorem Mark.scan?_eq_none {c : Char} {cs : List Char} (h : beginsName c = true) :
    Mark.scan? (c :: cs) = none := by
  unfold scan?
  split
  case h_11 heq =>
    cases heq
    have : ofChar? c = none := by
      unfold ofChar?
      split <;> first | rfl | exact absurd h (by decide +kernel)
    rw [this]
    rfl
  all_goals first | rfl | exact absurd h (by rename_i heq; cases heq; decide +kernel)

theorem beginsNumber_eq_false {c : Char} {cs : List Char} (h : beginsName c = true) :
    beginsNumber (c :: cs) = false := by
  have hdot : c ≠ '.' := ne_of_class h (by decide +kernel)
  have hdigit := not_isDigit_of_beginsName h
  unfold beginsNumber
  split
  · exact absurd (List.cons.inj ‹_›).1 hdot
  · cases (List.cons.inj ‹_›).1
    exact hdigit
  · rfl

theorem Token.read_name {c : Char} (hc : beginsName c = true) (cs : List Char) (p : Position) :
    Token.read ⟨c :: cs, p⟩ = (.ok (readName ⟨c :: cs, p⟩).1, (readName ⟨c :: cs, p⟩).2) := by
  have hdouble : c ≠ '"' := ne_of_class hc (by decide +kernel)
  have hsingle : c ≠ '\'' := ne_of_class hc (by decide +kernel)
  have hat : c ≠ '@' := ne_of_class hc (by decide +kernel)
  simp only [Token.read, beginsNumber_eq_false hc, Mark.scan?_eq_none hc]
  simp [hdouble, hsingle, hat, hc]

/-- The word that a name at the cursor is read as. -/
theorem readName_eq {name cs : List Char} (hname : ∀ c ∈ name, continuesName c = true)
    (h : ∀ c ∈ cs.head?, continuesName c = false) (p : Position) :
    ∃ p', readName ⟨name ++ cs, p⟩ =
      (match Keyword.ofChars? name with
        | some word => .keyword word
        | none => .identifier (String.ofList name), ⟨cs, p'⟩) := by
  unfold readName Cursor.dropWhile
  simp only [takeWhile_run hname h, dropWhile_run hname h]
  exact ⟨_, rfl⟩

/-- A word is read as the keyword that it spells, or else as an identifier. -/
theorem Token.read_word {c : Char} {ds cs : List Char} (hc : beginsName c = true)
    (hname : ∀ d ∈ c :: ds, continuesName d = true) (h : ∀ d ∈ cs.head?, continuesName d = false)
    (p : Position) : ∃ p', Token.read ⟨c :: ds ++ cs, p⟩ =
      (.ok (match Keyword.ofChars? (c :: ds) with
        | some word => .keyword word
        | none => .identifier (String.ofList (c :: ds))), ⟨cs, p'⟩) := by
  obtain ⟨p', hread⟩ := readName_eq hname h p
  refine ⟨p', ?_⟩
  rw [List.cons_append] at hread ⊢
  rw [read_name hc, hread]

theorem isName_symbol (k : Keyword) : isName k.symbol = true ∧
    Keyword.ofChars? k.symbol.toList = some k := by
  cases k <;> decide +kernel

/-! ## Strings -/

/-- A character in a string stands for itself, or an escape stands for it that is read back. -/
theorem escape_cases (c : Char) : (escape c = [c] ∧ c ≠ '"' ∧ c ≠ '\\') ∨
    ∃ body, escape c = '\\' :: body ∧ ∀ (opening : Position) (cs : List Char) (p : Position),
      ∃ p', Escape.read opening ⟨'\\' :: (body ++ cs), p⟩ = (.ok c, ⟨cs, p'⟩) := by
  unfold escape
  split
  · exact .inr ⟨_, rfl, fun _ _ _ => ⟨_, rfl⟩⟩
  · exact .inr ⟨_, rfl, fun _ _ _ => ⟨_, rfl⟩⟩
  · exact .inr ⟨_, rfl, fun _ _ _ => ⟨_, rfl⟩⟩
  · exact .inr ⟨_, rfl, fun _ _ _ => ⟨_, rfl⟩⟩
  · exact .inr ⟨_, rfl, fun _ _ _ => ⟨_, rfl⟩⟩
  · exact .inr ⟨_, rfl, fun _ _ _ => ⟨_, rfl⟩⟩
  · exact .inr ⟨_, rfl, fun _ _ _ => ⟨_, rfl⟩⟩
  · split
    · rename_i hlt
      refine .inr ⟨_, rfl, fun opening cs p => ?_⟩
      obtain ⟨k, hk, rfl⟩ : ∃ k < 32, c = Char.ofNat k := ⟨c.toNat, hlt, (Char.ofNat_toNat c).symm⟩
      interval_cases k <;> exact ⟨_, rfl⟩
    · exact .inl ⟨rfl, ‹c = '"' → False›, ‹c = '\\' → False›⟩

section

variable {quote : Char} {opening : Position} {read rest : List Char} {p : Position}

theorem readString_close : readString quote opening read ⟨quote :: rest, p⟩ =
    (.ok (String.ofList read.reverse), ⟨rest, p.step quote⟩) := by
  rw [readString]
  split
  · cases ‹_ = []›
  · rename_i heq
    cases heq
    rw [if_pos rfl]
    rfl

theorem readString_char {c : Char} (hquote : c ≠ quote) (hslash : c ≠ '\\') :
    readString quote opening read ⟨c :: rest, p⟩ =
      readString quote opening (c :: read) ⟨rest, p.step c⟩ := by
  rw [readString]
  split
  · cases ‹_ = []›
  · rename_i heq
    cases heq
    rw [if_neg hquote, if_neg hslash]
    rfl

theorem readString_escape {c : Char} {d : Cursor} (hquote : quote ≠ '\\')
    (h : Escape.read opening ⟨'\\' :: rest, p⟩ = (.ok c, d)) :
    readString quote opening read ⟨'\\' :: rest, p⟩ = readString quote opening (c :: read) d := by
  rw [readString]
  split
  · cases ‹_ = []›
  · rename_i heq
    cases heq
    rw [if_neg hquote.symm, if_pos rfl]
    split
    · rename_i heq
      rw [h] at heq
      cases heq
      rfl
    · rename_i heq
      rw [h] at heq
      cases heq

end

/-- The body of a string is read back up to its closing quote. -/
theorem readString_flatMap (opening : Position) (cs rest : List Char) (read : List Char)
    (p : Position) : ∃ p', readString '"' opening read ⟨cs.flatMap escape ++ '"' :: rest, p⟩ =
      (.ok (String.ofList (read.reverse ++ cs)), ⟨rest, p'⟩) := by
  induction cs generalizing read p with
  | nil =>
    rw [List.append_nil]
    exact ⟨_, readString_close⟩
  | cons c cs ih =>
    rw [List.flatMap_cons, List.append_assoc]
    rcases escape_cases c with ⟨hself, hquote, hslash⟩ | ⟨body, hescape, hread⟩
    · obtain ⟨p', hrest⟩ := ih (c :: read) (p.step c)
      rw [hself, List.singleton_append, readString_char hquote hslash, hrest]
      exact ⟨p', by simp⟩
    · obtain ⟨p', hescaped⟩ := hread opening (cs.flatMap escape ++ '"' :: rest) p
      obtain ⟨p'', hrest⟩ := ih (c :: read) p'
      rw [hescape, List.cons_append, readString_escape (by decide) hescaped, hrest]
      exact ⟨p'', by simp⟩

end DocQuery
