import DocQuery.Proofs.Token.Literal

/-!
# Tokens read back from their spelling

* `Token.isSpellable`: the tokens that text can have.
* `Token.Apart t cs`: the token's spelling ends where the characters `cs` begin.
* `Token.read_spelling`: a token apart from what follows is read back.
* `Token.isSpellable_of_read`: every token that is read is spellable, but for the end of the text.
-/

namespace DocQuery

open Text

namespace Token

/-- The token can be spelled: names are names, and numbers are without a sign. -/
def isSpellable : Token → Bool
  | integer n => (Number.integer n).isPlain
  | double x => (Number.double x).isPlain
  | string _ => true
  | identifier name => isIdentifier name
  | parameter name => isName name
  | keyword _ => true
  | mark _ => true
  | .endOfText => false

@[simp] theorem isSpellable_string (value : String) : (string value).isSpellable = true := rfl

@[simp] theorem isSpellable_identifier (name : String) :
    (identifier name).isSpellable = isIdentifier name := rfl

@[simp] theorem isSpellable_parameter (name : String) :
    (parameter name).isSpellable = isName name := rfl

@[simp] theorem isSpellable_keyword (word : Keyword) : (keyword word).isSpellable = true := rfl

@[simp] theorem isSpellable_mark (symbol : Mark) : (mark symbol).isSpellable = true := rfl

/-- The token's spelling would go on with the character `c`. -/
def goesOnWith (t : Token) (c : Char) : Bool :=
  match t with
  | integer _ => continuesNumber c
  | double _ => continuesNumber c
  | identifier _ => continuesName c
  | parameter _ => continuesName c
  | keyword _ => continuesName c
  | mark .dot => isDigit c
  | mark .less => c == '='
  | mark .greater => c == '='
  | mark .pipe => c == '|'
  | mark .question => c == '?'
  | _ => false

/-- The token's spelling ends where the characters `cs` begin. -/
def Apart (t : Token) (cs : List Char) : Prop := ∀ c ∈ cs.head?, t.goesOnWith c = false

end Token

/-! ## Marks -/

/-- A mark is found again, if what follows does not make it a longer one. -/
theorem Mark.scan?_symbol (m : Mark) {cs : List Char} (h : (Token.mark m).Apart cs) :
    Mark.scan? (m.symbol.toList ++ cs) = some (m, m.symbol.toList.length) ∧
      beginsNumber (m.symbol.toList ++ cs) = false := by
  have hnext : ∀ c cs', cs = c :: cs' → (Token.mark m).goesOnWith c = false := fun c cs' hcs =>
    h c (by rw [hcs]; rfl)
  cases m
  case dot =>
    cases cs with
    | nil => exact ⟨rfl, rfl⟩
    | cons c cs' =>
      have hc : isDigit c = false := hnext c cs' rfl
      exact ⟨rfl, hc⟩
  case less =>
    cases cs with
    | nil => exact ⟨rfl, rfl⟩
    | cons c cs' =>
      have hc : c ≠ '=' := ne_of_beq_false (hnext c cs' rfl)
      exact ⟨by simp [symbol, scan?, hc], rfl⟩
  case greater =>
    cases cs with
    | nil => exact ⟨rfl, rfl⟩
    | cons c cs' =>
      have hc : c ≠ '=' := ne_of_beq_false (hnext c cs' rfl)
      exact ⟨by simp [symbol, scan?, hc], rfl⟩
  case pipe =>
    cases cs with
    | nil => exact ⟨rfl, rfl⟩
    | cons c cs' =>
      have hc : c ≠ '|' := ne_of_beq_false (hnext c cs' rfl)
      exact ⟨by simp [symbol, scan?, hc], rfl⟩
  case question =>
    cases cs with
    | nil => exact ⟨rfl, rfl⟩
    | cons c cs' =>
      have hc : c ≠ '?' := ne_of_beq_false (hnext c cs' rfl)
      exact ⟨by simp [symbol, scan?, hc], rfl⟩
  all_goals exact ⟨rfl, rfl⟩

/-! ## Tokens -/

namespace Token

theorem read_mark {c : Cursor} {m : Mark} {n : Nat} (hscan : Mark.scan? c.rest = some (m, n))
    (hnumber : beginsNumber c.rest = false) : Token.read c = (.ok (.mark m), c.drop n) := by
  unfold Token.read
  split
  · rename_i hnil
    rw [hnil] at hscan
    cases hscan
  · simp [hscan, hnumber]

theorem read_quote (rest : List Char) (p : Position) : Token.read ⟨'"' :: rest, p⟩ =
    match readString '"' p [] ⟨rest, p.step '"'⟩ with
    | (.ok value, d) => (.ok (.string value), d)
    | (.error e, d) => (.error e, d) := rfl

/-- The name behind a `@`. -/
theorem readParameter_eq {name : String} {c : Char} {ds cs : List Char} (hlist : name.toList = c :: ds)
    (hc : beginsName c = true) (hname : ∀ d ∈ name.toList, continuesName d = true)
    (h : ∀ d ∈ cs.head?, continuesName d = false) (p : Position) :
    ∃ p', Token.read ⟨'@' :: (name.toList ++ cs), p⟩ = (.ok (.parameter name), ⟨cs, p'⟩) := by
  have hread : Token.read ⟨'@' :: (name.toList ++ cs), p⟩ =
      readParameter ⟨'@' :: (name.toList ++ cs), p⟩ := rfl
  have hhead : (name.toList ++ cs).head?.any beginsName = true := by
    rw [hlist]
    exact hc
  rw [hread]
  simp only [readParameter, Cursor.next, Cursor.dropWhile, hhead, if_true, takeWhile_run hname h,
    dropWhile_run hname h, String.ofList_toList]
  exact ⟨_, rfl⟩

/-- A token that can be spelled is read back, if what follows does not go on with it. -/
theorem read_spelling {t : Token} (ht : t.isSpellable = true) {cs : List Char} (h : t.Apart cs)
    (p : Position) : ∃ p', Token.read ⟨t.spelling.toList ++ cs, p⟩ = (.ok t, ⟨cs, p'⟩) := by
  cases t with
  | integer n =>
    have hplain : (Number.integer n).isPlain = true := ht
    simpa [spelling, Number.text] using Number.read_chars hplain h p
  | double x =>
    have hplain : (Number.double x).isPlain = true := ht
    simpa [spelling, Binary64.text, Number.chars] using Number.read_chars hplain h p
  | string value =>
    obtain ⟨p', hread⟩ := readString_flatMap p value.toList cs [] (p.step '"')
    refine ⟨p', ?_⟩
    rw [List.reverse_nil, List.nil_append, String.ofList_toList] at hread
    simp only [spelling, quote, quoteChars, String.toList_ofList, List.cons_append, List.append_assoc]
    rw [read_quote, List.nil_append, hread]
  | identifier name =>
    obtain ⟨hname, hkeyword⟩ := Bool.and_eq_true_iff.mp ht
    have hnone : Keyword.ofChars? name.toList = none := Option.isNone_iff_eq_none.mp hkeyword
    obtain ⟨c, ds, hlist, hc, hall⟩ := exists_of_isName hname
    obtain ⟨p', hread⟩ := read_word hc (hlist ▸ hall) h p
    rw [← hlist, hnone, String.ofList_toList] at hread
    exact ⟨p', hread⟩
  | parameter name =>
    obtain ⟨c, ds, hlist, hc, hall⟩ := exists_of_isName ht
    obtain ⟨p', hread⟩ := readParameter_eq hlist hc hall h p
    refine ⟨p', ?_⟩
    rw [spelling, String.toList_append]
    exact hread
  | keyword word =>
    obtain ⟨hname, hkeyword⟩ := isName_symbol word
    obtain ⟨c, ds, hlist, hc, hall⟩ := exists_of_isName hname
    obtain ⟨p', hread⟩ := read_word hc (hlist ▸ hall) h p
    rw [← hlist, hkeyword] at hread
    exact ⟨p', hread⟩
  | mark m =>
    obtain ⟨hscan, hnumber⟩ := Mark.scan?_symbol m h
    obtain ⟨p', hdrop⟩ := Cursor.drop_append m.symbol.toList cs p
    exact ⟨p', by rw [spelling, read_mark hscan hnumber, hdrop]⟩
  | endOfText => cases ht

/-- A spelling does not begin with a blank. -/
theorem exists_spelling {t : Token} (ht : t.isSpellable = true) :
    ∃ c cs, t.spelling.toList = c :: cs ∧ isBlank c = false := by
  have hname {name : String} (h : isName name = true) :
      ∃ c cs, name.toList = c :: cs ∧ isBlank c = false := by
    obtain ⟨c, cs, hlist, hc, -⟩ := exists_of_isName h
    exact ⟨c, cs, hlist, not_isBlank_of_continuesName (continuesName_of_beginsName hc)⟩
  have hnumber {n : Numeral} (hn : n.Proper) : ∃ c cs, n.chars = c :: cs ∧ isBlank c = false := by
    obtain ⟨c, cs, hchars, hc⟩ := hn.exists_chars
    exact ⟨c, cs, hchars, not_isBlank_of_continuesName (continuesName_of_isDigit hc)⟩
  cases t with
  | integer n =>
    rw [spelling, Number.text, String.toList_ofList, Number.chars_of_nonneg (of_decide_eq_true ht)]
    exact hnumber (Numeral.proper_whole _)
  | double x =>
    have hx := Bool.and_eq_true_iff.mp ht
    obtain ⟨n, hproper, hchars, -⟩ := Binary64.exists_numeral hx.1 (by simpa using hx.2)
    rw [spelling, Binary64.text, String.toList_ofList, ← hchars]
    exact hnumber hproper
  | string value => exact ⟨'"', _, by simp [spelling, quote, quoteChars]; rfl, by decide⟩
  | identifier name => exact hname (Bool.and_eq_true_iff.mp ht).1
  | parameter name =>
    exact ⟨'@', name.toList, by simp [spelling, String.toList_append], by decide⟩
  | keyword word => exact hname (isName_symbol word).1
  | mark m => cases m <;> exact ⟨_, _, rfl, by decide⟩
  | endOfText => cases ht

/-! ## What is read -/

theorem isSpellable_of_readNumber {c d : Cursor} {t : Token} (h : readNumber c = (.ok t, d)) :
    t.isSpellable = true := by
  unfold readNumber at h
  have hround (n m : Nat) : (Binary64.round false n m).isNegative = false := by
    refine Binary64.isNegative_ofCode ?_
    have : Binary64.roundedCode n m ≤ Binary64.infinityCode := Nat.min_le_right _ _
    rw [Binary64.infinityCode_eq] at this
    omega
  have hvalue (n : Numeral) : n.toBinary64.isNegative = false := by
    unfold Numeral.toBinary64 Binary64.ofDecimal
    simp only []
    split
    · decide
    · split
      · decide
      · split
        · decide
        · split <;> exact hround _ _
  obtain ⟨hresult, -⟩ := Prod.mk.inj h
  split at hresult
  · cases hresult
  · split at hresult
    · rename_i n hn
      cases hresult
      obtain ⟨-, hlt⟩ := Option.filter_eq_some_iff.mp hn
      have hlt := of_decide_eq_true hlt
      rw [Nat.one_shiftLeft] at hlt
      rw [isSpellable, Number.isPlain, Int64.toInt_ofNat_of_lt (by omega)]
      exact decide_eq_true (by omega)
    · simp only [] at hresult
      split at hresult
      · rename_i hfin
        cases hresult
        rw [isSpellable, Number.isPlain, hfin, hvalue]
        rfl
      · cases hresult

theorem isSpellable_of_readName {c d : Cursor} {t : Token} {ch : Char} {cs : List Char}
    (hrest : c.rest = ch :: cs) (hch : beginsName ch = true) (h : readName c = (t, d)) :
    t.isSpellable = true := by
  have hrun : c.rest.takeWhile continuesName = ch :: cs.takeWhile continuesName := by
    rw [hrest, List.takeWhile_cons_of_pos (continuesName_of_beginsName hch)]
  have hname := isName_ofList hch (all_takeWhile continuesName cs)
  obtain ⟨htoken, -⟩ := Prod.mk.inj h
  rw [hrun] at htoken
  split at htoken
  · cases htoken
    rfl
  · rename_i hnone
    cases htoken
    simp only [isSpellable, isIdentifier, hname, Bool.true_and, Keyword.ofName?,
      String.toList_ofList, hnone, Option.isNone_none]

theorem isSpellable_of_readParameter {c d : Cursor} {t : Token} (h : readParameter c = (.ok t, d)) :
    t.isSpellable = true := by
  unfold readParameter at h
  simp only [] at h
  split at h
  · rename_i hhead
    cases h
    cases hrest : c.next.rest with
    | nil =>
      rw [hrest] at hhead
      cases hhead
    | cons ch cs =>
      rw [hrest] at hhead
      rw [List.takeWhile_cons_of_pos (continuesName_of_beginsName hhead)]
      exact isName_ofList hhead (all_takeWhile continuesName cs)
  · cases h

/-- Every token that is read is spellable, but for the end of the text. -/
theorem isSpellable_of_read {c d : Cursor} {t : Token} (h : Token.read c = (.ok t, d))
    (hend : t ≠ .endOfText) : t.isSpellable = true := by
  unfold Token.read at h
  split at h
  · cases h
    exact absurd rfl hend
  · rename_i ch cs hrest
    split at h
    · exact isSpellable_of_readNumber h
    · split at h
      · cases h
        rfl
      · split at h
        · split at h
          · cases h
            rfl
          · cases h
        · split at h
          · exact isSpellable_of_readParameter h
          · split at h
            · rename_i hch
              cases h
              exact isSpellable_of_readName hrest hch rfl
            · cases h

end Token

end DocQuery
