import DocQuery.Proofs.Token.Rendering

/-!
# Places are exact

A scanner may be asked for tokens as often as one likes, also after an error. Wherever that leaves it,
it stands at a character of the text or at the end, and all places that it tells are exact.

* `Position.IsBefore p rest text`: in the text, the characters `rest` begin at the place `p`.
* `ScanError.Quotes e c`: what the error quotes is what the text has at the error's place, which is
  at the cursor `c` or further on.
* `Scanner.asked s n`: the scanner that has been asked for a token `n` times.
* `Scanner.exact_asked`: each time it passes over blanks and one token, and tells where that was.
-/

namespace DocQuery

open Text

/-! ## Places of a text -/

namespace Text.Position

/-- In the text, the characters `rest` begin at the place `p`: its offset is how many bytes are
before it, its line is one more than the line feeds before it, and its column is one more than the
characters since the last of them. -/
def IsBefore (p : Position) (rest : List Char) (text : String) : Prop :=
  ∃ before, text.toList = before ++ rest ∧ p.offset = (String.ofList before).utf8ByteSize ∧
    p.line = before.count '\n' + 1 ∧
    p.column = (before.reverse.takeWhile (· != '\n')).length + 1

variable {p : Position} {c : Char} {cs rest : List Char} {text : String}

theorem isBefore_start (text : String) : start.IsBefore text.toList text := ⟨[], rfl, rfl, rfl, rfl⟩

theorem IsBefore.step (h : p.IsBefore (c :: rest) text) : (p.step c).IsBefore rest text := by
  obtain ⟨before, htext, hoffset, hline, hcolumn⟩ := h
  have hsize : (String.ofList (before ++ [c])).utf8ByteSize = p.offset + c.utf8Size := by
    have hlast : String.ofList [c] = String.singleton c := rfl
    rw [String.ofList_append, String.utf8ByteSize_append, hlast, String.utf8ByteSize_singleton,
      hoffset]
  refine ⟨before ++ [c], by rw [htext, List.append_assoc]; rfl, ?_, ?_, ?_⟩
  all_goals
    unfold Position.step
    by_cases hc : c = '\n'
  · rw [if_pos hc, hsize]
  · rw [if_neg hc, hsize]
  · simp [hc, hline]
  · simp [hc, hline]
  · simp [hc]
  · simp [hc, hcolumn]

/-- The places behind some characters. -/
theorem IsBefore.after (h : p.IsBefore (cs ++ rest) text) : (p.after cs).IsBefore rest text := by
  induction cs generalizing p with
  | nil => exact h
  | cons c cs ih => exact ih h.step

/-- No place lies within a character or behind the end of the text. -/
theorem IsBefore.isValid (h : p.IsBefore rest text) : String.Pos.Raw.IsValid text ⟨p.offset⟩ := by
  obtain ⟨before, htext, hoffset, -⟩ := h
  refine String.Pos.Raw.isValid_iff_exists_append.mpr
    ⟨String.ofList before, String.ofList rest, ?_, ?_⟩
  · rw [← String.ofList_append, ← htext, String.ofList_toList]
  · rw [hoffset]
    rfl

end Text.Position

/-- A cursor further on in a text stands at a place of it. -/
theorem Text.Cursor.Ahead.isBefore {c d : Cursor} {text : String} (hcd : c.Ahead d)
    (h : c.position.IsBefore c.rest text) : d.position.IsBefore d.rest text := by
  obtain ⟨cs, hrest, hposition⟩ := hcd
  rw [hrest] at h
  rw [hposition]
  exact h.after

/-! ## What errors quote -/

/-- The characters that the message of an error quotes. -/
def ScanError.quoted : ScanError → List Char
  | unexpectedCharacter c _ => [c]
  | unterminatedString _ => []
  | invalidEscape sequence _ => sequence.toList
  | unexpectedEnd _ => []
  | malformedNumber text _ => text.toList
  | numberOutOfRange text _ => text.toList

/-- The error lies at the cursor or further on, and what it quotes stands there. -/
def ScanError.Quotes (e : ScanError) (c : Cursor) : Prop :=
  ∃ d, c.Ahead d ∧ e.position = d.position ∧ e.quoted <+: d.rest

section

variable {c d : Cursor} {e : ScanError} {t : Token}

theorem ScanError.Quotes.behind (hcd : c.Ahead d) (h : e.Quotes d) : e.Quotes c := by
  obtain ⟨d', hd', hplace, hquoted⟩ := h
  exact ⟨d', hcd.trans hd', hplace, hquoted⟩

theorem ScanError.quotes_here (hplace : e.position = c.position) (hquoted : e.quoted <+: c.rest) :
    e.Quotes c := ⟨c, .refl c, hplace, hquoted⟩

/-- An exponent that is scanned stands there. -/
theorem Exponent.chars_of_scan? {cs : List Char} {x : Exponent} (h : Exponent.scan? cs = some x) :
    x.chars <+: cs := by
  unfold scan? at h
  split at h
  · split at h
    · simp only [] at h
      split at h
      · cases h
      · cases h
        refine List.cons_prefix_cons.mpr ⟨rfl, ?_⟩
        split
        · exact List.cons_prefix_cons.mpr ⟨rfl, List.takeWhile_prefix _⟩
        · exact List.cons_prefix_cons.mpr ⟨rfl, List.takeWhile_prefix _⟩
        · exact List.takeWhile_prefix _
    · cases h
  · cases h

/-- A numeral that is scanned stands there. -/
theorem Numeral.chars_scan_prefix (cs : List Char) : (Numeral.scan cs).chars <+: cs := by
  have hcs : cs.takeWhile isDigit ++ cs.dropWhile isDigit = cs := List.takeWhile_append_dropWhile
  unfold scan chars
  split
  · rename_i rest hrest
    have hsplit : rest.takeWhile isDigit ++ rest.dropWhile isDigit = rest :=
      List.takeWhile_append_dropWhile
    rw [hrest] at hcs
    simp only [List.append_assoc, List.cons_append]
    split
    · obtain ⟨after, hafter⟩ := Exponent.chars_of_scan? ‹_›
      exact ⟨after, by simp [hafter, hsplit, hcs]⟩
    · exact ⟨rest.dropWhile isDigit, by simp [hsplit, hcs]⟩
  · simp only [List.append_nil]
    split
    · obtain ⟨after, hafter⟩ := Exponent.chars_of_scan? ‹_›
      exact ⟨after, by simp [hafter, hcs]⟩
    · exact ⟨cs.dropWhile isDigit, by simp [hcs]⟩

theorem quotes_of_readNumber_error (h : readNumber c = (.error e, d)) : e.Quotes c := by
  obtain ⟨after, hafter⟩ := Numeral.chars_scan_prefix c.rest
  have hbehind : (c.drop (Numeral.scan c.rest).chars.length).rest = after := by
    show c.rest.drop _ = after
    exact (congrArg (List.drop _) hafter.symm).trans List.drop_left
  unfold readNumber at h
  simp only [Prod.mk.injEq, hbehind] at h
  obtain ⟨h, -⟩ := h
  split at h
  · rename_i ch hch
    cases h
    obtain ⟨ds, rfl⟩ : ∃ ds, after = ch :: ds := by
      obtain ⟨hhead, -⟩ := Option.filter_eq_some_iff.mp hch
      exact List.head?_eq_some_iff.mp hhead
    refine ScanError.quotes_here rfl ⟨ds, ?_⟩
    rw [ScanError.quoted, Numeral.text, String.toList_push, String.toList_ofList,
      List.append_assoc]
    exact hafter
  · split at h
    · cases h
    · split at h <;> cases h
      refine ScanError.quotes_here rfl ⟨after, ?_⟩
      rw [ScanError.quoted, Numeral.text, String.toList_ofList, hafter]

/-- An escape that is none is quoted from its backslash on; a string that is not closed is named by
the place of its quote. -/
theorem Escape.quotes_of_read_error {opening : Cursor} (h : read opening.position c = (.error e, d))
    (hopening : opening.Ahead c) (hc : c.rest.head? = some '\\') : e.Quotes opening := by
  obtain ⟨body, hrest⟩ := List.head?_eq_some_iff.mp hc
  have hnext : c.next.rest = body := by
    unfold Cursor.next
    rw [hrest]
  unfold read at h
  simp only [hnext] at h
  split at h
  · cases h
    exact ScanError.quotes_here rfl List.nil_prefix
  · split at h <;> cases h
    refine .behind hopening (ScanError.quotes_here rfl ?_)
    rw [ScanError.quoted, String.toList_ofList]
    exact List.take_prefix _ _
  · split at h <;> cases h
    refine .behind hopening (ScanError.quotes_here rfl ?_)
    rw [ScanError.quoted, String.toList_ofList, hrest]
    exact ⟨_, rfl⟩

theorem quotes_of_readString_error {quote : Char} {opening : Cursor} {read : List Char}
    (h : readString quote opening.position read c = (.error e, d)) (hopening : opening.Ahead c) :
    e.Quotes opening := by
  fun_induction readString quote opening.position read c with
  | case1 =>
    cases h
    exact ScanError.quotes_here rfl List.nil_prefix
  | case2 => cases h
  | case3 read c _ decoded d' hread hrest _ ih =>
    have hescape := Escape.ahead_read opening.position c
    rw [hread] at hescape
    exact ih h (hopening.trans hescape)
  | case4 read c _ e' d' hread hrest _ =>
    cases h
    exact Escape.quotes_of_read_error hread hopening (by rw [hrest]; rfl)
  | case5 read c ch _ _ _ _ ih => exact ih h (hopening.trans c.ahead_next)

/-- What an error quotes stands where the error lies. -/
theorem Token.quotes_of_read_error (h : Token.read c = (.error e, d)) : e.Quotes c := by
  unfold Token.read at h
  split at h
  · cases h
  · rename_i ch cs hrest
    split at h
    · exact quotes_of_readNumber_error h
    · split at h
      · cases h
      · split at h
        · split at h <;> cases h
          exact quotes_of_readString_error ‹_› c.ahead_next
        · split at h
          · rename_i hat
            subst hat
            unfold readParameter at h
            simp only [] at h
            split at h <;> cases h
            exact ScanError.quotes_here rfl (by rw [hrest]; exact ⟨cs, rfl⟩)
          · split at h <;> cases h
            exact ScanError.quotes_here rfl (by rw [hrest]; exact ⟨cs, rfl⟩)

end

/-! ## Runs of a scanner -/

namespace Scanner

/-- The scanner that has been asked for a token `n` times, whatever it answered. -/
def asked (s : Scanner) : Nat → Scanner
  | 0 => s
  | n + 1 => s.next.2.asked n

theorem asked_asked (s : Scanner) (n m : Nat) : (s.asked n).asked m = s.asked (n + m) := by
  induction n generalizing s with
  | zero => rw [Nat.zero_add]; rfl
  | succ n ih => rw [Nat.succ_add]; exact ih s.next.2

/-- The scanner stands at a place of the text, and if it is asked for a token, it passes over blanks
and then over characters of one token, `taken`, from the place on that it tells. -/
structure Exact (text : String) (s : Scanner) : Prop where
  place : s.cursor.position.IsBefore s.cursor.rest text
  boundary : String.Pos.Raw.IsValid text ⟨s.cursor.position.offset⟩
  forward : s.cursor.position.offset ≤ s.next.2.cursor.position.offset
  passes : ∃ blanks taken, s.cursor.rest = blanks ++ (taken ++ s.next.2.cursor.rest) ∧
    Blanks blanks ∧ s.next.2.tokenStart.IsBefore (taken ++ s.next.2.cursor.rest) text ∧
    (∀ t, s.next.1 = .ok t → t ≠ .endOfText → taken ≠ []) ∧
    (s.next.1 = .ok .endOfText ↔ taken ++ s.next.2.cursor.rest = [])
  /-- At the end of the text it stays there. -/
  ends : s.next.1 = .ok .endOfText → ∀ n, s.next.2.answers n = List.replicate n (.ok .endOfText)
  /-- An error lies at a place of the text, not before the token, and quotes what stands there. -/
  quotes : ∀ e, s.next.1 = .error e → s.next.2.tokenStart.offset ≤ e.position.offset ∧
    ∃ rest, e.position.IsBefore rest text ∧ e.quoted <+: rest

variable {text : String} {s : Scanner}

theorem isBefore_next (h : s.cursor.position.IsBefore s.cursor.rest text) :
    s.next.2.cursor.position.IsBefore s.next.2.cursor.rest text := by
  have hahead : s.cursor.Ahead s.next.2.cursor :=
    (s.cursor.ahead_dropWhile isBlank).trans (Token.ahead_read _)
  exact hahead.isBefore h

/-- One call. -/
theorem exact_of_isBefore (h : s.cursor.position.IsBefore s.cursor.rest text) : s.Exact text := by
  have hblanks := s.cursor.ahead_dropWhile isBlank
  have hread : (s.cursor.dropWhile isBlank).Ahead s.next.2.cursor := Token.ahead_read _
  have hstart := hblanks.isBefore h
  have hend (hans : s.next.1 = .ok .endOfText) :
      (s.cursor.dropWhile isBlank).rest = [] ∧ s.next.2.cursor = s.cursor.dropWhile isBlank :=
    Token.eq_of_read_endOfText (Prod.ext hans rfl)
  refine ⟨h, h.isValid, (hblanks.trans hread).offset_le, ?_, fun hans n => ?_, fun e he => ?_⟩
  · obtain ⟨taken, htaken, -⟩ := hread
    have hsplit : s.cursor.rest = s.cursor.rest.takeWhile isBlank ++ (taken ++ s.next.2.cursor.rest) :=
      htaken ▸ List.takeWhile_append_dropWhile.symm
    refine ⟨_, taken, hsplit, all_takeWhile isBlank _, htaken ▸ hstart, fun t ht hne => ?_,
      fun hans => ?_, fun hnil => ?_⟩
    · rintro rfl
      have hlt := Token.length_read_lt (Prod.ext ht rfl) hne
      rw [htaken] at hlt
      exact Nat.lt_irrefl _ hlt
    · rw [← htaken]
      exact (hend hans).1
    · rw [← htaken] at hnil
      show (Token.read (s.cursor.dropWhile isBlank)).1 = _
      unfold Token.read
      rw [hnil]
  · obtain ⟨hrest, hcursor⟩ := hend hans
    exact answers_of_rest_nil (hcursor ▸ hrest) n
  · have hread : Token.read (s.cursor.dropWhile isBlank) = (.error e, s.next.2.cursor) :=
      Prod.ext he rfl
    obtain ⟨d, hd, hplace, hquoted⟩ := Token.quotes_of_read_error hread
    exact ⟨Token.offset_le_of_read_error hread, d.rest, hplace ▸ hd.isBefore hstart, hquoted⟩

/-- The places of a scanner are exact, however often it has been asked for a token and whatever it
answered. -/
theorem exact_asked (text : String) (n : Nat) : ((ofText text).asked n).Exact text := by
  suffices h : ∀ s : Scanner, s.cursor.position.IsBefore s.cursor.rest text →
      (s.asked n).cursor.position.IsBefore (s.asked n).cursor.rest text from
    exact_of_isBefore (h _ (Position.isBefore_start text))
  induction n with
  | zero => exact fun s h => h
  | succ n ih => exact fun s h => ih _ (isBefore_next h)

end Scanner

end DocQuery
