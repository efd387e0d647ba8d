import DocQuery.Proofs.Token.Progress

/-!
# The places of tokens

Reading of tokens goes forward in the text, and the place it keeps is that of its cursor.

* `Cursor.Ahead c d`: the cursor `d` is some characters behind `c`.
* `Scanner.ahead_next`: a scanner stands at or before the token that it reads next, which stands
  before what is left. So no two tokens begin at one place.
* `Scanner.offset_le_of_error`: nor does an error lie before the scanner that it stops.
* `Scanner.Passes s ts s'`: the tokens `ts` come next, and `s'` is behind them. The place of the
  token behind them tells which they are (`Scanner.Passes.unique`).
-/

namespace DocQuery

open Text

/-- Characters take bytes. -/
theorem Text.Position.offset_after (p : Position) (cs : List Char) :
    p.offset + cs.length ≤ (p.after cs).offset := by
  induction cs generalizing p with
  | nil => exact Nat.le_refl _
  | cons c cs ih =>
    have hsize : (p.step c).offset = p.offset + c.utf8Size := by
      unfold step
      split <;> rfl
    have hpos := c.utf8Size_pos
    have hrest := ih (p.step c)
    rw [after_cons, List.length_cons]
    omega

namespace Text.Cursor

/-- The cursor `d` is some characters behind `c` in the same text. -/
def Ahead (c d : Cursor) : Prop :=
  ∃ cs, c.rest = cs ++ d.rest ∧ d.position = c.position.after cs

section

variable {c d e : Cursor}

theorem Ahead.refl (c : Cursor) : c.Ahead c := ⟨[], rfl, rfl⟩

theorem Ahead.trans (h : c.Ahead d) (h' : d.Ahead e) : c.Ahead e := by
  obtain ⟨cs, hrest, hposition⟩ := h
  obtain ⟨ds, hrest', hposition'⟩ := h'
  refine ⟨cs ++ ds, ?_, ?_⟩
  · rw [hrest, hrest', List.append_assoc]
  · rw [hposition', hposition, Position.after_append]

theorem Ahead.offset_le (h : c.Ahead d) : c.position.offset ≤ d.position.offset := by
  obtain ⟨cs, -, hposition⟩ := h
  have hoffset := c.position.offset_after cs
  rw [hposition]
  omega

theorem Ahead.offset_lt (h : c.Ahead d) (hlength : d.rest.length < c.rest.length) :
    c.position.offset < d.position.offset := by
  obtain ⟨cs, hrest, hposition⟩ := h
  have hoffset := c.position.offset_after cs
  have hcs := congrArg List.length hrest
  rw [List.length_append] at hcs
  rw [hposition]
  omega

theorem ahead_next (c : Cursor) : c.Ahead c.next := by
  unfold next
  split
  · exact .refl c
  · exact ⟨[_], ‹_›, rfl⟩

theorem ahead_drop (n : Nat) (c : Cursor) : c.Ahead (c.drop n) :=
  ⟨c.rest.take n, (List.take_append_drop n c.rest).symm, rfl⟩

theorem ahead_dropWhile (p : Char → Bool) (c : Cursor) : c.Ahead (c.dropWhile p) :=
  ⟨c.rest.takeWhile p, List.takeWhile_append_dropWhile.symm, rfl⟩

end

end Text.Cursor

/-! ## Escapes and strings -/

namespace Escape

theorem ahead_digits (count n : Nat) (c : Cursor) : c.Ahead (digits count n c).2 := by
  induction count generalizing n c with
  | zero => exact .refl c
  | succ count ih =>
    rw [digits]
    split
    · exact c.ahead_next.trans (ih _ _)
    · exact .refl c

theorem ahead_unicode (c : Cursor) : c.Ahead (unicode c).2 := by
  have hfirst := ahead_digits 4 0 c
  unfold unicode
  split
  · rename_i d hd
    rwa [hd] at hfirst
  · rename_i high d hd
    rw [hd] at hfirst
    have hsecond := ahead_digits 4 0 d.next.next
    have hpair := hfirst.trans (d.ahead_next.trans (d.next.ahead_next.trans hsecond))
    split
    · split
      · split
        · rename_i e he
          rwa [he] at hpair
        · rename_i low e he
          rw [he] at hpair
          split <;> exact hpair
      · exact hfirst
    · split <;> exact hfirst

theorem ahead_read (opening : Position) (c : Cursor) : c.Ahead (read opening c).2 := by
  have hbody := c.ahead_next.trans c.next.ahead_next
  have hunicode := hbody.trans (ahead_unicode c.next.next)
  unfold read
  simp only []
  split
  · exact c.ahead_next
  · split
    · rename_i hread
      rwa [hread] at hunicode
    · rename_i hread
      rwa [hread] at hunicode
  · split
    · exact hbody
    · exact c.ahead_next

/-- An error lies at the quote or at the backslash. -/
theorem position_of_read_error {opening : Position} {c d : Cursor} {e : ScanError}
    (h : read opening c = (.error e, d)) : e.position = opening ∨ e.position = c.position := by
  unfold read at h
  simp only [] at h
  split at h
  · cases h
    exact .inl rfl
  · split at h <;> cases h
    exact .inr rfl
  · split at h <;> cases h
    exact .inr rfl

end Escape

theorem ahead_readString (quote : Char) (opening : Position) (read : List Char) (c : Cursor) :
    c.Ahead (readString quote opening read c).2 := by
  fun_induction readString quote opening read c with
  | case1 => exact .refl _
  | case2 => exact Cursor.ahead_next _
  | case3 read c _ decoded d hread hrest _ ih =>
    have hescape := Escape.ahead_read opening c
    rw [hread] at hescape
    exact hescape.trans ih
  | case4 read c _ e d hread hrest _ =>
    have hescape := Escape.ahead_read opening c
    rwa [hread] at hescape
  | case5 read c ch _ _ _ _ ih => exact c.ahead_next.trans ih

/-- An error in a string does not lie before its quote. -/
theorem offset_le_of_readString_error {quote : Char} {opening : Position} {read : List Char}
    {c d : Cursor} {e : ScanError} (h : readString quote opening read c = (.error e, d))
    (hopening : opening.offset ≤ c.position.offset) : opening.offset ≤ e.position.offset := by
  fun_induction readString quote opening read c with
  | case1 =>
    cases h
    exact Nat.le_refl _
  | case2 => cases h
  | case3 read c _ decoded d hread hrest _ ih =>
    have hescape := Escape.ahead_read opening c
    rw [hread] at hescape
    exact ih h (Nat.le_trans hopening hescape.offset_le)
  | case4 read c _ e d hread hrest _ =>
    cases h
    obtain he | he := Escape.position_of_read_error hread
    · exact Nat.le_of_eq (congrArg _ he.symm)
    · rwa [he]
  | case5 read c ch _ _ _ _ ih => exact ih h (Nat.le_trans hopening c.ahead_next.offset_le)

/-! ## Tokens -/

theorem ahead_readParameter (c : Cursor) : c.Ahead (readParameter c).2 := by
  unfold readParameter
  simp only []
  split
  · exact c.ahead_next.trans (c.next.ahead_dropWhile _)
  · exact c.ahead_next

theorem Token.ahead_read (c : Cursor) : c.Ahead (Token.read c).2 := by
  unfold Token.read
  split
  · exact .refl c
  · split
    · exact c.ahead_drop _
    · split
      · exact c.ahead_drop _
      · split
        · have hstring := c.ahead_next.trans (ahead_readString ‹Char› c.position [] c.next)
          split
          · rename_i hread
            rwa [hread] at hstring
          · rename_i hread
            rwa [hread] at hstring
        · split
          · exact ahead_readParameter c
          · split
            · exact c.ahead_dropWhile _
            · exact .refl c

/-- Only where nothing is left is the end of the text, and reading it takes nothing. -/
theorem Token.eq_of_read_endOfText {c d : Cursor} (h : Token.read c = (.ok .endOfText, d)) :
    c.rest = [] ∧ d = c := by
  unfold Token.read at h
  split at h
  · cases h
    exact ⟨‹_›, rfl⟩
  · split at h
    · unfold readNumber at h
      simp only [Prod.mk.injEq] at h
      obtain ⟨h, -⟩ := h
      split at h
      · cases h
      · split at h
        · cases h
        · split at h <;> cases h
    · split at h
      · cases h
      · split at h
        · split at h <;> cases h
        · split at h
          · unfold readParameter at h
            simp only [] at h
            split at h <;> cases h
          · split at h
            · unfold readName at h
              simp only [Prod.mk.injEq] at h
              obtain ⟨h, -⟩ := h
              split at h <;> cases h
            · cases h

theorem Token.rest_of_read_endOfText {c d : Cursor} (h : Token.read c = (.ok .endOfText, d)) :
    d.rest = [] := by
  obtain ⟨hrest, rfl⟩ := Token.eq_of_read_endOfText h
  exact hrest

/-- An error does not lie before the token that it is in. -/
theorem Token.offset_le_of_read_error {c d : Cursor} {e : ScanError}
    (h : Token.read c = (.error e, d)) : c.position.offset ≤ e.position.offset := by
  unfold Token.read at h
  split at h
  · cases h
  · split at h
    · unfold readNumber at h
      simp only [Prod.mk.injEq] at h
      obtain ⟨h, -⟩ := h
      split at h
      · cases h
        exact Nat.le_refl _
      · split at h
        · cases h
        · split at h <;> cases h
          exact Nat.le_refl _
    · split at h
      · cases h
      · split at h
        · split at h <;> cases h
          exact offset_le_of_readString_error ‹_› c.ahead_next.offset_le
        · split at h
          · unfold readParameter at h
            simp only [] at h
            split at h <;> cases h
            exact Nat.le_refl _
          · split at h <;> cases h
            exact Nat.le_refl _

namespace Scanner

variable {s s' : Scanner} {t : Token} {e : ScanError}

/-- The next token begins where the scanner stands or further on. -/
theorem offset_le_tokenStart (h : s.next = (.ok t, s')) :
    s.cursor.position.offset ≤ s'.tokenStart.offset := by
  obtain ⟨-, rfl⟩ := Prod.mk.inj h
  exact (s.cursor.ahead_dropWhile isBlank).offset_le

/-- The scanner behind a token stands behind the place where it begins. -/
theorem tokenStart_lt_offset (h : s.next = (.ok t, s')) (hend : t ≠ .endOfText) :
    s'.tokenStart.offset < s'.cursor.position.offset := by
  obtain ⟨hread, rfl⟩ := Prod.mk.inj h
  exact (Token.ahead_read _).offset_lt (Token.length_read_lt (Prod.ext hread rfl) hend)

/-- An error does not lie before the place where the scanner stood. -/
theorem offset_le_of_error (h : s.next = (.error e, s')) :
    s.cursor.position.offset ≤ e.position.offset := by
  obtain ⟨hread, rfl⟩ := Prod.mk.inj h
  exact Nat.le_trans (s.cursor.ahead_dropWhile isBlank).offset_le
    (Token.offset_le_of_read_error (Prod.ext hread rfl))

theorem next_of_rest_nil (h : s.cursor.rest = []) :
    s.next = (.ok .endOfText, ⟨s.cursor, s.cursor.position⟩) := by
  obtain ⟨⟨rest, p⟩, start⟩ := s
  cases h
  rfl

/-- Behind the end of the text there is no error. -/
theorem next_ne_error_of_endOfText (h : s.next = (.ok .endOfText, s')) (e : ScanError)
    (s'' : Scanner) : s'.next ≠ (.error e, s'') := by
  obtain ⟨hread, rfl⟩ := Prod.mk.inj h
  rw [next_of_rest_nil (Token.rest_of_read_endOfText (Prod.ext hread rfl))]
  nofun

/-! ## The tokens before a place -/

/-- The tokens `ts` come next, and the scanner `s'` is behind them. -/
inductive Passes : Scanner → List Token → Scanner → Prop
  | done (s : Scanner) : Passes s [] s
  | step {s s' s'' : Scanner} {t : Token} {ts : List Token} (h : s.next = (.ok t, s'))
    (hend : t ≠ .endOfText) (hrest : Passes s' ts s'') : Passes s (t :: ts) s''

variable {m n m' n' : Scanner} {u : Token} {ts us : List Token}

theorem Passes.concat (h : s.Passes ts m) (hnext : m.next = (.ok t, m')) (hend : t ≠ .endOfText) :
    s.Passes (ts ++ [t]) m' := by
  induction h with
  | done s => exact .step hnext hend (.done m')
  | step h hne _ ih => exact .step h hne (ih hnext)

theorem Passes.offset_le (h : s.Passes ts m) :
    s.cursor.position.offset ≤ m.cursor.position.offset := by
  induction h with
  | done s => exact Nat.le_refl _
  | step h hend _ ih =>
    have hstart := offset_le_tokenStart h
    have hlt := tokenStart_lt_offset h hend
    omega

/-- The tokens before a token that begins at a place are the same, however they are come by. -/
theorem Passes.unique (h : s.Passes ts m) (hm : m.next = (.ok t, m')) (h' : s.Passes us n)
    (hn : n.next = (.ok u, n')) (hplace : m'.tokenStart = n'.tokenStart) : ts = us := by
  -- where the one list ends, a further token of the other begins before the end of the other
  have hlater {s s' m m' : Scanner} {t u : Token} {ts : List Token} (hs : s.next = (.ok t, s'))
      (hend : t ≠ .endOfText) (h : s'.Passes ts m) (hm : m.next = (.ok u, m')) :
      s'.tokenStart.offset < m'.tokenStart.offset := by
    have hlt := tokenStart_lt_offset hs hend
    have hle := h.offset_le
    have hstart := offset_le_tokenStart hm
    omega
  induction h generalizing us with
  | done s =>
    cases h' with
    | done => rfl
    | step hs hend hrest =>
      have hlt := hlater hs hend hrest hn
      obtain ⟨-, rfl⟩ := Prod.mk.inj (hm.symm.trans hs)
      rw [hplace] at hlt
      omega
  | step hs hend hrest ih =>
    cases h' with
    | done =>
      have hlt := hlater hs hend hrest hm
      obtain ⟨-, rfl⟩ := Prod.mk.inj (hn.symm.trans hs)
      rw [hplace] at hlt
      omega
    | step hs' hend' hrest' =>
      obtain ⟨ht, rfl⟩ := Prod.mk.inj (hs.symm.trans hs')
      obtain rfl := Except.ok.inj ht
      rw [ih hm hrest']

end Scanner

end DocQuery
