import DocQuery.Proofs.Text.CharClass
import DocQuery.Token.Scanner

/-!
# Every token takes a character

`Scanner.length_next_lt`: a token that is read is a character at least. So a text has no more tokens
than characters, and rounds in proportion to its length are enough to read it.
-/

namespace DocQuery

open Text

theorem Cursor.length_dropWhile_le (p : Char → Bool) (c : Cursor) :
    (c.dropWhile p).rest.length ≤ c.rest.length :=
  (List.dropWhile_sublist p).length_le

theorem Cursor.length_drop_lt {c : Cursor} {n : Nat} (h : c.rest ≠ []) (hn : 0 < n) :
    (c.drop n).rest.length < c.rest.length := by
  have hpos := List.length_pos_iff.mpr h
  rw [Cursor.drop, List.length_drop]
  omega

theorem Numeral.length_chars_pos {cs : List Char} (h : beginsNumber cs = true) :
    0 < (Numeral.scan cs).chars.length := by
  cases cs with
  | nil => cases h
  | cons c cs =>
    by_cases hc : isDigit c = true
    · have hwhole : (Numeral.scan (c :: cs)).whole = c :: cs.takeWhile isDigit := by
        unfold scan
        simp only [List.takeWhile_cons_of_pos hc]
        split <;> rfl
      simp only [chars, hwhole, List.length_append, List.length_cons]
      omega
    · obtain rfl : c = '.' := by
        unfold beginsNumber at h
        split at h
        · exact (List.cons.inj ‹_›).1
        · cases (List.cons.inj ‹_›).1
          exact absurd h hc
        · cases ‹_ = []›
      rw [scan, List.takeWhile_cons_of_neg hc, List.dropWhile_cons_of_neg hc]
      simp only [chars, List.length_append, List.length_cons]
      omega

theorem Mark.length_scan?_pos {cs : List Char} {m : Mark} {n : Nat}
    (h : Mark.scan? cs = some (m, n)) : 0 < n := by
  unfold scan? at h
  split at h
  case h_11 =>
    obtain ⟨_, -, h⟩ := Option.map_eq_some_iff.mp h
    cases h
    exact Nat.one_pos
  case h_12 => cases h
  all_goals
    cases h
    decide

theorem length_readString_le (quote : Char) (opening : Position) (read : List Char) (c : Cursor) :
    (readString quote opening read c).2.rest.length ≤ c.rest.length := by
  fun_induction readString quote opening read c with
  | case1 => exact Nat.le_refl _
  | case2 => exact Cursor.length_next_le _
  | case3 read c _ decoded d hread hrest _ ih =>
    have hlt := Escape.length_read_lt opening (c := c) (by simp [hrest])
    rw [hread] at hlt
    exact Nat.le_trans ih (Nat.le_of_lt hlt)
  | case4 read c _ e d hread hrest _ =>
    have hlt := Escape.length_read_lt opening (c := c) (by simp [hrest])
    rw [hread] at hlt
    exact Nat.le_of_lt hlt
  | case5 read c ch _ _ _ _ ih => exact Nat.le_trans ih (Cursor.length_next_le _)

/-- A token that is read is a character at least. -/
theorem Token.length_read_lt {c d : Cursor} {t : Token} (h : Token.read c = (.ok t, d))
    (hend : t ≠ .endOfText) : d.rest.length < c.rest.length := by
  unfold Token.read at h
  split at h
  · cases h
    exact absurd rfl hend
  · rename_i ch cs hrest
    have hne : c.rest ≠ [] := by simp [hrest]
    have hnext := Cursor.length_next_lt hne
    split at h
    · rename_i hnumber
      obtain ⟨-, rfl⟩ := Prod.mk.inj h
      exact Cursor.length_drop_lt hne (Numeral.length_chars_pos hnumber)
    · split at h
      · rename_i m n hscan
        cases h
        exact Cursor.length_drop_lt hne (Mark.length_scan?_pos hscan)
      · split at h
        · have hle := length_readString_le ch c.position [] c.next
          split at h
          · rename_i hread
            cases h
            rw [hread] at hle
            exact Nat.lt_of_le_of_lt hle hnext
          · cases h
        · split at h
          · unfold readParameter at h
            simp only [] at h
            split at h
            · cases h
              exact Nat.lt_of_le_of_lt (Cursor.length_dropWhile_le _ _) hnext
            · cases h
          · split at h
            · rename_i hch
              cases h
              change (c.rest.dropWhile continuesName).length < c.rest.length
              rw [hrest, List.dropWhile_cons_of_pos (continuesName_of_beginsName hch)]
              exact Nat.lt_succ_of_le (List.dropWhile_sublist _).length_le
            · cases h

/-- Passing over a token takes a character at least. -/
theorem Scanner.length_next_lt {s s' : Scanner} {t : Token} (h : s.next = (.ok t, s'))
    (hend : t ≠ .endOfText) : s'.cursor.rest.length < s.cursor.rest.length := by
  unfold next at h
  obtain ⟨hread, rfl⟩ := Prod.mk.inj h
  exact Nat.lt_of_lt_of_le (Token.length_read_lt (Prod.ext hread rfl) hend)
    (Cursor.length_dropWhile_le isBlank s.cursor)

end DocQuery
