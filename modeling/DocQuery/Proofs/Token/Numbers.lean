import DocQuery.Proofs.Number.Nearest
import DocQuery.Proofs.Token.NumberText

/-!
# Numbers are scanned whole

* `Scanner.AtNumber`: the scanner stands at blanks and a number behind them.
* `IsNumberToken cs q t`: the token that the characters `cs` with the value `q` stand for.
* `Scanner.next_number`: the longest text of a number is passed over, and its token is given unless
  the text goes on with a number or the value is beyond the doubles.
-/

namespace DocQuery

open Text

/-! ## The token of a numeral -/

/-- The token of a number whose characters are `cs` and whose value is `q`: an integer if these are
digits and it fits, or else the nearest double. -/
def IsNumberToken (cs : List Char) (q : ℚ) : Token → Prop
  | .integer n => (∀ c ∈ cs, isDigit c = true) ∧ (n.toInt : ℚ) = q
  | .double x => ¬ ((∀ c ∈ cs, isDigit c = true) ∧ q < 2 ^ 63) ∧ x.Nearest q ∧ x.isNegative = false
  | _ => False

namespace Numeral

/-- A numeral has a value as a whole number if it is all digits. -/
theorem whole?_scan (text : List Char) :
    (∀ c ∈ (scan text).chars, isDigit c = true) ∧
        (∃ n : Nat, (scan text).whole? = some n ∧ (scan text).value = n) ∨
      ¬ (∀ c ∈ (scan text).chars, isDigit c = true) ∧ (scan text).whole? = none := by
  rcases scan_cases text with ⟨rest, -, hscan⟩ | ⟨-, hscan⟩
  · right
    rw [hscan, chars_point]
    refine ⟨fun hall => ?_, rfl⟩
    exact absurd (hall '.' (by simp)) (by decide)
  · rw [hscan, chars_plain, value_plain]
    cases hexponent : Exponent.scan? (text.dropWhile isDigit) with
    | none =>
      left
      refine ⟨?_, _, rfl, ?_⟩
      · simpa [Exponent.optionChars] using all_takeWhile isDigit text
      · simp [Exponent.optionValue]
    | some e =>
      right
      have hmark := (Exponent.tenPower_of_scan? hexponent).nil_or_mark
      obtain ⟨mark, xs, hchars, hmark⟩ := hmark.resolve_left (List.cons_ne_nil _ _)
      refine ⟨fun hall => ?_, rfl⟩
      have := hall mark (by simp [Exponent.optionChars, hchars])
      rw [not_isDigit_mark hmark] at this
      cases this

/-- The token of a numeral that is no integer. -/
theorem token_double {text : List Char} (hfilter : (scan text).whole?.filter (· < 1 <<< 63) = none)
    (hnot : ¬ ((∀ c ∈ (scan text).chars, isDigit c = true) ∧ (scan text).value < 2 ^ 63))
    (p : Position) :
    (scan text).value < Binary64.overflow ∧ (∃ t, (scan text).token p = .ok t ∧
        IsNumberToken (scan text).chars (scan text).value t) ∨
      Binary64.overflow ≤ (scan text).value ∧
        (scan text).token p = .error (.numberOutOfRange (scan text).text p) := by
  have hfinite : (scan text).toBinary64.isFinite = true ↔ (scan text).value < Binary64.overflow :=
    Binary64.isFinite_ofDecimal_iff _ _
  rw [token, hfilter]
  by_cases hlt : (scan text).value < Binary64.overflow
  · left
    have hfin := hfinite.mpr hlt
    have hsign : (scan text).toBinary64.isNegative = false := by
      rw [toBinary64, Binary64.ofDecimal_eq_round, Binary64.isNegative_round]
    exact ⟨hlt, _, if_pos hfin, hnot, Binary64.nearest_ofDecimal hfin, hsign⟩
  · exact .inr ⟨not_lt.mp hlt, if_neg fun hfin => hlt (hfinite.mp hfin)⟩

/-- The value of a numeral settles its token. -/
theorem token_cases (text : List Char) (p : Position) :
    (scan text).value < Binary64.overflow ∧ (∃ t, (scan text).token p = .ok t ∧
        IsNumberToken (scan text).chars (scan text).value t) ∨
      Binary64.overflow ≤ (scan text).value ∧
        (scan text).token p = .error (.numberOutOfRange (scan text).text p) := by
  rcases whole?_scan text with ⟨hdigits, n, hwhole, hvalue⟩ | ⟨hdigits, hwhole⟩
  · by_cases hn : n < 1 <<< 63
    · have hlt : (scan text).value < 2 ^ 63 := by
        rw [Nat.one_shiftLeft] at hn
        rw [hvalue]
        exact_mod_cast hn
      have hint : ((Int64.ofNat n).toInt : ℚ) = (scan text).value := by
        rw [Nat.one_shiftLeft] at hn
        rw [hvalue, Int64.toInt_ofNat_of_lt (by omega), Int.cast_natCast]
      exact .inl ⟨hlt.trans Binary64.two_pow_lt_overflow, _, token_of_whole hwhole hn p, hdigits, hint⟩
    · refine token_double ?_ ?_ p
      · rw [hwhole]
        exact Option.filter_some_neg (by simpa using hn)
      · rintro ⟨-, hlt⟩
        rw [hvalue] at hlt
        rw [Nat.one_shiftLeft] at hn
        exact hn (by exact_mod_cast hlt)
  · refine token_double ?_ (fun h => hdigits h.1) p
    rw [hwhole, Option.filter_none]

end Numeral

/-! ## The scanner at a number -/

namespace Scanner

/-- The scanner stands at blanks, behind which `text` goes on with a digit or with a point and a
digit. -/
structure AtNumber (s : Scanner) (blanks text : List Char) : Prop where
  areBlank : ∀ c ∈ blanks, isBlank c = true
  begins : beginsNumber text = true
  rest : s.cursor.rest = blanks ++ text

/-- The scanner behind blanks and a token of the characters `cs`, with `rest` left. -/
def behind (s : Scanner) (blanks cs rest : List Char) : Scanner :=
  ⟨⟨rest, s.cursor.position.after (blanks ++ cs)⟩, s.cursor.position.after blanks⟩

section

variable {s s' : Scanner} {blanks text cs rest : List Char}

/-- Behind the blanks a number is read. -/
theorem AtNumber.next_eq (h : s.AtNumber blanks text) {r : Except ScanError Token} {d : Cursor}
    (hread : readNumber ⟨text, s.cursor.position.after blanks⟩ = (r, d)) :
    s.next = (r, ⟨d, s.cursor.position.after blanks⟩) := by
  have hhead : ∀ c ∈ text.head?, isBlank c = false := by
    obtain ⟨c, cs, hc, rfl | rfl⟩ := Numeral.begins_cases h.begins
    · rintro _ ⟨⟩
      exact not_isBlank_of_continuesName (continuesName_of_isDigit hc)
    · rintro _ ⟨⟩
      decide
  have hcursor : s.cursor.dropWhile isBlank = ⟨text, s.cursor.position.after blanks⟩ := by
    rw [Cursor.dropWhile, h.rest, dropWhile_run h.areBlank hhead, takeWhile_run h.areBlank hhead]
  rw [next, hcursor, Token.read_number (c := ⟨text, _⟩) h.begins, hread]

/-- What the scanner gives depends on whether the text goes on with a number. -/
theorem AtNumber.next_cases (h : s.AtNumber blanks text)
    (htext : (Numeral.scan text).chars ++ rest = text) :
    (∃ ch, rest.head? = some ch ∧ continuesNumber ch = true ∧ s.next =
      (.error (.malformedNumber (String.ofList ((Numeral.scan text).chars ++ [ch]))
        (s.cursor.position.after blanks)), s.behind blanks (Numeral.scan text).chars rest)) ∨
    EndNumber rest ∧ s.next = ((Numeral.scan text).token (s.cursor.position.after blanks),
      s.behind blanks (Numeral.scan text).chars rest) := by
  have hdrop : text.drop (Numeral.scan text).chars.length = rest := by
    exact (congrArg (List.drop _) htext.symm).trans List.drop_left
  have htake : text.take (Numeral.scan text).chars.length = (Numeral.scan text).chars := by
    exact (congrArg (List.take _) htext.symm).trans List.take_left
  have hbehind : (⟨⟨rest, (s.cursor.position.after blanks).after (Numeral.scan text).chars⟩,
      s.cursor.position.after blanks⟩ : Scanner) =
      s.behind blanks (Numeral.scan text).chars rest := by
    rw [behind, Position.after_append]
  by_cases hend : EndNumber rest
  · have hnone : rest.head?.filter (fun ch => continuesName ch || ch == '.') = none := by
      cases rest with
      | nil => rfl
      | cons ch rest => exact Option.filter_some_neg (by simpa [continuesNumber] using hend ch rfl)
    refine .inr ⟨hend, ?_⟩
    rw [← hbehind]
    apply h.next_eq
    unfold readNumber Cursor.drop
    simp only [hdrop, htake, hnone]
    rfl
  · unfold EndNumber at hend
    push Not at hend
    obtain ⟨ch, hhead, hch⟩ := hend
    have hch : continuesNumber ch = true := by simpa using hch
    have hsome : rest.head?.filter (fun ch => continuesName ch || ch == '.') = some ch := by
      rw [hhead]
      exact Option.filter_some_pos hch
    refine .inl ⟨ch, hhead, hch, ?_⟩
    rw [← hbehind]
    apply h.next_eq
    unfold readNumber Cursor.drop
    simp only [hdrop, htake, hsome]
    have hpush : (Numeral.scan text).text.push ch =
        String.ofList ((Numeral.scan text).chars ++ [ch]) := by
      apply String.toList_inj.mp
      rw [String.toList_push, Numeral.text, String.toList_ofList, String.toList_ofList]
    rw [hpush]

/-- At a number there is a longest text of one, and it can be read as a double. The scanner gives a
token if and only if the text does not go on with a letter, a numeral, an underscore or a point, and
the value is not beyond the doubles. Either way it has passed over just that text. The token is an
integer of its value if it is all digits and fits, or else the double nearest to its value, without a
sign. The errors quote that text. -/
theorem next_number (s : Scanner) (blanks text : List Char) (h : s.AtNumber blanks text) :
    ∃ cs rest q, cs ++ rest = text ∧ Longest NumberText text cs q ∧ IsDoubleText cs ∧
      ((∃ t s', s.next = (.ok t, s')) ↔ EndNumber rest ∧ q < Binary64.overflow) ∧
      (∀ t s', s.next = (.ok t, s') → s' = s.behind blanks cs rest ∧ IsNumberToken cs q t) ∧
      (∀ e s', s.next = (.error e, s') → s' = s.behind blanks cs rest ∧
        ((∃ c, rest.head? = some c ∧ continuesNumber c = true ∧ e =
            .malformedNumber (String.ofList (cs ++ [c])) (s.cursor.position.after blanks)) ∨
          EndNumber rest ∧ Binary64.overflow ≤ q ∧ e =
            .numberOutOfRange (String.ofList cs) (s.cursor.position.after blanks))) := by
  have hlongest := Numeral.scan_longest h.begins
  obtain ⟨rest, htext⟩ := hlongest.1
  refine ⟨_, rest, _, htext, hlongest, hlongest.2.1.isDoubleText, ?_⟩
  rcases h.next_cases htext with ⟨c, hhead, hc, hnext⟩ | ⟨hend, hnext⟩
  · have hgoes : ¬ EndNumber rest := fun hend => by
      rw [hend c hhead] at hc
      cases hc
    rw [hnext]
    refine ⟨⟨?_, fun hok => absurd hok.1 hgoes⟩, ?_, ?_⟩
    · rintro ⟨t, s', ⟨⟩⟩
    · rintro t s' ⟨⟩
    · rintro e s' ⟨⟩
      exact ⟨rfl, .inl ⟨c, hhead, hc, rfl⟩⟩
  · rcases Numeral.token_cases text (s.cursor.position.after blanks) with
      ⟨hlt, t, htoken, ht⟩ | ⟨hge, htoken⟩
    · rw [hnext, htoken]
      refine ⟨⟨fun _ => ⟨hend, hlt⟩, fun _ => ⟨t, _, rfl⟩⟩, ?_, ?_⟩
      · rintro t s' ⟨⟩
        exact ⟨rfl, ht⟩
      · rintro e s' ⟨⟩
    · rw [hnext, htoken]
      refine ⟨⟨?_, fun hok => absurd hok.2 hge.not_gt⟩, ?_, ?_⟩
      · rintro ⟨t, s', ⟨⟩⟩
      · rintro t s' ⟨⟩
      · rintro e s' ⟨⟩
        exact ⟨rfl, .inr ⟨hend, hge, rfl⟩⟩

/-- A tenth is no double. Its text is read as the nearest one, up to the comma behind it. -/
theorem next_number_tenth :
    (ofText " 0.1,").AtNumber [' '] ['0', '.', '1', ','] ∧
    (ofText " 0.1,").next =
      (.ok (.double ⟨0x3FB999999999999A⟩), ⟨⟨[','], ⟨4, 1, 5⟩⟩, ⟨1, 1, 2⟩⟩) ∧
    Binary64.Nearest ⟨0x3FB999999999999A⟩ (1 / 10) := by
  have hat : (ofText " 0.1,").AtNumber [' '] ['0', '.', '1', ','] :=
    ⟨List.forall_mem_singleton.mpr (by decide +kernel), by decide, rfl⟩
  have hnext : (ofText " 0.1,").next =
      (.ok (.double ⟨0x3FB999999999999A⟩), ⟨⟨[','], ⟨4, 1, 5⟩⟩, ⟨1, 1, 2⟩⟩) := by
    decide +kernel
  have htext : NumberText ['0', '.', '1'] (1 / 10) := by
    have hdigits : digitsValue 0 ['0'] = 0 ∧ digitsValue 0 ['1'] = 1 := by decide
    have hzero : isDigit '0' = true := by decide
    have hone : isDigit '1' = true := by decide
    have hdigit : IsDigits ['0'] := ⟨List.cons_ne_nil _ _, List.forall_mem_singleton.mpr hzero⟩
    have hfraction : ∀ c ∈ ['1'], isDigit c = true := List.forall_mem_singleton.mpr hone
    refine ⟨_, _, _, _, .point hdigit hfraction, .none, rfl, ?_⟩
    rw [hdigits.1, hdigits.2]
    norm_num
  obtain ⟨cs, rest, q, hsplit, hlongest, -, -, htoken, -⟩ := next_number _ _ _ hat
  obtain ⟨hbehind, -, hnearest, -⟩ := htoken _ _ hnext
  obtain rfl : rest = [','] := (congrArg (fun s => s.cursor.rest) hbehind).symm
  obtain rfl : cs = ['0', '.', '1'] := List.append_cancel_right hsplit
  rcases hlongest.2.2 _ _ ⟨[','], rfl⟩ htext with hlt | ⟨-, rfl⟩
  · exact absurd hlt (lt_irrefl _)
  · exact ⟨hat, hnext, hnearest⟩

end

end Scanner

end DocQuery
