import DocQuery.Proofs.Layout.Legible
import DocQuery.Proofs.Token.Places

/-!
# A number in front of a point

A number does not end where a point follows. If it is whole, the point goes on with it, and so may a
name behind the point that looks like an exponent; else it is malformed.

* `mayFollow`: the characters that laid-out text has behind a name.
* `Scanner.Yields.number_dot`: a number, a point and a name are read as one number, if they are read.
-/

namespace DocQuery

open Text

def Token.isNumber : Token → Bool
  | .integer _ | .double _ => true
  | _ => false

/-- What may stand directly behind a word or a closing parenthesis. -/
def mayFollow (c : Char) : Bool := c ∈ [' ', '.', '(', '[', ']', ')', ',', '\x7d']

theorem class_of_mayFollow {c : Char} (hc : mayFollow c = true) :
    continuesName c = false ∧ isDigit c = false ∧ c ∉ ['=', '|', '?', '+', '-'] := by
  simp only [mayFollow, List.mem_cons, List.not_mem_nil, or_false, decide_eq_true_eq] at hc
  rcases hc with rfl | rfl | rfl | rfl | rfl | rfl | rfl | rfl <;> decide

section

variable {a : Number} {t u : Token} {c d : Cursor} {name rest : List Char} {p : Position}

theorem readNumber_ok (h : readNumber c = (.ok u, d)) : u.isNumber = true ∧
    (Numeral.scan c.rest).chars ++ d.rest = c.rest ∧ EndNumber d.rest := by
  obtain ⟨after, hafter⟩ := Numeral.chars_scan_prefix c.rest
  have hdrop : (c.drop (Numeral.scan c.rest).chars.length).rest = after :=
    (congrArg (List.drop _) hafter.symm).trans List.drop_left
  unfold readNumber at h
  simp only [Prod.mk.injEq] at h
  obtain ⟨h, rfl⟩ := h
  rw [hdrop] at h ⊢
  refine ⟨?_, hafter, ?_⟩
  · split at h
    · cases h
    · split at h
      · cases h
        rfl
      · split at h <;> cases h
        rfl
  · split at h
    · cases h
    · exact fun c hc => Bool.eq_false_iff.mpr (Option.filter_eq_none_iff.mp ‹_› c hc)

/-- Neither in a name nor right behind it stands a sign. -/
theorem no_sign (hname : ∀ c ∈ name, continuesName c = true)
    (hrest : ∀ c ∈ rest.head?, mayFollow c = true) {c : Char} (hc : c = '+' ∨ c = '-')
    (tail : List Char) : name ++ rest ≠ c :: tail := by
  intro heq
  cases name with
  | nil =>
    obtain rfl : rest = c :: tail := heq
    have hclass := (class_of_mayFollow (hrest c rfl)).2.2
    rcases hc with rfl | rfl <;> exact hclass (by decide)
  | cons e name =>
    cases heq
    have hcontinues := hname c List.mem_cons_self
    rcases hc with rfl | rfl <;> exact absurd hcontinues (by decide)

/-- An exponent at the start of a name is part of the name. -/
theorem Exponent.all_of_scan? {x : Exponent} (hname : ∀ c ∈ name, continuesName c = true)
    (hrest : ∀ c ∈ rest.head?, mayFollow c = true) (h : Exponent.scan? (name ++ rest) = some x) :
    ∀ c ∈ x.chars, continuesName c = true := by
  cases name with
  | nil =>
    have hmark : ∀ c ∈ rest.head?, c ≠ 'e' ∧ c ≠ 'E' := fun c hc =>
      have hclass := (class_of_mayFollow (hrest c hc)).1
      ⟨(ne_of_class (by decide) hclass).symm, (ne_of_class (by decide) hclass).symm⟩
    rw [List.nil_append, Exponent.scan?_none hmark] at h
    cases h
  | cons m name =>
    obtain ⟨hm, hname⟩ := List.forall_mem_cons.mp hname
    rw [List.cons_append] at h
    unfold scan? at h
    simp only [] at h
    split at h
    · split at h
      · cases h
      · cases h
        refine List.forall_mem_cons.mpr ⟨hm, ?_⟩
        split
        · exact absurd ‹_› (no_sign hname hrest (.inl rfl) _)
        · exact absurd ‹_› (no_sign hname hrest (.inr rfl) _)
        · exact fun c hc => continuesName_of_isDigit (all_takeWhile isDigit _ c hc)
    · cases h

/-- A number in front of a point and a name takes both in, if it is read at all. -/
theorem rest_of_readNumber_dot (ha : a.isPlain = true) (hname : isName (String.ofList name) = true)
    (hrest : ∀ c ∈ rest.head?, mayFollow c = true)
    (h : readNumber ⟨a.chars ++ '.' :: (name ++ rest), p⟩ = (.ok u, d)) : d.rest = rest := by
  obtain ⟨-, hchars, hend⟩ := readNumber_ok h
  obtain ⟨c, cs, hcons, hc, hall⟩ := exists_of_isName hname
  rw [String.toList_ofList] at hcons hall
  subst hcons
  cases a with
  | double x =>
    obtain ⟨hfinite, hsign⟩ := Bool.and_eq_true_iff.mp ha
    obtain ⟨n, hproper, hn, hwhole, -⟩ := Binary64.exists_numeral hfinite (by simpa using hsign)
    rw [Number.chars, ← hn, Numeral.scan_chars_dot hproper hwhole, List.append_cancel_left_eq]
      at hchars
    rw [hchars] at hend
    exact absurd (hend '.' rfl) (by decide)
  | integer n =>
    have hdigits : ∀ c ∈ Nat.toDigits 10 n.toInt.natAbs, isDigit c :=
      fun c hc => isDigit_of_mem_toDigits hc
    have hpoint : ∀ d ∈ ('.' :: c :: (cs ++ rest)).head?, isDigit d = false := by
      rintro _ ⟨⟩
      decide
    have hletter : ¬ isDigit c = true := Bool.eq_false_iff.mp (not_isDigit_of_beginsName hc)
    simp only [Number.chars_of_nonneg (of_decide_eq_true ha), Numeral.chars, Numeral.scan,
      List.append_nil, List.cons_append, takeWhile_run hdigits hpoint, dropWhile_run hdigits hpoint,
      List.takeWhile_cons_of_neg hletter, List.dropWhile_cons_of_neg hletter, List.append_assoc,
      List.append_cancel_left_eq, List.nil_append, List.cons.injEq, true_and] at hchars
    split at hchars
    · have hrun := dropWhile_run (Exponent.all_of_scan? hall hrest ‹_›) hend.endName
      rw [hchars, ← List.cons_append,
        dropWhile_run hall fun c hc => (class_of_mayFollow (hrest c hc)).1] at hrun
      exact hrun.symm
    · rw [List.nil_append] at hchars
      rw [hchars] at hend
      exact absurd (continuesName_of_beginsName hc) (Bool.eq_false_iff.mp (hend.endName c rfl))

/-- A number, a point and a name are read as one number, if they are read at all. -/
theorem Scanner.Yields.number_dot {s : Scanner} {ts : List Token} (hts : s.Yields ts)
    (ht : t.isSpellable = true) (hnumber : t.isNumber = true)
    {name : String} (hname : isName name = true) (hrest : ∀ c ∈ rest.head?, mayFollow c = true)
    (hs : s.cursor.rest = t.spelling.toList ++ '.' :: (name.toList ++ rest)) :
    ∃ (s' : Scanner) (u : Token) (us : List Token), ts = u :: us ∧ u.isNumber = true ∧
      s'.cursor.rest = rest ∧ s'.Yields us := by
  obtain ⟨⟨text, place⟩, start⟩ := s
  obtain rfl : text = t.spelling.toList ++ '.' :: (name.toList ++ rest) := hs
  obtain ⟨a, ha, hspelling⟩ : ∃ a : Number, a.isPlain = true ∧ t.spelling.toList = a.chars := by
    cases t with
    | integer n => exact ⟨.integer n, ht, String.toList_ofList⟩
    | double x => exact ⟨.double x, ht, String.toList_ofList⟩
    | _ => cases hnumber
  obtain ⟨n, hproper, hchars⟩ := Number.exists_numeral_of_isPlain ha
  have hbegins : beginsNumber (t.spelling.toList ++ '.' :: (name.toList ++ rest)) = true := by
    rw [hspelling, ← hchars]
    exact beginsNumber_chars hproper _
  rcases hread : Token.read ⟨t.spelling.toList ++ '.' :: (name.toList ++ rest), place⟩ with ⟨r, d⟩
  have hnext := Scanner.next_of_read (Token.exists_spelling ht) hread start
  rw [Token.read_number hbegins] at hread
  cases hts with
  | done hdone =>
    cases hnext.symm.trans hdone
    obtain ⟨hu, -⟩ := readNumber_ok hread
    cases hu
  | step hstep _ hus =>
    cases hnext.symm.trans hstep
    have hu := (readNumber_ok hread).1
    rw [hspelling] at hread
    have hname : isName (String.ofList name.toList) = true := by rwa [String.ofList_toList]
    exact ⟨_, _, _, rfl, hu, rest_of_readNumber_dot ha hname hrest hread, hus⟩

end

end DocQuery
