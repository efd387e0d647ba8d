import DocQuery.Text.CharClass

/-!
# Classes of characters apart from each other

* `takeWhile_run`, `dropWhile_run`: where a run of characters with a property ends.
* `not_continuesName_of_isBlank`, `not_isDigit_of_beginsName`: no character is in both classes.
* `ne_of_class`: a character of a class is none that the class leaves out.
-/

namespace DocQuery.Text

/-! ## Runs -/

section

variable {p : Char → Bool} {run rest : List Char}

/-- A run ends before the first character without the property. -/
theorem takeWhile_run (hrun : ∀ c ∈ run, p c) (hrest : ∀ c ∈ rest.head?, p c = false) :
    (run ++ rest).takeWhile p = run := by
  rw [List.takeWhile_append_of_pos hrun]
  cases rest with
  | nil => exact List.append_nil run
  | cons c rest => rw [List.takeWhile_cons_of_neg (by simp [hrest c rfl]), List.append_nil]

theorem dropWhile_run (hrun : ∀ c ∈ run, p c) (hrest : ∀ c ∈ rest.head?, p c = false) :
    (run ++ rest).dropWhile p = rest := by
  rw [List.dropWhile_append_of_pos hrun]
  cases rest with
  | nil => rfl
  | cons c rest => rw [List.dropWhile_cons_of_neg (by simp [hrest c rfl])]

end

theorem all_takeWhile (p : Char → Bool) (cs : List Char) : ∀ c ∈ cs.takeWhile p, p c := by
  intro c hc
  have := List.all_takeWhile (p := p) (l := cs)
  exact List.all_eq_true.mp this c hc

/-! ## Classes -/

/-- A character that has a property is none that lacks it. -/
theorem ne_of_class {p : Char → Bool} {c d : Char} (hc : p c = true) (hd : p d = false) : c ≠ d := by
  rintro rfl
  rw [hc] at hd
  cases hd

theorem exists_of_inRanges {n : Nat} {ranges : List (Nat × Nat)} (h : inRanges n ranges = true) :
    ∃ r ∈ ranges, r.1 ≤ n ∧ n ≤ r.2 := by
  induction ranges with
  | nil => cases h
  | cons r ranges ih =>
    unfold inRanges at h
    split at h
    · cases h
    · split at h
      · exact ⟨r, List.mem_cons_self, by omega, by omega⟩
      · obtain ⟨r', hr', hn⟩ := ih h
        exact ⟨r', List.mem_cons_of_mem _ hr', hn⟩

/-- The code points of the blanks. -/
private def blankPoints : List Nat :=
  blankRanges.flatMap fun r => List.range' r.1 (r.2 + 1 - r.1)

private theorem mem_blankPoints {n : Nat} (h : inRanges n blankRanges = true) : n ∈ blankPoints := by
  obtain ⟨r, hr, hn⟩ := exists_of_inRanges h
  exact List.mem_flatMap.mpr ⟨r, hr, List.mem_range'_1.mpr ⟨hn.1, by omega⟩⟩

private theorem blankPoints_apart : ∀ n ∈ blankPoints,
    inRanges n letterRanges = false ∧ inRanges n numeralRanges = false ∧ n ≠ '_'.toNat := by
  decide +kernel

/-- Blanks separate names. -/
theorem not_continuesName_of_isBlank {c : Char} (h : isBlank c = true) : continuesName c = false := by
  obtain ⟨h₁, h₂, h₃⟩ := blankPoints_apart _ (mem_blankPoints h)
  have : c ≠ '_' := fun hc => h₃ (congrArg Char.toNat hc)
  simp [continuesName, isLetterOrNumeral, isLetter, isNumeral, h₁, h₂, this]

theorem continuesName_of_beginsName {c : Char} (h : beginsName c = true) : continuesName c = true := by
  unfold beginsName at h
  unfold continuesName isLetterOrNumeral
  rw [Bool.or_eq_true] at h ⊢
  exact h.imp_left fun hl => by rw [hl, Bool.true_or]

theorem not_isBlank_of_continuesName {c : Char} (h : continuesName c = true) : isBlank c = false := by
  refine Bool.eq_false_iff.mpr fun hb => ?_
  rw [not_continuesName_of_isBlank hb] at h
  cases h

/-! ## Digits -/

private theorem digitPoints_class : ∀ n < 10, inRanges (48 + n) numeralRanges = true ∧
    inRanges (48 + n) letterRanges = false := by
  decide +kernel

theorem isDigit_iff (c : Char) : isDigit c = true ↔ 48 ≤ c.toNat ∧ c.toNat ≤ 57 := by
  unfold isDigit
  rw [Bool.and_eq_true, decide_eq_true_eq, decide_eq_true_eq]
  exact Iff.rfl

private theorem class_of_isDigit {c : Char} (h : isDigit c = true) :
    isNumeral c = true ∧ isLetter c = false := by
  obtain ⟨hlow, hhigh⟩ := (isDigit_iff c).mp h
  have := digitPoints_class (c.toNat - 48) (by omega)
  rwa [show 48 + (c.toNat - 48) = c.toNat by omega] at this

theorem continuesName_of_isDigit {c : Char} (h : isDigit c = true) : continuesName c = true := by
  rw [continuesName, isLetterOrNumeral, (class_of_isDigit h).1, Bool.or_true, Bool.true_or]

theorem not_isDigit_of_beginsName {c : Char} (h : beginsName c = true) : isDigit c = false := by
  refine Bool.eq_false_iff.mpr fun hd => ?_
  rw [beginsName, (class_of_isDigit hd).2, Bool.false_or, beq_iff_eq] at h
  rw [h] at hd
  exact absurd hd (by decide)

end DocQuery.Text
