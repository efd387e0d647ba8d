import Mathlib.Tactic.FieldSimp
import DocQuery.Proofs.Token.Places

/-!
# The texts of numbers

* `NumberText cs q`: the characters `cs` spell the number `q`, as digits that may have a point among
  or before them, and an exponent.
* `IsDoubleText`: the texts that can be read as doubles. Texts of numbers are among them.
* `Longest`: the longest of the texts at the start of others.
* `Numeral.scan_longest`: what `Numeral.scan` takes is the longest text of a number, with its value.
-/

namespace DocQuery

open Text

/-! ## Texts -/

/-- Digits, one at least. -/
def IsDigits (cs : List Char) : Prop := cs ≠ [] ∧ ∀ c ∈ cs, isDigit c = true

/-- The number before an exponent. -/
inductive Mantissa : List Char → ℚ → Prop where
  | whole {ds} (hds : IsDigits ds) : Mantissa ds (digitsValue 0 ds)
  | point {ds fs} (hds : IsDigits ds) (hfs : ∀ c ∈ fs, isDigit c = true) :
    Mantissa (ds ++ '.' :: fs) (digitsValue 0 ds + digitsValue 0 fs / 10 ^ fs.length)
  | fraction {fs} (hfs : IsDigits fs) : Mantissa ('.' :: fs) (digitsValue 0 fs / 10 ^ fs.length)

/-- The exponent of ten, which is zero where there is no exponent. -/
inductive TenPower : List Char → Int → Prop where
  | none : TenPower [] 0
  | plain {mark ds} (hmark : mark = 'e' ∨ mark = 'E') (hds : IsDigits ds) :
    TenPower (mark :: ds) (digitsValue 0 ds)
  | plus {mark ds} (hmark : mark = 'e' ∨ mark = 'E') (hds : IsDigits ds) :
    TenPower (mark :: '+' :: ds) (digitsValue 0 ds)
  | minus {mark ds} (hmark : mark = 'e' ∨ mark = 'E') (hds : IsDigits ds) :
    TenPower (mark :: '-' :: ds) (-(digitsValue 0 ds : Int))

/-- The characters `cs` spell the number `q`. -/
def NumberText (cs : List Char) (q : ℚ) : Prop :=
  ∃ ms v xs k, Mantissa ms v ∧ TenPower xs k ∧ cs = ms ++ xs ∧ q = v * (10 : ℚ) ^ k

/-- The characters can be read as a double: a sign or none, digits on one side of a point at least or
without a point, an exponent or none. -/
def IsDoubleText (cs : List Char) : Prop :=
  ∃ sign ms xs k, (sign = [] ∨ sign = ['+'] ∨ sign = ['-']) ∧
    (IsDigits ms ∨ ∃ ds fs, ms = ds ++ '.' :: fs ∧
      (IsDigits ds ∧ (∀ c ∈ fs, isDigit c = true) ∨ (∀ c ∈ ds, isDigit c = true) ∧ IsDigits fs)) ∧
    TenPower xs k ∧ cs = sign ++ ms ++ xs

theorem NumberText.isDoubleText {cs : List Char} {q : ℚ} (h : NumberText cs q) : IsDoubleText cs := by
  obtain ⟨ms, v, xs, k, hms, hxs, rfl, -⟩ := h
  refine ⟨[], ms, xs, k, .inl rfl, ?_, hxs, rfl⟩
  cases hms with
  | whole hds => exact .inl hds
  | point hds hfs => exact .inr ⟨_, _, rfl, .inl ⟨hds, hfs⟩⟩
  | fraction hfs => exact .inr ⟨[], _, rfl, .inr ⟨by simp, hfs⟩⟩

/-- The characters `cs` are at the start of `text` and spell `v`, and all others there that spell
anything are fewer. -/
def Longest {α : Type} (Spells : List Char → α → Prop) (text cs : List Char) (v : α) : Prop :=
  cs <+: text ∧ Spells cs v ∧
    ∀ ds w, ds <+: text → Spells ds w → ds.length < cs.length ∨ ds = cs ∧ w = v

/-! ## Exponents -/

/-- The characters of an exponent that may be missing. -/
def Exponent.optionChars (e? : Option Exponent) : List Char := (e?.map chars).getD []

def Exponent.optionValue (e? : Option Exponent) : Int := (e?.map value).getD 0

section

variable {ds xs cs tail : List Char} {k : Int}

theorem TenPower.nil_or_mark (h : TenPower xs k) : xs = [] ∨ ∃ mark xs', xs = mark :: xs' ∧
    (mark = 'e' ∨ mark = 'E') := by
  cases h with
  | none => exact .inl rfl
  | plain hmark | plus hmark | minus hmark => exact .inr ⟨_, _, rfl, hmark⟩

theorem not_isDigit_mark {mark : Char} (h : mark = 'e' ∨ mark = 'E') : isDigit mark = false := by
  rcases h with rfl | rfl <;> decide

/-- An exponent goes on to the end of its digits. -/
theorem Exponent.scan?_digits {mark : Char} {sign? : Option Char} (hmark : mark = 'e' ∨ mark = 'E')
    (hsign : sign? = none ∨ sign? = some '+' ∨ sign? = some '-') (hds : IsDigits ds) :
    Exponent.scan? (mark :: (sign?.toList ++ (ds ++ tail))) =
      some ⟨mark, sign?, ds ++ tail.takeWhile isDigit⟩ := by
  have hmark : (mark = 'e' || mark = 'E') = true := by simpa using hmark
  have hrun : (ds ++ tail).takeWhile isDigit = ds ++ tail.takeWhile isDigit :=
    List.takeWhile_append_of_pos hds.2
  obtain ⟨d, ds', rfl⟩ := List.exists_cons_of_ne_nil hds.1
  have hd := hds.2 d List.mem_cons_self
  rcases hsign with rfl | rfl | rfl
  · have hplus : d ≠ '+' := ne_of_class hd (by decide)
    have hminus : d ≠ '-' := ne_of_class hd (by decide)
    simp only [scan?, Option.toList_none, List.nil_append, List.cons_append] at hrun ⊢
    simp [hmark, hplus, hminus, hrun]
  · simp only [scan?, Option.toList_some, List.cons_append, List.nil_append] at hrun ⊢
    rw [if_pos hmark, hrun]
  · simp only [scan?, Option.toList_some, List.cons_append, List.nil_append] at hrun ⊢
    rw [if_pos hmark, hrun]

/-- Only digits can go on behind an exponent. -/
theorem TenPower.exists_run (h : TenPower xs k) (tail : List Char) : xs = [] ∨ ∃ e,
    Exponent.scan? (xs ++ tail) = some e ∧ e.chars = xs ++ tail.takeWhile isDigit ∧
      (tail.takeWhile isDigit = [] → e.value = k) := by
  cases h with
  | none => exact .inl rfl
  | plain hmark hds =>
    refine .inr ⟨_, Exponent.scan?_digits hmark (.inl rfl) hds, rfl, fun hnil => ?_⟩
    rw [hnil, List.append_nil]
    rfl
  | plus hmark hds =>
    refine .inr ⟨_, Exponent.scan?_digits hmark (.inr (.inl rfl)) hds, rfl, fun hnil => ?_⟩
    rw [hnil, List.append_nil]
    rfl
  | minus hmark hds =>
    refine .inr ⟨_, Exponent.scan?_digits hmark (.inr (.inr rfl)) hds, rfl, fun hnil => ?_⟩
    rw [hnil, List.append_nil]
    rfl

/-- What is scanned as an exponent is one. -/
theorem Exponent.tenPower_of_scan? {e : Exponent} (h : Exponent.scan? cs = some e) :
    TenPower e.chars e.value := by
  unfold scan? at h
  split at h
  · split at h
    · rename_i mark rest hmark
      have hmark : mark = 'e' ∨ mark = 'E' := by simpa using hmark
      simp only [] at h
      split at h
      · cases h
      · rename_i hne
        cases h
        have hds := all_takeWhile isDigit
        split at hne
        · exact .plus hmark ⟨hne, hds _⟩
        · exact .minus hmark ⟨hne, hds _⟩
        · exact .plain hmark ⟨hne, hds _⟩
    · cases h
  · cases h

theorem Exponent.scan?_longest (cs : List Char) :
    Longest TenPower cs (optionChars (scan? cs)) (optionValue (scan? cs)) := by
  refine ⟨?_, ?_, fun xs k hpre hxs => ?_⟩
  · cases hscan : scan? cs with
    | none => exact List.nil_prefix
    | some e => exact chars_of_scan? hscan
  · cases hscan : scan? cs with
    | none => exact .none
    | some e => exact tenPower_of_scan? hscan
  · obtain ⟨tail, rfl⟩ := hpre
    rcases hxs.exists_run tail with rfl | ⟨e, hscan, hchars, hvalue⟩
    · cases hscan : scan? ([] ++ tail) with
      | none =>
        cases hxs
        exact .inr ⟨rfl, rfl⟩
      | some e => exact .inl (Nat.succ_pos _)
    · rw [hscan]
      by_cases hnil : tail.takeWhile isDigit = []
      · right
        rw [hnil, List.append_nil] at hchars
        exact ⟨hchars.symm, (hvalue hnil).symm⟩
      · left
        show xs.length < e.chars.length
        rw [hchars, List.length_append]
        have := List.length_pos_iff.mpr hnil
        omega

/-! ## Digits and an exponent -/

/-- Digits with an exponent behind them are no more than all digits and the exponent there. -/
theorem digits_exponent_le (hds : ∀ c ∈ ds, isDigit c = true) (hxs : TenPower xs k)
    (hpre : ds ++ xs <+: cs) :
    (ds ++ xs).length < (cs.takeWhile isDigit ++
        Exponent.optionChars (Exponent.scan? (cs.dropWhile isDigit))).length ∨
      ds = cs.takeWhile isDigit ∧ xs = Exponent.optionChars (Exponent.scan? (cs.dropWhile isDigit)) ∧
        k = Exponent.optionValue (Exponent.scan? (cs.dropWhile isDigit)) := by
  obtain ⟨tail, rfl⟩ := hpre
  rw [List.append_assoc, List.takeWhile_append_of_pos hds, List.dropWhile_append_of_pos hds]
  by_cases hrun : (xs ++ tail).takeWhile isDigit = []
  · have hdrop : (xs ++ tail).dropWhile isDigit = xs ++ tail := by
      have := List.takeWhile_append_dropWhile (p := isDigit) (l := xs ++ tail)
      rwa [hrun, List.nil_append] at this
    rw [hrun, hdrop, List.append_nil, List.length_append, List.length_append]
    rcases (Exponent.scan?_longest (xs ++ tail)).2.2 xs k (List.prefix_append _ _) hxs with hlt | heq
    · left
      omega
    · exact .inr ⟨rfl, heq⟩
  -- More digits follow, so there is no exponent yet.
  · left
    rcases hxs.nil_or_mark with rfl | ⟨mark, xs', rfl, hmark⟩
    · have := List.length_pos_iff.mpr hrun
      simp only [List.length_append, List.length_nil]
      omega
    · rw [List.cons_append, List.takeWhile_cons_of_neg (by simp [not_isDigit_mark hmark])] at hrun
      exact absurd rfl hrun

end

/-! ## Numerals -/

theorem digitsValue_add (n : Nat) (ds : List Char) :
    digitsValue n ds = n * 10 ^ ds.length + digitsValue 0 ds := by
  induction ds generalizing n with
  | nil => simp [digitsValue]
  | cons d ds ih =>
    have hn : digitsValue n (d :: ds) = digitsValue (10 * n + digitValue d) ds := rfl
    have hzero : digitsValue 0 (d :: ds) = digitsValue (10 * 0 + digitValue d) ds := rfl
    rw [hn, hzero, ih, ih (10 * 0 + digitValue d), List.length_cons]
    ring

namespace Numeral

/-- What a numeral is worth. -/
def value (n : Numeral) : ℚ := n.coefficient * (10 : ℚ) ^ n.power

section

variable (ws fs : List Char) (e? : Option Exponent)

theorem chars_point : (⟨ws, some fs, e?⟩ : Numeral).chars =
    ws ++ '.' :: (fs ++ Exponent.optionChars e?) := by
  cases e? <;> simp [chars, Exponent.optionChars]

theorem chars_plain : (⟨ws, none, e?⟩ : Numeral).chars = ws ++ Exponent.optionChars e? := by
  cases e? <;> simp [chars, Exponent.optionChars]

theorem value_point : (⟨ws, some fs, e?⟩ : Numeral).value =
    (digitsValue 0 ws + digitsValue 0 fs / 10 ^ fs.length) * (10 : ℚ) ^ Exponent.optionValue e? := by
  have hpower : (⟨ws, some fs, e?⟩ : Numeral).power = Exponent.optionValue e? - fs.length := by
    cases e? <;> rfl
  rw [value, hpower, coefficient, Option.getD_some, digitsValue_add, zpow_sub₀ (by norm_num),
    zpow_natCast]
  push_cast
  field_simp

theorem value_plain : (⟨ws, none, e?⟩ : Numeral).value =
    digitsValue 0 ws * (10 : ℚ) ^ Exponent.optionValue e? := by
  have hpower : (⟨ws, none, e?⟩ : Numeral).power = Exponent.optionValue e? := by
    cases e? <;> simp [power, Exponent.optionValue]
  rw [value, hpower]
  rfl

end

/-- A numeral goes on behind the digits with a point, or it does not. -/
theorem scan_cases (text : List Char) :
    (∃ rest, text.dropWhile isDigit = '.' :: rest ∧ scan text = ⟨text.takeWhile isDigit,
      some (rest.takeWhile isDigit), Exponent.scan? (rest.dropWhile isDigit)⟩) ∨
    (∀ rest, text.dropWhile isDigit ≠ '.' :: rest) ∧ scan text =
      ⟨text.takeWhile isDigit, none, Exponent.scan? (text.dropWhile isDigit)⟩ := by
  unfold scan
  split
  · exact .inl ⟨_, ‹_›, rfl⟩
  · rename_i hdot
    exact .inr ⟨fun rest hrest => hdot rest hrest, rfl⟩

theorem begins_cases {text : List Char} (h : beginsNumber text = true) :
    ∃ c cs, isDigit c = true ∧ (text = c :: cs ∨ text = '.' :: c :: cs) := by
  unfold beginsNumber at h
  split at h
  · exact ⟨_, _, h, .inr rfl⟩
  · exact ⟨_, _, h, .inl rfl⟩
  · cases h

theorem numberText_scan {text : List Char} (h : beginsNumber text = true) :
    NumberText (scan text).chars (scan text).value := by
  obtain ⟨c, cs, hc, htext⟩ := begins_cases h
  have hws := all_takeWhile isDigit text
  rcases scan_cases text with ⟨rest, hrest, hscan⟩ | ⟨hdot, hscan⟩
  · have hfs := all_takeWhile isDigit rest
    have hxs := (Exponent.scan?_longest (rest.dropWhile isDigit)).2.1
    rw [hscan, chars_point, value_point]
    by_cases hne : text.takeWhile isDigit = []
    · have hfraction : rest.takeWhile isDigit ≠ [] := by
        rcases htext with rfl | rfl
        · rw [List.takeWhile_cons_of_pos hc] at hne
          cases hne
        · rw [List.dropWhile_cons_of_neg (by decide)] at hrest
          cases hrest
          rw [List.takeWhile_cons_of_pos hc]
          exact List.cons_ne_nil _ _
      rw [hne, List.nil_append]
      refine ⟨_, _, _, _, .fraction ⟨hfraction, hfs⟩, hxs, rfl, ?_⟩
      simp [digitsValue]
    · exact ⟨_, _, _, _, .point ⟨hne, hws⟩ hfs, hxs, by simp, rfl⟩
  · have hne : text.takeWhile isDigit ≠ [] := by
      rcases htext with rfl | rfl
      · rw [List.takeWhile_cons_of_pos hc]
        exact List.cons_ne_nil _ _
      · exact absurd (List.dropWhile_cons_of_neg (by decide)) (hdot (c :: cs))
    rw [hscan, chars_plain, value_plain]
    exact ⟨_, _, _, _, .whole ⟨hne, hws⟩, (Exponent.scan?_longest _).2.1, rfl, rfl⟩

section

variable {ws fs xs text : List Char} {k : Int}

/-- Digits and a point are scanned as they stand, and the rest like digits and an exponent. -/
theorem point_le_scan (hws : ∀ c ∈ ws, isDigit c = true) (hfs : ∀ c ∈ fs, isDigit c = true)
    (hxs : TenPower xs k) (hpre : ws ++ '.' :: (fs ++ xs) <+: text) :
    (ws ++ '.' :: (fs ++ xs)).length < (scan text).chars.length ∨
      ws ++ '.' :: (fs ++ xs) = (scan text).chars ∧
        (digitsValue 0 ws + digitsValue 0 fs / 10 ^ fs.length) * (10 : ℚ) ^ k = (scan text).value := by
  obtain ⟨tail, rfl⟩ := hpre
  have hdot : ∀ c ∈ ('.' :: (fs ++ xs ++ tail)).head?, isDigit c = false := by
    rintro _ ⟨⟩
    decide
  have hsplit : ws ++ '.' :: (fs ++ xs) ++ tail = ws ++ '.' :: (fs ++ xs ++ tail) := by simp
  have htake := takeWhile_run hws hdot
  have hdrop := dropWhile_run hws hdot
  rw [hsplit]
  rcases scan_cases (ws ++ '.' :: (fs ++ xs ++ tail)) with ⟨rest, hrest, hscan⟩ | ⟨hnot, -⟩
  · rw [hdrop] at hrest
    obtain ⟨-, rfl⟩ := List.cons.inj hrest
    rw [hscan, htake, chars_point, value_point]
    rcases digits_exponent_le hfs hxs (List.prefix_append (fs ++ xs) tail) with hlt | ⟨hf, hx, hk⟩
    · left
      simp only [List.length_append, List.length_cons] at hlt ⊢
      omega
    · right
      rw [← hf, ← hx, ← hk]
      exact ⟨rfl, rfl⟩
  · exact absurd hdrop (hnot _)

theorem whole_le_scan (hws : IsDigits ws) (hxs : TenPower xs k) (hpre : ws ++ xs <+: text) :
    (ws ++ xs).length < (scan text).chars.length ∨
      ws ++ xs = (scan text).chars ∧ digitsValue 0 ws * (10 : ℚ) ^ k = (scan text).value := by
  have hle := digits_exponent_le hws.2 hxs hpre
  rcases scan_cases text with ⟨rest, hrest, hscan⟩ | ⟨-, hscan⟩
  -- No exponent begins with the point.
  · have hnone : Exponent.scan? ('.' :: rest) = none := Exponent.scan?_none (by
      rintro _ ⟨⟩
      decide)
    rw [hrest, hnone] at hle
    left
    rw [hscan, chars_point]
    simp only [Exponent.optionChars, Option.map_none, Option.getD_none, List.append_nil] at hle
    simp only [List.length_append, List.length_cons]
    rcases hle with hlt | ⟨hw, hx, -⟩
    · rw [List.length_append] at hlt
      omega
    · rw [← hw, hx, List.length_nil]
      omega
  · rw [hscan, chars_plain, value_plain]
    rcases hle with hlt | ⟨hw, hx, hk⟩
    · exact .inl hlt
    · right
      rw [← hw, ← hx, ← hk]
      exact ⟨rfl, rfl⟩

end

/-- What is scanned is the longest text of a number. -/
theorem scan_longest {text : List Char} (h : beginsNumber text = true) :
    Longest NumberText text (scan text).chars (scan text).value := by
  refine ⟨ chars_scan_prefix text, numberText_scan h, ?_⟩
  rintro _ _ hpre ⟨ms, v, xs, k, hms, hxs, rfl, rfl⟩
  cases hms with
  | whole hds => exact whole_le_scan hds hxs hpre
  | point hds hfs =>
    rw [List.append_assoc, List.cons_append] at hpre ⊢
    exact point_le_scan hds.2 hfs hxs hpre
  | fraction hfs =>
    have hnone : ∀ c ∈ ([] : List Char), isDigit c = true := by simp
    have hle := point_le_scan hnone hfs.2 hxs hpre
    rwa [digitsValue, List.foldl_nil, Nat.cast_zero, zero_add] at hle

end Numeral

end DocQuery
