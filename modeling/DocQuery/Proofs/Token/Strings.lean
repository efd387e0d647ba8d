import Mathlib.Data.List.Forall2
import Mathlib.Data.Nat.Digits.Defs
import DocQuery.Proofs.Token.Stream

/-!
# The spellings of a string

Between its quotes each character of a string has several spellings: itself, an escape of one
letter, or its UTF-16 units in hexadecimal digits.

* `Denotes quote cs c`: the characters `cs` spell the character `c` between two quotes `quote`.
* `StringBody quote cs value`: the characters `cs` spell the characters `value`, one after the other.
* `NoEscape`: what begins with a backslash and spells nothing. `exists_body` divides every text
  behind a quote: a body, and behind it the other quote, the end of the text, or no escape.
* `Scanner.next_string`: the tokens that are strings are the bodies between two quotes, and the
  other ends of a body are errors.
-/

namespace DocQuery

open Text

namespace Escape

/-! ## Hexadecimal digits -/

/-- The character `c` is the hexadecimal digit of the value `v`, in either case. -/
def IsHexDigit (v : Nat) (c : Char) : Prop :=
  v < 16 ∧ (c = v.digitChar ∨ c = v.digitChar.toUpper)

instance (v : Nat) (c : Char) : Decidable (IsHexDigit v c) := inferInstanceAs (Decidable (_ ∧ _))

private theorem isHexDigit_points : ∀ k < 128, ∀ v ∈ hexDigit? (Char.ofNat k),
    IsHexDigit v (Char.ofNat k) := by
  decide +kernel

private theorem hexDigit?_values : ∀ v < 16, hexDigit? v.digitChar = some v ∧
    hexDigit? v.digitChar.toUpper = some v := by
  decide +kernel

theorem lt_of_hexDigit? {c : Char} {v : Nat} (h : hexDigit? c = some v) : c.toNat < 128 := by
  unfold hexDigit? at h
  split at h
  · have := (isDigit_iff c).mp ‹_›
    omega
  · split at h
    · have : c.toNat ≤ 102 := of_decide_eq_true (Bool.and_eq_true_iff.mp ‹_›).2
      omega
    · split at h
      · have : c.toNat ≤ 70 := of_decide_eq_true (Bool.and_eq_true_iff.mp ‹_›).2
        omega
      · cases h

theorem hexDigit?_eq_some {c : Char} {v : Nat} : hexDigit? c = some v ↔ IsHexDigit v c := by
  constructor
  · intro h
    have hdigit := isHexDigit_points c.toNat (lt_of_hexDigit? h) v (by rwa [Char.ofNat_toNat])
    rwa [Char.ofNat_toNat] at hdigit
  · rintro ⟨hv, rfl | rfl⟩
    · exact (hexDigit?_values v hv).1
    · exact (hexDigit?_values v hv).2

/-- Four hexadecimal digits, in either case, of the number `n`. -/
def Digits (n : Nat) (ds : List Char) : Prop :=
  ds.length = 4 ∧ ∃ vs, List.Forall₂ IsHexDigit vs ds ∧ Nat.ofDigits 16 vs.reverse = n

section

variable {n m : Nat} {vs : List Nat} {ds es rest : List Char} {c d : Cursor} {p : Position}

theorem ofDigits_lt (h : List.Forall₂ IsHexDigit vs ds) :
    Nat.ofDigits 16 vs.reverse < 16 ^ ds.length := by
  have hsmall : ∀ v ∈ vs.reverse, v < 16 := by
    intro v hv
    obtain ⟨i, hi, rfl⟩ := List.getElem_of_mem (List.mem_reverse.mp hv)
    exact (h.get hi (by have := h.length_eq; omega)).1
  have hbound := Nat.ofDigits_lt_base_pow_length (by decide) hsmall
  rwa [List.length_reverse, h.length_eq] at hbound

theorem Digits.lt (h : Digits n ds) : n < 0x10000 := by
  obtain ⟨hlength, vs, hvs, rfl⟩ := h
  have hbound := ofDigits_lt hvs
  rwa [hlength] at hbound

/-- Digits are read one after the other, the first as the most significant. -/
theorem digits_append (h : List.Forall₂ IsHexDigit vs ds) (n : Nat) (rest : List Char)
    (p : Position) : digits ds.length n ⟨ds ++ rest, p⟩ =
      (some (n * 16 ^ ds.length + Nat.ofDigits 16 vs.reverse), ⟨rest, p.after ds⟩) := by
  induction h generalizing n p with
  | nil => simp [digits]
  | @cons v c vs ds hdigit hrest ih =>
    have hread : digits (ds.length + 1) n ⟨c :: ds ++ rest, p⟩ =
        digits ds.length (16 * n + v) ⟨ds ++ rest, p.step c⟩ := by
      simp [digits, hexDigit?_eq_some.mpr hdigit, Cursor.next]
    rw [List.length_cons, hread, ih, Nat.ofDigits_reverse_cons, hrest.length_eq,
      Position.after_cons]
    congr 2
    ring

/-- What is read as digits begins with digits. -/
theorem exists_of_digits {count : Nat} (h : digits count n c = (some m, d)) :
    ∃ vs ds, List.Forall₂ IsHexDigit vs ds ∧ ds.length = count ∧ ds <+: c.rest := by
  induction count generalizing n c with
  | zero => exact ⟨[], [], .nil, rfl, List.nil_prefix⟩
  | succ count ih =>
    rw [digits] at h
    split at h
    · rename_i v hv
      obtain ⟨ch, hch, hdigit⟩ := Option.bind_eq_some_iff.mp hv
      obtain ⟨vs, ds, hvs, hlength, rest, hrest⟩ := ih h
      obtain ⟨cs, hcs⟩ : ∃ cs, c.rest = ch :: cs := List.head?_eq_some_iff.mp hch
      have hnext : c.next.rest = cs := by rw [Cursor.next, hcs]
      refine ⟨v :: vs, ch :: ds, .cons (hexDigit?_eq_some.mp hdigit) hvs, ?_, rest, ?_⟩
      · rw [List.length_cons, hlength]
      · rw [hcs, List.cons_append, hrest, hnext]
    · cases h

theorem digits_four (h : Digits n ds) :
    digits 4 0 ⟨ds ++ rest, p⟩ = (some n, ⟨rest, p.after ds⟩) := by
  obtain ⟨hlength, vs, hvs, rfl⟩ := h
  have hread := digits_append hvs 0 rest p
  rwa [hlength, Nat.zero_mul, Nat.zero_add] at hread

/-- Without four digits there is no number. -/
theorem digits_eq_none (h : ∀ n ds, Digits n ds → ¬ ds <+: c.rest) :
    ∃ d, digits 4 0 c = (none, d) := by
  match hread : digits 4 0 c with
  | (none, d) => exact ⟨d, rfl⟩
  | (some n, d) =>
    obtain ⟨vs, ds, hvs, hlength, hprefix⟩ := exists_of_digits hread
    exact absurd hprefix (h _ ds ⟨hlength, vs, hvs, rfl⟩)

end

/-! ## Spellings of a character -/

/-- The letters that make an escape of two characters, with the characters these stand for. -/
def shortForms : List (Char × Char) := [
  ('n', '\n'), ('t', '\t'), ('r', '\r'), ('b', '\x08'), ('f', '\x0c'), ('"', '"'), ('\'', '\''),
  ('\\', '\\'), ('/', '/')]

theorem short?_eq_some {letter c : Char} : short? letter = some c ↔ (letter, c) ∈ shortForms := by
  constructor
  · intro h
    unfold short? at h
    split at h <;> cases h <;> decide
  · intro h
    simp only [shortForms, List.mem_cons, Prod.mk.injEq, List.not_mem_nil, or_false] at h
    rcases h with ⟨rfl, rfl⟩ | ⟨rfl, rfl⟩ | ⟨rfl, rfl⟩ | ⟨rfl, rfl⟩ | ⟨rfl, rfl⟩ | ⟨rfl, rfl⟩ |
      ⟨rfl, rfl⟩ | ⟨rfl, rfl⟩ | ⟨rfl, rfl⟩ <;> rfl

/-- The characters `cs` spell the character `c` between two quotes `quote`: they are the character,
an escape of one letter, its code point in digits, or the two UTF-16 units of a code point that
needs two. -/
inductive Denotes (quote : Char) : List Char → Char → Prop where
  | raw {c : Char} (hquote : c ≠ quote) (hslash : c ≠ '\\') : Denotes quote [c] c
  | short {letter c : Char} (h : (letter, c) ∈ shortForms) : Denotes quote ['\\', letter] c
  | unit {c : Char} {ds : List Char} (h : Digits c.toNat ds) : Denotes quote ('\\' :: 'u' :: ds) c
  | pair {c : Char} {ds es : List Char} (hc : 0x10000 ≤ c.toNat)
      (hhigh : Digits (0xD800 + (c.toNat - 0x10000) / 0x400) ds)
      (hlow : Digits (0xDC00 + (c.toNat - 0x10000) % 0x400) es) :
      Denotes quote ('\\' :: 'u' :: (ds ++ '\\' :: 'u' :: es)) c

/-- What begins with a backslash and another character, and spells no character: an unknown letter,
less than four digits, the second half of a pair, or a first half without a second. -/
inductive NoEscape : List Char → Prop where
  | letter {letter : Char} {rest : List Char} (hu : letter ≠ 'u')
      (h : ∀ c, (letter, c) ∉ shortForms) : NoEscape ('\\' :: letter :: rest)
  | digits {rest : List Char} (h : ∀ n ds, Digits n ds → ¬ ds <+: rest) :
      NoEscape ('\\' :: 'u' :: rest)
  | second {n : Nat} {ds rest : List Char} (h : Digits n ds) (hlow : 0xDC00 ≤ n ∧ n < 0xE000) :
      NoEscape ('\\' :: 'u' :: (ds ++ rest))
  | first {n : Nat} {ds rest : List Char} (h : Digits n ds) (hhigh : 0xD800 ≤ n ∧ n < 0xDC00)
      (hrest : ∀ m es, Digits m es → 0xDC00 ≤ m → m < 0xE000 → ¬ '\\' :: 'u' :: es <+: rest) :
      NoEscape ('\\' :: 'u' :: (ds ++ rest))

section

variable {quote letter c : Char} {ds es cs rest : List Char} {opening p : Position} {n m : Nat}

theorem toNat_cases (c : Char) : c.toNat < 0xD800 ∨ 0xDFFF < c.toNat ∧ c.toNat < 0x110000 := c.valid

theorem toNat_ofNat {n : Nat} (h : n < 0xD800 ∨ 0xDFFF < n ∧ n < 0x110000) :
    (Char.ofNat n).toNat = n := by
  rw [Char.ofNat, dif_pos (show n.isValidChar from h)]
  rfl

@[simp] theorem isHighSurrogate_iff : isHighSurrogate n = true ↔ 0xD800 ≤ n ∧ n < 0xDC00 := by
  simp [isHighSurrogate]

@[simp] theorem isLowSurrogate_iff : isLowSurrogate n = true ↔ 0xDC00 ≤ n ∧ n < 0xE000 := by
  simp [isLowSurrogate]

theorem unicode_unit (h : Digits c.toNat ds) :
    unicode ⟨ds ++ rest, p⟩ = (some c, ⟨rest, p.after ds⟩) := by
  have hc := toNat_cases c
  have hhigh : ¬ isHighSurrogate c.toNat = true := by
    rw [isHighSurrogate_iff]
    omega
  have hlow : ¬ isLowSurrogate c.toNat = true := by
    rw [isLowSurrogate_iff]
    omega
  rw [unicode, digits_four h]
  simp only [if_neg hhigh, if_neg hlow, Char.ofNat_toNat]

/-- A first half is read on with what follows it. -/
theorem unicode_first (h : Digits n ds) (hhigh : 0xD800 ≤ n ∧ n < 0xDC00) :
    unicode ⟨ds ++ '\\' :: 'u' :: rest, p⟩ =
      match digits 4 0 ⟨rest, p.after (ds ++ ['\\', 'u'])⟩ with
      | (none, e) => (none, e)
      | (some low, e) =>
        if isLowSurrogate low then (some (Char.ofNat (joinSurrogates n low)), e)
        else (none, e) := by
  rw [unicode, digits_four h, Position.after_append]
  simp only [if_pos (isHighSurrogate_iff.mpr hhigh)]
  rfl

theorem unicode_pair (hc : 0x10000 ≤ c.toNat)
    (hfirst : Digits (0xD800 + (c.toNat - 0x10000) / 0x400) ds)
    (hsecond : Digits (0xDC00 + (c.toNat - 0x10000) % 0x400) es) :
    unicode ⟨ds ++ '\\' :: 'u' :: (es ++ rest), p⟩ =
      (some c, ⟨rest, p.after (ds ++ '\\' :: 'u' :: es)⟩) := by
  have hmax := toNat_cases c
  have hlow : isLowSurrogate (0xDC00 + (c.toNat - 0x10000) % 0x400) = true := by
    rw [isLowSurrogate_iff]
    omega
  have hjoin : joinSurrogates (0xD800 + (c.toNat - 0x10000) / 0x400)
      (0xDC00 + (c.toNat - 0x10000) % 0x400) = c.toNat := by
    unfold joinSurrogates
    omega
  have hafter : (p.after (ds ++ ['\\', 'u'])).after es = p.after (ds ++ '\\' :: 'u' :: es) := by
    rw [← Position.after_append, List.append_assoc]
    rfl
  rw [unicode_first hfirst (by omega), digits_four hsecond]
  simp only [if_pos hlow, hjoin, Char.ofNat_toNat, hafter]

theorem read_letter (hu : letter ≠ 'u') : read opening ⟨'\\' :: letter :: rest, p⟩ =
    match short? letter with
    | some c => (.ok c, ⟨rest, p.after ['\\', letter]⟩)
    | none => (.error (.invalidEscape (String.ofList ['\\', letter]) p),
        ⟨letter :: rest, p.step '\\'⟩) := by
  simp only [read, Cursor.next]
  cases short? letter <;> rfl

theorem Denotes.length_pos (h : Denotes quote cs c) : 0 < cs.length := by
  cases h <;> exact Nat.succ_pos _

theorem Denotes.slash_or_raw (h : Denotes quote cs c) :
    (∃ tail, cs = '\\' :: tail) ∨ (cs = [c] ∧ c ≠ quote ∧ c ≠ '\\') := by
  cases h with
  | raw hquote hslash => exact .inr ⟨rfl, hquote, hslash⟩
  | short | unit | pair => exact .inl ⟨_, rfl⟩

/-- What is spelled by a backslash and more is read as an escape. -/
theorem read_of_denotes (h : Denotes quote ('\\' :: cs) c) :
    read opening ⟨'\\' :: cs ++ rest, p⟩ = (.ok c, ⟨rest, p.after ('\\' :: cs)⟩) := by
  generalize hbody : '\\' :: cs = body at h
  cases h with
  | raw hquote hslash =>
    cases hbody
    exact absurd rfl hslash
  | @short letter _ hmem =>
    cases hbody
    have hu : letter ≠ 'u' := by
      rintro rfl
      simp [shortForms] at hmem
    rw [List.cons_append, List.cons_append, List.nil_append, read_letter hu,
      short?_eq_some.mpr hmem]
  | unit hunit =>
    cases hbody
    simp only [read, Cursor.next, List.cons_append, unicode_unit hunit]
    rfl
  | pair hc hfirst hsecond =>
    cases hbody
    simp only [read, Cursor.next, List.cons_append, List.append_assoc,
      unicode_pair hc hfirst hsecond]
    rfl

/-- Four digits and no second half behind a first are no character. -/
theorem exists_of_unicode_first (h : Digits n ds) (hhigh : 0xD800 ≤ n ∧ n < 0xDC00)
    (hrest : ∀ m es, Digits m es → 0xDC00 ≤ m → m < 0xE000 → ¬ '\\' :: 'u' :: es <+: rest) :
    ∃ d, unicode ⟨ds ++ rest, p⟩ = (none, d) := by
  by_cases htwo : rest.take 2 = ['\\', 'u']
  · obtain ⟨tail, rfl⟩ : ∃ tail, rest = '\\' :: 'u' :: tail :=
      ⟨rest.drop 2, by simpa [htwo] using (List.take_append_drop 2 rest).symm⟩
    rw [unicode_first h hhigh]
    by_cases hdigits : ∃ m es, Digits m es ∧ es <+: tail
    · obtain ⟨m, es, hes, tail', rfl⟩ := hdigits
      have hlow : ¬ isLowSurrogate m = true := by
        rw [isLowSurrogate_iff]
        rintro ⟨hm, hm'⟩
        exact hrest m es hes hm hm' ⟨tail', rfl⟩
      exact ⟨_, by rw [digits_four hes]; exact if_neg hlow⟩
    · obtain ⟨d, hd⟩ := digits_eq_none (c := ⟨tail, p.after (ds ++ ['\\', 'u'])⟩)
        fun m es hes hprefix => hdigits ⟨m, es, hes, hprefix⟩
      exact ⟨d, by rw [hd]⟩
  · refine ⟨⟨rest, p.after ds⟩, ?_⟩
    rw [unicode, digits_four h]
    simp only [if_pos (isHighSurrogate_iff.mpr hhigh), if_neg htwo]

/-- What spells no character is an error at its backslash. -/
theorem exists_of_noEscape (h : NoEscape cs) (opening p : Position) : ∃ sequence d,
    read opening ⟨cs, p⟩ = (.error (.invalidEscape sequence p), d) := by
  have hnone {rest : List Char} (hu : ∃ d, unicode ⟨rest, p.after ['\\', 'u']⟩ = (none, d)) :
      ∃ sequence d, read opening ⟨'\\' :: 'u' :: rest, p⟩ =
        (.error (.invalidEscape sequence p), d) := by
    obtain ⟨d, hd⟩ := hu
    refine ⟨String.ofList (Cursor.upTo ⟨'\\' :: 'u' :: rest, p⟩ d), d, ?_⟩
    simp only [read, Cursor.next]
    rw [show (p.step '\\').step 'u' = p.after ['\\', 'u'] from rfl, hd]
  cases h with
  | @letter letter rest hu hletter =>
    have hshort : short? letter = none :=
      Option.eq_none_iff_forall_ne_some.mpr fun c hc => hletter c (short?_eq_some.mp hc)
    exact ⟨_, _, by rw [read_letter hu, hshort]⟩
  | digits hdigits =>
    obtain ⟨d, hd⟩ := digits_eq_none (c := ⟨_, p.after ['\\', 'u']⟩) hdigits
    exact hnone ⟨d, by rw [unicode, hd]⟩
  | @second n ds rest hds hlow =>
    have hhigh : ¬ isHighSurrogate n = true := by
      rw [isHighSurrogate_iff]
      omega
    refine hnone ⟨⟨rest, (p.after ['\\', 'u']).after ds⟩, ?_⟩
    rw [unicode, digits_four hds]
    simp only [if_neg hhigh, if_pos (isLowSurrogate_iff.mpr hlow)]
  | first hds hhigh hrest => exact hnone (exists_of_unicode_first hds hhigh hrest)

/-- Four digits spell the character of their number, if that is no half of a pair. -/
theorem Denotes.of_digits (h : Digits n ds) (hhigh : ¬ (0xD800 ≤ n ∧ n < 0xDC00))
    (hlow : ¬ (0xDC00 ≤ n ∧ n < 0xE000)) : Denotes quote ('\\' :: 'u' :: ds) (Char.ofNat n) := by
  have hn := h.lt
  have hcode := toNat_ofNat (n := n) (by omega)
  exact .unit (by rwa [hcode])

/-- Two halves spell the character that they join to. -/
theorem Denotes.of_halves (hds : Digits n ds) (hn : 0xD800 ≤ n ∧ n < 0xDC00) (hes : Digits m es)
    (hm : 0xDC00 ≤ m ∧ m < 0xE000) :
    Denotes quote ('\\' :: 'u' :: (ds ++ '\\' :: 'u' :: es)) (Char.ofNat (joinSurrogates n m)) := by
  have hjoin : joinSurrogates n m = 0x10000 + (n - 0xD800) * 0x400 + (m - 0xDC00) := rfl
  have hcode := toNat_ofNat (n := joinSurrogates n m) (by omega)
  have hfirst : n = 0xD800 + (joinSurrogates n m - 0x10000) / 0x400 := by omega
  have hsecond : m = 0xDC00 + (joinSurrogates n m - 0x10000) % 0x400 := by omega
  rw [hfirst, ← hcode] at hds
  rw [hsecond, ← hcode] at hes
  exact .pair (by omega) hds hes

/-- An escape in digits spells a character, or nothing. -/
theorem denotes_or_noEscape_digits (quote : Char) (tail : List Char) :
    (∃ body c rest, '\\' :: 'u' :: tail = body ++ rest ∧ Denotes quote body c) ∨
      NoEscape ('\\' :: 'u' :: tail) := by
  by_cases hdigits : ∃ n ds, Digits n ds ∧ ds <+: tail
  · obtain ⟨n, ds, hds, rest, rfl⟩ := hdigits
    by_cases hlow : 0xDC00 ≤ n ∧ n < 0xE000
    · exact .inr (.second hds hlow)
    · by_cases hhigh : 0xD800 ≤ n ∧ n < 0xDC00
      · by_cases hsecond : ∃ m es, Digits m es ∧ 0xDC00 ≤ m ∧ m < 0xE000 ∧
            '\\' :: 'u' :: es <+: rest
        · obtain ⟨m, es, hes, hm, hm', rest, rfl⟩ := hsecond
          exact .inl ⟨_, _, rest, by simp, .of_halves hds hhigh hes ⟨hm, hm'⟩⟩
        · exact .inr (.first hds hhigh fun m es hes hm hm' hprefix =>
            hsecond ⟨m, es, hes, hm, hm', hprefix⟩)
      · exact .inl ⟨_, _, rest, rfl, .of_digits hds hhigh hlow⟩
  · exact .inr (.digits fun n ds hds hprefix => hdigits ⟨n, ds, hds, hprefix⟩)

/-- A backslash and another character spell a character, or nothing. -/
theorem denotes_or_noEscape (quote letter : Char) (tail : List Char) :
    (∃ body c rest, '\\' :: letter :: tail = body ++ rest ∧ Denotes quote body c) ∨
      NoEscape ('\\' :: letter :: tail) := by
  by_cases hu : letter = 'u'
  · subst hu
    exact denotes_or_noEscape_digits quote tail
  · cases hshort : short? letter with
    | some c => exact .inl ⟨_, c, tail, rfl, .short (short?_eq_some.mp hshort)⟩
    | none =>
      refine .inr (.letter hu fun c hc => ?_)
      rw [short?_eq_some.mpr hc] at hshort
      cases hshort

end

end Escape

/-! ## Spellings of a string -/

/-- The characters `cs` spell the characters `value` between two quotes `quote`. -/
inductive StringBody (quote : Char) : List Char → List Char → Prop where
  | nil : StringBody quote [] []
  | cons {body cs value : List Char} {c : Char} (h : Escape.Denotes quote body c)
      (hrest : StringBody quote cs value) : StringBody quote (body ++ cs) (c :: value)

section

variable {quote : Char} {cs value : List Char}

/-- A body is read as what it spells, whatever follows. -/
theorem readString_body (hquote : quote ≠ '\\') (h : StringBody quote cs value)
    (opening : Position) (read rest : List Char) (p : Position) :
    readString quote opening read ⟨cs ++ rest, p⟩ =
      readString quote opening (value.reverse ++ read) ⟨rest, p.after cs⟩ := by
  induction h generalizing read p with
  | nil => rfl
  | @cons body cs value c h _ ih =>
    have hstep : readString quote opening read ⟨body ++ (cs ++ rest), p⟩ =
        readString quote opening (c :: read) ⟨cs ++ rest, p.after body⟩ := by
      rcases h.slash_or_raw with ⟨tail, rfl⟩ | ⟨rfl, hraw, hslash⟩
      · exact readString_escape hquote (Escape.read_of_denotes h)
      · exact readString_char hraw hslash
    rw [List.append_assoc, hstep, ih, Position.after_append, List.reverse_cons, List.append_assoc,
      List.singleton_append]

/-- An error of an escape ends the string. -/
theorem readString_escape_error (hquote : quote ≠ '\\') {opening p : Position}
    {read rest : List Char} {e : ScanError} {d : Cursor}
    (h : Escape.read opening ⟨'\\' :: rest, p⟩ = (.error e, d)) :
    readString quote opening read ⟨'\\' :: rest, p⟩ = (.error e, d) := by
  rw [readString]
  split
  · cases ‹_ = []›
  · rename_i heq
    cases heq
    rw [if_neg hquote.symm, if_pos rfl]
    split <;> simp_all

/-- What ends a body: the other quote, the end of the text, which a backslash may stand before, or
what spells no character. -/
def EndsBody (quote : Char) (rest : List Char) : Prop :=
  (∃ tail, rest = quote :: tail) ∨ rest = [] ∨ rest = ['\\'] ∨ Escape.NoEscape rest

/-- Every text is a body and an end. -/
theorem exists_body (quote : Char) (text : List Char) :
    ∃ cs value rest, text = cs ++ rest ∧ StringBody quote cs value ∧ EndsBody quote rest := by
  induction hlength : text.length using Nat.strong_induction_on generalizing text with
  | _ n ih =>
  have hstep {body rest : List Char} {c : Char} (h : Escape.Denotes quote body c)
      (htext : text = body ++ rest) : ∃ cs value rest, text = cs ++ rest ∧
        StringBody quote cs value ∧ EndsBody quote rest := by
    have hbody := h.length_pos
    obtain ⟨cs, value, tail, rfl, hcs, htail⟩ := ih rest.length (by simp_all; omega) rest rfl
    exact ⟨body ++ cs, c :: value, tail, by rw [htext, List.append_assoc], .cons h hcs, htail⟩
  match text with
  | [] => exact ⟨[], [], [], rfl, .nil, .inr (.inl rfl)⟩
  | c :: tail =>
    by_cases hquote : c = quote
    · exact ⟨[], [], _, rfl, .nil, .inl ⟨tail, by rw [hquote]⟩⟩
    · by_cases hslash : c = '\\'
      · subst hslash
        cases tail with
        | nil => exact ⟨[], [], _, rfl, .nil, .inr (.inr (.inl rfl))⟩
        | cons letter tail =>
          rcases Escape.denotes_or_noEscape quote letter tail with ⟨body, c, rest, htext, h⟩ | h
          · exact hstep h htext
          · exact ⟨[], [], _, rfl, .nil, .inr (.inr (.inr h))⟩
      · exact hstep (.raw hquote hslash) rfl

end

/-! ## Tokens -/

/-- Behind a quote, what a token gives is what its string gives. -/
theorem Token.read_of_readString {quote : Char} {body : List Char} {p : Position}
    {r : Except ScanError String} {d : Cursor} (hquote : quote = '"' ∨ quote = '\'')
    (h : readString quote p [] ⟨body, p.step quote⟩ = (r, d)) :
    Token.read ⟨quote :: body, p⟩ = (r.map .string, d) := by
  have hnumber : beginsNumber (quote :: body) = false := by rcases hquote with rfl | rfl <;> rfl
  have hmark : Mark.scan? (quote :: body) = none := by rcases hquote with rfl | rfl <;> rfl
  change readString quote p [] (Cursor.next ⟨quote :: body, p⟩) = (r, d) at h
  simp only [Token.read, hnumber, hmark, Bool.false_eq_true, if_false]
  rw [if_pos (by simpa using hquote), h]
  cases r <;> rfl

/-- Only a quote begins a string. -/
theorem Token.quote_of_read {c d : Cursor} {value : String}
    (h : Token.read c = (.ok (.string value), d)) :
    ∃ quote body, (quote = '"' ∨ quote = '\'') ∧ c.rest = quote :: body := by
  unfold Token.read at h
  split at h
  · cases h
  · rename_i ch body hrest
    split at h
    · have hnumber := congrArg Prod.fst h
      unfold readNumber at hnumber
      simp only [] at hnumber
      split at hnumber
      · cases hnumber
      · split at hnumber
        · cases hnumber
        · split at hnumber <;> cases hnumber
    · split at h
      · cases h
      · split at h
        · rename_i hquote
          exact ⟨ch, body,
            (Bool.or_eq_true_iff.mp hquote).imp of_decide_eq_true of_decide_eq_true, hrest⟩
        · split at h
          · unfold readParameter at h
            simp only [] at h
            split at h <;> cases h
          · split at h
            · have hname := congrArg Prod.fst h
              simp only [readName] at hname
              split at hname <;> cases hname
            · cases h

namespace Scanner

/-- The scanner stands at blanks, behind which the text has a quote and goes on with `body`. -/
structure AtQuote (s : Scanner) (blanks : List Char) (quote : Char) (body : List Char) : Prop where
  isQuote : quote = '"' ∨ quote = '\''
  areBlank : ∀ c ∈ blanks, isBlank c = true
  text : s.cursor.rest = blanks ++ quote :: body

/-- The scanner at the blanks before its next token, and the token that is read behind them. -/
theorem read_of_next {s s' : Scanner} {r : Except ScanError Token} (h : s.next = (r, s')) :
    Token.read (s.cursor.dropWhile isBlank) = (r, s'.cursor) := by
  obtain ⟨hresult, hcursor⟩ := Prod.mk.inj h
  exact Prod.ext hresult (congrArg cursor hcursor)

section

variable {s s' : Scanner} {blanks body cs value tail : List Char} {quote : Char}

theorem AtQuote.ne_slash (h : s.AtQuote blanks quote body) : quote ≠ '\\' := by
  rcases h.isQuote with rfl | rfl <;> decide

theorem AtQuote.next_eq (h : s.AtQuote blanks quote body) {r : Except ScanError String} {d : Cursor}
    (hread : readString quote (s.cursor.position.after blanks) []
      ⟨body, s.cursor.position.after (blanks ++ [quote])⟩ = (r, d)) :
    s.next = (r.map .string, ⟨d, s.cursor.position.after blanks⟩) := by
  have hhead : ∀ c ∈ (quote :: body).head?, isBlank c = false := by
    rintro _ ⟨⟩
    rcases h.isQuote with rfl | rfl <;> decide
  have hcursor : s.cursor.dropWhile isBlank = ⟨quote :: body, s.cursor.position.after blanks⟩ := by
    rw [Cursor.dropWhile, h.text, dropWhile_run h.areBlank hhead, takeWhile_run h.areBlank hhead]
  rw [Position.after_append] at hread
  rw [next, hcursor, Token.read_of_readString h.isQuote hread]

/-- Behind a body that begins at a quote. -/
theorem AtQuote.readString_eq (h : s.AtQuote blanks quote (cs ++ tail))
    (hbody : StringBody quote cs value) :
    readString quote (s.cursor.position.after blanks) []
        ⟨cs ++ tail, s.cursor.position.after (blanks ++ [quote])⟩ =
      readString quote (s.cursor.position.after blanks) value.reverse
        ⟨tail, s.cursor.position.after (blanks ++ quote :: cs)⟩ := by
  rw [readString_body h.ne_slash hbody, List.append_nil, ← Position.after_append, List.append_assoc]
  rfl

theorem AtQuote.next_closed (h : s.AtQuote blanks quote (cs ++ quote :: tail))
    (hbody : StringBody quote cs value) : s.next = (.ok (.string (String.ofList value)),
      ⟨⟨tail, s.cursor.position.after (blanks ++ quote :: (cs ++ [quote]))⟩,
        s.cursor.position.after blanks⟩) := by
  have hplace : (s.cursor.position.after (blanks ++ quote :: cs)).step quote =
      s.cursor.position.after (blanks ++ quote :: (cs ++ [quote])) := by
    rw [show blanks ++ quote :: (cs ++ [quote]) = (blanks ++ quote :: cs) ++ [quote] by simp,
      Position.after_append _ _ [quote]]
    rfl
  rw [h.next_eq ((h.readString_eq hbody).trans readString_close), List.reverse_reverse, hplace]
  rfl

theorem AtQuote.next_unclosed (h : s.AtQuote blanks quote (cs ++ tail))
    (hbody : StringBody quote cs value) (htail : tail = [] ∨ tail = ['\\']) :
    ∃ s', s.next = (.error (.unterminatedString (s.cursor.position.after blanks)), s') := by
  have hread (opening p : Position) (read : List Char) :
      ∃ d, readString quote opening read ⟨tail, p⟩ = (.error (.unterminatedString opening), d) := by
    rcases htail with rfl | rfl
    · exact ⟨_, by rw [readString]⟩
    · exact ⟨_, readString_escape_error h.ne_slash rfl⟩
  obtain ⟨d, hd⟩ := hread _ _ _
  exact ⟨_, h.next_eq ((h.readString_eq hbody).trans hd)⟩

theorem AtQuote.next_noEscape (h : s.AtQuote blanks quote (cs ++ tail))
    (hbody : StringBody quote cs value) (htail : Escape.NoEscape tail) :
    ∃ sequence s', s.next = (.error (.invalidEscape sequence
      (s.cursor.position.after (blanks ++ quote :: cs))), s') := by
  obtain ⟨sequence, d, hd⟩ := Escape.exists_of_noEscape htail (s.cursor.position.after blanks)
    (s.cursor.position.after (blanks ++ quote :: cs))
  obtain ⟨rest, rfl⟩ : ∃ rest, tail = '\\' :: rest := by cases htail <;> exact ⟨_, rfl⟩
  exact ⟨sequence, _, h.next_eq ((h.readString_eq hbody).trans
    (readString_escape_error h.ne_slash hd))⟩

/-- A scanner that reads a string stands before its quote. -/
theorem exists_atQuote {value : String} (h : s.next = (.ok (.string value), s')) :
    ∃ blanks quote body, s.AtQuote blanks quote body := by
  obtain ⟨quote, body, hquote, hrest⟩ := Token.quote_of_read (read_of_next h)
  refine ⟨s.cursor.rest.takeWhile isBlank, quote, body, hquote, all_takeWhile _ _, ?_⟩
  rw [← hrest]
  exact List.takeWhile_append_dropWhile.symm

/-- A string token is a body between two quotes of one kind, with what the body spells as its value,
and the scanner is left right behind the second. Behind a quote and a body, the end of the text is
an error at the quote, and what spells no character is an error at its backslash. -/
theorem next_string :
    (∀ (s s' : Scanner) (value : String), s.next = (.ok (.string value), s') ↔
      ∃ blanks quote cs rest, s.AtQuote blanks quote (cs ++ quote :: rest) ∧
        StringBody quote cs value.toList ∧
        s' = ⟨⟨rest, s.cursor.position.after (blanks ++ quote :: (cs ++ [quote]))⟩,
          s.cursor.position.after blanks⟩) ∧
    ∀ (s : Scanner) (blanks : List Char) (quote : Char) (cs value tail : List Char),
      s.AtQuote blanks quote (cs ++ tail) → StringBody quote cs value →
        ((tail = [] ∨ tail = ['\\']) →
          ∃ s', s.next = (.error (.unterminatedString (s.cursor.position.after blanks)), s')) ∧
        (Escape.NoEscape tail → ∃ sequence s', s.next = (.error (.invalidEscape sequence
          (s.cursor.position.after (blanks ++ quote :: cs))), s')) := by
  refine ⟨fun s s' value => ⟨fun h => ?_, ?_⟩, fun s blanks quote cs value tail h hbody =>
    ⟨h.next_unclosed hbody, h.next_noEscape hbody⟩⟩
  · obtain ⟨blanks, quote, body, hquote⟩ := exists_atQuote h
    obtain ⟨cs, spelled, rest, rfl, hbody, ⟨tail, rfl⟩ | hend⟩ := exists_body quote body
    · rw [hquote.next_closed hbody] at h
      cases h
      exact ⟨blanks, quote, cs, tail, hquote, by rwa [String.toList_ofList], rfl⟩
    · exfalso
      rcases hend with hnil | hslash | hnone
      · obtain ⟨s'', herror⟩ := hquote.next_unclosed hbody (.inl hnil)
        cases h.symm.trans herror
      · obtain ⟨s'', herror⟩ := hquote.next_unclosed hbody (.inr hslash)
        cases h.symm.trans herror
      · obtain ⟨sequence, s'', herror⟩ := hquote.next_noEscape hbody hnone
        cases h.symm.trans herror
  · rintro ⟨blanks, quote, cs, rest, hquote, hbody, rfl⟩
    rw [hquote.next_closed hbody, String.ofList_toList]

/-- A pair with digits in both cases and an escape of one letter, with more text behind the string,
and the second half of a pair alone. -/
theorem next_string_pair :
    (ofText "'\\uD83d\\uDE00\\n' x").next =
      (.ok (.string "😀\n"), ⟨⟨[' ', 'x'], ⟨16, 1, 17⟩⟩, .start⟩) ∧
    ∃ sequence s', (ofText "'\\uDE00'").next =
      (.error (.invalidEscape sequence ⟨1, 1, 2⟩), s') := by
  have hfirst : Escape.Digits 0xD83D ['D', '8', '3', 'd'] :=
    ⟨rfl, [13, 8, 3, 13], .cons (by decide) (.cons (by decide) (.cons (by decide)
      (.cons (by decide) .nil))), by decide⟩
  have hsecond : Escape.Digits 0xDE00 ['D', 'E', '0', '0'] :=
    ⟨rfl, [13, 14, 0, 0], .cons (by decide) (.cons (by decide) (.cons (by decide)
      (.cons (by decide) .nil))), by decide⟩
  have halone : Escape.NoEscape ('\\' :: 'u' :: (['D', 'E', '0', '0'] ++ ['\''])) :=
    .second hsecond (by decide)
  refine ⟨(next_string.1 _ _ _).mpr ⟨[], '\'', _, [' ', 'x'], ⟨.inr rfl, by simp, rfl⟩,
    .cons (.pair (by decide) hfirst hsecond) (.cons (.short (by decide)) .nil), rfl⟩, ?_⟩
  exact (next_string.2 _ [] '\'' [] [] _ ⟨.inr rfl, by simp, rfl⟩ .nil).2 halone

end

end Scanner

end DocQuery
