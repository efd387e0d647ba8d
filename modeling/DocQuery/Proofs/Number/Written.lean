import DocQuery.Number.Decimal.Written
import DocQuery.Proofs.Number.Shortest
import DocQuery.Proofs.Text.CharClass

/-!
# Written numbers are numerals of their value

* `Numeral.scan_chars`: what is written as a numeral is scanned as that numeral, whatever comes
  behind it that does not go on with a number.
* `Decimal.exists_numeral`: each form of a decimal is a numeral, and its coefficient and its power of
  ten differ from the decimal's by zeros moved from one to the other.
* `Binary64.exists_numeral`: a finite double without a sign is written as a numeral that is read as
  the double.
-/

namespace DocQuery

open Text

/-! ## Digits -/

theorem digitsValue_eq (n : Nat) (digits : List Char) :
    digitsValue n digits = Nat.ofDigitChars 10 digits n := rfl

theorem digitsValue_append (n : Nat) (ds es : List Char) :
    digitsValue n (ds ++ es) = digitsValue (digitsValue n ds) es := by
  simp [digitsValue]

theorem digitsValue_zeros (n k : Nat) : digitsValue n (List.replicate k '0') = n * 10 ^ k := by
  rw [digitsValue_eq, Nat.ofDigitChars_replicate_zero, Nat.mul_comm]

theorem digitsValue_toDigits (n : Nat) : digitsValue 0 (Nat.toDigits 10 n) = n :=
  Nat.ofDigitChars_toDigits (by decide) (by decide)

theorem isDigit_of_mem_toDigits {n : Nat} {c : Char} (h : c ∈ Nat.toDigits 10 n) : isDigit c :=
  Nat.isDigit_of_mem_toDigits (by decide) (by decide) h

/-! ## Scanning -/

/-- What goes on with a number: the number is malformed if such a character follows. -/
def continuesNumber (c : Char) : Bool := continuesName c || c == '.'

/-- The characters do not go on with a number. -/
def EndNumber (cs : List Char) : Prop := ∀ c ∈ cs.head?, continuesNumber c = false

theorem EndNumber.not_digit {cs : List Char} (h : EndNumber cs) : ∀ c ∈ cs.head?, isDigit c = false := by
  intro c hc
  refine Bool.eq_false_iff.mpr fun hd => ?_
  have := h c hc
  rw [continuesNumber, continuesName_of_isDigit hd, Bool.true_or] at this
  cases this

theorem EndNumber.ne {cs : List Char} (h : EndNumber cs) {d : Char} (hd : continuesNumber d = true) :
    ∀ c ∈ cs.head?, c ≠ d :=
  fun c hc => (ne_of_class hd (h c hc)).symm

/-- An exponent as it may be written. -/
structure Exponent.Proper (e : Exponent) : Prop where
  mark : e.mark = 'e'
  sign : e.sign? = none ∨ e.sign? = some '-'
  ne_nil : e.digits ≠ []
  digits : ∀ c ∈ e.digits, isDigit c

/-- A numeral as it may be written. -/
structure Numeral.Proper (n : Numeral) : Prop where
  ne_nil : n.whole ≠ []
  whole : ∀ c ∈ n.whole, isDigit c
  fraction : ∀ ds ∈ n.fraction?, ∀ c ∈ ds, isDigit c
  exponent : ∀ e ∈ n.exponent?, e.Proper

theorem Exponent.scan?_none {cs : List Char} (h : ∀ c ∈ cs.head?, c ≠ 'e' ∧ c ≠ 'E') :
    Exponent.scan? cs = none := by
  cases cs with
  | nil => rfl
  | cons c cs =>
    obtain ⟨h₁, h₂⟩ := h c rfl
    simp [scan?, h₁, h₂]

theorem Exponent.scan?_chars {e : Exponent} (he : e.Proper) {cs : List Char}
    (h : ∀ c ∈ cs.head?, isDigit c = false) : Exponent.scan? (e.chars ++ cs) = some e := by
  obtain ⟨mark, sign?, digits⟩ := e
  obtain ⟨rfl, hsign, hne, hdigits⟩ := he
  have hrun : (digits ++ cs).takeWhile isDigit = digits := takeWhile_run hdigits h
  obtain ⟨d, ds, rfl⟩ := List.exists_cons_of_ne_nil hne
  have hd := hdigits d List.mem_cons_self
  have hplus : d ≠ '+' := ne_of_class hd (by decide)
  have hminus : d ≠ '-' := ne_of_class hd (by decide)
  rcases hsign with rfl | rfl
  · simp only [chars, scan?, Option.toList_none, List.nil_append, List.cons_append] at hrun ⊢
    simp [hplus, hminus, hrun]
  · simp only [chars, scan?, Option.toList_some, List.cons_append, List.nil_append] at hrun ⊢
    rw [if_pos (by decide), hrun]

/-- A numeral is scanned up to its exponent, and the exponent behind. -/
private theorem Numeral.scan_before {whole tail : List Char} {fraction? : Option (List Char)}
    (hwhole : ∀ c ∈ whole, isDigit c) (hfraction : ∀ ds ∈ fraction?, ∀ c ∈ ds, isDigit c)
    (hdigit : ∀ c ∈ tail.head?, isDigit c = false)
    (hdot : fraction? = none → ∀ c ∈ tail.head?, c ≠ '.') :
    Numeral.scan ((⟨whole, fraction?, none⟩ : Numeral).chars ++ tail) =
      ⟨whole, fraction?, Exponent.scan? tail⟩ := by
  unfold scan chars
  cases fraction? with
  | none =>
    simp only [List.append_nil]
    rw [takeWhile_run hwhole hdigit, dropWhile_run hwhole hdigit]
    split
    · exact absurd rfl (hdot rfl '.' rfl)
    · rfl
  | some fraction =>
    have hpoint : ∀ c ∈ ('.' :: (fraction ++ tail)).head?, isDigit c = false := by
      intro c hc
      cases hc
      decide
    simp only [List.append_nil, List.append_assoc, List.cons_append]
    rw [takeWhile_run hwhole hpoint, dropWhile_run hwhole hpoint]
    simp only []
    rw [takeWhile_run (hfraction _ rfl) hdigit, dropWhile_run (hfraction _ rfl) hdigit]

/-- A numeral is scanned to its end, if what follows goes on with none of its parts. -/
private theorem Numeral.scan_chars_append {n : Numeral} (hn : n.Proper) {cs : List Char}
    (hdigit : ∀ c ∈ cs.head?, isDigit c = false)
    (hmark : n.exponent? = none → ∀ c ∈ cs.head?, c ≠ 'e' ∧ c ≠ 'E')
    (hdot : n.whole?.isSome → ∀ c ∈ cs.head?, c ≠ '.') : Numeral.scan (n.chars ++ cs) = n := by
  obtain ⟨whole, fraction?, exponent?⟩ := n
  obtain ⟨-, hwhole, hfraction, hexponent⟩ := hn
  cases exponent? with
  | none =>
    have hpoint : fraction? = none → ∀ c ∈ cs.head?, c ≠ '.' := by
      rintro rfl
      exact hdot rfl
    rw [scan_before hwhole hfraction hdigit hpoint, Exponent.scan?_none (hmark rfl)]
  | some e =>
    have he := hexponent e rfl
    have hsplit : (⟨whole, fraction?, some e⟩ : Numeral).chars ++ cs =
        (⟨whole, fraction?, none⟩ : Numeral).chars ++ (e.chars ++ cs) := by simp [chars]
    have hhead : ∀ c ∈ (e.chars ++ cs).head?, c = 'e' := by
      intro c hc
      cases hc
      exact he.mark
    rw [hsplit, scan_before hwhole hfraction, Exponent.scan?_chars he hdigit]
    · intro c hc
      rw [hhead c hc]
      decide
    · intro _ c hc
      rw [hhead c hc]
      decide

/-- A numeral is scanned to its end. -/
theorem Numeral.scan_chars {n : Numeral} (hn : n.Proper) {cs : List Char} (h : EndNumber cs) :
    Numeral.scan (n.chars ++ cs) = n :=
  scan_chars_append hn h.not_digit
    (fun _ c hc => ⟨h.ne (by decide +kernel) c hc, h.ne (by decide +kernel) c hc⟩)
    fun _ => h.ne (by decide +kernel)

/-- A numeral with a point or an exponent does not go on with a point. -/
theorem Numeral.scan_chars_dot {n : Numeral} (hn : n.Proper) (hwhole : n.whole? = none)
    (cs : List Char) : Numeral.scan (n.chars ++ '.' :: cs) = n := by
  refine scan_chars_append hn ?_ ?_ fun h => ?_
  · rintro _ ⟨⟩
    decide
  · rintro _ _ ⟨⟩
    decide
  · rw [hwhole] at h
    cases h

/-! ## Values -/

namespace Decimal

/-- The digits up to the last that is not zero, and the zeros behind. -/
theorem exists_zeros (d : Decimal) : ∃ k, d.allDigits = d.digits ++ List.replicate k '0' := by
  have hsplit := List.takeWhile_append_dropWhile (p := (· == '0')) (l := d.allDigits.reverse)
  have hzeros := List.eq_replicate_of_mem (a := '0') (l := d.allDigits.reverse.takeWhile (· == '0'))
    fun c hc => beq_iff_eq.mp (all_takeWhile _ _ c hc)
  refine ⟨(d.allDigits.reverse.takeWhile (· == '0')).length, ?_⟩
  have := congrArg List.reverse hsplit
  rw [List.reverse_append, List.reverse_reverse, hzeros, List.reverse_replicate] at this
  exact this.symm

theorem digits_ne_nil {d : Decimal} (h : 0 < d.coefficient) : d.digits ≠ [] := by
  intro hnil
  obtain ⟨k, hk⟩ := d.exists_zeros
  have hvalue := digitsValue_toDigits d.coefficient
  change digitsValue 0 d.allDigits = _ at hvalue
  rw [hk, hnil, List.nil_append, digitsValue_zeros, Nat.zero_mul] at hvalue
  omega

theorem isDigit_of_mem_digits {d : Decimal} {c : Char} (h : c ∈ d.digits) : isDigit c := by
  obtain ⟨k, hk⟩ := d.exists_zeros
  have : c ∈ d.allDigits := by rw [hk]; exact List.mem_append_left _ h
  exact isDigit_of_mem_toDigits this

/-- What a decimal is worth is kept if its digits that are not zero are taken for a whole number,
and the zeros behind them for a power of ten. -/
def WorthOf (d : Decimal) (n : Numeral) : Prop :=
  ∃ a : Nat, n.coefficient = digitsValue 0 d.digits * 10 ^ a ∧
    n.power + a = d.point - d.digits.length

theorem exists_positional {d : Decimal} (h : 0 < d.coefficient) :
    ∃ n : Numeral, n.Proper ∧ n.chars = d.positional ∧ n.whole? = none ∧ d.WorthOf n := by
  have hzero : ∀ k, ∀ c ∈ List.replicate k '0', isDigit c := fun k c hc => by
    rw [List.eq_of_mem_replicate hc]
    decide
  have hdigits : ∀ c ∈ d.digits, isDigit c := fun c hc => isDigit_of_mem_digits hc
  unfold positional
  simp only []
  split
  · refine ⟨⟨['0'], some (List.replicate (-d.point).toNat '0' ++ d.digits), none⟩,
      ⟨List.cons_ne_nil _ _, hzero 1, ?_, nofun⟩, by simp [Numeral.chars], rfl, 0, ?_, ?_⟩
    · rintro _ ⟨⟩ c hc
      exact (List.mem_append.mp hc).elim (hzero _ c) (hdigits c)
    · simp only [Numeral.coefficient, Option.getD_some]
      rw [digitsValue_append, digitsValue_zeros]
      simp [digitsValue, digitValue]
    · simp [Numeral.power]
      omega
  · split
    · rename_i hlen
      refine ⟨⟨d.digits ++ List.replicate (d.point.toNat - d.digits.length) '0', some ['0'], none⟩,
        ⟨List.append_ne_nil_of_left_ne_nil (digits_ne_nil h) _, ?_, fun | _, rfl => hzero 1, nofun⟩,
        by simp [Numeral.chars], rfl,
        d.point.toNat - d.digits.length + 1, ?_, ?_⟩
      · intro c hc
        exact (List.mem_append.mp hc).elim (hdigits c) (hzero _ c)
      · simp only [Numeral.coefficient, Option.getD_some]
        rw [digitsValue_append, digitsValue_zeros, Nat.pow_succ, ← Nat.mul_assoc]
        simp [digitsValue, digitValue, Nat.mul_comm]
      · simp [Numeral.power]
        omega
    · refine ⟨⟨d.digits.take d.point.toNat, some (d.digits.drop d.point.toNat), none⟩,
        ⟨?_, fun c hc => hdigits c (List.mem_of_mem_take hc), ?_, nofun⟩, by simp [Numeral.chars], rfl,
        0, ?_, ?_⟩
      · have := digits_ne_nil h
        simp only [ne_eq, List.take_eq_nil_iff, not_or]
        exact ⟨by omega, this⟩
      · rintro _ ⟨⟩ c hc
        exact hdigits c (List.mem_of_mem_drop hc)
      · simp only [Numeral.coefficient, Option.getD_some]
        rw [← digitsValue_append, List.take_append_drop, Nat.pow_zero, Nat.mul_one]
      · simp [Numeral.power]
        omega

/-- Any power of ten can be marked, with a sign where it needs one. -/
theorem exists_exponent (k : Int) : ∃ e : Exponent, e.Proper ∧
    e.chars = 'e' :: ((if k < 0 then ['-'] else []) ++ Nat.toDigits 10 k.natAbs) ∧ e.value = k := by
  refine ⟨⟨'e', if k < 0 then some '-' else none, Nat.toDigits 10 k.natAbs⟩,
    ⟨rfl, ?_, Nat.toDigits_ne_nil, fun c hc => isDigit_of_mem_toDigits hc⟩, ?_, ?_⟩
  · simp only []
    split
    · exact .inr rfl
    · exact .inl rfl
  · simp only [Exponent.chars]
    split <;> rfl
  · simp only [Exponent.value, digitsValue_toDigits]
    split
    · simp only [↓reduceIte]
      omega
    · simp only [reduceCtorEq, ↓reduceIte]
      omega

theorem exists_scientific {d : Decimal} (h : 0 < d.coefficient) :
    ∃ n : Numeral, n.Proper ∧ n.chars = d.scientific ∧ n.whole? = none ∧ d.WorthOf n := by
  have hdigits : ∀ c ∈ d.digits, isDigit c := fun c hc => isDigit_of_mem_digits hc
  obtain ⟨e, he, hchars, hvalue⟩ := exists_exponent (d.point - 1)
  unfold scientific
  cases hcases : d.digits with
  | nil => exact absurd hcases (digits_ne_nil h)
  | cons c rest =>
    rw [hcases] at hdigits
    have hc := hdigits c List.mem_cons_self
    cases rest with
    | nil =>
      refine ⟨⟨[c], none, some e⟩, ⟨List.cons_ne_nil _ _, ?_, nofun, ?_⟩, ?_, rfl, 0, ?_, ?_⟩
      · simpa using hc
      · rintro _ ⟨⟩
        exact he
      · simp [Numeral.chars, hchars]
      · simp [Numeral.coefficient, hcases, digitsValue]
      · simp [Numeral.power, hvalue, hcases]
    | cons c' rest =>
      refine ⟨⟨[c], some (c' :: rest), some e⟩, ⟨List.cons_ne_nil _ _, ?_, ?_, ?_⟩, ?_, rfl, 0, ?_, ?_⟩
      · simpa using hc
      · rintro _ ⟨⟩ b hb
        exact hdigits b (List.mem_cons_of_mem _ hb)
      · rintro _ ⟨⟩
        exact he
      · simp [Numeral.chars, hchars]
      · simp [Numeral.coefficient, hcases, ← digitsValue_append]
      · simp [Numeral.power, hvalue, hcases]
        omega

/-- A positive decimal is written as a numeral of the same worth, and not as a whole number. -/
theorem exists_numeral {d : Decimal} (h : 0 < d.coefficient) :
    ∃ n : Numeral, n.Proper ∧ n.chars = d.chars ∧ n.whole? = none ∧ d.WorthOf n := by
  unfold chars
  split
  · exact exists_positional h
  · exact exists_scientific h

/-- A numeral of the same worth lies in the same intervals. -/
theorem WorthOf.readsAs {d : Decimal} {n : Numeral} (h : d.WorthOf n) {c : Nat} :
    Binary64.ReadsAs d.coefficient d.power c ↔ Binary64.ReadsAs n.coefficient n.power c := by
  obtain ⟨a, hcoefficient, hpower⟩ := h
  obtain ⟨k, hk⟩ := d.exists_zeros
  have hvalue := digitsValue_toDigits d.coefficient
  change digitsValue 0 d.allDigits = _ at hvalue
  rw [hk, digitsValue_append, digitsValue_zeros] at hvalue
  have hlen := congrArg List.length hk
  rw [List.length_append, List.length_replicate] at hlen
  rw [← hvalue, hcoefficient, Binary64.readsAs_mul_pow, Binary64.readsAs_mul_pow, hpower, point, hlen]
  rw [show d.power + k = ((d.digits.length + k : Nat) : Int) + d.power - d.digits.length by omega]

end Decimal

/-! ## Doubles and integers -/

theorem Numeral.proper_whole (n : Nat) : (⟨Nat.toDigits 10 n, none, none⟩ : Numeral).Proper :=
  ⟨Nat.toDigits_ne_nil, fun _ hc => isDigit_of_mem_toDigits hc, nofun, nofun⟩

/-- A finite double without a sign is written as a numeral that is read as the double. -/
theorem Binary64.exists_numeral {x : Binary64} (hfin : x.isFinite = true)
    (hsign : x.isNegative = false) :
    ∃ n : Numeral, n.Proper ∧ n.chars = x.chars ∧ n.whole? = none ∧ n.toBinary64 = x := by
  have hlt : x.code < infinityCode := of_decide_eq_true hfin
  have hchars : x.chars = if x.isZero then ['0', '.', '0'] else x.shortest.chars := by
    have hnan : x.isNaN = false := decide_eq_false (by omega)
    have hinf : x.isInfinite = false := beq_false_of_ne hlt.ne
    simp [chars, unsignedChars, hnan, hinf, hsign]
  rw [hchars]
  split
  · rename_i hzero
    have hcode : x.code = 0 := beq_iff_eq.mp hzero
    have hzeros : ∀ c ∈ ['0'], isDigit c := List.forall_mem_singleton.mpr (by decide)
    have hfraction : ∀ ds ∈ some ['0'], ∀ c ∈ ds, isDigit c := by
      rintro ds ⟨⟩
      exact hzeros
    refine ⟨⟨['0'], some ['0'], none⟩, ⟨by decide, hzeros, hfraction, nofun⟩, rfl, rfl, ?_⟩
    rw [← ofCode_code x, hsign, hcode]
    rfl
  · rename_i hzero
    have hpos : 0 < x.code := Nat.pos_of_ne_zero fun h => hzero (beq_iff_eq.mpr h)
    have hreads := Binary64.shortest_readsAs hpos hlt
    obtain ⟨n, hproper, hchars, hwhole, hworth⟩ := Decimal.exists_numeral (hreads.pos hpos)
    refine ⟨n, hproper, hchars, hwhole, ?_⟩
    rw [Numeral.toBinary64, ofDecimal_eq (hworth.readsAs.mp hreads) hpos hlt, ← hsign, ofCode_code]

/-! ## Signs -/

namespace Binary64

theorem shortest_abs (x : Binary64) : x.abs.shortest = x.shortest := by
  have hfraction : x.abs.fraction = x.fraction := by rw [fraction, code_abs, fraction]
  have hexponent : x.abs.exponentField = x.exponentField := by
    rw [exponentField, code_abs, exponentField]
  have hsignificand : x.abs.significand = x.significand := by
    rw [significand_eq, significand_eq, code_abs]
  have hunit : x.abs.unitExponent = x.unitExponent := by
    rw [unitExponent_eq, unitExponent_eq, code_abs]
  have hmagnitude := x.magnitude_abs
  have hfloor (t : Int) : x.abs.floorDecimal t = x.floorDecimal t := by
    rw [floorDecimal, hmagnitude, floorDecimal]
  have hdecimal : x.abs.decimalExponent = x.decimalExponent := by
    simp only [decimalExponent, hmagnitude, hfloor]
  have hread (t : Int) : x.abs.readBackOn t = x.readBackOn t := by
    simp only [readBackOn, hmagnitude, hfloor, hunit, hfraction, hexponent, hsignificand]
  simp only [shortest, hdecimal, hfloor, hread]

/-- But for their signs, doubles of one magnitude are written alike. -/
theorem unsignedChars_abs (x : Binary64) : x.abs.unsignedChars = x.unsignedChars := by
  rw [unsignedChars, shortest_abs, isInfinite, isZero, code_abs, unsignedChars, isInfinite, isZero]

end Binary64

end DocQuery
