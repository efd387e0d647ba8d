import DocQuery.Proofs.Number.NormalForm

/-!
# Integers with extra bits

* `IsWide`: the set bits of an integer span more places than a double's significand has.
* `Extended.extra_ofInt_eq_zero_iff`: the other integers are those whose extended form has no extra
  bits, and is a double of the same value.
* `Extended.toInt?_ofInt`: a wide integer is read back from its extended form.
* `Extended.ofInt_of_toInt?`: whatever integer a form is read as, the integer's own form is the
  read one without its extra bits below one (`Extended.clip`).

No form is taken apart bit by bit for this: a proper form is told by its key, so two forms are one
once they are worth the same (`Extended.eq_ofInt`).
-/

namespace DocQuery

open Binary64

/-- The set bits of an integer's magnitude span more than 53 places. -/
def IsWide (n : Int) : Prop :=
  ∃ i j, n.natAbs.testBit i = true ∧ n.natAbs.testBit j = true ∧ j + 53 ≤ i

namespace Extended

variable {a : Extended} {n : Int}

/-! ## Forms by what they are worth -/

/-- The form of an integer is the only proper one that is worth it. -/
theorem eq_ofInt (ha : a.Proper) (hcode : a.double.code ≠ 0) (hn : n.natAbs ≤ 2 ^ 63)
    (h : keyScaled a.key = n * (2 ^ 16 * Binary64.one)) : a = ofInt n := by
  obtain ⟨hproper, -, hkey⟩ := extended_ofInt hn
  exact eq_of_key ha hproper (keyScaled_strictMono.injective (h.trans hkey.symm)) hcode

theorem ofInt_injective {m : Int} (hm : m.natAbs ≤ 2 ^ 63) (hn : n.natAbs ≤ 2 ^ 63)
    (h : ofInt m = ofInt n) : m = n := by
  have hone : (2 ^ 16 * Binary64.one : Int) ≠ 0 := by
    have := Binary64.one_pos
    positivity
  have hm := (extended_ofInt hm).2.2
  rw [h, (extended_ofInt hn).2.2] at hm
  exact (mul_right_cancel₀ hone hm).symm

/-! ## Extra bits that are read as an integer -/

/-- The forms that are read as integers: the double leaves room for extra bits, and the low end of
their field is free. -/
structure Readable (a : Extended) : Prop where
  aligned : a.extra % 64 = 0
  le_exponent : 1023 + 53 ≤ a.double.exponentField
  exponent_le : a.double.exponentField ≤ 1023 + 62

/-- The whole part of the magnitude of a readable form. -/
def whole (a : Extended) : Nat :=
  (a.double.significand * 1024 + a.extra / 64) >>> (1023 + 62 - a.double.exponentField)

theorem toInt?_eq (h : a.Readable) :
    a.toInt? = some (if a.double.isNegative then -(a.whole : Int) else a.whole) := by
  simp [toInt?, whole, h.aligned, h.le_exponent, h.exponent_le]

theorem toInt?_eq_none (h : ¬ a.Readable) : a.toInt? = none := by
  have hcheck : ¬ (a.extra % 64 = 0 ∧ 1023 + 53 ≤ a.double.exponentField ∧
      a.double.exponentField ≤ 1023 + 62) := fun ⟨h₁, h₂, h₃⟩ => h ⟨h₁, h₂, h₃⟩
  simp only [toInt?, Bool.and_eq_true, decide_eq_true_eq, and_assoc, if_neg hcheck]

/-- What one is worth in extra bits, on a double from `2 ^ 53` up to below `2 ^ 63`. -/
def unit (a : Extended) : Nat := 2 ^ (1023 + 68 - a.double.exponentField)

/-- The form without its extra bits below one. -/
def clip (a : Extended) : Extended := { a with extra := a.extra / a.unit * a.unit }

theorem clip_eq_self_iff : a.clip = a ↔ a.unit ∣ a.extra := by
  rw [Nat.dvd_iff_div_mul_eq]
  exact ⟨congrArg extra, fun h => congrArg (mk a.double) h⟩

theorem clip_extra_le (a : Extended) : a.clip.extra ≤ a.extra := Nat.div_mul_le_self _ _

theorem whole_lt (hextra : a.extra < 2 ^ 16) : a.whole < 2 ^ 63 := by
  have hs := codeSignificand_lt a.double.code
  rw [← significand_eq] at hs
  have := Nat.shiftRight_le (a.double.significand * 1024 + a.extra / 64)
    (1023 + 62 - a.double.exponentField)
  unfold whole
  omega

/-- The significand and the extra bits from one up make up the whole part. -/
theorem whole_eq (h : a.Readable) :
    a.whole = a.double.significand * 2 ^ (a.double.exponentField - 1075) + a.extra / a.unit := by
  have := h.le_exponent
  have := h.exponent_le
  have hten : 1023 + 62 - a.double.exponentField + (a.double.exponentField - 1075) = 10 := by omega
  have hroom : 1024 = 2 ^ (1023 + 62 - a.double.exponentField) *
      2 ^ (a.double.exponentField - 1075) := by
    rw [← Nat.pow_add, hten]
  have hunit : a.unit = 64 * 2 ^ (1023 + 62 - a.double.exponentField) := by
    rw [unit, show 1023 + 68 - a.double.exponentField =
      6 + (1023 + 62 - a.double.exponentField) by omega, Nat.pow_add]
  rw [whole, Nat.shiftRight_eq_div_pow, hunit, ← Nat.div_div_eq_div_mul, hroom, mul_left_comm,
    Nat.mul_add_div (Nat.two_pow_pos _)]

/-- A clipped form's magnitude is the whole part. -/
theorem magnitude_clip (h : a.Readable) :
    2 ^ 16 * codeMagnitude a.double.code + a.clip.extra * 2 ^ codeUnit a.double.code =
      a.whole * (2 ^ 16 * Binary64.one) := by
  have := h.le_exponent
  have := h.exponent_le
  have hplace : 2 ^ codeUnit a.double.code =
      2 ^ (a.double.exponentField - 1075) * Binary64.one := by
    rw [← unitExponent_eq, unitExponent, ← two_pow_add_units]
    congr 1
    omega
  have hone : a.unit * 2 ^ codeUnit a.double.code = 2 ^ 16 * Binary64.one := by
    rw [hplace, unit, ← mul_assoc, ← Nat.pow_add,
      show 1023 + 68 - a.double.exponentField + (a.double.exponentField - 1075) = 16 by omega]
  calc 2 ^ 16 * codeMagnitude a.double.code + a.clip.extra * 2 ^ codeUnit a.double.code
      = a.double.significand * (2 ^ 16 * 2 ^ codeUnit a.double.code) +
          a.extra / a.unit * (a.unit * 2 ^ codeUnit a.double.code) := by
        rw [codeMagnitude, ← significand_eq, mul_left_comm, clip, mul_assoc]
    _ = a.whole * (2 ^ 16 * Binary64.one) := by
        rw [hone, hplace, whole_eq h]
        ring

theorem Readable.clip_proper (h : a.Readable) (hextra : a.extra < 2 ^ 16) :
    0 < a.double.code ∧ a.clip.Proper := by
  have hlow := h.le_exponent
  have hhigh := h.exponent_le
  rw [exponentField, Nat.shiftRight_eq_div_pow] at hlow hhigh
  have := a.clip_extra_le
  refine ⟨by omega, ?_, by omega, fun hzero => ?_⟩
  · rw [infinityCode_eq]
    simp only [clip]
    omega
  · simp only [clip] at hzero
    omega

/-- The form of the integer that a form is read as is the read form without its extra bits below
one. -/
theorem ofInt_of_toInt? (hextra : a.extra < 2 ^ 16) (h : a.toInt? = some n) :
    n.natAbs < 2 ^ 63 ∧ ofInt n = a.clip := by
  have hread : a.Readable := by
    by_contra hread
    rw [toInt?_eq_none hread] at h
    cases h
  have hwhole := whole_lt hextra
  have hn : (if a.double.isNegative then -(a.whole : Int) else a.whole) = n :=
    Option.some.inj ((toInt?_eq hread).symm.trans h)
  have habs : n.natAbs < 2 ^ 63 := by
    rw [← hn]
    split <;> omega
  obtain ⟨hcode, hproper⟩ := hread.clip_proper hextra
  refine ⟨habs, (eq_ofInt hproper hcode.ne' habs.le ?_).symm⟩
  rw [keyScaled_key (a := a.clip) hcode hproper.extra_lt]
  simp only [show a.clip.double = a.double from rfl, magnitude_clip hread, ← hn]
  split <;> push_cast <;> ring

/-! ## Integers that are wide -/

theorem extra_ofInt (n : Int) : (ofInt n).extra =
    n.natAbs % 2 ^ (n.natAbs.log2 - 52) * 2 ^ (16 - (n.natAbs.log2 - 52)) := by
  simp only [ofInt, Nat.shiftLeft_eq, Nat.one_mul]

/-- An integer is wide if some of its bits have no room in the significand. -/
theorem isWide_iff : IsWide n ↔ n.natAbs % 2 ^ (n.natAbs.log2 - 52) ≠ 0 := by
  constructor
  · rintro ⟨i, j, hi, hj, hij⟩ hzero
    have hm : n.natAbs ≠ 0 := by
      intro h
      simp [h] at hi
    have hlog := (Nat.le_log2 hm).mpr (Nat.ge_two_pow_of_testBit hi)
    have hbit := Nat.testBit_mod_two_pow n.natAbs (n.natAbs.log2 - 52) j
    rw [hzero, hj, decide_eq_true (by omega)] at hbit
    simp at hbit
  · intro hrest
    obtain ⟨j, hj⟩ := Nat.exists_testBit_of_ne_zero hrest
    rw [Nat.testBit_mod_two_pow, Bool.and_eq_true, decide_eq_true_eq] at hj
    have hm : n.natAbs ≠ 0 := by
      intro h
      simp [h] at hrest
    exact ⟨n.natAbs.log2, j, Nat.testBit_log2 hm, hj.2, by omega⟩

/-- Wide integers are the ones with extra bits. -/
theorem extra_ofInt_eq_zero_iff : (ofInt n).extra = 0 ↔ ¬ IsWide n := by
  rw [isWide_iff, extra_ofInt, not_not, Nat.mul_eq_zero, or_iff_left (Nat.two_pow_pos _).ne']

/-- An integer that is not wide is a double. -/
theorem ofInt_of_not_isWide (h : ¬ IsWide n) : ofInt n = ⟨.ofInt n, 0⟩ := by
  have hextra := extra_ofInt_eq_zero_iff.mpr h
  rw [isWide_iff, not_not] at h
  have hbits : (n.natAbs >>> (n.natAbs.log2 - 52)) <<< (n.natAbs.log2 - 52) = n.natAbs := by
    rw [Nat.shiftLeft_eq, Nat.shiftRight_eq_div_pow, Nat.div_mul_cancel (Nat.dvd_of_mod_eq_zero h)]
  have hdouble : (ofInt n).double = .ofInt n := by
    rw [ofInt, hbits, Binary64.ofInt]
  rw [← hextra, ← hdouble]

/-- A wide integer's extra bits lie where its form is read: none of them below one. -/
theorem readable_ofInt (hn : n.natAbs ≤ 2 ^ 63) (h : IsWide n) :
    (ofInt n).Readable ∧ (ofInt n).unit ∣ (ofInt n).extra := by
  have hrest := isWide_iff.mp h
  have h0 : n ≠ 0 := by
    rintro rfl
    simp at hrest
  have hm : n.natAbs ≠ 0 := by omega
  have hlow : 53 ≤ n.natAbs.log2 := by
    by_contra hlt
    rw [show n.natAbs.log2 - 52 = 0 by omega, Nat.pow_zero, Nat.mod_one] at hrest
    exact hrest rfl
  -- Only a power of two has 64 bits here, and it is not wide.
  have hhigh : n.natAbs.log2 ≤ 62 := by
    by_contra hlt
    have hpow := Nat.log2_self_le hm
    have := (Nat.pow_le_pow_iff_right (show 1 < 2 by decide)).mp (hpow.trans hn)
    have hlog : n.natAbs.log2 = 63 := by omega
    rw [hlog] at hpow hrest
    rw [show n.natAbs = 2 ^ 63 by omega] at hrest
    exact hrest (by decide)
  obtain ⟨-, hexponent⟩ := double_ofInt h0 hn
  have hunit : (ofInt n).unit = 2 ^ (16 - (n.natAbs.log2 - 52)) := by
    rw [unit, hexponent]
    congr 1
    omega
  have hdvd : (ofInt n).unit ∣ (ofInt n).extra := by
    rw [hunit, extra_ofInt]
    exact Nat.dvd_mul_left _ _
  have haligned : 2 ^ 6 ∣ (ofInt n).unit := by
    rw [hunit]
    exact Nat.pow_dvd_pow 2 (by omega)
  exact ⟨⟨Nat.mod_eq_zero_of_dvd (haligned.trans hdvd), by omega, by omega⟩, hdvd⟩

/-- A wide integer is read back from its form. -/
theorem toInt?_ofInt (hn : n.natAbs ≤ 2 ^ 63) (h : IsWide n) : (ofInt n).toInt? = some n := by
  obtain ⟨hread, hunit⟩ := readable_ofInt hn h
  have hextra := (extended_ofInt hn).1.extra_lt
  obtain ⟨habs, heq⟩ := ofInt_of_toInt? hextra (toInt?_eq hread)
  rw [clip_eq_self_iff.mpr hunit] at heq
  rw [toInt?_eq hread, ofInt_injective habs.le hn heq]

end Extended

end DocQuery
