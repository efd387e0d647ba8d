import DocQuery.Proofs.Number.PowerOfTen
import DocQuery.Proofs.Obfuscation.CentsError
import DocQuery.Proofs.Obfuscation.Jitter

/-!
# Stand-ins beside their numbers

A stand-in is the number in cents and a jitter. The jitter is far more than a last place of the
number, so it shows unless the cents have taken just as much off.

* `place_le_of_cents`: where cents take nothing off, the sum lies above the double.
* `place_le_of_hundred`: so it does from a hundred on, where the jitter is more than half a cent.
* `jitter_unique`: the sum is one double at no more than one ordinal.
-/

namespace DocQuery

namespace Number

open Binary64

variable {x : Binary64} {ordinal : Nat}

/-! ## The jitter from below -/

theorem code_pos_of_magnitude (h : 0 < x.magnitude) : 0 < x.code := Nat.pos_of_ne_zero fun hzero => by
  rw [magnitude_eq, hzero, codeMagnitude_zero] at h
  exact h.false

/-- The jitter is at least a ten-thousandth of the power of ten. -/
theorem le_jitter {t c : Nat} (ht : 0 < t) (hten : t ≤ (tenTo x.powerOfTen).code)
    (hordinal : 1 ≤ ordinal) (hc : c ≤ infinityCode) (h : codeMagnitude c * 10000 ≤ codeMagnitude t) :
    (jitter x ordinal).Unsigned ∧ c ≤ (jitter x ordinal).code := by
  have hcode := unsigned_tenTo x.powerOfTen
  have hone := one_le_magnitude_round false hordinal
  have hpos := code_pos_of_magnitude (Binary64.one_pos.trans_le hone)
  obtain ⟨hscalef, hscale⟩ := magnitude_ofNat (show 10000 < 2 ^ 53 by decide)
  have hscalepos : 0 < (Binary64.ofNat 10000).code :=
    code_pos_of_magnitude (Binary64.one_pos.trans_le (one_le_magnitude_round false (by decide)))
  have hproduct : t ≤ ((tenTo x.powerOfTen).mul (.ofNat ordinal)).code := by
    refine le_code_mul hcode (unsigned_ofNat _) (ht.trans_le hten) hpos
      (hten.trans hcode.code_le) ?_
    rw [magnitude_eq (tenTo _)]
    exact Nat.mul_le_mul (codeMagnitude_strictMono.monotone hten) hone
  have hmul := unsigned_mul hcode (unsigned_ofNat ordinal) (ht.trans_le hten) hpos
  refine ⟨unsigned_div hmul (unsigned_ofNat _) hscalef hscalepos,
    le_code_div hmul (unsigned_ofNat _) hscalef hscalepos hc ?_⟩
  rw [hscale, ← Nat.mul_assoc, magnitude_eq (Binary64.mul _ _)]
  exact Nat.mul_le_mul_right _ (h.trans (codeMagnitude_strictMono.monotone hproduct))

/-- The jitter is at least `2 ^ -19` of the power of two below the double. -/
theorem place_le_jitter (hlow : 2 ^ 1022 ≤ x.magnitude) (hfinite : x.isFinite = true)
    (hordinal : 1 ≤ ordinal) : (jitter x ordinal).Unsigned ∧
      2 ^ (x.leadingPlace - 19) ≤ (jitter x ordinal).magnitude := by
  have hplace := le_leadingPlace hlow
  have hhigh := leadingPlace_lt_of_finite (significand_ne_zero hlow) hfinite
  obtain ⟨hunsigned, hcode⟩ := le_jitter (c := placeCode (x.leadingPlace - 19))
    (by rw [placeCode]; omega) (le_tenTo_powerOfTen hlow hfinite) hordinal
    (by rw [placeCode, infinityCode_eq]; omega) (by
      rw [codeMagnitude_placeCode (by omega), codeMagnitude_placeCode (by omega),
        show x.leadingPlace - 4 = x.leadingPlace - 19 + 15 by omega, Nat.pow_add]
      exact Nat.mul_le_mul_left _ (by decide))
  refine ⟨hunsigned, ?_⟩
  rw [magnitude_eq, ← codeMagnitude_placeCode (by omega)]
  exact codeMagnitude_strictMono.monotone hcode

/-- The code of the double just below a cent. -/
def centCode : Nat := 0x3F847AE147AE147A

/-- It lies between 0.009999 and a cent. -/
theorem centCode_between : 9999 * Binary64.one ≤ 1000000 * codeMagnitude centCode ∧
    codeMagnitude centCode * 10000 ≤ 100 * Binary64.one := by
  decide +kernel

/-- From a hundred on the jitter is almost a cent. -/
theorem cent_le_jitter (hlarge : 100 * Binary64.one ≤ x.magnitude) (hfinite : x.isFinite = true)
    (hordinal : 1 ≤ ordinal) : 9999 * Binary64.one ≤ 1000000 * (jitter x ordinal).magnitude := by
  have hpower := two_le_powerOfTen hlarge hfinite
  have hhundred : codeMagnitude (Binary64.ofNat 100).code = 100 * Binary64.one := by
    rw [← magnitude_eq]
    exact (magnitude_ofNat (by decide)).2
  have hten : (Binary64.ofNat 100).code ≤ (tenTo x.powerOfTen).code := by
    refine le_tenTo (unsigned_ofNat 100).code_le ?_
    rw [hhundred, show (-x.powerOfTen).toNat = 0 by omega, Nat.pow_zero, Nat.mul_one, Nat.mul_comm]
    have hsquare : 10 ^ 2 ≤ 10 ^ x.powerOfTen.toNat := Nat.pow_le_pow_right (by decide) (by omega)
    exact Nat.mul_le_mul_left _ hsquare
  have hpos : 0 < (Binary64.ofNat 100).code :=
    code_pos_of_magnitude (Binary64.one_pos.trans_le (one_le_magnitude_round false (by decide)))
  obtain ⟨hlow, hhigh⟩ := centCode_between
  have hcode := (le_jitter hpos hten hordinal (show centCode ≤ infinityCode by decide)
    (by rw [hhundred]; exact hhigh)).2
  rw [magnitude_eq]
  exact hlow.trans (Nat.mul_le_mul_left _ (codeMagnitude_strictMono.monotone hcode))

/-! ## Sums that are larger -/

/-- The next code is one last place away. -/
theorem codeMagnitude_succ_le (hlow : 2 ^ 1022 ≤ x.magnitude) :
    codeMagnitude (x.code + 1) ≤ x.magnitude + 2 ^ (x.leadingPlace - 52) := by
  have hpos := significand_ne_zero hlow
  have hunit : codeUnit x.code ≤ x.leadingPlace - 52 := by
    have hnormal := codeSignificand_normal x.code
    rw [← significand_eq, ← unitExponent_eq] at hnormal
    rw [leadingPlace, ← unitExponent_eq]
    rcases hnormal with hfull | hzero
    · have := (Nat.le_log2 hpos).mpr hfull
      omega
    · omega
  rw [codeMagnitude_succ, ← magnitude_eq]
  exact Nat.add_le_add_left (Nat.pow_le_pow_right (by decide) hunit) _

/-- A sum that exceeds the double by a last place has a larger code. -/
theorem succ_le_code_add {c j : Binary64} (hc : c.Unsigned) (hj : j.Unsigned)
    (hlow : 2 ^ 1022 ≤ x.magnitude) (hfinite : x.isFinite = true)
    (h : x.magnitude + 2 ^ (x.leadingPlace - 52) ≤ c.magnitude + j.magnitude) :
    x.code + 1 ≤ (c.add j).code :=
  le_code_add hc hj (of_decide_eq_true hfinite) ((codeMagnitude_succ_le hlow).trans h)

theorem unsigned_toCents (hx : x.Unsigned) (hfinite : x.isFinite = true) :
    x.toCents.Unsigned ∧ x.toCents.isFinite = true := by
  have hcode : x.code < infinityCode := of_decide_eq_true hfinite
  have hmax : max x.code (powerCode 104) < infinityCode := max_lt hcode (by decide)
  have hcents := toCents_code_le (le_max_left x.code (powerCode 104)) (le_max_right _ _)
  exact ⟨⟨hcents.trans hmax.le, (isNegative_toCents x).trans hx.isNegative⟩,
    isFinite_of_code_le hcents hmax⟩

theorem magnitude_lt_place (x : Binary64) : x.magnitude < 2 ^ (x.leadingPlace + 1) := by
  have hself : x.significand < 2 ^ (x.significand.log2 + 1) := Nat.lt_log2_self
  have hmul := Nat.mul_lt_mul_of_pos_right hself (Nat.two_pow_pos x.unitExponent)
  rwa [← Nat.pow_add, ← Nat.shiftLeft_eq, Nat.add_right_comm, Nat.add_comm _ x.unitExponent] at hmul

/-- Where cents take nothing off, the jitter shows. -/
theorem place_le_of_cents (hlow : 2 ^ 1022 ≤ x.magnitude) (hfinite : x.isFinite = true)
    (hordinal : 1 ≤ ordinal) (hcents : x.code ≤ x.toCents.code) :
    x.magnitude + 2 ^ (x.leadingPlace - 52) ≤ x.toCents.magnitude + (jitter x ordinal).magnitude := by
  have hjitter := (place_le_jitter hlow hfinite hordinal).2
  have hmono : 2 ^ (x.leadingPlace - 52) ≤ 2 ^ (x.leadingPlace - 19) :=
    Nat.pow_le_pow_right (by decide) (by omega)
  exact Nat.add_le_add (magnitude_mono hcents) (hmono.trans hjitter)

/-- From a hundred on, the jitter is more than cents can take off. -/
theorem place_le_of_hundred (hlarge : 100 * Binary64.one ≤ x.magnitude)
    (hfinite : x.isFinite = true) (hordinal : 1 ≤ ordinal) :
    x.magnitude + 2 ^ (x.leadingPlace - 52) ≤ x.toCents.magnitude + (jitter x ordinal).magnitude := by
  have hlow := low_le_one.trans ((Nat.le_mul_of_pos_left _ (by decide)).trans hlarge)
  have hplace := le_leadingPlace hlow
  have hjitter := (place_le_jitter hlow hfinite hordinal).2
  have hcent := cent_le_jitter hlarge hfinite hordinal
  have hbelow := magnitude_lt_place x
  have hcents := toCents_ge x
  have hone := one_pos_rat
  obtain ⟨p, hp⟩ := Nat.exists_eq_add_of_le' (show 52 ≤ x.leadingPlace by omega)
  rw [hp, show p + 52 - 19 = p + 33 by omega, Nat.pow_add] at hjitter
  rw [hp, Nat.add_assoc, Nat.pow_add] at hbelow
  rw [hp, Nat.add_sub_cancel]
  have hjitter : (2 : ℚ) ^ p * 2 ^ 33 ≤ (jitter x ordinal).magnitude := by exact_mod_cast hjitter
  have hbelow : (x.magnitude : ℚ) ≤ 2 ^ p * 2 ^ 53 := by exact_mod_cast hbelow.le
  have hcent : 9999 * (Binary64.one : ℚ) ≤ 1000000 * (jitter x ordinal).magnitude := by
    exact_mod_cast hcent
  have hcents : (1 - 1 / 2 ^ 40) * (x.magnitude : ℚ) - 51 / 10000 * Binary64.one ≤
      x.toCents.magnitude := by
    rw [size, size, ← mul_div_assoc, sub_le_iff_le_add, div_le_iff₀ hone, add_mul,
      div_mul_cancel₀ _ hone.ne'] at hcents
    linarith
  have hpower : (0 : ℚ) < 2 ^ p := by positivity
  have hgoal : (x.magnitude : ℚ) + 2 ^ p ≤ x.toCents.magnitude + (jitter x ordinal).magnitude := by
    rcases le_total ((2 : ℚ) ^ p * 4096 * 1000) (4 * Binary64.one) with h | h <;> linarith
  exact_mod_cast hgoal

/-! ## Sums that are one double -/

/-- The power of ten is at least a thirty-second of the double, and not far below one. -/
theorem size_tenTo (hlow : 2 ^ 1022 ≤ x.magnitude) (hfinite : x.isFinite = true) :
    x.size ≤ 32 * (tenTo x.powerOfTen).size ∧ 1 / 2 ^ 56 ≤ (tenTo x.powerOfTen).size := by
  have hplace := le_leadingPlace hlow
  have hbelow := magnitude_lt_place x
  have hten : 2 ^ (x.leadingPlace - 4) ≤ (tenTo x.powerOfTen).magnitude := by
    rw [magnitude_eq (tenTo _), ← codeMagnitude_placeCode (by omega)]
    exact codeMagnitude_strictMono.monotone (le_tenTo_powerOfTen hlow hfinite)
  constructor
  · rw [show x.leadingPlace + 1 = 5 + (x.leadingPlace - 4) by omega, Nat.pow_add] at hbelow
    have hle : (x.magnitude : ℚ) ≤ 32 * (tenTo x.powerOfTen).magnitude := by
      exact_mod_cast hbelow.le.trans (Nat.mul_le_mul_left _ hten)
    rw [size, size, ← mul_div_assoc]
    exact div_le_div_of_nonneg_right hle one_pos_rat.le
  · have hone : Binary64.one ≤ 2 ^ (56 + (x.leadingPlace - 4)) := by
      rw [show 56 + (x.leadingPlace - 4) = x.leadingPlace - 1022 + 1074 by omega, two_pow_add_units]
      exact Nat.le_mul_of_pos_left _ (Nat.two_pow_pos _)
    rw [Nat.pow_add] at hone
    have hle : (Binary64.one : ℚ) ≤ 2 ^ 56 * (tenTo x.powerOfTen).magnitude := by
      exact_mod_cast hone.trans (Nat.mul_le_mul_left _ hten)
    rw [size, le_div_iff₀ one_pos_rat]
    linarith

theorem unsigned_product (hlow : 2 ^ 1022 ≤ x.magnitude) (hfinite : x.isFinite = true)
    (hordinal : 1 ≤ ordinal) :
    0 < (tenTo x.powerOfTen).code ∧ 0 < (Binary64.ofNat ordinal).code ∧
      ((tenTo x.powerOfTen).mul (.ofNat ordinal)).Unsigned := by
  have hplace := le_leadingPlace hlow
  have hten : 0 < (tenTo x.powerOfTen).code :=
    lt_of_lt_of_le (by rw [placeCode]; omega) (le_tenTo_powerOfTen hlow hfinite)
  have hcode := code_pos_of_magnitude
    (Binary64.one_pos.trans_le (one_le_magnitude_round false hordinal))
  exact ⟨hten, hcode, unsigned_mul (unsigned_tenTo _) (unsigned_ofNat _) hten hcode⟩

/-- The product under a jitter costs two roundings, and is far above the least doubles. -/
theorem near_product (hlow : 2 ^ 1022 ≤ x.magnitude) (hfinite : x.isFinite = true)
    (hordinal : 1 ≤ ordinal) (h : ((tenTo x.powerOfTen).mul (.ofNat ordinal)).isFinite = true) :
    Near (roundoff + roundoff + roundoff * roundoff) ((tenTo x.powerOfTen).mul (.ofNat ordinal)).size
        ((tenTo x.powerOfTen).size * ordinal) ∧
      1 / 2 ^ 58 ≤ ((tenTo x.powerOfTen).mul (.ofNat ordinal)).size := by
  have hu : roundoff = 1 / 2 ^ 53 := rfl
  obtain ⟨-, hten⟩ := size_tenTo hlow hfinite
  obtain ⟨hten0, hordinal0, -⟩ := unsigned_product hlow hfinite hordinal
  obtain ⟨htenf, hordinalf⟩ := isFinite_of_mul (unsigned_tenTo _) (unsigned_ofNat _) hten0 hordinal0 h
  have hk : (1 : ℚ) ≤ ordinal := by exact_mod_cast hordinal
  have hnear := near_ofNat hordinalf
  have hhalf : 1 / 2 ≤ (Binary64.ofNat ordinal).size := by
    have := hnear.1
    rw [hu] at this
    linarith
  have hexact : 1 / 2 ^ 57 ≤ (tenTo x.powerOfTen).size * (Binary64.ofNat ordinal).size :=
    calc (1 : ℚ) / 2 ^ 57 = 1 / 2 ^ 56 * (1 / 2) := by norm_num
      _ ≤ _ := mul_le_mul hten hhalf (by norm_num) (size_nonneg _)
  have hproduct := near_mul (unsigned_tenTo _) (unsigned_ofNat _) htenf hordinalf
    (le_trans (by norm_num) hexact) h
  have hfactor := hnear.mul_right (size_nonneg (tenTo x.powerOfTen))
  rw [mul_comm, mul_comm (ordinal : ℚ)] at hfactor
  refine ⟨hproduct.trans hfactor (mul_nonneg (size_nonneg _) (by linarith)) (by rw [hu]; norm_num)
    (by rw [hu]; norm_num) (by rw [hu]; norm_num), ?_⟩
  have := hproduct.1
  rw [hu] at this
  linarith

/-- A finite jitter is the ordinal's share of the power of ten but for what four roundings cost. -/
theorem near_jitter (hlow : 2 ^ 1022 ≤ x.magnitude) (hfinite : x.isFinite = true)
    (hordinal : 1 ≤ ordinal) (h : (jitter x ordinal).isFinite = true) :
    Near (4 * roundoff) (jitter x ordinal).size
      ((tenTo x.powerOfTen).size * ordinal / 10000) := by
  have hu : roundoff = 1 / 2 ^ 53 := rfl
  obtain ⟨hscalef, hscale⟩ := magnitude_ofNat (show 10000 < 2 ^ 53 by decide)
  have hscalesize : (Binary64.ofNat 10000).size = 10000 := size_ofNat (by decide)
  obtain ⟨-, -, hmul⟩ := unsigned_product hlow hfinite hordinal
  have hproductf := isFinite_of_div hmul (unsigned_ofNat _) hscalef h
  obtain ⟨hproduct, hfar⟩ := near_product hlow hfinite hordinal hproductf
  have hquotient := near_div hmul (unsigned_ofNat 10000) hproductf hscalef
    (by rw [hscale]; exact Nat.mul_pos (by decide) Binary64.one_pos)
    (by rw [hscalesize, le_div_iff₀ (by norm_num)]; linarith) h
  rw [hscalesize] at hquotient
  have hshare : (0 : ℚ) ≤ (tenTo x.powerOfTen).size * ordinal / 10000 :=
    div_nonneg (mul_nonneg (size_nonneg _) (Nat.cast_nonneg _)) (by norm_num)
  have hfour : roundoff + (roundoff + roundoff + roundoff * roundoff) +
      roundoff * (roundoff + roundoff + roundoff * roundoff) ≤ 4 * roundoff := by
    rw [hu]
    norm_num
  exact (hquotient.trans (hproduct.div_right (show (0 : ℚ) ≤ 10000 by norm_num)) hshare
    (by rw [hu]; norm_num) (by rw [hu]; norm_num) (by rw [hu]; norm_num)).mono hshare hfour

/-- A double and cents have at most one jitter between them: the shares of two ordinals differ by far
more than roundings can hide. -/
theorem jitter_unique {c : Binary64} {k k' : Nat} (hc : c.Unsigned) (hlow : 2 ^ 1022 ≤ x.magnitude)
    (hfinite : x.isFinite = true) (hk : 1 ≤ k) (hlt : k < k')
    (h : (c.add (jitter x k)).code = x.code) : (c.add (jitter x k')).code ≠ x.code := by
  intro h'
  have hsum {j : Nat} (hj : 1 ≤ j) (h : (c.add (jitter x j)).code = x.code) :
      Near roundoff x.size (c.size + (jitter x j).size) ∧ Near (4 * roundoff) (jitter x j).size
        ((tenTo x.powerOfTen).size * j / 10000) := by
    have hunsigned := (place_le_jitter hlow hfinite hj).1
    have hsumf : (c.add (jitter x j)).isFinite = true := by
      rw [isFinite, h]
      exact hfinite
    have hnear := near_add hc hunsigned hsumf
    rw [size_of_code h, ← magnitude_eq, ← size] at hnear
    exact ⟨hnear, near_jitter hlow hfinite hj (isFinite_of_add hc hunsigned hsumf).2⟩
  obtain ⟨hsumk, hjitterk⟩ := hsum hk h
  obtain ⟨hsumk', hjitterk'⟩ := hsum (by omega) h'
  obtain ⟨hten, hpos⟩ := size_tenTo hlow hfinite
  have hcsize := size_nonneg c
  have hnext : (k : ℚ) + 1 ≤ k' := by exact_mod_cast hlt
  have hstep : (tenTo x.powerOfTen).size * k / 10000 + (tenTo x.powerOfTen).size / 10000 ≤
      (tenTo x.powerOfTen).size * k' / 10000 := by
    have := mul_le_mul_of_nonneg_left hnext (size_nonneg (tenTo x.powerOfTen))
    linarith
  generalize (tenTo x.powerOfTen).size * k / 10000 = share at *
  generalize (tenTo x.powerOfTen).size * k' / 10000 = share' at *
  obtain ⟨hsum₁, hsum₂⟩ := hsumk
  obtain ⟨hsum₁', hsum₂'⟩ := hsumk'
  obtain ⟨hjitter₁, hjitter₂⟩ := hjitterk
  obtain ⟨hjitter₁', hjitter₂'⟩ := hjitterk'
  simp only [roundoff] at *
  linarith

end Number

end DocQuery
