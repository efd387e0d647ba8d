import DocQuery.Proofs.Number.PowerOfTen

/-!
# Powers of ten below one

The decimal logarithm of a double below one is worked out from numbers that are not above zero. All its
steps lead away from zero, so what the first of them come to is a bound of the whole.

* `powerOfTen_neg`: a double below one has a negative power of ten.
* `powerOfTen_lt_neg_one`: below 25/256 the power is -2 at most.
-/

namespace DocQuery

namespace Binary64

/-! ## Doubles not above zero -/

/-- The double is finite and not above zero. -/
structure Nonpositive (x : Binary64) : Prop where
  isFinite : x.isFinite = true
  sign : x.isNegative = true ∨ x.code = 0

section

variable {x y : Binary64} {c : Nat}

theorem Nonpositive.scaled (h : x.Nonpositive) : x.scaled = -(x.magnitude : Int) := by
  unfold Binary64.scaled
  rcases h.sign with hsign | hzero
  · rw [if_pos hsign]
  · rw [magnitude_eq, hzero, codeMagnitude_zero]
    split <;> rfl

theorem Nonpositive.floor_lt {n : Nat} (h : x.Nonpositive) (hn : n * one < x.magnitude) :
    x.floor < -(n : Int) := by
  rw [floor, h.scaled]
  refine Int.ediv_lt_of_lt_mul (Int.natCast_pos.mpr one_pos) ?_
  have hscaled : ((n * one : Nat) : Int) = n * one := Int.natCast_mul n one
  rw [Int.neg_mul]
  omega

/-- A sum of numbers not above zero is that of their magnitudes, below zero if there is any. -/
theorem Nonpositive.add_eq (hx : x.Nonpositive) (hy : y.Nonpositive) : x.add y =
    if x.magnitude + y.magnitude = 0 then ofCode (x.isNegative && y.isNegative) 0
    else round true (x.magnitude + y.magnitude) 1 := by
  obtain ⟨hxn, hxi⟩ := finite_flags le_rfl (of_decide_eq_true hx.isFinite)
  obtain ⟨hyn, hyi⟩ := finite_flags le_rfl (of_decide_eq_true hy.isFinite)
  have hsum : x.scaled + y.scaled = -((x.magnitude + y.magnitude : Nat) : Int) := by
    rw [hx.scaled, hy.scaled]
    omega
  simp only [add, hxn, hyn, hxi, hyi, hsum, Bool.or_self, Bool.false_eq_true, if_false,
    Int.natAbs_neg, Int.natAbs_natCast]
  by_cases hzero : x.magnitude + y.magnitude = 0
  · rw [if_pos hzero, if_pos (by omega)]
  · rw [if_neg hzero, if_neg (by omega), decide_eq_true (by omega)]

theorem Nonpositive.code_add (hx : x.Nonpositive) (hy : y.Nonpositive) :
    (x.add y).code = roundedCode (x.magnitude + y.magnitude) 1 := by
  rw [hx.add_eq hy]
  split
  · rename_i hzero
    rw [code_ofCode (by decide), hzero]
    decide
  · exact code_round _ _ _

theorem Nonpositive.add (hx : x.Nonpositive) (hy : y.Nonpositive) (hfinite : (x.add y).isFinite = true) :
    (x.add y).Nonpositive := by
  refine ⟨hfinite, ?_⟩
  rw [hx.add_eq hy]
  split
  · exact .inr (code_ofCode (by decide))
  · exact .inl (isNegative_round _ _ _)

/-- It is at least as far from zero as any code that the magnitudes come to. -/
theorem Nonpositive.le_code_add (hx : x.Nonpositive) (hy : y.Nonpositive) (hc : c ≤ infinityCode)
    (h : codeMagnitude c ≤ x.magnitude + y.magnitude) : c ≤ (x.add y).code := by
  rw [hx.code_add hy]
  exact le_roundedCode Nat.one_pos (by rwa [Nat.mul_one]) hc

theorem isNegative_mul_of_finite (hx : x.isFinite = true) (hy : y.isFinite = true) :
    (x.mul y).isNegative = (x.isNegative != y.isNegative) := by
  obtain ⟨hxn, hxi⟩ := finite_flags le_rfl (of_decide_eq_true hx)
  obtain ⟨hyn, hyi⟩ := finite_flags le_rfl (of_decide_eq_true hy)
  simp only [mul, hxn, hyn, hxi, hyi, Bool.or_self, Bool.false_eq_true, if_false]
  exact isNegative_round _ _ _

theorem code_mul_zero (hx : x.isFinite = true) (hy : y.isFinite = true)
    (h : x.code = 0 ∨ y.code = 0) : (x.mul y).code = 0 := by
  have hzero : x.magnitude * y.magnitude = 0 := by
    rw [Nat.mul_eq_zero, magnitude_eq x, magnitude_eq y]
    exact h.imp (fun h => by rw [h, codeMagnitude_zero]) (fun h => by rw [h, codeMagnitude_zero])
  rw [code_mul hx hy, hzero]
  decide

theorem Nonpositive.mul_unsigned (hx : x.Nonpositive) (hy : y.Unsigned) (hyf : y.isFinite = true)
    (hfinite : (x.mul y).isFinite = true) : (x.mul y).Nonpositive := by
  refine ⟨hfinite, hx.sign.imp (fun hsign => ?_) fun hzero => code_mul_zero hx.isFinite hyf (.inl hzero)⟩
  rw [isNegative_mul_of_finite hx.isFinite hyf, hsign, hy.isNegative]
  rfl

theorem Unsigned.mul_nonpositive (hx : x.Unsigned) (hxf : x.isFinite = true) (hy : y.Nonpositive)
    (hfinite : (x.mul y).isFinite = true) : (x.mul y).Nonpositive := by
  refine ⟨hfinite, hy.sign.imp (fun hsign => ?_) fun hzero => code_mul_zero hxf hy.isFinite (.inr hzero)⟩
  rw [isNegative_mul_of_finite hxf hy.isFinite, hsign, hx.isNegative]
  rfl

end

/-! ## Steps of the logarithm -/

/-- The steps from numbers not above zero come to at least the last two shares. -/
theorem le_log10Sum {e ln : Binary64} (he : e.Nonpositive) (hec : e.code ≤ powerCode 6)
    (hln : ln.Nonpositive) (hlnc : ln.code ≤ powerCode 0) : (log10Sum e ln).Nonpositive ∧
      ∀ c ≤ infinityCode, codeMagnitude c ≤
        (log10OfE.mul ln).magnitude + (e.mul log10OfTwoLead).magnitude →
          codeMagnitude c ≤ (log10Sum e ln).magnitude := by
  have hrestc : (e.mul log10OfTwoRest).code ≤ powerCode 0 :=
    mul_code_le hec le_rfl (by decide) (by decide) (by decide +kernel)
  have hfactorc : (log10OfE.mul ln).code ≤ powerCode 0 :=
    mul_code_le le_rfl hlnc (by decide) (by decide) (by decide +kernel)
  have hleadc : (e.mul log10OfTwoLead).code ≤ powerCode 6 :=
    mul_code_le hec le_rfl (by decide) (by decide) (by decide +kernel)
  have hsmallc : ((e.mul log10OfTwoRest).add (log10OfE.mul ln)).code ≤ powerCode 1 :=
    add_code_le hrestc hfactorc (by decide) (by decide) (by decide +kernel)
  have hsumc : (log10Sum e ln).code ≤ powerCode 7 :=
    add_code_le hsmallc hleadc (by decide) (by decide) (by decide +kernel)
  have hrest := he.mul_unsigned unsigned_log10OfTwoRest (by decide)
    (isFinite_of_code_le hrestc (by decide))
  have hfactor := unsigned_log10OfE.mul_nonpositive (by decide) hln
    (isFinite_of_code_le hfactorc (by decide))
  have hlead := he.mul_unsigned unsigned_log10OfTwoLead (by decide)
    (isFinite_of_code_le hleadc (by decide))
  have hsmall := hrest.add hfactor (isFinite_of_code_le hsmallc (by decide))
  refine ⟨hsmall.add hlead (isFinite_of_code_le hsumc (by decide)), fun c hc hle => ?_⟩
  have hgrows : (log10OfE.mul ln).code ≤ ((e.mul log10OfTwoRest).add (log10OfE.mul ln)).code :=
    hrest.le_code_add hfactor (of_decide_eq_true hfactor.isFinite).le
      (by rw [← magnitude_eq]; exact Nat.le_add_left _ _)
  have hcode : c ≤ (log10Sum e ln).code := hsmall.le_code_add hlead hc
    (hle.trans (Nat.add_le_add_right (magnitude_mono hgrows) _))
  rw [magnitude_eq (log10Sum e ln)]
  exact codeMagnitude_strictMono.monotone hcode

/-- The exponent of a double below one. -/
theorem nonpositive_ofInt {k : Nat} (h : k < 2 ^ 53) :
    (ofInt (-(k : Nat))).Nonpositive ∧ (ofInt (-(k : Nat))).magnitude = k * one := by
  have hcode : (ofInt (-(k : Nat))).code = (ofNat k).code := by
    rw [ofInt, ofNat, code_round, code_round, Int.natAbs_neg, Int.natAbs_natCast]
  obtain ⟨hfinite, hmagnitude⟩ := magnitude_ofNat h
  rw [isFinite, ← hcode, ← isFinite] at hfinite
  rw [magnitude_eq, ← hcode, ← magnitude_eq] at hmagnitude
  refine ⟨⟨hfinite, ?_⟩, hmagnitude⟩
  rcases Nat.eq_zero_or_pos k with rfl | hpos
  · exact .inr (by decide)
  · left
    rw [ofInt, isNegative_round, decide_eq_true_eq]
    omega

/-- The natural logarithm of a number from one half up to below one. -/
theorem nonpositive_lnRatio {p q : Nat} (h : p < q) (hhalf : q ≤ 2 * p) :
    (lnRatio p q).Nonpositive ∧ (lnRatio p q).code ≤ powerCode 0 := by
  have hcode := lnRatio_code_le (p := p) (q := q) (by omega) (by omega)
  refine ⟨⟨isFinite_of_code_le hcode (by decide), .inl ?_⟩, hcode⟩
  rw [lnRatio, isNegative_ofCode (leaningCode_lt _ _), decide_eq_true h]

/-- The first term of the series is a bound from below. -/
theorem le_lnMagnitude {p q : Nat} (h : p < q) :
    2 * ((q - p) * 2 ^ 192 / (p + q)) ≤ lnMagnitude p q := by
  have hdistance : p - q + (q - p) = q - p := by omega
  simp only [lnMagnitude, hdistance, Nat.shiftLeft_eq]
  rw [artanhTerms, Nat.div_one]
  exact Nat.mul_le_mul_left 2 (Nat.le_add_right _ _)

theorem le_magnitude_mul {x y : Binary64} {c : Nat} (hx : x.isFinite = true) (hy : y.isFinite = true)
    (hc : c ≤ infinityCode) (h : codeMagnitude c * one ≤ x.magnitude * y.magnitude) :
    codeMagnitude c ≤ (x.mul y).magnitude := by
  rw [magnitude_eq (x.mul y), code_mul hx hy]
  exact codeMagnitude_strictMono.monotone (le_roundedCode one_pos h hc)

theorem le_magnitude_lnRatio {p q c : Nat} (hc : c ≤ infinityCode)
    (h : codeMagnitude c * 2 ^ 192 ≤ lnMagnitude p q * one) :
    codeMagnitude c ≤ (lnRatio p q).magnitude := by
  rw [magnitude_eq, lnRatio, code_ofCode (leaningCode_lt _ _), Nat.one_shiftLeft]
  exact codeMagnitude_strictMono.monotone (le_leaningCode (Nat.two_pow_pos 192) h hc)

/-! ## Powers of ten -/

section

variable {x : Binary64} {c n : Nat}

/-- The factor of a double below one. -/
theorem factor_bounds (hpos : x.significand ≠ 0) :
    x.significand < 2 * 2 ^ x.significand.log2 ∧ 2 * 2 ^ x.significand.log2 ≤ 2 * x.significand := by
  have hlt : x.significand < 2 ^ (x.significand.log2 + 1) := Nat.lt_log2_self
  rw [Nat.pow_succ, Nat.mul_comm] at hlt
  exact ⟨hlt, Nat.mul_le_mul_left 2 (Nat.log2_self_le hpos)⟩

/-- The two last shares of the logarithm bound the power of ten. -/
theorem powerOfTen_lt_of_shares (hpos : x.significand ≠ 0) (hlow : 1022 ≤ x.leadingPlace)
    (hhigh : x.leadingPlace < 1074) (hc : c ≤ infinityCode)
    (h : codeMagnitude c ≤
      (log10OfE.mul (lnRatio x.significand (2 * 2 ^ x.significand.log2))).magnitude +
        ((ofInt (-(1073 - x.leadingPlace : Nat))).mul log10OfTwoLead).magnitude)
    (hn : n * one < codeMagnitude c) : x.powerOfTen < -(n : Int) := by
  obtain ⟨hlt, hhalf⟩ := factor_bounds hpos
  obtain ⟨he, hemagnitude⟩ := nonpositive_ofInt (k := 1073 - x.leadingPlace) (by omega)
  obtain ⟨hln, hlnc⟩ := nonpositive_lnRatio hlt hhalf
  have hec : (ofInt (-(1073 - x.leadingPlace : Nat))).code ≤ powerCode 6 := by
    refine ofInt_code_le ?_
    rw [codeMagnitude_powerCode, Int.natAbs_neg, Int.natAbs_natCast]
    exact Nat.mul_le_mul_right _ (by omega)
  obtain ⟨hsum, hle⟩ := le_log10Sum he hec hln hlnc
  rw [powerOfTen, log10_of_lt_one hhigh]
  exact hsum.floor_lt (hn.trans_le (hle c hc h))

/-- A double below one has a negative power of ten, however close to one it is. -/
theorem powerOfTen_neg (hlow : 2 ^ 1022 ≤ x.magnitude) (hhigh : x.magnitude < one) :
    x.powerOfTen < 0 := by
  have hpos := significand_ne_zero hlow
  obtain ⟨hlt, hhalf⟩ := factor_bounds hpos
  have hln := (nonpositive_lnRatio hlt hhalf).1
  have hroom : x.significand < 2 ^ 53 := significand_eq x ▸ codeSignificand_lt x.code
  have hterm : 1 ≤ lnMagnitude x.significand (2 * 2 ^ x.significand.log2) := by
    have hfirst := le_lnMagnitude hlt
    generalize 2 * 2 ^ x.significand.log2 = q at *
    have hone : 1 ≤ (q - x.significand) * 2 ^ 192 / (x.significand + q) :=
      (Nat.one_le_div_iff (by omega)).mpr (by omega)
    omega
  have hlnmagnitude : codeMagnitude 4 ≤
      (lnRatio x.significand (2 * 2 ^ x.significand.log2)).magnitude := by
    refine le_magnitude_lnRatio (by decide) (le_trans ?_ (Nat.mul_le_mul_right one hterm))
    decide +kernel
  have hfactor : codeMagnitude 1 ≤
      (log10OfE.mul (lnRatio x.significand (2 * 2 ^ x.significand.log2))).magnitude :=
    le_magnitude_mul (by decide) hln.isFinite (by decide)
      (le_trans (by decide +kernel) (Nat.mul_le_mul_left log10OfE.magnitude hlnmagnitude))
  exact powerOfTen_lt_of_shares (n := 0) hpos (le_leadingPlace hlow)
    (leadingPlace_lt hpos (one_eq ▸ hhigh)) (by decide)
    (hfactor.trans (Nat.le_add_right _ _)) (by decide +kernel)

/-- The code of 15/64, which is less than twice 7/57. -/
def lnShareCode : Nat := 0x3FCE000000000000

/-- The code of 13/128. -/
def factorShareCode : Nat := 0x3FBA000000000000

/-- The code of 231/256, which is less than three times the decimal logarithm of two. -/
def leadShareCode : Nat := 0x3FECE00000000000

/-- The code of 257/256. -/
def aboveOneCode : Nat := 0x3FF0100000000000

/-- What the shares come to: three quarters of a power of two and a little are worth more than one. -/
theorem shares_above :
    codeMagnitude lnShareCode * 2 ^ 192 ≤ 15 * 2 ^ 186 * one ∧
      codeMagnitude factorShareCode * one ≤ log10OfE.magnitude * codeMagnitude lnShareCode ∧
      codeMagnitude leadShareCode * one ≤ 3 * one * log10OfTwoLead.magnitude ∧
      codeMagnitude aboveOneCode * one ≤ 4 * one * log10OfTwoLead.magnitude ∧
      codeMagnitude aboveOneCode ≤ codeMagnitude factorShareCode + codeMagnitude leadShareCode ∧
      1 * one < codeMagnitude aboveOneCode := by
  decide +kernel

/-- A double from a sixteenth up that is below 25/256 has a factor below 25/32. -/
theorem factor_lt (hplace : x.leadingPlace = 1070) (hhigh : 256 * x.magnitude < 25 * one) :
    32 * x.significand < 25 * (2 * 2 ^ x.significand.log2) := by
  have hone : 2 ^ x.unitExponent * (16 * 2 ^ x.significand.log2) = one := by
    rw [← two_pow_mul_eq_one (a := x.unitExponent) (b := 4 + x.significand.log2)
      (by rw [leadingPlace] at hplace; omega), Nat.pow_add]
  rw [← hone, magnitude, Nat.shiftLeft_eq] at hhigh
  refine Nat.lt_of_mul_lt_mul_left (a := 2 ^ x.unitExponent * 8) ?_
  calc 2 ^ x.unitExponent * 8 * (32 * x.significand)
      = 256 * (x.significand * 2 ^ x.unitExponent) := by ring
    _ < 25 * (2 ^ x.unitExponent * (16 * 2 ^ x.significand.log2)) := hhigh
    _ = 2 ^ x.unitExponent * 8 * (25 * (2 * 2 ^ x.significand.log2)) := by ring

/-- Below 25/32 the first term of the logarithm is worth more than twice 7/57. -/
theorem le_lnMagnitude_of_lt {p q : Nat} (h : 32 * p < 25 * q) : 15 * 2 ^ 186 ≤ lnMagnitude p q := by
  have hquotient : 15 * 2 ^ 185 ≤ (q - p) * 2 ^ 192 / (p + q) :=
    (Nat.le_div_iff_mul_le (by omega)).mpr (by omega)
  calc 15 * 2 ^ 186 = 2 * (15 * 2 ^ 185) := by ring
    _ ≤ 2 * ((q - p) * 2 ^ 192 / (p + q)) := Nat.mul_le_mul_left 2 hquotient
    _ ≤ lnMagnitude p q := le_lnMagnitude (by omega)

/-- A double below 25/256 has a power of ten of -2 or less. -/
theorem powerOfTen_lt_neg_one (hlow : 2 ^ 1022 ≤ x.magnitude) (hhigh : 256 * x.magnitude < 25 * one) :
    x.powerOfTen < -1 := by
  have hpos := significand_ne_zero hlow
  have hplace := le_leadingPlace hlow
  obtain ⟨hlt, hhalf⟩ := factor_bounds hpos
  have hln := (nonpositive_lnRatio hlt hhalf).1
  have heighth : x.leadingPlace < 1071 := by
    refine leadingPlace_lt hpos ?_
    have hone := two_pow_mul_eq_one (show 3 + 1071 = 1074 by rfl)
    generalize 2 ^ 1071 = eighth at hone ⊢
    omega
  obtain ⟨hlnshare, hfactorshare, hthree, hfour, hsum, habove⟩ := shares_above
  obtain ⟨he, hemagnitude⟩ := nonpositive_ofInt (k := 1073 - x.leadingPlace) (by omega)
  have hleadf : log10OfTwoLead.isFinite = true := by decide
  refine powerOfTen_lt_of_shares (n := 1) hpos hplace (by omega) (c := aboveOneCode) (by decide) ?_ habove
  generalize hk : 1073 - x.leadingPlace = k at he hemagnitude ⊢
  by_cases hsixteenth : 4 ≤ k
  -- Below a sixteenth the exponent's share is enough.
  · refine (le_magnitude_mul he.isFinite hleadf (by decide) ?_).trans (Nat.le_add_left _ _)
    rw [hemagnitude]
    exact hfour.trans (Nat.mul_le_mul_right _ (Nat.mul_le_mul_right one hsixteenth))
  -- From a sixteenth up the factor is less than 25/32.
  · obtain rfl : k = 3 := by omega
    have hterm := le_lnMagnitude_of_lt (factor_lt (by omega) hhigh)
    have hlnmagnitude := le_magnitude_lnRatio (c := lnShareCode) (by decide)
      (hlnshare.trans (Nat.mul_le_mul_right one hterm))
    have hfirst := le_magnitude_mul (c := factorShareCode) (by decide) hln.isFinite (by decide)
      (hfactorshare.trans (Nat.mul_le_mul_left _ hlnmagnitude))
    have hlead := le_magnitude_mul (c := leadShareCode) he.isFinite hleadf (by decide)
      (by rw [hemagnitude]; exact hthree)
    exact hsum.trans (Nat.add_le_add hfirst hlead)

end

end Binary64

end DocQuery
