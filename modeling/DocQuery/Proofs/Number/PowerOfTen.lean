import DocQuery.Proofs.Number.Error

/-!
# Powers of ten from below

A double's power of ten is not far below the double, though its decimal logarithm is worked out in
doubles.

* `le_tenTo_powerOfTen`: from `2 ^ -52` on, the power of ten is at least a sixteenth of the power of
  two below the double.
* `two_le_powerOfTen`: from a hundred on, the exponent is at least 2.
-/

namespace DocQuery

namespace Binary64

variable {x : Binary64}

/-! ## Steps of the logarithm -/

/-- The last steps of the decimal logarithm, from the exponent and the natural logarithm of the
factor. -/
def log10Sum (e ln : Binary64) : Binary64 :=
  ((e.mul log10OfTwoRest).add (log10OfE.mul ln)).add (e.mul log10OfTwoLead)

theorem log10_of_one_le (h : 1074 ≤ x.leadingPlace) :
    x.log10 = log10Sum (ofNat (x.leadingPlace - 1074))
      (lnRatio x.significand (2 ^ x.significand.log2)) := by
  have he : ((x.unitExponent + x.significand.log2 : Nat) : Int) - 1074 =
      (x.leadingPlace - 1074 : Nat) := by
    rw [leadingPlace] at h ⊢
    omega
  have hofInt (n : Nat) : ofInt n = ofNat n := by
    rw [ofInt, ofNat, Int.natAbs_natCast, decide_eq_false (by omega)]
  unfold log10
  simp only [he]
  rw [if_neg (by omega), Nat.one_shiftLeft, hofInt]
  rfl

theorem log10_of_lt_one (h : x.leadingPlace < 1074) :
    x.log10 = log10Sum (ofInt (-(1073 - x.leadingPlace : Nat)))
      (lnRatio x.significand (2 * 2 ^ x.significand.log2)) := by
  have he : ((x.unitExponent + x.significand.log2 : Nat) : Int) - 1074 < 0 := by
    rw [leadingPlace] at h
    omega
  have hnext : ((x.unitExponent + x.significand.log2 : Nat) : Int) - 1074 + 1 =
      -(1073 - x.leadingPlace : Nat) := by
    rw [leadingPlace] at h ⊢
    omega
  unfold log10
  simp only [if_pos he, hnext, Nat.shiftLeft_eq]
  rfl

theorem le_floor {n : Nat} (h : x.Unsigned) (hle : n * one ≤ x.magnitude) : (n : Int) ≤ x.floor := by
  rw [floor, h.scaled]
  refine Int.le_ediv_of_mul_le (Int.natCast_pos.mpr one_pos) ?_
  exact_mod_cast hle

theorem neg_le_floor {n : Nat} (h : x.magnitude ≤ n * one) : -(n : Int) ≤ x.floor := by
  have habs : -(x.magnitude : Int) ≤ x.scaled := by
    have := natAbs_scaled x
    omega
  refine Int.le_ediv_of_mul_le (Int.natCast_pos.mpr one_pos) ?_
  have hscaled : ((n * one : Nat) : Int) = n * one := Int.natCast_mul n one
  rw [Int.neg_mul]
  omega

theorem leaningCode_unsigned (n d : Nat) : (ofCode false (leaningCode n d)).Unsigned :=
  unsigned_ofCode (Nat.min_le_right _ _)

section

variable {e ln ln' : Binary64}

theorem unsigned_log10OfTwoLead : log10OfTwoLead.Unsigned := ⟨by decide, by decide⟩

theorem unsigned_log10OfTwoRest : log10OfTwoRest.Unsigned := ⟨by decide, by decide⟩

theorem unsigned_log10OfE : log10OfE.Unsigned := ⟨by decide, by decide⟩

theorem unsigned_steps (he : e.Unsigned) (hef : e.isFinite = true) (hln : ln.Unsigned)
    (hlnf : ln.isFinite = true) : (e.mul log10OfTwoRest).Unsigned ∧ (log10OfE.mul ln).Unsigned ∧
      (e.mul log10OfTwoLead).Unsigned := by
  rw [mul_of_finite he unsigned_log10OfTwoRest hef (by decide),
    mul_of_finite unsigned_log10OfE hln (by decide) hlnf,
    mul_of_finite he unsigned_log10OfTwoLead hef (by decide)]
  exact ⟨unsigned_round _ _, unsigned_round _ _, unsigned_round _ _⟩

/-- The logarithm is at least the exponent's share. -/
theorem lead_le_log10Sum (he : e.Unsigned) (hef : e.isFinite = true) (hln : ln.Unsigned)
    (hlnf : ln.isFinite = true) : (log10Sum e ln).Unsigned ∧
      (e.mul log10OfTwoLead).magnitude ≤ (log10Sum e ln).magnitude := by
  obtain ⟨hrest, hfactor, hlead⟩ := unsigned_steps he hef hln hlnf
  have hsmall := unsigned_add hrest hfactor
  refine ⟨unsigned_add hsmall hlead, magnitude_mono (le_code_add hsmall hlead hlead.code_le ?_)⟩
  rw [← magnitude_eq]
  exact Nat.le_add_left _ _

theorem log10Sum_mono (he : e.Unsigned) (hef : e.isFinite = true) (hln : ln.Unsigned)
    (hln' : ln'.Unsigned) (hlnf : ln'.isFinite = true) (h : ln.code ≤ ln'.code) :
    (log10Sum e ln).magnitude ≤ (log10Sum e ln').magnitude := by
  have hlnf' : ln.isFinite = true := decide_eq_true (h.trans_lt (of_decide_eq_true hlnf))
  obtain ⟨hrest, hfactor, hlead⟩ := unsigned_steps he hef hln hlnf'
  obtain ⟨-, hfactor', -⟩ := unsigned_steps he hef hln' hlnf
  have hproduct : (log10OfE.mul ln).code ≤ (log10OfE.mul ln').code := by
    rw [mul_of_finite unsigned_log10OfE hln (by decide) hlnf',
      mul_of_finite unsigned_log10OfE hln' (by decide) hlnf, code_round, code_round]
    exact roundedCode_mono one_pos (Nat.mul_le_mul_left _ (magnitude_mono h))
  exact magnitude_mono (add_code_mono (unsigned_add hrest hfactor) (unsigned_add hrest hfactor')
    hlead hlead (add_code_mono hrest hrest hfactor hfactor' le_rfl hproduct) le_rfl)

end

/-! ## Natural logarithms -/

/-- The terms of the series grow with the ratio. -/
theorem artanhTerms_mono {a b a' b' : Nat} (hb : 0 < b) (hb' : 0 < b') (h : a * b' ≤ a' * b)
    (count odd : Nat) {power power' : Nat} (hpower : power ≤ power') :
    artanhTerms a b count odd power ≤ artanhTerms a' b' count odd power' := by
  induction count generalizing odd power power' with
  | zero => exact Nat.zero_le _
  | succ count ih =>
    have hnext : power * (a * a) / (b * b) ≤ power' * (a' * a') / (b' * b') := by
      refine (Nat.le_div_iff_mul_le (Nat.mul_pos hb' hb')).mpr ?_
      refine Nat.le_of_mul_le_mul_right ?_ (Nat.mul_pos hb hb)
      have hdiv := Nat.div_mul_le_self (power * (a * a)) (b * b)
      calc power * (a * a) / (b * b) * (b' * b') * (b * b)
          = power * (a * a) / (b * b) * (b * b) * (b' * b') := by ring
        _ ≤ power * (a * a) * (b' * b') := Nat.mul_le_mul_right _ hdiv
        _ = power * ((a * b') * (a * b')) := by ring
        _ ≤ power' * ((a' * b) * (a' * b)) := Nat.mul_le_mul hpower (Nat.mul_le_mul h h)
        _ = power' * (a' * a') * (b * b) := by ring
    exact Nat.add_le_add (Nat.div_le_div_right hpower) (ih (odd + 2) hnext)

/-- From one up the logarithm grows with the number. -/
theorem lnMagnitude_mono {p p' q : Nat} (hq : 0 < q) (hqp : q ≤ p) (h : p ≤ p') :
    lnMagnitude p q ≤ lnMagnitude p' q := by
  obtain ⟨a, rfl⟩ := Nat.exists_eq_add_of_le hqp
  obtain ⟨b, rfl⟩ := Nat.exists_eq_add_of_le h
  have hdistance (c : Nat) : (q + c - q) + (q - (q + c)) = c := by omega
  have hratio : a * (q + a + b + q) ≤ (a + b) * (q + a + q) := by
    have : a * b ≤ b * (2 * q) + a * b := Nat.le_add_left _ _
    nlinarith
  have hfirst : (a <<< 192) / (q + a + q) ≤ ((a + b) <<< 192) / (q + a + b + q) := by
    rw [Nat.shiftLeft_eq, Nat.shiftLeft_eq]
    refine (Nat.le_div_iff_mul_le (by omega)).mpr (Nat.le_of_mul_le_mul_right ?_
      (show 0 < q + a + q by omega))
    have hdiv := Nat.div_mul_le_self (a * 2 ^ 192) (q + a + q)
    have := Nat.mul_le_mul_left (2 ^ 192) hratio
    generalize 2 ^ 192 = k at *
    calc a * k / (q + a + q) * (q + a + b + q) * (q + a + q)
        = a * k / (q + a + q) * (q + a + q) * (q + a + b + q) := by ring
      _ ≤ a * k * (q + a + b + q) := Nat.mul_le_mul_right _ hdiv
      _ = k * (a * (q + a + b + q)) := by ring
      _ ≤ k * ((a + b) * (q + a + q)) := this
      _ = (a + b) * k * (q + a + q) := by ring
  unfold lnMagnitude
  simp only []
  rw [hdistance a, show q + a + b - q + (q - (q + a + b)) = a + b by omega]
  exact Nat.mul_le_mul_left 2 (artanhTerms_mono (by omega) (by omega) hratio 64 1 hfirst)

theorem unsigned_lnRatio {p q : Nat} (h : q ≤ p) : (lnRatio p q).Unsigned := by
  rw [lnRatio, decide_eq_false h.not_gt]
  exact leaningCode_unsigned _ _

theorem lnRatio_code_mono {p p' q : Nat} (hq : 0 < q) (hqp : q ≤ p) (h : p ≤ p') :
    (lnRatio p q).code ≤ (lnRatio p' q).code := by
  rw [lnRatio, lnRatio, code_ofCode (leaningCode_lt _ _), code_ofCode (leaningCode_lt _ _)]
  exact leaningCode_mono (by decide) (Nat.mul_le_mul_right _ (lnMagnitude_mono hq hqp h))

/-! ## Exponents -/

/-- The code of `2 ^ place` units. -/
def placeCode (place : Nat) : Nat := (place - 52) * 2 ^ 52 + 2 ^ 52

theorem codeMagnitude_placeCode {place : Nat} (h : 52 ≤ place) :
    codeMagnitude (placeCode place) = 2 ^ place := by
  rw [placeCode, codeMagnitude_eq (by decide) (.inl le_rfl), ← Nat.pow_add,
    Nat.add_sub_cancel' h]

/-- The code of a double just above the decimal logarithm of the base of natural logarithms. -/
def codeAboveLog10OfE : Nat := 0x3FDBCB7B20000000

/-- The constants of the logarithm between decimal fractions. -/
theorem constants_between :
    30102 * one ≤ 100000 * log10OfTwoLead.magnitude ∧
      100000 * log10OfTwoLead.magnitude ≤ 30103 * one ∧ 2 ^ 52 ≤ log10OfTwoLead.magnitude ∧
      codeMagnitude (powerCode 6) * codeMagnitude log10OfTwoRest.code ≤
        codeMagnitude (placeCode 1044) * one ∧
      codeMagnitude (placeCode 1044) + codeMagnitude log10OfE.code ≤
        codeMagnitude codeAboveLog10OfE ∧
      100000 * codeMagnitude codeAboveLog10OfE ≤ 43430 * one := by
  decide +kernel

/-- The exponent's share in a logarithm is at least 0.30102 of the exponent, rounded down. -/
theorem le_lead {k : Nat} (h : k < 2 ^ 53) :
    30102 * k / 100000 * one ≤ ((ofNat k).mul log10OfTwoLead).magnitude := by
  obtain ⟨hfinite, hmagnitude⟩ := magnitude_ofNat h
  obtain ⟨-, hshare⟩ := magnitude_ofNat (show 30102 * k / 100000 < 2 ^ 53 by omega)
  have hlead := constants_between.1
  have hdiv := Nat.div_mul_le_self (30102 * k) 100000
  rw [← hshare]
  refine magnitude_mono ?_
  rw [mul_of_finite (unsigned_ofNat k) unsigned_log10OfTwoLead hfinite (by decide), code_round]
  refine le_roundedCode one_pos ?_ (unsigned_ofNat _).code_le
  rw [← magnitude_eq, hshare, hmagnitude]
  generalize 30102 * k / 100000 = n at hdiv
  generalize log10OfTwoLead.magnitude = lead at hlead
  have hfirst := Nat.mul_le_mul_right (one * one) hdiv
  have hsecond := Nat.mul_le_mul_left (k * one) hlead
  refine Nat.le_of_mul_le_mul_right ?_ (show 0 < 100000 by decide)
  calc n * one * one * 100000 = n * 100000 * (one * one) := by ring
    _ ≤ 30102 * k * (one * one) := hfirst
    _ = k * one * (30102 * one) := by ring
    _ ≤ k * one * (100000 * lead) := hsecond
    _ = k * one * lead * 100000 := by ring

theorem significand_ne_zero {k : Nat} (h : 2 ^ k ≤ x.magnitude) : x.significand ≠ 0 := by
  intro hzero
  rw [magnitude, hzero, Nat.zero_shiftLeft] at h
  have := Nat.two_pow_pos k
  omega

theorem leadingPlace_lt_of_finite (hpos : x.significand ≠ 0) (hfinite : x.isFinite = true) :
    x.leadingPlace < 2098 := by
  have hcode : x.code < infinityCode := of_decide_eq_true hfinite
  refine leadingPlace_lt hpos ?_
  have hinfinity : infinityCode = powerCode 1024 := by decide
  rw [two_pow_add_units 1024, ← codeMagnitude_powerCode, ← hinfinity]
  exact magnitude_lt_iff.mpr hcode

theorem lnRatio_isFinite (hpos : x.significand ≠ 0) :
    (lnRatio x.significand (2 ^ x.significand.log2)).isFinite = true := by
  have hself := Nat.log2_self_le hpos
  have hlt : x.significand < 2 ^ (x.significand.log2 + 1) := Nat.lt_log2_self
  rw [Nat.pow_succ] at hlt
  exact isFinite_of_code_le (lnRatio_code_le (by omega) (by omega)) (by decide)

/-- The power of ten of a double from one up. -/
theorem le_powerOfTen_of_one_le (hpos : x.significand ≠ 0) (hlow : 1074 ≤ x.leadingPlace)
    (hhigh : x.leadingPlace < 2098) :
    ((30102 * (x.leadingPlace - 1074) / 100000 : Nat) : Int) ≤ x.powerOfTen := by
  have hexponent := (magnitude_ofNat (show x.leadingPlace - 1074 < 2 ^ 53 by omega)).1
  obtain ⟨hsum, hlead⟩ := lead_le_log10Sum (unsigned_ofNat _) hexponent
    (unsigned_lnRatio (Nat.log2_self_le hpos)) (lnRatio_isFinite hpos)
  rw [powerOfTen, log10_of_one_le hlow]
  exact le_floor hsum ((le_lead (by omega)).trans hlead)

/-- From a hundred on the power of ten is at least 2. Up to 128 this is so because the logarithm does
not fall below that of a hundred. -/
theorem two_le_powerOfTen (h : 100 * one ≤ x.magnitude) (hfinite : x.isFinite = true) :
    2 ≤ x.powerOfTen := by
  have hplace : 2 ^ (6 + 1074) ≤ x.magnitude := by
    rw [two_pow_add_units]
    exact (Nat.mul_le_mul_right one (by decide)).trans h
  have hpos := significand_ne_zero hplace
  have hlow := le_leadingPlace hplace
  have hhigh := leadingPlace_lt_of_finite hpos hfinite
  rcases Nat.lt_or_ge x.leadingPlace 1081 with hsmall | hlarge
  · have hnormal := codeSignificand_normal x.code
    have hlt := codeSignificand_lt x.code
    rw [← significand_eq, ← unitExponent_eq] at hnormal
    rw [← significand_eq] at hlt
    have hlog : x.significand.log2 ≤ 52 := by
      have := (Nat.log2_lt hpos).mpr hlt
      omega
    have hunit : x.unitExponent = 1028 ∧ x.significand.log2 = 52 := by
      rw [leadingPlace] at hlow hsmall
      have hfull := hnormal.resolve_right (by omega)
      have := (Nat.le_log2 hpos).mpr hfull
      omega
    have hsignificand : 100 * 2 ^ 46 ≤ x.significand := by
      rw [magnitude, Nat.shiftLeft_eq, ← two_pow_mul_eq_one (a := 46) (b := x.unitExponent) (by omega),
        ← Nat.mul_assoc] at h
      exact Nat.le_of_mul_le_mul_right h (Nat.two_pow_pos _)
    have hsix := (magnitude_ofNat (show 6 < 2 ^ 53 by decide)).1
    have hmono := log10Sum_mono (e := ofNat 6) (unsigned_ofNat 6) hsix
      (unsigned_lnRatio (p := 100 * 2 ^ 46) (q := 2 ^ 52) (by decide))
      (unsigned_lnRatio (by omega)) (hunit.2 ▸ lnRatio_isFinite hpos)
      (lnRatio_code_mono (by decide) (by decide) hsignificand)
    have hhundred : 2 * one ≤ (log10Sum (ofNat 6) (lnRatio (100 * 2 ^ 46) (2 ^ 52))).magnitude := by
      decide +kernel
    have hln : (lnRatio x.significand (2 ^ 52)).Unsigned := unsigned_lnRatio (by omega)
    have hsum := (lead_le_log10Sum (unsigned_ofNat 6) hsix hln (hunit.2 ▸ lnRatio_isFinite hpos)).1
    rw [powerOfTen, log10_of_one_le (by omega), hunit.2, show x.leadingPlace - 1074 = 6 by omega]
    exact le_floor hsum (hhundred.trans hmono)
  · exact le_trans (by omega) (le_powerOfTen_of_one_le hpos (by omega) hhigh)

/-- A bound of the decimal logarithm's magnitude for a double below one, from its exponent. -/
def placesBelow (k : Nat) : Nat := (30104 * k + 43430) / 100000 + 1

/-- The exponent's share in a logarithm is at most 0.30104 of the exponent. -/
theorem lead_le {k : Nat} (hk : k < 52) : ((ofInt (-(k : Nat))).mul log10OfTwoLead).isFinite = true ∧
    100000 * ((ofInt (-(k : Nat))).mul log10OfTwoLead).magnitude ≤ 30104 * k * one := by
  obtain ⟨-, hhigh, hlow, -⟩ := constants_between
  obtain ⟨hfinite, hmagnitude⟩ := magnitude_ofNat (show k < 2 ^ 53 by omega)
  have hexponent : (ofInt (-(k : Nat))).code = (ofNat k).code := by
    rw [ofInt, ofNat, code_round, code_round, Int.natAbs_neg, Int.natAbs_natCast]
  rw [isFinite, ← hexponent, ← isFinite] at hfinite
  rw [magnitude_eq, ← hexponent, ← magnitude_eq] at hmagnitude
  have hcode := code_mul hfinite (show log10OfTwoLead.isFinite = true by decide)
  rw [hmagnitude] at hcode
  have hbound : ((ofInt (-(k : Nat))).mul log10OfTwoLead).code ≤ powerCode 6 := by
    refine mul_code_le (hexponent ▸ ofNat_code_le_power (k := 6) (by omega)) le_rfl (by decide)
      (by decide) (Nat.mul_le_mul_left _ ?_)
    rw [← magnitude_eq]
    omega
  refine ⟨isFinite_of_code_le hbound (by decide), ?_⟩
  rw [magnitude_eq, hcode]
  rcases Nat.eq_zero_or_pos k with rfl | hpos
  · simp [roundedCode, roundHalfEven]
  · have hroom : 2 ^ 52 * one ≤ k * one * log10OfTwoLead.magnitude := by
      rw [Nat.mul_right_comm]
      exact Nat.mul_le_mul_right _ (hlow.trans (Nat.le_mul_of_pos_left _ hpos))
    have herror := (roundedCode_error one_pos (.inl hroom) (hcode ▸ hbound.trans_lt (by decide))).1
    generalize codeMagnitude (roundedCode (k * one * log10OfTwoLead.magnitude) one) = product at *
    generalize log10OfTwoLead.magnitude = lead at *
    rw [← Nat.mul_assoc, Nat.mul_right_comm k, ← Nat.mul_assoc] at herror
    have herror := Nat.le_of_mul_le_mul_right herror one_pos
    have hshare := Nat.mul_le_mul_left k hhigh
    rw [Nat.mul_left_comm, Nat.mul_left_comm k] at hshare
    rw [Nat.mul_assoc]
    omega

theorem pow_placesBelow : ∀ k < 52, 10 ^ placesBelow k ≤ 2 ^ (k + 5) := by
  decide

/-- A double below one, but not far below. -/
theorem neg_le_powerOfTen (hpos : x.significand ≠ 0) (hlow : 1022 ≤ x.leadingPlace)
    (hhigh : x.leadingPlace < 1074) :
    -(placesBelow (1073 - x.leadingPlace) : Int) ≤ x.powerOfTen := by
  have hlt : x.significand < 2 ^ (x.significand.log2 + 1) := Nat.lt_log2_self
  have hself := Nat.log2_self_le hpos
  rw [Nat.pow_succ] at hlt
  rw [powerOfTen, log10_of_lt_one hhigh]
  generalize hk : 1073 - x.leadingPlace = k
  obtain ⟨-, -, -, hrestc, hsmallc, habovec⟩ := constants_between
  obtain ⟨hleadf, hlead⟩ := lead_le (k := k) (by omega)
  have hplaces : 30104 * k + 43430 ≤ 100000 * placesBelow k ∧ placesBelow k < 2 ^ 53 := by
    unfold placesBelow
    omega
  obtain ⟨-, hbound⟩ := magnitude_ofNat hplaces.2
  have hroom := Nat.mul_le_mul_right one hplaces.1
  rw [Nat.add_mul, Nat.mul_assoc 100000] at hroom
  have hexponent : (ofInt (-(k : Nat))).code ≤ powerCode 6 := by
    refine ofInt_code_le ?_
    rw [codeMagnitude_powerCode, Int.natAbs_neg, Int.natAbs_natCast]
    exact Nat.mul_le_mul_right _ (by omega)
  have hrest := mul_code_le (y := log10OfTwoRest) hexponent le_rfl (by decide) (by decide) hrestc
  have hfactor : (log10OfE.mul (lnRatio x.significand (2 * 2 ^ x.significand.log2))).code ≤
      log10OfE.code :=
    mul_code_le le_rfl (lnRatio_code_le (by omega) (by omega)) (by decide) (by decide) (by
      rw [codeMagnitude_powerCode, Nat.pow_zero, Nat.one_mul])
  have hsmall := add_code_le (c := codeAboveLog10OfE) hrest hfactor (by decide) (by decide) hsmallc
  have hsum := add_code_le (c := (ofNat (placesBelow k)).code) hsmall le_rfl (by decide)
    (of_decide_eq_true hleadf) (by
      rw [← magnitude_eq, ← magnitude_eq, hbound]
      omega)
  refine neg_le_floor ((magnitude_le hsum).trans ?_)
  rw [← magnitude_eq, hbound]

/-! ## Powers of ten -/

theorem le_tenTo {k : Int} {c : Nat} (hc : c ≤ infinityCode)
    (h : codeMagnitude c * 10 ^ (-k).toNat ≤ one * 10 ^ k.toNat) : c ≤ (tenTo k).code := by
  rw [tenTo, code_ofCode (leaningCode_lt _ _)]
  exact le_leaningCode (Nat.pow_pos (by decide)) h hc

theorem unsigned_tenTo (k : Int) : (tenTo k).Unsigned := leaningCode_unsigned _ _

theorem pow_le_pow_ten : ∀ k < 309, 2 ^ ((100000 * k + 99999) / 30102) ≤ 2 ^ 4 * 10 ^ k := by
  decide +kernel

theorem pow_share {e : Nat} (h : e < 1024) : 2 ^ e ≤ 2 ^ 4 * 10 ^ (30102 * e / 100000) :=
  (Nat.pow_le_pow_right (by decide) (by omega)).trans (pow_le_pow_ten _ (by omega))

/-- The power of ten of a double is at least a sixteenth of the power of two below the double. -/
theorem le_tenTo_powerOfTen (hlow : 2 ^ 1022 ≤ x.magnitude) (hfinite : x.isFinite = true) :
    placeCode (x.leadingPlace - 4) ≤ (tenTo x.powerOfTen).code := by
  have hpos := significand_ne_zero hlow
  have hplace := le_leadingPlace hlow
  have hhigh := leadingPlace_lt_of_finite hpos hfinite
  have hc : placeCode (x.leadingPlace - 4) ≤ infinityCode := by
    rw [placeCode, infinityCode_eq]
    omega
  refine le_tenTo hc ?_
  rw [codeMagnitude_placeCode (by omega)]
  rcases Nat.lt_or_ge x.leadingPlace 1074 with hbelow | habove
  · have hpower := neg_le_powerOfTen hpos hplace hbelow
    have hten : 10 ^ (-x.powerOfTen).toNat ≤ 2 ^ (1073 - x.leadingPlace + 5) :=
      (Nat.pow_le_pow_right (by decide) (by omega)).trans (pow_placesBelow _ (by omega))
    calc 2 ^ (x.leadingPlace - 4) * 10 ^ (-x.powerOfTen).toNat
        ≤ 2 ^ (x.leadingPlace - 4) * 2 ^ (1073 - x.leadingPlace + 5) := Nat.mul_le_mul_left _ hten
      _ = one * 1 := by rw [two_pow_mul_eq_one (by omega), Nat.mul_one]
      _ ≤ one * 10 ^ x.powerOfTen.toNat := Nat.mul_le_mul_left _ (Nat.pow_pos (by decide))
  · have hpower := le_powerOfTen_of_one_le hpos habove hhigh
    have hten : 2 ^ (x.leadingPlace - 1074) ≤ 2 ^ 4 * 10 ^ x.powerOfTen.toNat :=
      (pow_share (by omega)).trans
        (Nat.mul_le_mul_left _ (Nat.pow_le_pow_right (by decide) (by omega)))
    rw [show (-x.powerOfTen).toNat = 0 by omega, Nat.pow_zero, Nat.mul_one]
    refine Nat.le_of_mul_le_mul_left ?_ (Nat.two_pow_pos 4)
    have hplaces : 4 + (x.leadingPlace - 4) = x.leadingPlace - 1074 + 1074 := by omega
    calc 2 ^ 4 * 2 ^ (x.leadingPlace - 4) = 2 ^ (x.leadingPlace - 1074) * one := by
          rw [← Nat.pow_add, hplaces, two_pow_add_units]
      _ ≤ 2 ^ 4 * 10 ^ x.powerOfTen.toNat * one := Nat.mul_le_mul_right _ hten
      _ = 2 ^ 4 * (one * 10 ^ x.powerOfTen.toNat) := by ring

end Binary64

end DocQuery
