import DocQuery.Proofs.Number.Bounds

/-!
# Bounds of decimal logarithms and powers of ten

* `lnMagnitude_le`: the natural logarithm of a number between one half and two is at most one.
* `powerOfTen_le`: a double up to `2 ^ 960` and not far below one has a power of ten of at most 291.
* `tenTo_code_le`: such powers of ten are at most `2 ^ 967`.

The bounds leave room: they are not the least ones.
-/

namespace DocQuery

namespace Binary64

/-! ## Natural logarithms -/

/-- The terms of the series for `a / b ≤ 1 / 3` add up to at most nine eighths of the first. -/
theorem artanhTerms_le {a b : Nat} (hb : 0 < b) (h : 3 * a ≤ b) (count odd power : Nat) :
    8 * artanhTerms a b count odd power ≤ 9 * power := by
  induction count generalizing odd power with
  | zero => exact Nat.zero_le _
  | succ count ih =>
    have hnext : 9 * (power * (a * a) / (b * b)) ≤ power := by
      have hdiv := Nat.div_mul_le_self (power * (a * a)) (b * b)
      have hsquare := Nat.mul_le_mul_left power (Nat.mul_le_mul h h)
      refine Nat.le_of_mul_le_mul_right ?_ (Nat.mul_pos hb hb)
      calc 9 * (power * (a * a) / (b * b)) * (b * b)
          ≤ 9 * (power * (a * a)) := by rw [Nat.mul_assoc]; exact Nat.mul_le_mul_left 9 hdiv
        _ = power * (3 * a * (3 * a)) := by ring
        _ ≤ power * (b * b) := hsquare
    have hfirst := Nat.div_le_self power odd
    have hrest := ih (odd + 2) (power * (a * a) / (b * b))
    rw [artanhTerms]
    omega

/-- The logarithm of a number between one half and two is at most one. -/
theorem lnMagnitude_le {p q : Nat} (hpos : 0 < p + q) (h : 3 * ((p - q) + (q - p)) ≤ p + q) :
    lnMagnitude p q ≤ 2 ^ 192 := by
  have hterms := artanhTerms_le hpos h 64 1 (((p - q) + (q - p)) <<< 192 / (p + q))
  have hfirst : 3 * (((p - q) + (q - p)) <<< 192 / (p + q)) ≤ 2 ^ 192 := by
    have hdiv := Nat.div_mul_le_self (((p - q) + (q - p)) <<< 192) (p + q)
    refine Nat.le_of_mul_le_mul_right ?_ hpos
    rw [Nat.shiftLeft_eq] at hdiv ⊢
    have := Nat.mul_le_mul_right (2 ^ 192) h
    linarith
  simp only [lnMagnitude]
  omega

theorem lnRatio_code_le {p q : Nat} (hpos : 0 < p + q) (h : 3 * ((p - q) + (q - p)) ≤ p + q) :
    (lnRatio p q).code ≤ powerCode 0 := by
  rw [lnRatio, code_ofCode (leaningCode_lt _ _), Nat.one_shiftLeft]
  refine leaningCode_le (Nat.two_pow_pos 192) ?_
  rw [codeMagnitude_powerCode, Nat.pow_zero, Nat.one_mul, Nat.mul_comm]
  exact Nat.mul_le_mul_left one (lnMagnitude_le hpos h)

/-! ## Decimal logarithms -/

/-- The place of a double's first bit, counted from `2 ^ -1074`. -/
def leadingPlace (x : Binary64) : Nat := x.unitExponent + x.significand.log2

theorem leadingPlace_lt {x : Binary64} {k : Nat} (hpos : x.significand ≠ 0)
    (h : x.magnitude < 2 ^ k) : x.leadingPlace < k := by
  have hself := Nat.log2_self_le hpos
  have hmul := Nat.mul_le_mul_right (2 ^ x.unitExponent) hself
  rw [← Nat.pow_add, ← Nat.shiftLeft_eq] at hmul
  have hlt := (Nat.pow_lt_pow_iff_right (a := 2) (by decide)).mp (hmul.trans_lt h)
  rw [leadingPlace]
  omega

theorem le_leadingPlace {x : Binary64} {k : Nat} (h : 2 ^ k ≤ x.magnitude) : k ≤ x.leadingPlace := by
  have hself : x.significand < 2 ^ (x.significand.log2 + 1) := Nat.lt_log2_self
  have hmul := Nat.mul_lt_mul_of_pos_right hself (Nat.two_pow_pos x.unitExponent)
  rw [← Nat.pow_add, ← Nat.shiftLeft_eq] at hmul
  have hlt := (Nat.pow_lt_pow_iff_right (a := 2) (by decide)).mp (h.trans_lt hmul)
  rw [leadingPlace]
  omega

/-- The code of 960. -/
def code960 : Nat := 0x408E000000000000

/-- The code of 289. -/
def code289 : Nat := 0x4072100000000000

/-- The code of 291. -/
def code291 : Nat := 0x4072300000000000

/-- Up to an exponent of 960, the steps of the logarithm add up to at most 291. -/
theorem log10_steps_le {e : Int} {p q : Nat} (he : e.natAbs ≤ 960) (hpos : 0 < p + q)
    (h : 3 * ((p - q) + (q - p)) ≤ p + q) :
    ((((ofInt e).mul log10OfTwoRest).add (log10OfE.mul (lnRatio p q))).add
      ((ofInt e).mul log10OfTwoLead)).code ≤ code291 := by
  have he : (ofInt e).code ≤ code960 := by
    refine ofInt_code_le ((Nat.mul_le_mul_right one he).trans ?_)
    decide +kernel
  have hrest : ((ofInt e).mul log10OfTwoRest).code ≤ powerCode 0 :=
    mul_code_le he le_rfl (by decide) (by decide) (by decide +kernel)
  have hfactor : (log10OfE.mul (lnRatio p q)).code ≤ powerCode 0 :=
    mul_code_le le_rfl (lnRatio_code_le hpos h) (by decide) (by decide) (by decide +kernel)
  have hlead : ((ofInt e).mul log10OfTwoLead).code ≤ code289 :=
    mul_code_le he le_rfl (by decide) (by decide) (by decide +kernel)
  have hsmall : (((ofInt e).mul log10OfTwoRest).add (log10OfE.mul (lnRatio p q))).code ≤
      powerCode 1 := add_code_le hrest hfactor (by decide) (by decide) (by decide +kernel)
  exact add_code_le hsmall hlead (by decide) (by decide) (by decide +kernel)

theorem log10_code_le {x : Binary64} (hlow : 1022 ≤ x.leadingPlace) (hhigh : x.leadingPlace < 2034)
    (hpos : x.significand ≠ 0) : x.log10.code ≤ code291 := by
  have hself := Nat.log2_self_le hpos
  have hlt : x.significand < 2 ^ (x.significand.log2 + 1) := Nat.lt_log2_self
  rw [Nat.pow_succ] at hlt
  unfold leadingPlace at hlow hhigh
  unfold log10
  by_cases he : ((x.unitExponent + x.significand.log2 : Nat) : Int) - 1074 < 0
  · simp only [if_pos he, Nat.shiftLeft_eq]
    exact log10_steps_le (by omega) (by omega) (by omega)
  · simp only [if_neg he, Nat.shiftLeft_eq]
    exact log10_steps_le (by omega) (by omega) (by omega)

/-! ## Powers of ten -/

theorem floor_le {x : Binary64} {n : Nat} (h : x.magnitude ≤ n * one) : x.floor ≤ n := by
  have habs : x.scaled ≤ x.magnitude := natAbs_scaled x ▸ Int.le_natAbs
  have hscaled := (habs.trans (Int.ofNat_le.mpr h)).trans_eq (Int.natCast_mul n one)
  exact Int.ediv_le_of_le_mul (Int.natCast_pos.mpr one_pos) hscaled

/-- A double between `2 ^ -52` and `2 ^ 960` has a power of ten of at most 291. -/
theorem powerOfTen_le {x : Binary64} (hlow : 2 ^ 1022 ≤ x.magnitude)
    (hhigh : x.magnitude < 2 ^ 960 * one) : x.powerOfTen ≤ 291 := by
  have hpos : x.significand ≠ 0 := by
    intro hzero
    rw [magnitude, hzero, Nat.zero_shiftLeft] at hlow
    exact absurd (Nat.one_le_two_pow.trans hlow) (by decide)
  rw [← two_pow_add_units] at hhigh
  have hplace := leadingPlace_lt hpos hhigh
  have hcode := log10_code_le (le_leadingPlace hlow) (by omega) hpos
  exact floor_le ((magnitude_le hcode).trans (by decide +kernel))

theorem tenTo_code_le {k : Int} (h : k ≤ 291) : (tenTo k).code ≤ powerCode 967 := by
  have hpower : Nat.pow 10 k.toNat ≤ 2 ^ 967 :=
    (Nat.pow_le_pow_right (by decide) (show k.toNat ≤ 291 by omega)).trans (by decide +kernel)
  have hone : 1 ≤ Nat.pow 10 (-k).toNat := Nat.pow_pos (by decide)
  rw [tenTo, code_ofCode (leaningCode_lt _ _)]
  refine leaningCode_le hone ?_
  rw [codeMagnitude_powerCode]
  calc one * Nat.pow 10 k.toNat ≤ one * 2 ^ 967 := Nat.mul_le_mul_left one hpower
    _ = 2 ^ 967 * one * 1 := by rw [Nat.mul_one, Nat.mul_comm]
    _ ≤ 2 ^ 967 * one * Nat.pow 10 (-k).toNat := Nat.mul_le_mul_left _ hone

end Binary64

end DocQuery
