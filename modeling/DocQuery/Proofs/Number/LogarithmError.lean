import Mathlib.Analysis.Complex.ExponentialBounds
import Mathlib.Analysis.SpecialFunctions.Log.Deriv
import DocQuery.Proofs.Number.PowerOfTen
import DocQuery.Proofs.Number.Upward

/-!
# Decimal logarithms from above

From one up, the decimal logarithm that is worked out in doubles is hardly above the true one.

* `lnMagnitude_le_log`: a series that is cut off, of quotients that are rounded down, stays below the
  natural logarithm.
* `size_log10_le`: the steps in doubles lead above by at most a hundred-millionth part.
* `ten_pow_powerOfTen_le`: so the power of ten of a double from one up is at most the double, but for a
  hundred-thousandth part.
-/

namespace DocQuery

namespace Binary64

/-! ## Natural logarithms -/

/-- Terms that are rounded down, one after the other, are at most those of the series. -/
theorem artanhTerms_le_sum (a b count odd power : Nat) :
    (artanhTerms a b count odd power : ℝ) ≤
      ∑ k ∈ Finset.range count, power * (a / b : ℝ) ^ (2 * k) / (odd + 2 * k) := by
  induction count generalizing odd power with
  | zero => simp [artanhTerms]
  | succ count ih =>
    have hnext : ((power * (a * a) / (b * b) : Nat) : ℝ) ≤ power * (a / b : ℝ) ^ 2 := by
      refine Nat.cast_div_le.trans_eq ?_
      push_cast
      ring
    have hfirst : ((power / odd : Nat) : ℝ) ≤ power / odd := Nat.cast_div_le
    have hrest (k : Nat) : ((power * (a * a) / (b * b) : Nat) : ℝ) * (a / b : ℝ) ^ (2 * k) /
        ((odd + 2 : Nat) + 2 * k) ≤
          power * (a / b : ℝ) ^ (2 * (k + 1)) / (odd + 2 * (k + 1 : Nat)) := by
      have hodd : ((odd + 2 : Nat) : ℝ) + 2 * k = odd + 2 * (k + 1 : Nat) := by
        push_cast
        ring
      rw [hodd]
      refine div_le_div_of_nonneg_right ?_ (by positivity)
      calc ((power * (a * a) / (b * b) : Nat) : ℝ) * (a / b : ℝ) ^ (2 * k)
          ≤ power * (a / b : ℝ) ^ 2 * (a / b : ℝ) ^ (2 * k) :=
            mul_le_mul_of_nonneg_right hnext (by positivity)
        _ = power * (a / b : ℝ) ^ (2 * (k + 1)) := by ring
    rw [artanhTerms, Finset.sum_range_succ', Nat.cast_add, add_comm]
    refine add_le_add ((ih _ _).trans (Finset.sum_le_sum fun k _ => hrest k)) ?_
    simpa using hfirst

/-- From one up, the natural logarithm is worked out from below. -/
theorem lnMagnitude_le_log {p q : Nat} (hq : 0 < q) (h : q ≤ p) :
    (lnMagnitude p q : ℝ) ≤ 2 ^ 192 * Real.log (p / q) := by
  obtain ⟨a, rfl⟩ := Nat.exists_eq_add_of_le h
  have hqr : (0 : ℝ) < q := by exact_mod_cast hq
  have hdistance : (q + a - q) + (q - (q + a)) = a := by omega
  have hpower : (((a <<< 192) / (q + a + q) : Nat) : ℝ) ≤ 2 ^ 192 * (a / (q + a + q : Nat)) := by
    refine Nat.cast_div_le.trans_eq ?_
    rw [Nat.shiftLeft_eq]
    push_cast
    ring
  have hratio : (a / q : ℝ) / (a / q + 2) = a / (q + a + q : Nat) := by
    push_cast
    field_simp
    ring
  have hseries := sum_le_hasSum (Finset.range 64) (fun k _ => by positivity)
    (Real.hasSum_log_one_add (show (0 : ℝ) ≤ a / q by positivity))
  have hvalue : (1 + a / q : ℝ) = (q + a : Nat) / q := by
    push_cast
    field_simp
  rw [hratio, hvalue] at hseries
  have hterms := artanhTerms_le_sum a (q + a + q) 64 1 ((a <<< 192) / (q + a + q))
  generalize (a / (q + a + q : Nat) : ℝ) = t at *
  have ht : 0 ≤ t := by
    rw [← hratio]
    positivity
  simp only [lnMagnitude, hdistance]
  push_cast
  calc (2 : ℝ) * artanhTerms a (q + a + q) 64 1 ((a <<< 192) / (q + a + q))
      ≤ 2 * ∑ k ∈ Finset.range 64, 2 ^ 192 * t * t ^ (2 * k) / ((1 : Nat) + 2 * k) := by
        refine mul_le_mul_of_nonneg_left (hterms.trans (Finset.sum_le_sum fun k _ => ?_)) zero_le_two
        exact div_le_div_of_nonneg_right (mul_le_mul_of_nonneg_right hpower (by positivity))
          (by positivity)
    _ = 2 ^ 192 * ∑ k ∈ Finset.range 64, 2 * (1 / (2 * k + 1)) * t ^ (2 * k + 1) := by
        rw [Finset.mul_sum, Finset.mul_sum]
        refine Finset.sum_congr rfl fun k _ => ?_
        push_cast
        ring
    _ ≤ 2 ^ 192 * Real.log ((q + a) / q) := by
        refine mul_le_mul_of_nonneg_left ?_ (by positivity)
        exact_mod_cast hseries

/-- In doubles it is at most a part of `2 ^ -52` and a unit above. -/
theorem size_lnRatio_le {p q : Nat} (hq : 0 < q) (h : q ≤ p) :
    ((lnRatio p q).size : ℝ) ≤ (1 + 1 / 2 ^ 52) * Real.log (p / q) + (unit : ℚ) := by
  have hlean : (lnRatio p q).size ≤ (1 + 1 / 2 ^ 52) * (lnMagnitude p q / 2 ^ 192) + unit := by
    refine size_lean_le (d := 1 <<< 192) (by decide) ?_ (code_ofCode (leaningCode_lt _ _))
    rw [Nat.one_shiftLeft]
    push_cast
    ring
  have hlean := (Rat.cast_le (K := ℝ)).mpr hlean
  push_cast at hlean
  have hlog : (lnMagnitude p q / 2 ^ 192 : ℝ) ≤ Real.log (p / q) := by
    rw [div_le_iff₀ (by positivity), mul_comm]
    exact lnMagnitude_le_log hq h
  exact hlean.trans (add_le_add_left (mul_le_mul_of_nonneg_left hlog (by positivity)) _)

/-! ## Steps of the decimal logarithm -/

/-- Five roundings of numbers without a sign. -/
theorem size_log10Sum_le {e ln : Binary64} (he : e.Unsigned) (hef : e.isFinite = true)
    (hln : ln.Unsigned) (hlnf : ln.isFinite = true) : (log10Sum e ln).size ≤
      (1 + 1 / 2 ^ 49) * (e.size * (log10OfTwoRest.size + log10OfTwoLead.size) +
        log10OfE.size * ln.size) + 8 * unit := by
  obtain ⟨hrest, hfactor, hlead⟩ := unsigned_steps he hef hln hlnf
  have hsmall := unsigned_add hrest hfactor
  have hrestle := size_mul_le hef (show log10OfTwoRest.isFinite = true by decide)
  have hfactorle := size_mul_le (show log10OfE.isFinite = true by decide) hlnf
  have hleadle := size_mul_le hef (show log10OfTwoLead.isFinite = true by decide)
  have hsmallle := size_add_le hrest hfactor
  have hsumle := size_add_le hsmall hlead
  have hrest0 := mul_nonneg e.size_nonneg log10OfTwoRest.size_nonneg
  have hfactor0 := mul_nonneg log10OfE.size_nonneg ln.size_nonneg
  have hlead0 := mul_nonneg e.size_nonneg log10OfTwoLead.size_nonneg
  have hunit := unit_nonneg
  rw [log10Sum, mul_add]
  linarith

/-- Powers of whole numbers compare as multiples of logarithms do. -/
theorem mul_log_le {a b c d : Nat} (hc : 0 < c) (h : c ^ a ≤ d ^ b) :
    a * Real.log c ≤ b * Real.log d := by
  rw [← Real.log_pow, ← Real.log_pow]
  have hpos : (0 : ℝ) < c ^ a := by exact_mod_cast Nat.pow_pos hc
  exact Real.log_le_log hpos (by exact_mod_cast h)

/-- The decimal logarithm of two from below, as a fraction that is close to it. -/
theorem log_ten_le : 8651 * Real.log 10 ≤ 28738 * Real.log 2 := by
  have h := mul_log_le (a := 8651) (b := 28738) (c := 10) (d := 2) (by decide) (by decide +kernel)
  exact_mod_cast h

theorem log_ten_nonneg : 0 ≤ Real.log 10 := Real.log_nonneg (by norm_num)

theorem log_ten_le_three : Real.log 10 ≤ 3 := by
  have := log_ten_le
  have := Real.log_two_lt_d9
  linarith

/-- The constants of the logarithm next to that fraction, in units. -/
theorem constants_above :
    28738 * 10 ^ 9 * (log10OfTwoRest.magnitude + log10OfTwoLead.magnitude) ≤
        8651 * (10 ^ 9 + 3) * one ∧
      28738 * 6931471808 * log10OfE.magnitude * 10 ^ 9 ≤ 8651 * 10 ^ 10 * (10 ^ 9 + 3) * one := by
  decide +kernel

theorem log10OfTwo_le : ((log10OfTwoRest.size + log10OfTwoLead.size : ℚ) : ℝ) * Real.log 10 ≤
    (1 + 3 / 10 ^ 9) * Real.log 2 := by
  have hone := one_pos_rat
  have hconstants : (28738 * 10 ^ 9 * (log10OfTwoRest.magnitude + log10OfTwoLead.magnitude) : ℚ) ≤
      8651 * (10 ^ 9 + 3) * one := by exact_mod_cast constants_above.1
  have hsize : log10OfTwoRest.size + log10OfTwoLead.size ≤ 8651 / 28738 * (1 + 3 / 10 ^ 9) := by
    rw [size, size, ← add_div, div_le_iff₀ hone]
    linarith
  have hsize := (Rat.cast_le (K := ℝ)).mpr hsize
  push_cast at hsize ⊢
  have hmul := mul_le_mul_of_nonneg_right hsize log_ten_nonneg
  have hten := log_ten_le
  linarith

theorem log10OfE_le : (log10OfE.size : ℝ) * Real.log 10 ≤ 1 + 3 / 10 ^ 9 := by
  have hone := one_pos_rat
  have hconstants : (28738 * 6931471808 * log10OfE.magnitude * 10 ^ 9 : ℚ) ≤
      8651 * 10 ^ 10 * (10 ^ 9 + 3) * one := by exact_mod_cast constants_above.2
  have hsize : log10OfE.size * (28738 / 8651 * 0.6931471808) ≤ 1 + 3 / 10 ^ 9 := by
    rw [size, div_mul_eq_mul_div, div_le_iff₀ hone]
    linarith
  have hsize := (Rat.cast_le (K := ℝ)).mpr hsize
  push_cast at hsize
  have hten : Real.log 10 ≤ 28738 / 8651 * 0.6931471808 := by
    have := log_ten_le
    have := Real.log_two_lt_d9
    linarith
  have hnonneg : (0 : ℝ) ≤ log10OfE.size := by exact_mod_cast log10OfE.size_nonneg
  exact (mul_le_mul_of_nonneg_left hten hnonneg).trans hsize

/-- The steps from an exponent and the logarithm of a factor that is hardly above the true one. -/
theorem size_log10Sum_mul_le {k : Nat} {ln : Binary64} {factor : ℝ} (hk : k < 2 ^ 53)
    (hln : ln.Unsigned) (hlnf : ln.isFinite = true) (hfactor : 0 ≤ factor)
    (hle : (ln.size : ℝ) ≤ (1 + 1 / 2 ^ 52) * factor + (unit : ℚ)) :
    ((log10Sum (ofNat k) ln).size : ℝ) * Real.log 10 ≤
      (1 + 1 / 10 ^ 8) * (k * Real.log 2 + factor) + 1 / 10 ^ 20 := by
  have hsum := size_log10Sum_le (unsigned_ofNat k) (magnitude_ofNat hk).1 hln hlnf
  rw [size_ofNat hk] at hsum
  have hsum := (Rat.cast_le (K := ℝ)).mpr hsum
  have hunit := (Rat.cast_le (K := ℝ)).mpr unit_le
  have hunit0 := (Rat.cast_le (K := ℝ)).mpr unit_nonneg
  push_cast at hsum hunit hunit0
  have hlead : (k : ℝ) * (log10OfTwoRest.size + log10OfTwoLead.size) * Real.log 10 ≤
      (1 + 3 / 10 ^ 9) * (k * Real.log 2) := by
    have := mul_le_mul_of_nonneg_left log10OfTwo_le (show (0 : ℝ) ≤ k from Nat.cast_nonneg k)
    push_cast at this
    linarith
  have hrest : (log10OfE.size * ln.size : ℝ) * Real.log 10 ≤
      (1 + 3 / 10 ^ 9) * ((1 + 1 / 2 ^ 52) * factor + (unit : ℚ)) := by
    have hE : (0 : ℝ) ≤ log10OfE.size * Real.log 10 :=
      mul_nonneg (by exact_mod_cast log10OfE.size_nonneg) log_ten_nonneg
    rw [mul_right_comm]
    exact (mul_le_mul_of_nonneg_left hle hE).trans (mul_le_mul_of_nonneg_right log10OfE_le
      (add_nonneg (mul_nonneg (by norm_num) hfactor) hunit0))
  have hunits : 8 * (unit : ℝ) * Real.log 10 ≤ 24 * (unit : ℚ) := by
    have := mul_le_mul_of_nonneg_left log_ten_le_three hunit0
    linarith
  have hshare : (0 : ℝ) ≤ k * Real.log 2 := by positivity
  have hmul := mul_le_mul_of_nonneg_right hsum log_ten_nonneg
  calc ((log10Sum (ofNat k) ln).size : ℝ) * Real.log 10
      ≤ (1 + 1 / 2 ^ 49) * ((k : ℝ) * (log10OfTwoRest.size + log10OfTwoLead.size) * Real.log 10 +
          (log10OfE.size * ln.size : ℝ) * Real.log 10) + 8 * (unit : ℚ) * Real.log 10 := by linarith
    _ ≤ (1 + 1 / 2 ^ 49) * ((1 + 3 / 10 ^ 9) * (k * Real.log 2) +
          (1 + 3 / 10 ^ 9) * ((1 + 1 / 2 ^ 52) * factor + (unit : ℚ))) + 24 * (unit : ℚ) := by
        linarith
    _ ≤ (1 + 1 / 10 ^ 8) * (k * Real.log 2 + factor) + 1 / 10 ^ 20 := by linarith

/-! ## Doubles from one up -/

section

variable {x : Binary64}

/-- A double from one up is a power of two times its factor. -/
theorem size_of_one_le (h : 1074 ≤ x.leadingPlace) : x.size =
    2 ^ (x.leadingPlace - 1074) * (x.significand / 2 ^ x.significand.log2) := by
  have hplaces : 2 ^ (x.leadingPlace - 1074) * one = 2 ^ x.unitExponent * 2 ^ x.significand.log2 := by
    rw [← two_pow_add_units, ← Nat.pow_add, Nat.sub_add_cancel h, leadingPlace]
  have hplaces : (2 ^ (x.leadingPlace - 1074) * one : ℚ) =
      2 ^ x.unitExponent * 2 ^ x.significand.log2 := by exact_mod_cast hplaces
  rw [size, div_eq_iff one_pos_rat.ne', mul_right_comm, hplaces, magnitude, Nat.shiftLeft_eq]
  push_cast
  field_simp

/-- The logarithm of a double from one up is the exponent's share and the factor's. -/
theorem log_size (hpos : x.significand ≠ 0) (h : 1074 ≤ x.leadingPlace) :
    Real.log x.size = (x.leadingPlace - 1074 : Nat) * Real.log 2 +
      Real.log (x.significand / (2 ^ x.significand.log2 : Nat)) := by
  have hsignificand : (x.significand : ℝ) ≠ 0 := by exact_mod_cast hpos
  rw [size_of_one_le h]
  push_cast
  rw [Real.log_mul (by positivity) (by positivity), Real.log_pow]

/-- The decimal logarithm is at most a hundred-millionth part above the true one, or next to nothing. -/
theorem size_log10_le (hpos : x.significand ≠ 0) (hlow : 1074 ≤ x.leadingPlace)
    (hhigh : x.leadingPlace < 2098) :
    (x.log10.size : ℝ) * Real.log 10 ≤ (1 + 1 / 10 ^ 8) * Real.log x.size + 1 / 10 ^ 20 := by
  have hself := Nat.log2_self_le hpos
  have hfactor : 0 ≤ Real.log (x.significand / (2 ^ x.significand.log2 : Nat)) := by
    refine Real.log_nonneg ((one_le_div ?_).mpr ?_)
    · exact_mod_cast Nat.two_pow_pos _
    · exact_mod_cast hself
  rw [log10_of_one_le hlow, log_size hpos hlow]
  exact size_log10Sum_mul_le (by omega) (unsigned_lnRatio hself) (lnRatio_isFinite hpos) hfactor
    (size_lnRatio_le (Nat.two_pow_pos _) hself)

theorem unsigned_log10 (hpos : x.significand ≠ 0) (hlow : 1074 ≤ x.leadingPlace)
    (hhigh : x.leadingPlace < 2098) : x.log10.Unsigned := by
  have hplaces : x.leadingPlace - 1074 < 2 ^ 53 := by omega
  rw [log10_of_one_le hlow]
  exact (lead_le_log10Sum (unsigned_ofNat _) (magnitude_ofNat hplaces).1
    (unsigned_lnRatio (Nat.log2_self_le hpos)) (lnRatio_isFinite hpos)).1

/-- The logarithm of a finite double. -/
theorem log_size_le (hpos : 0 < x.size) (hfinite : x.isFinite = true) : Real.log x.size ≤ 710 := by
  have hcode : x.code < powerCode 1024 := of_decide_eq_true hfinite
  have hmagnitude : x.magnitude < 2 ^ 1024 * one :=
    codeMagnitude_powerCode 1024 ▸ magnitude_lt_iff.mpr hcode
  have hsize : x.size ≤ 2 ^ 1024 := by
    rw [size, div_le_iff₀ one_pos_rat]
    exact_mod_cast hmagnitude.le
  have hlog := Real.log_le_log (by exact_mod_cast hpos) ((Rat.cast_le (K := ℝ)).mpr hsize)
  push_cast at hlog
  rw [Real.log_pow] at hlog
  have htwo := Real.log_two_lt_d9
  push_cast at hlog
  linarith

/-- The power of ten of a double from one up is at most the double, but for a hundred-thousandth
part. -/
theorem ten_pow_powerOfTen_le (hlow : one ≤ x.magnitude) (hfinite : x.isFinite = true) :
    (1 - 1 / 10 ^ 5) * (10 : ℚ) ^ x.powerOfTen.toNat ≤ x.size := by
  have hone := one_le_size hlow
  have hplace : 2 ^ 1074 ≤ x.magnitude := one_eq ▸ hlow
  have hpos := significand_ne_zero hplace
  have hlow := le_leadingPlace hplace
  have hhigh := leadingPlace_lt_of_finite hpos hfinite
  have hlog := size_log10_le hpos hlow hhigh
  have hlogle := log_size_le (zero_lt_one.trans_le hone) hfinite
  have hunsigned := unsigned_log10 hpos hlow hhigh
  have hfloor : (x.powerOfTen.toNat : ℚ) ≤ x.log10.size := by
    have hdiv : x.powerOfTen.toNat = x.log10.magnitude / one := by
      rw [powerOfTen, floor, hunsigned.scaled, ← Int.natCast_ediv, Int.toNat_natCast]
    rw [hdiv, size]
    exact Nat.cast_div_le
  have hfloor := (Rat.cast_le (K := ℝ)).mpr hfloor
  push_cast at hfloor
  have hpower := (mul_le_mul_of_nonneg_right hfloor log_ten_nonneg).trans hlog
  have hsmall : Real.log (1 - 1 / 10 ^ 5) ≤ -(1 / 10 ^ 5) := by
    have := Real.log_le_sub_one_of_pos (show (0 : ℝ) < 1 - 1 / 10 ^ 5 by norm_num)
    linarith
  refine (Rat.cast_le (K := ℝ)).mp ?_
  push_cast
  have hsize : (0 : ℝ) < x.size := by exact_mod_cast zero_lt_one.trans_le hone
  refine (Real.log_le_log_iff (mul_pos (by norm_num) (by positivity)) hsize).mp ?_
  rw [Real.log_mul (by norm_num) (by positivity), Real.log_pow]
  linarith

end

end Binary64

end DocQuery
