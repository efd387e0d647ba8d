import DocQuery.Proofs.Obfuscation.CentsError

/-!
# Rounding to a number of cents

* `exists_cents`: cents are a whole number of them, up to a part of `2 ^ -48`, and this number is
  less than one away from the double.
* `cents_le_toCents`: a double that is not half a cent below a number of cents is rounded to at least
  that number.
* `cent_le_toCents`: what is not rounded to zero is rounded to a cent at least.
* `toCents_abs`: the sign has no part in it.
-/

namespace DocQuery

namespace Cents

/-- A decimal with at most two places is a whole number of cents. -/
theorem exists_worth_eq {m places : Nat} (h : places ≤ 2) :
    ∃ w : Nat, worth m places = w / 100 ∧ (w = 0 → m = 0) := by
  refine ⟨m * 10 ^ (2 - places), ?_, fun hzero => ?_⟩
  · have hten : (10 : ℚ) ^ (2 - places) * 10 ^ places = 100 := by
      rw [← pow_add, Nat.sub_add_cancel h]
      norm_num
    rw [worth, ← hten]
    push_cast
    field_simp
  · exact (Nat.mul_eq_zero.mp hzero).resolve_right (Nat.pow_pos (by decide)).ne'

theorem toBinary64_zero {places : Nat} (h : places ≤ 2) : (toBinary64 0 places).code = 0 := by
  have hall : ∀ k ≤ 2, (toBinary64 0 k).code = 0 := by decide +kernel
  exact hall places h

/-- Doubles below `2 ^ 52` have decimals. -/
theorem size_of_none {x : Binary64} (h : ofBinary64 x = none) : 2 ^ 52 ≤ x.size := by
  unfold ofBinary64 at h
  split at h
  · rename_i hlarge
    have hfull : 2 ^ 52 ≤ x.significand := by
      have hnormal := Binary64.codeSignificand_normal x.code
      rw [← x.significand_eq, ← x.unitExponent_eq] at hnormal
      omega
    have hfull : (2 : ℚ) ^ 52 ≤ x.significand := by exact_mod_cast hfull
    rw [size_of_large hlarge]
    exact hfull.trans (le_mul_of_one_le_right (Nat.cast_nonneg _) (one_le_pow₀ one_le_two))
  · cases h

end Cents

namespace Binary64

open Cents

variable {x : Binary64}

/-- The number of cents that a double is rounded to. -/
theorem exists_cents (h : x.size < 2 ^ 52) : ∃ w : Nat,
    (1 - 1 / 2 ^ 48) * (w / 100) ≤ x.toCents.size ∧
      (1 - 1 / 2 ^ 44) * x.size - 2 / 10 ^ 28 - 1 / 200 ≤ w / 100 ∧ (w = 0 → x.toCents.code = 0) := by
  unfold toCents
  split
  · rename_i hnone
    exact absurd (size_of_none hnone) h.not_ge
  · rename_i m places hr
    obtain ⟨hle, hfew⟩ := roundToTwo_le m places
    obtain ⟨w, hw, hzero⟩ := exists_worth_eq (m := (roundToTwo m places).1) hfew
    have hdouble := toBinary64_ge (hle.trans_lt (ofBinary64_lt x _ hr)) hfew
    have hdecimal := ofBinary64_ge x _ hr
    have hcents := roundToTwo_ge m places
    rw [hw] at hdouble hcents
    refine ⟨w, by rw [size_ofCode]; exact hdouble, by linarith, fun h => ?_⟩
    rw [code_ofCode (code_lt _), hzero h]
    exact toBinary64_zero hfew

/-- A double that lies less than half a cent below a number of cents. -/
theorem cents_le_toCents {c : Nat} (hc : c ≤ 10000) (h : c / 100 - 49 / 10000 ≤ x.size) :
    (1 - 1 / 2 ^ 48) * (c / 100) ≤ x.toCents.size := by
  have hcq : (c : ℚ) ≤ 10000 := by exact_mod_cast hc
  have hc0 : (0 : ℚ) ≤ c := Nat.cast_nonneg c
  by_cases hsmall : x.size < 2 ^ 52
  · obtain ⟨w, hdouble, hw, -⟩ := exists_cents hsmall
    have hlt : (c : ℚ) < (w + 1 : Nat) := by
      push_cast
      linarith
    have hle : (c : ℚ) ≤ w := by exact_mod_cast Nat.lt_succ_iff.mp (by exact_mod_cast hlt)
    linarith
  · have := toCents_ge x
    linarith

/-- What is not rounded to zero. -/
theorem cent_le_toCents (h : x.toCents.code ≠ 0) : (1 - 1 / 2 ^ 48) * (1 / 100) ≤ x.toCents.size := by
  by_cases hsmall : x.size < 2 ^ 52
  · obtain ⟨w, hdouble, -, hzero⟩ := exists_cents hsmall
    have hw : (1 : ℚ) ≤ w := by exact_mod_cast Nat.one_le_iff_ne_zero.mpr fun h0 => h (hzero h0)
    linarith
  · have := toCents_ge x
    linarith

/-- Rounding to cents keeps the sign and has no other use for it. -/
theorem toCents_abs (x : Binary64) : x.abs.toCents = x.toCents.abs := by
  have hsign : x.abs.isNegative = false := isNegative_ofCode x.code_lt
  have hsame : ofBinary64 x.abs = ofBinary64 x := by
    simp only [ofBinary64, significand_eq, unitExponent_eq, code_abs]
  unfold toCents
  rw [hsame, hsign]
  cases ofBinary64 x with
  | none => rfl
  | some r =>
    have hcode : (toBinary64 (roundToTwo r.1 r.2).1 (roundToTwo r.1 r.2).2).code < 2 ^ 63 := code_lt _
    simp only [Binary64.abs, code_ofCode hcode]

end Binary64

end DocQuery
