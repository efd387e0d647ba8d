import DocQuery.Proofs.Number.Error

/-!
# Results from above

Whichever way a quotient is rounded, the significand is at most the next one. So the result is at most
the exact one but for a part of `2 ^ -52` and a unit, next to zero as well as beyond the largest double,
where the code of infinity stands for less than the quotient.

* `size_round_le`, `size_lean_le`: this for each way of rounding.
* `size_mul_le`, `size_add_le`, `size_tenTo_le`: the same for operations.
-/

namespace DocQuery

namespace Binary64

/-! ## One rounding -/

/-- What one unit is worth. -/
def unit : ℚ := 1 / one

theorem unit_nonneg : 0 ≤ unit := div_nonneg zero_le_one one_pos_rat.le

theorem unit_le : unit ≤ 1 / 2 ^ 100 := by
  have hone : (2 : ℚ) ^ 100 ≤ one := by
    exact_mod_cast (Nat.pow_le_pow_right (by decide) (by decide)).trans low_le_one
  exact one_div_le_one_div_of_le (by positivity) hone

section

variable {n d c e s : Nat}

/-- A code whose significand is the whole quotient or the next number, or a smaller code. -/
theorem codeMagnitude_above (hd : 0 < d) (he : (n / d).log2 - 52 = e) (hle : n / (d * 2 ^ e) ≤ s)
    (hs : s ≤ n / (d * 2 ^ e) + 1) (hc : c ≤ e * 2 ^ 52 + s) :
    2 ^ 52 * (codeMagnitude c * d) ≤ (2 ^ 52 + 1) * n + 2 ^ 52 * d := by
  have hstep : 0 < d * 2 ^ e := Nat.mul_pos hd (Nat.two_pow_pos e)
  have hroom := (Nat.div_lt_iff_lt_mul hstep).mpr (lt_full hd he)
  have hnormal : 2 ^ 52 ≤ s ∨ e = 0 := by
    by_cases hzero : e = 0
    · exact .inr hzero
    · have hfull := full_le hd he (Nat.pos_of_ne_zero hzero)
      exact .inl (((Nat.le_div_iff_mul_le hstep).mpr hfull).trans hle)
  have hmagnitude := codeMagnitude_strictMono.monotone hc
  rw [codeMagnitude_full (by omega) hnormal] at hmagnitude
  have hnext : s * (d * 2 ^ e) ≤ n + d * 2 ^ e := by
    have hdiv := Nat.div_mul_le_self n (d * 2 ^ e)
    refine (Nat.mul_le_mul_right _ hs).trans ?_
    rw [Nat.succ_mul]
    omega
  -- A step is a small part of the quotient, or one unit.
  have hpart : 2 ^ 52 * (d * 2 ^ e) ≤ n + 2 ^ 52 * d := by
    by_cases hzero : e = 0
    · rw [hzero, Nat.pow_zero, Nat.mul_one]
      exact Nat.le_add_left _ _
    · exact (full_le hd he (Nat.pos_of_ne_zero hzero)).trans (Nat.le_add_right _ _)
  calc 2 ^ 52 * (codeMagnitude c * d) ≤ 2 ^ 52 * (s * 2 ^ e * d) :=
        Nat.mul_le_mul_left _ (Nat.mul_le_mul_right _ hmagnitude)
    _ = 2 ^ 52 * (s * (d * 2 ^ e)) := by ring
    _ ≤ 2 ^ 52 * (n + d * 2 ^ e) := Nat.mul_le_mul_left _ hnext
    _ ≤ (2 ^ 52 + 1) * n + 2 ^ 52 * d := by omega

theorem roundedCode_above (hd : 0 < d) : 2 ^ 52 * (codeMagnitude (roundedCode n d) * d) ≤
    (2 ^ 52 + 1) * n + 2 ^ 52 * d := by
  have hnext (m k : Nat) : m / k ≤ roundHalfEven m k ∧ roundHalfEven m k ≤ m / k + 1 := by
    simp only [roundHalfEven]
    split
    · omega
    · split <;> omega
  refine codeMagnitude_above hd rfl (hnext n _).1 (hnext n _).2 ?_
  simp only [roundedCode, Nat.shiftLeft_eq]
  exact Nat.min_le_left _ _

theorem leaningCode_above (hd : 0 < d) : 2 ^ 52 * (codeMagnitude (leaningCode n d) * d) ≤
    (2 ^ 52 + 1) * n + 2 ^ 52 * d := by
  simp only [leaningCode, Nat.shiftLeft_eq]
  refine codeMagnitude_above hd rfl (Nat.le_add_right _ _) ?_ (Nat.min_le_left _ _)
  split <;> omega

end

section

variable {x y : Binary64} {n d : Nat} {q : ℚ}

theorem size_le_of_above (hd : 0 < d) (hq : (n / d : ℚ) = q * one)
    (h : 2 ^ 52 * (x.magnitude * d) ≤ (2 ^ 52 + 1) * n + 2 ^ 52 * d) :
    x.size ≤ (1 + 1 / 2 ^ 52) * q + unit := by
  have hdq : (0 : ℚ) < d := by exact_mod_cast hd
  have hone := one_pos_rat
  have h : (2 ^ 52 * (x.magnitude * d) : ℚ) ≤ (2 ^ 52 + 1) * n + 2 ^ 52 * d := by exact_mod_cast h
  have hn : (n : ℚ) = q * one * d := (div_eq_iff hdq.ne').mp hq
  have hvalue : ((1 + 1 / 2 ^ 52) * q + unit) * one = (1 + 1 / 2 ^ 52) * (q * one) + 1 := by
    rw [unit]
    field_simp
  rw [size, div_le_iff₀ hone, hvalue]
  refine le_of_mul_le_mul_right ?_ hdq
  rw [hn] at h
  linarith

/-- Rounding to the nearest leads above by at most a part of `2 ^ -52` and a unit. -/
theorem size_round_le (hd : 0 < d) (hq : (n / d : ℚ) = q * one) (h : x.code = roundedCode n d) :
    x.size ≤ (1 + 1 / 2 ^ 52) * q + unit :=
  size_le_of_above hd hq (by rw [magnitude_eq, h]; exact roundedCode_above hd)

/-- So does rounding that leans up. -/
theorem size_lean_le (hd : 0 < d) (hq : (n / d : ℚ) = q * one) (h : x.code = leaningCode n d) :
    x.size ≤ (1 + 1 / 2 ^ 52) * q + unit :=
  size_le_of_above hd hq (by rw [magnitude_eq, h]; exact leaningCode_above hd)

/-! ## Operations -/

theorem size_mul_le (hx : x.isFinite = true) (hy : y.isFinite = true) :
    (x.mul y).size ≤ (1 + 1 / 2 ^ 52) * (x.size * y.size) + unit := by
  have := one_pos_rat.ne'
  refine size_round_le one_pos ?_ (code_mul hx hy)
  rw [size, size]
  push_cast
  field_simp

theorem size_add_le (hx : x.Unsigned) (hy : y.Unsigned) :
    (x.add y).size ≤ (1 + 1 / 2 ^ 52) * (x.size + y.size) + unit := by
  refine size_round_le Nat.one_pos ?_ (code_add hx hy)
  rw [size, size, ← add_div, div_mul_cancel₀ _ one_pos_rat.ne']
  push_cast
  rw [div_one]

theorem size_tenTo_le (k : Int) : (tenTo k).size ≤
    (1 + 1 / 2 ^ 52) * (10 ^ k.toNat / 10 ^ (-k).toNat) + unit := by
  refine size_lean_le (Nat.pow_pos (by decide)) ?_ (code_ofCode (leaningCode_lt _ _))
  simp only [Nat.pow_eq]
  push_cast
  ring

end

end Binary64

end DocQuery
