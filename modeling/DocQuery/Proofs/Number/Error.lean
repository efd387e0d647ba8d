import Mathlib.Tactic.FieldSimp
import Mathlib.Tactic.Positivity
import DocQuery.Proofs.Number.Monotone

/-!
# Rounding errors

How far a rounded result is from the exact one, as a part of the exact one. Sizes are the rational
numbers that finite doubles without a sign are worth.

* `Near ε r q`: `r` is `q` but for the part `ε` of it. Parts add up (`Near.trans`).
* `near_roundedCode`: one rounding costs a part of `2 ^ -53`, unless it leads below `2 ^ -1022`.
* `near_add`, `near_mul`, `near_div`, `near_ofNat`: the same for each operation whose result is finite.
-/

namespace DocQuery

/-! ## Parts -/

/-- The number `r` is `q` but for the part `ε` of it. -/
def Near (ε r q : ℚ) : Prop := (1 - ε) * q ≤ r ∧ r ≤ (1 + ε) * q

namespace Near

variable {ε δ r q s a : ℚ}

theorem mono (h : Near ε r q) (hq : 0 ≤ q) (hδ : ε ≤ δ) : Near δ r q :=
  ⟨(mul_le_mul_of_nonneg_right (by linarith) hq).trans h.1,
    h.2.trans (mul_le_mul_of_nonneg_right (by linarith) hq)⟩

theorem mul_right (h : Near ε r q) (ha : 0 ≤ a) : Near ε (r * a) (q * a) :=
  ⟨by rw [← mul_assoc]; exact mul_le_mul_of_nonneg_right h.1 ha,
    by rw [← mul_assoc]; exact mul_le_mul_of_nonneg_right h.2 ha⟩

theorem div_right (h : Near ε r q) (ha : 0 ≤ a) : Near ε (r / a) (q / a) := by
  rw [div_eq_mul_inv, div_eq_mul_inv]
  exact h.mul_right (inv_nonneg.mpr ha)

/-- Parts add up, but for the part of a part. -/
theorem trans (h : Near ε r q) (h' : Near δ q s) (hs : 0 ≤ s) (hε : 0 ≤ ε) (hε1 : ε ≤ 1)
    (hδ : 0 ≤ δ) : Near (ε + δ + ε * δ) r s := by
  constructor
  · calc (1 - (ε + δ + ε * δ)) * s ≤ (1 - ε) * ((1 - δ) * s) := by nlinarith [mul_nonneg hε hδ]
      _ ≤ (1 - ε) * q := mul_le_mul_of_nonneg_left h'.1 (by linarith)
      _ ≤ r := h.1
  · calc r ≤ (1 + ε) * q := h.2
      _ ≤ (1 + ε) * ((1 + δ) * s) := mul_le_mul_of_nonneg_left h'.2 (by linarith)
      _ = (1 + (ε + δ + ε * δ)) * s := by ring

end Near

namespace Binary64

/-- The part that one rounding costs. -/
def roundoff : ℚ := 1 / 2 ^ 53

/-- What a finite double without its sign is worth. -/
def size (x : Binary64) : ℚ := x.magnitude / one

theorem one_pos_rat : (0 : ℚ) < one := by exact_mod_cast one_pos

theorem size_nonneg (x : Binary64) : 0 ≤ x.size := div_nonneg (Nat.cast_nonneg _) one_pos_rat.le

theorem size_mono {x y : Binary64} (h : x.code ≤ y.code) : x.size ≤ y.size := by
  have hmagnitude : (x.magnitude : ℚ) ≤ y.magnitude := by exact_mod_cast magnitude_mono h
  exact div_le_div_of_nonneg_right hmagnitude one_pos_rat.le

theorem one_le_size {x : Binary64} (h : one ≤ x.magnitude) : 1 ≤ x.size := by
  have hone : (one : ℚ) ≤ x.magnitude := by exact_mod_cast h
  exact (one_le_div one_pos_rat).mpr hone

theorem size_ofNat {k : Nat} (h : k < 2 ^ 53) : (ofNat k).size = k := by
  rw [size, (magnitude_ofNat h).2, Nat.cast_mul, mul_div_cancel_right₀ _ one_pos_rat.ne']

/-! ## One rounding -/

/-- The nearest whole number is at most one half away. -/
theorem roundHalfEven_half {n d : Nat} (hd : 0 < d) :
    2 * (roundHalfEven n d * d) ≤ 2 * n + d ∧ 2 * n ≤ 2 * (roundHalfEven n d * d) + d := by
  have hdiv := Nat.div_add_mod n d
  have hmod := Nat.mod_lt n hd
  have hmul (q : Nat) : (q + 1) * d = d * q + d := by ring
  have hcomm := Nat.mul_comm (n / d) d
  simp only [roundHalfEven]
  split
  · omega
  · split
    · rw [hmul]
      omega
    · rcases Nat.mod_two_eq_zero_or_one (n / d) with heven | hodd
      · rw [heven, Nat.add_zero]
        omega
      · rw [hodd, hmul]
        omega

/-- A code by its unit exponent and a significand that may be the next power of two. -/
theorem codeMagnitude_full {e s : Nat} (hs : s ≤ 2 ^ 53) (hn : 2 ^ 52 ≤ s ∨ e = 0) :
    codeMagnitude (e * 2 ^ 52 + s) = s * 2 ^ e := by
  rcases hs.lt_or_eq with hlt | rfl
  · exact codeMagnitude_eq hlt hn
  · rw [show e * 2 ^ 52 + 2 ^ 53 = (e + 1) * 2 ^ 52 + 2 ^ 52 by ring,
      codeMagnitude_eq (by decide) (.inl le_rfl)]
    ring

/-- One rounding in numbers: the error is at most a part of `2 ^ -53`. Whole numbers of units are
rounded without error where that is not so. -/
theorem roundedCode_error {n d : Nat} (hd : 0 < d) (h : 2 ^ 52 * d ≤ n ∨ d = 1)
    (hfinite : roundedCode n d < infinityCode) :
    2 ^ 53 * (codeMagnitude (roundedCode n d) * d) ≤ (2 ^ 53 + 1) * n ∧
      (2 ^ 53 - 1) * n ≤ 2 ^ 53 * (codeMagnitude (roundedCode n d) * d) := by
  generalize he : (n / d).log2 - 52 = e
  have hcode : roundedCode n d = e * 2 ^ 52 + roundHalfEven n (d * 2 ^ e) := by
    simp only [roundedCode, he, Nat.shiftLeft_eq] at hfinite ⊢
    exact min_eq_left (le_of_not_ge fun hge => (min_eq_right hge ▸ hfinite).false)
  have hstep : 0 < d * 2 ^ e := Nat.mul_pos hd (Nat.two_pow_pos e)
  have hle := roundHalfEven_le hstep (lt_full hd he).le
  by_cases hfull : 2 ^ 52 * (d * 2 ^ e) ≤ n
  · have hhalf := roundHalfEven_half (n := n) hstep
    rw [hcode, codeMagnitude_full hle (.inl (le_roundHalfEven hstep hfull))]
    have hcomm : roundHalfEven n (d * 2 ^ e) * (d * 2 ^ e) =
        roundHalfEven n (d * 2 ^ e) * 2 ^ e * d := by ring
    rw [hcomm] at hhalf
    omega
  · have hzero : e = 0 := by
      by_contra hne
      exact hfull (full_le hd he (by omega))
    subst hzero
    rw [Nat.pow_zero, Nat.mul_one] at hcode hfull hle
    have hone : d = 1 := h.resolve_left hfull
    subst hone
    have hexact : roundHalfEven n 1 = n := by simp [roundHalfEven, Nat.mod_one]
    rw [hexact] at hcode hle
    rw [hcode, codeMagnitude_full hle (.inr rfl)]
    omega

/-- One rounding costs a part of `2 ^ -53`. -/
theorem near_roundedCode {n d : Nat} (hd : 0 < d) (h : 2 ^ 52 * d ≤ n ∨ d = 1)
    (hfinite : roundedCode n d < infinityCode) :
    Near roundoff (codeMagnitude (roundedCode n d)) (n / d) := by
  obtain ⟨hupper, hlower⟩ := roundedCode_error hd h hfinite
  have hdq : (0 : ℚ) < d := by exact_mod_cast hd
  have hupper : (2 ^ 53 * (codeMagnitude (roundedCode n d) * d) : ℚ) ≤ (2 ^ 53 + 1) * n := by
    exact_mod_cast hupper
  have hlower : ((2 ^ 53 - 1) * n : ℚ) ≤ 2 ^ 53 * (codeMagnitude (roundedCode n d) * d) := by
    have : (((2 ^ 53 - 1) * n : Nat) : ℚ) ≤ (2 ^ 53 * (codeMagnitude (roundedCode n d) * d) : Nat) := by
      exact_mod_cast hlower
    push_cast at this
    linarith
  constructor
  · rw [roundoff, ← mul_div_assoc, div_le_iff₀ hdq]
    linarith
  · rw [roundoff, ← mul_div_assoc, le_div_iff₀ hdq]
    linarith

/-! ## Operations -/

section

variable {x y : Binary64} {n : Nat}

theorem size_of_code {c : Nat} (h : x.code = c) : x.size = codeMagnitude c / one := by
  rw [size, magnitude_eq, h]

/-- The sign has no part in the size. -/
theorem size_ofCode (negative : Bool) (y : Binary64) : (ofCode negative y.code).size = y.size := by
  rw [size_of_code (code_ofCode (code_lt _)), ← magnitude_eq, size]

/-- A quotient of sizes in units. -/
theorem near_size {n d : Nat} {q : ℚ} (hd : 0 < d) (h : 2 ^ 52 * d ≤ n ∨ d = 1)
    (hcode : x.code = roundedCode n d) (hfinite : x.isFinite = true) (hq : (n / d : ℚ) = q * one) :
    Near roundoff x.size q := by
  have hnear := (near_roundedCode hd h (hcode ▸ of_decide_eq_true hfinite)).div_right
    one_pos_rat.le
  rwa [hq, mul_div_cancel_right₀ q one_pos_rat.ne', ← size_of_code hcode] at hnear

theorem near_add (hx : x.Unsigned) (hy : y.Unsigned) (hfinite : (x.add y).isFinite = true) :
    Near roundoff (x.add y).size (x.size + y.size) := by
  refine near_size Nat.one_pos (.inr rfl) (code_add hx hy) hfinite ?_
  rw [size, size, ← add_div, div_mul_cancel₀ _ one_pos_rat.ne']
  push_cast
  rw [div_one]

/-- A quotient that is at least `2 ^ -100` leads to no less than `2 ^ -1022`. -/
theorem full_of_quotient {n d : Nat} (hd : 0 < d) {q : ℚ} (hq : 1 / 2 ^ 100 ≤ q)
    (h : (n / d : ℚ) = q * one) : 2 ^ 52 * d ≤ n := by
  have hdq : (0 : ℚ) < d := by exact_mod_cast hd
  obtain ⟨t, ht, hone⟩ : ∃ t, 2 ^ 52 ≤ t ∧ 2 ^ 100 * t = one :=
    ⟨2 ^ (52 + 922), Nat.pow_le_pow_right (by decide) (by decide), two_pow_mul_eq_one rfl⟩
  have ht : (2 : ℚ) ^ 52 ≤ t := by exact_mod_cast ht
  have hunits : (2 : ℚ) ^ 52 ≤ n / d := by
    rw [h, ← hone]
    push_cast
    calc (2 : ℚ) ^ 52 ≤ t := ht
      _ = 1 / 2 ^ 100 * (2 ^ 100 * t) := by rw [one_div, inv_mul_cancel_left₀ (by positivity)]
      _ ≤ q * (2 ^ 100 * t) := mul_le_mul_of_nonneg_right hq (by positivity)
  rw [le_div_iff₀ hdq] at hunits
  exact_mod_cast hunits

theorem near_mul (hx : x.Unsigned) (hy : y.Unsigned) (hxf : x.isFinite = true)
    (hyf : y.isFinite = true) (h : 1 / 2 ^ 100 ≤ x.size * y.size)
    (hfinite : (x.mul y).isFinite = true) : Near roundoff (x.mul y).size (x.size * y.size) := by
  have hquotient : ((x.magnitude * y.magnitude : Nat) / one : ℚ) = x.size * y.size * one := by
    have := one_pos_rat.ne'
    rw [size, size]
    push_cast
    field_simp
  exact near_size one_pos (.inl (full_of_quotient one_pos h hquotient))
    (by rw [mul_of_finite hx hy hxf hyf, code_round]) hfinite hquotient

theorem near_div (hx : x.Unsigned) (hy : y.Unsigned) (hxf : x.isFinite = true)
    (hyf : y.isFinite = true) (hy0 : 0 < y.magnitude) (h : 1 / 2 ^ 100 ≤ x.size / y.size)
    (hfinite : (x.div y).isFinite = true) : Near roundoff (x.div y).size (x.size / y.size) := by
  have hcode : 0 < y.code := Nat.pos_of_ne_zero fun hzero => by
    rw [magnitude_eq, hzero, codeMagnitude_zero] at hy0
    omega
  have hquotient : ((x.magnitude * one : Nat) / y.magnitude : ℚ) = x.size / y.size * one := by
    have := one_pos_rat.ne'
    have : (y.magnitude : ℚ) ≠ 0 := by exact_mod_cast hy0.ne'
    rw [size, size]
    push_cast
    field_simp
  exact near_size hy0 (.inl (full_of_quotient hy0 h hquotient))
    (by rw [div_of_finite hx hy hxf hyf hcode, code_round]) hfinite hquotient

theorem near_ofNat (hfinite : (ofNat n).isFinite = true) : Near roundoff (ofNat n).size n := by
  refine near_size Nat.one_pos (.inr rfl) (code_round _ _ _) hfinite ?_
  push_cast
  rw [div_one]

/-! ## Finite results have finite operands -/

theorem isFinite_of_add (hx : x.Unsigned) (hy : y.Unsigned) (h : (x.add y).isFinite = true) :
    x.isFinite = true ∧ y.isFinite = true := by
  have hlt : (x.add y).code < infinityCode := of_decide_eq_true h
  have hxle := le_code_add (c := x.code) hx hy hx.code_le
    (by rw [← magnitude_eq]; exact Nat.le_add_right _ _)
  have hyle := le_code_add (c := y.code) hx hy hy.code_le
    (by rw [← magnitude_eq]; exact Nat.le_add_left _ _)
  exact ⟨decide_eq_true (hxle.trans_lt hlt), decide_eq_true (hyle.trans_lt hlt)⟩

theorem isFinite_of_mul (hx : x.Unsigned) (hy : y.Unsigned) (hx0 : 0 < x.code) (hy0 : 0 < y.code)
    (h : (x.mul y).isFinite = true) : x.isFinite = true ∧ y.isFinite = true := by
  by_contra hnot
  rw [mul_of_infinite hx hy hx0 hy0 hnot] at h
  exact absurd h (by decide)

theorem isFinite_of_div (hx : x.Unsigned) (hy : y.Unsigned) (hyf : y.isFinite = true)
    (h : (x.div y).isFinite = true) : x.isFinite = true := by
  by_contra hnot
  rw [div_of_infinite hx hy hnot hyf] at h
  exact absurd h (by decide)

end

end Binary64

end DocQuery
