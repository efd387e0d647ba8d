import DocQuery.Number.Logarithm
import DocQuery.Proofs.Number.Rounding

/-!
# Bounds of rounded results

A quotient that is at most the magnitude of a code is rounded to at most that code, so a bound on exact
results is one on codes, whatever the signs are.

* `roundedCode_le`, `leaningCode_le`: this for each way of rounding.
* `le_roundedCode`, `le_leaningCode`: the same from below.
* `add_code_le`, `mul_code_le`, `div_code_le`, `ofInt_code_le`: the same for each operation.
* `powerCode`: the code of a power of two. Bounds are taken from them and from whole numbers.
* `isNegative_add` and so on: no operation on doubles without a sign gives one.
-/

namespace DocQuery

namespace Binary64

/-! ## Rounding -/

theorem infinityCode_lt : infinityCode < 2 ^ 63 := by decide

theorem roundHalfEven_le {n d m : Nat} (hd : 0 < d) (h : n ≤ m * d) : roundHalfEven n d ≤ m := by
  have hdiv := Nat.div_add_mod n d
  have hmod := Nat.mod_lt n hd
  have hq : n / d < m ∨ n / d = m ∧ n % d = 0 := by
    rcases Nat.lt_or_ge (n / d) m with hlt | hge
    · exact .inl hlt
    · have hle := Nat.mul_le_mul_left d hge
      rw [Nat.mul_comm m d] at h
      have heq : d * (n / d) = d * m := by omega
      exact .inr ⟨Nat.eq_of_mul_eq_mul_left hd heq, by omega⟩
  simp only [roundHalfEven]
  split
  · omega
  · split <;> omega

theorem roundHalfUp_le {n d m : Nat} (hd : 0 < d) (h : n ≤ m * d) : roundHalfUp n d ≤ m := by
  have hdiv := Nat.div_le_of_le_mul (h.trans_eq (Nat.mul_comm m d))
  unfold roundHalfUp
  split
  · exact hdiv
  -- What goes up has a remainder, so the quotient lies below the bound.
  · rename_i hup
    refine (Nat.div_lt_iff_lt_mul hd).mpr (lt_of_le_of_ne h fun heq => hup ?_)
    rw [heq, Nat.mul_mod_left]
    omega

theorem le_roundHalfEven {n d m : Nat} (hd : 0 < d) (h : m * d ≤ n) : m ≤ roundHalfEven n d := by
  have hdiv := (Nat.le_div_iff_mul_le hd).mpr h
  simp only [roundHalfEven]
  split
  · omega
  · split <;> omega

section

variable {n d c e s : Nat}

/-- In its unit exponent a quotient has 53 bits at most. -/
theorem lt_full (hd : 0 < d) (he : (n / d).log2 - 52 = e) : n < 2 ^ 53 * (d * 2 ^ e) := by
  have hself : n / d < 2 ^ (53 + e) :=
    Nat.lt_log2_self.trans_le (Nat.pow_le_pow_right (by decide) (by omega))
  have hn := (Nat.div_lt_iff_lt_mul hd).mp hself
  rwa [Nat.pow_add, Nat.mul_assoc, Nat.mul_comm (2 ^ e)] at hn

/-- It has 53 bits at least, if the unit exponent is not the least. -/
theorem full_le (hd : 0 < d) (he : (n / d).log2 - 52 = e) (hpos : 0 < e) :
    2 ^ 52 * (d * 2 ^ e) ≤ n := by
  have hself : 2 ^ (n / d).log2 ≤ n / d :=
    Nat.log2_self_le (by intro hzero; simp [hzero] at he; omega)
  rw [Nat.mul_left_comm, ← Nat.pow_add, Nat.mul_comm, ← he, Nat.add_sub_cancel' (by omega)]
  exact (Nat.le_div_iff_mul_le hd).mp hself

/-- If a quotient is at most the magnitude of a code, so are the unit exponent that rounding takes
and any significand that no larger quotient would exceed, put side by side. -/
theorem code_le_of_significand_le (hd : 0 < d) (h : n ≤ codeMagnitude c * d)
    (he : (n / d).log2 - 52 = e) (hs : ∀ m, n ≤ m * (d * 2 ^ e) → s ≤ m) : e * 2 ^ 52 + s ≤ c := by
  have hcode := code_eq c
  have hlt := codeSignificand_lt c
  have hquotient : n / d < 2 ^ (53 + codeUnit c) := by
    refine (Nat.div_lt_iff_lt_mul hd).mpr (h.trans_lt (Nat.mul_lt_mul_of_pos_right ?_ hd))
    rw [codeMagnitude, Nat.pow_add]
    exact Nat.mul_lt_mul_of_pos_right hlt (Nat.two_pow_pos _)
  have hlog : (n / d).log2 < 53 + codeUnit c := by
    by_cases hzero : n / d = 0
    · simp [hzero]
    · exact (Nat.log2_lt hzero).mpr hquotient
  rcases Nat.lt_or_ge e (codeUnit c) with hunit | hunit
  -- One unit exponent below, a full significand is still no more than the least one above.
  · have hfull : s ≤ 2 ^ 53 := hs _ (lt_full hd he).le
    have hnormal := codeSignificand_normal c
    omega
  · have heq : e = codeUnit c := by omega
    have hsig : s ≤ codeSignificand c := by
      refine hs _ (h.trans_eq ?_)
      rw [codeMagnitude, heq]
      ring
    omega

/-- If a quotient is at least the magnitude of a code, so are the unit exponent that rounding takes
and any significand that no smaller quotient would fall below, put side by side. -/
theorem le_code_of_le_significand (hd : 0 < d) (h : codeMagnitude c * d ≤ n)
    (he : (n / d).log2 - 52 = e) (hs : ∀ m, m * (d * 2 ^ e) ≤ n → m ≤ s) : c ≤ e * 2 ^ 52 + s := by
  have hcode := code_eq c
  have hlt := codeSignificand_lt c
  have hquotient : codeSignificand c * 2 ^ codeUnit c ≤ n / d := (Nat.le_div_iff_mul_le hd).mpr h
  have hunit : codeUnit c ≤ e := by
    rcases codeSignificand_normal c with hfull | hzero
    · have hpow : 2 ^ (52 + codeUnit c) ≤ n / d := by
        rw [Nat.pow_add]
        exact (Nat.mul_le_mul_right _ hfull).trans hquotient
      have := (Nat.le_log2 (by have := Nat.two_pow_pos (52 + codeUnit c); omega)).mpr hpow
      omega
    · omega
  rcases hunit.eq_or_lt with heq | hlarger
  · have hsig : codeSignificand c * (d * 2 ^ e) ≤ n := by
      rw [← heq, Nat.mul_left_comm, Nat.mul_comm d]
      exact h
    have := hs _ hsig
    omega
  -- One unit exponent above, a full significand is no less than any one below.
  · have := hs _ (full_le hd he (by omega))
    omega

end

/-- A quotient that is at most the magnitude of a code is rounded to at most the code. -/
theorem roundedCode_le {n d c : Nat} (hd : 0 < d) (h : n ≤ codeMagnitude c * d) :
    roundedCode n d ≤ c := by
  simp only [roundedCode, Nat.shiftLeft_eq]
  exact (Nat.min_le_left _ _).trans (code_le_of_significand_le hd h rfl fun m hm =>
    roundHalfEven_le (Nat.mul_pos hd (Nat.two_pow_pos _)) hm)

/-- A quotient that is at least the magnitude of a code is rounded to at least the code. -/
theorem le_roundedCode {n d c : Nat} (hd : 0 < d) (h : codeMagnitude c * d ≤ n)
    (hc : c ≤ infinityCode) : c ≤ roundedCode n d := by
  simp only [roundedCode, Nat.shiftLeft_eq]
  exact Nat.le_min.mpr ⟨le_code_of_le_significand hd h rfl fun m hm =>
    le_roundHalfEven (Nat.mul_pos hd (Nat.two_pow_pos _)) hm, hc⟩

theorem leaningCode_le {n d c : Nat} (hd : 0 < d) (h : n ≤ codeMagnitude c * d) :
    leaningCode n d ≤ c := by
  simp only [leaningCode, Nat.shiftLeft_eq]
  refine (Nat.min_le_left _ _).trans (code_le_of_significand_le hd h rfl fun m hm => ?_)
  have hstep : 0 < d * 2 ^ ((n / d).log2 - 52) := Nat.mul_pos hd (Nat.two_pow_pos _)
  generalize d * 2 ^ ((n / d).log2 - 52) = step at hm hstep ⊢
  have hdiv := Nat.div_add_mod n step
  split
  -- What goes up has a remainder, so the quotient lies below the bound.
  · rename_i hup
    refine (Nat.div_lt_iff_lt_mul hstep).mpr (lt_of_le_of_ne hm fun heq => ?_)
    have hrest : n % step = 0 := by rw [heq, Nat.mul_mod_left]
    omega
  · exact Nat.div_le_of_le_mul (by rwa [Nat.mul_comm])

theorem le_leaningCode {n d c : Nat} (hd : 0 < d) (h : codeMagnitude c * d ≤ n)
    (hc : c ≤ infinityCode) : c ≤ leaningCode n d := by
  simp only [leaningCode, Nat.shiftLeft_eq]
  refine Nat.le_min.mpr ⟨le_code_of_le_significand hd h rfl fun m hm => ?_, hc⟩
  exact ((Nat.le_div_iff_mul_le (Nat.mul_pos hd (Nat.two_pow_pos _))).mpr hm).trans
    (Nat.le_add_right _ _)

theorem roundedCode_lt (n d : Nat) : roundedCode n d < 2 ^ 63 :=
  (Nat.min_le_right _ _).trans_lt infinityCode_lt

theorem leaningCode_lt (n d : Nat) : leaningCode n d < 2 ^ 63 :=
  (Nat.min_le_right _ _).trans_lt infinityCode_lt

theorem code_round (negative : Bool) (n d : Nat) : (round negative n d).code = roundedCode n d :=
  code_ofCode (roundedCode_lt n d)

theorem isNegative_round (negative : Bool) (n d : Nat) :
    (round negative n d).isNegative = negative :=
  isNegative_ofCode (roundedCode_lt n d)

/-! ## Magnitudes -/

theorem magnitude_le {x : Binary64} {c : Nat} (h : x.code ≤ c) : x.magnitude ≤ codeMagnitude c :=
  (magnitude_eq x).trans_le (codeMagnitude_strictMono.monotone h)

theorem isFinite_of_code_le {x : Binary64} {c : Nat} (h : x.code ≤ c) (hc : c < infinityCode) :
    x.isFinite = true :=
  decide_eq_true (h.trans_lt hc)

theorem magnitude_lt_iff {x : Binary64} {c : Nat} : x.magnitude < codeMagnitude c ↔ x.code < c :=
  x.magnitude_eq ▸ codeMagnitude_strictMono.lt_iff_lt

theorem natAbs_scaled (x : Binary64) : x.scaled.natAbs = x.magnitude := by
  unfold scaled
  split <;> simp

/-- The code of `2 ^ k`. -/
def powerCode (k : Nat) : Nat := (k + 1022) * 2 ^ 52 + 2 ^ 52

theorem codeMagnitude_powerCode (k : Nat) : codeMagnitude (powerCode k) = 2 ^ k * one := by
  have hexp : 52 + (k + 1022) = k + 1074 := by omega
  rw [powerCode, codeMagnitude_eq (by decide) (.inl le_rfl), ← Nat.pow_add, hexp, two_pow_add_units]

/-! ## Operations -/

section

variable {x y : Binary64} {a b c : Nat}

theorem codeMagnitude_powerCode_add {k l : Nat} (h : k + 1 = l) :
    codeMagnitude (powerCode k) + codeMagnitude (powerCode k) = codeMagnitude (powerCode l) := by
  simp only [codeMagnitude_powerCode, ← h]
  ring

theorem codeMagnitude_powerCode_mul {j k l : Nat} (h : j + k = l) :
    codeMagnitude (powerCode j) * codeMagnitude (powerCode k) = codeMagnitude (powerCode l) * one := by
  simp only [codeMagnitude_powerCode, ← h]
  ring

theorem ofInt_code_le {n : Int} (h : n.natAbs * one ≤ codeMagnitude c) : (ofInt n).code ≤ c := by
  rw [ofInt, code_round]
  exact roundedCode_le Nat.one_pos (h.trans_eq (Nat.mul_one _).symm)

theorem ofNat_code_le {n : Nat} (h : n * one ≤ codeMagnitude c) : (ofNat n).code ≤ c := by
  rw [ofNat, code_round]
  exact roundedCode_le Nat.one_pos (h.trans_eq (Nat.mul_one _).symm)

theorem ofNat_code_le_power {n k : Nat} (h : n ≤ 2 ^ k) : (ofNat n).code ≤ powerCode k :=
  ofNat_code_le ((Nat.mul_le_mul_right one h).trans_eq (codeMagnitude_powerCode k).symm)

/-- Whole numbers from one up are rounded to doubles from one up. -/
theorem one_le_magnitude_round (negative : Bool) {k : Nat} (hk : 1 ≤ k) :
    one ≤ (round negative (k * one) 1).magnitude := by
  have hone : codeMagnitude (powerCode 0) = one :=
    (codeMagnitude_powerCode 0).trans (Nat.one_mul _)
  rw [magnitude_eq, ← hone]
  refine codeMagnitude_strictMono.monotone ?_
  rw [code_round]
  refine le_roundedCode Nat.one_pos ?_ (by decide)
  rw [Nat.mul_one, hone]
  exact Nat.le_mul_of_pos_left _ hk

theorem finite_flags (h : x.code ≤ a) (ha : a < infinityCode) :
    x.isNaN = false ∧ x.isInfinite = false :=
  ⟨decide_eq_false (by omega), beq_false_of_ne (by omega)⟩

theorem add_code_le (hx : x.code ≤ a) (hy : y.code ≤ b) (ha : a < infinityCode)
    (hb : b < infinityCode) (h : codeMagnitude a + codeMagnitude b ≤ codeMagnitude c) :
    (x.add y).code ≤ c := by
  obtain ⟨hxn, hxi⟩ := finite_flags hx ha
  obtain ⟨hyn, hyi⟩ := finite_flags hy hb
  have hsum : (x.scaled + y.scaled).natAbs ≤ codeMagnitude c := by
    have := Int.natAbs_add_le x.scaled y.scaled
    have := natAbs_scaled x
    have := natAbs_scaled y
    have := magnitude_le hx
    have := magnitude_le hy
    omega
  simp only [add, hxn, hyn, hxi, hyi, Bool.or_self, Bool.false_eq_true, if_false]
  split
  · rw [code_ofCode (by decide)]
    exact Nat.zero_le c
  · rw [code_round]
    exact roundedCode_le Nat.one_pos (hsum.trans_eq (Nat.mul_one _).symm)

theorem code_mul (hx : x.isFinite = true) (hy : y.isFinite = true) :
    (x.mul y).code = roundedCode (x.magnitude * y.magnitude) one := by
  obtain ⟨hxn, hxi⟩ := finite_flags le_rfl (of_decide_eq_true hx)
  obtain ⟨hyn, hyi⟩ := finite_flags le_rfl (of_decide_eq_true hy)
  simp only [mul, hxn, hyn, hxi, hyi, Bool.or_self, Bool.false_eq_true, if_false]
  exact code_round _ _ _

theorem mul_code_le (hx : x.code ≤ a) (hy : y.code ≤ b) (ha : a < infinityCode)
    (hb : b < infinityCode) (h : codeMagnitude a * codeMagnitude b ≤ codeMagnitude c * one) :
    (x.mul y).code ≤ c := by
  rw [code_mul (isFinite_of_code_le hx ha) (isFinite_of_code_le hy hb)]
  exact roundedCode_le one_pos ((Nat.mul_le_mul (magnitude_le hx) (magnitude_le hy)).trans h)

/-- Dividing by at least one gives no larger code. -/
theorem div_code_le (hx : x.code ≤ c) (hc : c < infinityCode) (hy : y.isFinite = true)
    (hone : one ≤ y.magnitude) : (x.div y).code ≤ c := by
  obtain ⟨hxn, hxi⟩ := finite_flags hx hc
  have hy : y.code < infinityCode := of_decide_eq_true hy
  obtain ⟨hyn, hyi⟩ := finite_flags le_rfl hy
  have hpos : 0 < y.magnitude := one_pos.trans_le hone
  have hyz : y.isZero = false := beq_false_of_ne fun hzero => by
    rw [magnitude_eq, hzero, codeMagnitude_zero] at hpos
    omega
  simp only [div, hxn, hyn, hxi, hyi, hyz, Bool.or_self, Bool.false_eq_true, if_false]
  rw [code_round]
  exact roundedCode_le hpos (Nat.mul_le_mul (magnitude_le hx) hone)

/-! ## Signs -/

theorem isNegative_ofNat (n : Nat) : (ofNat n).isNegative = false := isNegative_round _ _ _

theorem isNegative_tenTo (k : Int) : (tenTo k).isNegative = false :=
  isNegative_ofCode (leaningCode_lt _ _)

theorem isNegative_add (hx : x.isNegative = false) (hy : y.isNegative = false) :
    (x.add y).isNegative = false := by
  have hsum : ¬ x.scaled + y.scaled < 0 := by
    simp only [scaled, hx, hy, Bool.false_eq_true, if_false]
    omega
  simp only [add, hx, hy, decide_eq_false hsum, bne_self_eq_false, Bool.and_false,
    Bool.false_eq_true, if_false]
  split
  · decide
  · split
    · exact hx
    · split
      · exact hy
      · split
        · decide
        · exact isNegative_round _ _ _

theorem isNegative_mul (hx : x.isNegative = false) (hy : y.isNegative = false) :
    (x.mul y).isNegative = false := by
  simp only [mul, hx, hy, bne_self_eq_false]
  split
  · decide
  · split
    · split <;> decide
    · exact isNegative_round _ _ _

theorem isNegative_div (hx : x.isNegative = false) (hy : y.isNegative = false) :
    (x.div y).isNegative = false := by
  simp only [div, hx, hy, bne_self_eq_false]
  split
  · decide
  · split
    · split <;> decide
    · split
      · decide
      · split
        · split <;> decide
        · exact isNegative_round _ _ _

end

end Binary64

end DocQuery
