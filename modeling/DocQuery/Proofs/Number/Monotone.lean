import DocQuery.Proofs.Number.Logarithm

/-!
# Results from below

Rounding keeps the order, so bounds of exact results from below are bounds of codes too. Infinity is
no exception: its code bounds the codes of all doubles without a sign.

* `roundedCode_mono`, `leaningCode_mono`: a larger quotient has no smaller code.
* `Unsigned`: doubles without a sign, as far as infinity.
* `le_code_add`, `le_code_mul`, `le_code_div`: bounds from below for each operation on them.
* `magnitude_ofNat`: whole numbers of 53 bits are doubles.
-/

namespace DocQuery

namespace Binary64

/-! ## Rounding -/

theorem roundHalfEven_mono {n n' : Nat} (d : Nat) (h : n ≤ n') :
    roundHalfEven n d ≤ roundHalfEven n' d := by
  have hq := Nat.div_le_div_right (c := d) h
  rcases hq.eq_or_lt with heq | hlt
  · have hdiv := Nat.div_add_mod n d
    have hdiv' := Nat.div_add_mod n' d
    simp only [roundHalfEven, ← heq] at hdiv' ⊢
    split <;> split <;> (try split) <;> (try split) <;> omega
  · simp only [roundHalfEven]
    split <;> split <;> (try split) <;> (try split) <;> omega

section

variable {n n' d e e' s s' : Nat}

theorem log2_mono (h : n ≤ n') : n.log2 ≤ n'.log2 := by
  by_cases hzero : n = 0
  · simp [hzero]
  · exact (Nat.le_log2 (by omega)).mpr ((Nat.log2_self_le hzero).trans h)

/-- A larger quotient has no smaller code, if its significand is no smaller in the same unit exponent
and full in a larger one. -/
theorem code_mono_of_significand (h : n ≤ n') (he : (n / d).log2 - 52 = e)
    (he' : (n' / d).log2 - 52 = e') (hs : s ≤ 2 ^ 53) (hsame : e = e' → s ≤ s')
    (hfull : 0 < e' → 2 ^ 52 ≤ s') : e * 2 ^ 52 + s ≤ e' * 2 ^ 52 + s' := by
  have hlog := log2_mono (Nat.div_le_div_right (c := d) h)
  rcases Nat.lt_or_ge e e' with hlt | hge
  · have := hfull (by omega)
    omega
  · have heq : e = e' := by omega
    have := hsame heq
    omega

theorem roundedCode_mono (hd : 0 < d) (h : n ≤ n') : roundedCode n d ≤ roundedCode n' d := by
  simp only [roundedCode, Nat.shiftLeft_eq]
  have hstep (e : Nat) : 0 < d * 2 ^ e := Nat.mul_pos hd (Nat.two_pow_pos e)
  refine min_le_min_right _ (code_mono_of_significand h rfl rfl ?_ ?_ ?_)
  · exact roundHalfEven_le (hstep _) (lt_full hd rfl).le
  · intro heq
    rw [heq]
    exact roundHalfEven_mono _ h
  · exact fun hpos => le_roundHalfEven (hstep _) (full_le hd rfl hpos)

theorem leaningCode_mono (hd : 0 < d) (h : n ≤ n') : leaningCode n d ≤ leaningCode n' d := by
  simp only [leaningCode, Nat.shiftLeft_eq]
  have hstep (e : Nat) : 0 < d * 2 ^ e := Nat.mul_pos hd (Nat.two_pow_pos e)
  refine min_le_min_right _ (code_mono_of_significand h rfl rfl ?_ ?_ ?_)
  · have := (Nat.div_lt_iff_lt_mul (hstep _)).mpr (lt_full (n := n) hd rfl)
    split <;> omega
  · intro heq
    rw [heq]
    generalize d * 2 ^ ((n' / d).log2 - 52) = step
    have hq := Nat.div_le_div_right (c := step) h
    have hdiv := Nat.div_add_mod n step
    have hdiv' := Nat.div_add_mod n' step
    rcases hq.eq_or_lt with hq | hq
    · rw [← hq] at hdiv'
      rw [hq]
      split <;> split <;> omega
    · split <;> split <;> omega
  · intro hpos
    have := (Nat.le_div_iff_mul_le (hstep _)).mpr (full_le hd rfl hpos)
    omega

end

/-! ## Operations -/

/-- The double is no NaN and has no sign. -/
structure Unsigned (x : Binary64) : Prop where
  code_le : x.code ≤ infinityCode
  isNegative : x.isNegative = false

section

variable {x y : Binary64} {n d c : Nat}

theorem unsigned_ofCode (h : c ≤ infinityCode) : (ofCode false c).Unsigned := by
  have hlt := h.trans_lt infinityCode_lt
  exact ⟨by rwa [code_ofCode hlt], isNegative_ofCode hlt⟩

theorem unsigned_round (n d : Nat) : (round false n d).Unsigned :=
  unsigned_ofCode (Nat.min_le_right _ _)

theorem unsigned_ofNat (n : Nat) : (ofNat n).Unsigned := unsigned_round _ _

theorem Unsigned.isNaN (h : x.Unsigned) : x.isNaN = false := decide_eq_false h.code_le.not_gt

theorem Unsigned.scaled (h : x.Unsigned) : x.scaled = x.magnitude := by
  rw [Binary64.scaled, h.isNegative]
  rfl

/-- Doubles without a sign compare as their codes do. -/
theorem Unsigned.compare_eq (hx : x.Unsigned) (hy : y.Unsigned) :
    x.compare y = Ord.compare x.code y.code := by
  have hcast : Ord.compare (x.code : Int) y.code = Ord.compare x.code y.code := by
    rw [← cmp_eq_compare, ← cmp_eq_compare]
    exact Nat.strictMono_cast.cmp_map_eq _ _
  simp only [compare, hx.isNaN, hy.isNaN, rank, hx.isNegative, hy.isNegative, Bool.false_eq_true,
    if_false, hcast]

theorem Unsigned.isInfinite (h : x.Unsigned) (hinf : ¬ x.isFinite = true) : x.code = infinityCode := by
  have := h.code_le
  simp only [isFinite, decide_eq_true_eq] at hinf
  omega

theorem roundedCode_infinity (hd : 0 < d) (h : codeMagnitude infinityCode * d ≤ n) :
    roundedCode n d = infinityCode :=
  (Nat.min_le_right _ _).antisymm (le_roundedCode hd h le_rfl)

/-- The sum is rounded once, with infinity as the number that its code says. -/
theorem code_add (hx : x.Unsigned) (hy : y.Unsigned) :
    (x.add y).code = roundedCode (x.magnitude + y.magnitude) 1 := by
  have hinf {z w : Binary64} (hz : z.code = infinityCode) :
      roundedCode (z.magnitude + w.magnitude) 1 = infinityCode := by
    refine roundedCode_infinity Nat.one_pos ?_
    rw [magnitude_eq z, hz, Nat.mul_one]
    exact Nat.le_add_right _ _
  simp only [add, hx.isNaN, hy.isNaN, hx.isNegative, hy.isNegative, Bool.or_self, bne_self_eq_false,
    Bool.and_false, Bool.false_eq_true, if_false, isInfinite, beq_iff_eq]
  split
  · rw [hinf ‹_›]
    assumption
  · split
    · rw [Nat.add_comm, hinf ‹_›]
      assumption
    · rw [hx.scaled, hy.scaled]
      split
      · have hzero : x.magnitude + y.magnitude = 0 := by omega
        rw [hzero]
        decide
      · rw [code_round, ← Int.natCast_add, Int.natAbs_natCast]

theorem unsigned_add (hx : x.Unsigned) (hy : y.Unsigned) : (x.add y).Unsigned :=
  ⟨by rw [code_add hx hy]; exact Nat.min_le_right _ _, isNegative_add hx.isNegative hy.isNegative⟩

theorem mul_of_finite (hx : x.Unsigned) (hy : y.Unsigned) (hxf : x.isFinite = true)
    (hyf : y.isFinite = true) : x.mul y = round false (x.magnitude * y.magnitude) one := by
  have hxi := (finite_flags le_rfl (of_decide_eq_true hxf)).2
  have hyi := (finite_flags le_rfl (of_decide_eq_true hyf)).2
  simp only [mul, hx.isNaN, hy.isNaN, hxi, hyi, hx.isNegative, hy.isNegative, bne_self_eq_false,
    Bool.or_self, Bool.false_eq_true, if_false]

theorem mul_of_infinite (hx : x.Unsigned) (hy : y.Unsigned) (hx0 : 0 < x.code) (hy0 : 0 < y.code)
    (h : ¬ (x.isFinite = true ∧ y.isFinite = true)) : x.mul y = infinity false := by
  have hxz : x.isZero = false := beq_false_of_ne (by omega)
  have hyz : y.isZero = false := beq_false_of_ne (by omega)
  have hinf : (x.isInfinite || y.isInfinite) = true := by
    rw [Bool.or_eq_true, Binary64.isInfinite, Binary64.isInfinite, beq_iff_eq, beq_iff_eq]
    by_cases hxf : x.isFinite = true
    · exact .inr (hy.isInfinite fun hyf => h ⟨hxf, hyf⟩)
    · exact .inl (hx.isInfinite hxf)
  simp only [mul, hx.isNaN, hy.isNaN, hinf, hxz, hyz, hx.isNegative, hy.isNegative,
    bne_self_eq_false, Bool.or_self, Bool.false_eq_true, if_false, if_true]

theorem unsigned_mul (hx : x.Unsigned) (hy : y.Unsigned) (hx0 : 0 < x.code) (hy0 : 0 < y.code) :
    (x.mul y).Unsigned := by
  by_cases h : x.isFinite = true ∧ y.isFinite = true
  · rw [mul_of_finite hx hy h.1 h.2]
    exact unsigned_round _ _
  · rw [mul_of_infinite hx hy hx0 hy0 h]
    exact unsigned_ofCode le_rfl

theorem div_of_finite (hx : x.Unsigned) (hy : y.Unsigned) (hxf : x.isFinite = true)
    (hyf : y.isFinite = true) (hy0 : 0 < y.code) :
    x.div y = round false (x.magnitude * one) y.magnitude := by
  have hxi := (finite_flags le_rfl (of_decide_eq_true hxf)).2
  have hyi := (finite_flags le_rfl (of_decide_eq_true hyf)).2
  have hyz : y.isZero = false := beq_false_of_ne (by omega)
  simp only [div, hx.isNaN, hy.isNaN, hxi, hyi, hyz, hx.isNegative, hy.isNegative,
    bne_self_eq_false, Bool.or_self, Bool.false_eq_true, if_false]

theorem div_of_infinite (hx : x.Unsigned) (hy : y.Unsigned) (hxf : ¬ x.isFinite = true)
    (hyf : y.isFinite = true) : x.div y = infinity false := by
  have hxi : x.isInfinite = true := beq_iff_eq.mpr (hx.isInfinite hxf)
  have hyi := (finite_flags le_rfl (of_decide_eq_true hyf)).2
  simp only [div, hx.isNaN, hy.isNaN, hxi, hyi, hx.isNegative, hy.isNegative,
    bne_self_eq_false, Bool.or_self, Bool.false_eq_true, if_false, if_true]

theorem unsigned_div (hx : x.Unsigned) (hy : y.Unsigned) (hyf : y.isFinite = true)
    (hy0 : 0 < y.code) : (x.div y).Unsigned := by
  by_cases h : x.isFinite = true
  · rw [div_of_finite hx hy h hyf hy0]
    exact unsigned_round _ _
  · rw [div_of_infinite hx hy h hyf]
    exact unsigned_ofCode le_rfl

/-! ## Results from below -/

theorem magnitude_mono (h : x.code ≤ y.code) : x.magnitude ≤ y.magnitude := by
  rw [magnitude_eq x, magnitude_eq y]
  exact codeMagnitude_strictMono.monotone h

theorem add_code_mono {x' y' : Binary64} (hx : x.Unsigned) (hx' : x'.Unsigned) (hy : y.Unsigned)
    (hy' : y'.Unsigned) (h : x.code ≤ x'.code) (h' : y.code ≤ y'.code) :
    (x.add y).code ≤ (x'.add y').code := by
  rw [code_add hx hy, code_add hx' hy']
  exact roundedCode_mono Nat.one_pos (Nat.add_le_add (magnitude_mono h) (magnitude_mono h'))

theorem le_code_add (hx : x.Unsigned) (hy : y.Unsigned) (hc : c ≤ infinityCode)
    (h : codeMagnitude c ≤ x.magnitude + y.magnitude) : c ≤ (x.add y).code := by
  rw [code_add hx hy]
  exact le_roundedCode Nat.one_pos (by rwa [Nat.mul_one]) hc

theorem le_code_mul (hx : x.Unsigned) (hy : y.Unsigned) (hx0 : 0 < x.code) (hy0 : 0 < y.code)
    (hc : c ≤ infinityCode) (h : codeMagnitude c * one ≤ x.magnitude * y.magnitude) :
    c ≤ (x.mul y).code := by
  by_cases hfinite : x.isFinite = true ∧ y.isFinite = true
  · rw [mul_of_finite hx hy hfinite.1 hfinite.2, code_round]
    exact le_roundedCode one_pos h hc
  · rw [mul_of_infinite hx hy hx0 hy0 hfinite, infinity, code_ofCode infinityCode_lt]
    exact hc

theorem le_code_div (hx : x.Unsigned) (hy : y.Unsigned) (hyf : y.isFinite = true)
    (hy0 : 0 < y.code) (hc : c ≤ infinityCode)
    (h : codeMagnitude c * y.magnitude ≤ x.magnitude * one) : c ≤ (x.div y).code := by
  by_cases hfinite : x.isFinite = true
  · have hpos : 0 < y.magnitude := by
      rw [magnitude_eq]
      exact codeMagnitude_zero ▸ codeMagnitude_strictMono hy0
    rw [div_of_finite hx hy hfinite hyf hy0, code_round]
    exact le_roundedCode hpos h hc
  · rw [div_of_infinite hx hy hfinite hyf, infinity, code_ofCode infinityCode_lt]
    exact hc

end

/-! ## Whole numbers -/

theorem two_pow_mul_eq_one {a b : Nat} (h : a + b = 1074) : 2 ^ a * 2 ^ b = one := by
  rw [← Nat.pow_add, one_eq]
  generalize 1074 = k at h ⊢
  rw [h]

/-- Whole numbers of 53 bits are doubles. -/
theorem magnitude_ofNat {n : Nat} (h : n < 2 ^ 53) :
    (ofNat n).isFinite = true ∧ (ofNat n).magnitude = n * one := by
  obtain ⟨c, hlt, hc⟩ : ∃ c < infinityCode, codeMagnitude c = n * one := by
    rcases Nat.eq_zero_or_pos n with rfl | hpos
    · exact ⟨0, by decide, by rw [codeMagnitude_zero, Nat.zero_mul]⟩
    · have hself := Nat.log2_self_le hpos.ne'
      have hlt : n < 2 ^ (n.log2 + 1) := Nat.lt_log2_self
      have hlog : n.log2 ≤ 52 := by
        have := (Nat.log2_lt hpos.ne').mpr h
        omega
      -- The significand is the number with its first bit at the place 52.
      have hfull : 2 ^ 52 ≤ n * 2 ^ (52 - n.log2) := by
        have := Nat.mul_le_mul_right (2 ^ (52 - n.log2)) hself
        rwa [← Nat.pow_add, Nat.add_sub_cancel' hlog] at this
      have hroom : n * 2 ^ (52 - n.log2) < 2 ^ 53 := by
        have := Nat.mul_lt_mul_of_pos_right hlt (Nat.two_pow_pos (52 - n.log2))
        rwa [← Nat.pow_add, show n.log2 + 1 + (52 - n.log2) = 53 by omega] at this
      refine ⟨(1022 + n.log2) * 2 ^ 52 + n * 2 ^ (52 - n.log2), ?_, ?_⟩
      · rw [infinityCode_eq]
        omega
      · rw [codeMagnitude_eq hroom (.inl hfull), Nat.mul_assoc, two_pow_mul_eq_one (by omega)]
  have hcode : (ofNat n).code = c := by
    rw [ofNat, code_round, roundedCode_codeMagnitude Nat.one_pos _ hlt.le]
    rw [hc, Nat.mul_one]
  exact ⟨decide_eq_true (hcode ▸ hlt), by rw [magnitude_eq, hcode, hc]⟩

end Binary64

end DocQuery
