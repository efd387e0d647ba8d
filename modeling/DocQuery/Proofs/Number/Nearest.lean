import DocQuery.Proofs.Number.Error
import DocQuery.Proofs.Number.Shortest

/-!
# The nearest double

* `Binary64.Nearest x q`: no finite double is closer to `q` than `x` is, and if another is as close
  the significand of `x` is even.
* `roundsTo_code`: a quotient lies in the interval of the code that it rounds to.
* `nearest_of_roundsTo`: the double of that code is the nearest one.
* `isFinite_round_iff`: a quotient rounds to infinity from `overflow` on, half a unit above the
  largest double.
* `isFinite_ofDecimal_iff`, `nearest_ofDecimal`: the same for decimals, however large or small.
-/

namespace DocQuery

namespace Binary64

/-- What a finite double is worth. -/
def rat (x : Binary64) : ℚ := x.scaled / one

/-- Half way from the largest double to the next power of two. -/
def overflow : ℚ := 2 ^ 1024 - 2 ^ 970

theorem two_pow_lt_overflow : 2 ^ 63 < overflow := by
  have hle : (2 : ℚ) ^ 63 ≤ 2 ^ 970 := pow_le_pow_right₀ (by norm_num) (by norm_num)
  have hpow : (2 : ℚ) ^ 1024 = 2 ^ 970 * 2 ^ 54 := pow_add 2 970 54
  rw [overflow, hpow]
  generalize (2 : ℚ) ^ 970 = a at hle ⊢
  norm_num at hle ⊢
  linarith

/-- A finite double such that none is closer to `q`. Of two equally close it is the one with the even
significand. -/
structure Nearest (x : Binary64) (q : ℚ) : Prop where
  isFinite : x.isFinite = true
  closest : ∀ y : Binary64, y.isFinite = true → |x.rat - q| ≤ |y.rat - q|
  even : ∀ y : Binary64, y.isFinite = true → |x.rat - q| = |y.rat - q| → y.rat = x.rat ∨
    x.significand % 2 = 0

/-! ## The interval of a code -/

section

variable {n d c : Nat}

/-- The quotient is rounded to an odd number only if it is not half way to the next one. -/
theorem roundHalfEven_odd (hd : 0 < d) (hodd : roundHalfEven n d % 2 = 1) :
    2 * n ≠ 2 * (roundHalfEven n d * d) + d ∧ 2 * (roundHalfEven n d * d) ≠ 2 * n + d := by
  have hdiv := Nat.div_add_mod n d
  have hmod := Nat.mod_lt n hd
  have hmul : (n / d + 1) * d = d * (n / d) + d := by ring
  have hcomm := Nat.mul_comm (n / d) d
  simp only [roundHalfEven] at hodd ⊢
  split
  · omega
  · split
    · rw [hmul]
      omega
    · rw [if_neg ‹_›, if_neg ‹_›] at hodd
      omega

/-- The quotient lies in the interval of the code that its unit exponent and its significand make. -/
theorem roundsTo_code {e : Nat} (hd : 0 < d) (he : (n / d).log2 - 52 = e) :
    RoundsTo n d (e * 2 ^ 52 + roundHalfEven n (d * 2 ^ e)) := by
  have hstep : 0 < d * 2 ^ e := Nat.mul_pos hd (Nat.two_pow_pos e)
  have hlt := lt_full hd he
  have hle := roundHalfEven_le hstep hlt.le
  have hhalf := roundHalfEven_half (n := n) hstep
  have hodd := roundHalfEven_odd (n := n) hstep
  have hfull : 0 < e → 2 ^ 52 * (d * 2 ^ e) ≤ n := full_le hd he
  have hnormal : 2 ^ 52 ≤ roundHalfEven n (d * 2 ^ e) ∨ e = 0 := by
    rcases Nat.eq_zero_or_pos e with hzero | hpos
    · exact .inr hzero
    · exact .inl (le_roundHalfEven hstep (hfull hpos))
  generalize roundHalfEven n (d * 2 ^ e) = s at *
  rcases hle.lt_or_eq with hs | rfl
  · have hsignificand := codeSignificand_eq hs hnormal
    have hunit := codeUnit_eq hs hnormal
    refine ⟨hd, ?_, ?_, ?_⟩
    · rw [hsignificand, hunit, Nat.add_mul, Nat.mul_assoc]
      omega
    · rw [quartersBelow, hsignificand, hunit, Nat.sub_mul, Nat.mul_assoc]
      split
      · rename_i hleast
        have := hfull hleast.2
        rw [hleast.1]
        omega
      · omega
    · rw [hsignificand, hunit, Nat.add_mul, Nat.sub_mul, Nat.mul_assoc]
      intro hs
      have hpos := Nat.le_mul_of_pos_left (d * 2 ^ e) (show 0 < s by omega)
      have := hodd hs
      omega
  -- The significand is rounded up to the next power of two, the least one of the next unit exponent.
  · have hcode : e * 2 ^ 52 + 2 ^ 53 = (e + 1) * 2 ^ 52 + 2 ^ 52 := by ring
    have hsignificand : codeSignificand ((e + 1) * 2 ^ 52 + 2 ^ 52) = 2 ^ 52 :=
      codeSignificand_eq (by decide) (.inl le_rfl)
    have hunit : codeUnit ((e + 1) * 2 ^ 52 + 2 ^ 52) = e + 1 :=
      codeUnit_eq (by decide) (.inl le_rfl)
    have hdouble : d * 2 ^ (e + 1) = 2 * (d * 2 ^ e) := by ring
    rw [hcode]
    refine ⟨hd, ?_, ?_, ?_⟩
    · rw [hsignificand, hunit, hdouble]
      omega
    · rw [quartersBelow, hsignificand, hunit, hdouble, if_pos ⟨rfl, Nat.succ_pos e⟩]
      omega
    · rw [hsignificand]
      intro hs
      cases hs

theorem roundsTo_roundedCode (hd : 0 < d) (h : roundedCode n d < infinityCode) :
    RoundsTo n d (roundedCode n d) := by
  have hcode := roundsTo_code hd (n := n) rfl
  rw [← Nat.shiftLeft_eq, ← Nat.shiftLeft_eq] at hcode
  have hmin : roundedCode n d = _ := min_eq_left (le_of_not_ge fun hge => (min_eq_right hge ▸ h).false)
  rwa [hmin]

/-! ## Half ways -/

/-- Twice the number half way from the magnitude of a code to that of the next one. -/
def doubleHalfWay (c : Nat) : Nat := codeMagnitude c + codeMagnitude (c + 1)

theorem doubleHalfWay_strictMono : StrictMono doubleHalfWay := fun _ _ h =>
  Nat.add_lt_add (codeMagnitude_strictMono h) (codeMagnitude_strictMono (Nat.succ_lt_succ h))

/-- Half way down to the code before is half a unit of that one. -/
theorem quartersBelow_eq (hc : 0 < c) :
    quartersBelow c * 2 ^ codeUnit c = 2 * 2 ^ codeUnit (c - 1) := by
  have hcode := code_eq c
  have hnormal := codeSignificand_normal c
  have hlt := codeSignificand_lt c
  unfold quartersBelow
  split
  · have hpred : codeUnit c = codeUnit (c - 1) + 1 := by
      unfold codeUnit at *
      omega
    rw [hpred]
    ring
  · have hpred : codeUnit (c - 1) = codeUnit c := by
      unfold codeUnit at *
      omega
    rw [hpred]

theorem two_mul_doubleHalfWay (c d : Nat) :
    2 * (doubleHalfWay c * d) = (4 * codeSignificand c + 2) * (d * 2 ^ codeUnit c) := by
  rw [doubleHalfWay, codeMagnitude_succ, codeMagnitude]
  ring

theorem two_mul_doubleHalfWay_pred (hc : 0 < c) (d : Nat) : 2 * (doubleHalfWay (c - 1) * d) =
    (4 * codeSignificand c - quartersBelow c) * (d * 2 ^ codeUnit c) := by
  have hsucc := codeMagnitude_succ (c - 1)
  rw [Nat.sub_add_cancel hc] at hsucc
  have hbelow : quartersBelow c * (d * 2 ^ codeUnit c) = 2 * 2 ^ codeUnit (c - 1) * d := by
    rw [← quartersBelow_eq hc]
    ring
  have hmagnitude : 4 * codeSignificand c * (d * 2 ^ codeUnit c) = 4 * codeMagnitude c * d := by
    rw [codeMagnitude]
    ring
  rw [doubleHalfWay, Nat.sub_add_cancel hc, Nat.sub_mul, hbelow, hmagnitude, hsucc, ← Nat.sub_mul,
    ← Nat.mul_assoc]
  congr 1
  omega

/-- The interval ends half way to the next code, and there only if the significand is even. -/
theorem RoundsTo.le_half (h : RoundsTo n d c) : 2 * n ≤ doubleHalfWay c * d ∧
    (2 * n = doubleHalfWay c * d → codeSignificand c % 2 = 0) := by
  have htwice := two_mul_doubleHalfWay c d
  have hle := h.le
  constructor
  · omega
  · intro heq
    by_contra hodd
    have := (h.odd (by omega)).1
    omega

/-- It begins half way from the code before it, in the same way. -/
theorem RoundsTo.half_le (h : RoundsTo n d c) (hc : 0 < c) : doubleHalfWay (c - 1) * d ≤ 2 * n ∧
    (doubleHalfWay (c - 1) * d = 2 * n → codeSignificand c % 2 = 0) := by
  have htwice := two_mul_doubleHalfWay_pred hc d
  have hge := h.ge
  constructor
  · omega
  · intro heq
    by_contra hodd
    have hbelow : quartersBelow c = 2 := by
      rw [quartersBelow, if_neg]
      intro hleast
      omega
    rw [hbelow] at htwice
    have := (h.odd (by omega)).2
    omega

/-- The end of the interval as a bound on the quotient. -/
theorem RoundsTo.quotient_le_half (h : RoundsTo n d c) :
    2 * (n / d : ℚ) ≤ codeMagnitude c + codeMagnitude (c + 1) ∧
      (2 * (n / d : ℚ) = codeMagnitude c + codeMagnitude (c + 1) → codeSignificand c % 2 = 0) := by
  have hd : (0 : ℚ) < d := by exact_mod_cast h.pos
  rw [← mul_div_assoc, div_le_iff₀ hd, div_eq_iff hd.ne']
  exact_mod_cast h.le_half

theorem RoundsTo.half_le_quotient (h : RoundsTo n d c) (hc : 0 < c) :
    codeMagnitude (c - 1) + codeMagnitude c ≤ 2 * (n / d : ℚ) ∧
      (codeMagnitude (c - 1) + codeMagnitude c = 2 * (n / d : ℚ) → codeSignificand c % 2 = 0) := by
  have hd : (0 : ℚ) < d := by exact_mod_cast h.pos
  have hhalf := h.half_le hc
  rw [doubleHalfWay, Nat.sub_add_cancel hc] at hhalf
  rw [← mul_div_assoc, le_div_iff₀ hd, eq_div_iff hd.ne']
  exact_mod_cast hhalf

end

/-! ## From the interval to the distance -/

section

variable {a b m v : ℚ}

/-- On this side of the half way to `m`, what is beyond `m` is not closer. -/
theorem abs_sub_le_above (ham : a < m) (hmb : m ≤ b) (hv : 2 * v ≤ a + m) :
    |a - v| ≤ |b - v| ∧ (|a - v| = |b - v| → 2 * v = a + m) := by
  have hb : |b - v| = b - v := abs_of_nonneg (by linarith)
  rw [hb]
  constructor
  · rw [abs_le]
    constructor <;> linarith
  · intro heq
    rcases abs_cases (a - v) with ⟨ha, -⟩ | ⟨ha, -⟩ <;> linarith

theorem abs_sub_le_below (hma : m < a) (hbm : b ≤ m) (hv : m + a ≤ 2 * v) :
    |a - v| ≤ |b - v| ∧ (|a - v| = |b - v| → m + a = 2 * v) := by
  have hb : |b - v| = v - b := by
    rw [abs_sub_comm]
    exact abs_of_nonneg (by linarith)
  rw [hb]
  constructor
  · rw [abs_le]
    constructor <;> linarith
  · intro heq
    rcases abs_cases (a - v) with ⟨ha, -⟩ | ⟨ha, -⟩ <;> linarith

end

section

variable {n d c : Nat} {q : ℚ}

theorem scaled_cases (y : Binary64) : y.scaled = codeMagnitude y.code ∨ y.scaled ≤ 0 := by
  rw [scaled, magnitude_eq]
  split
  · right
    omega
  · exact .inl rfl

/-- Between the magnitudes of two codes in a row there is no double. -/
theorem scaled_le_pred {y : Binary64} (h : y.scaled < codeMagnitude c) :
    y.scaled ≤ codeMagnitude (c - 1) := by
  rcases scaled_cases y with hy | hy
  · rw [hy] at h ⊢
    have hcode := codeMagnitude_strictMono.lt_iff_lt.mp (by exact_mod_cast h)
    exact_mod_cast codeMagnitude_strictMono.monotone (Nat.le_sub_one_of_lt hcode)
  · omega

theorem succ_le_scaled {y : Binary64} (h : codeMagnitude c < y.scaled) :
    codeMagnitude (c + 1) ≤ y.scaled := by
  have hy := (scaled_cases y).resolve_right (by omega)
  rw [hy] at h ⊢
  have hcode := codeMagnitude_strictMono.lt_iff_lt.mp (by exact_mod_cast h)
  exact_mod_cast codeMagnitude_strictMono.monotone (Nat.succ_le_of_lt hcode)

/-- No double is closer to a quotient in the interval of a code than the double of the code. -/
theorem RoundsTo.closest (h : RoundsTo n d c) (y : Binary64) :
    |(codeMagnitude c : ℚ) - n / d| ≤ |(y.scaled : ℚ) - n / d| ∧
      (|(codeMagnitude c : ℚ) - n / d| = |(y.scaled : ℚ) - n / d| →
        y.scaled = codeMagnitude c ∨ codeSignificand c % 2 = 0) := by
  rcases lt_trichotomy y.scaled (codeMagnitude c) with hlt | heq | hgt
  · rcases Nat.eq_zero_or_pos c with rfl | hc
    -- Zero is the least code, and below it are the doubles with a sign.
    · have hv : (0 : ℚ) ≤ n / d := by positivity
      have hy : (y.scaled : ℚ) ≤ 0 := by exact_mod_cast hlt.le
      refine ⟨?_, fun _ => .inr rfl⟩
      rw [codeMagnitude_zero, Nat.cast_zero, abs_sub_comm, abs_sub_comm (y.scaled : ℚ), sub_zero,
        abs_of_nonneg hv, abs_of_nonneg (by linarith)]
      linarith
    · obtain ⟨hle, heven⟩ := h.half_le_quotient hc
      have hpred : (codeMagnitude (c - 1) : ℚ) < codeMagnitude c := by
        exact_mod_cast codeMagnitude_strictMono (Nat.sub_lt hc Nat.one_pos)
      have hbelow : (y.scaled : ℚ) ≤ codeMagnitude (c - 1) := by exact_mod_cast scaled_le_pred hlt
      obtain ⟨hclose, htie⟩ := abs_sub_le_below hpred hbelow hle
      exact ⟨hclose, fun htied => .inr (heven (htie htied))⟩
  · rw [heq]
    exact ⟨le_rfl, fun _ => .inl rfl⟩
  · obtain ⟨hle, heven⟩ := h.quotient_le_half
    have hsucc : (codeMagnitude c : ℚ) < codeMagnitude (c + 1) := by
      exact_mod_cast codeMagnitude_strictMono (Nat.lt_succ_self c)
    have habove : (codeMagnitude (c + 1) : ℚ) ≤ y.scaled := by exact_mod_cast succ_le_scaled hgt
    obtain ⟨hclose, htie⟩ := abs_sub_le_above hsucc habove hle
    exact ⟨hclose, fun htied => .inr (heven (htie htied))⟩

/-- The double of the code is the nearest to a quotient in its interval. -/
theorem nearest_ofCode (h : RoundsTo n d c) (hc : c < infinityCode) (hq : (n / d : ℚ) = q * one) :
    (ofCode false c).Nearest q := by
  have hone := one_pos_rat
  have hlt := hc.trans infinityCode_lt
  have hcode : (ofCode false c).code = c := code_ofCode hlt
  have hscaled : (ofCode false c).scaled = codeMagnitude c := by
    rw [scaled, isNegative_ofCode hlt, magnitude_eq, hcode]
    rfl
  have hdistance (y : Binary64) : |y.rat - q| = |(y.scaled : ℚ) - n / d| / one := by
    rw [hq, rat, ← abs_of_pos hone, ← abs_div, abs_of_pos hone, sub_div, mul_div_cancel_right₀ _ hone.ne']
  have hself : |(ofCode false c).rat - q| = |(codeMagnitude c : ℚ) - n / d| / one := by
    rw [hdistance, hscaled]
    rfl
  refine ⟨decide_eq_true (hcode.symm ▸ hc), fun y _ => ?_, fun y _ heq => ?_⟩
  · rw [hself, hdistance]
    exact div_le_div_of_nonneg_right (h.closest y).1 hone.le
  · rw [hself, hdistance, div_left_inj' hone.ne'] at heq
    rcases (h.closest y).2 heq with hy | heven
    · left
      rw [rat, rat, hy, hscaled]
    · right
      rwa [significand_eq, hcode]

/-! ## Beyond the largest double -/

/-- A quotient rounds to a finite code if and only if it is less than half way from the largest one
to infinity. -/
theorem roundedCode_lt_iff (hd : 0 < d) :
    roundedCode n d < infinityCode ↔ 2 * n < doubleHalfWay (infinityCode - 1) * d := by
  constructor
  · intro hlt
    obtain ⟨hle, heven⟩ := (roundsTo_roundedCode hd hlt).le_half
    rcases (Nat.le_sub_one_of_lt hlt).lt_or_eq with hbelow | hlargest
    · exact hle.trans_lt (Nat.mul_lt_mul_of_pos_right (doubleHalfWay_strictMono hbelow) hd)
    -- The half way belongs to the largest code only if its significand is even, which it is not.
    · have hodd : codeSignificand (infinityCode - 1) % 2 = 1 := by decide
      rw [hlargest] at hle heven
      refine hle.lt_of_ne fun heq => ?_
      rw [heven heq] at hodd
      cases hodd
  · intro hlt
    by_contra hge
    have hcode := roundsTo_code (n := n) hd rfl
    have hbeyond : infinityCode ≤ ((n / d).log2 - 52) * 2 ^ 52 +
        roundHalfEven n (d * 2 ^ ((n / d).log2 - 52)) := by
      rw [← Nat.shiftLeft_eq, ← Nat.shiftLeft_eq]
      exact le_of_not_gt fun h => hge ((Nat.min_le_left _ _).trans_lt h)
    generalize ((n / d).log2 - 52) * 2 ^ 52 + _ = c at hcode hbeyond
    have hhalf := (hcode.half_le (Nat.lt_of_lt_of_le (by decide) hbeyond)).1
    have := Nat.mul_le_mul_right d
      (doubleHalfWay_strictMono.monotone (Nat.sub_le_sub_right hbeyond 1))
    omega

theorem two_pow_mul_two_pow {a b k : Nat} (h : a + b = k + 1074) :
    2 ^ a * 2 ^ b = 2 ^ k * one := by
  rw [← Nat.pow_add, h, two_pow_add_units]

theorem two_pow_succ_units {a k : Nat} (h : a = k + 1 + 1074) : 2 ^ a = 2 * 2 ^ k * one := by
  rw [h, two_pow_add_units, Nat.pow_succ']

theorem codeMagnitude_infinityCode : codeMagnitude infinityCode = 2 ^ 1024 * one := by
  have hcode : infinityCode = 2046 * 2 ^ 52 + 2 ^ 52 := by decide
  rw [hcode, codeMagnitude_eq (by decide) (.inl le_rfl)]
  exact two_pow_mul_two_pow (k := 1024) rfl

theorem doubleHalfWay_largest : (doubleHalfWay (infinityCode - 1) : ℚ) = 2 * overflow * one := by
  have hunit : codeUnit (infinityCode - 1) = 2045 := by decide
  have hgap : 2 ^ 2045 = 2 * 2 ^ 970 * one := two_pow_succ_units rfl
  have hsucc := codeMagnitude_succ (infinityCode - 1)
  rw [Nat.sub_add_cancel (by decide), hunit, codeMagnitude_infinityCode, hgap] at hsucc
  have htwice : doubleHalfWay (infinityCode - 1) + 2 * 2 ^ 970 * one = 2 * (2 ^ 1024 * one) := by
    rw [doubleHalfWay, Nat.sub_add_cancel (by decide), codeMagnitude_infinityCode]
    generalize 2 ^ 1024 * one = a at hsucc ⊢
    generalize 2 * 2 ^ 970 * one = b at hsucc ⊢
    omega
  have hoverflow : overflow = (2 ^ 1024 : Nat) - (2 ^ 970 : Nat) := by
    rw [overflow, Nat.cast_pow, Nat.cast_pow, Nat.cast_ofNat]
  rw [hoverflow]
  generalize 2 ^ 1024 = a at htwice ⊢
  generalize 2 ^ 970 = b at htwice ⊢
  have hcast := congrArg (Nat.cast (R := ℚ)) htwice
  push_cast at hcast
  linarith

theorem isFinite_round_iff (hd : 0 < d) (hq : (n / d : ℚ) = q * one) (negative : Bool) :
    (round negative n d).isFinite = true ↔ q < overflow := by
  have hdq : (0 : ℚ) < d := by exact_mod_cast hd
  have hn : (n : ℚ) = q * one * d := by rw [← hq, div_mul_cancel₀ _ hdq.ne']
  have hcast : 2 * n < doubleHalfWay (infinityCode - 1) * d ↔
      (2 * n : ℚ) < doubleHalfWay (infinityCode - 1) * d := by
    exact_mod_cast Iff.rfl
  rw [isFinite, decide_eq_true_eq, code_round, roundedCode_lt_iff hd, hcast, doubleHalfWay_largest,
    hn, ← mul_assoc, ← mul_assoc, mul_lt_mul_iff_left₀ hdq, mul_lt_mul_iff_left₀ one_pos_rat,
    mul_lt_mul_iff_right₀ two_pos]

theorem nearest_round (hd : 0 < d) (hq : (n / d : ℚ) = q * one)
    (h : (round false n d).isFinite = true) : (round false n d).Nearest q := by
  have hlt : roundedCode n d < infinityCode := by rwa [isFinite, decide_eq_true_eq, code_round] at h
  exact nearest_ofCode (roundsTo_roundedCode hd hlt) hlt hq

end

/-! ## Decimals -/

section

variable {m : Nat} {e : Int}

theorem decimal_quotient (m : Nat) (e : Int) : ((m * 10 ^ e.toNat * one : Nat) /
    (10 ^ (-e).toNat : Nat) : ℚ) = m * (10 : ℚ) ^ e * one := by
  have hten : (10 : ℚ) ^ e = 10 ^ e.toNat / 10 ^ (-e).toNat := by
    obtain ⟨k, rfl | rfl⟩ := e.eq_nat_or_neg <;> simp
  rw [hten]
  push_cast
  ring

/-- The clamps keep powers of ten small and change no result. -/
theorem ofDecimal_eq_round (m : Nat) (e : Int) :
    ofDecimal m e = round false (m * 10 ^ e.toNat * one) (10 ^ (-e).toNat) := by
  have hten : 0 < 10 ^ (-e).toNat := Nat.pow_pos (by decide)
  have hsmall {n d : Nat} (hd : 0 < d) (h : 2 * n < d) : roundedCode n d = 0 := by
    have hzero : codeSignificand 0 = 0 ∧ codeUnit 0 = 0 ∧ quartersBelow 0 = 2 := by decide
    obtain ⟨hs, hu, hq⟩ := hzero
    refine roundedCode_of_roundsTo ⟨hd, ?_, ?_, ?_⟩ (Nat.zero_le _)
    · rw [hs, hu]
      omega
    · rw [hs, hq]
      omega
    · rw [hs]
      intro hodd
      cases hodd
  unfold ofDecimal round zero infinity
  simp only [Nat.pow_eq]
  split
  · rename_i hm
    rw [hsmall hten (by rw [hm, Nat.zero_mul, Nat.zero_mul]; exact hten)]
  · rename_i hm
    obtain ⟨hlow, hhigh⟩ := toDigits_bounds (Nat.pos_of_ne_zero hm)
    have hlen : 0 < (Nat.toDigits 10 m).length := Nat.length_toDigits_pos
    split
    · have hover := two_pow_lt_decimal (e := e) hlow (by omega)
      rw [roundedCode_infinity hten]
      rw [codeMagnitude_infinityCode, Nat.mul_right_comm]
      exact Nat.mul_le_mul_right _ hover.le
    · split
      · rw [hsmall hten (decimal_lt_half hhigh (by omega))]
      · split
        · rw [show (-e).toNat = 0 by omega, Nat.pow_zero]
        · rw [show e.toNat = 0 by omega, Nat.pow_zero, Nat.mul_one]

theorem isFinite_ofDecimal_iff (m : Nat) (e : Int) :
    (ofDecimal m e).isFinite = true ↔ m * (10 : ℚ) ^ e < overflow := by
  rw [ofDecimal_eq_round]
  exact isFinite_round_iff (Nat.pow_pos (by decide)) (decimal_quotient m e) false

theorem nearest_ofDecimal (h : (ofDecimal m e).isFinite = true) :
    (ofDecimal m e).Nearest (m * (10 : ℚ) ^ e) := by
  rw [ofDecimal_eq_round] at h ⊢
  exact nearest_round (Nat.pow_pos (by decide)) (decimal_quotient m e) h

end

end Binary64

end DocQuery
