import DocQuery.Proofs.Number.Error
import DocQuery.Proofs.Obfuscation.Cents

/-!
# What rounding to cents takes off

Rounding to cents may lead below a double by half a cent, and by what the decimals on the way to
cents have no room for.

* `Cents.spreadPlaces_ge` and so on: each step keeps its number but for a small part of it.
* `toCents_ge`: cents are at least the double but for a part of `2 ^ -40` and 0.0051.
-/

namespace DocQuery

namespace Cents

/-- What a coefficient with some decimal places is worth. -/
def worth (m places : Nat) : ℚ := m / 10 ^ places

theorem worth_nonneg (m places : Nat) : 0 ≤ worth m places := by
  unfold worth
  positivity

theorem worth_eq (m places : Nat) : worth m places = m * (1 / 10 ^ places) := by
  rw [worth, mul_one_div]

theorem worth_succ (m places : Nat) : worth m (places + 1) = worth m places / 10 := by
  rw [worth, worth, pow_succ, div_div]

/-! ## Rounds -/

/-- One more round takes one more part off. -/
theorem loss_succ {δ r v v' w : ℚ} (hδ : 0 ≤ δ) (hr : 0 ≤ r) (hrδ : r * δ ≤ 1) (hv : 0 ≤ v)
    (hrounds : (1 - r * δ) * v' ≤ w) (hround : (1 - δ) * v ≤ v') : (1 - (r + 1) * δ) * v ≤ w := by
  have hsquare : 0 ≤ r * δ * δ * v := by positivity
  calc (1 - (r + 1) * δ) * v ≤ (1 - r * δ) * ((1 - δ) * v) := by linarith
    _ ≤ (1 - r * δ) * v' := mul_le_mul_of_nonneg_left hround (by linarith)
    _ ≤ w := hrounds

/-- What a round takes off a coefficient that has no room. -/
def roundLoss : ℚ := 1 / 2 ^ 93

theorem rounds_le {rounds : Nat} (h : rounds ≤ 1074) : (rounds : ℚ) * roundLoss ≤ 1 := by
  have hcast : (rounds : ℚ) ≤ 1074 := by exact_mod_cast h
  rw [roundLoss, mul_one_div, div_le_one (by norm_num)]
  exact hcast.trans (by norm_num)

theorem roundLoss_nonneg : 0 ≤ roundLoss := by
  unfold roundLoss
  positivity

theorem roundLoss_le {v : ℚ} (hv : 0 ≤ v) : (1 - roundLoss) * v ≤ v := by
  have := mul_nonneg roundLoss_nonneg hv
  linarith

theorem spreadPlaces_ge (rounds m places : Nat) (hplaces : rounds ≤ places) (h : rounds ≤ 1074) :
    (1 - rounds * roundLoss) * (worth m places * 5 ^ rounds) ≤
      worth (spreadPlaces rounds m places).1 (spreadPlaces rounds m places).2 := by
  have hnonneg (k m places : Nat) : 0 ≤ worth m places * 5 ^ k :=
    mul_nonneg (worth_nonneg m places) (by positivity)
  fun_induction spreadPlaces rounds m places with
  | case1 m places => simp
  | case2 rounds m places heven ih =>
    obtain ⟨places, rfl⟩ : ∃ k, places = k + 1 := ⟨places - 1, by omega⟩
    push_cast
    refine loss_succ roundLoss_nonneg (Nat.cast_nonneg _) (rounds_le (by omega)) (hnonneg _ _ _)
      (ih (by omega) (by omega)) ?_
    have hvalue : worth m (places + 1) * 5 ^ (rounds + 1) =
        worth (m / 2) (places + 1 - 1) * 5 ^ rounds := by
      have hhalf : (m : ℚ) = 2 * (m / 2 : Nat) := by
        exact_mod_cast (Nat.mul_div_cancel' (Nat.dvd_of_mod_eq_zero heven)).symm
      rw [worth_succ, worth, worth, Nat.add_sub_cancel, hhalf, pow_succ]
      ring
    rw [← hvalue]
    exact roundLoss_le (hnonneg _ _ _)
  | case3 rounds m places hodd hroom ih =>
    push_cast
    refine loss_succ roundLoss_nonneg (Nat.cast_nonneg _) (rounds_le (by omega)) (hnonneg _ _ _)
      (ih (by omega) (by omega)) ?_
    have hvalue : worth m places * 5 ^ (rounds + 1) = worth (5 * m) places * 5 ^ rounds := by
      rw [worth, worth, pow_succ]
      push_cast
      ring
    rw [← hvalue]
    exact roundLoss_le (hnonneg _ _ _)
  | case4 rounds m places hodd hroom ih =>
    obtain ⟨places, rfl⟩ : ∃ k, places = k + 1 := ⟨places - 1, by omega⟩
    push_cast
    refine loss_succ roundLoss_nonneg (Nat.cast_nonneg _) (rounds_le (by omega)) (hnonneg _ _ _)
      (ih (by omega) (by omega)) ?_
    -- The bit that is dropped is worth little next to a coefficient that fills its room.
    have hlarge : (2 : ℚ) ^ 96 ≤ 5 * m := by
      rw [bound_eq] at hroom
      exact_mod_cast Nat.le_of_not_lt hroom
    have hhalf : (m : ℚ) = 2 * (m / 2 : Nat) + 1 := by
      exact_mod_cast (show m = 2 * (m / 2) + 1 by omega)
    rw [worth_succ, worth, worth, Nat.add_sub_cancel, pow_succ]
    have hpart : (1 - roundLoss) * m ≤ 2 * (m / 2 : Nat) := by
      rw [roundLoss]
      linarith
    have hscale : (0 : ℚ) ≤ 5 ^ rounds / 10 ^ places / 2 := by positivity
    calc (1 - roundLoss) * (m / 10 ^ places / 10 * (5 ^ rounds * 5))
        = (1 - roundLoss) * m * (5 ^ rounds / 10 ^ places / 2) := by ring
      _ ≤ 2 * (m / 2 : Nat) * (5 ^ rounds / 10 ^ places / 2) :=
          mul_le_mul_of_nonneg_right hpart hscale
      _ = (m / 2 : Nat) / 10 ^ places * 5 ^ rounds := by ring

theorem gatherPower_ge (rounds m power : Nat) (hpower : rounds ≤ power) (h : rounds ≤ 1074) :
    ∀ r ∈ gatherPower rounds m power,
      (1 - rounds * roundLoss) * (m * 10 ^ power / 5 ^ rounds) ≤ r.1 * 10 ^ r.2 := by
  have hnonneg (k m power : Nat) : (0 : ℚ) ≤ m * 10 ^ power / 5 ^ k := by positivity
  fun_induction gatherPower rounds m power with
  | case1 m power => rintro _ ⟨⟩; simp
  | case2 rounds m power hroom ih =>
    obtain ⟨power, rfl⟩ : ∃ k, power = k + 1 := ⟨power - 1, by omega⟩
    intro r hr
    push_cast
    refine loss_succ roundLoss_nonneg (Nat.cast_nonneg _) (rounds_le (by omega)) (hnonneg _ _ _)
      (ih (by omega) (by omega) r hr) ?_
    have hvalue : (m * 10 ^ (power + 1) / 5 ^ (rounds + 1) : ℚ) =
        (2 * m : Nat) * 10 ^ (power + 1 - 1) / 5 ^ rounds := by
      rw [Nat.add_sub_cancel, pow_succ, pow_succ]
      push_cast
      ring
    rw [← hvalue]
    exact roundLoss_le (hnonneg _ _ _)
  | case3 rounds m power hroom hpower =>
    intro r hr
    cases hr
  | case4 rounds m power hroom hpower' ih =>
    intro r hr
    push_cast
    refine loss_succ roundLoss_nonneg (Nat.cast_nonneg _) (rounds_le (by omega)) (hnonneg _ _ _)
      (ih (by omega) (by omega) r hr) ?_
    -- A remainder of at most four is worth little next to a coefficient that fills its room.
    have hlarge : (2 : ℚ) ^ 95 ≤ m := by
      rw [Nat.one_shiftLeft] at hroom
      exact_mod_cast Nat.le_of_not_lt hroom
    have hfifth : (m : ℚ) ≤ 5 * (m / 5 : Nat) + 4 := by
      exact_mod_cast (show m ≤ 5 * (m / 5) + 4 by omega)
    have hpart : (1 - roundLoss) * m ≤ 5 * (m / 5 : Nat) := by
      rw [roundLoss]
      linarith
    have hscale : (0 : ℚ) ≤ 10 ^ power / 5 ^ rounds / 5 := by positivity
    calc (1 - roundLoss) * (m * 10 ^ power / 5 ^ (rounds + 1))
        = (1 - roundLoss) * m * (10 ^ power / 5 ^ rounds / 5) := by rw [pow_succ]; ring
      _ ≤ 5 * (m / 5 : Nat) * (10 ^ power / 5 ^ rounds / 5) :=
          mul_le_mul_of_nonneg_right hpart hscale
      _ = (m / 5 : Nat) * 10 ^ power / 5 ^ rounds := by ring

theorem multiplyOut_eq (power m : Nat) : ∀ r ∈ multiplyOut power m, r = m * 10 ^ power := by
  fun_induction multiplyOut power m with
  | case1 m => rintro _ ⟨⟩; simp
  | case2 power m hroom ih =>
    intro r hr
    rw [ih r hr, Nat.pow_succ]
    ring
  | case3 power m hroom =>
    intro r hr
    cases hr

/-! ## Digits -/

theorem le_tenth (m : Nat) : m ≤ 10 * tenth m + 4 := by
  unfold tenth
  split <;> omega

theorem cutPlaces_snd (m places : Nat) : (cutPlaces m places).2 ≤ 28 := by
  fun_induction cutPlaces m places with
  | case1 m => exact Nat.zero_le 28
  | case2 m places hmany hzero => exact Nat.zero_le 28
  | case3 m places hmany hzero ih => exact ih
  | case4 m places hmany => exact Nat.le_of_not_lt hmany

theorem cutPlaces_of_few {m places : Nat} (h : places ≤ 28) : cutPlaces m places = (m, places) := by
  unfold cutPlaces
  split
  · rfl
  · exact if_neg (by omega)

/-- Each place beyond 28 takes off less than itself. -/
theorem cutPlaces_of_many (m places : Nat) (h : 28 ≤ places) :
    worth m places - (2 / 10 ^ 28 - 1 / 10 ^ places) ≤
      worth (cutPlaces m places).1 (cutPlaces m places).2 := by
  have hunit (k : Nat) : (0 : ℚ) < 1 / 10 ^ k := by positivity
  have hsucc (k : Nat) : (1 : ℚ) / 10 ^ k.succ = 1 / 10 ^ k / 10 := by
    rw [Nat.succ_eq_add_one, pow_succ, div_div]
  fun_induction cutPlaces m places with
  | case1 m => omega
  | case2 m places hmany hzero =>
    have hsmall : (m : ℚ) ≤ 9 := by exact_mod_cast (show m ≤ 9 by omega)
    have hpower : (1 : ℚ) / 10 ^ places ≤ 1 / 10 ^ 28 :=
      one_div_pow_le_one_div_pow_of_le (by norm_num) (by omega)
    have := mul_le_mul_of_nonneg_right hsmall (hunit places).le
    rw [worth_succ, worth_eq, worth_eq, hsucc, Nat.cast_zero]
    linarith
  | case3 m places hmany hzero ih =>
    have hstep : (m : ℚ) ≤ 10 * tenth m + 4 := by exact_mod_cast le_tenth m
    have := mul_le_mul_of_nonneg_right hstep (hunit places).le
    have hrest := ih (by omega)
    rw [worth_eq] at hrest
    rw [worth_succ, worth_eq, hsucc]
    linarith [hunit places]
  | case4 m places hmany =>
    obtain rfl : places = 27 := by omega
    linarith [hunit 28]

theorem cutPlaces_ge (m places : Nat) :
    worth m places - 2 / 10 ^ 28 ≤ worth (cutPlaces m places).1 (cutPlaces m places).2 := by
  rcases Nat.lt_or_ge places 28 with h | h
  · rw [cutPlaces_of_few h.le]
    have : (0 : ℚ) ≤ 2 / 10 ^ 28 := by positivity
    linarith
  · have : (0 : ℚ) ≤ 1 / 10 ^ places := by positivity
    linarith [cutPlaces_of_many m places h]

/-- What a digit too many takes off. -/
def digitLoss : ℚ := 1 / 2 ^ 50

theorem cutDigits_ge (m places : Nat) (h : places ≤ 28) : (1 - places * digitLoss) * worth m places ≤
    worth (cutDigits m places).1 (cutDigits m places).2 := by
  have hloss : 0 ≤ digitLoss := by unfold digitLoss; positivity
  fun_induction cutDigits m places with
  | case1 m => simp
  | case2 m places hmany ih =>
    rw [Nat.cast_succ]
    have hcast : (places : ℚ) ≤ 27 := by exact_mod_cast (show places ≤ 27 by omega)
    refine loss_succ hloss (Nat.cast_nonneg _) (by rw [digitLoss]; linarith) (worth_nonneg _ _)
      (ih (by omega)) ?_
    have hlarge : (2 : ℚ) ^ 52 ≤ m := by
      rw [Nat.one_shiftLeft] at hmany
      exact_mod_cast hmany
    have hstep : (m : ℚ) ≤ 10 * tenth m + 4 := by exact_mod_cast le_tenth m
    have hpart : (1 - digitLoss) * m ≤ 10 * tenth m := by
      rw [digitLoss]
      linarith
    have hunit : (0 : ℚ) ≤ 1 / 10 ^ places := by positivity
    rw [worth_succ, worth_eq, worth_eq]
    linarith [mul_le_mul_of_nonneg_right hpart hunit]
  | case3 m places hmany =>
    have := mul_nonneg (mul_nonneg (Nat.cast_nonneg (places + 1)) hloss) (worth_nonneg m (places + 1))
    linarith

theorem stripZeros_eq (m places : Nat) :
    worth (stripZeros m places).1 (stripZeros m places).2 = worth m places := by
  fun_induction stripZeros m places with
  | case1 m => rfl
  | case2 m places hzero ih =>
    have htenth : (m : ℚ) = 10 * (m / 10 : Nat) := by
      exact_mod_cast (Nat.mul_div_cancel' (Nat.dvd_of_mod_eq_zero hzero)).symm
    rw [ih, worth_succ, worth, worth, htenth]
    ring
  | case3 m places hzero => rfl

theorem roundToTwo_ge (m places : Nat) :
    worth m places - 1 / 200 ≤ worth (roundToTwo m places).1 (roundToTwo m places).2 := by
  unfold roundToTwo
  split
  · obtain ⟨extra, rfl⟩ : ∃ k, places = k + 2 := ⟨places - 2, by omega⟩
    have hpos : 0 < 10 ^ extra := Nat.pow_pos (by decide)
    have hhalf : (2 * m : ℚ) ≤
        2 * (Binary64.roundHalfEven m (10 ^ extra) * 10 ^ extra) + 10 ^ extra := by
      exact_mod_cast (Binary64.roundHalfEven_half hpos).2
    have hscale : (0 : ℚ) < 10 ^ extra := by positivity
    have hquotient : (m : ℚ) / 10 ^ extra ≤ Binary64.roundHalfEven m (10 ^ extra) + 1 / 2 := by
      rw [div_le_iff₀ hscale]
      linarith
    rw [Nat.add_sub_cancel, worth_succ, worth_succ, worth, worth]
    simp only [Nat.pow_eq]
    linarith
  · linarith

/-! ## From doubles to decimals -/

theorem size_of_large {x : Binary64} (h : 1074 ≤ x.unitExponent) :
    x.size = x.significand * 2 ^ (x.unitExponent - 1074) := by
  obtain ⟨e, he⟩ := Nat.exists_eq_add_of_le' h
  have hmagnitude : x.magnitude = x.significand * 2 ^ e * Binary64.one := by
    rw [Binary64.magnitude, he, Nat.shiftLeft_eq, Binary64.two_pow_add_units, Nat.mul_assoc]
  rw [Binary64.size, hmagnitude, he, Nat.add_sub_cancel, Nat.cast_mul,
    mul_div_cancel_right₀ _ Binary64.one_pos_rat.ne']
  push_cast
  rfl

theorem size_of_small {x : Binary64} (h : x.unitExponent < 1074) :
    x.size = worth x.significand (1074 - x.unitExponent) * 5 ^ (1074 - x.unitExponent) := by
  have hone := Binary64.two_pow_mul_eq_one (Nat.add_sub_cancel' h.le)
  generalize 1074 - x.unitExponent = e at hone ⊢
  have htwo : (2 : ℚ) ^ x.unitExponent ≠ 0 := by positivity
  have hten : (10 : ℚ) ^ e = 2 ^ e * 5 ^ e := by rw [← mul_pow]; norm_num
  rw [Binary64.size, Binary64.magnitude, Nat.shiftLeft_eq, ← hone, worth, hten]
  push_cast
  field_simp

theorem unitExponent_le (x : Binary64) : x.unitExponent ≤ 2046 := by
  have := x.code_lt
  rw [x.unitExponent_eq, Binary64.codeUnit]
  omega

/-- What the rounds of a double take off together. -/
theorem rounds_ge {v w : ℚ} {rounds : Nat} (hv : 0 ≤ v) (hrounds : rounds ≤ 1074)
    (h : (1 - rounds * roundLoss) * v ≤ w) : (1 - 1 / 2 ^ 80) * v ≤ w := by
  have hcast : (rounds : ℚ) ≤ 1074 := by exact_mod_cast hrounds
  have hpart : (rounds : ℚ) * roundLoss ≤ 1 / 2 ^ 80 := by
    rw [roundLoss]
    linarith
  exact (mul_le_mul_of_nonneg_right (by linarith) hv).trans h

theorem gathered_ge {x : Binary64} (h : 1074 ≤ x.unitExponent) :
    ∀ r ∈ gatherPower (x.unitExponent - 1074) x.significand (x.unitExponent - 1074),
      (1 - 1 / 2 ^ 80) * x.size ≤ r.1 * 10 ^ r.2 := by
  intro r hr
  have hexponent : x.unitExponent - 1074 ≤ 1074 := by
    have := unitExponent_le x
    omega
  have hge := gatherPower_ge _ _ _ le_rfl hexponent r hr
  have hvalue : (x.significand * 10 ^ (x.unitExponent - 1074) / 5 ^ (x.unitExponent - 1074) : ℚ) =
      x.size := by
    rw [size_of_large h, mul_div_assoc, ← div_pow]
    norm_num
  rw [hvalue] at hge
  exact rounds_ge x.size_nonneg hexponent hge

theorem spread_ge {x : Binary64} (h : x.unitExponent < 1074) :
    (1 - 1 / 2 ^ 80) * x.size ≤
      worth (spreadPlaces (1074 - x.unitExponent) x.significand (1074 - x.unitExponent)).1
        (spreadPlaces (1074 - x.unitExponent) x.significand (1074 - x.unitExponent)).2 := by
  have hge := spreadPlaces_ge (1074 - x.unitExponent) x.significand _ le_rfl (by omega)
  rw [← size_of_small h] at hge
  exact rounds_ge x.size_nonneg (by omega) hge

/-- The decimal of a double is the double but for a part of `2 ^ -44` and a last place. -/
theorem ofBinary64_ge (x : Binary64) : ∀ r ∈ ofBinary64 x,
    (1 - 1 / 2 ^ 44) * x.size - 2 / 10 ^ 28 ≤ worth r.1 r.2 := by
  have hsize := x.size_nonneg
  unfold ofBinary64
  split
  · rename_i hlarge
    intro r hr
    obtain ⟨⟨m, power⟩, hgather, hmultiply⟩ := Option.bind_eq_some_iff.mp hr
    obtain ⟨n, hn, rfl⟩ := Option.map_eq_some_iff.mp hmultiply
    have hge := gathered_ge hlarge _ hgather
    have hn : (n : ℚ) = m * 10 ^ power := by exact_mod_cast multiplyOut_eq _ _ _ hn
    rw [worth, pow_zero, div_one, hn]
    linarith
  · rename_i hsmall
    rintro r ⟨⟩
    have hspread := spread_ge (Nat.lt_of_not_le hsmall)
    generalize spreadPlaces (1074 - x.unitExponent) x.significand (1074 - x.unitExponent) = a at *
    have hplaces := cutPlaces_ge a.1 a.2
    have hfew := cutPlaces_snd a.1 a.2
    generalize cutPlaces a.1 a.2 = b at *
    have hdigits := cutDigits_ge b.1 b.2 hfew
    have hcast : (b.2 : ℚ) ≤ 28 := by exact_mod_cast hfew
    have hloss : (b.2 : ℚ) * digitLoss * worth b.1 b.2 ≤ 28 * digitLoss * worth b.1 b.2 :=
      mul_le_mul_of_nonneg_right
        (mul_le_mul_of_nonneg_right hcast (by unfold digitLoss; positivity)) (worth_nonneg b.1 b.2)
    rw [stripZeros_eq]
    rw [digitLoss] at hloss hdigits
    linarith

/-! ## From decimals to doubles -/

open Binary64

/-- The nearest whole number, halves up, is at most one half below. -/
theorem roundHalfUp_half {n d : Nat} (hd : 0 < d) : 2 * n ≤ 2 * (roundHalfUp n d * d) + d := by
  have hdiv := Nat.div_add_mod n d
  have hmod := Nat.mod_lt n hd
  have hmul (q : Nat) : (q + 1) * d = d * q + d := by ring
  have hcomm := Nat.mul_comm (n / d) d
  unfold roundHalfUp
  split
  · omega
  · rw [hmul]
    omega

/-- A whole number of cents survives what four roundings take off. -/
theorem cents_ge {m : Nat} {t : Binary64} (h : (1 - 4 * roundoff) * m ≤ t.size) :
    (1 - 1 / 2 ^ 49) * (m : ℚ) ≤ roundHalfUp t.magnitude one := by
  have hhalf : (2 * t.magnitude : ℚ) ≤ 2 * (roundHalfUp t.magnitude one * one) + one := by
    exact_mod_cast roundHalfUp_half Binary64.one_pos
  have hcents : t.size ≤ roundHalfUp t.magnitude one + 1 / 2 := by
    rw [size, div_le_iff₀ one_pos_rat]
    linarith
  rw [roundoff] at h
  have hm : (0 : ℚ) ≤ m := Nat.cast_nonneg m
  rcases Nat.lt_or_ge (2 ^ 49) m with hlarge | hsmall
  · have hlarge : (2 : ℚ) ^ 49 ≤ m := by exact_mod_cast hlarge.le
    linarith
  · have hsmall : (m : ℚ) ≤ 2 ^ 49 := by exact_mod_cast hsmall
    have hlt : (m : ℚ) < (roundHalfUp t.magnitude one + 1 : Nat) := by
      push_cast
      linarith
    have hle : (m : ℚ) ≤ roundHalfUp t.magnitude one := by
      exact_mod_cast Nat.lt_succ_iff.mp (by exact_mod_cast hlt)
    linarith

theorem scale_spec {places : Nat} (h : places ≤ 2) :
    (ofNat (Nat.pow 10 places)).Unsigned ∧ (ofNat (Nat.pow 10 places)).isFinite = true ∧
      0 < (ofNat (Nat.pow 10 places)).magnitude ∧
      (ofNat (Nat.pow 10 places)).size = 10 ^ places := by
  have hpow : Nat.pow 10 places < 2 ^ 53 :=
    (Nat.pow_le_pow_right (by decide) h).trans_lt (by decide)
  obtain ⟨hfinite, hmagnitude⟩ := magnitude_ofNat hpow
  refine ⟨unsigned_ofNat _, hfinite, ?_, ?_⟩
  · rw [hmagnitude]
    exact Nat.mul_pos (Nat.pow_pos (by decide)) Binary64.one_pos
  · rw [size_ofNat hpow, Nat.pow_eq]
    push_cast
    rfl

/-- Two roundings of a number of cents and its division by the scale. -/
theorem near_scaled {k places : Nat} {x : Binary64} (hk : 0 < k) (hplaces : places ≤ 2)
    (hx : x.code ≤ powerCode 104) (hunsigned : x.Unsigned) (hnear : Near roundoff x.size k) :
    (1 - roundoff) * ((1 - roundoff) * (k / 10 ^ places)) ≤
      (x.div (ofNat (Nat.pow 10 places))).size := by
  obtain ⟨hscale, hone⟩ := scale_bounds hplaces
  obtain ⟨hsu, hsf, hspos, hssize⟩ := scale_spec hplaces
  have hxf := isFinite_of_code_le hx (by decide)
  have hten : (10 : ℚ) ^ places ≤ 100 := by
    have := pow_le_pow_right₀ (show (1 : ℚ) ≤ 10 by norm_num) hplaces
    linarith
  have htenpos : (0 : ℚ) < 10 ^ places := by positivity
  have hk1 : (1 : ℚ) ≤ k := by exact_mod_cast hk
  have hlow : (1 - roundoff) * (k / 10 ^ places) ≤ x.size / 10 ^ places := by
    rw [← mul_div_assoc]
    exact div_le_div_of_nonneg_right hnear.1 htenpos.le
  have hbig : 1 / 2 ^ 100 ≤ x.size / 10 ^ places := by
    refine le_trans ?_ hlow
    rw [← mul_div_assoc, le_div_iff₀ htenpos, roundoff]
    linarith
  have hdiv := near_div hunsigned hsu hxf hsf hspos (by rwa [hssize])
    (isFinite_of_code_le (div_code_le hx (by decide) hsf hone) (by decide))
  rw [hssize] at hdiv
  refine le_trans ?_ hdiv.1
  exact mul_le_mul_of_nonneg_left hlow (by rw [roundoff]; norm_num)

/-- A decimal is its whole part and its rest. -/
theorem worth_split (m places : Nat) : worth m places =
    (m / Nat.pow 10 places : Nat) + (m % Nat.pow 10 places : Nat) / 10 ^ places := by
  have hten : (0 : ℚ) < 10 ^ places := by positivity
  have hdiv : (m : ℚ) = 10 ^ places * (m / Nat.pow 10 places : Nat) +
      (m % Nat.pow 10 places : Nat) := by
    exact_mod_cast (Nat.div_add_mod m (Nat.pow 10 places)).symm
  rw [worth]
  conv_lhs => rw [hdiv]
  field_simp

section

variable {m places : Nat}

/-- The rest of a decimal in doubles. -/
theorem rest_bounds (hm : m ≤ 2 ^ 96) (hplaces : places ≤ 2) :
    (ofNat (m % Nat.pow 10 places)).code ≤ powerCode 96 ∧
      ((ofNat (m % Nat.pow 10 places)).div (ofNat (Nat.pow 10 places))).code ≤ powerCode 96 ∧
      ((ofNat (m % Nat.pow 10 places)).div (ofNat (Nat.pow 10 places))).Unsigned := by
  obtain ⟨-, hone⟩ := scale_bounds hplaces
  obtain ⟨hsu, hsf, hspos, -⟩ := scale_spec hplaces
  have hrest := ofNat_code_le_power ((Nat.mod_le m (Nat.pow 10 places)).trans hm)
  have hscale : 0 < (ofNat (Nat.pow 10 places)).code := Nat.pos_of_ne_zero fun hzero => by
    rw [magnitude_eq, hzero, codeMagnitude_zero] at hspos
    exact hspos.false
  exact ⟨hrest, div_code_le hrest (by decide) hsf hone,
    unsigned_div (unsigned_ofNat _) hsu hsf hscale⟩

/-- In doubles there is a rest just if there is one. -/
theorem isZero_rest (hm : m ≤ 2 ^ 96) (hplaces : places ≤ 2) :
    ((ofNat (m % Nat.pow 10 places)).div (ofNat (Nat.pow 10 places))).isZero = true ↔
      m % Nat.pow 10 places = 0 := by
  obtain ⟨-, hone⟩ := scale_bounds hplaces
  obtain ⟨-, hsf, -, -⟩ := scale_spec hplaces
  have hrest := (rest_bounds hm hplaces).1
  constructor
  · intro hzero
    by_contra hne
    have hge := near_scaled (Nat.pos_of_ne_zero hne) hplaces (hrest.trans (by decide))
      (unsigned_ofNat _) (near_ofNat (isFinite_of_code_le hrest (by decide)))
    rw [size_of_code (eq_of_beq hzero), codeMagnitude_zero, Nat.cast_zero, zero_div] at hge
    have hr : (0 : ℚ) < (m % Nat.pow 10 places : Nat) := by exact_mod_cast Nat.pos_of_ne_zero hne
    have hu : 0 < 1 - roundoff := by rw [roundoff]; norm_num
    have hpositive : (0 : ℚ) < (1 - roundoff) *
        ((1 - roundoff) * ((m % Nat.pow 10 places : Nat) / 10 ^ places)) := by positivity
    exact hpositive.not_ge hge
  · intro hzero
    have hcode : (ofNat 0).code ≤ 0 := by decide
    rw [hzero]
    exact beq_iff_eq.mpr (Nat.le_zero.mp (div_code_le hcode (by decide) hsf hone))

/-- The whole part and the rest of a decimal, added up in doubles. -/
def wholeAndRest (m places : Nat) : Binary64 :=
  (ofNat (m / Nat.pow 10 places)).add
    ((ofNat (m % Nat.pow 10 places)).div (ofNat (Nat.pow 10 places)))

/-- Adding up takes three roundings. -/
theorem wholeAndRest_ge (hm : m ≤ 2 ^ 96) (hplaces : places ≤ 2) (hr : 0 < m % Nat.pow 10 places) :
    (wholeAndRest m places).Unsigned ∧ (wholeAndRest m places).code ≤ powerCode 97 ∧
      (1 - 3 * roundoff) * worth m places ≤ (wholeAndRest m places).size := by
  have hwhole := ofNat_code_le_power ((Nat.div_le_self m (Nat.pow 10 places)).trans hm)
  obtain ⟨hrest, hquotient, hrestu⟩ := rest_bounds hm hplaces
  have hsum := add_code_le (c := powerCode 97) hwhole hquotient (by decide) (by decide)
    (le_of_eq (codeMagnitude_powerCode_add (by decide)))
  refine ⟨unsigned_add (unsigned_ofNat _) hrestu, hsum, ?_⟩
  have hsumn := (near_add (unsigned_ofNat _) hrestu (isFinite_of_code_le hsum (by decide))).1
  have hrestn := near_scaled hr hplaces (hrest.trans (by decide)) (unsigned_ofNat _)
    (near_ofNat (isFinite_of_code_le hrest (by decide)))
  have hwholen := (near_ofNat (isFinite_of_code_le hwhole (by decide))).1
  have hwhole0 : (0 : ℚ) ≤ (m / Nat.pow 10 places : Nat) := Nat.cast_nonneg _
  have hrest0 : (0 : ℚ) ≤ (m % Nat.pow 10 places : Nat) / 10 ^ places := by positivity
  rw [worth_split, wholeAndRest]
  rw [roundoff] at *
  linarith

/-- A sum that is counted in cents and scaled back is the decimal again, but for four roundings. -/
theorem cents_of_sum_ge {sum : Binary64} (hm : 0 < m) (hplaces : places ≤ 2) (hsumu : sum.Unsigned)
    (hsum : sum.code ≤ powerCode 97) (h : (1 - 3 * roundoff) * worth m places ≤ sum.size) :
    (1 - 1 / 2 ^ 48) * worth m places ≤
      ((ofNat (roundHalfUp (sum.mul (ofNat (Nat.pow 10 places))).magnitude one)).div
        (ofNat (Nat.pow 10 places))).size := by
  obtain ⟨hscale, -⟩ := scale_bounds hplaces
  obtain ⟨hsu, hsf, -, hssize⟩ := scale_spec hplaces
  have hten : (0 : ℚ) < 10 ^ places := by positivity
  have hm1 : (1 : ℚ) ≤ m := by exact_mod_cast hm
  have hworth := worth_nonneg m places
  have hscaled : (1 - 3 * roundoff) * m ≤ sum.size * 10 ^ places := by
    have hvalue : worth m places * 10 ^ places = m := div_mul_cancel₀ _ hten.ne'
    rw [← hvalue, ← mul_assoc]
    exact mul_le_mul_of_nonneg_right h hten.le
  have hshifted := mul_code_le (c := powerCode 104) hsum hscale (by decide) (by decide)
    (le_of_eq (codeMagnitude_powerCode_mul (by decide)))
  have hshiftedn := (near_mul hsumu hsu (isFinite_of_code_le hsum (by decide)) hsf (by
    rw [hssize]
    refine le_trans ?_ hscaled
    rw [roundoff]
    linarith) (isFinite_of_code_le hshifted (by decide))).1
  rw [hssize] at hshiftedn
  have hk := cents_ge (m := m) (t := sum.mul (ofNat (Nat.pow 10 places))) (by
    rw [roundoff] at *
    linarith)
  have hmagnitude := magnitude_le hshifted
  rw [codeMagnitude_powerCode] at hmagnitude
  have hcode := ofNat_code_le_power (roundHalfUp_le Binary64.one_pos hmagnitude)
  generalize roundHalfUp (sum.mul (ofNat (Nat.pow 10 places))).magnitude one = k at *
  have hk0 : 0 < k := by
    have : (0 : ℚ) < k := lt_of_lt_of_le (by linarith) hk
    exact_mod_cast this
  have hge := near_scaled hk0 hplaces hcode (unsigned_ofNat k)
    (near_ofNat (isFinite_of_code_le hcode (by decide)))
  have hkworth : (1 - 1 / 2 ^ 49) * worth m places ≤ k / 10 ^ places := by
    rw [worth, ← mul_div_assoc]
    exact div_le_div_of_nonneg_right hk hten.le
  rw [roundoff] at hge
  linarith

/-- The double of a decimal with at most two places is the decimal but for a part of `2 ^ -48`. -/
theorem toBinary64_ge (hm : m < bound) (hplaces : places ≤ 2) :
    (1 - 1 / 2 ^ 48) * worth m places ≤ (toBinary64 m places).size := by
  rw [bound_eq] at hm
  have hiszero := isZero_rest hm.le hplaces
  unfold toBinary64
  simp only []
  split
  · rename_i hwhole
    have hnone : m % Nat.pow 10 places = 0 := by
      rw [Bool.or_eq_true, decide_eq_true_eq, hiszero] at hwhole
      rcases hwhole with rfl | hnone
      · exact Nat.mod_one m
      · exact hnone
    have hcode := ofNat_code_le_power ((Nat.div_le_self m (Nat.pow 10 places)).trans hm.le)
    have hge := (near_ofNat (isFinite_of_code_le hcode (by decide))).1
    have hcast : (0 : ℚ) ≤ (m / Nat.pow 10 places : Nat) := Nat.cast_nonneg _
    rw [worth_split, hnone, Nat.cast_zero, zero_div, add_zero]
    rw [roundoff] at hge
    linarith
  · rename_i hrest
    have hr : 0 < m % Nat.pow 10 places := Nat.pos_of_ne_zero fun hnone => hrest (by
      rw [hiszero.mpr hnone, Bool.or_true])
    obtain ⟨hsumu, hsum, hge⟩ := wholeAndRest_ge hm.le hplaces hr
    exact cents_of_sum_ge (hr.trans_le (Nat.mod_le _ _)) hplaces hsumu hsum hge

end

end Cents

namespace Binary64

open Cents

/-- Rounding to cents leads below a double by at most a part of `2 ^ -40` and 0.0051. -/
theorem toCents_ge (x : Binary64) : (1 - 1 / 2 ^ 40) * x.size - 51 / 10000 ≤ x.toCents.size := by
  have hsize := x.size_nonneg
  unfold toCents
  split
  · linarith
  · rename_i m places hr
    have hdecimal := ofBinary64_ge x _ hr
    have hcents := roundToTwo_ge m places
    obtain ⟨hle, hfew⟩ := roundToTwo_le m places
    have hdouble := toBinary64_ge (hle.trans_lt (ofBinary64_lt x _ hr)) hfew
    rw [size_ofCode]
    linarith

end Binary64

end DocQuery
