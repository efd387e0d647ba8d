import DocQuery.Number.Decimal.Numeral
import DocQuery.Number.Decimal.Shortest
import DocQuery.Proofs.Number.Rounding

/-!
# The shortest decimal reads back

* `ReadsAs m e c`: the decimal `m * 10 ^ e` lies in the interval of the code `c`.
* `ofDecimal_eq`: the double nearest to such a decimal is the one of code `c`.
* `seventeen_digits`: of the two neighbours of a double on the grid of its seventeenth digit, one
  lies in its interval. It is worth at most the double over `10 ^ 16`, and the interval is at least
  three quarters of a last place wide.
* `shortest_readsAs`: the shortest decimal of a double lies in its interval.
-/

namespace DocQuery

namespace Binary64

/-! ## Decimals in an interval -/

/-- Whether a quotient lies in an interval is a matter of its value. -/
theorem RoundsTo.of_mul_eq {n d n' d' c : Nat} (h : RoundsTo n d c) (hd : 0 < d')
    (heq : n * d' = n' * d) : RoundsTo n' d' c := by
  have hscale (k : Nat) : k * (d * 2 ^ codeUnit c) * d' = k * (d' * 2 ^ codeUnit c) * d := by ring
  have hn : 4 * n * d' = 4 * n' * d := by rw [Nat.mul_assoc, heq, ← Nat.mul_assoc]
  refine ⟨hd, ?_, ?_, fun hodd => ?_⟩
  · have := Nat.mul_le_mul_right d' h.le
    rw [hscale, hn] at this
    exact Nat.le_of_mul_le_mul_right this h.pos
  · have := Nat.mul_le_mul_right d' h.ge
    rw [hscale, hn] at this
    exact Nat.le_of_mul_le_mul_right this h.pos
  · obtain ⟨h₁, h₂⟩ := h.odd hodd
    constructor
    · intro hcon
      apply h₁
      apply Nat.eq_of_mul_eq_mul_right hd
      rw [hscale, hn, hcon]
    · intro hcon
      apply h₂
      apply Nat.eq_of_mul_eq_mul_right hd
      rw [hscale, hn, hcon]

/-- A quotient between the half ways to the next doubles is in the interval. -/
theorem RoundsTo.of_lt {n d c : Nat} (hd : 0 < d)
    (hlt : 4 * n < 4 * (codeSignificand c * (d * 2 ^ codeUnit c)) + 2 * (d * 2 ^ codeUnit c))
    (hgt : 4 * (codeSignificand c * (d * 2 ^ codeUnit c)) <
      4 * n + quartersBelow c * (d * 2 ^ codeUnit c)) : RoundsTo n d c := by
  have hbelow : quartersBelow c ≤ 2 := by unfold quartersBelow; split <;> omega
  have hmul := Nat.mul_le_mul_right (d * 2 ^ codeUnit c) hbelow
  refine ⟨hd, ?_, ?_, fun hodd => ?_⟩
  · rw [Nat.add_mul, Nat.mul_assoc]
    exact hlt.le
  · rw [Nat.sub_mul, Nat.mul_assoc]
    omega
  · have := Nat.mul_le_mul_right (d * 2 ^ codeUnit c) (show 1 ≤ codeSignificand c by omega)
    rw [Nat.add_mul, Nat.sub_mul, Nat.mul_assoc]
    generalize d * 2 ^ codeUnit c = w at *
    omega

/-- The decimal `m * 10 ^ e` lies in the interval of the code `c`. -/
def ReadsAs (m : Nat) (e : Int) (c : Nat) : Prop :=
  RoundsTo (m * 10 ^ e.toNat * one) (10 ^ (-e).toNat) c

/-- Zeros at the end of a coefficient may be left to the power of ten. -/
theorem readsAs_mul_pow {m a c : Nat} {e : Int} : ReadsAs (m * 10 ^ a) e c ↔ ReadsAs m (e + a) c := by
  have hcross : m * 10 ^ a * 10 ^ e.toNat * one * 10 ^ (-(e + a)).toNat =
      m * 10 ^ (e + a).toNat * one * 10 ^ (-e).toNat := by
    have hexp : a + e.toNat + (-(e + a)).toNat = (e + a).toNat + (-e).toNat := by omega
    calc m * 10 ^ a * 10 ^ e.toNat * one * 10 ^ (-(e + a)).toNat
        = m * one * 10 ^ (a + e.toNat + (-(e + a)).toNat) := by rw [Nat.pow_add, Nat.pow_add]; ring
      _ = m * one * 10 ^ ((e + a).toNat + (-e).toNat) := by rw [hexp]
      _ = m * 10 ^ (e + a).toNat * one * 10 ^ (-e).toNat := by rw [Nat.pow_add]; ring
  constructor
  · exact fun h => h.of_mul_eq (Nat.pow_pos (by decide)) hcross
  · exact fun h => h.of_mul_eq (Nat.pow_pos (by decide)) hcross.symm

private theorem two_pow_le {j k : Nat} (h : k ≤ j + 1074) : 2 ^ k ≤ 2 ^ j * one := by
  rw [one_eq]
  generalize 1074 = i at *
  rw [← Nat.pow_add]
  exact Nat.pow_le_pow_right (by decide) h

section

variable {m c : Nat} {e : Int}

/-- The interval of a code other than zero lies above zero. -/
theorem ReadsAs.pos (h : ReadsAs m e c) (hc : 0 < c) : 0 < m := by
  by_contra hm
  have hunit := Nat.mul_pos (RoundsTo.pos h) (Nat.two_pow_pos (codeUnit c))
  have hge := RoundsTo.ge h
  rw [Nat.eq_zero_of_not_pos hm, Nat.zero_mul, Nat.zero_mul, Nat.mul_zero, Nat.le_zero,
    Nat.mul_eq_zero] at hge
  have hcode := code_eq c
  have hnormal := codeSignificand_normal c
  have hbelow : quartersBelow c ≤ 2 := by unfold quartersBelow; split <;> omega
  have hs : codeSignificand c = 0 := by omega
  have hu : codeUnit c = 0 := by omega
  rw [hs, hu] at hcode
  omega

/-- A decimal beyond the first clamp is beyond the next power of two after the largest double. -/
theorem two_pow_lt_decimal {k : Nat} (hk : 10 ^ k ≤ m) (h : 309 ≤ (k : Int) + e) :
    2 ^ 1024 * 10 ^ (-e).toNat < m * 10 ^ e.toNat := by
  have hexp : 309 + (-e).toNat ≤ k + e.toNat := by omega
  have hclamp : 2 ^ 1024 < 10 ^ 309 := by decide +kernel
  generalize 2 ^ 1024 = b at hclamp ⊢
  calc b * 10 ^ (-e).toNat < 10 ^ 309 * 10 ^ (-e).toNat :=
        Nat.mul_lt_mul_of_pos_right hclamp (Nat.pow_pos (by decide))
    _ = 10 ^ (309 + (-e).toNat) := by rw [Nat.pow_add]
    _ ≤ 10 ^ (k + e.toNat) := Nat.pow_le_pow_right (by decide) hexp
    _ = 10 ^ k * 10 ^ e.toNat := by rw [Nat.pow_add]
    _ ≤ m * 10 ^ e.toNat := Nat.mul_le_mul_right _ hk

/-- A decimal below the second clamp is less than half the smallest double. -/
theorem decimal_lt_half {k : Nat} (hk : m < 10 ^ k) (h : (k : Int) + e ≤ -324) :
    2 * (m * 10 ^ e.toNat * one) < 10 ^ (-e).toNat := by
  have hexp : k + e.toNat + 324 ≤ (-e).toNat := by omega
  have hclamp : 2 * 2 ^ 1074 < 10 ^ 324 := by decide +kernel
  rw [← one_eq] at hclamp
  have hten : 0 < 10 ^ e.toNat := Nat.pow_pos (by decide)
  calc 2 * (m * 10 ^ e.toNat * one) = m * 10 ^ e.toNat * (2 * one) := by ring
    _ ≤ 10 ^ k * 10 ^ e.toNat * (2 * one) :=
      Nat.mul_le_mul_right _ (Nat.mul_le_mul_right _ hk.le)
    _ < 10 ^ k * 10 ^ e.toNat * 10 ^ 324 :=
      Nat.mul_lt_mul_of_pos_left hclamp (Nat.mul_pos (Nat.pow_pos (by decide)) hten)
    _ = 10 ^ (k + e.toNat + 324) := by rw [Nat.pow_add, Nat.pow_add]
    _ ≤ 10 ^ (-e).toNat := Nat.pow_le_pow_right (by decide) hexp

/-- No decimal in the interval of a finite code is beyond the first clamp. -/
theorem ReadsAs.not_over (h : ReadsAs m e c) (hc : c < infinityCode) {k : Nat} (hk : 10 ^ k ≤ m) :
    (k : Int) + e < 309 := by
  by_contra hover
  have hu : codeUnit c ≤ 2045 := by
    rw [infinityCode_eq] at hc
    unfold codeUnit
    omega
  have hlt := RoundsTo.lt_binade h
  have hbig := two_pow_lt_decimal hk (not_lt.mp hover)
  have hsmall : 2 ^ (53 + codeUnit c) ≤ 2 ^ 1024 * one := two_pow_le (by omega)
  generalize 2 ^ 1024 = b at hbig hsmall
  have := calc b * 10 ^ (-e).toNat * one < m * 10 ^ e.toNat * one :=
        Nat.mul_lt_mul_of_pos_right hbig one_pos
    _ < 2 ^ (53 + codeUnit c) * 10 ^ (-e).toNat := hlt
    _ ≤ b * one * 10 ^ (-e).toNat := Nat.mul_le_mul_right _ hsmall
    _ = b * 10 ^ (-e).toNat * one := by ring
  exact this.false

/-- No decimal in the interval of a code other than zero is below the second clamp. -/
theorem ReadsAs.not_under (h : ReadsAs m e c) (hc : 0 < c) {k : Nat} (hk : m < 10 ^ k) :
    -324 < (k : Int) + e := by
  by_contra hunder
  have hs : 0 < codeSignificand c := by
    have hcode := code_eq c
    have hnormal := codeSignificand_normal c
    by_contra hs
    have hu : codeUnit c = 0 := by omega
    rw [hu] at hcode
    omega
  have hbelow : 2 ≤ 4 * codeSignificand c - quartersBelow c := by
    unfold quartersBelow
    split <;> omega
  have hge := RoundsTo.ge h
  have hmin : 2 * 10 ^ (-e).toNat ≤ (4 * codeSignificand c - quartersBelow c) *
      (10 ^ (-e).toNat * 2 ^ codeUnit c) :=
    Nat.mul_le_mul hbelow (Nat.le_mul_of_pos_right _ (Nat.two_pow_pos _))
  have := decimal_lt_half hk (not_lt.mp hunder)
  omega

/-- The digits of a positive number tell its size. -/
theorem toDigits_bounds (hm : 0 < m) : 10 ^ ((Nat.toDigits 10 m).length - 1) ≤ m ∧
    m < 10 ^ (Nat.toDigits 10 m).length := by
  have hlen : 0 < (Nat.toDigits 10 m).length := Nat.length_toDigits_pos
  refine ⟨?_, (Nat.length_toDigits_le_iff (by decide) hlen).mp le_rfl⟩
  by_contra hcon
  by_cases hone : (Nat.toDigits 10 m).length = 1
  · rw [hone] at hcon
    omega
  · have := (Nat.length_toDigits_le_iff (by decide) (by omega)).mpr (not_le.mp hcon)
    omega

/-- The double nearest to a decimal in the interval of a finite code other than zero. -/
theorem ofDecimal_eq (h : ReadsAs m e c) (hc : 0 < c) (hfin : c < infinityCode) :
    ofDecimal m e = ofCode false c := by
  have hm := h.pos hc
  have hlen : 0 < (Nat.toDigits 10 m).length := Nat.length_toDigits_pos
  obtain ⟨hlow, hhigh⟩ := toDigits_bounds hm
  have hover := h.not_over hfin hlow
  have hunder := h.not_under hc hhigh
  have hround := roundedCode_of_roundsTo h hfin.le
  unfold ofDecimal
  simp only []
  rw [if_neg (by omega), if_neg (by omega), if_neg (by omega)]
  unfold round
  split
  · rw [show (-e).toNat = 0 by omega, Nat.pow_zero] at hround
    exact congrArg (ofCode false) hround
  · rw [show e.toNat = 0 by omega, Nat.pow_zero, Nat.mul_one] at hround
    exact congrArg (ofCode false) hround

end

/-! ## The two neighbours on a grid -/

/-- The interval of a double is asked for by the fields of its code. -/
theorem quartersBelow_code (x : Binary64) :
    quartersBelow x.code = if x.fraction = 0 && 1 < x.exponentField then 1 else 2 := by
  have hlt : x.fraction < 2 ^ 52 := Nat.mod_lt _ (by decide)
  unfold quartersBelow
  rw [← significand_eq, ← unitExponent_eq]
  unfold significand unitExponent
  rw [Nat.one_shiftLeft]
  congr 1
  simp only [Bool.and_eq_true, decide_eq_true_eq, eq_iff_iff]
  split <;> omega

/-- A multiple of `10 ^ t` lies in the interval, counted as `readBackOn` does. -/
def isWithin (x : Binary64) (t : Int) (n : Nat) : Bool :=
  let p := n * (4 * one * Nat.pow 10 t.toNat)
  let scale := Nat.pow 10 (-t).toNat
  let gap := 1 <<< x.unitExponent
  let value := 4 * x.magnitude * scale
  let high := value + 2 * gap * scale
  let low := value - (if x.fraction = 0 && 1 < x.exponentField then gap else 2 * gap) * scale
  if x.significand % 2 = 0 then low ≤ p && p ≤ high else low < p && p < high

theorem isWithin_iff (x : Binary64) (t : Int) (n : Nat) :
    x.isWithin t n = true ↔ ReadsAs n t x.code := by
  have hgrid : n * (4 * one * 10 ^ t.toNat) = 4 * (n * 10 ^ t.toNat * one) := by ring
  have hvalue : 4 * x.magnitude * 10 ^ (-t).toNat =
      4 * codeSignificand x.code * (10 ^ (-t).toNat * 2 ^ codeUnit x.code) := by
    rw [magnitude_eq, codeMagnitude]
    ring
  have hgap (k : Nat) : k * 2 ^ codeUnit x.code * 10 ^ (-t).toNat =
      k * (10 ^ (-t).toNat * 2 ^ codeUnit x.code) := by ring
  have hlow : (if x.fraction = 0 && 1 < x.exponentField then 2 ^ codeUnit x.code
      else 2 * 2 ^ codeUnit x.code) = quartersBelow x.code * 2 ^ codeUnit x.code := by
    rw [quartersBelow_code]
    split <;> simp
  unfold isWithin
  simp only [Nat.one_shiftLeft, Nat.pow_eq, unitExponent_eq, hlow]
  rw [hgrid, hvalue, hgap, hgap, significand_eq, ← Nat.add_mul, ← Nat.sub_mul]
  split
  · rw [Bool.and_eq_true, decide_eq_true_eq, decide_eq_true_eq]
    exact ⟨fun h => ⟨Nat.pow_pos (by decide), h.2, h.1, fun _ => by omega⟩,
      fun h => ⟨RoundsTo.ge h, RoundsTo.le h⟩⟩
  · have hodd : codeSignificand x.code % 2 = 1 := by omega
    have hbelow : quartersBelow x.code = 2 := by
      rw [quartersBelow, if_neg fun hc => by omega]
    rw [Bool.and_eq_true, decide_eq_true_eq, decide_eq_true_eq, hbelow]
    refine ⟨fun h => ⟨Nat.pow_pos (by decide), h.2.le, ?_, fun _ => ⟨h.2.ne, h.1.ne'⟩⟩, fun h => ?_⟩
    · rw [hbelow]
      exact h.1.le
    · have hle := RoundsTo.le h
      have hge := RoundsTo.ge h
      have hne := RoundsTo.odd h hodd
      rw [hbelow] at hge
      omega

/-- A neighbour that is chosen lies in the interval; none is chosen if neither does. -/
theorem readBackOn_cases (x : Binary64) (t : Int) :
    (∃ p, x.readBackOn t = some p ∧ ReadsAs p t x.code) ∨
      x.readBackOn t = none ∧ ¬ ReadsAs (x.floorDecimal t) t x.code ∧
        ¬ ReadsAs (x.floorDecimal t + 1) t x.code := by
  have hread : ∃ nearer, x.readBackOn t =
      if x.isWithin t (x.floorDecimal t + 1) && (!x.isWithin t (x.floorDecimal t) || nearer) then
        some (x.floorDecimal t + 1)
      else if x.isWithin t (x.floorDecimal t) then some (x.floorDecimal t) else none := ⟨_, rfl⟩
  obtain ⟨nearer, hread⟩ := hread
  simp only [hread, ← isWithin_iff]
  cases habove : x.isWithin t (x.floorDecimal t + 1) <;>
    cases hbelow : x.isWithin t (x.floorDecimal t)
  · exact .inr ⟨rfl, Bool.false_ne_true, Bool.false_ne_true⟩
  · exact .inl ⟨_, rfl, hbelow⟩
  · exact .inl ⟨_, rfl, habove⟩
  · left
    rw [Bool.true_and, Bool.not_true, Bool.false_or, if_pos rfl]
    split
    · exact ⟨_, rfl, habove⟩
    · exact ⟨_, rfl, hbelow⟩

/-! ## Seventeen digits -/

/-- What a binary exponent, counted from `-1074`, is in powers of ten, at most. -/
def tenExponent (l : Nat) : Int := ((l : Int) - 1074) * 30103 / 100000

private theorem tenExponent_le :
    ∀ l < 2098, 2 ^ 1074 * 10 ^ (tenExponent l).toNat ≤ 2 ^ l * 10 ^ (-tenExponent l).toNat := by
  decide +kernel

section

variable {x : Binary64}

theorem floorDecimal_eq (x : Binary64) (t : Int) :
    x.floorDecimal t = x.magnitude * 10 ^ (-t).toNat / (one * 10 ^ t.toNat) := by
  unfold floorDecimal
  split
  · rw [show (-t).toNat = 0 by omega, Nat.pow_zero, Nat.mul_one, Nat.pow_eq]
  · rw [show t.toNat = 0 by omega, Nat.pow_zero, Nat.mul_one, Nat.pow_eq]

/-- A positive finite double is at least ten to the power below its decimal exponent. -/
theorem decimalExponent_le (hpos : 0 < x.code) (hfin : x.code < infinityCode) :
    one * 10 ^ (x.decimalExponent - 1).toNat ≤
      x.magnitude * 10 ^ (-(x.decimalExponent - 1)).toNat := by
  have hmag : 0 < x.magnitude := by
    rw [magnitude_eq]
    simpa using codeMagnitude_strictMono hpos
  by_cases hbelow : x.floorDecimal (tenExponent x.magnitude.log2 + 1) = 0
  · have hlog : x.magnitude.log2 < 2098 := by
      have hu : codeUnit x.code ≤ 2045 := by
        rw [infinityCode_eq] at hfin
        unfold codeUnit
        omega
      have : x.magnitude.log2 < 53 + codeUnit x.code := by
        rw [Nat.log2_lt hmag.ne', magnitude_eq, codeMagnitude, Nat.pow_add]
        exact Nat.mul_lt_mul_of_pos_right (codeSignificand_lt _) (Nat.two_pow_pos _)
      omega
    have hten := tenExponent_le _ hlog
    rw [← one_eq] at hten
    have hk : x.decimalExponent = tenExponent x.magnitude.log2 + 1 := if_pos hbelow
    rw [hk, Int.add_sub_cancel]
    exact hten.trans (Nat.mul_le_mul_right _ (Nat.log2_self_le hmag.ne'))
  · have hk : x.decimalExponent = tenExponent x.magnitude.log2 + 1 + 1 := if_neg hbelow
    rw [hk, Int.add_sub_cancel]
    rw [floorDecimal_eq, Nat.div_eq_zero_iff, not_or, not_lt] at hbelow
    exact hbelow.2

/-- What is at least one at its first digit is ten to the sixteenth steps of the grid of its
seventeenth. -/
theorem steps_le {m : Nat} {k t : Int} (ht : k - 17 = t)
    (h : one * 10 ^ (k - 1).toNat ≤ m * 10 ^ (-(k - 1)).toNat) :
    10 ^ 16 * (one * 10 ^ t.toNat) ≤ m * 10 ^ (-t).toNat := by
  have hsum : (k - 1).toNat + (-t).toNat = 16 + t.toNat + (-(k - 1)).toNat := by omega
  have hten : 0 < 10 ^ (-(k - 1)).toNat := Nat.pow_pos (by decide)
  apply Nat.le_of_mul_le_mul_right _ hten
  calc 10 ^ 16 * (one * 10 ^ t.toNat) * 10 ^ (-(k - 1)).toNat
      = one * 10 ^ (16 + t.toNat + (-(k - 1)).toNat) := by rw [Nat.pow_add, Nat.pow_add]; ring
    _ = one * 10 ^ (k - 1).toNat * 10 ^ (-t).toNat := by rw [← hsum, Nat.pow_add]; ring
    _ ≤ m * 10 ^ (-(k - 1)).toNat * 10 ^ (-t).toNat := Nat.mul_le_mul_right _ h
    _ = m * 10 ^ (-t).toNat * 10 ^ (-(k - 1)).toNat := by ring

/-- One of the neighbours of a double on the grid of its seventeenth digit lies in its interval. -/
theorem seventeen_digits (hpos : 0 < x.code) (hfin : x.code < infinityCode) :
    ReadsAs (x.floorDecimal (x.decimalExponent - 17)) (x.decimalExponent - 17) x.code ∨
      ReadsAs (x.floorDecimal (x.decimalExponent - 17) + 1) (x.decimalExponent - 17) x.code := by
  have hexp := decimalExponent_le hpos hfin
  generalize x.decimalExponent = k at hexp ⊢
  generalize ht : k - 17 = t
  have hs := codeSignificand_lt x.code
  have hw : 0 < 10 ^ (-t).toNat * 2 ^ codeUnit x.code :=
    Nat.mul_pos (Nat.pow_pos (by decide)) (Nat.two_pow_pos _)
  have hvalue : x.magnitude * 10 ^ (-t).toNat =
      codeSignificand x.code * (10 ^ (-t).toNat * 2 ^ codeUnit x.code) := by
    rw [magnitude_eq, codeMagnitude]
    ring
  have hsteps := steps_le ht hexp
  have hgrid : 0 < one * 10 ^ t.toNat := Nat.mul_pos one_pos (Nat.pow_pos (by decide))
  have hdiv := Nat.div_add_mod (x.magnitude * 10 ^ (-t).toNat) (one * 10 ^ t.toNat)
  have hmod := Nat.mod_lt (x.magnitude * 10 ^ (-t).toNat) hgrid
  rw [← floorDecimal_eq] at hdiv
  have hprod (n : Nat) : n * 10 ^ t.toNat * one = one * 10 ^ t.toNat * n := by ring
  unfold ReadsAs
  rw [hprod, hprod, Nat.mul_succ]
  rw [hvalue] at hsteps hdiv hmod
  generalize x.floorDecimal t = n at *
  generalize one * 10 ^ t.toNat = g at *
  have hscale : 0 < 10 ^ (-t).toNat := Nat.pow_pos (by decide)
  have hstep : codeSignificand x.code * (10 ^ (-t).toNat * 2 ^ codeUnit x.code) ≤
      (2 ^ 53 - 1) * (10 ^ (-t).toNat * 2 ^ codeUnit x.code) := Nat.mul_le_mul_right _ (by omega)
  by_cases hup : 4 * (g * n + g) < 4 * (codeSignificand x.code *
      (10 ^ (-t).toNat * 2 ^ codeUnit x.code)) + 2 * (10 ^ (-t).toNat * 2 ^ codeUnit x.code)
  · exact .inr (.of_lt hscale hup (by omega))
  · refine .inl (.of_lt hscale (by omega) ?_)
    unfold quartersBelow
    split
    · rename_i hleast
      rw [hleast.1] at hsteps hdiv hmod hup ⊢
      omega
    · omega

/-- The shortest decimal of a positive finite double lies in its interval. -/
theorem shortest_readsAs (hpos : 0 < x.code) (hfin : x.code < infinityCode) :
    ReadsAs x.shortest.coefficient x.shortest.power x.code := by
  unfold shortest
  simp only []
  cases hfind : (List.range 17).findSome? fun i =>
      (x.readBackOn (x.decimalExponent - (i + 1 : Nat))).map
        (⟨·, x.decimalExponent - (i + 1 : Nat)⟩ : Nat → Decimal) with
  | some d =>
    obtain ⟨i, -, hi⟩ := List.exists_of_findSome?_eq_some hfind
    rcases readBackOn_cases x (x.decimalExponent - (i + 1 : Nat)) with ⟨p, hp, hreads⟩ | ⟨hnone, -⟩
    · rw [hp] at hi
      cases hi
      exact hreads
    · rw [hnone] at hi
      cases hi
  | none =>
    have hlast := List.findSome?_eq_none_iff.mp hfind 16 (by decide)
    rcases readBackOn_cases x (x.decimalExponent - (16 + 1 : Nat)) with ⟨p, hp, -⟩ | ⟨-, hnone⟩
    · rw [hp] at hlast
      cases hlast
    · exact absurd (seventeen_digits hpos hfin) (not_or.mpr hnone)

end

end Binary64

end DocQuery
