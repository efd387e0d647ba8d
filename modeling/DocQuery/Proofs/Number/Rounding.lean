import Mathlib.Tactic.Linarith
import DocQuery.Proofs.Number.Code

/-!
# Which quotients round to a code

The quotients that `roundedCode` takes to one code are an interval around the code's magnitude: half
way to the next code above, and half way to the one below.

* `RoundsTo n d c`: the quotient `n / d` lies in the interval of the code `c`.
* `roundedCode_of_roundsTo`: a quotient in the interval of a code rounds to it.
* `roundedCode_codeMagnitude`: a code's own magnitude rounds to the code.
-/

namespace DocQuery

namespace Binary64

/-- Quarters of a unit in the last place from a code's magnitude half way down to the next one
below. That one is only half a unit away if the significand is the least of its unit exponent. -/
def quartersBelow (c : Nat) : Nat := if codeSignificand c = 2 ^ 52 ∧ 0 < codeUnit c then 1 else 2

/-- The quotient `n / d` lies at most half way from the magnitude of the code `c` to the next ones.
The half ways themselves belong to the code if its significand is even. -/
structure RoundsTo (n d c : Nat) : Prop where
  pos : 0 < d
  le : 4 * n ≤ (4 * codeSignificand c + 2) * (d * 2 ^ codeUnit c)
  ge : (4 * codeSignificand c - quartersBelow c) * (d * 2 ^ codeUnit c) ≤ 4 * n
  odd : codeSignificand c % 2 = 1 → 4 * n ≠ (4 * codeSignificand c + 2) * (d * 2 ^ codeUnit c) ∧
    4 * n ≠ (4 * codeSignificand c - 2) * (d * 2 ^ codeUnit c)

/-- The nearest whole number, from how far the quotient is away from it. -/
theorem roundHalfEven_eq {n d q : Nat} (hd : 0 < d) (hle : 2 * n ≤ (2 * q + 1) * d)
    (hge : 2 * q * d ≤ 2 * n + d)
    (hodd : q % 2 = 1 → 2 * n ≠ (2 * q + 1) * d ∧ 2 * q * d ≠ 2 * n + d) :
    roundHalfEven n d = q := by
  have hdiv := Nat.div_add_mod n d
  have hmod := Nat.mod_lt n hd
  have hup : (2 * q + 1) * d = 2 * (d * q) + d := by ring
  have hdown : 2 * q * d = 2 * (d * q) := by ring
  rw [hup] at hle hodd
  rw [hdown] at hge hodd
  have hq : n / d = q ∨ n / d + 1 = q := by
    have h₁ : n / d ≤ q := by
      by_contra hcon
      have := Nat.mul_le_mul_left d (show q + 1 ≤ n / d by omega)
      rw [Nat.mul_succ] at this
      omega
    have h₂ : q ≤ n / d + 1 := by
      by_contra hcon
      have := Nat.mul_le_mul_left d (show n / d + 2 ≤ q by omega)
      rw [Nat.mul_add] at this
      omega
    omega
  unfold roundHalfEven
  rcases hq with hq | hq
  · rw [hq] at hdiv
    simp only [hq]
    split
    · rfl
    · split <;> omega
  · have hdq : d * q = d * (n / d) + d := by rw [← hq, Nat.mul_succ]
    simp only []
    split
    · omega
    · split <;> omega

section

variable {n d c : Nat}

/-- The quotient lies below the next unit exponent. -/
theorem RoundsTo.lt_binade (h : RoundsTo n d c) : n < 2 ^ (53 + codeUnit c) * d := by
  have hs := codeSignificand_lt c
  have hle := h.le
  have hunit : 0 < d * 2 ^ codeUnit c := Nat.mul_pos h.pos (Nat.two_pow_pos _)
  have hmul := Nat.mul_le_mul_right (d * 2 ^ codeUnit c)
    (show 4 * codeSignificand c + 2 ≤ 4 * 2 ^ 53 - 2 by omega)
  rw [Nat.pow_add, Nat.mul_assoc, Nat.mul_comm (2 ^ codeUnit c)]
  omega

/-- The quotient lies in the binade of the code, or just below it. -/
theorem RoundsTo.binade (h : RoundsTo n d c) (hu : 0 < codeUnit c) :
    2 ^ (52 + codeUnit c) * d ≤ n ∨
      codeSignificand c = 2 ^ 52 ∧ 2 ^ (51 + codeUnit c) * d ≤ n := by
  have hn := codeSignificand_normal c
  have hge := h.ge
  have hunit : 0 < d * 2 ^ codeUnit c := Nat.mul_pos h.pos (Nat.two_pow_pos _)
  rw [Nat.pow_add, Nat.mul_assoc, Nat.mul_comm (2 ^ codeUnit c), Nat.pow_add, Nat.mul_assoc,
    Nat.mul_comm (2 ^ codeUnit c)]
  by_cases hs : codeSignificand c = 2 ^ 52
  · right
    rw [quartersBelow, if_pos ⟨hs, hu⟩, hs] at hge
    exact ⟨hs, by omega⟩
  · left
    rw [quartersBelow, if_neg fun hc => hs hc.1] at hge
    have hmul := Nat.mul_le_mul_right (d * 2 ^ codeUnit c)
      (show 4 * 2 ^ 52 + 2 ≤ 4 * codeSignificand c - 2 by omega)
    omega

theorem log2_div_eq {k : Nat} (hd : 0 < d) (hge : 2 ^ k * d ≤ n) (hlt : n < 2 ^ (k + 1) * d) :
    (n / d).log2 = k := by
  have h₁ : 2 ^ k ≤ n / d := (Nat.le_div_iff_mul_le hd).mpr hge
  have h₂ : n / d < 2 ^ (k + 1) := (Nat.div_lt_iff_lt_mul hd).mpr hlt
  exact (Nat.log2_eq_iff (by have := Nat.two_pow_pos k; omega)).mpr ⟨h₁, h₂⟩

/-- The code, from the unit exponent and the significand that a quotient is rounded to. -/
private theorem roundedCode_eq {e q : Nat} (he : (n / d).log2 - 52 = e)
    (hq : roundHalfEven n (d * 2 ^ e) = q) (hc : e * 2 ^ 52 + q = c) (hle : c ≤ infinityCode) :
    roundedCode n d = c := by
  have h : roundedCode n d = min (e <<< 52 + roundHalfEven n (d <<< e)) infinityCode := by
    rw [← he]
    rfl
  rw [h, Nat.shiftLeft_eq, Nat.shiftLeft_eq, hq, hc, Nat.min_eq_left hle]

/-- In the binade of the code, the significand is what the quotient rounds to. -/
theorem RoundsTo.roundedCode_of_binade (h : RoundsTo n d c) (hc : c ≤ infinityCode)
    (he : (n / d).log2 - 52 = codeUnit c) : roundedCode n d = c := by
  have hunit : 0 < d * 2 ^ codeUnit c := Nat.mul_pos h.pos (Nat.two_pow_pos _)
  have hdouble : 4 * codeSignificand c * (d * 2 ^ codeUnit c) =
      2 * (2 * codeSignificand c * (d * 2 ^ codeUnit c)) := by ring
  refine roundedCode_eq he (roundHalfEven_eq hunit ?_ ?_ ?_) (code_eq c).symm hc
  · have := h.le
    rw [show 4 * codeSignificand c + 2 = 2 * (2 * codeSignificand c + 1) by ring,
      Nat.mul_assoc] at this
    omega
  · have hge := h.ge
    have hbelow : quartersBelow c ≤ 2 := by unfold quartersBelow; split <;> omega
    have := Nat.mul_le_mul_right (d * 2 ^ codeUnit c)
      (show 4 * codeSignificand c ≤ 4 * codeSignificand c - quartersBelow c + 2 by omega)
    rw [Nat.add_mul, hdouble] at this
    omega
  · intro hodd
    obtain ⟨h₁, h₂⟩ := h.odd hodd
    constructor
    · intro heq
      exact h₁ (by linarith)
    · intro heq
      apply h₂
      rw [Nat.sub_mul]
      omega

/-- Just below the binade a unit is half as large, and the significand is rounded up to twice it. -/
theorem RoundsTo.roundedCode_below_binade (h : RoundsTo n d c) (hc : c ≤ infinityCode)
    (hu : 0 < codeUnit c) (hs : codeSignificand c = 2 ^ 52) (hge : 2 ^ (51 + codeUnit c) * d ≤ n)
    (hlt : n < 2 ^ (52 + codeUnit c) * d) : roundedCode n d = c := by
  have hinterval := h.ge
  obtain ⟨u, hu'⟩ : ∃ u, codeUnit c = u + 1 := ⟨codeUnit c - 1, by omega⟩
  rw [quartersBelow, if_pos ⟨hs, hu⟩, hs] at hinterval
  rw [hu'] at hge hlt hinterval
  have hhalf : d * 2 ^ (u + 1) = 2 * (d * 2 ^ u) := by ring
  have hpos : 0 < d * 2 ^ u := Nat.mul_pos h.pos (Nat.two_pow_pos _)
  have hbinade : 2 ^ (52 + (u + 1)) * d = 2 ^ 53 * (d * 2 ^ u) := by ring
  have hlog : (n / d).log2 = 51 + (u + 1) :=
    log2_div_eq h.pos hge (by rwa [show 51 + (u + 1) + 1 = 52 + (u + 1) by omega])
  rw [hhalf] at hinterval
  rw [hbinade] at hlt
  refine roundedCode_eq (e := u) (q := 2 ^ 53) (by omega) (roundHalfEven_eq hpos ?_ ?_ ?_) ?_ hc
  · omega
  · omega
  · omega
  · rw [code_eq c, hs, hu']
    ring

/-- A quotient in the interval of a code rounds to the code. -/
theorem roundedCode_of_roundsTo (h : RoundsTo n d c) (hc : c ≤ infinityCode) :
    roundedCode n d = c := by
  have hlt := h.lt_binade
  by_cases hu : codeUnit c = 0
  · refine h.roundedCode_of_binade hc ?_
    have hsmall : n / d < 2 ^ 53 := (Nat.div_lt_iff_lt_mul h.pos).mpr (by rwa [hu] at hlt)
    have : (n / d).log2 < 53 := by
      by_cases h0 : n / d = 0
      · simp [h0]
      · exact (Nat.log2_lt h0).mpr hsmall
    omega
  by_cases hge : 2 ^ (52 + codeUnit c) * d ≤ n
  · refine h.roundedCode_of_binade hc ?_
    rw [log2_div_eq h.pos hge (by rwa [show 52 + codeUnit c + 1 = 53 + codeUnit c by omega])]
    omega
  · obtain ⟨hs, hbelow⟩ := (h.binade (by omega)).resolve_left hge
    exact h.roundedCode_below_binade hc (by omega) hs hbelow (by omega)

/-- A code's own magnitude, as any quotient, rounds to the code. -/
theorem roundedCode_codeMagnitude (hd : 0 < d) (hn : n = codeMagnitude c * d)
    (hc : c ≤ infinityCode) : roundedCode n d = c := by
  have hunit : 0 < d * 2 ^ codeUnit c := Nat.mul_pos hd (Nat.two_pow_pos _)
  have hmul : 4 * n = 4 * codeSignificand c * (d * 2 ^ codeUnit c) := by
    rw [hn, codeMagnitude]
    ring
  refine roundedCode_of_roundsTo ⟨hd, ?_, ?_, ?_⟩ hc
  · rw [hmul]
    exact Nat.mul_le_mul_right _ (by omega)
  · rw [hmul]
    exact Nat.mul_le_mul_right _ (by omega)
  · intro hodd
    rw [hmul]
    constructor <;> intro heq <;> have := Nat.eq_of_mul_eq_mul_right hunit heq <;> omega

end

end Binary64

end DocQuery
