import Mathlib.Order.Monotone.Basic
import Mathlib.Tactic.Ring
import DocQuery.Number.Binary64

/-!
# Codes and magnitudes of doubles

A double is its sign and its code, and the code is the significand and the unit exponent side by
side: `code_eq`. So the magnitude is a function of the code alone, and it grows with the code by one
unit in the last place at a time:

* `codeMagnitude_succ`: from a code to the next, the magnitude grows by `2 ^ codeUnit c`.
* `codeMagnitude_strictMono`: larger codes have larger magnitudes.
* `ofCode_code`: a double is put together from its sign and its code.
-/

namespace DocQuery

namespace Binary64

/-! ## Fields of a code -/

/-- The unit exponent that a code says. -/
def codeUnit (c : Nat) : Nat := c / 2 ^ 52 - 1

/-- The significand that a code says. -/
def codeSignificand (c : Nat) : Nat := if c / 2 ^ 52 = 0 then c % 2 ^ 52 else 2 ^ 52 + c % 2 ^ 52

/-- The magnitude that a code says, in units of `2 ^ -1074`. -/
def codeMagnitude (c : Nat) : Nat := codeSignificand c * 2 ^ codeUnit c

theorem codeSignificand_lt (c : Nat) : codeSignificand c < 2 ^ 53 := by
  have := Nat.mod_lt c (y := 2 ^ 52) (by decide)
  unfold codeSignificand
  split <;> omega

/-- Only codes without a unit exponent may have a significand of fewer than 53 bits. -/
theorem codeSignificand_normal (c : Nat) : 2 ^ 52 ≤ codeSignificand c ∨ codeUnit c = 0 := by
  unfold codeSignificand codeUnit
  split <;> omega

/-- A code is its unit exponent and its significand, added up with the unit exponent 52 bits to the
left. -/
theorem code_eq (c : Nat) : c = codeUnit c * 2 ^ 52 + codeSignificand c := by
  have := Nat.div_add_mod c (2 ^ 52)
  unfold codeSignificand codeUnit
  split <;> omega

theorem codeUnit_eq {u s : Nat} (hs : s < 2 ^ 53) (hn : 2 ^ 52 ≤ s ∨ u = 0) :
    codeUnit (u * 2 ^ 52 + s) = u := by
  unfold codeUnit
  omega

theorem codeSignificand_eq {u s : Nat} (hs : s < 2 ^ 53) (hn : 2 ^ 52 ≤ s ∨ u = 0) :
    codeSignificand (u * 2 ^ 52 + s) = s := by
  unfold codeSignificand
  split <;> omega

theorem codeMagnitude_eq {u s : Nat} (hs : s < 2 ^ 53) (hn : 2 ^ 52 ≤ s ∨ u = 0) :
    codeMagnitude (u * 2 ^ 52 + s) = s * 2 ^ u := by
  rw [codeMagnitude, codeSignificand_eq hs hn, codeUnit_eq hs hn]

/-- The next code's magnitude is larger by one unit in the last place. -/
theorem codeMagnitude_succ (c : Nat) : codeMagnitude (c + 1) = codeMagnitude c + 2 ^ codeUnit c := by
  have hs := codeSignificand_lt c
  have hn := codeSignificand_normal c
  conv => lhs; rw [code_eq c, Nat.add_assoc]
  by_cases hc : codeSignificand c + 1 < 2 ^ 53
  · rw [codeMagnitude_eq hc (by omega), codeMagnitude, Nat.succ_mul]
  -- The significand is full: the next one is half as large, one unit exponent further.
  · have hfull : codeSignificand c + 1 = 2 ^ 53 := by omega
    rw [hfull, show codeUnit c * 2 ^ 52 + 2 ^ 53 = (codeUnit c + 1) * 2 ^ 52 + 2 ^ 52 by ring,
      codeMagnitude_eq (by decide) (.inl le_rfl), codeMagnitude, ← Nat.succ_mul, Nat.succ_eq_add_one,
      hfull]
    ring

theorem codeMagnitude_strictMono : StrictMono codeMagnitude :=
  strictMono_nat_of_lt_succ fun c => by
    rw [codeMagnitude_succ]
    exact Nat.lt_add_of_pos_right (Nat.two_pow_pos _)

@[simp] theorem codeMagnitude_zero : codeMagnitude 0 = 0 := rfl

/-! ## Doubles by sign and code -/

theorem one_eq : one = 2 ^ 1074 := by
  unfold one
  generalize 1074 = k
  exact Nat.one_shiftLeft k

theorem two_pow_add_units (k : Nat) : 2 ^ (k + 1074) = 2 ^ k * one := by
  rw [one_eq]
  generalize 1074 = j
  exact Nat.pow_add 2 k j

theorem one_pos : 0 < one := by
  rw [one_eq]
  generalize 1074 = k
  exact Nat.two_pow_pos k

theorem low_le_one : 2 ^ 1022 ≤ one := by
  rw [one_eq]
  exact pow_le_pow_right₀ (by decide) (by decide)

theorem infinityCode_eq : infinityCode = 2047 * 2 ^ 52 := Nat.shiftLeft_eq _ _

theorem word_lt (x : Binary64) : x.word < 2 ^ 64 := x.bits.toNat_lt

theorem code_ofCode {negative : Bool} {c : Nat} (h : c < 2 ^ 63) : (ofCode negative c).code = c := by
  unfold ofCode code word
  cases negative <;> simp [Nat.one_shiftLeft] <;> omega

theorem isNegative_ofCode {negative : Bool} {c : Nat} (h : c < 2 ^ 63) :
    (ofCode negative c).isNegative = negative := by
  unfold ofCode isNegative word
  cases negative <;> simp [Nat.one_shiftLeft] <;> omega

/-- A double is its sign and its code. -/
theorem ofCode_code (x : Binary64) : ofCode x.isNegative x.code = x := by
  have hx := x.word_lt
  obtain ⟨bits⟩ := x
  unfold ofCode
  congr 1
  apply UInt64.toNat_inj.mp
  simp only [isNegative, code, word, Nat.one_shiftLeft, decide_eq_true_eq, UInt64.toNat_ofNat'] at hx ⊢
  split <;> omega

theorem unitExponent_eq (x : Binary64) : x.unitExponent = codeUnit x.code := by
  simp [unitExponent, exponentField, codeUnit, Nat.shiftRight_eq_div_pow]

theorem significand_eq (x : Binary64) : x.significand = codeSignificand x.code := by
  simp [significand, exponentField, fraction, codeSignificand, Nat.shiftRight_eq_div_pow,
    Nat.one_shiftLeft]

theorem magnitude_eq (x : Binary64) : x.magnitude = codeMagnitude x.code := by
  rw [magnitude, Nat.shiftLeft_eq, unitExponent_eq, significand_eq, codeMagnitude]

theorem code_lt (x : Binary64) : x.code < 2 ^ 63 := Nat.mod_lt _ (by decide)

theorem code_abs (x : Binary64) : x.abs.code = x.code := code_ofCode (code_lt x)

theorem magnitude_abs (x : Binary64) : x.abs.magnitude = x.magnitude := by
  rw [magnitude_eq, magnitude_eq, code_abs]

end Binary64

end DocQuery
