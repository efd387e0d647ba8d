import DocQuery.Obfuscation.Jitter
import DocQuery.Proofs.Number.Logarithm
import DocQuery.Proofs.Number.Order
import DocQuery.Proofs.Obfuscation.Cents
import DocQuery.Proofs.Token.Literal

/-!
# Stand-ins of numbers

* `Number.isNegative_standIn`: the stand-in of a number without a sign has none.
* `Number.isPlain_standIn`: the stand-ins of numbers below `2 ^ 960` are finite, up to the ordinal
  `2 ^ 33`. Further up the jitter may lead beyond the largest double.
-/

namespace DocQuery

namespace Number

open Binary64

/-- Whole numbers, and doubles below `2 ^ 960`. -/
def isModerate : Number → Bool
  | .integer _ => true
  | .double x => x.magnitude < 2 ^ 960 * Binary64.one

theorem isModerate_double {x : Binary64} :
    (double x).isModerate = true ↔ x.magnitude < 2 ^ 960 * Binary64.one := by
  unfold isModerate
  exact decide_eq_true_iff

variable {n : Number}

theorem isNegative_toBinary64 (n : Number) : n.toBinary64.isNegative = n.isNegative := by
  cases n with
  | integer n => exact isNegative_round _ _ _
  | double x => rfl

theorem isNegative_jitter (x : Binary64) (ordinal : Nat) : (jitter x ordinal).isNegative = false :=
  isNegative_div (isNegative_mul (isNegative_tenTo _) (isNegative_ofNat _)) (isNegative_ofNat _)

/-- The stand-in of a number without a sign has none. -/
theorem isNegative_standIn (h : n.isNegative = false) (ordinal : Nat) :
    (n.standIn ordinal).isNegative = false := by
  refine isNegative_add ?_ (isNegative_jitter _ _)
  rw [isNegative_toCents, isNegative_toBinary64, h]

theorem ofInt_code_le_power (m : Int64) : (Binary64.ofInt m.toInt).code ≤ powerCode 63 := by
  refine ofInt_code_le ?_
  rw [codeMagnitude_powerCode]
  exact Nat.mul_le_mul_right _ (natAbs_toInt_le m)

/-- A number that has a stand-in is worth at least `2 ^ -52`. -/
theorem low_of_isExempt (h : n.isExempt = false) : 2 ^ 1022 ≤ n.toBinary64.magnitude := by
  cases n with
  | integer m =>
    simp only [isExempt, Bool.or_eq_false_iff, decide_eq_false_iff_not, Nat.not_lt] at h
    exact low_le_one.trans (one_le_magnitude_round _ (show 1 ≤ m.toInt.natAbs by omega))
  | double x =>
    simp only [isExempt, Bool.or_eq_false_iff, decide_eq_false_iff_not, Nat.not_le] at h
    have hlow {k m : Nat} (h : 1 <<< k < m) : 2 ^ k ≤ m := Nat.one_shiftLeft k ▸ h.le
    exact hlow h.2

/-- Moderate numbers are worth less than `2 ^ 960`. -/
theorem magnitude_lt_of_isModerate (h : n.isModerate = true) :
    n.toBinary64.magnitude < 2 ^ 960 * Binary64.one := by
  cases n with
  | integer m =>
    rw [← codeMagnitude_powerCode]
    exact magnitude_lt_iff.mpr ((ofInt_code_le_power m).trans_lt (by decide))
  | double x => exact isModerate_double.mp h

theorem jitter_code_le {x : Binary64} (hlow : 2 ^ 1022 ≤ x.magnitude)
    (hhigh : x.magnitude < 2 ^ 960 * Binary64.one) {ordinal : Nat} (h : ordinal ≤ 2 ^ 33) :
    (jitter x ordinal).code ≤ powerCode 1000 := by
  have hscale := tenTo_code_le (powerOfTen_le hlow hhigh)
  have hproduct := mul_code_le (c := powerCode 1000) hscale (ofNat_code_le_power h) (by decide)
    (by decide) (le_of_eq (codeMagnitude_powerCode_mul (by decide)))
  have hdivisor : (Binary64.ofNat 10000).code ≤ powerCode 14 := ofNat_code_le_power (by decide)
  exact div_code_le hproduct (by decide) (isFinite_of_code_le hdivisor (by decide))
    (one_le_magnitude_round false (by decide))

/-- The stand-in of a moderate number without a sign is finite and without a sign. -/
theorem isPlain_standIn (hexempt : n.isExempt = false) (hmoderate : n.isModerate = true)
    (h : n.isNegative = false) {ordinal : Nat} (hordinal : ordinal ≤ 2 ^ 33) :
    (n.standIn ordinal).isPlain = true := by
  have hsign := isNegative_standIn h ordinal
  have hlow := low_of_isExempt hexempt
  have hhigh := magnitude_lt_of_isModerate hmoderate
  have hcode : n.toBinary64.code < powerCode 960 := by
    rwa [← magnitude_lt_iff, codeMagnitude_powerCode]
  have habs : n.toBinary64.abs.magnitude = n.toBinary64.magnitude := by
    rw [magnitude_eq, magnitude_eq, code_abs]
  have hcents : codeMagnitude (powerCode 960) ≤ codeMagnitude (powerCode 1000) :=
    codeMagnitude_strictMono.monotone (by decide)
  have hsum := add_code_le (c := powerCode 1001) (toCents_code_le hcode.le (by decide))
    (jitter_code_le (habs ▸ hlow) (habs ▸ hhigh) hordinal) (by decide) (by decide)
    ((Nat.add_le_add_right hcents _).trans (le_of_eq (codeMagnitude_powerCode_add (by decide))))
  have hfinite := isFinite_of_code_le hsum (by decide)
  rw [standIn, isPlain, Bool.and_eq_true]
  exact ⟨hfinite, by simpa [standIn, isNegative] using hsign⟩

end Number

end DocQuery
