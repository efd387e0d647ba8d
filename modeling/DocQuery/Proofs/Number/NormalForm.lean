import DocQuery.Proofs.Number.Order

/-!
# The form that equal numbers share

* `Number.same_iff_value_eq`: two numbers are the same if they are worth the same.
* `Number.normalForm_eq_of_same`: then they have one normal form, and so one digest.
* `Number.same_of_normalForm_eq`: numbers of one normal form are the same.
* `Number.hashWords_agree`: equality and the two hashes of numbers agree.

A key tells a proper extended form but for the sign of zero, which the normal form drops.
-/

namespace DocQuery

open Binary64

/-! ## Forms of one key -/

namespace Extended

variable {a b : Extended}

theorem code_eq_of_key (ha : a.Proper) (hb : b.Proper) (h : a.key = b.key) :
    a.double.code = b.double.code ∧ a.extra = b.extra := by
  have habs : 2 ^ 16 * a.double.code + a.extra = 2 ^ 16 * b.double.code + b.extra := by
    rw [← natAbs_key, ← natAbs_key, h]
  have := ha.extra_lt
  have := hb.extra_lt
  omega

/-- Proper forms of one key are one form, unless they are zeros. -/
theorem eq_of_key (ha : a.Proper) (hb : b.Proper) (h : a.key = b.key) (hcode : a.double.code ≠ 0) :
    a = b := by
  obtain ⟨hc, he⟩ := code_eq_of_key ha hb h
  have hsign : a.double.isNegative = b.double.isNegative := by
    unfold key at h
    rw [← hc, ← he] at h
    cases hs : a.double.isNegative <;> cases ht : b.double.isNegative <;>
      simp only [hs, ht, Bool.false_eq_true, ↓reduceIte] at h ⊢ <;> omega
  have hdouble : a.double = b.double := by
    rw [← ofCode_code a.double, ← ofCode_code b.double, hsign, hc]
  cases a
  cases b
  cases hdouble
  cases he
  rfl

theorem normalize_eq_of_key (ha : a.Proper) (hb : b.Proper) (h : a.key = b.key) :
    a.normalize = b.normalize := by
  by_cases hcode : a.double.code = 0
  · have hb0 : b.double.code = 0 := (code_eq_of_key ha hb h).1 ▸ hcode
    simp [normalize, isZero, hcode, hb0, ha.zero hcode, hb.zero hb0]
  · rw [eq_of_key ha hb h hcode]

/-- The normal form keeps the key: it drops the sign of zero alone, which no key has. -/
theorem Proper.key_normalize (h : a.Proper) : a.normalize.key = a.key := by
  by_cases hcode : a.double.code = 0
  · have hzero : a.double.isZero = true := by simp [isZero, hcode]
    have hkey : a.key.natAbs = 0 := by simp [natAbs_key, hcode, h.zero hcode]
    have hnormal : a.normalize.key.natAbs = 0 := by
      rw [normalize, if_pos hzero, natAbs_key, h.zero hcode]
      decide
    omega
  · have hzero : a.double.isZero = false := by simp [isZero, hcode]
    simp [normalize, hzero, h.isNaN]

theorem isNaN_normalize (a : Extended) : a.normalize.double.isNaN = a.double.isNaN := by
  have hzeroForm : Binary64.zero.isNaN = false := by decide
  have hnanForm : Binary64.nan.isNaN = true := by decide
  unfold normalize
  by_cases hzero : a.double.isZero = true
  · have hcode : a.double.code = 0 := by simpa [isZero] using hzero
    have hnan : a.double.isNaN = false := by simp [Binary64.isNaN, hcode]
    rw [if_pos hzero, hnan, hzeroForm]
  · rw [if_neg hzero]
    by_cases hnan : a.double.isNaN = true
    · rw [if_pos hnan, hnan, hnanForm]
    · rw [if_neg hnan]

theorem extra_normalize (a : Extended) : a.normalize.extra = a.extra := by
  unfold normalize
  split
  · rfl
  · split <;> rfl

end Extended

/-! ## Numbers of one value -/

namespace Number

theorem same_iff_value_eq {a b : Number} : a.same b = true ↔ a.value = b.value := by
  rw [same, beq_iff_eq, compare_eq_cmp, cmp_eq_eq_iff]

theorem value_eq_bot_iff {a : Number} : a.value = ⊥ ↔ a.isNaN = true := by
  refine ⟨fun h => ?_, value_of_isNaN⟩
  by_contra hnan
  exact (bot_lt_value (by simpa using hnan)).ne' h

theorem normalForm_of_isNaN {a : Number} (h : a.isNaN = true) : a.normalForm = ⟨.nan, 0⟩ := by
  cases a with
  | integer n => cases h
  | double x =>
    have hzero : x.isZero = false := by
      simp only [isNaN, Binary64.isNaN, decide_eq_true_eq] at h
      simp only [isZero, beq_eq_false_iff_ne]
      omega
    simp only [isNaN] at h
    simp [normalForm, extended, Extended.normalize, hzero, h]

/-- Numbers of one value have one normal form. -/
theorem normalForm_eq_of_same {a b : Number} (h : a.same b = true) : a.normalForm = b.normalForm := by
  have hvalue := same_iff_value_eq.mp h
  by_cases ha : a.isNaN = true
  · have hb : b.isNaN = true := by rwa [← value_eq_bot_iff, ← hvalue, value_eq_bot_iff]
    rw [normalForm_of_isNaN ha, normalForm_of_isNaN hb]
  · have hb : ¬ b.isNaN = true := by rwa [← value_eq_bot_iff, ← hvalue, value_eq_bot_iff]
    rw [Bool.not_eq_true] at ha hb
    rw [value_eq ha, value_eq hb] at hvalue
    exact Extended.normalize_eq_of_key (proper_extended ha) (proper_extended hb)
      (keyValue_strictMonoOn.injOn (key_mem a ha) (key_mem b hb) hvalue)

theorem digest_eq_of_same {a b : Number} (h : a.same b = true) : a.digest = b.digest :=
  congrArg Extended.mix (normalForm_eq_of_same h)

/-- Numbers of one normal form have one value. -/
theorem same_of_normalForm_eq {a b : Number} (h : a.normalForm = b.normalForm) :
    a.same b = true := by
  rw [same_iff_value_eq]
  have hnan : a.isNaN = b.isNaN := by
    rw [← isNaN_extended a, ← isNaN_extended b, ← Extended.isNaN_normalize a.extended,
      ← Extended.isNaN_normalize b.extended]
    exact congrArg (·.double.isNaN) h
  by_cases ha : a.isNaN = true
  · rw [value_of_isNaN ha, value_of_isNaN (hnan ▸ ha)]
  · rw [Bool.not_eq_true] at ha
    have hb : b.isNaN = false := hnan ▸ ha
    have hkey : a.extended.key = b.extended.key := by
      rw [← (proper_extended ha).key_normalize, ← (proper_extended hb).key_normalize]
      exact congrArg Extended.key h
    rw [value_eq ha, value_eq hb, hkey]

theorem same_iff_normalForm_eq {a b : Number} :
    a.same b = true ↔ a.normalForm = b.normalForm :=
  ⟨normalForm_eq_of_same, same_of_normalForm_eq⟩

/-! ## Hash tables -/

theorem extra_extended_lt (a : Number) : a.extended.extra < 2 ^ 16 := by
  cases a with
  | integer n => exact (extended_ofInt (natAbs_toInt_le n)).1.extra_lt
  | double x => exact Nat.two_pow_pos 16

/-- The two words are the whole normal form: its extra bits fill sixteen bits at most. -/
theorem hashWords_eq_iff {a b : Number} : a.hashWords = b.hashWords ↔ a.normalForm = b.normalForm := by
  constructor
  · intro h
    obtain ⟨hbits, hextra⟩ := Prod.mk.inj h
    have hlt (c : Number) : c.normalForm.extra < 2 ^ 16 :=
      (Extended.extra_normalize _).trans_lt (extra_extended_lt c)
    have hnat : a.normalForm.extra = b.normalForm.extra := by
      have := congrArg UInt16.toNat hextra
      rwa [UInt16.toNat_ofNat_of_lt' (hlt a), UInt16.toNat_ofNat_of_lt' (hlt b)] at this
    cases ha : a.normalForm with
    | mk x e =>
      cases hb : b.normalForm with
      | mk y f =>
        simp only [ha, hb] at hbits hnat
        rw [hnat, show x = y from congrArg Binary64.mk hbits]
  · intro h
    rw [hashWords, hashWords, h]

/-- Equality and the two hashes of numbers agree, over integers and doubles in any mix: numbers
compare equal just if a hash table is given the same words of them, and then they have one digest.
Comparing equal is an equivalence, so numbers are fit to be keys. -/
theorem hashWords_agree :
    (∀ a b : Number, a.compare b = .eq ↔ a.hashWords = b.hashWords) ∧
    (∀ a b : Number, a.compare b = .eq → a.digest = b.digest) ∧
    Equivalence (fun a b : Number => a.compare b = .eq) := by
  have hsame (a b : Number) : a.compare b = .eq ↔ a.same b = true := by rw [same, beq_iff_eq]
  have hwords (a b : Number) : a.compare b = .eq ↔ a.hashWords = b.hashWords := by
    rw [hsame, same_iff_normalForm_eq, hashWords_eq_iff]
  refine ⟨hwords, fun a b h => digest_eq_of_same ((hsame a b).mp h), ?_⟩
  constructor
  · intro a
    rw [hwords]
  · intro a b h
    rw [hwords] at h ⊢
    exact h.symm
  · intro a b c h h'
    rw [hwords] at h h' ⊢
    exact h.trans h'

/-- `2 ^ 62` as an integer and as a double, and the integer above, which is no double: it has the
double's pattern, and one extra bit. -/
theorem hashWords_agree_beyond_doubles :
    (integer 4611686018427387904).hashWords = (double ⟨0x43D0000000000000⟩).hashWords ∧
    (integer 4611686018427387904).digest = (double ⟨0x43D0000000000000⟩).digest ∧
    (integer 4611686018427387905).compare (double ⟨0x43D0000000000000⟩) ≠ .eq := by
  have hequal : (integer 4611686018427387904).compare (double ⟨0x43D0000000000000⟩) = .eq := by
    decide +kernel
  refine ⟨(hashWords_agree.1 _ _).mp hequal, hashWords_agree.2.1 _ _ hequal, fun h => ?_⟩
  have hwords := (hashWords_agree.1 _ _).mp h
  exact absurd hwords (by decide +kernel)

end Number

end DocQuery
