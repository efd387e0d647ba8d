import DocQuery.Proofs.Number.BelowOne
import DocQuery.Proofs.Number.LogarithmError
import DocQuery.Proofs.Obfuscation.EqualNumbers
import DocQuery.Proofs.Obfuscation.WholeCents

/-!
# Signs of stand-ins

A stand-in is the number in cents and a jitter, and the jitter has no sign. So the stand-in of a number
above zero lies above zero, and that of a number below zero lies where the jitter leaves it.

* `Number.compare_add`: a sum lies to zero as the jitter does to the cents.
* `Number.jitter_lt_cents`: up to the ordinal 9999 the jitter is less than the cents, if there are any
  cents and the jitter is finite.
* `obfuscateSession_sign`: what that means for sessions.
-/

namespace DocQuery

namespace Number

open Binary64

variable {x c j : Binary64} {n : Number} {k : Nat}

/-! ## Signs -/

/-- A double that is not zero lies to zero as its sign says. -/
theorem compare_zero_double (hpos : 0 < x.code) (hle : x.code ≤ infinityCode) :
    (double x).compare (.integer 0) = if x.isNegative then .lt else .gt := by
  have hnan : x.isNaN = false := decide_eq_false hle.not_gt
  have hzero : (integer 0).value = (double .zero).value := by decide +kernel
  have hrank : (double x).compare (.integer 0) = Ord.compare x.rank 0 := by
    rw [compare_eq_cmp, hzero, ← compare_eq_cmp, compare, Binary64.compare, hnan]
    rfl
  rw [hrank, rank]
  split
  · exact compare_lt_iff_lt.mpr (by omega)
  · exact compare_gt_iff_gt.mpr (by omega)

/-- A number that has a stand-in is finite and not zero, so it lies to zero as its sign says. -/
theorem compare_zero (hexempt : n.isExempt = false) :
    n.compare (.integer 0) = if n.isNegative then .lt else .gt := by
  have hlow := low_of_isExempt hexempt
  cases n with
  | integer m =>
    simp only [isExempt, Bool.or_eq_false_iff, decide_eq_false_iff_not, Nat.not_lt] at hexempt
    have hzero : (0 : Int64).toInt = 0 := by decide
    simp only [compare, isNegative, hzero, decide_eq_true_eq]
    split
    · exact compare_lt_iff_lt.mpr ‹_›
    · exact compare_gt_iff_gt.mpr (by omega)
  | double x =>
    simp only [isExempt, Bool.or_eq_false_iff, Bool.not_eq_false'] at hexempt
    exact compare_zero_double (code_pos_of_magnitude ((Nat.two_pow_pos _).trans_le hlow))
      (of_decide_eq_true hexempt.1.1 : x.code < infinityCode).le

/-- The sum of a double below zero and one without a sign. -/
theorem add_of_finite (hc : c.isFinite = true) (hneg : c.isNegative = true) (hj : j.Unsigned)
    (hjf : j.isFinite = true) : c.add j =
      if (j.magnitude : Int) - c.magnitude = 0 then ofCode false 0
      else round ((j.magnitude : Int) - c.magnitude < 0)
        ((j.magnitude : Int) - c.magnitude).natAbs 1 := by
  obtain ⟨hcn, hci⟩ := finite_flags le_rfl (of_decide_eq_true hc)
  obtain ⟨hjn, hji⟩ := finite_flags le_rfl (of_decide_eq_true hjf)
  have hsum : c.scaled + j.scaled = (j.magnitude : Int) - c.magnitude := by
    rw [hj.scaled, scaled, if_pos hneg]
    omega
  simp only [add, hcn, hci, hjn, hji, hj.isNegative, hsum, Bool.or_self, Bool.and_false,
    Bool.false_eq_true, if_false]

theorem add_of_infinite (hc : c.isFinite = true) (hj : j.Unsigned) (hjf : ¬ j.isFinite = true) :
    c.add j = j := by
  obtain ⟨hcn, hci⟩ := finite_flags le_rfl (of_decide_eq_true hc)
  have hji : j.isInfinite = true := beq_iff_eq.mpr (hj.isInfinite hjf)
  simp only [add, hcn, hci, hj.isNaN, hji, Bool.or_self, Bool.false_eq_true, if_false, if_true]

/-- A sum lies to zero as what is added does to the double below zero that it is added to. -/
theorem compare_add (hc : c.isFinite = true) (hneg : c.isNegative = true) (hj : j.Unsigned) :
    (double (c.add j)).compare (.integer 0) = j.compare c.abs := by
  have hcode : c.code < infinityCode := of_decide_eq_true hc
  have habs : c.abs.Unsigned := unsigned_ofCode hcode.le
  rw [hj.compare_eq habs, code_abs]
  by_cases hjf : j.isFinite = true
  · have hround (negative : Bool) {m : Nat} (hm : 1 ≤ m) :
        0 < (round negative m 1).code ∧ (round negative m 1).code ≤ infinityCode := by
      rw [code_round]
      exact ⟨le_roundedCode Nat.one_pos (by rw [Nat.mul_one]; exact hm) (by decide),
        Nat.min_le_right _ _⟩
    rw [add_of_finite hc hneg hj hjf]
    rcases Nat.lt_trichotomy j.code c.code with hlt | heq | hgt
    · have hmagnitude := codeMagnitude_strictMono hlt
      rw [← magnitude_eq, ← magnitude_eq] at hmagnitude
      obtain ⟨hpos, hle⟩ := hround true (show 1 ≤ ((j.magnitude : Int) - c.magnitude).natAbs by omega)
      rw [if_neg (by omega), decide_eq_true (by omega), compare_zero_double hpos hle,
        isNegative_round, compare_lt_iff_lt.mpr hlt]
      rfl
    · rw [magnitude_eq, magnitude_eq, heq, sub_self, if_pos rfl, compare_eq_iff_eq.mpr rfl]
      decide
    · have hmagnitude := codeMagnitude_strictMono hgt
      rw [← magnitude_eq, ← magnitude_eq] at hmagnitude
      obtain ⟨hpos, hle⟩ := hround false (show 1 ≤ ((j.magnitude : Int) - c.magnitude).natAbs by omega)
      rw [if_neg (by omega), decide_eq_false (by omega), compare_zero_double hpos hle,
        isNegative_round, compare_gt_iff_gt.mpr hgt]
      rfl
  · have hinf := hj.isInfinite hjf
    rw [add_of_infinite hc hj hjf, compare_zero_double (hinf ▸ by decide) hj.code_le, hj.isNegative,
      compare_gt_iff_gt.mpr (hinf ▸ hcode)]
    rfl

/-! ## The jitter from above -/

/-- Up to the ordinal 9999 a finite jitter is less than the power of ten. -/
theorem jitter_le (hlow : 2 ^ 1022 ≤ x.magnitude) (hfinite : x.isFinite = true) (hk : 1 ≤ k)
    (hk' : k < 10000) (hj : (jitter x k).isFinite = true) :
    (jitter x k).size ≤ (9999 / 10000 + 1 / 2 ^ 45) *
      (10 ^ x.powerOfTen.toNat / 10 ^ (-x.powerOfTen).toNat + unit) := by
  have hnear := (near_jitter hlow hfinite hk hj).2
  have hten := size_tenTo_le x.powerOfTen
  have hordinal : (k : ℚ) ≤ 9999 := by exact_mod_cast Nat.le_of_lt_succ hk'
  have hshare : (tenTo x.powerOfTen).size * k / 10000 ≤ (tenTo x.powerOfTen).size * 9999 / 10000 := by
    have := mul_le_mul_of_nonneg_left hordinal (tenTo x.powerOfTen).size_nonneg
    linarith
  have hpower : (0 : ℚ) ≤ 10 ^ x.powerOfTen.toNat / 10 ^ (-x.powerOfTen).toNat := by positivity
  have hunit := unit_nonneg
  rw [roundoff] at hnear
  linarith

/-- A power of ten that is at least one is at most the cents and a ten-thousandth part. -/
theorem power_lt_cents (hlow : 2 ^ 1022 ≤ x.magnitude) (hfinite : x.isFinite = true)
    (hpower : 0 ≤ x.powerOfTen) :
    (9999 / 10000 + 1 / 2 ^ 40) * (10 : ℚ) ^ x.powerOfTen.toNat < x.toCents.size := by
  have hone : Binary64.one ≤ x.magnitude :=
    Nat.le_of_not_lt fun hlt => hpower.not_gt (powerOfTen_neg hlow hlt)
  have hten := ten_pow_powerOfTen_le hone hfinite
  have hsize := one_le_size hone
  generalize x.powerOfTen.toNat = p at hten ⊢
  -- A one and a ten need the cents to be full. From a hundred on, half a cent is less than the part.
  by_cases hlarge : 2 ≤ p
  · have hhundred : (10 : ℚ) ^ 2 ≤ 10 ^ p := pow_le_pow_right₀ (by norm_num) hlarge
    have := toCents_ge x
    linarith
  · obtain rfl | rfl : p = 0 ∨ p = 1 := by omega
    · have := cents_le_toCents (x := x) (c := 100) (by decide) (by push_cast; linarith)
      push_cast at this
      linarith
    · have := cents_le_toCents (x := x) (c := 1000) (by decide) (by push_cast; linarith)
      push_cast at this
      linarith

/-- Below one, the power of ten is a tenth, and the number not far below it, or a hundredth at most. -/
theorem power_lt_cents_of_neg (hlow : 2 ^ 1022 ≤ x.magnitude) (hpower : x.powerOfTen < 0)
    (hcents : x.toCents.code ≠ 0) :
    (9999 / 10000 + 1 / 2 ^ 40) * (1 / (10 : ℚ) ^ (-x.powerOfTen).toNat) < x.toCents.size := by
  by_cases htenth : x.powerOfTen = -1
  · have hsize : 25 / 256 ≤ x.size := by
      have hle : 25 * Binary64.one ≤ 256 * x.magnitude := Nat.le_of_not_lt fun hlt => by
        have := powerOfTen_lt_neg_one hlow hlt
        omega
      have hle : (25 * Binary64.one : ℚ) ≤ 256 * x.magnitude := by exact_mod_cast hle
      rw [size, le_div_iff₀ one_pos_rat]
      linarith
    have := cents_le_toCents (x := x) (c := 10) (by decide) (by push_cast; linarith)
    push_cast at this
    rw [htenth, show (-(-1 : Int)).toNat = 1 by rfl]
    linarith
  · have hle : (1 : ℚ) / 10 ^ (-x.powerOfTen).toNat ≤ 1 / 10 ^ 2 :=
      one_div_pow_le_one_div_pow_of_le (by norm_num) (by omega)
    have := cent_le_toCents hcents
    linarith

/-- Up to the ordinal 9999 a finite jitter is less than the cents, if there are any. -/
theorem jitter_lt_cents (hlow : 2 ^ 1022 ≤ x.magnitude) (hfinite : x.isFinite = true) (hk : 1 ≤ k)
    (hk' : k < 10000) (hj : (jitter x k).isFinite = true) (hcents : x.toCents.code ≠ 0) :
    (jitter x k).size < x.toCents.size := by
  have hjitter := jitter_le hlow hfinite hk hk' hj
  have hunit := unit_le
  have hcent := cent_le_toCents hcents
  rcases lt_or_ge x.powerOfTen 0 with hneg | hpower
  · have hlt := power_lt_cents_of_neg hlow hneg hcents
    have hpositive : (0 : ℚ) < 1 / 10 ^ (-x.powerOfTen).toNat := by positivity
    rw [show x.powerOfTen.toNat = 0 by omega, pow_zero] at hjitter
    linarith
  · have hlt := power_lt_cents hlow hfinite hpower
    have hpositive : (1 : ℚ) ≤ 10 ^ x.powerOfTen.toNat := one_le_pow₀ (by norm_num)
    rw [show (-x.powerOfTen).toNat = 0 by omega, pow_zero, div_one] at hjitter
    linarith

/-! ## Stand-ins -/

theorem isFinite_toBinary64 (hexempt : n.isExempt = false) : n.toBinary64.isFinite = true := by
  cases n with
  | integer m => exact isFinite_of_code_le (ofInt_code_le_power m) (by decide)
  | double x =>
    simp only [isExempt, Bool.or_eq_false_iff, Bool.not_eq_false'] at hexempt
    exact hexempt.1.1

/-- What jitters are made from: the double without its sign. -/
theorem abs_spec (hexempt : n.isExempt = false) : n.toBinary64.abs.Unsigned ∧
    2 ^ 1022 ≤ n.toBinary64.abs.magnitude ∧ n.toBinary64.abs.isFinite = true := by
  have hcode : n.toBinary64.code < infinityCode := of_decide_eq_true (isFinite_toBinary64 hexempt)
  refine ⟨unsigned_ofCode hcode.le, magnitude_abs n.toBinary64 ▸ low_of_isExempt hexempt, ?_⟩
  rw [isFinite, code_abs]
  exact decide_eq_true hcode

/-- The stand-in of a number above zero lies above zero. -/
theorem compare_standIn_of_pos (hexempt : n.isExempt = false) (h : n.isNegative = false) (hk : 1 ≤ k) :
    (n.standIn k).compare (.integer 0) = .gt := by
  obtain ⟨-, hlow, hfinite⟩ := abs_spec hexempt
  obtain ⟨hjitter, hplace⟩ := place_le_jitter hlow hfinite hk
  have hpos := code_pos_of_magnitude ((Nat.two_pow_pos _).trans_le hplace)
  have hunsigned : n.toBinary64.Unsigned :=
    ⟨(of_decide_eq_true (isFinite_toBinary64 hexempt) : n.toBinary64.code < infinityCode).le,
      (isNegative_toBinary64 n).trans h⟩
  have hcents := (unsigned_toCents hunsigned (isFinite_toBinary64 hexempt)).1
  have hsum := le_code_add (c := (jitter n.toBinary64.abs k).code) hcents hjitter hjitter.code_le
    (by rw [← magnitude_eq]; exact Nat.le_add_left _ _)
  have hadd := unsigned_add hcents hjitter
  rw [standIn, compare_zero_double (hpos.trans_le hsum) hadd.code_le, hadd.isNegative]
  rfl

/-- The stand-in of a number below zero lies to zero as its jitter does to its cents. -/
theorem compare_standIn_of_neg (hexempt : n.isExempt = false) (h : n.isNegative = true) (hk : 1 ≤ k) :
    (n.standIn k).compare (.integer 0) =
      (jitter n.toBinary64.abs k).compare n.toBinary64.abs.toCents := by
  obtain ⟨hunsigned, hlow, hfinite⟩ := abs_spec hexempt
  have hcents : n.toBinary64.toCents.isFinite = true := by
    have habs := (unsigned_toCents hunsigned hfinite).2
    rwa [toCents_abs, isFinite, code_abs] at habs
  rw [toCents_abs]
  exact compare_add hcents ((isNegative_toCents _).trans ((isNegative_toBinary64 n).trans h))
    (place_le_jitter hlow hfinite hk).1

/-- Up to the ordinal 9999 it lies below zero just if there are any cents and the jitter is finite. -/
theorem compare_standIn_lt_iff (hexempt : n.isExempt = false) (h : n.isNegative = true) (hk : 1 ≤ k)
    (hk' : k < 10000) : (n.standIn k).compare (.integer 0) = .lt ↔
      n.toBinary64.abs.toCents.isZero = false ∧ (jitter n.toBinary64.abs k).isFinite = true := by
  obtain ⟨hunsigned, hlow, hfinite⟩ := abs_spec hexempt
  obtain ⟨hcents, hcentsf⟩ := unsigned_toCents hunsigned hfinite
  have hcentslt : n.toBinary64.abs.toCents.code < infinityCode := of_decide_eq_true hcentsf
  rw [compare_standIn_of_neg hexempt h hk, (place_le_jitter hlow hfinite hk).1.compare_eq hcents,
    compare_lt_iff_lt]
  constructor
  · intro hlt
    exact ⟨beq_false_of_ne (by omega), decide_eq_true (hlt.trans hcentslt)⟩
  · rintro ⟨hzero, hjitter⟩
    have hsize := jitter_lt_cents hlow hfinite hk hk' hjitter (ne_of_beq_false hzero)
    by_contra hge
    exact hsize.not_ge (size_mono (Nat.le_of_not_lt hge))

/-- Integers, and doubles that are neither next to zero nor huge, have cents and a finite jitter. -/
theorem compare_standIn_lt (hexempt : n.isExempt = false) (h : n.isNegative = true) (hk : 1 ≤ k)
    (hk' : k < 10000) (hsize : n.isInteger = true ∨
      51 / 10000 ≤ n.toBinary64.size ∧ n.toBinary64.size < 2 ^ 960) :
    (n.standIn k).compare (.integer 0) = .lt := by
  have hbounds : 51 / 10000 ≤ n.toBinary64.size ∧ n.isModerate = true := by
    cases n with
    | integer m =>
      simp only [isExempt, Bool.or_eq_false_iff, decide_eq_false_iff_not, Nat.not_lt] at hexempt
      have hone : Binary64.one ≤ (integer m).toBinary64.magnitude :=
        one_le_magnitude_round _ (show 1 ≤ m.toInt.natAbs by omega)
      exact ⟨le_trans (by norm_num) (one_le_size hone), rfl⟩
    | double x =>
      obtain ⟨hlow, hhigh⟩ := hsize.resolve_left Bool.false_ne_true
      refine ⟨hlow, isModerate_double.mpr ?_⟩
      rw [toBinary64, size, div_lt_iff₀ one_pos_rat] at hhigh
      exact_mod_cast hhigh
  obtain ⟨hlow, hmoderate⟩ := hbounds
  have habs := magnitude_abs n.toBinary64
  refine (compare_standIn_lt_iff hexempt h hk hk').mpr ⟨beq_false_of_ne fun hzero => ?_, ?_⟩
  · have hcents := cents_le_toCents (x := n.toBinary64.abs) (c := 1) (by decide) (by
      rw [size, habs, ← size]
      push_cast
      linarith)
    rw [size_of_code hzero, codeMagnitude_zero] at hcents
    norm_num at hcents
  · exact isFinite_of_code_le (jitter_code_le (habs ▸ low_of_isExempt hexempt)
      (habs ▸ magnitude_lt_of_isModerate hmoderate) (hk'.le.trans (by decide))) (by decide)

end Number

/-! ## Sessions -/

/-- What sessions make of the signs of numbers.

A number that is not kept has a stand-in with the ordinal of the number, which is not 0 unless at least
`2 ^ 32` different numbers of the session have stand-ins. If it is not, a number above zero has a
stand-in above zero, and the stand-in of a number below zero lies to zero as its jitter does to its
cents. So up to the ordinal 9999 it lies below zero just if the number has any cents and the jitter is
finite, as is the case for integers and for doubles from 0.0051 up to below `2 ^ 960`. -/
theorem obfuscateSession_sign {trees : List Tree} {i : Nat} {n : Number}
    (hn : (trees.flatMap Tree.numbers)[i]? = some n) (hexempt : n.isExempt = false) :
    ∃ r, ((obfuscateSession trees).flatMap Tree.numbers)[i]? = some r ∧
      ((sessionLedger trees).numbers.length < 2 ^ 32 → 0 < sessionOrdinal trees n) ∧
      (0 < sessionOrdinal trees n →
        (n.compare (.integer 0) = .gt → r.compare (.integer 0) = .gt) ∧
        (n.compare (.integer 0) = .lt → r.compare (.integer 0) =
          (Number.jitter n.toBinary64.abs (sessionOrdinal trees n)).compare
            n.toBinary64.abs.toCents) ∧
        (n.compare (.integer 0) = .lt → sessionOrdinal trees n < 10000 →
          (r.compare (.integer 0) = .lt ↔ n.toBinary64.abs.toCents.isZero = false ∧
            (Number.jitter n.toBinary64.abs (sessionOrdinal trees n)).isFinite = true) ∧
          (n.isInteger = true ∨ 51 / 10000 ≤ n.toBinary64.size ∧ n.toBinary64.size < 2 ^ 960 →
            r.compare (.integer 0) = .lt))) := by
  refine ⟨n.standIn (sessionOrdinal trees n), ?_,
    fun hfew => sessionOrdinal_pos hfew (List.mem_of_getElem? hn) hexempt, fun hordinal => ?_⟩
  · rw [getElem?_obfuscateSession hn]
    exact congrArg some (Ledger.hideNumber_fst hexempt _)
  · rw [Number.compare_zero hexempt]
    cases hsign : n.isNegative with
    | true =>
      exact ⟨nofun, fun _ => Number.compare_standIn_of_neg hexempt hsign hordinal, fun _ hfew =>
        ⟨Number.compare_standIn_lt_iff hexempt hsign hordinal hfew,
          Number.compare_standIn_lt hexempt hsign hordinal hfew⟩⟩
    | false =>
      exact ⟨fun _ => Number.compare_standIn_of_pos hexempt hsign hordinal, nofun, nofun⟩

/-- Minus five thousand in one tree, and one thousandth in the next. -/
def debtSession : List Tree := [
  .scalar (.literal (.number (.integer (-5000)))),
  .scalar (.literal (.number (.double ⟨0x3F50624DD2F1A9FC⟩)))]

theorem obfuscateSession_sign_debt :
    ∃ r s, ((obfuscateSession debtSession).flatMap Tree.numbers)[0]? = some r ∧
      r.compare (.integer 0) = .lt ∧
      ((obfuscateSession debtSession).flatMap Tree.numbers)[1]? = some s ∧
      s.compare (.integer 0) = .gt := by
  have hfew : (sessionLedger debtSession).numbers.length < 2 ^ 32 := by decide +kernel
  obtain ⟨r, hr, hfirst, hnegative⟩ := @obfuscateSession_sign debtSession 0 (.integer (-5000)) rfl
    (by decide)
  obtain ⟨s, hs, hsecond, hpositive⟩ := @obfuscateSession_sign debtSession 1
    (.double ⟨0x3F50624DD2F1A9FC⟩) rfl (by decide)
  obtain ⟨-, -, hbelow⟩ := hnegative (hfirst hfew)
  exact ⟨r, s, hr, (hbelow (by decide) (by decide +kernel)).2 (.inl rfl), hs,
    (hpositive (hsecond hfew)).1 (by decide)⟩

/-- Minus one thousandth. -/
def thousandthSession : List Tree := [.scalar (.literal (.number (.double ⟨0xBF50624DD2F1A9FC⟩)))]

/-- Its cents are zero, so its stand-in is the jitter alone and lies above zero. -/
theorem obfuscateSession_sign_lost : ∃ n r, thousandthSession.flatMap Tree.numbers = [n] ∧
    n.isExempt = false ∧ n.compare (.integer 0) = .lt ∧ sessionOrdinal thousandthSession n = 1 ∧
    (obfuscateSession thousandthSession).flatMap Tree.numbers = [r] ∧
    r.compare (.integer 0) = .gt :=
  ⟨.double ⟨0xBF50624DD2F1A9FC⟩, .double ⟨0x3E7AD7F29ABCAF48⟩, rfl, by decide,
    by decide, by decide, by decide +kernel, by decide⟩

end DocQuery
