import DocQuery.Proofs.Number.NormalForm
import DocQuery.Proofs.Obfuscation.Moved
import DocQuery.Proofs.Obfuscation.ReadBack

/-!
# Stand-ins of equal numbers

A ledger finds a number at the place of any equal one, and stand-ins are made of doubles. So equal
numbers have one stand-in, if both have any.

* `Number.toBinary64_eq_of_same`: equal numbers that have stand-ins are one double.
* `Number.isExempt_eq_of_same`: equal numbers are kept together, but for the least integer. It is kept
  as an integer, and has stand-ins as a double.
* `sessionOrdinal_pos`: the counter shows 0 in sessions of at least `2 ^ 32` numbers only.
* `obfuscateSession_equal`: what that means for sessions.
-/

namespace DocQuery

open Binary64

namespace Binary64

variable {x y j : Binary64}

/-! ## Equal doubles -/

/-- Doubles that compare equal have one code, if one of them is a number. -/
theorem code_eq_of_compare (hnan : x.isNaN = false) (h : x.compare y = .eq) : x.code = y.code := by
  have hrank : x.rank = y.rank := by
    cases hy : y.isNaN with
    | true => simp [compare, hnan, hy] at h
    | false => exact compare_eq_iff_eq.mp (by simpa only [compare, hnan, hy] using h)
  have hnatAbs (z : Binary64) : z.rank.natAbs = z.code := by
    unfold rank
    split <;> simp
  rw [← hnatAbs x, hrank, hnatAbs y]

/-- Doubles that compare equal are one double, but for zeros and NaNs. -/
theorem eq_of_compare (hnan : x.isNaN = false) (hpos : 0 < x.code) (h : x.compare y = .eq) : x = y := by
  have hcode := code_eq_of_compare hnan h
  have hy : y.isNaN = false := by rw [← hnan, isNaN, isNaN, hcode]
  have hrank : x.rank = y.rank := compare_eq_iff_eq.mp (by simpa only [compare, hnan, hy] using h)
  have hsign : x.isNegative = y.isNegative := by
    unfold rank at hrank
    cases hx : x.isNegative <;> cases hy : y.isNegative <;>
      simp only [hx, hy, Bool.false_eq_true, if_true, if_false] at hrank ⊢ <;> omega
  rw [← ofCode_code x, ← ofCode_code y, hsign, hcode]

/-- A whole number that is worth a double is rounded to that double. -/
theorem ofInt_eq {m : Int} (hm : m ≠ 0) (hfinite : x.isFinite = true) (h : x.scaled = m * one) :
    ofInt m = x := by
  have hone := one_pos
  have hmagnitude : m.natAbs * one = x.magnitude := by
    rw [← natAbs_scaled, h, Int.natAbs_mul, Int.natAbs_natCast]
  have hsign : decide (m < 0) = x.isNegative := by
    rcases lt_or_gt_of_ne hm with hlt | hgt
    · have hscaled : x.scaled < 0 := h ▸ Int.mul_neg_of_neg_of_pos hlt (by exact_mod_cast hone)
      rw [decide_eq_true hlt]
      by_contra hx
      rw [scaled, if_neg (Ne.symm hx)] at hscaled
      omega
    · have hscaled : 0 < x.scaled := h ▸ Int.mul_pos hgt (by exact_mod_cast hone)
      rw [decide_eq_false hgt.not_gt]
      by_contra hx
      rw [scaled, if_pos (by simpa using Ne.symm hx)] at hscaled
      omega
  have hcode : x.code < infinityCode := of_decide_eq_true hfinite
  rw [ofInt, round, hmagnitude, magnitude_eq,
    roundedCode_codeMagnitude Nat.one_pos (Nat.mul_one _).symm hcode.le, hsign, ofCode_code]

/-! ## Sums that are nearer to zero -/

/-- What takes a double below zero at least to the next code is seen in the sum. -/
theorem add_ne_self (hfinite : x.isFinite = true) (hneg : x.isNegative = true) (hpos : 0 < x.code)
    (hj : j.Unsigned) (h : x.magnitude ≤ codeMagnitude (x.code - 1) + j.magnitude) :
    x.add j ≠ x := by
  intro heq
  obtain ⟨hnan, hinf⟩ := finite_flags le_rfl (of_decide_eq_true hfinite)
  simp only [add, hnan, hinf, hj.isNaN, hj.isNegative, hneg, Bool.or_self, Bool.and_false,
    Bool.false_eq_true, if_false] at heq
  split at heq
  · rw [← heq, hj.isNegative] at hneg
    cases hneg
  · have hsum : x.scaled + j.scaled = (j.magnitude : Int) - x.magnitude := by
      rw [hj.scaled, scaled, if_pos hneg]
      omega
    rw [hsum] at heq
    split at heq
    · rw [← heq, code_ofCode (by decide)] at hpos
      exact hpos.false
    · have hsign := congrArg isNegative heq
      have hcode := congrArg code heq
      rw [isNegative_round, hneg, decide_eq_true_iff] at hsign
      rw [code_round] at hcode
      have hle := roundedCode_le (n := ((j.magnitude : Int) - x.magnitude).natAbs)
        (c := x.code - 1) Nat.one_pos (by omega)
      omega

end Binary64

/-! ## Equal numbers -/

namespace Number

variable {a b : Number} {m : Int64} {x : Binary64}

theorem same_comm (a b : Number) : a.same b = b.same a := by
  rw [Bool.eq_iff_iff, same_iff_value_eq, same_iff_value_eq, eq_comm]

theorem same_congr (h : a.same b = true) (c : Number) : c.same a = c.same b := by
  rw [Bool.eq_iff_iff, same_iff_value_eq, same_iff_value_eq, same_iff_value_eq.mp h]

/-- An integer and a double that are equal: the double is finite and counts the units of the integer. -/
theorem scaled_of_same (h : (integer m).same (double x) = true) :
    x.isFinite = true ∧ x.scaled = m.toInt * Binary64.one := by
  have hvalue : Worth.ofRat m.toInt = x.value := same_iff_value_eq.mp h
  have hnan : x.isNaN = false := by
    by_contra hnan
    rw [Binary64.value, if_pos (by simpa using hnan)] at hvalue
    exact absurd hvalue (Worth.bot_lt_belowAll.trans (Worth.belowAll_lt_ofRat _)).ne'
  have hinf : x.isInfinite = false := by
    by_contra hinf
    rw [Binary64.value, if_neg (by simp [hnan]), if_pos (by simpa using hinf)] at hvalue
    split at hvalue
    · exact absurd hvalue (Worth.belowAll_lt_ofRat _).ne'
    · exact absurd hvalue (Worth.ofRat_lt_aboveAll _).ne
  refine ⟨?_, ?_⟩
  · have hle : ¬ infinityCode < x.code := of_decide_eq_false hnan
    have hne : x.code ≠ infinityCode := beq_eq_false_iff_ne.mp hinf
    exact decide_eq_true (by omega)
  · rw [Binary64.value, hnan, hinf, if_neg Bool.false_ne_true, if_neg Bool.false_ne_true] at hvalue
    have hone : (Binary64.one : ℚ) ≠ 0 := one_pos_rat.ne'
    have hratio : (m.toInt : ℚ) = x.scaled / Binary64.one :=
      WithTop.coe_injective (WithBot.coe_injective (WithBot.coe_injective hvalue))
    rw [eq_div_iff hone] at hratio
    exact_mod_cast hratio.symm

/-- Doubles of one code are kept together. -/
theorem isExempt_double {x y : Binary64} (h : x.code = y.code) :
    (double x).isExempt = (double y).isExempt := by
  simp only [isExempt, isFinite, isWhole, magnitude_eq, h]

/-- An integer and the double that equals it are kept together, but for the least integer. -/
theorem isExempt_double_of_same (h : (integer m).same (double x) = true) :
    (double x).isExempt = decide (m.toInt.natAbs < 100) := by
  obtain ⟨hfinite, hscaled⟩ := scaled_of_same h
  have hone := Binary64.one_pos
  have hmagnitude : x.magnitude = m.toInt.natAbs * Binary64.one := by
    rw [← natAbs_scaled, hscaled, Int.natAbs_mul, Int.natAbs_natCast]
  have hwhole : x.isWhole = true := by
    rw [isWhole, hfinite, hmagnitude, Nat.mul_mod_left]
    rfl
  have hlow : 1 <<< (1074 - 52) < Binary64.one := by decide
  have hsmall : m.toInt.natAbs * Binary64.one ≤ 1 <<< (1074 - 52) → m.toInt.natAbs = 0 := by
    intro hle
    by_contra hne
    exact absurd ((Nat.le_mul_of_pos_left _ (Nat.pos_of_ne_zero hne)).trans hle) hlow.not_ge
  simp only [isExempt, hfinite, hwhole, hmagnitude, Bool.not_true, Bool.false_or, Bool.and_true]
  rw [Bool.eq_iff_iff]
  simp only [Bool.or_eq_true, decide_eq_true_eq, Nat.mul_lt_mul_right hone]
  omega

/-- Equal numbers are kept together, unless one is the least integer and the other is a double. -/
theorem isExempt_eq_of_same (h : a.same b = true)
    (hkind : a.isInteger = b.isInteger ∨ a.same (integer Int64.minValue) = false) :
    a.isExempt = b.isExempt := by
  have hmixed {m : Int64} {x : Binary64} (h : (integer m).same (double x) = true)
      (hm : m ≠ Int64.minValue) : (integer m).isExempt = (double x).isExempt := by
    rw [isExempt_double_of_same h, isExempt, beq_false_of_ne hm, Bool.false_or]
  cases a with
  | integer m =>
    cases b with
    | integer n => rw [same, compare, beq_iff_eq, compare_eq_iff_eq, Int64.toInt_inj] at h; rw [h]
    | double y =>
      refine hmixed h fun hm => ?_
      rw [hm, same_self] at hkind
      simp [isInteger] at hkind
  | double x =>
    cases b with
    | integer n =>
      rw [same_comm] at h
      refine (hmixed h fun hn => ?_).symm
      rw [hn, same_comm] at h
      simp [isInteger, h] at hkind
    | double y =>
      rw [same, beq_iff_eq] at h
      cases hx : x.isNaN with
      | false => exact isExempt_double (code_eq_of_compare hx h)
      | true =>
        have hy : y.isNaN = true := by
          cases hy : y.isNaN with
          | true => rfl
          | false => simp [compare, Binary64.compare, hx, hy] at h
        have hexempt {z : Binary64} (hz : z.isNaN = true) : (double z).isExempt = true := by
          have hcode : infinityCode < z.code := of_decide_eq_true hz
          have hinfinite : z.isFinite = false := decide_eq_false (by omega)
          rw [isExempt, hinfinite]
          rfl
        rw [hexempt hx, hexempt hy]

/-- Equal numbers that have stand-ins are one double. -/
theorem toBinary64_eq_of_same (ha : a.isExempt = false) (hb : b.isExempt = false)
    (h : a.same b = true) : a.toBinary64 = b.toBinary64 := by
  have hmixed {m : Int64} {x : Binary64} (hm : (integer m).isExempt = false)
      (h : (integer m).same (double x) = true) : (integer m).toBinary64 = x := by
    obtain ⟨hfinite, hscaled⟩ := scaled_of_same h
    refine ofInt_eq (fun hzero => ?_) hfinite hscaled
    rw [isExempt, hzero, Bool.or_eq_false_iff] at hm
    exact absurd hm.2 (by decide)
  cases a with
  | integer m =>
    cases b with
    | integer n => rw [same, compare, beq_iff_eq, compare_eq_iff_eq, Int64.toInt_inj] at h; rw [h]
    | double y => exact hmixed ha h
  | double x =>
    cases b with
    | integer n => exact (hmixed hb (same_comm _ _ ▸ h)).symm
    | double y =>
      have hpos : 0 < x.code := Nat.pos_of_ne_zero fun hzero =>
        significand_ne_zero (low_of_isExempt ha) (by rw [toBinary64, significand_eq, hzero]; rfl)
      refine eq_of_compare ?_ hpos (beq_iff_eq.mp h)
      simp only [isExempt, Bool.or_eq_false_iff, Bool.not_eq_false'] at ha
      exact (finite_flags le_rfl (of_decide_eq_true ha.1.1)).1

/-- The double that equals the least integer. -/
def leastDouble : Binary64 := ⟨0xC3E0000000000000⟩

/-- The jitter moves the double that equals the least integer. -/
theorem not_same_standIn_leastDouble {k : Nat} (hk : 1 ≤ k) :
    ((double leastDouble).standIn k).same (double leastDouble) = false := by
  have hcents : leastDouble.toCents = leastDouble := by decide +kernel
  obtain ⟨hunsigned, hjitter⟩ := place_le_jitter (x := leastDouble.abs) (by decide +kernel)
    (by decide) hk
  have hplace : leastDouble.magnitude ≤
      codeMagnitude (leastDouble.code - 1) + 2 ^ (leastDouble.abs.leadingPlace - 19) := by
    decide +kernel
  have hne : leastDouble.add (jitter leastDouble.abs k) ≠ leastDouble := by
    refine add_ne_self (by decide) (by decide) (by decide) hunsigned (le_trans hplace ?_)
    exact Nat.add_le_add_left hjitter _
  rw [← Bool.not_eq_true, same_comm, standIn, toBinary64, hcents, same, beq_iff_eq, compare]
  exact fun h => hne (eq_of_compare (by decide) (by decide) h).symm

/-- Without a jitter it stays, and it is worth a whole number of cents. -/
theorem same_standIn_leastDouble {k : Nat} :
    ((double leastDouble).standIn k).same (double leastDouble) = true ↔ k = 0 := by
  rcases Nat.eq_zero_or_pos k with rfl | hk
  · exact iff_of_true (by decide +kernel) rfl
  · exact iff_of_false (Bool.eq_false_iff.mp (not_same_standIn_leastDouble hk)) hk.ne'

/-- The integer and the double that equal the least integer. -/
theorem least_cases (h : a.same b = true) (hkind : a.isInteger ≠ b.isInteger)
    (hleast : a.same (integer Int64.minValue) = true) :
    a = integer Int64.minValue ∧ b = double leastDouble ∨
      a = double leastDouble ∧ b = integer Int64.minValue := by
  have hinteger {m : Int64} (h : (integer m).same (integer Int64.minValue) = true) :
      m = Int64.minValue := by
    rwa [same, compare, beq_iff_eq, compare_eq_iff_eq, Int64.toInt_inj] at h
  have hdouble {x : Binary64} (h : (double x).same (integer Int64.minValue) = true) :
      x = leastDouble := by
    have hown : (double leastDouble).same (integer Int64.minValue) = true := by decide +kernel
    rw [same_comm] at h
    rw [same_congr h] at hown
    exact (eq_of_compare (by decide) (by decide) (beq_iff_eq.mp hown)).symm
  have hother : b.same (integer Int64.minValue) = true := by
    rw [same_comm, ← same_congr h, same_comm]
    exact hleast
  cases a with
  | integer m =>
    cases b with
    | integer n => exact absurd rfl hkind
    | double y => exact .inl ⟨congrArg integer (hinteger hleast), congrArg double (hdouble hother)⟩
  | double x =>
    cases b with
    | integer n => exact .inr ⟨congrArg double (hdouble hleast), congrArg integer (hinteger hother)⟩
    | double y => exact absurd rfl hkind

theorem isExempt_leastDouble : (double leastDouble).isExempt = false := by decide

end Number

/-! ## Sessions -/

namespace Tree

/-- The numbers of a tree in the order of its text, but for those in counts. -/
def numbers (t : Tree) : List Number := t.leaves.filterMap Leaf.number?

theorem numbers_relabel (ρ : Relabeling) (t : Tree) :
    (t.relabel ρ).numbers = t.numbers.map ρ.number := by
  rw [numbers, leaves_relabel]
  exact filterMap_relabel (Leaf.number?_relabel ρ) t.leaves

end Tree

namespace Ledger

variable {a b : Number}

/-- Equal numbers are found at one place. -/
theorem findIdx_same (h : a.same b = true) (numbers : List Number) :
    numbers.findIdx (·.same a) = numbers.findIdx (·.same b) :=
  congrArg (numbers.findIdx ·) (funext (Number.same_congr h))

/-- Equal numbers have equal stand-ins, or are both kept. -/
theorem same_hideNumber (h : a.same b = true) (hexempt : a.isExempt = b.isExempt) (l : Ledger) :
    (hideNumber a l).1.same (hideNumber b l).1 = true := by
  cases ha : a.isExempt with
  | true =>
    rw [hideNumber_of_isExempt ha, hideNumber_of_isExempt (hexempt ▸ ha)]
    exact h
  | false =>
    have hb : b.isExempt = false := hexempt ▸ ha
    rw [hideNumber_fst ha, hideNumber_fst hb, findIdx_same h, Number.standIn, Number.standIn,
      Number.toBinary64_eq_of_same ha hb h]
    exact Number.same_self _

/-- Equal numbers are not equal afterwards if one is the least integer and the other is the double that
equals it, unless the double's ordinal is 0. -/
theorem same_hideNumber_iff (h : a.same b = true) (l : Ledger) :
    (hideNumber a l).1.same (hideNumber b l).1 = true ↔
      a.isInteger = b.isInteger ∨ a.same (.integer Int64.minValue) = false ∨
        ordinal (l.numbers.findIdx (·.same a)) = 0 := by
  by_cases hkind : a.isInteger = b.isInteger ∨ a.same (.integer Int64.minValue) = false
  · refine iff_of_true ?_ (or_assoc.mp (.inl hkind))
    exact same_hideNumber h (Number.isExempt_eq_of_same h hkind) l
  · rw [← or_assoc, or_iff_right hkind]
    rw [not_or, Bool.not_eq_false] at hkind
    rcases Number.least_cases h hkind.1 hkind.2 with ⟨rfl, rfl⟩ | ⟨rfl, rfl⟩
    · rw [hideNumber_of_isExempt (by decide), hideNumber_fst Number.isExempt_leastDouble,
        Number.same_comm, Number.same_congr h, Number.same_standIn_leastDouble, findIdx_same h]
    · rw [hideNumber_of_isExempt (n := .integer Int64.minValue) (by decide),
        hideNumber_fst Number.isExempt_leastDouble, ← Number.same_congr h,
        Number.same_standIn_leastDouble]

end Ledger

/-- The ordinal of a number in a session: how many of the session's numbers get stand-ins up to the
first that equals it, as a counter of 32 bits shows it. -/
def sessionOrdinal (trees : List Tree) (n : Number) : Nat :=
  Ledger.ordinal ((sessionLedger trees).numbers.findIdx (·.same n))

section

variable {trees : List Tree} {i j : Nat} {a b n : Number}

theorem sessionOrdinal_congr (h : a.same b = true) :
    sessionOrdinal trees a = sessionOrdinal trees b :=
  congrArg Ledger.ordinal (Ledger.findIdx_same h _)

theorem mem_sessionNumbers :
    n ∈ trees.flatMap Tree.numbers ↔ .number n ∈ trees.flatMap Tree.leaves := by
  simp [List.mem_flatMap, Tree.numbers, List.mem_filterMap, Leaf.number?_eq_some]

/-- The counter shows 0 in sessions of at least `2 ^ 32` different numbers only. -/
theorem sessionOrdinal_pos (hfew : (sessionLedger trees).numbers.length < 2 ^ 32)
    (hn : n ∈ trees.flatMap Tree.numbers) (hexempt : n.isExempt = false) :
    0 < sessionOrdinal trees n :=
  Ledger.ordinal_findIdx_pos hfew
    (Ledger.exists_same_recordAll hexempt (mem_sessionNumbers.mp hn) .empty)

/-- A session puts for each number what its ledger has for it. -/
theorem getElem?_obfuscateSession (hn : (trees.flatMap Tree.numbers)[i]? = some n) :
    ((obfuscateSession trees).flatMap Tree.numbers)[i]? =
      some (Ledger.hideNumber n (sessionLedger trees)).1 := by
  have hnumbers (ρ : Relabeling) : (trees.map (Tree.relabel ρ)).flatMap Tree.numbers =
      (trees.flatMap Tree.numbers).map ρ.number := by
    simp only [List.flatMap_map, List.map_flatMap, Tree.numbers_relabel]
  rw [obfuscateSession_eq, hnumbers, List.getElem?_map, hn]
  rfl

/-- What sessions make of equal numbers.

Wherever two numbers of a session are equal, the numbers that stand there afterwards are equal as well,
unless the numbers equal the least integer and one of them is an integer and the other a double. Then
the integer is kept, and the double has a stand-in that is not equal to it, unless the ordinal of the
stand-in is 0. In a session with stand-ins for fewer than `2 ^ 32` different numbers it is not. -/
theorem obfuscateSession_equal (ha : (trees.flatMap Tree.numbers)[i]? = some a)
    (hb : (trees.flatMap Tree.numbers)[j]? = some b) (h : a.compare b = .eq) :
    ∃ r s, ((obfuscateSession trees).flatMap Tree.numbers)[i]? = some r ∧
      ((obfuscateSession trees).flatMap Tree.numbers)[j]? = some s ∧
      (r.compare s = .eq ↔
        a.isInteger = b.isInteger ∨ a.compare (.integer Int64.minValue) ≠ .eq ∨
          sessionOrdinal trees a = 0) ∧
      ((sessionLedger trees).numbers.length < 2 ^ 32 → (r.compare s = .eq ↔
        a.isInteger = b.isInteger ∨ a.compare (.integer Int64.minValue) ≠ .eq)) := by
  have hsame (m n : Number) : m.compare n = .eq ↔ m.same n = true := beq_iff_eq.symm
  rw [hsame] at h
  simp only [hsame, Ne, Bool.not_eq_true]
  have hiff := Ledger.same_hideNumber_iff h (sessionLedger trees)
  refine ⟨_, _, getElem?_obfuscateSession ha, getElem?_obfuscateSession hb, hiff, fun hfew => ?_⟩
  rw [hiff, ← or_assoc, or_iff_left_of_imp]
  -- A counter that shows 0 would have to belong to the double, which is listed.
  intro hzero
  by_contra hkind
  rw [not_or, Bool.not_eq_false] at hkind
  have hpos : 0 < sessionOrdinal trees a := by
    rcases Number.least_cases h hkind.1 hkind.2 with ⟨-, rfl⟩ | ⟨rfl, -⟩
    · rw [sessionOrdinal_congr h]
      exact sessionOrdinal_pos hfew (List.mem_of_getElem? hb) Number.isExempt_leastDouble
    · exact sessionOrdinal_pos hfew (List.mem_of_getElem? ha) Number.isExempt_leastDouble
  exact hpos.ne' hzero

end

/-- Two hundred and fifty in one tree, and behind a seven in the next one, where it is a double. -/
def hundredsSession : List Tree := [
  .scalar (.literal (.number (.integer 250))),
  .scalar (.array [.literal (.number (.integer 7)), .literal (.number (.double ⟨0x406F400000000000⟩))])]

theorem obfuscateSession_equal_hundreds :
    ∃ r s, ((obfuscateSession hundredsSession).flatMap Tree.numbers)[0]? = some r ∧
      ((obfuscateSession hundredsSession).flatMap Tree.numbers)[2]? = some s ∧ r.compare s = .eq := by
  obtain ⟨r, s, hr, hs, -, hequal⟩ := @obfuscateSession_equal hundredsSession 0 2 _ _ rfl rfl
    (by decide +kernel)
  exact ⟨r, s, hr, hs, (hequal (by decide +kernel)).mpr (.inr (by decide))⟩

/-- The least integer, and then the double that equals it. -/
def leastSession : List Tree := [
  .scalar (.literal (.number (.integer Int64.minValue))),
  .scalar (.literal (.number (.double Number.leastDouble)))]

/-- Equal numbers that are not equal afterwards: the first is kept, and the second is moved. -/
theorem obfuscateSession_unequal : ∃ a b r s, leastSession.flatMap Tree.numbers = [a, b] ∧
    a.compare b = .eq ∧ (obfuscateSession leastSession).flatMap Tree.numbers = [r, s] ∧
    r.compare s ≠ .eq :=
  ⟨.integer Int64.minValue, .double Number.leastDouble, .integer Int64.minValue,
    .double ⟨0xC3DFFFE9433BE170⟩, rfl, by decide +kernel, by decide +kernel, by decide +kernel⟩

end DocQuery
