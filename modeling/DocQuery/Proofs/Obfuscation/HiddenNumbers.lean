import DocQuery.Proofs.Obfuscation.Moved
import DocQuery.Proofs.Obfuscation.ReadBack

/-!
# Which numbers are hidden

A number that has a stand-in is hidden if the stand-in is worth something else.

* `Number.compare_standIn`: the stand-in is worth more from a hundred on, and where cents take nothing
  off.
* `Number.standIn_unique`: of the stand-ins of one number, one at most is worth the number.
* `obfuscate_hides`: the same for the numbers of a query that was accepted.
* `obfuscate_keeps`: below a hundred, the jitter may make up for what cents have taken off.
-/

namespace DocQuery

namespace Number

open Binary64

variable {n : Number} {x r : Binary64} {k : Nat}

/-! ## Values -/

theorem value_of_finite (hx : x.Unsigned) (hfinite : x.isFinite = true) :
    (double x).value = .ofRat x.size := by
  obtain ⟨hnan, hinf⟩ := finite_flags le_rfl (of_decide_eq_true hfinite)
  simp only [value, Binary64.value, hnan, hinf, Bool.false_eq_true, if_false, hx.scaled, size,
    Int.cast_natCast]

theorem value_of_infinite (hx : x.Unsigned) (hinf : ¬ x.isFinite = true) :
    (double x).value = .aboveAll := by
  have hinfinite : x.isInfinite = true := beq_iff_eq.mpr (hx.isInfinite hinf)
  simp only [value, Binary64.value, hx.isNaN, hinfinite, hx.isNegative, Bool.false_eq_true,
    if_false, if_true]

/-- A number that is less than a double without a sign counts in units. -/
theorem lt_value {q : ℚ} (hr : r.Unsigned) (h : q < r.size) : Worth.ofRat q < (double r).value := by
  by_cases hfinite : r.isFinite = true
  · rw [value_of_finite hr hfinite]
    exact Worth.ofRat_lt_ofRat.mpr h
  · rw [value_of_infinite hr hfinite]
    exact Worth.ofRat_lt_aboveAll q

/-! ## Numbers with stand-ins -/

theorem unsigned_of_isPlain (h : n.isPlain = true) :
    n.toBinary64.Unsigned ∧ n.toBinary64.isFinite = true := by
  have hsign := (isNegative_toBinary64 n).trans (isNegative_of_isPlain h)
  cases n with
  | integer m =>
    have hcode := ofInt_code_le_power m
    exact ⟨⟨hcode.trans (by decide), hsign⟩, isFinite_of_code_le hcode (by decide)⟩
  | double x =>
    have hfinite := (Bool.and_eq_true_iff.mp h).1
    exact ⟨⟨(of_decide_eq_true hfinite : x.code < infinityCode).le, hsign⟩, hfinite⟩

theorem standIn_eq (h : n.isPlain = true) (k : Nat) :
    n.standIn k = .double (n.toBinary64.toCents.add (jitter n.toBinary64 k)) := by
  have habs : n.toBinary64.abs = n.toBinary64 := by
    rw [Binary64.abs, ← (unsigned_of_isPlain h).1.isNegative, ofCode_code]
  rw [standIn, habs]

theorem size_lt_of_code {x y : Binary64} (h : x.code < y.code) : x.size < y.size := by
  have hmagnitude : (x.magnitude : ℚ) < y.magnitude := by
    rw [magnitude_eq, magnitude_eq]
    exact_mod_cast codeMagnitude_strictMono h
  exact div_lt_div_of_pos_right hmagnitude one_pos_rat

/-- Doubles without a sign that are worth the same have one code. -/
theorem code_eq_of_value (hr : r.Unsigned) (hx : x.Unsigned) (hfinite : x.isFinite = true)
    (h : (double r).value = (double x).value) : r.code = x.code := by
  rw [value_of_finite hx hfinite] at h
  rcases Nat.lt_trichotomy r.code x.code with hlt | heq | hlt
  · have hrfinite : r.isFinite = true := decide_eq_true (hlt.trans (of_decide_eq_true hfinite))
    rw [value_of_finite hr hrfinite] at h
    exact absurd h (Worth.ofRat_lt_ofRat.mpr (size_lt_of_code hlt)).ne
  · exact heq
  · exact absurd h (lt_value hr (size_lt_of_code hlt)).ne'

/-- A whole number lies below the code behind its double. -/
theorem natAbs_lt_size {m : Int} (hroom : (Binary64.ofInt m).code + 1 ≤ infinityCode)
    (h : (Binary64.ofInt m).code + 1 ≤ r.code) : (m.natAbs : ℚ) < r.size := by
  have hlt : m.natAbs * Binary64.one < codeMagnitude ((Binary64.ofInt m).code + 1) := by
    by_contra hge
    have hle : _ ≤ roundedCode (m.natAbs * Binary64.one) 1 :=
      le_roundedCode Nat.one_pos (by rw [Nat.mul_one]; exact Nat.le_of_not_lt hge) hroom
    rw [Binary64.ofInt, code_round] at hle
    omega
  have hmagnitude : m.natAbs * Binary64.one < r.magnitude := by
    rw [magnitude_eq]
    exact hlt.trans_le (codeMagnitude_strictMono.monotone h)
  rw [size, lt_div_iff₀ one_pos_rat]
  exact_mod_cast hmagnitude

/-- A double of a code one further is worth more than the number. -/
theorem value_lt_of_code (hplain : n.isPlain = true) (hr : r.Unsigned)
    (h : n.toBinary64.code + 1 ≤ r.code) : n.value < (double r).value := by
  obtain ⟨hunsigned, hfinite⟩ := unsigned_of_isPlain hplain
  cases n with
  | integer m =>
    have hroom : (Binary64.ofInt m.toInt).code + 1 ≤ infinityCode :=
      (Nat.succ_le_succ (ofInt_code_le_power m)).trans (by decide)
    have habs : ((m.toInt : Int) : ℚ) ≤ m.toInt.natAbs := by
      rw [Nat.cast_natAbs, Int.cast_abs]
      exact le_abs_self _
    exact lt_value hr (habs.trans_lt (natAbs_lt_size hroom h))
  | double x =>
    have hvalue : (double x).value = .ofRat x.size := value_of_finite hunsigned hfinite
    rw [hvalue]
    exact lt_value hr (size_lt_of_code h)

/-- A sum that lies far enough above the double is worth more than the number. -/
theorem compare_standIn_of_place (hplain : n.isPlain = true) (hexempt : n.isExempt = false)
    (hk : 1 ≤ k) (h : n.toBinary64.magnitude + 2 ^ (n.toBinary64.leadingPlace - 52) ≤
      n.toBinary64.toCents.magnitude + (jitter n.toBinary64 k).magnitude) :
    (n.standIn k).compare n = .gt := by
  obtain ⟨hunsigned, hfinite⟩ := unsigned_of_isPlain hplain
  have hlow := low_of_isExempt hexempt
  have hcents := (unsigned_toCents hunsigned hfinite).1
  have hjitter := (place_le_jitter hlow hfinite hk).1
  rw [compare_eq_cmp, cmp_eq_gt_iff, standIn_eq hplain]
  exact value_lt_of_code hplain (unsigned_add hcents hjitter)
    (succ_le_code_add hcents hjitter hlow hfinite h)

/-- A number from a hundred on is a double from a hundred on. -/
theorem hundred_le_magnitude (hplain : n.isPlain = true) (h : (integer 100).compare n ≠ .gt) :
    100 * Binary64.one ≤ n.toBinary64.magnitude := by
  obtain ⟨hunsigned, hfinite⟩ := unsigned_of_isPlain hplain
  have hvalue : Worth.ofRat 100 ≤ n.value := by
    rw [compare_eq_cmp, Ne, cmp_eq_gt_iff, not_lt] at h
    exact h
  cases n with
  | integer m =>
    have hm : 100 ≤ m.toInt.natAbs := by
      by_contra hlt
      have hless : (m.toInt : ℚ) < 100 := by exact_mod_cast (show m.toInt < 100 by omega)
      exact hvalue.not_gt (Worth.ofRat_lt_ofRat.mpr hless)
    have hhundred := (magnitude_ofNat (show 100 < 2 ^ 53 by decide)).2
    rw [← hhundred]
    refine magnitude_mono ?_
    rw [toBinary64, Binary64.ofNat, Binary64.ofInt, code_round, code_round]
    exact roundedCode_mono Nat.one_pos (Nat.mul_le_mul_right _ hm)
  | double x =>
    have hx : (double x).value = .ofRat x.size := value_of_finite hunsigned hfinite
    rw [hx] at hvalue
    have hsize : (100 : ℚ) ≤ x.size := le_of_not_gt fun hlt =>
      hvalue.not_gt (Worth.ofRat_lt_ofRat.mpr hlt)
    rw [size, le_div_iff₀ one_pos_rat] at hsize
    exact_mod_cast hsize

theorem code_le_of_compare {x y : Binary64} (hx : x.Unsigned) (hy : y.Unsigned)
    (h : x.compare y ≠ .lt) : y.code ≤ x.code := by
  rw [hx.compare_eq hy, Ne, compare_lt_iff_lt] at h
  exact Nat.le_of_not_lt h

/-- A whole number that has a stand-in is a hundred or more. -/
theorem hundred_le_of_integer {m : Int64} (hplain : (integer m).isPlain = true)
    (hexempt : (integer m).isExempt = false) : (integer 100).compare (integer m) ≠ .gt := by
  have hm : 0 ≤ m.toInt := of_decide_eq_true hplain
  simp only [isExempt, Bool.or_eq_false_iff, decide_eq_false_iff_not, Nat.not_lt] at hexempt
  have hhundred : (100 : Int64).toInt = 100 := by decide
  rw [compare, Ne, compare_gt_iff_gt]
  omega

/-- The stand-in is worth more if the number is a whole one or lies from a hundred on, or if cents take
nothing off. -/
theorem compare_standIn (hplain : n.isPlain = true) (hexempt : n.isExempt = false) (hk : 1 ≤ k)
    (h : (∃ m, n = .integer m) ∨ (integer 100).compare n ≠ .gt ∨
      n.toBinary64.toCents.compare n.toBinary64 ≠ .lt) : (n.standIn k).compare n = .gt := by
  obtain ⟨hunsigned, hfinite⟩ := unsigned_of_isPlain hplain
  refine compare_standIn_of_place hplain hexempt hk ?_
  rcases h with ⟨m, rfl⟩ | h | h
  · exact place_le_of_hundred (hundred_le_magnitude hplain (hundred_le_of_integer hplain hexempt))
      hfinite hk
  · exact place_le_of_hundred (hundred_le_magnitude hplain h) hfinite hk
  · exact place_le_of_cents (low_of_isExempt hexempt) hfinite hk
      (code_le_of_compare (unsigned_toCents hunsigned hfinite).1 hunsigned h)

/-- Of the stand-ins of one number, one at most is worth the number. -/
theorem standIn_unique (hplain : n.isPlain = true) (hexempt : n.isExempt = false) {j : Nat}
    (hj : 1 ≤ j) (hk : 1 ≤ k) (h : (n.standIn j).compare n = .eq)
    (h' : (n.standIn k).compare n = .eq) : j = k := by
  obtain ⟨hunsigned, hfinite⟩ := unsigned_of_isPlain hplain
  have hlow := low_of_isExempt hexempt
  cases n with
  | integer m =>
    cases h.symm.trans (compare_standIn hplain hexempt hj (.inl ⟨m, rfl⟩))
  | double x =>
    have hcode {i : Nat} (hi : 1 ≤ i) (h : ((double x).standIn i).compare (double x) = .eq) :
        (x.toCents.add (jitter x i)).code = x.code := by
      rw [compare_eq_cmp, cmp_eq_eq_iff, standIn_eq hplain] at h
      exact code_eq_of_value (unsigned_add (unsigned_toCents hunsigned hfinite).1
        (place_le_jitter hlow hfinite hi).1) hunsigned hfinite h
    by_contra hne
    rcases Nat.lt_or_gt_of_ne hne with hlt | hlt
    · exact jitter_unique (unsigned_toCents hunsigned hfinite).1 hlow hfinite hj hlt
        (hcode hj h) (hcode hk h')
    · exact jitter_unique (unsigned_toCents hunsigned hfinite).1 hlow hfinite hk hlt
        (hcode hk h') (hcode hj h)

end Number

/-! ## Queries -/

/-- The ledger that lists what has stand-ins in a query. -/
def Query.ledger (q : Query) : Ledger := Ledger.empty.recordAll q.leaves

/-- The ordinal of a number among those of the query that get stand-ins. -/
def Query.ordinal (q : Query) (n : Number) : Nat :=
  Ledger.ordinal (q.ledger.numbers.findIdx (·.same n))

/-- The counter shows 0 in queries of at least `2 ^ 32` different numbers only. -/
theorem Query.ordinal_pos {q : Query} {n : Number} (hfew : q.ledger.numbers.length < 2 ^ 32)
    (hn : n ∈ q.numbers) (hexempt : n.isExempt = false) : 0 < q.ordinal n :=
  Ledger.ordinal_findIdx_pos hfew
    (Ledger.exists_same_recordAll hexempt (Query.mem_numbers.mp hn) .empty)

/-- The numbers of a query that was accepted, and their stand-ins.

A number that is not kept has the stand-in of its ordinal. The ordinal is not 0, unless at least
`2 ^ 32` different numbers of the query have stand-ins. If it is not, the stand-in is worth more if the
number is a whole number or lies from a hundred on, or if rounding to cents takes nothing off. Any other
number has at most one ordinal at which its stand-in is worth the same, so it is hidden unless its own
ordinal is that one. -/
theorem obfuscate_hides {text : String} {limit : Nat} {q : Query}
    (h : Query.parse text limit = .ok q) {i : Nat} {n : Number} (hn : q.numbers[i]? = some n)
    (hexempt : n.isExempt = false) :
    q.obfuscate.numbers[i]? = some (n.standIn (q.ordinal n)) ∧
    (q.ledger.numbers.length < 2 ^ 32 → 0 < q.ordinal n) ∧
    (0 < q.ordinal n →
      ((∃ m, n = .integer m) ∨ (Number.integer 100).compare n ≠ .gt ∨
          n.toBinary64.toCents.compare n.toBinary64 ≠ .lt →
        (n.standIn (q.ordinal n)).compare n = .gt) ∧
      ((n.standIn (q.ordinal n)).compare n = .eq →
        ∀ k, 1 ≤ k → (n.standIn k).compare n = .eq → k = q.ordinal n)) := by
  have hmem := List.mem_of_getElem? hn
  have hplain : n.isPlain = true :=
    Query.isWellFormed_leaf (Query.isWellFormed_of_parse h) (Query.mem_numbers.mp hmem)
  refine ⟨?_, fun hfew => Query.ordinal_pos hfew hmem hexempt, fun hordinal =>
    ⟨n.compare_standIn hplain hexempt hordinal,
      fun hsame k hk hsame' => n.standIn_unique hplain hexempt hk hordinal hsame' hsame⟩⟩
  rw [Query.obfuscate_eq, Query.numbers_relabel, List.getElem?_map, hn]
  exact congrArg some (Ledger.hideNumber_fst hexempt _)

/-- Two numbers of one text: the stand-in of ten and a thousandth is the number, as it would be at no
other ordinal, and the other number is worth less than its stand-in. -/
theorem obfuscate_hides_sum : ∃ q, Query.parse "SELECT VALUE 10.001 + 250" 64 = .ok q ∧
    (∃ r, q.obfuscate.numbers[1]? = some r ∧ r.compare (.integer 250) = .gt) ∧
    ∀ k, 1 ≤ k → ((Number.double ⟨0x40240083126E978D⟩).standIn k).compare
      (.double ⟨0x40240083126E978D⟩) = .eq → k = 1 := by
  obtain ⟨q, hq, hnumbers⟩ := exists_of_map
    (show (Query.parse "SELECT VALUE 10.001 + 250" 64).toOption.map (fun q =>
      (q.numbers, q.ordinal (.double ⟨0x40240083126E978D⟩), q.ledger.numbers.length)) =
      some ([.double ⟨0x40240083126E978D⟩, .integer 250], 1, 2) by decide +kernel)
  simp only [Prod.mk.injEq] at hnumbers
  obtain ⟨hlist, hordinal, hfew⟩ := hnumbers
  have hexempt : (Number.double ⟨0x40240083126E978D⟩).isExempt = false := by decide
  have hkept : ((Number.double ⟨0x40240083126E978D⟩).standIn 1).compare
      (.double ⟨0x40240083126E978D⟩) = .eq := by decide +kernel
  obtain ⟨-, -, honly⟩ := obfuscate_hides hq (i := 0) (by rw [hlist]; rfl) hexempt
  obtain ⟨hstandIn, hpos, hmore⟩ := obfuscate_hides hq (i := 1) (n := .integer 250)
    (by rw [hlist]; rfl) (by decide)
  rw [hordinal] at honly
  exact ⟨q, hq, ⟨_, hstandIn, (hmore (hpos (by omega))).1 (.inl ⟨250, rfl⟩)⟩,
    (honly Nat.one_pos).2 hkept⟩

/-- Ten and a thousandth: cents take the thousandth off and the jitter of the first number puts it back,
so the stand-in is the number, which is not one of those that are kept. -/
theorem obfuscate_keeps : ∃ q, Query.parse "SELECT VALUE 10.001" 64 = .ok q ∧
    ∃ n r, q.numbers = [n] ∧ n.isExempt = false ∧ q.obfuscate.numbers = [r] ∧ r.compare n = .eq := by
  obtain ⟨q, hq, hnumbers⟩ := exists_of_map
    (show (Query.parse "SELECT VALUE 10.001" 64).toOption.map (fun q =>
      (q.numbers, q.obfuscate.numbers)) =
      some ([.double ⟨0x40240083126E978D⟩], [.double ⟨0x40240083126E978D⟩]) by decide +kernel)
  simp only [Prod.mk.injEq] at hnumbers
  exact ⟨q, hq, _, _, hnumbers.1, by decide, hnumbers.2, by decide⟩

end DocQuery
