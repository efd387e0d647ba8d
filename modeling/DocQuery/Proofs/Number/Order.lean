import Mathlib.Algebra.Order.Field.Rat
import Mathlib.Data.Int.ConditionallyCompleteOrder
import Mathlib.Order.WithBot
import Mathlib.Order.Compare
import Mathlib.Tactic.FieldSimp
import Mathlib.Tactic.Positivity
import DocQuery.Number.Basic
import DocQuery.Proofs.Number.Rounding

/-!
# The order of numbers is that of their values

* `Number.value`: what a number is worth, without rounding.
* `Number.compare_eq_cmp`: numbers compare as their values do.

Between the two stand keys. The key of an extended form is the code and the extra bits side by side,
with the sign of the double: extended forms compare as their keys do (`Extended.compare_eq`), and the
value grows with the key (`keyMagnitude_strictMono`), since from one key to the next it grows by one
unit of the last extra bit.
-/

namespace DocQuery

/-! ## Values -/

/-- What a number can be worth, in ascending order: nothing (NaN), below all rationals, a rational,
above all rationals. -/
abbrev Worth : Type := WithBot (WithBot (WithTop ℚ))

namespace Worth

def belowAll : Worth := ((⊥ : WithBot (WithTop ℚ)) : Worth)

def ofRat (q : ℚ) : Worth := ((q : WithTop ℚ) : WithBot (WithTop ℚ))

def aboveAll : Worth := (((⊤ : WithTop ℚ) : WithBot (WithTop ℚ)) : Worth)

theorem bot_lt_belowAll : (⊥ : Worth) < belowAll := WithBot.bot_lt_coe _

theorem belowAll_lt_ofRat (q : ℚ) : belowAll < ofRat q :=
  WithBot.coe_lt_coe.mpr (WithBot.bot_lt_coe _)

theorem ofRat_lt_ofRat {p q : ℚ} : ofRat p < ofRat q ↔ p < q :=
  WithBot.coe_lt_coe.trans (WithBot.coe_lt_coe.trans WithTop.coe_lt_coe)

theorem ofRat_lt_aboveAll (q : ℚ) : ofRat q < aboveAll :=
  WithBot.coe_lt_coe.mpr (WithBot.coe_lt_coe.mpr (WithTop.coe_lt_top _))

end Worth

/-- The exact value of a double. Both zeros are worth 0, and every NaN is worth nothing. -/
def Binary64.value (x : Binary64) : Worth :=
  if x.isNaN then ⊥
  else if x.isInfinite then if x.isNegative then .belowAll else .aboveAll
  else .ofRat (x.scaled / Binary64.one)

/-- The exact value of a number. -/
def Number.value : Number → Worth
  | .integer n => .ofRat n.toInt
  | .double x => x.value

/-! ## Keys -/

open Binary64

namespace Extended

/-- An extended form as numbers have it, but for NaN: the extra bits fill their field at most, and
zero has none. -/
structure Proper (a : Extended) : Prop where
  code_le : a.double.code ≤ infinityCode
  extra_lt : a.extra < 2 ^ 16
  zero : a.double.code = 0 → a.extra = 0

/-- Code and extra bits side by side, with the sign of the double. -/
def key (a : Extended) : Int :=
  if a.double.isNegative then -((2 ^ 16 * a.double.code + a.extra : Nat) : Int)
  else (2 ^ 16 * a.double.code + a.extra : Nat)

theorem natAbs_key (a : Extended) : a.key.natAbs = 2 ^ 16 * a.double.code + a.extra := by
  unfold key
  split <;> omega

theorem Proper.isNaN {a : Extended} (h : a.Proper) : a.double.isNaN = false := by
  simpa [Binary64.isNaN] using h.code_le

/-- Extended forms compare as their keys do. -/
theorem compare_eq {a b : Extended} (ha : a.Proper) (hb : b.Proper) :
    a.compare b = Ord.compare a.key b.key := by
  have := ha.extra_lt
  have := hb.extra_lt
  have := ha.zero
  have := hb.zero
  unfold compare Binary64.compare key
  simp only [ha.isNaN, hb.isNaN, Bool.false_or, isZero, beq_iff_eq]
  unfold rank
  generalize a.double.isNegative = s
  generalize b.double.isNegative = t
  rcases lt_trichotomy (if s then -(a.double.code : Int) else a.double.code)
    (if t then -(b.double.code : Int) else b.double.code) with h | h | h
  · rw [compare_lt_iff_lt.mpr h, eq_comm, compare_lt_iff_lt]
    cases s <;> cases t <;> simp only [Bool.false_eq_true, ↓reduceIte] at h ⊢ <;> omega
  · rw [compare_eq_iff_eq.mpr h]
    by_cases hz : a.double.code = 0
    · simp only [if_pos hz]
      rw [eq_comm, compare_eq_iff_eq]
      cases s <;> cases t <;> simp only [Bool.false_eq_true, ↓reduceIte] at h ⊢ <;> omega
    -- Equal doubles that are not zero have one sign, and it says which way the extra bits lead.
    · simp only [if_neg hz]
      have hst : s = t := by
        cases s <;> cases t <;> simp only [Bool.false_eq_true, ↓reduceIte] at h ⊢ <;> omega
      subst hst
      have hcode : b.double.code = a.double.code := by
        cases s <;> simp only [Bool.false_eq_true, ↓reduceIte] at h <;> omega
      rw [hcode, ← cmp_eq_compare (α := Int)]
      cases s
      · have hmono : StrictMono fun e : Nat => ((2 ^ 16 * a.double.code + e : Nat) : Int) :=
          fun d e h => by simp only; omega
        exact (cmp_eq_compare _ _).symm.trans (hmono.cmp_map_eq _ _).symm
      · have hanti : StrictAnti fun e : Nat => -((2 ^ 16 * a.double.code + e : Nat) : Int) :=
          fun d e h => by simp only; omega
        exact (cmp_eq_compare _ _).symm.trans (hanti.cmp_map_eq _ _).symm
  · rw [compare_gt_iff_gt.mpr h, eq_comm, compare_gt_iff_gt]
    cases s <;> cases t <;> simp only [Bool.false_eq_true, ↓reduceIte] at h ⊢ <;> omega

end Extended

/-! ## Values of keys -/

/-- The magnitude of a key, in units of `2 ^ -1090`. -/
def keyMagnitude (k : Nat) : Nat :=
  2 ^ 16 * codeMagnitude (k / 2 ^ 16) + k % 2 ^ 16 * 2 ^ codeUnit (k / 2 ^ 16)

theorem keyMagnitude_eq {c e : Nat} (he : e < 2 ^ 16) :
    keyMagnitude (2 ^ 16 * c + e) = 2 ^ 16 * codeMagnitude c + e * 2 ^ codeUnit c := by
  unfold keyMagnitude
  rw [Nat.mul_add_div (by decide), Nat.div_eq_of_lt he, Nat.mul_add_mod, Nat.mod_eq_of_lt he,
    Nat.add_zero]

/-- The next key's magnitude is larger by one unit of the last extra bit. -/
theorem keyMagnitude_succ (k : Nat) :
    keyMagnitude (k + 1) = keyMagnitude k + 2 ^ codeUnit (k / 2 ^ 16) := by
  have hk := Nat.div_add_mod k (2 ^ 16)
  have hlt := Nat.mod_lt k (y := 2 ^ 16) (by decide)
  conv => lhs; rw [← hk, Nat.add_assoc]
  by_cases he : k % 2 ^ 16 + 1 < 2 ^ 16
  · rw [keyMagnitude_eq he, keyMagnitude]
    ring
  · have hfull : k % 2 ^ 16 + 1 = 2 ^ 16 := by omega
    have hnext := keyMagnitude_eq (c := k / 2 ^ 16 + 1) (e := 0) (by decide)
    rw [show 2 ^ 16 * (k / 2 ^ 16) + (k % 2 ^ 16 + 1) = 2 ^ 16 * (k / 2 ^ 16 + 1) + 0 by omega,
      hnext, codeMagnitude_succ, keyMagnitude]
    rw [show k % 2 ^ 16 = 2 ^ 16 - 1 by omega]
    ring

theorem keyMagnitude_strictMono : StrictMono keyMagnitude :=
  strictMono_nat_of_lt_succ fun k => by
    rw [keyMagnitude_succ]
    exact Nat.lt_add_of_pos_right (Nat.two_pow_pos _)

/-- The key's magnitude with the key's sign. -/
def keyScaled (k : Int) : Int := if k < 0 then -(keyMagnitude k.natAbs : Int) else keyMagnitude k.natAbs

theorem keyScaled_strictMono : StrictMono keyScaled := by
  intro j k h
  have hpos {m : Nat} (hm : 0 < m) : 0 < keyMagnitude m := by
    simpa [keyMagnitude] using keyMagnitude_strictMono hm
  unfold keyScaled
  split <;> split
  · have := keyMagnitude_strictMono (show k.natAbs < j.natAbs by omega)
    omega
  · have := hpos (show 0 < j.natAbs by omega)
    omega
  · omega
  · have := keyMagnitude_strictMono (show j.natAbs < k.natAbs by omega)
    omega

/-- The magnitudes of a form's double and of its extra bits add up to that of its key. -/
theorem keyScaled_key {a : Extended} (hcode : 0 < a.double.code) (hextra : a.extra < 2 ^ 16) :
    keyScaled a.key =
      if a.double.isNegative then
        -((2 ^ 16 * codeMagnitude a.double.code + a.extra * 2 ^ codeUnit a.double.code : Nat) : Int)
      else (2 ^ 16 * codeMagnitude a.double.code + a.extra * 2 ^ codeUnit a.double.code : Nat) := by
  rw [← keyMagnitude_eq hextra, ← Extended.natAbs_key, keyScaled]
  unfold Extended.key
  split <;> split <;> omega

/-- The key of the infinities. -/
def infinityKey : Int := 2 ^ 16 * infinityCode

/-- What a key is worth. -/
def keyValue (k : Int) : Worth :=
  if k ≤ -infinityKey then .belowAll
  else if infinityKey ≤ k then .aboveAll
  else .ofRat (keyScaled k / (2 ^ 16 * Binary64.one))

theorem keyValue_strictMonoOn : StrictMonoOn keyValue (Set.Icc (-infinityKey) infinityKey) := by
  intro j hj k hk h
  have hone : (0 : ℚ) < 2 ^ 16 * Binary64.one := by have := one_pos; positivity
  unfold keyValue
  rw [if_neg (show ¬ k ≤ -infinityKey by have := hj.1; omega)]
  rw [if_neg (show ¬ infinityKey ≤ j by have := hk.2; omega)]
  split <;> split
  · exact (Worth.belowAll_lt_ofRat 0).trans (Worth.ofRat_lt_aboveAll 0)
  · exact Worth.belowAll_lt_ofRat _
  · exact Worth.ofRat_lt_aboveAll _
  · rw [Worth.ofRat_lt_ofRat]
    exact div_lt_div_of_pos_right (by exact_mod_cast keyScaled_strictMono h) hone

/-! ## The keys of numbers -/

/-- A double without extra bits is proper unless it is a NaN. -/
theorem proper_double {x : Binary64} (h : x.isNaN = false) : (⟨x, 0⟩ : Extended).Proper :=
  ⟨by simpa [Binary64.isNaN] using h, Nat.two_pow_pos 16, fun _ => rfl⟩

theorem key_double (x : Binary64) : (⟨x, 0⟩ : Extended).key = 2 ^ 16 * x.rank := by
  simp only [Extended.key, rank]
  split <;> omega

theorem keyScaled_double (x : Binary64) : keyScaled (⟨x, 0⟩ : Extended).key = 2 ^ 16 * x.scaled := by
  have hmag : keyMagnitude (2 ^ 16 * x.code) = 2 ^ 16 * x.magnitude := by
    rw [magnitude_eq]
    simpa using keyMagnitude_eq (c := x.code) (e := 0) (by decide)
  have habs : (2 ^ 16 * x.rank).natAbs = 2 ^ 16 * x.code := by
    unfold rank
    split <;> omega
  have hzero : x.code = 0 → x.magnitude = 0 := by
    intro h
    rw [magnitude_eq, h]
    rfl
  rw [key_double, keyScaled, habs, hmag]
  unfold scaled rank
  -- A negative zero has the key of zero.
  cases x.isNegative <;> simp only [Bool.false_eq_true, ↓reduceIte] <;> split <;> omega

/-- A double is worth what its key is. -/
theorem value_double {x : Binary64} (h : x.isNaN = false) :
    x.value = keyValue (⟨x, 0⟩ : Extended).key := by
  have hle : x.code ≤ infinityCode := (proper_double h).code_le
  have hinf : 0 < infinityCode := by decide
  unfold Binary64.value keyValue
  rw [h, keyScaled_double, key_double]
  simp only [Bool.false_eq_true, ↓reduceIte, isInfinite, beq_iff_eq]
  unfold infinityKey rank
  by_cases hx : x.code = infinityCode
  · rw [if_pos hx]
    cases x.isNegative
    · rw [if_neg (by decide), if_neg (by simp; omega), if_pos (by simp; omega)]
    · rw [if_pos rfl, if_pos (by simp; omega)]
  · rw [if_neg hx, if_neg (by split <;> omega), if_neg (by split <;> omega)]
    have hscaled : ((2 ^ 16 * x.scaled : Int) : ℚ) = 2 ^ 16 * x.scaled := by norm_cast
    rw [hscaled, mul_div_mul_left _ _ (by norm_num)]

/-- The significand of a whole number's leading bits, at its place in the double. -/
private theorem leadingBits {m : Nat} (hm : m ≠ 0) :
    2 ^ 52 ≤ m / 2 ^ (m.log2 - 52) * 2 ^ (52 - m.log2) ∧
      m / 2 ^ (m.log2 - 52) * 2 ^ (52 - m.log2) < 2 ^ 53 := by
  have hlow := Nat.log2_self_le hm
  have hhigh := Nat.lt_log2_self (n := m)
  rcases Nat.le_total m.log2 52 with h | h
  · rw [Nat.sub_eq_zero_of_le h, Nat.pow_zero, Nat.div_one]
    have h₁ := Nat.mul_le_mul_right (2 ^ (52 - m.log2)) hlow
    have h₂ := Nat.mul_lt_mul_of_pos_right hhigh (Nat.two_pow_pos (52 - m.log2))
    rw [← Nat.pow_add] at h₁ h₂
    rw [show m.log2 + (52 - m.log2) = 52 by omega] at h₁
    rw [show m.log2 + 1 + (52 - m.log2) = 53 by omega] at h₂
    exact ⟨h₁, h₂⟩
  · rw [Nat.sub_eq_zero_of_le h, Nat.pow_zero, Nat.mul_one]
    constructor
    · rw [Nat.le_div_iff_mul_le (Nat.two_pow_pos _), ← Nat.pow_add,
        show 52 + (m.log2 - 52) = m.log2 by omega]
      exact hlow
    · rw [Nat.div_lt_iff_lt_mul (Nat.two_pow_pos _), ← Nat.pow_add,
        show 53 + (m.log2 - 52) = m.log2 + 1 by omega]
      exact hhigh

private theorem two_pow_place (l : Nat) :
    2 ^ (52 - l) * 2 ^ (1022 + l) = 2 ^ (l - 52) * Binary64.one := by
  rw [← Nat.pow_add, ← two_pow_add_units]
  congr 1
  omega

/-- A positive whole number: the code of its leading bits and the bits below them make up the
number. -/
private theorem wholeForm {m : Nat} (hm : m ≠ 0) (hle : m ≤ 2 ^ 63) :
    ∃ c, roundedCode ((m >>> (m.log2 - 52)) <<< (m.log2 - 52) * Binary64.one) 1 = c ∧
      c / 2 ^ 52 = 1023 + m.log2 ∧ c < infinityCode ∧
      (m % (1 <<< (m.log2 - 52))) <<< (16 - (m.log2 - 52)) < 2 ^ 16 ∧
      2 ^ 16 * codeMagnitude c +
        (m % (1 <<< (m.log2 - 52))) <<< (16 - (m.log2 - 52)) * 2 ^ codeUnit c =
          m * (2 ^ 16 * Binary64.one) := by
  have hlog : m.log2 ≤ 63 := by
    have := Nat.log2_self_le hm
    exact (Nat.pow_le_pow_iff_right (by decide)).mp (this.trans hle)
  obtain ⟨hlow, hhigh⟩ := leadingBits hm
  have hplace := two_pow_place m.log2
  simp only [Nat.shiftLeft_eq, Nat.shiftRight_eq_div_pow, Nat.one_mul]
  generalize hs : m / 2 ^ (m.log2 - 52) * 2 ^ (52 - m.log2) = s at hlow hhigh
  have hmag := codeMagnitude_eq (u := 1022 + m.log2) hhigh (.inl hlow)
  have hunit := codeUnit_eq (u := 1022 + m.log2) hhigh (.inl hlow)
  refine ⟨(1022 + m.log2) * 2 ^ 52 + s, ?_, ?_, ?_, ?_, ?_⟩
  · apply roundedCode_codeMagnitude (by decide)
    · rw [hmag, ← hs, Nat.mul_one, Nat.mul_assoc, Nat.mul_assoc, hplace]
    · rw [infinityCode_eq]
      omega
  · omega
  · rw [infinityCode_eq]
    omega
  · have := Nat.mod_lt m (Nat.two_pow_pos (m.log2 - 52))
    have := Nat.mul_lt_mul_of_pos_right this (Nat.two_pow_pos (16 - (m.log2 - 52)))
    rwa [← Nat.pow_add, show m.log2 - 52 + (16 - (m.log2 - 52)) = 16 by omega] at this
  · rw [hmag, hunit, ← hs, Nat.mul_assoc, hplace]
    have hdiv := Nat.div_add_mod m (2 ^ (m.log2 - 52))
    have hbits : m % 2 ^ (m.log2 - 52) * 2 ^ (16 - (m.log2 - 52)) * 2 ^ (1022 + m.log2) =
        m % 2 ^ (m.log2 - 52) * (2 ^ 16 * Binary64.one) := by
      rcases Nat.le_total m.log2 52 with h | h
      · simp [Nat.sub_eq_zero_of_le h, Nat.mod_one]
      · rw [Nat.sub_eq_zero_of_le h, Nat.pow_zero, Nat.one_mul] at hplace
        rw [hplace, Nat.mul_assoc, ← Nat.mul_assoc (2 ^ (16 - _)), ← Nat.pow_add,
          show 16 - (m.log2 - 52) + (m.log2 - 52) = 16 by omega]
    rw [hbits]
    conv => rhs; rw [← hdiv]
    ring

theorem ofInt_zero : Extended.ofInt 0 = ⟨.zero, 0⟩ := by decide +kernel

/-- The double of an integer's extended form has the integer's sign, and stores the place of the
integer's first bit. -/
theorem double_ofInt {n : Int} (h0 : n ≠ 0) (hn : n.natAbs ≤ 2 ^ 63) :
    (Extended.ofInt n).double.isNegative = decide (n < 0) ∧
      (Extended.ofInt n).double.exponentField = 1023 + n.natAbs.log2 := by
  obtain ⟨c, hround, hplace, hlt, -⟩ := wholeForm (m := n.natAbs) (by omega) hn
  have hinf : infinityCode < 2 ^ 63 := by decide
  have hdouble : (Extended.ofInt n).double = ofCode (n < 0) c := by
    rw [← hround]
    rfl
  rw [hdouble, isNegative_ofCode (by omega), exponentField, code_ofCode (by omega),
    Nat.shiftRight_eq_div_pow]
  exact ⟨rfl, hplace⟩

/-- What is held of an integer's extended form is the integer. -/
theorem extended_ofInt {n : Int} (hn : n.natAbs ≤ 2 ^ 63) :
    (Extended.ofInt n).Proper ∧ (Extended.ofInt n).double.code < infinityCode ∧
      keyScaled (Extended.ofInt n).key = n * (2 ^ 16 * Binary64.one) := by
  by_cases h0 : n = 0
  · subst h0
    rw [ofInt_zero, keyScaled_double]
    exact ⟨proper_double (by decide), by decide, by decide⟩
  obtain ⟨c, hround, hplace, hlt, hextra, hmag⟩ := wholeForm (m := n.natAbs) (by omega) hn
  have hinf : infinityCode < 2 ^ 63 := by decide
  have hdouble : (Extended.ofInt n).double = ofCode (n < 0) c := by
    rw [← hround]
    rfl
  have hcode : (Extended.ofInt n).double.code = c := by
    rw [hdouble, code_ofCode (by omega)]
  have hneg := (double_ofInt h0 hn).1
  have hbits : (Extended.ofInt n).extra =
    (n.natAbs % (1 <<< (n.natAbs.log2 - 52))) <<< (16 - (n.natAbs.log2 - 52)) := rfl
  rw [← hbits] at hextra hmag
  refine ⟨⟨by omega, hextra, fun h => by omega⟩, by omega, ?_⟩
  rw [keyScaled_key (by omega) hextra, hneg, hcode, hmag]
  push_cast
  rcases lt_or_gt_of_ne h0 with h | h
  · simp only [h, decide_true, ↓reduceIte]
    rw [abs_of_neg h]
    ring
  · simp only [show ¬ n < 0 by omega, decide_false, Bool.false_eq_true, ↓reduceIte]
    rw [abs_of_pos h]

/-! ## The order -/

namespace Number

theorem natAbs_toInt_le (n : Int64) : n.toInt.natAbs ≤ 2 ^ 63 := by
  have := n.toInt_lt
  have := n.le_toInt
  omega

theorem proper_extended {a : Number} (h : a.isNaN = false) : a.extended.Proper := by
  cases a with
  | integer n => exact (extended_ofInt (natAbs_toInt_le n)).1
  | double x => exact proper_double h

theorem isNaN_extended (a : Number) : a.extended.double.isNaN = a.isNaN := by
  cases a with
  | integer n => exact (extended_ofInt (natAbs_toInt_le n)).1.isNaN
  | double x => rfl

theorem key_mem (a : Number) (h : a.isNaN = false) :
    a.extended.key ∈ Set.Icc (-infinityKey) infinityKey := by
  cases a with
  | integer n =>
    obtain ⟨hproper, hlt, -⟩ := extended_ofInt (natAbs_toInt_le n)
    have := hproper.extra_lt
    have := Extended.natAbs_key (Extended.ofInt n.toInt)
    simp only [extended, Set.mem_Icc, infinityKey]
    omega
  | double x =>
    have : x.code ≤ infinityCode := (proper_double h).code_le
    have : (⟨x, 0⟩ : Extended).key.natAbs = 2 ^ 16 * x.code + 0 := Extended.natAbs_key _
    simp only [extended, Set.mem_Icc, infinityKey]
    omega

/-- A number is worth what its key is. -/
theorem value_eq {a : Number} (h : a.isNaN = false) : a.value = keyValue a.extended.key := by
  cases a with
  | integer n =>
    obtain ⟨hproper, hlt, hscaled⟩ := extended_ofInt (natAbs_toInt_le n)
    have := hproper.extra_lt
    have hone : (2 ^ 16 * Binary64.one : ℚ) ≠ 0 := by
      have := Binary64.one_pos
      positivity
    simp only [value, extended, keyValue, hscaled]
    have := Extended.natAbs_key (Extended.ofInt n.toInt)
    rw [if_neg (by unfold infinityKey; omega), if_neg (by unfold infinityKey; omega)]
    have hcast : ((n.toInt * (2 ^ 16 * Binary64.one) : Int) : ℚ) =
      n.toInt * (2 ^ 16 * Binary64.one : ℚ) := by norm_cast
    rw [hcast, mul_div_cancel_right₀ _ hone]
  | double x => exact value_double h

theorem value_of_isNaN {a : Number} (h : a.isNaN = true) : a.value = ⊥ := by
  cases a with
  | integer n => cases h
  | double x => exact if_pos h

theorem bot_lt_value {a : Number} (h : a.isNaN = false) : ⊥ < a.value := by
  rw [value_eq h]
  unfold keyValue
  split
  · exact Worth.bot_lt_belowAll
  · split
    · exact Worth.bot_lt_belowAll.trans ((Worth.belowAll_lt_ofRat 0).trans (Worth.ofRat_lt_aboveAll 0))
    · exact Worth.bot_lt_belowAll.trans (Worth.belowAll_lt_ofRat _)

/-- The extended forms of numbers compare as the numbers' values do. -/
theorem compare_extended (a b : Number) : a.extended.compare b.extended = cmp a.value b.value := by
  cases ha : a.isNaN <;> cases hb : b.isNaN
  · rw [Extended.compare_eq (proper_extended ha) (proper_extended hb), value_eq ha, value_eq hb,
      keyValue_strictMonoOn.cmp_map_eq (key_mem a ha) (key_mem b hb), cmp_eq_compare]
  · rw [value_of_isNaN hb, (cmp_eq_gt_iff _ _).mpr (bot_lt_value ha)]
    simp [Extended.compare, Binary64.compare, isNaN_extended, ha, hb]
  · rw [value_of_isNaN ha, (cmp_eq_lt_iff _ _).mpr (bot_lt_value hb)]
    simp [Extended.compare, Binary64.compare, isNaN_extended, ha, hb]
  · rw [value_of_isNaN ha, value_of_isNaN hb, cmp_self_eq_eq]
    simp [Extended.compare, Binary64.compare, isNaN_extended, ha, hb]

/-- Doubles compare as extended forms without extra bits do. -/
theorem compare_double (x y : Binary64) : x.compare y = (⟨x, 0⟩ : Extended).compare ⟨y, 0⟩ := by
  unfold Extended.compare
  split
  · rename_i h
    simp [h]
  · rfl

/-- Numbers compare as their values do: integers are not rounded, both zeros are one, and a NaN lies
below all else. -/
theorem compare_eq_cmp (a b : Number) : a.compare b = cmp a.value b.value := by
  cases a with
  | integer m =>
    cases b with
    | integer n =>
      have hmono : StrictMono fun k : Int => Worth.ofRat k := fun j k h =>
        Worth.ofRat_lt_ofRat.mpr (by exact_mod_cast h)
      rw [compare, ← cmp_eq_compare]
      exact (hmono.cmp_map_eq _ _).symm
    | double y => exact compare_extended _ _
  | double x =>
    cases b with
    | integer n => exact compare_extended _ _
    | double y => exact (compare_double x y).trans (compare_extended (.double x) (.double y))

/-- The order of numbers is the order of their exact values, over integers and doubles in any mix.
So it is reflexive, antisymmetric and transitive. -/
theorem compare_exact :
    (∀ a b : Number, a.compare b = cmp a.value b.value) ∧
    (∀ a : Number, a.compare a = .eq) ∧
    (∀ a b : Number, b.compare a = (a.compare b).swap) ∧
    (∀ a b c : Number, a.compare b ≠ .gt → b.compare c ≠ .gt → a.compare c ≠ .gt) := by
  refine ⟨compare_eq_cmp, fun a => ?_, fun a b => ?_, fun a b c hab hbc => ?_⟩
  · rw [compare_eq_cmp, cmp_self_eq_eq]
  · rw [compare_eq_cmp, compare_eq_cmp, cmp_swap]
  · rw [compare_eq_cmp, Ne, cmp_eq_gt_iff, not_lt] at *
    exact hab.trans hbc

/-- 2 ^ 53 as a double, and the integers next to it, one above being no double. -/
theorem compare_exact_beyond_doubles :
    compare (.double ⟨0x4340000000000000⟩) (.integer 9007199254740992) ≠ .gt ∧
    compare (.integer 9007199254740992) (.integer 9007199254740993) ≠ .gt ∧
    compare (.double ⟨0x4340000000000000⟩) (.integer 9007199254740993) ≠ .gt := by
  have h₁ : compare (.double ⟨0x4340000000000000⟩) (.integer 9007199254740992) ≠ .gt := by
    decide +kernel
  have h₂ : compare (.integer 9007199254740992) (.integer 9007199254740993) ≠ .gt := by
    decide +kernel
  exact ⟨h₁, h₂, compare_exact.2.2.2 _ _ _ h₁ h₂⟩

end Number

end DocQuery
