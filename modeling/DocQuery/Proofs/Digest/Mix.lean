import DocQuery.Proofs.Digest.Parts

/-!
# Mixing without loss

* `Digest.mix_eq_low`: a mix in 32 bits is the low half of the same mix of sign-extended values in
  64 bits.
* `Digest.mix_bijective`: what comes before turns the values of a part into each other, one to one.
* `Digest.mixItems_inj`: so the last of some parts is not lost, and where order does not count, no
  part is.
-/

namespace DocQuery

namespace Digest

/-! ## In 64 bits -/

/-- `x` with its sign, in 64 bits. -/
def wide (x : UInt32) : Int64 := x.toInt32.toInt64

theorem low_signExtend (x : BitVec 32) : (x.signExtend 64).setWidth 32 = x := by
  apply BitVec.eq_of_getLsbD_eq
  intro i hi
  have hwide : i < 64 := by omega
  simp only [BitVec.getLsbD_setWidth, BitVec.getLsbD_signExtend, hi, hwide, decide_true,
    Bool.true_and, if_true]

theorem low_shiftLeft (x : BitVec 32) : (x.signExtend 64 <<< 6).signExtend 32 = x <<< 6 := by
  rw [BitVec.signExtend_eq_setWidth_of_le _ (by decide), BitVec.setWidth_shiftLeft_of_le (by decide),
    low_signExtend]

/-- A shift to the right brings sign bits down, with either width. -/
theorem low_sshiftRight (x : BitVec 32) :
    ((x.signExtend 64).sshiftRight 2).signExtend 32 = x.sshiftRight 2 := by
  rw [BitVec.signExtend_eq_setWidth_of_le _ (by decide)]
  apply BitVec.eq_of_getLsbD_eq
  intro i hi
  have hwide : ¬ 64 ≤ i ∧ ¬ 32 ≤ i ∧ 2 + i < 64 := by omega
  simp only [BitVec.getLsbD_setWidth, BitVec.getLsbD_sshiftRight, BitVec.getLsbD_signExtend, hi, hwide,
    decide_true, decide_false, Bool.true_and, Bool.not_false, if_true]

/-- No bit of the upper half finds its way into the lower one. -/
theorem mix_eq_low (before part : UInt32) : mix before part =
    (wide before ^^^ (wide part + 0x9e3779b9 + (wide before <<< (6 : Int64)) +
      (wide before >>> (2 : Int64)))).toInt32.toUInt32 := by
  apply UInt32.toBitVec_inj.1
  simp [mix, quarter, wide, low_shiftLeft, low_sshiftRight]

/-! ## One to one -/

@[simp] theorem mix_inj {before a b : UInt32} : mix before a = mix before b ↔ a = b := by
  simp only [mix, UInt32.xor_right_inj, UInt32.add_left_inj]

theorem mix_bijective (before : UInt32) : Function.Bijective (mix before) := by
  constructor
  · intro a b h
    exact mix_inj.1 h
  · intro whole
    refine ⟨(before ^^^ whole) - quarter before - (before <<< 6) - 0x9e3779b9, ?_⟩
    simp only [mix, UInt32.sub_add_cancel, ← UInt32.xor_assoc, UInt32.xor_self, UInt32.zero_xor]

/-! ## Lists of parts -/

@[simp] theorem mixAll_nil (before : UInt32) : mixAll before [] = before := rfl

@[simp] theorem mixAll_cons (before part : UInt32) (parts : List UInt32) :
    mixAll before (part :: parts) = mixAll (mix before part) parts := rfl

@[simp] theorem mixAll_append (before : UInt32) (parts parts' : List UInt32) :
    mixAll before (parts ++ parts') = mixAll (mixAll before parts) parts' := List.foldl_append

/-- A strict digest keeps the last item, a loose one keeps them all. -/
theorem mixItems_inj {strict : Bool} {before a b : UInt32} {parts parts' : List UInt32}
    (h : strict = true → parts' = []) :
    mixItems strict before (parts ++ a :: parts') = mixItems strict before (parts ++ b :: parts') ↔
      a = b := by
  cases strict with
  | true =>
    simp [mixItems, h]
  | false =>
    simp only [mixItems_eq_add_sum, List.sum_append, List.sum_cons, UInt32.add_right_inj,
      UInt32.add_left_inj]

end Digest

end DocQuery
