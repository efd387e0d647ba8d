import DocQuery.Obfuscation.Cents
import DocQuery.Proofs.Number.Bounds

/-!
# Bounds of doubles rounded to cents

* `Cents.ofBinary64_lt`: the coefficients of the decimals between doubles and cents stay below
  `2 ^ 96`.
* `toCents_code_le`: rounding to cents leads to no more than the double itself or `2 ^ 104`.
* `isNegative_toCents`: rounding to cents keeps the sign.
-/

namespace DocQuery

namespace Cents

/-! ## Coefficients -/

theorem tenth_le (m : Nat) : tenth m ≤ m := by
  unfold tenth
  split <;> omega

theorem bound_eq : bound = 2 ^ 96 := by decide

theorem spreadPlaces_lt (rounds m places : Nat) (h : m < bound) :
    (spreadPlaces rounds m places).1 < bound := by
  fun_induction spreadPlaces rounds m places with
  | case1 m places => exact h
  | case2 rounds m places heven ih => exact ih (by omega)
  | case3 rounds m places hodd hroom ih => exact ih hroom
  | case4 rounds m places hodd hroom ih => exact ih (by omega)

theorem gatherPower_lt (rounds m power : Nat) (h : m < bound) :
    ∀ r ∈ gatherPower rounds m power, r.1 < bound := by
  fun_induction gatherPower rounds m power with
  | case1 m power => rintro _ ⟨⟩; exact h
  | case2 rounds m power hroom ih => exact ih (by rw [bound_eq]; omega)
  | case3 rounds m power hroom hpower => nofun
  | case4 rounds m power hroom hpower ih => exact ih (by omega)

theorem multiplyOut_lt (power m : Nat) (h : m < bound) : ∀ r ∈ multiplyOut power m, r < bound := by
  fun_induction multiplyOut power m with
  | case1 m => rintro _ ⟨⟩; exact h
  | case2 power m hroom ih => exact ih hroom
  | case3 power m hroom => nofun

theorem cutPlaces_le (m places : Nat) : (cutPlaces m places).1 ≤ m := by
  fun_induction cutPlaces m places with
  | case1 m => exact le_rfl
  | case2 m places hmany hzero => exact Nat.zero_le m
  | case3 m places hmany hzero ih => exact ih.trans (tenth_le m)
  | case4 m places hmany => exact le_rfl

theorem cutDigits_le (m places : Nat) : (cutDigits m places).1 ≤ m := by
  fun_induction cutDigits m places with
  | case1 m => exact le_rfl
  | case2 m places hmany ih => exact ih.trans (tenth_le m)
  | case3 m places hmany => exact le_rfl

theorem stripZeros_le (m places : Nat) : (stripZeros m places).1 ≤ m := by
  fun_induction stripZeros m places with
  | case1 m => exact le_rfl
  | case2 m places hzero ih => exact ih.trans (Nat.div_le_self m 10)
  | case3 m places hzero => exact le_rfl

theorem ofBinary64_lt (x : Binary64) : ∀ r ∈ ofBinary64 x, r.1 < bound := by
  have hsig : x.significand < bound := by
    rw [x.significand_eq, bound_eq]
    exact (Binary64.codeSignificand_lt _).trans (by decide)
  unfold ofBinary64
  split
  · intro r hr
    obtain ⟨⟨m, power⟩, hgather, hmultiply⟩ := Option.bind_eq_some_iff.mp hr
    obtain ⟨n, hn, rfl⟩ := Option.map_eq_some_iff.mp hmultiply
    exact multiplyOut_lt _ _ (gatherPower_lt _ _ _ hsig _ hgather) _ hn
  · rintro r ⟨⟩
    exact (stripZeros_le _ _).trans_lt ((cutDigits_le _ _).trans_lt
      ((cutPlaces_le _ _).trans_lt (spreadPlaces_lt _ _ _ hsig)))

theorem roundToTwo_le (m places : Nat) :
    (roundToTwo m places).1 ≤ m ∧ (roundToTwo m places).2 ≤ 2 := by
  unfold roundToTwo
  split
  · have hscale : 0 < Nat.pow 10 (places - 2) := Nat.pow_pos (by decide)
    exact ⟨Binary64.roundHalfEven_le hscale (Nat.le_mul_of_pos_right m hscale), le_rfl⟩
  · exact ⟨le_rfl, by omega⟩

/-! ## Doubles -/

theorem scale_bounds {places : Nat} (h : places ≤ 2) :
    (Binary64.ofNat (Nat.pow 10 places)).code ≤ Binary64.powerCode 7 ∧
      Binary64.one ≤ (Binary64.ofNat (Nat.pow 10 places)).magnitude := by
  have hpow : Nat.pow 10 places ≤ 2 ^ 7 := (Nat.pow_le_pow_right (by decide) h).trans (by decide)
  exact ⟨Binary64.ofNat_code_le_power hpow,
    Binary64.one_le_magnitude_round false (Nat.pow_pos (by decide))⟩

theorem toBinary64_code_le {m places : Nat} (hm : m < bound) (hplaces : places ≤ 2) :
    (toBinary64 m places).code ≤ Binary64.powerCode 104 := by
  rw [bound_eq] at hm
  obtain ⟨hscale, hone⟩ := scale_bounds hplaces
  have hfinite := Binary64.isFinite_of_code_le hscale (by decide)
  have hwhole : (Binary64.ofNat (m / Nat.pow 10 places)).code ≤ Binary64.powerCode 96 :=
    Binary64.ofNat_code_le_power ((Nat.div_le_self m _).trans hm.le)
  have hrest : ((Binary64.ofNat (m % Nat.pow 10 places)).div
      (.ofNat (Nat.pow 10 places))).code ≤ Binary64.powerCode 96 :=
    Binary64.div_code_le (Binary64.ofNat_code_le_power ((Nat.mod_le m _).trans hm.le)) (by decide)
      hfinite hone
  unfold toBinary64
  simp only []
  split
  · exact hwhole.trans (by decide)
  · have hsum := Binary64.add_code_le (c := Binary64.powerCode 97) hwhole hrest (by decide) (by decide)
      (le_of_eq (Binary64.codeMagnitude_powerCode_add (by decide)))
    have hshifted := Binary64.mul_code_le (c := Binary64.powerCode 104) hsum hscale (by decide)
      (by decide) (le_of_eq (Binary64.codeMagnitude_powerCode_mul (by decide)))
    have hmagnitude := Binary64.magnitude_le hshifted
    rw [Binary64.codeMagnitude_powerCode] at hmagnitude
    have hcents := Binary64.roundHalfUp_le Binary64.one_pos hmagnitude
    exact Binary64.div_code_le (Binary64.ofNat_code_le_power hcents) (by decide) hfinite hone

end Cents

namespace Binary64

/-- Rounding to cents leads to no more than the double itself or `2 ^ 104`. -/
theorem toCents_code_le {x : Binary64} {c : Nat} (hx : x.code ≤ c) (hc : powerCode 104 ≤ c) :
    x.toCents.code ≤ c := by
  unfold toCents
  split
  · exact hx
  · rename_i m places hr
    have hm := Cents.ofBinary64_lt x _ hr
    obtain ⟨hle, hplaces⟩ := Cents.roundToTwo_le m places
    rw [code_ofCode (code_lt _)]
    exact (Cents.toBinary64_code_le (hle.trans_lt hm) hplaces).trans hc

/-- Rounding to cents keeps the sign. -/
theorem isNegative_toCents (x : Binary64) : x.toCents.isNegative = x.isNegative := by
  unfold toCents
  split
  · rfl
  · exact isNegative_ofCode (code_lt _)

end Binary64

end DocQuery
