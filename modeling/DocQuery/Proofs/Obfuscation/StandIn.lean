import DocQuery.Proofs.Obfuscation.Ledger
import DocQuery.Proofs.Token.Literal

/-!
# Stand-ins of words

* `stringStandIn_inj`: stand-ins of one category are told apart by their ordinals.
* `keepsWord_stringStandIn`: a stand-in is no word that keeps its spelling.
* `isIdentifier_stringStandIn`: a stand-in is an identifier.
-/

namespace DocQuery

open Text Ledger

/-- What comes behind the ordinal of a stand-in. -/
def standInSuffix (length : Nat) : List Char :=
  if length < 10 then [] else '_' :: '_' :: Nat.toDigits 10 length

/-- The characters of a stand-in. -/
theorem toList_stringStandIn (category : Category) (ordinal length : Nat) :
    (stringStandIn category ordinal length).toList =
      category.stem.toList ++ (Nat.toDigits 10 ordinal ++ standInSuffix length) := by
  rw [stringStandIn, standInSuffix]
  split <;> simp

theorem standInSuffix_head (length : Nat) : ∀ c ∈ (standInSuffix length).head?, isDigit c = false := by
  rw [standInSuffix]
  split
  · nofun
  · rintro _ ⟨⟩
    decide

theorem continuesName_standInSuffix (length : Nat) :
    ∀ c ∈ standInSuffix length, continuesName c = true := by
  have hbar : continuesName '_' = true := by decide
  rw [standInSuffix]
  split
  · nofun
  · simp only [List.mem_cons]
    rintro c (rfl | rfl | hc)
    · exact hbar
    · exact hbar
    · exact continuesName_of_isDigit (isDigit_of_mem_toDigits hc)

/-- Stand-ins of one category are told apart by their ordinals, whatever lengths they tell. -/
theorem stringStandIn_inj {category : Category} {i j m n : Nat}
    (h : stringStandIn category i m = stringStandIn category j n) : i = j := by
  have hchars := congrArg String.toList h
  rw [toList_stringStandIn, toList_stringStandIn] at hchars
  have hdigits := congrArg (List.takeWhile isDigit) (List.append_cancel_left hchars)
  rw [takeWhile_run (fun _ => isDigit_of_mem_toDigits) (standInSuffix_head m),
    takeWhile_run (fun _ => isDigit_of_mem_toDigits) (standInSuffix_head n)] at hdigits
  rw [← digitsValue_toDigits i, hdigits, digitsValue_toDigits]

/-- A stand-in has a digit behind its category's word. -/
theorem exists_digit_stringStandIn (category : Category) (ordinal length : Nat) :
    ∃ d ∈ (stringStandIn category ordinal length).toList, isDigit d = true := by
  have hne : Nat.toDigits 10 ordinal ≠ [] := Nat.toDigits_ne_nil
  obtain ⟨d, ds, hdigits⟩ := List.exists_cons_of_ne_nil hne
  have hd : d ∈ Nat.toDigits 10 ordinal := by simp [hdigits]
  refine ⟨d, ?_, isDigit_of_mem_toDigits hd⟩
  rw [toList_stringStandIn]
  exact List.mem_append_right _ (List.mem_append_left _ hd)

theorem any_isDigit_of_exempt : ∀ s ∈ exemptStrings, s.toList.any isDigit = false := by
  decide +kernel

/-- A stand-in is no word that keeps its spelling. -/
theorem keepsWord_stringStandIn (category : Category) (ordinal length : Nat) :
    keepsWord category (stringStandIn category ordinal length) = false := by
  obtain ⟨d, hd, hdigit⟩ := exists_digit_stringStandIn category ordinal length
  have hdigits : 0 < (Nat.toDigits 10 ordinal).length :=
    List.length_pos_iff.mpr Nat.toDigits_ne_nil
  have hstem : 0 < category.stem.toList.length := by cases category <;> decide
  have hlength : 1 < (stringStandIn category ordinal length).toList.length := by
    simp only [toList_stringStandIn, List.length_append]
    omega
  have hexempt : category.sigil ++ stringStandIn category ordinal length ∉ exemptStrings := by
    intro hmem
    have hany := List.any_eq_true.mpr ⟨d, hd, hdigit⟩
    simpa [hany] using any_isDigit_of_exempt _ hmem
  rw [keepsWord, isExemptString, Bool.or_eq_false_iff]
  refine ⟨decide_eq_false ?_, by simpa using hexempt⟩
  rw [String.length_append, ← String.length_toList (s := stringStandIn _ _ _)]
  omega

theorem any_isDigit_of_capitals (k : Keyword) : k.capitals.toList.any isDigit = false := by
  cases k <;> decide +kernel

/-- Keywords are without digits. -/
theorem ofName?_eq_none {name : String} (h : ∃ d ∈ name.toList, isDigit d = true) :
    Keyword.ofName? name = none := by
  obtain ⟨d, hd, hdigit⟩ := h
  refine List.find?_eq_none.mpr fun k _ heq => ?_
  have hchars : k.capitals.toList = name.toList.map Char.toUpper := by
    rw [beq_iff_eq.mp heq, String.toList_ofList]
  have hupper : d.toUpper = d := by
    have hd := (isDigit_iff d).mp hdigit
    refine dif_neg ?_
    rintro ⟨hle, -⟩
    exact absurd (UInt32.le_iff_toNat_le.mp hle) (by have : d.val.toNat = d.toNat := rfl; simp; omega)
  have hany : k.capitals.toList.any isDigit = true :=
    List.any_eq_true.mpr ⟨d, hchars ▸ List.mem_map.mpr ⟨d, hd, hupper⟩, hdigit⟩
  exact Bool.false_ne_true ((any_isDigit_of_capitals k).symm.trans hany)

theorem isIdentifier_stringStandIn (category : Category) (ordinal length : Nat) :
    isIdentifier (stringStandIn category ordinal length) = true := by
  obtain ⟨c, cs, hstem, hc, hcs⟩ : ∃ c cs, category.stem.toList = c :: cs ∧ beginsName c = true ∧
      cs.all continuesName = true := by
    cases category <;> exact ⟨_, _, rfl, by decide, by decide⟩
  have hname : stringStandIn category ordinal length =
      String.ofList (c :: (cs ++ (Nat.toDigits 10 ordinal ++ standInSuffix length))) := by
    rw [← String.toList_inj, toList_stringStandIn, hstem, String.toList_ofList, List.cons_append]
  rw [isIdentifier, ofName?_eq_none (exists_digit_stringStandIn category ordinal length), hname]
  rw [isName_ofList hc, Option.isNone_none, Bool.true_and]
  simp only [List.mem_append]
  rintro d (hd | hd | hd)
  · exact List.all_eq_true.mp hcs d hd
  · exact continuesName_of_isDigit (isDigit_of_mem_toDigits hd)
  · exact continuesName_standInSuffix length d hd

end DocQuery
