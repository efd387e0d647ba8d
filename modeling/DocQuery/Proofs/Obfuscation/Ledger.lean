import DocQuery.Proofs.Number.Order
import DocQuery.Proofs.Obfuscation.Leaves

/-!
# What ledgers list

* `Ledger.ordinal_of_lt`, `Ledger.ordinal_inj`: below `2 ^ 32` the ordinal is the count of items up to
  the place, and tells places apart.
* `Ledger.hideString_fst`, `Ledger.hideNumber_fst`: the stand-in is told by the place in the ledger.
* `Ledger.Within`: one ledger is the beginning of another. The stand-in that a ledger brings in is the
  one that every later ledger gives (`Ledger.Within.hideString`, `Ledger.Within.hideNumber`).
* `Ledger.recordAll`: the ledger that lists the leaves of a tree.
* `Ledger.stringsOf_recordAll`: from an empty ledger, what is listed of a category is the leaves'
  hidden words, each at its first occurrence.
-/

namespace DocQuery

theorem Number.same_self (n : Number) : n.same n = true := by
  rw [same, beq_iff_eq, compare_eq_cmp, cmp_self_eq_eq]

/-- Looking up in a list that goes on finds the same place. -/
theorem findIdx_longer {α : Type} {p : α → Bool} {as bs : List α} (h : as <+: bs)
    (hex : ∃ a ∈ as, p a = true) : bs.findIdx p = as.findIdx p := by
  obtain ⟨cs, rfl⟩ := h
  rw [List.findIdx_append, if_pos (List.findIdx_lt_length_of_exists hex)]

/-- One more item is a first occurrence if it is new. -/
theorem eraseDups_concat {α : Type} [BEq α] [LawfulBEq α] (as : List α) (a : α) :
    (as ++ [a]).eraseDups = as.eraseDups ++ (if as.contains a then [] else [a]) := by
  rw [List.eraseDups_append]
  by_cases h : a ∈ as <;> simp [List.removeAll, h, List.eraseDups_cons]

namespace Ledger

/-! ## Ordinals -/

theorem ordinal_eq (place : Nat) : ordinal place = (place + 1) % 2 ^ 32 := UInt32.toNat_ofNat'

theorem ordinal_lt (place : Nat) : ordinal place < 2 ^ 32 := UInt32.toNat_lt _

/-- Below `2 ^ 32` the counter has not wrapped around. -/
theorem ordinal_of_lt {place : Nat} (h : place + 1 < 2 ^ 32) : ordinal place = place + 1 := by
  rw [ordinal_eq, Nat.mod_eq_of_lt h]

theorem ordinal_pos {place : Nat} (h : place + 1 < 2 ^ 32) : 0 < ordinal place := by
  rw [ordinal_of_lt h]
  exact place.succ_pos

theorem ordinal_inj {i j : Nat} (hi : i < 2 ^ 32) (hj : j < 2 ^ 32) (h : ordinal i = ordinal j) :
    i = j := by
  rw [ordinal_eq, ordinal_eq] at h
  omega

/-! ## Stand-ins -/

/-- The string keeps its spelling. What stands in front of names of its category counts. -/
def keepsWord (category : Category) (s : String) : Bool := isExemptString (category.sigil ++ s)

/-- The stand-in of the `ordinal`-th string of a category. -/
def wordStandIn (category : Category) (ordinal : Nat) (s : String) : String :=
  stringStandIn category ordinal (category.sigil ++ s).length

variable {l l' l'' : Ledger} {category c : Category} {s : String} {n : Number}

theorem hideString_of_keeps (h : keepsWord category s = true) (l : Ledger) :
    hideString category s l = (s, l) := if_pos h

theorem hideNumber_of_isExempt (h : n.isExempt = true) (l : Ledger) :
    hideNumber n l = (n, l) := if_pos h

theorem hideString_of_mem (h : keepsWord category s = false) (hmem : s ∈ l.stringsOf category) :
    hideString category s l =
      (wordStandIn category (ordinal ((l.stringsOf category).idxOf s)) s, l) := by
  have hfind : (l.stringsOf category).findIdx? (· == s) = some ((l.stringsOf category).idxOf s) :=
    List.findIdx?_eq_some_of_exists ⟨s, hmem, beq_self_eq_true s⟩
  simp only [hideString, hfind]
  exact if_neg (by simpa [keepsWord] using h)

theorem hideString_of_notMem (h : keepsWord category s = false) (hmem : s ∉ l.stringsOf category) :
    hideString category s l = (wordStandIn category (ordinal (l.stringsOf category).length) s,
      { l with strings := l.strings ++ [(category, s)] }) := by
  have hfind : (l.stringsOf category).findIdx? (· == s) = none :=
    List.findIdx?_eq_none_iff.mpr fun t ht => beq_false_of_ne fun hts => hmem (hts ▸ ht)
  simp only [hideString, hfind]
  exact if_neg (by simpa [keepsWord] using h)

/-- The stand-in of a string is told by the string's place among those of its category. -/
theorem hideString_fst (h : keepsWord category s = false) (l : Ledger) :
    (hideString category s l).1 =
      wordStandIn category (ordinal ((l.stringsOf category).idxOf s)) s := by
  by_cases hmem : s ∈ l.stringsOf category
  · rw [hideString_of_mem h hmem]
  · rw [hideString_of_notMem h hmem, List.idxOf_eq_length hmem]

theorem hideNumber_of_exists (h : n.isExempt = false) (hex : ∃ m ∈ l.numbers, m.same n = true) :
    hideNumber n l = (n.standIn (ordinal (l.numbers.findIdx (·.same n))), l) := by
  have hfind : l.numbers.findIdx? (·.same n) = some (l.numbers.findIdx (·.same n)) :=
    List.findIdx?_eq_some_of_exists hex
  simp only [hideNumber, hfind]
  exact if_neg (by simpa using h)

theorem hideNumber_of_forall (h : n.isExempt = false) (hall : ∀ m ∈ l.numbers, m.same n = false) :
    hideNumber n l = (n.standIn (ordinal l.numbers.length), { l with numbers := l.numbers ++ [n] }) := by
  have hfind : l.numbers.findIdx? (·.same n) = none := List.findIdx?_eq_none_iff.mpr hall
  simp only [hideNumber, hfind]
  exact if_neg (by simpa using h)

/-- The stand-in of a number is told by the place of its value. -/
theorem hideNumber_fst (h : n.isExempt = false) (l : Ledger) :
    (hideNumber n l).1 = n.standIn (ordinal (l.numbers.findIdx (·.same n))) := by
  by_cases hex : ∃ m ∈ l.numbers, m.same n = true
  · rw [hideNumber_of_exists h hex]
  · have hall : ∀ m ∈ l.numbers, m.same n = false := by simpa using hex
    rw [hideNumber_of_forall h hall, List.findIdx_eq_length.mpr hall]

/-- A string is listed at the end, if at all. -/
theorem hideString_snd (category : Category) (s : String) (l : Ledger) :
    (hideString category s l).2 = l ∨
      (hideString category s l).2 = { l with strings := l.strings ++ [(category, s)] } := by
  cases h : keepsWord category s with
  | true => exact .inl (by rw [hideString_of_keeps h])
  | false =>
    by_cases hmem : s ∈ l.stringsOf category
    · exact .inl (by rw [hideString_of_mem h hmem])
    · exact .inr (by rw [hideString_of_notMem h hmem])

/-- A number is listed at the end, if at all. -/
theorem hideNumber_snd (n : Number) (l : Ledger) : (hideNumber n l).2 = l ∨
    (hideNumber n l).2 = { l with numbers := l.numbers ++ [n] } := by
  cases h : n.isExempt with
  | true => exact .inl (by rw [hideNumber_of_isExempt h])
  | false =>
    by_cases hex : ∃ m ∈ l.numbers, m.same n = true
    · exact .inl (by rw [hideNumber_of_exists h hex])
    · exact .inr (by rw [hideNumber_of_forall h (by simpa using hex)])

/-! ## Ledgers that go on -/

/-- `l'` begins with what `l` lists. -/
structure Within (l l' : Ledger) : Prop where
  strings : l.strings <+: l'.strings
  numbers : l.numbers <+: l'.numbers

theorem Within.refl (l : Ledger) : l.Within l := ⟨List.prefix_rfl, List.prefix_rfl⟩

theorem Within.trans (h : l.Within l') (h' : l'.Within l'') : l.Within l'' :=
  ⟨h.strings.trans h'.strings, h.numbers.trans h'.numbers⟩

theorem Within.stringsOf (h : l.Within l') (category : Category) :
    l.stringsOf category <+: l'.stringsOf category := h.strings.filterMap _

theorem within_hideString (category : Category) (s : String) (l : Ledger) :
    l.Within (hideString category s l).2 := by
  obtain h | h := hideString_snd category s l <;> rw [h]
  · exact .refl l
  · exact ⟨List.prefix_append _ _, List.prefix_rfl⟩

theorem within_hideNumber (n : Number) (l : Ledger) : l.Within (hideNumber n l).2 := by
  obtain h | h := hideNumber_snd n l <;> rw [h]
  · exact .refl l
  · exact ⟨List.prefix_rfl, List.prefix_append _ _⟩

/-- What a string adds to the strings of a category. -/
theorem stringsOf_hideString (h : keepsWord category s = false) (l : Ledger) (c : Category) :
    (hideString category s l).2.stringsOf c =
      l.stringsOf c ++ (if category = c ∧ s ∉ l.stringsOf c then [s] else []) := by
  by_cases hmem : s ∈ l.stringsOf category
  · rw [hideString_of_mem h hmem, if_neg (fun hc => hc.2 (hc.1 ▸ hmem)), List.append_nil]
  · have hadd : ({ l with strings := l.strings ++ [(category, s)] } : Ledger).stringsOf c =
        l.stringsOf c ++ (if category = c then [s] else []) := by
      by_cases hc : category = c <;> simp [stringsOf, hc]
    rw [hideString_of_notMem h hmem, hadd]
    by_cases hc : category = c
    · rw [if_pos hc, if_pos ⟨hc, hc ▸ hmem⟩]
    · rw [if_neg hc, if_neg (hc ·.1)]

theorem stringsOf_hideNumber (n : Number) (l : Ledger) (category : Category) :
    (hideNumber n l).2.stringsOf category = l.stringsOf category := by
  obtain h | h := hideNumber_snd n l <;> rw [h]
  rfl

theorem numbers_hideString (category : Category) (s : String) (l : Ledger) :
    (hideString category s l).2.numbers = l.numbers := by
  obtain h | h := hideString_snd category s l <;> rw [h]

/-- A later ledger gives a string the stand-in that the string got first. -/
theorem Within.hideString_fst (hw : (hideString category s l).2.Within l') :
    (hideString category s l').1 = (hideString category s l).1 := by
  cases h : keepsWord category s with
  | true => rw [hideString_of_keeps h, hideString_of_keeps h]
  | false =>
    have hlist := hw.stringsOf category
    rw [stringsOf_hideString h] at hlist
    rw [Ledger.hideString_fst h, Ledger.hideString_fst h]
    congr 2
    by_cases hmem : s ∈ l.stringsOf category
    · rw [if_neg (fun hc => hc.2 hmem), List.append_nil] at hlist
      exact (hlist.idxOf_eq_of_mem hmem).symm
    · rw [if_pos ⟨rfl, hmem⟩] at hlist
      rw [← hlist.idxOf_eq_of_mem (by simp), List.idxOf_append_of_notMem hmem,
        List.idxOf_cons_self, Nat.add_zero, List.idxOf_eq_length hmem]

/-- A later ledger gives a number the stand-in that the number got first. -/
theorem Within.hideNumber_fst (hw : (hideNumber n l).2.Within l') :
    (hideNumber n l').1 = (hideNumber n l).1 := by
  cases h : n.isExempt with
  | true => rw [hideNumber_of_isExempt h, hideNumber_of_isExempt h]
  | false =>
    have hlist := hw.numbers
    rw [Ledger.hideNumber_fst h, Ledger.hideNumber_fst h]
    congr 2
    by_cases hex : ∃ m ∈ l.numbers, m.same n = true
    · rw [hideNumber_of_exists h hex] at hlist
      exact findIdx_longer hlist hex
    · have hall : ∀ m ∈ l.numbers, m.same n = false := by simpa using hex
      rw [hideNumber_of_forall h hall] at hlist
      have hnew : (l.numbers ++ [n]).findIdx (·.same n) = l.numbers.length := by
        simp [List.findIdx_append, List.findIdx_eq_length.mpr hall, n.same_self]
      have hex : ∃ m ∈ l.numbers ++ [n], m.same n = true := ⟨n, by simp, n.same_self⟩
      rw [findIdx_longer hlist hex, hnew, List.findIdx_eq_length.mpr hall]

/-! ## The ledger of a tree's leaves -/

/-- The ledger that lists what is hidden at a leaf. -/
def record (l : Ledger) : Leaf → Ledger
  | .word category text => (hideString category text l).2
  | .number n => (hideNumber n l).2
  | _ => l

/-- The ledger that lists what is hidden at some leaves, one after another. -/
def recordAll (l : Ledger) (leaves : List Leaf) : Ledger := leaves.foldl record l

/-- The stand-ins that a ledger gives. -/
def relabeling (l : Ledger) : Relabeling :=
  ⟨fun category text => (hideString category text l).1, fun n => (hideNumber n l).1⟩

theorem within_record (l : Ledger) (leaf : Leaf) : l.Within (l.record leaf) := by
  cases leaf with
  | word category text => exact within_hideString category text l
  | number n => exact within_hideNumber n l
  | function name => exact .refl l
  | count e => exact .refl l

theorem recordAll_append (l : Ledger) (as bs : List Leaf) :
    l.recordAll (as ++ bs) = (l.recordAll as).recordAll bs := List.foldl_append

theorem within_recordAll (l : Ledger) (leaves : List Leaf) : l.Within (l.recordAll leaves) := by
  induction leaves generalizing l with
  | nil => exact .refl l
  | cons leaf leaves ih => exact (within_record l leaf).trans (ih (l.record leaf))

theorem exists_same_hideNumber (h : n.isExempt = false) (l : Ledger) :
    ∃ m ∈ (hideNumber n l).2.numbers, m.same n = true := by
  by_cases hex : ∃ m ∈ l.numbers, m.same n = true
  · rwa [hideNumber_of_exists h hex]
  · rw [hideNumber_of_forall h (by simpa using hex)]
    exact ⟨n, List.mem_append_right _ List.mem_cons_self, n.same_self⟩

/-- The numbers of some leaves that have stand-ins are listed. -/
theorem exists_same_recordAll (h : n.isExempt = false) {leaves : List Leaf}
    (hmem : .number n ∈ leaves) (l : Ledger) :
    ∃ m ∈ (l.recordAll leaves).numbers, m.same n = true := by
  obtain ⟨before, behind, rfl⟩ := List.append_of_mem hmem
  obtain ⟨m, hm, hsame⟩ := exists_same_hideNumber h (l.recordAll before)
  refine ⟨m, ?_, hsame⟩
  rw [recordAll_append]
  exact (within_recordAll _ behind).numbers.subset hm

/-- The ordinal of a number that is listed is not 0, where there are fewer than `2 ^ 32` numbers. -/
theorem ordinal_findIdx_pos (hfew : l.numbers.length < 2 ^ 32)
    (h : ∃ m ∈ l.numbers, m.same n = true) : 0 < ordinal (l.numbers.findIdx (·.same n)) :=
  ordinal_pos ((Nat.succ_le_of_lt (List.findIdx_lt_length_of_exists h)).trans_lt hfew)

end Ledger

/-- The word of a category that is hidden at a leaf. -/
def Leaf.hiddenWord? (category : Category) : Leaf → Option String
  | .word c s => if c = category ∧ Ledger.keepsWord c s = false then some s else none
  | _ => none

/-- The words of a category that are hidden at some leaves. -/
def hiddenWords (category : Category) (leaves : List Leaf) : List String :=
  leaves.filterMap (Leaf.hiddenWord? category)

namespace Ledger

/-- A leaf adds its hidden word to the strings of the word's category, if it is new there. -/
theorem stringsOf_record (l : Ledger) (leaf : Leaf) (category : Category) :
    (l.record leaf).stringsOf category = l.stringsOf category ++
      (leaf.hiddenWord? category).toList.filter (· ∉ l.stringsOf category) := by
  cases leaf with
  | word c s =>
    cases h : keepsWord c s with
    | true => simp [record, hideString_of_keeps h, Leaf.hiddenWord?, h]
    | false =>
      rw [record, stringsOf_hideString h, Leaf.hiddenWord?]
      by_cases hc : c = category
      · subst hc
        by_cases hmem : s ∈ l.stringsOf c <;> simp [h, hmem]
      · simp [hc]
  | number n => simp [record, stringsOf_hideNumber, Leaf.hiddenWord?]
  | _ => simp [record, Leaf.hiddenWord?]

/-- A ledger lists each hidden word of a category once, in the order of the first occurrences. -/
theorem stringsOf_recordAll (category : Category) (leaves : List Leaf) :
    (empty.recordAll leaves).stringsOf category = (hiddenWords category leaves).eraseDups := by
  induction leaves using List.reverseRecOn with
  | nil => rfl
  | append_singleton leaves leaf ih =>
    have hstep := stringsOf_record (empty.recordAll leaves) leaf category
    rw [recordAll_append, hiddenWords, List.filterMap_append, ← hiddenWords]
    refine hstep.trans ?_
    cases h : leaf.hiddenWord? category with
    | none => simp [h, ih]
    | some s =>
      have hmem : s ∈ (empty.recordAll leaves).stringsOf category ↔
          s ∈ hiddenWords category leaves := by rw [ih, List.mem_eraseDups]
      simp only [List.filterMap_cons, h, List.filterMap_nil, eraseDups_concat, ← ih,
        List.contains_iff_mem, ← hmem]
      by_cases hs : s ∈ (empty.recordAll leaves).stringsOf category <;> simp [hs]

end Ledger

end DocQuery
