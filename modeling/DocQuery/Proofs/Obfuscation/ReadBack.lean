import DocQuery.Proofs.Layout.RoundTrip
import DocQuery.Proofs.Obfuscation.Jitter
import DocQuery.Proofs.Obfuscation.Session
import DocQuery.Proofs.Obfuscation.StandIn
import DocQuery.Proofs.Obfuscation.WellFormed

/-!
# Queries with stand-ins are read back

* `parse_text_obfuscate`: what becomes of a query that was accepted. Its stand-ins are names and
  numbers without a sign, and its text is read back just if all of these are finite.
* `parse_text_obfuscate_infinite`: next to the largest double, the jitter leads to infinity, and the
  text says a name instead.
-/

namespace DocQuery

open Ledger

def Leaf.number? : Leaf → Option Number
  | .number n => some n
  | _ => none

theorem Leaf.number?_eq_some {leaf : Leaf} {n : Number} :
    leaf.number? = some n ↔ leaf = .number n := by
  cases leaf <;> simp [Leaf.number?]

theorem Leaf.number?_relabel (ρ : Relabeling) (leaf : Leaf) :
    (leaf.relabel ρ).number? = leaf.number?.map ρ.number := by
  cases leaf <;> rfl

/-- The numbers of a query in the order of its text, but for those in counts. -/
def Query.numbers (q : Query) : List Number := q.leaves.filterMap Leaf.number?

namespace Ledger

variable {n : Number}

/-! ## Stand-ins -/

theorem isIdentifier_hideString {s : String} (h : isIdentifier s = true) (l : Ledger) :
    isIdentifier (hideString .identifier s l).1 = true := by
  cases hk : keepsWord .identifier s with
  | true => rwa [hideString_of_keeps hk]
  | false =>
    rw [hideString_fst hk]
    exact isIdentifier_stringStandIn _ _ _

theorem isName_hideString {s : String} (h : isName s = true) (l : Ledger) :
    isName (hideString .parameter s l).1 = true := by
  cases hk : keepsWord .parameter s with
  | true => rwa [hideString_of_keeps hk]
  | false =>
    rw [hideString_fst hk]
    exact (Bool.and_eq_true_iff.mp (isIdentifier_stringStandIn _ _ _)).1

theorem isNegative_hideNumber (h : n.isNegative = false) (l : Ledger) :
    (hideNumber n l).1.isNegative = false := by
  cases hn : n.isExempt with
  | true => rwa [hideNumber_of_isExempt hn]
  | false =>
    rw [hideNumber_fst hn]
    exact Number.isNegative_standIn h _

/-- The stand-ins of moderate numbers are finite, whatever the counter shows. -/
theorem isPlain_hideNumber (h : n.isPlain = true) (hmoderate : n.isModerate = true) (l : Ledger) :
    (hideNumber n l).1.isPlain = true := by
  cases hn : n.isExempt with
  | true => rwa [hideNumber_of_isExempt hn]
  | false =>
    have hordinal := ordinal_lt (l.numbers.findIdx (·.same n))
    rw [hideNumber_fst hn]
    exact Number.isPlain_standIn hn hmoderate (Number.isNegative_of_isPlain h)
      (hordinal.le.trans (by decide))

end Ledger

/-! ## Queries -/

namespace Query

variable {q : Query}

theorem numbers_relabel (ρ : Relabeling) (q : Query) :
    (q.relabel ρ).numbers = q.numbers.map ρ.number := by
  rw [numbers, leaves_relabel]
  exact filterMap_relabel (Leaf.number?_relabel ρ) q.leaves

theorem mem_numbers {n : Number} : n ∈ q.numbers ↔ .number n ∈ q.leaves := by
  simp [numbers, List.mem_filterMap, Leaf.number?_eq_some]

theorem isWellFormed_leaf (h : q.isWellFormed = true) {leaf : Leaf} (hleaf : leaf ∈ q.leaves) :
    leaf.isWellFormed = true := by
  rw [isWellFormed_eq_and, Bool.and_eq_true, List.all_eq_true] at h
  exact h.2 leaf hleaf

/-- Each stand-in of a well-formed leaf is well-formed, if it is so as a number. -/
theorem isWellFormed_relabel_leaf {leaf : Leaf} (h : leaf.isWellFormed = true) (l : Ledger)
    (hnumber : ∀ n, leaf = .number n → (l.relabeling.number n).isPlain = true) :
    (leaf.relabel l.relabeling).isWellFormed = true := by
  cases leaf with
  | word c s =>
    cases c with
    | identifier => exact isIdentifier_hideString h l
    | parameter => exact isName_hideString h l
    | string => rfl
    | key => rfl
  | number n => exact hnumber n rfl
  | function name => exact h
  | count e => rfl

/-- The words among the leaves of a query with stand-ins are well-formed. -/
theorem isWellFormed_obfuscate_leaf (h : q.isWellFormed = true) {leaf : Leaf}
    (hleaf : leaf ∈ q.obfuscate.leaves) (hnot : ∀ n, leaf ≠ .number n) :
    leaf.isWellFormed = true := by
  rw [obfuscate_eq, leaves_relabel] at hleaf
  obtain ⟨own, hown, rfl⟩ := List.mem_map.mp hleaf
  refine isWellFormed_relabel_leaf (isWellFormed_leaf h hown) _ ?_
  rintro n rfl
  exact absurd rfl (hnot _)

/-- A query with stand-ins is well-formed just if its numbers are finite and without signs. -/
theorem isWellFormed_obfuscate (h : q.isWellFormed = true) :
    q.obfuscate.isWellFormed = true ↔ ∀ n ∈ q.obfuscate.numbers, n.isPlain = true := by
  refine ⟨fun hq n hn => isWellFormed_leaf hq (mem_numbers.mp hn), fun hplain => ?_⟩
  rw [obfuscate_eq, numbers_relabel, List.forall_mem_map] at hplain
  rw [obfuscate_eq, isWellFormed_relabel h, List.all_map, List.all_eq_true]
  intro leaf hleaf
  refine isWellFormed_relabel_leaf (isWellFormed_leaf h hleaf) _ ?_
  rintro n rfl
  exact hplain n (mem_numbers.mpr hleaf)

end Query

/-- What becomes of the text of a query that was accepted, when stand-ins are put into it.

Each name among the stand-ins is a name that is no keyword if it stands for an identifier, and each
number is without a sign. In either layout the text is read back under all limits that are high
enough if the numbers are finite, and under none if one of them is not. They are finite if the
query's own numbers are below `2 ^ 960`. -/
theorem parse_text_obfuscate {text : String} {limit : Nat} {q : Query}
    (h : Query.parse text limit = .ok q) :
    (∀ s, .word .identifier s ∈ q.obfuscate.leaves → isIdentifier s = true) ∧
    (∀ s, .word .parameter s ∈ q.obfuscate.leaves → isName s = true) ∧
    (∀ n ∈ q.obfuscate.numbers, n.isNegative = false) ∧
    (∀ layout, (∀ n ∈ q.obfuscate.numbers, n.isPlain = true) →
      ∃ bound, ∀ limit, bound ≤ limit →
        Query.parse (q.obfuscate.text layout) limit = .ok q.obfuscate) ∧
    (∀ layout, (∃ n ∈ q.obfuscate.numbers, n.isPlain = false) →
      ∀ limit, Query.parse (q.obfuscate.text layout) limit ≠ .ok q.obfuscate) ∧
    ((∀ n ∈ q.numbers, n.isModerate = true) → ∀ n ∈ q.obfuscate.numbers, n.isPlain = true) := by
  have hq := Query.isWellFormed_of_parse h
  have hleaf (leaf) (hleaf : leaf ∈ q.leaves) := Query.isWellFormed_leaf hq hleaf
  refine ⟨fun s hs => Query.isWellFormed_obfuscate_leaf hq hs nofun,
    fun s hs => Query.isWellFormed_obfuscate_leaf hq hs nofun, ?_, fun layout hplain => ?_,
    fun layout hn limit htext => ?_, fun hmoderate => ?_⟩
  · rw [Query.obfuscate_eq, Query.numbers_relabel, List.forall_mem_map]
    exact fun n hn => isNegative_hideNumber
      (Number.isNegative_of_isPlain (hleaf _ (Query.mem_numbers.mp hn))) _
  · exact parse_text.1 _ ((Query.isWellFormed_obfuscate hq).mpr hplain) layout
  · obtain ⟨n, hn, hnot⟩ := hn
    have hplain := (Query.isWellFormed_obfuscate hq).mp (Query.isWellFormed_of_parse htext) n hn
    exact Bool.false_ne_true (hnot.symm.trans hplain)
  · rw [Query.obfuscate_eq, Query.numbers_relabel, List.forall_mem_map]
    exact fun n hn => isPlain_hideNumber (hleaf _ (Query.mem_numbers.mp hn)) (hmoderate n hn) _

/-- A stand-in moved by cents and a jitter of 0.1: the text is read back. -/
theorem parse_text_obfuscate_sum : ∃ q,
    Query.parse "SELECT VALUE c.total + 1234.5678 FROM customers c" 64 = .ok q ∧
      ∀ layout, ∃ bound, ∀ limit, bound ≤ limit →
        Query.parse (q.obfuscate.text layout) limit = .ok q.obfuscate := by
  obtain ⟨q, hq, hnumbers⟩ := exists_of_map
    (show (Query.parse "SELECT VALUE c.total + 1234.5678 FROM customers c" 64).toOption.map
      (fun q => q.numbers.all Number.isModerate) = some true by decide +kernel)
  obtain ⟨-, -, -, hread, -, hplain⟩ := parse_text_obfuscate hq
  exact ⟨q, hq, fun layout => hread layout (hplain (List.all_eq_true.mp hnumbers))⟩

/-- Next to the largest double the jitter leads to infinity, which is written like a name. So the
text with stand-ins is never read back. -/
theorem parse_text_obfuscate_infinite : ∃ q,
    Query.parse "SELECT VALUE 1.7976931348623157e308" 64 = .ok q ∧
      ∀ layout limit, Query.parse (q.obfuscate.text layout) limit ≠ .ok q.obfuscate := by
  obtain ⟨q, hq, hnumbers⟩ := exists_of_map
    (show (Query.parse "SELECT VALUE 1.7976931348623157e308" 64).toOption.map
      (fun q => q.obfuscate.numbers.any fun n => !n.isPlain) = some true by decide +kernel)
  refine ⟨q, hq, fun layout limit htext => ?_⟩
  have hplain := (Query.isWellFormed_obfuscate (Query.isWellFormed_of_parse hq)).mp
    (Query.isWellFormed_of_parse htext)
  obtain ⟨n, hn, hnot⟩ := List.any_eq_true.mp hnumbers
  rw [hplain n hn] at hnot
  cases hnot

end DocQuery
