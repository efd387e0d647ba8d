import DocQuery.Proofs.Obfuscation.Session
import DocQuery.Proofs.Obfuscation.Shape

/-!
# What stand-ins tell

* `Tree.SamePattern`: trees of one shape with the same numbers, whose words are alike and are equal at
  the same places.
* `Tree.obfuscate_eq_of_samePattern`: with stand-ins from an empty ledger, they are one tree.

The words of both trees are taken together, as pairs of what stands at one place. Pairs are told apart
by either of their words, so each ledger lists the same pairs at the same places.
-/

namespace DocQuery

open Ledger

/-! ## First occurrences of renamed items -/

section

variable {α β : Type} [BEq α] [LawfulBEq α] [BEq β] [LawfulBEq β] {f : α → β}

theorem eraseDups_map {as : List α} (h : ∀ a ∈ as, ∀ b ∈ as, f a = f b → a = b) :
    (as.map f).eraseDups = as.eraseDups.map f := by
  induction as using List.reverseRecOn with
  | nil => rfl
  | append_singleton as a ih =>
    have hmem : f a ∈ as.map f ↔ a ∈ as := by
      refine ⟨fun hfa => ?_, List.mem_map_of_mem⟩
      obtain ⟨b, hb, hba⟩ := List.mem_map.mp hfa
      rwa [← h b (List.mem_append_left _ hb) a (by simp) hba]
    rw [List.map_append, List.map_singleton, eraseDups_concat, eraseDups_concat, List.map_append,
      ih fun b hb c hc => h b (List.mem_append_left _ hb) c (List.mem_append_left _ hc)]
    by_cases ha : a ∈ as <;> simp only [List.contains_iff_mem, hmem, ha] <;> rfl

theorem idxOf_map {as : List α} {a : α} (h : ∀ b ∈ as, f b = f a → b = a) :
    (as.map f).idxOf (f a) = as.idxOf a := by
  induction as with
  | nil => rfl
  | cons b bs ih =>
    rw [List.map_cons, List.idxOf_cons, List.idxOf_cons,
      ih fun c hc => h c (List.mem_cons_of_mem _ hc)]
    have hb := h b List.mem_cons_self
    by_cases hba : b = a <;> grind

end

/-! ## Patterns -/

/-- The leaves may stand at one place of two trees of one pattern. -/
inductive Leaf.Alike : Leaf → Leaf → Prop
  /-- Words that identify nobody are the same. -/
  | kept {category : Category} {s : String} : keepsWord category s = true →
    Alike (.word category s) (.word category s)
  /-- Other words are as long as each other, or both have less than ten characters. -/
  | hidden {category : Category} {s t : String} : keepsWord category s = false →
    keepsWord category t = false →
    ((category.sigil ++ s).length = (category.sigil ++ t).length ∨
      (category.sigil ++ s).length < 10 ∧ (category.sigil ++ t).length < 10) →
    Alike (.word category s) (.word category t)
  | number (n : Number) : Alike (.number n) (.number n)
  | function (name : String) : Alike (.function name) (.function name)
  /-- Counts may be anything. -/
  | count (e f : Scalar) : Alike (.count e) (.count f)

/-- Trees of one shape whose leaves are alike and whose words of each category are equal at the same
places. -/
structure Tree.SamePattern (t u : Tree) : Prop where
  shape : t.shape = u.shape
  alike : ∀ p ∈ t.leaves.zip u.leaves, p.1.Alike p.2
  equal : ∀ category s s' v v',
    (.word category s, .word category s') ∈ t.leaves.zip u.leaves →
    (.word category v, .word category v') ∈ t.leaves.zip u.leaves → (s = v ↔ s' = v')

/-! ## Leaves taken together -/

/-- The words of a category that are hidden at one place. -/
def hiddenPair? (category : Category) : Leaf × Leaf → Option (String × String)
  | (.word c s, .word _ t) => if c = category ∧ keepsWord c s = false then some (s, t) else none
  | _ => none

section

variable {pairs : List (Leaf × Leaf)} {category : Category} {s t : String}

theorem hiddenWord?_fst {p : Leaf × Leaf} (h : p.1.Alike p.2) :
    p.1.hiddenWord? category = (hiddenPair? category p).map Prod.fst := by
  obtain ⟨a, b⟩ := p
  cases h with
  | kept hs => simp [Leaf.hiddenWord?, hiddenPair?, hs]
  | hidden hs ht hlen => simp only [Leaf.hiddenWord?, hiddenPair?]; split <;> rfl
  | _ => rfl

theorem hiddenWord?_snd {p : Leaf × Leaf} (h : p.1.Alike p.2) :
    p.2.hiddenWord? category = (hiddenPair? category p).map Prod.snd := by
  obtain ⟨a, b⟩ := p
  cases h with
  | kept hs => simp [Leaf.hiddenWord?, hiddenPair?, hs]
  | hidden hs ht hlen => simp only [Leaf.hiddenWord?, hiddenPair?, hs, ht]; split <;> rfl
  | _ => rfl

/-- The hidden words of both trees are the two sides of the hidden pairs. -/
theorem hiddenWords_map_fst (h : ∀ p ∈ pairs, p.1.Alike p.2) :
    hiddenWords category (pairs.map Prod.fst) =
      (pairs.filterMap (hiddenPair? category)).map Prod.fst := by
  rw [hiddenWords, List.filterMap_map, List.map_filterMap]
  exact List.filterMap_congr fun p hp => hiddenWord?_fst (h p hp)

theorem hiddenWords_map_snd (h : ∀ p ∈ pairs, p.1.Alike p.2) :
    hiddenWords category (pairs.map Prod.snd) =
      (pairs.filterMap (hiddenPair? category)).map Prod.snd := by
  rw [hiddenWords, List.filterMap_map, List.map_filterMap]
  exact List.filterMap_congr fun p hp => hiddenWord?_snd (h p hp)

theorem mem_of_mem_hiddenPairs (h : ∀ p ∈ pairs, p.1.Alike p.2)
    (hst : (s, t) ∈ pairs.filterMap (hiddenPair? category)) :
    (.word category s, .word category t) ∈ pairs := by
  obtain ⟨⟨a, b⟩, hp, hpair⟩ := List.mem_filterMap.mp hst
  have halike := h _ hp
  unfold hiddenPair? at hpair
  split at hpair
  · rename_i c s d t hwords
    cases hwords
    obtain rfl : c = d := by cases halike <;> rfl
    split at hpair
    · rename_i hc
      cases hpair
      rwa [hc.1] at hp
    · cases hpair
  · cases hpair

/-- A hidden pair has the same place among the words of both trees. -/
theorem idxOf_hiddenWords (halike : ∀ p ∈ pairs, p.1.Alike p.2)
    (hequal : ∀ category s s' v v', (.word category s, .word category s') ∈ pairs →
      (.word category v, .word category v') ∈ pairs → (s = v ↔ s' = v'))
    (hst : (.word category s, .word category t) ∈ pairs) (hs : keepsWord category s = false) :
    (hiddenWords category (pairs.map Prod.fst)).eraseDups.idxOf s =
      (hiddenWords category (pairs.map Prod.snd)).eraseDups.idxOf t := by
  rw [hiddenWords_map_fst halike, hiddenWords_map_snd halike]
  have hmem : (s, t) ∈ pairs.filterMap (hiddenPair? category) :=
    List.mem_filterMap.mpr ⟨_, hst, by simp [hiddenPair?, hs]⟩
  have hiff : ∀ p ∈ pairs.filterMap (hiddenPair? category),
      ∀ q ∈ pairs.filterMap (hiddenPair? category), (p.1 = q.1 ↔ p.2 = q.2) := fun p hp q hq =>
    hequal category _ _ _ _ (mem_of_mem_hiddenPairs halike hp) (mem_of_mem_hiddenPairs halike hq)
  generalize pairs.filterMap (hiddenPair? category) = hidden at hmem hiff
  have hfst : ∀ p ∈ hidden, ∀ q ∈ hidden, p.1 = q.1 → p = q :=
    fun p hp q hq h => Prod.ext h ((hiff p hp q hq).mp h)
  have hsnd : ∀ p ∈ hidden, ∀ q ∈ hidden, p.2 = q.2 → p = q :=
    fun p hp q hq h => Prod.ext ((hiff p hp q hq).mpr h) h
  rw [eraseDups_map hfst, eraseDups_map hsnd]
  calc (hidden.eraseDups.map Prod.fst).idxOf s
      = hidden.eraseDups.idxOf (s, t) :=
        idxOf_map (a := (s, t)) fun p hp => hfst p (List.mem_eraseDups.mp hp) _ hmem
    _ = (hidden.eraseDups.map Prod.snd).idxOf t :=
        (idxOf_map (a := (s, t)) fun p hp => hsnd p (List.mem_eraseDups.mp hp) _ hmem).symm

theorem numbers_record {a b : Leaf} (h : a.Alike b) {l l' : Ledger}
    (hl : l.numbers = l'.numbers) : (l.record a).numbers = (l'.record b).numbers := by
  cases h with
  | kept _ => exact (numbers_hideString _ _ l).trans (hl.trans (numbers_hideString _ _ l').symm)
  | hidden _ _ _ => exact (numbers_hideString _ _ l).trans (hl.trans (numbers_hideString _ _ l').symm)
  | number n =>
    rw [record, record]
    cases hn : n.isExempt with
    | true => rwa [hideNumber_of_isExempt hn, hideNumber_of_isExempt hn]
    | false =>
      by_cases hex : ∃ m ∈ l.numbers, m.same n = true
      · rwa [hideNumber_of_exists hn hex, hideNumber_of_exists hn (hl ▸ hex)]
      · have hall : ∀ m ∈ l.numbers, m.same n = false := by simpa using hex
        rw [hideNumber_of_forall hn hall, hideNumber_of_forall hn (hl ▸ hall), hl]
  | function _ => exact hl
  | count _ _ => exact hl

/-- The ledgers of both trees list the same numbers. -/
theorem numbers_recordAll (h : ∀ p ∈ pairs, p.1.Alike p.2) {l l' : Ledger}
    (hl : l.numbers = l'.numbers) : (l.recordAll (pairs.map Prod.fst)).numbers =
      (l'.recordAll (pairs.map Prod.snd)).numbers := by
  induction pairs generalizing l l' with
  | nil => exact hl
  | cons p pairs ih =>
    exact ih (fun q hq => h q (List.mem_cons_of_mem _ hq))
      (numbers_record (h p List.mem_cons_self) hl)

/-- Below ten characters a stand-in does not tell the length. -/
theorem stringStandIn_congr {ordinal m n : Nat} (h : m = n ∨ m < 10 ∧ n < 10) :
    stringStandIn category ordinal m = stringStandIn category ordinal n := by
  obtain rfl | ⟨hm, hn⟩ := h
  · rfl
  · rw [stringStandIn, stringStandIn, if_pos hm, if_pos hn]

/-- Alike leaves have the same stand-ins. -/
theorem relabel_eq_of_alike (halike : ∀ p ∈ pairs, p.1.Alike p.2)
    (hequal : ∀ category s s' v v', (.word category s, .word category s') ∈ pairs →
      (.word category v, .word category v') ∈ pairs → (s = v ↔ s' = v')) :
    ∀ p ∈ pairs, p.1.relabel (empty.recordAll (pairs.map Prod.fst)).relabeling =
      p.2.relabel (empty.recordAll (pairs.map Prod.snd)).relabeling := by
  rintro ⟨a, b⟩ hp
  cases halike _ hp with
  | kept hs => simp only [Leaf.relabel, relabeling, hideString_of_keeps hs]
  | @hidden c s t hs ht hlen =>
    have hplace := idxOf_hiddenWords halike hequal hp hs
    simp only [Leaf.relabel, relabeling, hideString_fst hs, hideString_fst ht, stringsOf_recordAll,
      hplace, wordStandIn, stringStandIn_congr hlen]
  | number n =>
    have hnumbers := numbers_recordAll halike (l := empty) rfl
    cases hn : n.isExempt with
    | true => simp only [Leaf.relabel, relabeling, hideNumber_of_isExempt hn]
    | false => simp only [Leaf.relabel, relabeling, hideNumber_fst hn, hnumbers]
  | function name => rfl
  | count e f => rfl

end

theorem Tree.length_leaves_shape (t : Tree) : t.shape.leaves.length = t.leaves.length := by
  rw [shape, leaves_relabel, List.length_map]

/-- Trees of one shape with the same leaves are equal. -/
theorem Tree.eq_of_shape {t u : Tree} (h : t.shape = u.shape) (hleaves : t.leaves = u.leaves) :
    t = u := by
  cases t with
  | query q =>
    cases u with
    | query r => exact congrArg Tree.query (Query.eq_of_shape (Tree.query.inj h) hleaves)
    | scalar e => cases h
  | scalar e =>
    cases u with
    | query q => cases h
    | scalar f => exact congrArg Tree.scalar (Scalar.eq_of_shape (Tree.scalar.inj h) hleaves)

/-- Trees of one pattern have the same stand-ins: what is hidden of a tree cannot be told from them. -/
theorem Tree.obfuscate_eq_of_samePattern {t u : Tree} (h : t.SamePattern u) :
    t.obfuscate = u.obfuscate := by
  have hlength : t.leaves.length = u.leaves.length := by
    rw [← t.length_leaves_shape, h.shape, u.length_leaves_shape]
  have hfst : (t.leaves.zip u.leaves).map Prod.fst = t.leaves := List.map_fst_zip hlength.le
  have hsnd : (t.leaves.zip u.leaves).map Prod.snd = u.leaves := List.map_snd_zip hlength.ge
  have hleaves := relabel_eq_of_alike h.alike h.equal
  rw [hfst, hsnd] at hleaves
  rw [obfuscate_eq, obfuscate_eq]
  refine eq_of_shape (by rw [shape_relabel, shape_relabel, h.shape]) ?_
  rw [leaves_relabel, leaves_relabel]
  generalize (empty.recordAll t.leaves).relabeling = ρ at hleaves ⊢
  generalize (empty.recordAll u.leaves).relabeling = σ at hleaves ⊢
  calc t.leaves.map (Leaf.relabel ρ)
      = (t.leaves.zip u.leaves).map (Leaf.relabel ρ ∘ Prod.fst) := by rw [← List.map_map, hfst]
    _ = (t.leaves.zip u.leaves).map (Leaf.relabel σ ∘ Prod.snd) := List.map_congr_left hleaves
    _ = u.leaves.map (Leaf.relabel σ) := by rw [← List.map_map, hsnd]

/-- `SELECT TOP count VALUE owner.name` -/
def valueQuery (count : Scalar) (owner name : String) : Tree :=
  .query ⟨false, some count, .value (.property (.name owner) name), none, none, none, none, none⟩

/-- `SELECT TOP 5 VALUE customers.address` and `SELECT TOP @n VALUE invoices.amount` are one query
with stand-ins. -/
theorem obfuscate_customers_eq_invoices :
    (valueQuery (.number (.integer 5)) "customers" "address").obfuscate =
      (valueQuery (.parameter "n") "invoices" "amount").obfuscate := by
  have hpairs : (valueQuery (.number (.integer 5)) "customers" "address").leaves.zip
      (valueQuery (.parameter "n") "invoices" "amount").leaves =
      [(.count (.number (.integer 5)), .count (.parameter "n")),
        (.word .identifier "customers", .word .identifier "invoices"),
        (.word .identifier "address", .word .identifier "amount")] := rfl
  refine Tree.obfuscate_eq_of_samePattern ⟨rfl, ?_, ?_⟩
  · rw [hpairs]
    simp only [List.forall_mem_cons]
    exact ⟨.count _ _, .hidden (by decide) (by decide) (by decide),
      .hidden (by decide) (by decide) (by decide), nofun⟩
  · rw [hpairs]
    intro c s s' v v' hs hv
    simp only [List.mem_cons, Prod.mk.injEq, Leaf.word.injEq, List.not_mem_nil] at hs hv
    grind

end DocQuery
