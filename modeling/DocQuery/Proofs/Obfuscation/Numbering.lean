import DocQuery.Proofs.Obfuscation.StandIn
import DocQuery.Proofs.Obfuscation.TextOrder

/-!
# Stand-ins of words are numbered by first occurrence

* `sessionStandIn`: the stand-in of a word, told by its place among the words of a session.
* `obfuscateSession_numbers`: sessions put these stand-ins for the words of their trees, in the order
  of the texts, and they rename the words of each category apart, once and for all.
-/

namespace DocQuery

/-- The category and the text of a word. -/
def Leaf.word? : Leaf → Option (Category × String)
  | .word category text => some (category, text)
  | _ => none

namespace Tree

/-- The names and strings of a tree in the order of its text, but for function names and what stands
in counts. -/
def names (t : Tree) : List (Category × String) := t.leaves.filterMap Leaf.word?

/-- The pieces of a tree. -/
def pieces : Tree → List Piece
  | .query q => q.pieces 0
  | .scalar e => e.pieces 0

/-- The text of a tree. -/
def text (layout : Layout) : Tree → String
  | .query q => q.text layout
  | .scalar e => e.text layout

end Tree

/-- The hidden strings of a category in a session, each at its first occurrence. -/
def sessionStrings (trees : List Tree) (category : Category) : List String :=
  (hiddenWords category (trees.flatMap Tree.leaves)).eraseDups

/-- The stand-in of a string in a session. -/
def sessionStandIn (trees : List Tree) (category : Category) (s : String) : String :=
  if Ledger.keepsWord category s then s
  else Ledger.wordStandIn category (Ledger.ordinal ((sessionStrings trees category).idxOf s)) s

open Ledger

variable {trees : List Tree} {category c : Category} {s t : String}

theorem mem_names :
    (c, s) ∈ trees.flatMap Tree.names ↔ .word c s ∈ trees.flatMap Tree.leaves := by
  have hword (leaf : Leaf) : leaf.word? = some (c, s) ↔ leaf = .word c s := by
    cases leaf <;> simp [Leaf.word?]
  simp [List.mem_flatMap, Tree.names, List.mem_filterMap, hword]

/-- The hidden strings of a session are those that occur and do not keep their spelling. -/
theorem mem_sessionStrings : s ∈ sessionStrings trees c ↔
    (c, s) ∈ trees.flatMap Tree.names ∧ keepsWord c s = false := by
  have hhidden (leaf : Leaf) :
      leaf.hiddenWord? c = some s ↔ leaf = .word c s ∧ keepsWord c s = false := by
    cases leaf <;> simp [Leaf.hiddenWord?]
    grind
  rw [sessionStrings, List.mem_eraseDups, hiddenWords, List.mem_filterMap, mem_names]
  simp [hhidden]

theorem sessionStandIn_of_keeps (h : keepsWord c s = true) : sessionStandIn trees c s = s :=
  if_pos h

theorem sessionStandIn_of_hidden (h : keepsWord c s = false) : sessionStandIn trees c s =
    wordStandIn c (ordinal ((sessionStrings trees c).idxOf s)) s :=
  if_neg (Bool.eq_false_iff.mp h)

theorem sessionStandIn_eq (trees : List Tree) (c : Category) (s : String) :
    sessionStandIn trees c s = (sessionLedger trees).relabeling.word c s := by
  cases h : keepsWord c s with
  | true => exact (sessionStandIn_of_keeps h).trans (congrArg Prod.fst (hideString_of_keeps h _)).symm
  | false =>
    refine (sessionStandIn_of_hidden h).trans (Eq.trans ?_ (hideString_fst h _).symm)
    rw [sessionLedger, stringsOf_recordAll, sessionStrings]

theorem nodup_eraseDups (as : List String) : as.eraseDups.Nodup := by
  induction as using List.reverseRecOn with
  | nil => exact List.nodup_nil
  | append_singleton as a ih =>
    rw [eraseDups_concat]
    by_cases ha : a ∈ as
    · simpa [ha] using ih
    · have hnot : ∀ b ∈ as, b ≠ a := fun b hb hba => ha (hba ▸ hb)
      simpa [ha, List.nodup_append, ih] using hnot

/-- The stand-in of the hidden string at a place of its category. -/
theorem sessionStandIn_of_getElem? {j : Nat} (h : (sessionStrings trees c)[j]? = some s) :
    sessionStandIn trees c s = wordStandIn c ((j + 1) % 2 ^ 32) s := by
  obtain ⟨hj, rfl⟩ := List.getElem?_eq_some_iff.mp h
  have hnodup : (sessionStrings trees c).Nodup := nodup_eraseDups _
  rw [sessionStandIn_of_hidden (mem_sessionStrings.mp (List.getElem_mem hj)).2,
    hnodup.idxOf_getElem j hj, ordinal_eq]

/-- Equal stand-ins of a category stand for equal strings, where the counter does not wrap around. -/
theorem sessionStandIn_inj (hfew : (sessionStrings trees c).length < 2 ^ 32)
    (hs : (c, s) ∈ trees.flatMap Tree.names)
    (h : sessionStandIn trees c s = sessionStandIn trees c t) : s = t := by
  cases hks : keepsWord c s with
  | true =>
    rw [sessionStandIn_of_keeps hks] at h
    cases hkt : keepsWord c t with
    | true => rwa [sessionStandIn_of_keeps hkt] at h
    | false =>
      rw [h, sessionStandIn_of_hidden hkt, wordStandIn, keepsWord_stringStandIn] at hks
      cases hks
  | false =>
    rw [sessionStandIn_of_hidden hks] at h
    cases hkt : keepsWord c t with
    | true =>
      rw [sessionStandIn_of_keeps hkt] at h
      rw [← h, wordStandIn, keepsWord_stringStandIn] at hkt
      cases hkt
    | false =>
      rw [sessionStandIn_of_hidden hkt] at h
      have hlt {u : String} : (sessionStrings trees c).idxOf u < 2 ^ 32 :=
        List.idxOf_le_length.trans_lt hfew
      have hplace := ordinal_inj hlt hlt (stringStandIn_inj h)
      exact (List.idxOf_inj (mem_sessionStrings.mpr ⟨hs, hks⟩)).mp hplace

/-- A string that has a stand-in keeps it when the session goes on. -/
theorem sessionStandIn_append (more : List Tree) (hs : (c, s) ∈ trees.flatMap Tree.names) :
    sessionStandIn (trees ++ more) c s = sessionStandIn trees c s := by
  cases h : keepsWord c s with
  | true => rw [sessionStandIn_of_keeps h, sessionStandIn_of_keeps h]
  | false =>
    have hprefix : sessionStrings trees c <+: sessionStrings (trees ++ more) c := by
      rw [sessionStrings, sessionStrings, List.flatMap_append, hiddenWords, hiddenWords,
        List.filterMap_append, List.eraseDups_append]
      exact List.prefix_append _ _
    have hplace := hprefix.idxOf_eq_of_mem (mem_sessionStrings.mpr ⟨hs, h⟩)
    rw [sessionStandIn_of_hidden h, sessionStandIn_of_hidden h, hplace]

namespace Tree

theorem words_pieces (t : Tree) : Piece.words t.pieces = leafTokens t.leaves := by
  cases t with
  | query q => exact q.words_pieces 0
  | scalar e => exact e.words_pieces 0

theorem text_eq (t : Tree) (layout : Layout) : t.text layout = layout.render t.pieces := by
  cases t <;> rfl

theorem names_relabel (ρ : Relabeling) (t : Tree) :
    (t.relabel ρ).names = t.names.map fun (c, s) => (c, ρ.word c s) := by
  have hword (leaf : Leaf) :
      (leaf.relabel ρ).word? = leaf.word?.map fun (c, s) => (c, ρ.word c s) := by
    cases leaf <;> rfl
  rw [names, leaves_relabel]
  exact filterMap_relabel hword t.leaves

end Tree

/-- Sessions number the stand-ins of words by first occurrence.

The literals and names of a text, from left to right, are the leaves of its tree. At each occurrence
a word has the stand-in that the session has for it: a word that identifies nobody stays, and any
other is told by its category and its number there, and by its length from ten characters on. The
numbers are those of `sessionStrings`, counted from 1 and in 32 bits. A parameter counts with its `@`,
which is written in front of it and of its stand-in. As long as a category has fewer than `2 ^ 32`
hidden words, its words are told apart by their stand-ins. Neither trees nor stand-ins change when the
session goes on. -/
theorem obfuscateSession_numbers (trees more : List Tree) :
    (∀ (t : Tree) (layout : Layout), t.text layout = layout.render t.pieces ∧
      Piece.words t.pieces = leafTokens t.leaves) ∧
    (obfuscateSession trees).map Tree.names =
      trees.map (fun t => t.names.map fun (c, s) => (c, sessionStandIn trees c s)) ∧
    (∀ c s, isExemptString (c.sigil ++ s) = true → sessionStandIn trees c s = s) ∧
    (∀ c s, s ∈ sessionStrings trees c ↔
      (c, s) ∈ trees.flatMap Tree.names ∧ isExemptString (c.sigil ++ s) = false) ∧
    (∀ c s j, (sessionStrings trees c)[j]? = some s → sessionStandIn trees c s =
      c.stem ++ toString ((j + 1) % 2 ^ 32) ++
        (if (c.sigil ++ s).length < 10 then "" else "__" ++ toString (c.sigil ++ s).length)) ∧
    (∀ c, (sessionStrings trees c).length < 2 ^ 32 → ∀ s t, (c, s) ∈ trees.flatMap Tree.names →
      sessionStandIn trees c s = sessionStandIn trees c t → s = t) ∧
    obfuscateSession trees <+: obfuscateSession (trees ++ more) ∧
    ∀ c s, (c, s) ∈ trees.flatMap Tree.names →
      sessionStandIn (trees ++ more) c s = sessionStandIn trees c s := by
  refine ⟨fun t layout => ⟨t.text_eq layout, t.words_pieces⟩, ?_, fun _ _ => sessionStandIn_of_keeps,
    fun _ _ => mem_sessionStrings, fun _ _ _ => sessionStandIn_of_getElem?,
    fun _ hfew _ _ => sessionStandIn_inj hfew, obfuscateSession_append trees more,
    fun _ _ => sessionStandIn_append more⟩
  simp only [obfuscateSession_eq, List.map_map, sessionStandIn_eq]
  exact List.map_congr_left fun t _ => t.names_relabel _

/-- `customers.id`, and then `[customers.identifier, @customers]`. -/
def customerSession : List Tree := [
  .scalar (.property (.name "customers") "id"),
  .scalar (.array [.property (.name "customers") "identifier", .parameter "customers"])]

/-- `id` stays, the second identifier has ten characters, and so has `@customers`. -/
theorem customerSession_numbers :
    sessionStandIn customerSession .identifier "id" = "id" ∧
    sessionStandIn customerSession .identifier "customers" = "ident1" ∧
    sessionStandIn customerSession .identifier "identifier" = "ident2__10" ∧
    sessionStandIn customerSession .parameter "customers" = "param1__10" ∧
    sessionStandIn customerSession .identifier "customers" ≠
      sessionStandIn customerSession .identifier "identifier" ∧
    sessionStandIn (customerSession ++ customerSession) .identifier "identifier" =
      sessionStandIn customerSession .identifier "identifier" := by
  obtain ⟨-, -, hkeeps, -, hnumber, hinj, -, hlater⟩ :=
    obfuscateSession_numbers customerSession customerSession
  refine ⟨hkeeps _ _ (by decide +kernel), hnumber _ _ 0 (by decide +kernel),
    hnumber _ _ 1 (by decide +kernel), hnumber _ _ 0 (by decide +kernel), fun h => ?_,
    hlater _ _ (by decide +kernel)⟩
  exact absurd (hinj _ (by decide +kernel) _ _ (by decide +kernel) h) (by decide)

end DocQuery
