import DocQuery.Layout.Tree
import DocQuery.Proofs.Token.Stream

/-!
# Laid-out text is read back token by token

* `Layout.Legible`: each token of some pieces can be spelled, and what stands behind it does not go
  on with it.
* `Layout.Legible.spells`: the characters of such pieces are their tokens.
* `EndName`, `EndNumber`: what may stand behind a name, and behind a number.

The `simp` lemmas take pieces apart from the front, so that legibility of a tree's pieces comes down
to that of its parts with the characters behind each.
-/

namespace DocQuery

open Text Piece

/-- A name ends before these characters. -/
def EndName (cs : List Char) : Prop := ∀ c ∈ cs.head?, continuesName c = false

theorem EndNumber.endName {cs : List Char} (h : EndNumber cs) : EndName cs := fun c hc =>
  (Bool.or_eq_false_iff.mp (h c hc)).1

@[simp] theorem endNumber_nil : EndNumber [] := nofun

theorem endNumber_cons {c : Char} {cs : List Char} (h : continuesNumber c = false) :
    EndNumber (c :: cs) := by
  rintro c ⟨⟩
  exact h

@[simp] theorem endNumber_space (cs : List Char) : EndNumber (' ' :: cs) := by
  refine endNumber_cons ?_
  rw [continuesNumber, not_continuesName_of_isBlank (by decide)]
  rfl

@[simp] theorem endName_space (cs : List Char) : EndName (' ' :: cs) := (endNumber_space cs).endName

namespace Layout

variable {layout : Layout} {pieces : List Piece} {cs : List Char}

/-! ## Characters -/

/-- The characters of some pieces. -/
def chars (layout : Layout) (pieces : List Piece) : List Char := pieces.flatMap layout.pieceChars

@[simp] theorem chars_space (pieces : List Piece) :
    layout.chars (.space :: pieces) = ' ' :: layout.chars pieces := by
  cases layout <;> rfl

theorem chars_token (t : Token) (pieces : List Piece) :
    layout.chars (.token t :: pieces) = t.spelling.toList ++ layout.chars pieces := rfl

@[simp] theorem chars_mark (m : Mark) (pieces : List Piece) :
    layout.chars (.mark m :: pieces) = m.symbol.toList ++ layout.chars pieces := rfl

/-- A mark ends a name. -/
theorem endName_mark (m : Mark) : EndName (layout.chars (.mark m :: pieces) ++ cs) := by
  obtain ⟨c, ds, hsymbol, hc⟩ : ∃ c ds, m.symbol.toList = c :: ds ∧ continuesName c = false := by
    cases m <;> exact ⟨_, _, rfl, by decide⟩
  rw [chars_mark, hsymbol]
  rintro d ⟨⟩
  exact hc

/-- All marks but the point end a number. -/
theorem endNumber_mark {m : Mark} (hm : m ≠ .dot) :
    EndNumber (layout.chars (.mark m :: pieces) ++ cs) := by
  obtain ⟨c, ds, hsymbol, hc⟩ : ∃ c ds, m.symbol.toList = c :: ds ∧ continuesNumber c = false := by
    cases m
    case dot => exact absurd rfl hm
    all_goals exact ⟨_, _, rfl, by decide⟩
  rw [chars_mark, hsymbol]
  exact endNumber_cons hc

@[simp] theorem chars_gap (g : Gap) (pieces : List Piece) :
    layout.chars (.gap g :: pieces) = layout.gapChars g ++ layout.chars pieces := rfl

@[simp] theorem chars_append (ps qs : List Piece) :
    layout.chars (ps ++ qs) = layout.chars ps ++ layout.chars qs := List.flatMap_append

theorem isBlank_gapChars (layout : Layout) (g : Gap) : ∀ c ∈ layout.gapChars g, isBlank c = true := by
  have hline (indent : Nat) : ∀ c ∈ newLine indent, isBlank c = true := by
    intro c hc
    rcases List.mem_cons.mp hc with rfl | hc
    · decide
    · rw [List.eq_of_mem_replicate hc]
      decide
  have hspace : ∀ c ∈ [' '], isBlank c = true := List.forall_mem_singleton.mpr (by decide)
  cases layout <;> cases g <;> first | exact hline _ | exact hspace | exact nofun

/-- Behind a name or a number may stand any blank space. -/
theorem endNumber_gap (g : Gap) (h : EndNumber cs) : EndNumber (layout.gapChars g ++ cs) := by
  cases hgap : layout.gapChars g with
  | nil => exact h
  | cons c ds =>
    have hc : isBlank c = true :=
      layout.isBlank_gapChars g c (hgap ▸ List.mem_cons_self)
    refine endNumber_cons ?_
    rw [continuesNumber, not_continuesName_of_isBlank hc, beq_eq_false_iff_ne.mpr]
    · rfl
    · exact ne_of_class hc (by decide)

/-! ## Legible pieces -/

/-- Each token can be spelled, and what stands behind it does not go on with it. The characters `cs`
stand behind all pieces. -/
def Legible (layout : Layout) : List Piece → List Char → Prop
  | [], _ => True
  | .token t :: rest, cs =>
    t.isSpellable = true ∧ t.Apart (layout.chars rest ++ cs) ∧ layout.Legible rest cs
  | .gap _ :: rest, cs => layout.Legible rest cs

/-- The characters of legible pieces are their tokens. -/
theorem Legible.spells (h : layout.Legible pieces []) :
    Spells (layout.chars pieces) (tokens pieces) := by
  induction pieces with
  | nil => exact .nil
  | cons p pieces ih =>
    cases p with
    | token t =>
      obtain ⟨ht, hapart, hrest⟩ := h
      rw [List.append_nil] at hapart
      exact .token ht hapart (ih hrest)
    | gap g => exact .blanks (layout.isBlank_gapChars g) (ih h)

@[simp] theorem legible_nil : layout.Legible [] cs := trivial

@[simp] theorem legible_append {ps qs : List Piece} : layout.Legible (ps ++ qs) cs ↔
    layout.Legible ps (layout.chars qs ++ cs) ∧ layout.Legible qs cs := by
  induction ps with
  | nil => simp [Legible]
  | cons p ps ih =>
    cases p with
    | token t =>
      simp only [List.cons_append, Legible, ih, chars_append, List.append_assoc, and_assoc]
    | gap g => exact ih

@[simp] theorem legible_space : layout.Legible (.space :: pieces) cs ↔ layout.Legible pieces cs :=
  Iff.rfl

@[simp] theorem legible_gap {g : Gap} :
    layout.Legible (.gap g :: pieces) cs ↔ layout.Legible pieces cs :=
  Iff.rfl

theorem legible_mark {m : Mark} (hm : ∀ c, (Token.mark m).goesOnWith c = false) :
    layout.Legible (.mark m :: pieces) cs ↔ layout.Legible pieces cs :=
  ⟨fun h => h.2.2, fun h => ⟨rfl, fun c _ => hm c, h⟩⟩

@[simp] theorem legible_keyword {k : Keyword} : layout.Legible (.keyword k :: pieces) cs ↔
    EndName (layout.chars pieces ++ cs) ∧ layout.Legible pieces cs :=
  ⟨fun h => h.2, fun h => ⟨rfl, h⟩⟩

end Layout

end DocQuery
