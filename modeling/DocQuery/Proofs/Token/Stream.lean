import DocQuery.Proofs.Token.Spelling

/-!
# The tokens of a text

* `Scanner.Yields s ts`: from `s` on, the text is the tokens `ts` and nothing else.
* `Tokens text ts`: the whole text is the tokens `ts`.
* `Spells cs ts`: the characters `cs` are the tokens `ts`, wherever they stand.
* `Spells.read`, `Spells.token`, `Spells.blank`: how characters are put together from tokens and
  blanks.
-/

namespace DocQuery

open Text

/-- From here on the text is the tokens `ts`, and then it ends. -/
inductive Scanner.Yields : Scanner → List Token → Prop
  | done {s s' : Scanner} (h : s.next = (.ok .endOfText, s')) : Yields s []
  | step {s s' : Scanner} {t : Token} {ts : List Token} (h : s.next = (.ok t, s'))
      (hend : t ≠ .endOfText) (hrest : Yields s' ts) : Yields s (t :: ts)

/-- The whole text is the tokens `ts`: it is read without an error. -/
def Tokens (text : String) (ts : List Token) : Prop := (Scanner.ofText text).Yields ts

/-- The characters `cs` are the tokens `ts`, wherever in a text they stand. -/
def Spells (cs : List Char) (ts : List Token) : Prop :=
  ∀ s : Scanner, s.cursor.rest = cs → s.Yields ts

namespace Scanner

/-- The scanner of a text is told by the characters, however the text is put together. -/
theorem ofText_eq {text : String} {cs : List Char} (h : text.toList = cs) :
    ofText text = ⟨⟨cs, .start⟩, .start⟩ := by
  rw [← h]
  rfl

/-- A text has at most one list of tokens. -/
theorem Yields.unique {s : Scanner} {ts us : List Token} (h : s.Yields ts) (h' : s.Yields us) :
    ts = us := by
  induction h generalizing us with
  | done h =>
    cases h' with
    | done _ => rfl
    | step h' hend _ =>
      rw [h] at h'
      cases h'
      exact absurd rfl hend
  | step h hend _ ih =>
    cases h' with
    | done h' =>
      rw [h] at h'
      cases h'
      exact absurd rfl hend
    | step h' _ hrest =>
      rw [h] at h'
      cases h'
      rw [ih hrest]

/-- The tokens from a scanner on depend on what it gives next. -/
theorem Yields.congr {s s' : Scanner} {ts : List Token} (h : s.Yields ts) (hnext : s.next = s'.next) :
    s'.Yields ts := by
  cases h with
  | done h => exact .done (hnext ▸ h)
  | step h hend hrest => exact .step (hnext ▸ h) hend hrest

/-- A blank is passed over. -/
theorem next_blank {c : Char} (hc : isBlank c = true) (cs : List Char) (p start : Position) :
    next ⟨⟨c :: cs, p⟩, start⟩ = next ⟨⟨cs, p.step c⟩, start⟩ := by
  simp [next, Cursor.dropWhile, hc]

/-- What begins with no blank is read from there on. -/
theorem next_of_read {w cs : List Char} {p : Position} {r : Except ScanError Token} {d : Cursor}
    (hw : ∃ c ds, w = c :: ds ∧ isBlank c = false) (hread : Token.read ⟨w ++ cs, p⟩ = (r, d))
    (start : Position) : next ⟨⟨w ++ cs, p⟩, start⟩ = (r, ⟨d, p⟩) := by
  obtain ⟨c, ds, rfl, hc⟩ := hw
  have hblank : Cursor.dropWhile isBlank ⟨c :: ds ++ cs, p⟩ = ⟨c :: ds ++ cs, p⟩ := by
    simp [Cursor.dropWhile, hc]
  simp only [next, hblank, hread]

/-- The tokens of a text can be spelled. -/
theorem isSpellable_of_next {s s' : Scanner} {t : Token} (h : s.next = (.ok t, s'))
    (hend : t ≠ .endOfText) : t.isSpellable = true := by
  unfold next at h
  simp only [Prod.mk.injEq] at h
  exact Token.isSpellable_of_read (Prod.ext h.1 rfl) hend

end Scanner

/-! ## Putting characters together -/

namespace Spells

theorem nil : Spells [] [] := by
  rintro ⟨⟨rest, p⟩, start⟩ rfl
  exact .done rfl

/-- Blanks before a token make no difference. -/
theorem blank {c : Char} {cs : List Char} {ts : List Token} (hc : isBlank c = true)
    (h : Spells cs ts) : Spells (c :: cs) ts := by
  rintro ⟨⟨rest, p⟩, start⟩ rfl
  exact (h ⟨⟨cs, p.step c⟩, start⟩ rfl).congr (Scanner.next_blank hc cs p start).symm

theorem blanks {bs cs : List Char} {ts : List Token} (hbs : ∀ c ∈ bs, isBlank c = true)
    (h : Spells cs ts) : Spells (bs ++ cs) ts := by
  induction bs with
  | nil => exact h
  | cons b bs ih =>
    exact blank (hbs b List.mem_cons_self) (ih fun c hc => hbs c (List.mem_cons_of_mem _ hc))

/-- Characters that are read as a token, and behind them other tokens. -/
theorem read {t : Token} {w cs : List Char} {ts : List Token}
    (hw : ∃ c ds, w = c :: ds ∧ isBlank c = false)
    (hread : ∀ p, ∃ p', Token.read ⟨w ++ cs, p⟩ = (.ok t, ⟨cs, p'⟩)) (hend : t ≠ .endOfText)
    (h : Spells cs ts) : Spells (w ++ cs) (t :: ts) := by
  rintro ⟨⟨rest, p⟩, start⟩ rfl
  obtain ⟨p', hread⟩ := hread p
  exact .step (Scanner.next_of_read hw hread start) hend (h ⟨⟨cs, p'⟩, p⟩ rfl)

/-- A token, and behind it characters that do not go on with it. -/
theorem token {t : Token} {cs : List Char} {ts : List Token} (ht : t.isSpellable = true)
    (hapart : t.Apart cs) (h : Spells cs ts) : Spells (t.spelling.toList ++ cs) (t :: ts) := by
  refine read (Token.exists_spelling ht) (Token.read_spelling ht hapart) ?_ h
  rintro rfl
  cases ht

end Spells

/-- Characters that are tokens wherever they stand are so as a text. -/
theorem Spells.tokens {cs : List Char} {ts : List Token} (h : Spells cs ts) :
    Tokens (String.ofList cs) ts :=
  h _ (String.toList_ofList)

/-! ## Texts of given tokens -/

/-- No token goes on with a blank. -/
theorem Token.apart_blank (t : Token) {c : Char} (hc : isBlank c = true) (cs : List Char) :
    t.Apart (c :: cs) := by
  rintro _ ⟨⟩
  have hname : continuesName c = false := not_continuesName_of_isBlank hc
  have hne {d : Char} (hd : isBlank d = false) : (c == d) = false :=
    beq_eq_false_iff_ne.mpr (ne_of_class hc hd)
  have hnumber : continuesNumber c = false := by
    rw [continuesNumber, hname, hne (by decide)]
    rfl
  cases t with
  | mark m =>
    cases m with
    | dot => exact Bool.eq_false_iff.mpr fun hd => by simp [continuesName_of_isDigit hd] at hname
    | less | greater | pipe | question => exact hne (by decide)
    | _ => rfl
  | string _ | endOfText => rfl
  | integer _ | double _ => exact hnumber
  | identifier _ | parameter _ | keyword _ => exact hname

theorem Token.apart_space (t : Token) (cs : List Char) : t.Apart (' ' :: cs) :=
  t.apart_blank (by decide) cs

/-- A token, and other tokens behind a space. -/
theorem Spells.spaced {t : Token} {cs : List Char} {ts : List Token} (ht : t.isSpellable = true)
    (h : Spells cs ts) : Spells (t.spelling.toList ++ ' ' :: cs) (t :: ts) :=
  .token ht (t.apart_space cs) (.blank (by decide) h)

/-- Tokens that can be spelled are the tokens of some text. -/
theorem exists_tokens {ts : List Token} (h : ∀ t ∈ ts, t.isSpellable = true) :
    ∃ text, Tokens text ts := by
  suffices ∃ cs, Spells cs ts from this.imp' String.ofList fun _ => Spells.tokens
  induction ts with
  | nil => exact ⟨[], .nil⟩
  | cons t ts ih =>
    obtain ⟨cs, hcs⟩ := ih fun u hu => h u (List.mem_cons_of_mem _ hu)
    exact ⟨_, hcs.spaced (h t List.mem_cons_self)⟩

end DocQuery
