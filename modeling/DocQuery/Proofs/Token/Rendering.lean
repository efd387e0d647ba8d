import DocQuery.Proofs.Token.Stream
import DocQuery.Proofs.Token.Forward

/-!
# Layout and case make no difference

Tokens can be written with any blanks between them, and keywords in small letters, capitals or both.
Read one after the other, they are the same tokens.

* `Token.SpelledAs t w`: the characters `w` spell the token `t`, a keyword in any mix of cases. The
  printer's spelling is one of them (`Token.SpelledAs.self`).
* `Rendered ts cs`: the characters `cs` are spellings of the tokens `ts`, with blanks between them.
* `Scanner.answers s n`: what a scanner answers if it is asked for a token `n` times.
* `Scanner.answers_rendered`: a scanner of tokens so written answers them, and then that the text
  has ended, however often it is asked again.
-/

namespace DocQuery

open Text

/-- The characters `w` are the letters `capitals`, each as it is or small. -/
def SameLetters (w capitals : List Char) : Prop :=
  List.Forall₂ (fun c k => c = k ∨ c = k.toLower) w capitals

instance (w capitals : List Char) : Decidable (SameLetters w capitals) :=
  inferInstanceAs (Decidable (List.Forall₂ _ w capitals))

/-- The characters `w` spell the token `t`: as the printer writes it, but for the case of the
letters of a keyword. -/
def Token.SpelledAs (t : Token) (w : List Char) : Prop :=
  match t with
  | .keyword word => SameLetters w word.capitals.toList
  | t => w = t.spelling.toList

/-- Nothing but characters that separate tokens. -/
def Blanks (cs : List Char) : Prop := ∀ c ∈ cs, isBlank c = true

instance (cs : List Char) : Decidable (Blanks cs) :=
  decidable_of_iff (cs.all isBlank = true) List.all_eq_true

/-- The characters `cs` are spellings of the tokens `ts`, each with blanks behind it: with one at
least if another token follows. -/
inductive Rendered : List Token → List Char → Prop
  | nil : Rendered [] []
  | cons {t : Token} {ts : List Token} {w bs cs : List Char} (hw : t.SpelledAs w) (hbs : Blanks bs)
    (hgap : ts ≠ [] → bs ≠ []) (hrest : Rendered ts cs) : Rendered (t :: ts) (w ++ (bs ++ cs))

/-! ## Keywords in any case -/

/-- What the letters of keywords have in common: the small letter goes back to the capital, and
names can begin with both. -/
private def IsCapital (k : Char) : Prop :=
  (k.toUpper = k ∧ k.toLower.toUpper = k) ∧ beginsName k = true ∧ beginsName k.toLower = true

private instance (k : Char) : Decidable (IsCapital k) := inferInstanceAs (Decidable (_ ∧ _))

private theorem isCapital_of_mem (word : Keyword) : ∀ k ∈ word.capitals.toList, IsCapital k := by
  have hall : word.capitals.toList.all (IsCapital ·) = true := by cases word <;> decide +kernel
  exact fun k hk => of_decide_eq_true (List.all_eq_true.mp hall k hk)

private theorem capitals_ne_nil (word : Keyword) : word.capitals.toList ≠ [] := by
  cases word <;> decide +kernel

private theorem find?_capitals (word : Keyword) :
    Keyword.all.find? (·.capitals == word.capitals) = some word := by
  cases word <;> decide +kernel

namespace SameLetters

variable {w capitals : List Char}

private theorem beginsName (h : SameLetters w capitals) (hcapitals : ∀ k ∈ capitals, IsCapital k) :
    ∀ c ∈ w, Text.beginsName c = true := by
  induction h with
  | nil => nofun
  | @cons c k w capitals hcase _ ih =>
    obtain ⟨⟨-, hcapital, hsmall⟩, hrest⟩ := List.forall_mem_cons.mp hcapitals
    refine List.forall_mem_cons.mpr ⟨?_, ih hrest⟩
    rcases hcase with rfl | rfl
    · exact hcapital
    · exact hsmall

private theorem map_toUpper (h : SameLetters w capitals)
    (hcapitals : ∀ k ∈ capitals, IsCapital k) : w.map Char.toUpper = capitals := by
  induction h with
  | nil => rfl
  | @cons c k w capitals hcase _ ih =>
    obtain ⟨⟨⟨hcapital, hsmall⟩, -⟩, hrest⟩ := List.forall_mem_cons.mp hcapitals
    have hc : c.toUpper = k := by
      rcases hcase with rfl | rfl
      · exact hcapital
      · exact hsmall
    rw [List.map_cons, hc, ih hrest]

private theorem exists_cons (h : SameLetters w capitals) (hcapitals : capitals ≠ []) :
    ∃ c ds, w = c :: ds := by
  cases h with
  | nil => exact absurd rfl hcapitals
  | cons => exact ⟨_, _, rfl⟩

end SameLetters

namespace Token

variable {t : Token} {w cs : List Char}

/-- A keyword is recognised in any mix of cases, wherever its name ends. -/
private theorem read_keyword {word : Keyword} (hw : SameLetters w word.capitals.toList)
    (h : (keyword word).Apart cs) (p : Position) :
    ∃ p', Token.read ⟨w ++ cs, p⟩ = (.ok (keyword word), ⟨cs, p'⟩) := by
  have hbegins := hw.beginsName (isCapital_of_mem word)
  have hword : Keyword.ofChars? w = some word := by
    rw [Keyword.ofChars?, hw.map_toUpper (isCapital_of_mem word), String.ofList_toList]
    exact find?_capitals word
  obtain ⟨c, ds, rfl⟩ := hw.exists_cons (capitals_ne_nil word)
  obtain ⟨p', hread⟩ := read_word (hbegins c List.mem_cons_self)
    (fun d hd => continuesName_of_beginsName (hbegins d hd)) h p
  rw [hword] at hread
  exact ⟨p', hread⟩

/-- The printer's spelling is one of them. -/
theorem SpelledAs.self (t : Token) : t.SpelledAs t.spelling.toList := by
  cases t with
  | keyword word =>
    show SameLetters _ _
    cases word <;> decide +kernel
  | _ => rfl

/-- However a token is spelled, it is read back. -/
theorem SpelledAs.read (ht : t.isSpellable = true) (hw : t.SpelledAs w) (h : t.Apart cs)
    (p : Position) : ∃ p', Token.read ⟨w ++ cs, p⟩ = (.ok t, ⟨cs, p'⟩) := by
  cases t with
  | keyword word => exact read_keyword hw h p
  | _ =>
    obtain rfl : w = _ := hw
    exact read_spelling ht h p

theorem SpelledAs.exists_cons (ht : t.isSpellable = true) (hw : t.SpelledAs w) :
    ∃ c ds, w = c :: ds ∧ isBlank c = false := by
  cases t with
  | keyword word =>
    obtain ⟨c, ds, rfl⟩ := SameLetters.exists_cons hw (capitals_ne_nil word)
    have hc := SameLetters.beginsName hw (isCapital_of_mem word) c List.mem_cons_self
    exact ⟨c, ds, rfl, not_isBlank_of_continuesName (continuesName_of_beginsName hc)⟩
  | _ =>
    obtain rfl : w = _ := hw
    exact exists_spelling ht

end Token

/-! ## Tokens with blanks between them -/

/-- Wherever tokens stand, they are read from any spellings of them with blanks between. -/
theorem Rendered.spells {ts : List Token} {cs : List Char} (h : Rendered ts cs)
    (hts : ∀ t ∈ ts, t.isSpellable = true) : Spells cs ts := by
  induction h with
  | nil => exact .nil
  | @cons t ts w bs cs hw hbs hgap hrest ih =>
    obtain ⟨ht, hts⟩ := List.forall_mem_cons.mp hts
    have hapart : t.Apart (bs ++ cs) := by
      cases bs with
      | cons b bs => exact t.apart_blank (hbs b List.mem_cons_self) (bs ++ cs)
      | nil =>
        -- Only the last token has no blanks behind it, and nothing else either.
        cases hrest with
        | nil => nofun
        | cons => exact absurd rfl (hgap (List.cons_ne_nil _ _))
    refine .read (hw.exists_cons ht) (hw.read ht hapart) ?_ (.blanks hbs (ih hts))
    rintro rfl
    cases ht

namespace Scanner

/-- What the scanner answers if it is asked for a token `n` times, one after the other. -/
def answers (s : Scanner) : Nat → List (Except ScanError Token)
  | 0 => []
  | n + 1 => s.next.1 :: answers s.next.2 n

/-- At the end of the text, a scanner stays there. -/
theorem answers_of_rest_nil {s : Scanner} (h : s.cursor.rest = []) (n : Nat) :
    s.answers n = List.replicate n (.ok .endOfText) := by
  induction n generalizing s with
  | zero => rfl
  | succ n ih =>
    have htail := ih (s := ⟨s.cursor, s.cursor.position⟩) h
    rw [answers, next_of_rest_nil h, htail]
    rfl

theorem Yields.answers_eq {s : Scanner} {ts : List Token} (h : s.Yields ts) (n : Nat) :
    s.answers (ts.length + n) = ts.map .ok ++ List.replicate n (.ok .endOfText) := by
  induction h with
  | @done s s' h =>
    rw [List.length_nil, Nat.zero_add, List.map_nil, List.nil_append]
    cases n with
    | zero => rfl
    | succ n =>
      obtain ⟨hread, rfl⟩ := Prod.mk.inj h
      have hrest : s.next.2.cursor.rest = [] :=
        Token.rest_of_read_endOfText (Prod.ext hread rfl)
      rw [answers, answers_of_rest_nil hrest, h]
      rfl
  | @step s s' t ts h _ _ ih =>
    rw [List.length_cons, Nat.succ_add, answers, h, ih]
    rfl

/-- Layout and case make no difference: however tokens are rendered, a scanner of the text answers
those tokens, and then that the text has ended each time that it is asked. -/
theorem answers_rendered {ts : List Token} (hts : ∀ t ∈ ts, t.isSpellable = true)
    {lead cs : List Char} (hlead : Blanks lead) (h : Rendered ts cs) {text : String}
    (htext : text.toList = lead ++ cs) (n : Nat) :
    (ofText text).answers (ts.length + n) =
      ts.map .ok ++ List.replicate n (.ok .endOfText) :=
  ((h.spells hts).blanks hlead (ofText text) htext).answers_eq n

/-- A keyword in mixed case, marks that would be one without the blank between them, and a name that
begins with the keyword; blanks of several kinds, also at both ends. -/
theorem answers_rendered_mixed :
    (ofText "\u3000sElECt\t1.5e-7\u2003< =\r\nselected\n").answers 7 =
      [.ok (.keyword .select), .ok (.double ⟨0x3E8421F5F40D8376⟩), .ok (.mark .less),
        .ok (.mark .equal), .ok (.identifier "selected"), .ok .endOfText, .ok .endOfText] := by
  have hselect : (Token.keyword .select).SpelledAs "sElECt".toList :=
    show SameLetters _ _ by decide +kernel
  have hwide : Blanks ['\u3000'] ∧ Blanks ['\u2003'] := by decide +kernel
  have hnarrow : Blanks ['\t'] ∧ Blanks [' '] ∧ Blanks ['\r', '\n'] ∧ Blanks ['\n'] := by
    decide +kernel
  have hmarks := Rendered.cons (.self (.mark .less)) hnarrow.2.1 (by decide)
    (.cons (.self (.mark .equal)) hnarrow.2.2.1 (by decide)
      (.cons (.self (.identifier "selected")) hnarrow.2.2.2 (by decide) .nil))
  have hall := Rendered.cons hselect hnarrow.1 (by decide)
    (.cons (.self (.double ⟨0x3E8421F5F40D8376⟩)) hwide.2 (by decide) hmarks)
  exact answers_rendered (by decide +kernel) hwide.1 hall (by decide +kernel) 2

end Scanner

end DocQuery
