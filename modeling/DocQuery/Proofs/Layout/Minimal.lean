import DocQuery.Proofs.Layout.Marks
import DocQuery.Proofs.Layout.Neighbours
import DocQuery.Proofs.Layout.Parentheses
import DocQuery.Proofs.Layout.RoundTrip

/-!
# No pair of parentheses can be left out

Take away a pair of grouping parentheses from the compact text of a well-formed tree, and what is read
from the text, if anything is, does not say the same (`parentheses_needed`). The text has one opening
parenthesis less, and no text of a tree that says the same has fewer than the printer writes. Only a
number that comes to stand directly in front of a point spoils that count; but then the point is read as
part of the number, and the text has one point less.

* `Grouping`: a pair of parentheses that does not stand behind a word.
* `legible_before`, `legible_between`: without them the tokens on either side do not run into others,
  but for a number in front of a point.
* `Scanner.Yields.number_dot`: there a point and the name behind it are read as part of the number.
* `numbersApart_of_legible`: elsewhere no number stands in front of a point.
-/

namespace DocQuery

open Text Piece Layout Grammar

/-! ## Legible pieces before other characters -/

section

variable {layout : Layout} {ps : List Piece} {cs ds : List Char}

/-- Only the next character matters. -/
theorem Layout.Legible.congr (h : layout.Legible ps cs) (hhead : cs.head? = ds.head?) :
    layout.Legible ps ds := by
  induction ps with
  | nil => trivial
  | cons p ps ih =>
    cases p with
    | token t =>
      obtain ⟨ht, hapart, hrest⟩ := h
      refine ⟨ht, ?_, ih hrest⟩
      unfold Token.Apart at hapart ⊢
      rwa [List.head?_append, ← hhead, ← List.head?_append]
    | gap g => exact ih h

/-- What is read of a text that begins with legible pieces begins with their tokens. -/
theorem Layout.Legible.yields (h : layout.Legible ps cs) {s : Scanner} {ts : List Token}
    (hs : s.cursor.rest = layout.chars ps ++ cs) (hts : s.Yields ts) :
    ∃ (s' : Scanner) (us : List Token),
      s'.cursor.rest = cs ∧ s'.Yields us ∧ ts = tokens ps ++ us := by
  induction ps generalizing s ts with
  | nil => exact ⟨s, ts, hs, hts, rfl⟩
  | cons p ps ih =>
    obtain ⟨⟨rest, place⟩, start⟩ := s
    obtain rfl : rest = layout.chars (p :: ps) ++ cs := hs
    cases p with
    | token t =>
      obtain ⟨ht, hapart, hrest⟩ := h
      rw [chars_token, List.append_assoc] at hts
      obtain ⟨place', hread⟩ := Token.read_spelling ht hapart place
      have hnext := Scanner.next_of_read (Token.exists_spelling ht) hread start
      cases hts with
      | done hdone =>
        cases hnext.symm.trans hdone
        cases ht
      | step hstep hend hus =>
        cases hnext.symm.trans hstep
        obtain ⟨s', us, hs', hus', rfl⟩ := ih hrest rfl hus
        exact ⟨s', us, hs', hus', rfl⟩
    | gap g =>
      have hblanks (bs : List Char) (hbs : ∀ c ∈ bs, isBlank c = true) (rest : List Char)
          (p : Position) : ∃ p', Scanner.next ⟨⟨bs ++ rest, p⟩, start⟩ =
            Scanner.next ⟨⟨rest, p'⟩, start⟩ := by
        induction bs generalizing p with
        | nil => exact ⟨p, rfl⟩
        | cons b bs ih =>
          obtain ⟨p', hp'⟩ := ih (fun c hc => hbs c (List.mem_cons_of_mem _ hc)) (p.step b)
          exact ⟨p', (Scanner.next_blank (hbs b List.mem_cons_self) _ p start).trans hp'⟩
      obtain ⟨place', hnext⟩ :=
        hblanks _ (layout.isBlank_gapChars g) (layout.chars ps ++ cs) place
      rw [← List.append_assoc] at hnext
      exact ih h rfl (hts.congr hnext)

end

/-! ## Places of parentheses -/

section

variable {l l' : Left} {ps : List Piece} {t : Token} {c : Char} {cs ds : List Char}

/-- Of what may follow only a point goes on with anything, and only with a number. -/
theorem eq_dot_of_goesOnWith (hc : mayFollow c = true) (h : t.goesOnWith c = true) :
    c = '.' ∧ t.isNumber = true := by
  obtain ⟨hname, hdigit, hmark⟩ := class_of_mayFollow hc
  cases t with
  | mark m =>
    cases m with
    | dot => exact absurd h (Bool.eq_false_iff.mp hdigit)
    | less | greater | pipe | question =>
      obtain rfl := eq_of_beq h
      exact absurd (by decide) hmark
    | _ => cases h
  | integer | double =>
    rcases Bool.or_eq_true_iff.mp h with h | h
    · exact absurd h (Bool.eq_false_iff.mp hname)
    · exact ⟨eq_of_beq h, rfl⟩
  | identifier | parameter | keyword => exact absurd h (Bool.eq_false_iff.mp hname)
  | string | endOfText => cases h

theorem goesOnWith_of_begins (h : l.next (.token t) = some l') (hl' : l'.begins = true) (c : Char) :
    t.goesOnWith c = false := by
  cases t with
  | mark m => cases m <;> first | rfl | (cases l <;> cases h <;> cases hl')
  | string | endOfText => rfl
  | _ => cases l <;> cases h <;> cases hl'

/-- Pieces without characters leave what is to the left of them, but at the end of a subquery. -/
theorem eq_or_rim (h : Layout.compact.Legible ps cs) (hps : Layout.compact.chars ps = [])
    (hrun : l.run ps = some l') : l' = l ∨ l' = .rim := by
  induction ps generalizing l with
  | nil => exact .inl (Option.some.inj hrun).symm
  | cons p ps ih =>
    obtain ⟨m, hnext, hrest⟩ := Option.bind_eq_some_iff.mp hrun
    cases p with
    | token t =>
      obtain ⟨c, ds, hspelling, -⟩ := Token.exists_spelling h.1
      rw [chars_token, hspelling] at hps
      cases hps
    | gap g =>
      cases g with
      | edge indent =>
        rcases ih h hps hrest with rfl | rfl
        · cases l <;> cases hnext <;> simp
        · exact .inr rfl
      | _ => cases hps

/-- Before a parenthesis that is no word's stands nothing that would go on with what it encloses. -/
theorem legible_before (h : Layout.compact.Legible ps cs) (hrun : l.run ps = some l')
    (hl' : l'.begins = true) (ds : List Char) : Layout.compact.Legible ps ds := by
  induction ps generalizing l with
  | nil => trivial
  | cons p ps ih =>
    obtain ⟨m, hnext, hrest⟩ := Option.bind_eq_some_iff.mp hrun
    cases p with
    | token t =>
      obtain ⟨ht, hapart, hps⟩ := h
      refine ⟨ht, ?_, ih hps hrest⟩
      cases hchars : Layout.compact.chars ps with
      | cons c cs' =>
        rw [hchars] at hapart
        exact hapart
      | nil =>
        -- The parenthesis stood directly behind this token, which is no word then.
        rcases eq_or_rim hps hchars hrest with rfl | rfl
        · exact fun c _ => goesOnWith_of_begins hnext hl' c
        · cases hl'
    | gap g => exact ih h hrest

/-- What a parenthesis closes does not go on with what stands behind it, but for a number in front of a
point. -/
theorem legible_between (h : Layout.compact.Legible ps cs)
    (hds : ∀ c ∈ ds.head?, mayFollow c = true) :
    Layout.compact.Legible ps ds ∨ ∃ qs t rs, ps = qs ++ .token t :: rs ∧ t.isNumber = true ∧
      Layout.compact.chars rs = [] ∧ ds.head? = some '.' := by
  induction ps with
  | nil => exact .inl trivial
  | cons p ps ih =>
    cases p with
    | token t =>
      obtain ⟨ht, hapart, hps⟩ := h
      rcases ih hps with hlegible | ⟨qs, u, rs, rfl, hu⟩
      · cases hchars : Layout.compact.chars ps with
        | cons c cs' =>
          rw [hchars] at hapart
          refine .inl ⟨ht, ?_, hlegible⟩
          rw [hchars]
          exact hapart
        | nil =>
          by_cases hdot : ds.head? = some '.' ∧ t.isNumber = true
          · exact .inr ⟨[], t, ps, rfl, hdot.2, hchars, hdot.1⟩
          · refine .inl ⟨ht, fun c hc => ?_, hlegible⟩
            rw [hchars] at hc
            refine Bool.eq_false_iff.mpr fun hgoes => hdot ?_
            obtain ⟨rfl, hnumber⟩ := eq_dot_of_goesOnWith (hds c hc) hgoes
            exact ⟨hc, hnumber⟩
      · exact .inr ⟨.token t :: qs, u, rs, rfl, hu⟩
    | gap g =>
      rcases ih h with hlegible | ⟨qs, u, rs, rfl, hu⟩
      · exact .inl hlegible
      · exact .inr ⟨.gap g :: qs, u, rs, rfl, hu⟩

/-- At the end of a subquery comes its closing parenthesis. -/
theorem parenthesis_at_rim (hrun : Left.rim.run ps = some l') :
    ps = [] ∨ ∃ rs, ps = .mark .rightParen :: rs := by
  cases ps with
  | nil => exact .inl rfl
  | cons p ps =>
    obtain ⟨m, hnext, -⟩ := Option.bind_eq_some_iff.mp hrun
    cases p with
    | token t =>
      cases t with
      | mark mark => cases mark <;> first | (cases hnext; done) | exact .inr ⟨ps, rfl⟩
      | _ => cases hnext
    | gap g => cases g <;> cases hnext

/-- What stands behind a word or a closing parenthesis. -/
theorem head_behind (hl : l = .word ∨ l = .closing) (hrun : l.run ps = some l') :
    ∀ c ∈ (Layout.compact.chars ps).head?, mayFollow c = true := by
  cases ps with
  | nil => nofun
  | cons p ps =>
    obtain ⟨m, hnext, hrest⟩ := Option.bind_eq_some_iff.mp hrun
    cases p with
    | token t =>
      cases t with
      | mark mark =>
        cases mark <;> first
          | exact fun c hc => by cases hc; rfl
          | (rcases hl with rfl | rfl <;> cases hnext)
      | _ => rcases hl with rfl | rfl <;> cases hnext
    | gap g =>
      cases g with
      | edge indent =>
        obtain rfl : m = .rim := by rcases hl with rfl | rfl <;> cases hnext <;> rfl
        rcases parenthesis_at_rim hrest with rfl | ⟨rs, rfl⟩
        · nofun
        · exact fun c hc => by cases hc; rfl
      | _ => exact fun c hc => by cases hc; rfl

/-- Behind a point comes an identifier. -/
theorem identifier_at_point (hrun : Left.point.run ps = some l') (hl' : l'.ends = true) :
    ∃ name rs, ps = .identifier name :: rs ∧ Left.word.run rs = some l' := by
  cases ps with
  | nil =>
    cases hrun
    cases hl'
  | cons p ps =>
    obtain ⟨m, hnext, hrest⟩ := Option.bind_eq_some_iff.mp hrun
    cases p with
    | token t =>
      cases t with
      | identifier name =>
        cases hnext
        exact ⟨name, ps, rfl, hrest⟩
      | mark mark => cases mark <;> cases hnext
      | _ => cases hnext
    | gap g => cases g <;> cases hnext

/-- A point directly behind a closing parenthesis, and the identifier behind it. -/
theorem point_behind (hrun : Left.closing.run ps = some l') (hl' : l'.ends = true)
    (hdot : (Layout.compact.chars ps).head? = some '.') : ∃ name rs,
      ps = .mark .dot :: .identifier name :: rs ∧ Left.word.run rs = some l' := by
  cases ps with
  | nil => cases hdot
  | cons p ps =>
    obtain ⟨m, hnext, hrest⟩ := Option.bind_eq_some_iff.mp hrun
    cases p with
    | token t =>
      cases t with
      | mark mark =>
        cases mark with
        | dot =>
          cases hnext
          obtain ⟨name, rs, rfl, hrest⟩ := identifier_at_point hrest hl'
          exact ⟨name, rs, rfl, hrest⟩
        | _ => first | (cases hnext; done) | cases hdot
      | _ => cases hnext
    | gap g =>
      cases g with
      | edge indent =>
        cases hnext
        rcases parenthesis_at_rim hrest with rfl | ⟨rs, rfl⟩ <;> cases hdot
      | _ => cases hdot

/-! ## Points -/

/-- The token that comes first: the first of the pieces, or `t?` behind them. -/
def headToken (ps : List Piece) (t? : Option Token) : Option Token := (tokens ps).head?.or t?

/-- In compact text, no blank space stands before a point. Behind the pieces comes the token `t?`. -/
def PointsTight : List Piece → Option Token → Prop
  | [], _ => True
  | .token _ :: ps, t? => PointsTight ps t?
  | .gap g :: ps, t? => (headToken ps t? = some (.mark .dot) → Layout.compact.gapChars g = []) ∧
    PointsTight ps t?

theorem PointsTight.append {qs : List Piece} {t? : Option Token}
    (hp : PointsTight ps (headToken qs t?)) (hq : PointsTight qs t?) : PointsTight (ps ++ qs) t? := by
  induction ps with
  | nil => exact hq
  | cons p ps ih =>
    cases p with
    | token t => exact ih hp
    | gap g =>
      refine ⟨fun h => hp.1 ?_, ih hp.2⟩
      simpa [headToken, Option.or_assoc] using h

/-- Where an operand may begin no point comes next, and as long as nothing comes at most blank space
does. -/
theorem headToken_of_begins (hrun : l.run ps = some l') (hl : l.begins = true) :
    (tokens ps).head? ≠ some (.mark .dot) ∧ (tokens ps = [] → l' = l ∨ l' = .blank) := by
  induction ps generalizing l with
  | nil =>
    cases hrun
    exact ⟨nofun, fun _ => .inl rfl⟩
  | cons p ps ih =>
    obtain ⟨m, hnext, hrest⟩ := Option.bind_eq_some_iff.mp hrun
    cases p with
    | token t =>
      refine ⟨?_, nofun⟩
      rintro ⟨⟩
      cases l <;> first | (cases hl; done) | cases hnext
    | gap g =>
      have hm : m = l ∨ m = .blank := by
        cases g <;> cases l <;> first | (cases hl; done) | (cases hnext; done) | (cases hnext; simp)
      rcases hm with rfl | rfl
      · exact ih hrest hl
      · obtain ⟨hhead, hnone⟩ := ih hrest rfl
        exact ⟨hhead, fun hps => .inr ((hnone hps).elim id id)⟩

/-- Pieces that may stand side by side have no blank space before points. -/
theorem pointsTight_of_run (hrun : l.run ps = some l') {t? : Option Token}
    (ht : t? = some (.mark .dot) → l' ≠ .blank) : PointsTight ps t? := by
  induction ps generalizing l with
  | nil => trivial
  | cons p ps ih =>
    obtain ⟨m, hnext, hrest⟩ := Option.bind_eq_some_iff.mp hrun
    cases p with
    | token t => exact ih hrest
    | gap g =>
      refine ⟨fun hdot => ?_, ih hrest⟩
      have hblank : m ≠ .blank := by
        rintro rfl
        obtain ⟨hhead, hnone⟩ := headToken_of_begins hrest rfl
        unfold headToken at hdot
        cases hts : tokens ps with
        | nil =>
          rw [hts] at hdot
          exact ht hdot ((hnone hts).elim id id)
        | cons t ts =>
          rw [hts] at hdot hhead
          exact hhead hdot
      cases g with
      | edge indent => rfl
      | _ =>
        obtain ⟨-, hm⟩ := Option.ite_none_left_eq_some.mp hnext
        exact absurd (Option.some.inj hm).symm hblank

/-- A point that comes first among the tokens is what the text begins with. -/
theorem chars_of_point (htight : PointsTight ps none) {ts : List Token}
    (hps : tokens ps = .mark .dot :: ts) : ∃ cs, Layout.compact.chars ps = '.' :: cs := by
  induction ps with
  | nil => cases hps
  | cons p ps ih =>
    cases p with
    | token t =>
      cases hps
      exact ⟨_, rfl⟩
    | gap g =>
      have hps : tokens ps = .mark .dot :: ts := hps
      have hgap : Layout.compact.gapChars g = [] := htight.1 (by simp [headToken, hps])
      rw [chars_gap, hgap]
      exact ih htight.2 hps

/-- In legible text a number stands in front of a point only if blank space is between them. -/
theorem numbersApart_of_legible (h : Layout.compact.Legible ps cs) (htight : PointsTight ps none) :
    NumbersApart (tokens ps) := by
  induction ps with
  | nil => exact .nil
  | cons p ps ih =>
    cases p with
    | gap g => exact ih h htight.2
    | token t =>
      obtain ⟨-, hapart, hrest⟩ := h
      refine List.isChain_cons.mpr ⟨?_, ih hrest htight⟩
      rintro u hu hnumber rfl
      obtain ⟨us, hps⟩ := List.head?_eq_some_iff.mp hu
      obtain ⟨ds, hchars⟩ := chars_of_point (show PointsTight ps none from htight) hps
      rw [hchars] at hapart
      have hgoes : t.goesOnWith '.' = false := hapart '.' rfl
      cases t <;> first | (cases hnumber; done) | cases hgoes

end

/-! ## Without a pair of parentheses -/

/-- The last of the pieces is an identifier or a keyword. -/
def endsInWord (ps : List Piece) : Bool :=
  match ps.getLast? with
  | some (.token (.identifier _)) | some (.token (.keyword _)) => true
  | _ => false

/-- A pair of parentheses and what is before it, between it and behind it. Before an operand the printer
writes a mark, blank space or nothing. The parentheses behind a word are those of calls and of the
subqueries of `EXISTS` and `ARRAY`: they are no grouping. -/
structure Grouping (pieces before between behind : List Piece) : Prop where
  split : pieces = before ++ .mark .leftParen :: (between ++ .mark .rightParen :: behind)
  noWord : endsInWord before = false

section

variable {ps before between behind : List Piece} {ts : List Token}

theorem endsInWord_of_run {l : Left} (hl : l ≠ .word) (h : l.run ps = some .word) :
    endsInWord ps = true := by
  induction ps using List.reverseRecOn with
  | nil =>
    cases h
    exact absurd rfl hl
  | append_singleton ps p =>
    rw [Left.run_append] at h
    obtain ⟨m, -, h⟩ := Option.bind_eq_some_iff.mp h
    obtain ⟨m', hnext, hrest⟩ := Option.bind_eq_some_iff.mp h
    cases hrest
    cases p with
    | gap g => cases g <;> cases m <;> cases hnext
    | token t =>
      cases t with
      | identifier | keyword => simp [endsInWord]
      | mark symbol => cases symbol <;> cases m <;> cases hnext
      | _ => cases m <;> cases hnext

/-- What is to the left of each part: an operand begins behind the opening parenthesis, and has begun
before the closing one. -/
theorem Grouping.run (h : Grouping ps before between behind) (hfits : FitsOperand ps) :
    ∃ l m n, Left.blank.run before = some l ∧ l.begins = true ∧
      Left.opening.run between = some m ∧ m ≠ .blank ∧ m ≠ .opening ∧
      Left.closing.run behind = some n ∧ n.ends = true := by
  have hrun := hfits .blank rfl
  obtain ⟨n, hrun, hends⟩ := (Option.any_eq_true _ _).mp hrun
  rw [h.split, Left.run_append] at hrun
  obtain ⟨l, hl, hrun⟩ := Option.bind_eq_some_iff.mp hrun
  obtain ⟨l', hopen, hrun⟩ := Option.bind_eq_some_iff.mp hrun
  rw [Left.run_append] at hrun
  obtain ⟨m, hm, hrun⟩ := Option.bind_eq_some_iff.mp hrun
  obtain ⟨m', hclose, hbehind⟩ := Option.bind_eq_some_iff.mp hrun
  have hword : l ≠ .word := by
    rintro rfl
    have hends := endsInWord_of_run (show Left.blank ≠ .word from nofun) hl
    rw [h.noWord] at hends
    cases hends
  have hl' : l.begins = true ∧ l' = .opening := by
    cases l <;> first | exact absurd rfl hword | (cases hopen; done) | (cases hopen; exact ⟨rfl, rfl⟩)
  obtain ⟨hbegins, rfl⟩ := hl'
  obtain ⟨hnot, hclosing⟩ := Option.ite_none_left_eq_some.mp hclose
  cases hclosing
  exact ⟨l, m, n, hl, hbegins, hm, fun h => hnot (.inl h), fun h => hnot (.inr (.inl h)), hbehind,
    hends⟩

/-- If no number comes to stand in front of a point, the text has an opening parenthesis less. -/
theorem Grouping.not_covers_legible (h : Grouping ps before between behind) (hfits : FitsOperand ps)
    (hlegible : Layout.compact.Legible (before ++ between ++ behind) []) {us : List Token}
    (hus : us.count (.mark .leftParen) = (tokens ps).count (.mark .leftParen))
    (hts : Tokens (Layout.compact.render (before ++ between ++ behind)) ts) :
    ¬ Covers ts us := by
  intro hcovers
  obtain ⟨l, m, n, hl, -, hm, hblank, hopening, hn, -⟩ := h.run hfits
  obtain ⟨rfl, -⟩ := h
  obtain rfl := hts.unique hlegible.spells.tokens
  have htight : PointsTight (before ++ between ++ behind) none := by
    obtain ⟨hhead, hnone⟩ := headToken_of_begins hm rfl
    have hne : tokens between ≠ [] := fun hts => (hnone hts).elim hopening hblank
    rw [List.append_assoc]
    refine .append (pointsTight_of_run hl fun hdot => ?_)
      (.append (pointsTight_of_run hm fun _ => hblank) (pointsTight_of_run hn (by rintro ⟨⟩)))
    obtain ⟨t, ts, hbetween⟩ := List.exists_cons_of_ne_nil hne
    rw [hbetween] at hhead
    simp only [headToken, tokens_append, hbetween] at hdot
    exact absurd hdot hhead
  have hle := hcovers.parens (numbersApart_of_legible hlegible htight)
  rw [hus] at hle
  simp only [tokens_append, tokens_mark, List.count_append, List.count_cons_self] at hle
  have hright := List.count_le_count_cons (a := Token.mark .leftParen) (b := .mark .rightParen)
    (l := tokens behind)
  omega

/-- A number takes in the point and the identifier that come to stand behind it. -/
theorem tokens_of_number_dot {t : Token} {name : String} {firsts rs lasts : List Piece}
    {cs : List Char} {n : Left} (hbefore : ∀ ds, Layout.compact.Legible before ds)
    (hbetween : Layout.compact.Legible (firsts ++ .token t :: rs) cs) (hnumber : t.isNumber = true)
    (hrs : Layout.compact.chars rs = [])
    (hbehind : Layout.compact.Legible (.identifier name :: lasts) [])
    (hlasts : Left.word.run lasts = some n)
    (hts : Tokens (Layout.compact.render (before ++ (firsts ++ .token t :: rs) ++
      .mark .dot :: .identifier name :: lasts)) ts) :
    ∃ u, u ≠ .mark .dot ∧ ts = tokens (before ++ firsts) ++ u :: tokens lasts := by
  obtain ⟨hfirsts, ht, -, -⟩ := legible_append.mp hbetween
  obtain ⟨hname, -, hbehind⟩ := hbehind
  have hfirsts : Layout.compact.Legible firsts
      (t.spelling.toList ++ '.' :: (name.toList ++ Layout.compact.chars lasts)) := by
    obtain ⟨c, cs, hspelling, -⟩ := Token.exists_spelling ht
    refine hfirsts.congr ?_
    rw [chars_token, hspelling]
    rfl
  have hall := legible_append.mpr ⟨hbefore _, hfirsts⟩
  have hchars : Layout.compact.chars (before ++ (firsts ++ .token t :: rs) ++
      .mark .dot :: .identifier name :: lasts) = Layout.compact.chars (before ++ firsts) ++
        (t.spelling.toList ++ '.' :: (name.toList ++ Layout.compact.chars lasts)) := by
    simp only [chars_append, chars_token, hrs, List.append_assoc, List.nil_append]
    rfl
  obtain ⟨s, us, hs, hus, rfl⟩ := hall.yields (String.toList_ofList.trans hchars) hts
  obtain ⟨s', u, vs, rfl, hu, hs', hvs⟩ := hus.number_dot ht hnumber
    (Bool.and_eq_true_iff.mp hname).1 (head_behind (.inl rfl) hlasts) hs
  obtain rfl := hvs.unique (hbehind.spells s' hs')
  refine ⟨u, ?_, rfl⟩
  rintro rfl
  cases hu

/-- Without its parentheses a text has fewer than its pieces, or fewer points. -/
theorem Grouping.not_covers (h : Grouping ps before between behind) (hfits : FitsOperand ps)
    (hlegible : Layout.compact.Legible ps []) {qs : List Piece} (hmarks : marks qs = marks ps)
    (hts : Tokens (Layout.compact.render (before ++ between ++ behind)) ts) :
    ¬ Covers ts (tokens qs) := by
  intro hcovers
  have hsplit := h.split
  obtain ⟨l, m, n, hl, hbegins, -, -, -, hn, hends⟩ := h.run hfits
  obtain ⟨hread, hrest⟩ := legible_append.mp (hsplit ▸ hlegible)
  obtain ⟨hbetween, hrest⟩ := legible_append.mp hrest.2.2
  have hbehind : Layout.compact.Legible behind [] := hrest.2.2
  have hbefore (ds : List Char) : Layout.compact.Legible before ds :=
    legible_before hread hl hbegins ds
  rcases legible_between hbetween (head_behind (.inr rfl) hn) with
    hapart | ⟨firsts, t, rs, rfl, hnumber, hrs, hdot⟩
  case inl =>
    -- No token runs into another, so the tokens are the same but for the two parentheses.
    have hall : Layout.compact.Legible (before ++ between ++ behind) [] := by
      simp only [legible_append, List.append_nil]
      exact ⟨⟨hbefore _, hapart⟩, hbehind⟩
    exact h.not_covers_legible hfits hall (congrFun hmarks .leftParen) hts hcovers
  case inr =>
    obtain ⟨name, lasts, rfl, hlasts⟩ := point_behind hn hends hdot
    obtain ⟨u, hne, rfl⟩ :=
      tokens_of_number_dot hbefore hbetween hnumber hrs hbehind.2.2 hlasts hts
    have hpoints := hcovers.points.trans (congrFun hmarks .dot)
    have hpoint : marks before .dot + marks firsts .dot + marks lasts .dot < marks ps .dot := by
      rw [hsplit]
      simp only [marks_append, marks_cons, reduceIte]
      omega
    rw [← hpoints, tokens_append, List.count_append, List.count_append, List.count_cons_of_ne hne]
      at hpoint
    exact absurd hpoint (Nat.lt_irrefl _)

end

/-- Without one of its pairs of grouping parentheses, the compact text of a well-formed tree is not
read, under any limit, as a tree that says the same. -/
theorem parentheses_needed :
    (∀ q : Query, q.isWellFormed = true → ∀ before between behind,
      Grouping (q.pieces 0) before between behind → ∀ limit q',
      Query.parse (Layout.compact.render (before ++ between ++ behind)) limit = .ok q' →
        q'.same q = false) ∧
    (∀ e : Scalar, e.isWellFormed = true → ∀ before between behind,
      Grouping (e.pieces 0) before between behind → ∀ limit e',
      Scalar.parse (Layout.compact.render (before ++ between ++ behind)) limit = .ok e' →
        e'.same e = false) := by
  constructor
  · intro q hq before between behind hgrouping limit q' hparse
    obtain ⟨ts, htext, n, hphrase⟩ := exists_of_parseWith parses_query hparse
    refine Bool.eq_false_iff.mpr fun hsame => ?_
    exact hgrouping.not_covers (q.fits 0 hq) (Query.closed .compact 0 q hq [] endNumber_nil)
      (q'.marks_eq_of_same 0 q hsame (regular_query hphrase).wellFormed hq) htext
      (covers_query hphrase 0)
  · intro e he before between behind hgrouping limit e' hparse
    obtain ⟨ts, htext, n, hphrase⟩ := exists_of_parseWith parses_expression hparse
    refine Bool.eq_false_iff.mpr fun hsame => ?_
    exact hgrouping.not_covers (e.fits 0 he)
      ((Scalar.legible .compact 0 e he).closed [] endNumber_nil)
      (e'.marks_eq_of_same 0 e hsame (regular_expression hphrase).wellFormed he) htext
      (covers_expression hphrase 0)

/-- `SELECT VALUE (a + b) * c` without the parentheses around the sum, and `(1).e5` without those around
the number: both are read, and say something else. -/
theorem parentheses_needed_sum :
    (∃ q, Query.parse "SELECT VALUE a + b * c" defaultLimit = .ok q ∧
      q.same ⟨false, none, .value (.binary .multiply (.binary .add (.name "a") (.name "b"))
        (.name "c")), none, none, none, none, none⟩ = false) ∧
    ∃ e, Scalar.parse "1.e5" defaultLimit = .ok e ∧
      e.same (.property (.number (.integer 1)) "e5") = false := by
  have hquery : Layout.compact.render ([.keyword .select, .space, .keyword .value, .space] ++
      (Scalar.binary .add (.name "a") (.name "b")).pieces 0 ++
      [.space, .mark .star, .space, .identifier "c"]) = "SELECT VALUE a + b * c" := by
    decide +kernel
  have hscalar : Layout.compact.render ([] ++ [.number (.integer 1)] ++
      [.mark .dot, .identifier "e5"]) = "1.e5" := by
    decide +kernel
  obtain ⟨q, hq⟩ :=
    exists_of_isOk (r := Query.parse "SELECT VALUE a + b * c" defaultLimit) (by decide +kernel)
  obtain ⟨e, he⟩ := exists_of_isOk (r := Scalar.parse "1.e5" defaultLimit) (by decide +kernel)
  refine ⟨⟨q, hq, ?query⟩, e, he, ?scalar⟩
  case query =>
    exact parentheses_needed.1 _ (by decide +kernel)
      [.keyword .select, .space, .keyword .value, .space] _ _ ⟨rfl, rfl⟩ defaultLimit q (hquery ▸ hq)
  case scalar =>
    exact parentheses_needed.2 _ (by decide +kernel) [] _ _ ⟨rfl, rfl⟩ defaultLimit e (hscalar ▸ he)

end DocQuery
