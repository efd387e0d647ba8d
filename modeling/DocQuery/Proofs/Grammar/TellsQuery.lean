import DocQuery.Proofs.Grammar.TellsScalar
import DocQuery.Proofs.Layout.Says

/-!
# What is read is of the grammar, and so is what stands before an error

* `tells_projection`, `tells_source`, `tells_clauses` and so on: what reading each clause tells.
* `tells_expression`, `tells_query`: whatever tokens a reading of an expression or a query has passed
  over when it gives a tree, by the grammar they say that tree; and where it fails, the tokens before
  the error begin such a phrase. The induction is on the rounds.
-/

namespace DocQuery

open Grammar

namespace Reading

section

variable {α : Type} {body : Reading α} {P : Phrase α} {expression : Reading Scalar}
  {query : Reading Query} {E : Phrase Scalar} {Q : Phrase Query} {fuel : Nat}

/-! ## Clauses that may be missing -/

theorem tells_clause {word : Keyword} (hbody : TellsPhrase body P) :
    TellsPhrase (clause? word body) (Clause [word] P) := by
  refine .consume nofun (.map hbody ?_) (.pure ⟨0, .absent⟩)
  rintro ts a ⟨n, ha⟩
  exact ⟨n, .present ha⟩

theorem tells_clauseBy {word : Keyword} (hbody : TellsPhrase body P) :
    TellsPhrase (clauseBy? word body) (Clause [word, .by] P) := by
  have hby : Tells (do expect (.keyword .by); body) fun ts a =>
      ∃ us n, ts = .keyword .by :: us ∧ P us a n :=
    .expect nofun (.weaken hbody fun us a ⟨n, ha⟩ => ⟨us, n, rfl, ha⟩)
  refine .consume nofun (.map hby ?_) (.pure ⟨0, .absent⟩)
  rintro _ a ⟨us, n, rfl, ha⟩
  exact ⟨n, .present ha⟩

/-- A clause that takes no levels. -/
theorem tells_flatClause {word : Keyword} (hbody : Tells body fun ts a => P ts a 0) :
    Tells (clause? word body) fun ts a? => Clause [word] P ts a? 0 :=
  .consume nofun (.map hbody fun _ _ => .present) (.pure .absent)

/-! ## Projections -/

theorem tells_count : Tells count fun ts e => IsCount ts e 0 := by
  have hbegins : Begins (fun ts e => IsCount ts e 0) [] :=
    ⟨[.integer 0], _, .number (a := .integer 0) rfl⟩
  refine ⟨.token fun t ht => ?_, hbegins⟩
  split
  · exact .advance nofun (.pure (.number (a := .integer _) (ht.resolve_left nofun)))
  · exact .advance nofun (.pure (.number (a := .double _) (ht.resolve_left nofun)))
  · exact .advance nofun (.pure (.parameter (ht.resolve_left nofun)))
  · exact answers_unexpected hbegins _

theorem tells_alias : Tells alias? fun ts alias? => IsAlias ts alias? 0 := by
  refine .consume nofun (.map tells_identifier ?_) ⟨.token fun t _ => ?_, [], none, .none⟩
  · rintro _ name ⟨hname, rfl⟩
    exact .worded hname
  · split
    · refine .at (.map tells_identifier ?_)
      rintro _ name ⟨hname, rfl⟩
      exact .bare hname
    · exact .pure .none

theorem tells_selectItem (hE : TellsPhrase expression E) :
    TellsPhrase (selectItem expression) (IsSelectItem E) := by
  refine .bind hE fun ts e ⟨n, he⟩ => .bind tells_alias fun us alias? halias => .pure ?_
  rw [List.append_nil]
  exact ⟨n, .mk he halias⟩

theorem tells_projection (hE : TellsPhrase expression E) :
    TellsPhrase (projection expression fuel) (IsProjection E) := by
  refine .consume nofun (.pure ⟨0, .all⟩) (.consume nofun (.map hE ?_)
    (.map (tells_list (tells_selectItem hE)) ?_))
  · rintro ts e ⟨n, he⟩
    exact ⟨n, .value he⟩
  · rintro ts is ⟨n, his⟩
    exact ⟨n, .items his⟩

/-! ## Sources -/

theorem tells_pathKey : Tells pathKey fun ts key =>
    ∀ {us segments n}, IsPath us segments n → IsPath (us ++ .mark .leftBracket ::
      (ts ++ [.mark .rightBracket])) (segments ++ [key]) (n + 1) := by
  refine tells_bump .pathKey ⟨[], _, fun h => .number (a := .integer 0) h rfl⟩ fun t => ?_
  cases t with
  | integer k =>
    exact .inl ⟨nofun, fun _ => rfl, fun ht => .pure fun h => .number (a := .integer k) h ht⟩
  | double x =>
    exact .inl ⟨nofun, fun _ => rfl, fun ht => .pure fun h => .number (a := .double x) h ht⟩
  | string value => exact .inl ⟨nofun, fun _ => rfl, fun _ => .pure fun h => .string h⟩
  | _ => exact .inr fun _ => rfl

theorem tells_pathStep (access : Access) {links ts segments} (h : IsPath ts segments links) :
    Tells (pathStep segments access) fun us segments' =>
      IsPath (ts ++ (access.token :: us)) segments' (links + 1) := by
  cases access with
  | dot => exact .identifier fun name hname => .pure (.name h hname)
  | bracket => exact .bind tells_pathKey fun us key hkey => .expect nofun (.pure (hkey h))

theorem tells_path (input : String) :
    Tells (inputPath input fuel) fun ts c =>
      ∃ segments n, c = .path input segments ∧ IsPath ts segments n := by
  refine .bind (tells_chain (C := fun links ts segments => IsPath ts segments links) tells_access ?_
    .nil) ?_
  · rintro links ts segments _ access h rfl
    exact tells_pathStep access h
  · rintro ts segments ⟨n, h⟩
    refine .pure ?_
    rw [List.append_nil]
    exact ⟨segments, n, rfl, h⟩

section

variable (hE : TellsPhrase expression E) (hQ : TellsPhrase query Q)
include hE hQ

theorem tells_collection : TellsPhrase (collection expression query fuel) (IsCollection E Q) := by
  have hpath : TellsPhrase (do let input ← identifier; inputPath input fuel)
      (IsCollection E Q) := by
    refine .identifier fun input hinput => .weaken (tells_path input) ?_
    rintro ts _ ⟨segments, n, rfl, h⟩
    exact ⟨n, .path hinput h⟩
  refine ⟨.token fun t _ => ?_, hpath.begins⟩
  split
  · exact .at hpath
  · refine .advance nofun (.map (tells_parenthesizedQuery hQ) ?_)
    rintro _ q ⟨us, n, rfl, hq⟩
    exact ⟨n, .subquery hq⟩
  · exact .advance nofun (.bind (tells_list hE) fun us es ⟨n, hes⟩ =>
      .expect nofun (.pure ⟨n, .array hes⟩))
  · exact answers_unexpected hpath.begins _

theorem tells_operand : TellsPhrase (operand expression query fuel) (IsOperand E Q) := by
  have haliased : TellsPhrase (do
      let c ← collection expression query fuel
      let a ← alias?
      return .aliased c a) (IsOperand E Q) := by
    refine .bind (tells_collection hE hQ) fun ts c ⟨n, hc⟩ =>
      .bind tells_alias fun us alias? halias => .pure ?_
    rw [List.append_nil]
    exact ⟨n, .aliased hc halias⟩
  refine ⟨.token fun t _ => ?_, haliased.begins⟩
  split
  · refine .at (.identifier fun name hname => .consume nofun ?_ ?_)
    · refine .map (tells_collection hE hQ) ?_
      rintro ts c ⟨n, hc⟩
      exact ⟨n, .each hname hc⟩
    · refine .bind (tells_path name) ?_
      rintro ts _ ⟨segments, n, rfl, h⟩
      refine .bind tells_alias fun us alias? halias => .pure ?_
      rw [List.append_nil]
      exact ⟨n, .aliased (.path hname h) halias⟩
  · exact .at haliased

theorem tells_source : TellsPhrase (source expression query fuel) (IsSource E Q) := by
  have hjoin : Tells join? (Link fun ts _ => ts = [.keyword .join]) :=
    .consume nofun (.pure rfl) (.pure rfl)
  refine .bind (tells_operand hE hQ) fun ts s ⟨n, hs⟩ => .weaken (tells_chain
    (C := fun links ts s => ∃ n, IsJoined E Q links ts s n) hjoin ?_ ⟨n, .operand hs⟩) ?_
  · rintro links ts l _ _ ⟨n, hl⟩ rfl
    refine .map (tells_operand hE hQ) ?_
    rintro us r ⟨m, hr⟩
    exact ⟨_, .join hl hr⟩
  · rintro us s ⟨links, n, hs⟩
    exact ⟨n, .mk hs⟩

end

/-! ## Sorting and windows -/

theorem tells_sortKey (hE : TellsPhrase expression E) :
    TellsPhrase (sortKey expression) (IsSortKey E) := by
  refine .bind hE fun ts e ⟨n, he⟩ => .consume nofun (.pure ⟨n, .descending he⟩)
    (.consume nofun (.pure ⟨n, .ascending he⟩) (.pure ?_))
  rw [List.append_nil]
  exact ⟨n, .plain he⟩

theorem tells_window : Tells window fun ts w => IsWindow ts w 0 := by
  refine .bind tells_count fun ts a ha => .expect nofun (.bind tells_count fun us b hb => .pure ?_)
  rw [List.append_nil]
  exact .counts ha hb

/-! ## Queries -/

theorem tells_clauses (hE : TellsPhrase expression E) (hQ : TellsPhrase query Q) :
    TellsPhrase (clauses expression query fuel) (IsClauses E Q) := by
  have hbody (distinct : Bool) : Tells (do
      let top? ← clause? .top count
      let p ← projection expression fuel
      let source? ← clause? .from (source expression query fuel)
      let filter? ← clause? .where expression
      let groupKeys? ← clauseBy? .group (list expression fuel)
      let sortKeys? ← clauseBy? .order (list (sortKey expression) fuel)
      let window? ← clause? .offset window
      return Query.mk distinct top? p source? filter? groupKeys? sortKeys? window?) fun ts q =>
      ∃ n, IsClauses E Q
        (.keyword .select :: ((if distinct then [.keyword .distinct] else []) ++ ts)) q n := by
    refine .bind (tells_flatClause tells_count) fun ts₁ _ htop =>
      .bind (tells_projection hE) fun ts₂ _ ⟨_, hprojection⟩ =>
      .bind (tells_clause (tells_source hE hQ)) fun ts₃ _ ⟨_, hsource⟩ =>
      .bind (tells_clause hE) fun ts₄ _ ⟨_, hfilter⟩ =>
      .bind (tells_clauseBy (tells_list hE)) fun ts₅ _ ⟨_, hgroup⟩ =>
      .bind (tells_clauseBy (tells_list (tells_sortKey hE))) fun ts₆ _ ⟨_, hsort⟩ =>
      .bind (tells_flatClause tells_window) fun ts₇ _ hwindow => .pure ?_
    rw [List.append_nil]
    exact ⟨_, .mk htop hprojection hsource hfilter hgroup hsort hwindow⟩
  exact .expect nofun (.consume nofun (hbody true) (hbody false))

end

/-! ## The whole grammar -/

/-- Within any number of rounds, what is read is of the grammar, and what stands before an error begins
a phrase of it. -/
theorem tells_all (fuel : Nat) : TellsPhrase (expression fuel) IsExpression ∧
    (∀ level, Tells (atLevel level fuel) fun ts e =>
      ∃ links n, IsScalar IsExpression IsQuery level links ts e n) ∧
    TellsPhrase (query fuel) IsQuery := by
  induction fuel with
  | zero =>
    refine ⟨?_, fun level => ?_, ?_⟩
    · rw [expression]
      obtain ⟨links, he⟩ := isScalar_zero IsExpression IsQuery .conditional
      exact tells_outOfFuel ⟨_, _, _, .nested he⟩
    · rw [atLevel]
      obtain ⟨links, he⟩ := isScalar_zero IsExpression IsQuery level
      exact tells_outOfFuel ⟨_, _, links, 0, he⟩
    · rw [query]
      exact tells_outOfFuel ⟨_, _, _, .nested (isClauses_all _ _)⟩
  | succ fuel ih =>
    obtain ⟨hE, hlevel, hQ⟩ := ih
    refine ⟨?_, tells_atLevel hE hQ hlevel, ?_⟩
    · rw [expression]
      refine .nested (hlevel .conditional) ?_
      rintro ts e ⟨links, n, he⟩
      exact ⟨n + 1, .nested he⟩
    · rw [query]
      refine .nested (tells_clauses hE hQ) ?_
      rintro ts q ⟨n, hq⟩
      exact ⟨n + 1, .nested hq⟩

theorem tells_expression (fuel : Nat) : TellsPhrase (expression fuel) IsExpression :=
  (tells_all fuel).1

theorem tells_query (fuel : Nat) : TellsPhrase (query fuel) IsQuery := (tells_all fuel).2.2

end Reading

end DocQuery
