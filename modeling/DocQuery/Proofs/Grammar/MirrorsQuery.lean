import DocQuery.Proofs.Grammar.Ladder
import DocQuery.Proofs.Grammar.Mirrors

/-!
# Expressions and queries look at the tokens that they pass over

`mirror_expression`, `mirror_query`: what a whole expression or query makes of some tokens, it makes
of them in any session and with any rounds. The induction is on the rounds of one of the two
readings; in between, each part is shown for any `expression` and `query` that mirror each other.
-/

namespace DocQuery.Reading

section

variable {α : Type} {body body' : Reading α} {expression expression' : Reading Scalar}
  {query query' : Reading Query} {fuel fuel' : Nat}

/-! ## Primary expressions -/

theorem mirror_parenthesizedQuery (hQ : Mirror query query') :
    Mirror (parenthesizedQuery query) (parenthesizedQuery query') := by
  refine .bind (mirror_isAt rfl) fun found => ?_
  cases found with
  | true => exact .bind hQ fun q => .bind (mirror_expect rfl nofun) fun _ => .pure q
  | false => exact mirrors_unexpected _

theorem mirror_queryArgument (hQ : Mirror query query') :
    Mirror (queryArgument query) (queryArgument query') :=
  .bind (mirror_expect rfl nofun) fun _ => mirror_parenthesizedQuery hQ

theorem mirror_call (hE : Mirror expression expression') (name : String) (userDefined : Bool) :
    Mirror (call name userDefined expression fuel) (call name userDefined expression' fuel') := by
  have hnote : Mirror (modify fun s => { s with calls := ⟨name, userDefined⟩ :: s.calls } :
      Reading Unit) (modify fun s => { s with calls := ⟨name, userDefined⟩ :: s.calls }) := by
    refine .quiet (fun _ => ()) (fun _ _ _ => rfl) ?_ fun s place expected found m h => by cases h
    rintro s a m ⟨⟩
    exact ⟨.done rfl, rfl⟩
  exact .bind (mirror_expect rfl nofun) fun _ =>
    .bind (mirror_delimited hE (.mark .rightParen) rfl nofun _ _) fun es =>
    .bind hnote fun _ => .pure _

theorem mirror_field (hE : Mirror expression expression') :
    Mirror (field expression) (field expression') := by
  refine .token fun t => ?_
  cases t with
  | string key =>
    exact .passes nofun rfl (.bind (mirror_expect rfl nofun) fun _ => .bind hE fun e => .pure _)
  | _ => exact .looks (by rintro _ ⟨⟩; rfl) (mirrors_unexpected _)

theorem mirror_primary (hE : Mirror expression expression') (hQ : Mirror query query') :
    Mirror (primary expression query fuel) (primary expression' query' fuel') := by
  refine mirror_bump fun t => ?_
  cases t with
  | integer k => exact .inl ⟨nofun, fun _ => ⟨rfl, rfl⟩, .pure _⟩
  | double x => exact .inl ⟨nofun, fun _ => ⟨rfl, rfl⟩, .pure _⟩
  | string value => exact .inl ⟨nofun, fun _ => ⟨rfl, rfl⟩, .pure _⟩
  | parameter name => exact .inl ⟨nofun, fun _ => ⟨rfl, rfl⟩, .pure _⟩
  | identifier name =>
    refine .inl ⟨nofun, fun _ => ⟨rfl, rfl⟩, .bind (mirror_isAt rfl) fun found => ?_⟩
    cases found with
    | true => exact mirror_call hE name false
    | false => exact .pure _
  | keyword k =>
    cases k
    case true => exact .inl ⟨nofun, fun _ => ⟨rfl, rfl⟩, .pure _⟩
    case false => exact .inl ⟨nofun, fun _ => ⟨rfl, rfl⟩, .pure _⟩
    case null => exact .inl ⟨nofun, fun _ => ⟨rfl, rfl⟩, .pure _⟩
    case undefined => exact .inl ⟨nofun, fun _ => ⟨rfl, rfl⟩, .pure _⟩
    case «exists» =>
      exact .inl ⟨nofun, fun _ => ⟨rfl, rfl⟩, .map (mirror_queryArgument hQ)⟩
    case array =>
      exact .inl ⟨nofun, fun _ => ⟨rfl, rfl⟩, .map (mirror_queryArgument hQ)⟩
    case udf =>
      exact .inl ⟨nofun, fun _ => ⟨rfl, rfl⟩, .bind (mirror_expect rfl nofun) fun _ =>
        .bind mirror_identifier fun name => mirror_call hE name true⟩
    all_goals exact .inr ⟨.expression, by rintro _ ⟨⟩ place; exact ⟨rfl, rfl⟩⟩
  | mark m =>
    cases m
    case leftParen =>
      refine .inl ⟨nofun, fun _ => ⟨rfl, rfl⟩, .bind (mirror_isAt rfl) fun found => ?_⟩
      cases found with
      | true => exact .map (mirror_parenthesizedQuery hQ)
      | false => exact .bind hE fun e => .bind (mirror_expect rfl nofun) fun _ => .pure e
    case leftBracket =>
      exact .inl ⟨nofun, fun _ => ⟨rfl, rfl⟩,
        .map (mirror_delimited hE (.mark .rightBracket) rfl nofun _ _)⟩
    case leftBrace =>
      exact .inl ⟨nofun, fun _ => ⟨rfl, rfl⟩,
        .map (mirror_delimited (mirror_field hE) (.mark .rightBrace) rfl nofun _ _)⟩
    all_goals exact .inr ⟨.expression, by rintro _ ⟨⟩ place; exact ⟨rfl, rfl⟩⟩
  | endOfText => exact .inr ⟨.expression, by rintro _ ⟨⟩ place; exact ⟨rfl, rfl⟩⟩

/-! ## Accesses -/

theorem mirror_access : Mirror access? access? := by
  refine .bind (mirror_consume rfl nofun) fun dot => ?_
  cases dot with
  | true => exact .pure _
  | false =>
    refine .bind (mirror_consume rfl nofun) fun bracket => ?_
    cases bracket with
    | true => exact .pure _
    | false => exact .pure _

theorem mirror_accessStep (hE : Mirror expression expression') (owner : Scalar) (access : Access) :
    Mirror (accessStep expression owner access) (accessStep expression' owner access) := by
  cases access with
  | dot => exact .map mirror_identifier
  | bracket => exact .bind hE fun key => .bind (mirror_expect rfl nofun) fun _ => .pure _

/-! ## Infix levels -/

theorem mirror_infix? (level : Level) : Mirror (infix? level) (infix? level) := by
  refine .kind (fun t _ => ?_) fun t ht => ?_
  · split
    · rename_i op hop
      obtain ⟨-, rfl⟩ := BinaryOp.level_of_ofToken? hop
      exact .advance op.token_ne_endOfText (.pure _)
    · split
      · exact .advance nofun (.pure _)
      · refine .advance nofun (.kind (fun t _ => ?_) fun t ht => ?_)
        · split
          · exact .pure _
          · exact .pure _
          · exact mirrors_unexpected _
        · cases t <;> first
            | exact .looks (by rintro _ ⟨⟩; rfl) (mirrors_unexpected _)
            | cases ht
      · exact .pure _
      · exact .pure _
      · exact .pure none
  · cases t <;> first
      | cases level <;> exact .looks (by rintro _ ⟨⟩; rfl) (.pure none)
      | cases ht

theorem mirror_infixStep {above above' : Reading Scalar} (habove : Mirror above above')
    (hE : Mirror expression expression') (left : Scalar) (i : Infix) :
    Mirror (infixStep above expression fuel left i) (infixStep above' expression' fuel' left i) := by
  cases i with
  | binary op => exact .map habove
  | coalesce => exact .map habove
  | rangeOrList negated =>
    refine .bind (mirror_consume rfl nofun) fun between => ?_
    cases between with
    | true =>
      exact .bind habove fun low => .bind (mirror_expect rfl nofun) fun _ =>
        .bind habove fun high => .pure _
    | false =>
      exact .bind (mirror_expect rfl nofun) fun _ => .bind (mirror_expect rfl nofun) fun _ =>
        .bind (mirror_list hE _ _) fun items => .bind (mirror_expect rfl nofun) fun _ => .pure _

/-! ## The ladder -/

/-- Each level mirrors itself, if whole expressions and queries and the next level do. -/
theorem mirror_atLevel {fuel fuel' : Nat}
    (hE : Mirror (Reading.expression fuel) (Reading.expression fuel'))
    (hQ : Mirror (Reading.query fuel) (Reading.query fuel'))
    (h : ∀ level, Mirror (atLevel level fuel) (atLevel level fuel')) (level : Level) :
    Mirror (atLevel level (fuel + 1)) (atLevel level (fuel' + 1)) := by
  obtain hlevel | rfl | rfl | rfl := isInfix_or level
  · rw [atLevel_infixLevel hlevel, atLevel_infixLevel hlevel]
    exact .bind (h _) fun first => mirror_chain (mirror_infix? level)
      (fun left i => mirror_infixStep (h _) hE left i) _ _ _ first
  · rw [atLevel, atLevel]
    refine .bind (h _) fun condition => .bind (mirror_consume rfl (by decide)) fun found => ?_
    cases found with
    | true =>
      exact .bind hE fun consequent => .bind (mirror_expect rfl (by decide)) fun _ =>
        .bind hE fun alternative => .pure _
    | false => exact .pure condition
  · rw [atLevel, atLevel]
    refine .token fun t => ?_
    cases hop : UnaryOp.ofToken? t with
    | some op =>
      obtain rfl := UnaryOp.token_of_ofToken? hop
      exact .passes op.token_ne_endOfText (by simp only [hop]; rfl) (.nested (h _))
    | none =>
      refine .looks (fun t' ht' => ?_) ((h .primary).at _)
      have hop' : UnaryOp.ofToken? t' = none := by cases ht' <;> first | rfl | exact hop
      simp only [hop']
  · rw [atLevel, atLevel]
    exact .bind (mirror_primary hE hQ) fun first => mirror_chain mirror_access
      (fun owner access => mirror_accessStep hE owner access) _ _ _ first

/-! ## Clauses -/

theorem mirror_clause (word : Keyword) (hbody : Mirror body body') :
    Mirror (clause? word body) (clause? word body') := by
  refine .bind (mirror_consume rfl nofun) fun found => ?_
  cases found with
  | true => exact .map hbody
  | false => exact .pure none

theorem mirror_clauseBy (word : Keyword) (hbody : Mirror body body') :
    Mirror (clauseBy? word body) (clauseBy? word body') :=
  mirror_clause word (.bind (mirror_expect rfl nofun) fun _ => hbody)

theorem mirror_count : Mirror count count := by
  refine .token fun t => ?_
  cases t with
  | integer n => exact .passes nofun rfl (.pure _)
  | double x => exact .passes nofun rfl (.pure _)
  | parameter name => exact .passes nofun rfl (.pure _)
  | _ => exact .looks (by rintro _ ⟨⟩; rfl) (mirrors_unexpected _)

theorem mirror_alias : Mirror alias? alias? := by
  refine .bind (mirror_consume rfl nofun) fun worded => ?_
  cases worded with
  | true => exact .map mirror_identifier
  | false =>
    refine .token fun t => ?_
    cases t with
    | identifier name => exact .looks (by rintro _ ⟨⟩; rfl) (.map (mirror_identifier.at _))
    | _ => exact .looks (by rintro _ ⟨⟩; rfl) (.pure none)

theorem mirror_selectItem (hE : Mirror expression expression') :
    Mirror (selectItem expression) (selectItem expression') :=
  .bind hE fun _ => .bind mirror_alias fun _ => .pure _

theorem mirror_projection (hE : Mirror expression expression') :
    Mirror (projection expression fuel) (projection expression' fuel') := by
  refine .bind (mirror_consume rfl nofun) fun all => ?_
  cases all with
  | true => exact .pure _
  | false =>
    refine .bind (mirror_consume rfl nofun) fun value => ?_
    cases value with
    | true => exact .map hE
    | false => exact .map (mirror_list (mirror_selectItem hE) _ _)

theorem mirror_pathKey : Mirror pathKey pathKey := by
  refine mirror_bump fun t => ?_
  cases t with
  | integer n => exact .inl ⟨nofun, fun _ => ⟨rfl, rfl⟩, .pure _⟩
  | double x => exact .inl ⟨nofun, fun _ => ⟨rfl, rfl⟩, .pure _⟩
  | string value => exact .inl ⟨nofun, fun _ => ⟨rfl, rfl⟩, .pure _⟩
  | _ => exact .inr ⟨.pathKey, by rintro _ ⟨⟩ place; exact ⟨rfl, rfl⟩⟩

theorem mirror_inputPath (input : String) :
    Mirror (inputPath input fuel) (inputPath input fuel') := by
  refine .bind (mirror_chain mirror_access (fun before access => ?_) _ _ _ _) fun segments => .pure _
  cases access with
  | dot => exact .bind mirror_identifier fun name => .pure _
  | bracket => exact .bind mirror_pathKey fun key => .bind (mirror_expect rfl nofun) fun _ => .pure _

theorem mirror_collection (hE : Mirror expression expression') (hQ : Mirror query query') :
    Mirror (collection expression query fuel) (collection expression' query' fuel') := by
  refine .token fun t => ?_
  cases t with
  | identifier name =>
    exact .looks (by rintro _ ⟨⟩; rfl) (.bind (mirror_identifier.at _) fun input =>
      mirror_inputPath input)
  | mark m =>
    refine .looks (by rintro _ ⟨⟩; rfl) ?_
    cases m
    case leftParen => exact .advance nofun (.map (mirror_parenthesizedQuery hQ))
    case leftBracket =>
      exact .advance nofun (.bind (mirror_list hE _ _) fun items =>
        .bind (mirror_expect rfl nofun) fun _ => .pure _)
    all_goals exact mirrors_unexpected _
  | _ => exact .looks (by rintro _ ⟨⟩; rfl) (mirrors_unexpected _)

theorem mirror_operand (hE : Mirror expression expression') (hQ : Mirror query query') :
    Mirror (operand expression query fuel) (operand expression' query' fuel') := by
  have hother : Mirror (do
      let c ← collection expression query fuel
      let a ← alias?
      return Source.aliased c a) (do
      let c ← collection expression' query' fuel'
      let a ← alias?
      return .aliased c a) :=
    .bind (mirror_collection hE hQ) fun c => .bind mirror_alias fun a => .pure _
  refine .token fun t => ?_
  cases t with
  | identifier name =>
    refine .looks (by rintro _ ⟨⟩; rfl) (.bind (mirror_identifier.at _) fun name =>
      .bind (mirror_consume rfl nofun) fun each => ?_)
    cases each with
    | true => exact .map (mirror_collection hE hQ)
    | false => exact .bind (mirror_inputPath name) fun c => .bind mirror_alias fun a => .pure _
  | _ => exact .looks (by rintro _ ⟨⟩; rfl) (hother.at _)

theorem mirror_source (hE : Mirror expression expression') (hQ : Mirror query query') :
    Mirror (source expression query fuel) (source expression' query' fuel') := by
  have hjoin : Mirror join? join? := by
    refine .bind (mirror_consume rfl nofun) fun found => ?_
    cases found with
    | true => exact .pure _
    | false => exact .pure _
  exact .bind (mirror_operand hE hQ) fun first =>
    mirror_chain hjoin (fun left _ => .map (mirror_operand hE hQ)) _ _ _ first

theorem mirror_sortKey (hE : Mirror expression expression') :
    Mirror (sortKey expression) (sortKey expression') := by
  refine .bind hE fun e => .bind (mirror_consume rfl nofun) fun descending => ?_
  cases descending with
  | true => exact .pure _
  | false => exact .bind (mirror_consume rfl nofun) fun _ => .pure _

theorem mirror_window : Mirror window window :=
  .bind mirror_count fun _ => .bind (mirror_expect rfl nofun) fun _ =>
    .bind mirror_count fun _ => .pure _

theorem mirror_clauses (hE : Mirror expression expression') (hQ : Mirror query query') :
    Mirror (clauses expression query fuel) (clauses expression' query' fuel') :=
  .bind (mirror_expect rfl nofun) fun _ => .bind (mirror_consume rfl nofun) fun _ =>
    .bind (mirror_clause .top mirror_count) fun _ => .bind (mirror_projection hE) fun _ =>
    .bind (mirror_clause .from (mirror_source hE hQ)) fun _ =>
    .bind (mirror_clause .where hE) fun _ =>
    .bind (mirror_clauseBy .group (mirror_list hE _ _)) fun _ =>
    .bind (mirror_clauseBy .order (mirror_list (mirror_sortKey hE) _ _)) fun _ =>
    .bind (mirror_clause .offset mirror_window) fun _ => .pure _

end

/-! ## The whole grammar -/

theorem mirror_all (fuel fuel' : Nat) : Mirror (expression fuel) (expression fuel') ∧
    (∀ level, Mirror (atLevel level fuel) (atLevel level fuel')) ∧
    Mirror (query fuel) (query fuel') := by
  induction fuel generalizing fuel' with
  | zero =>
    refine ⟨?_, fun level => ?_, ?_⟩
    · rw [expression]
      exact mirrors_outOfFuel
    · rw [atLevel]
      exact mirrors_outOfFuel
    · rw [query]
      exact mirrors_outOfFuel
  | succ fuel ih =>
    have hlevel (level : Level) (fuel' : Nat) :
        Mirror (atLevel level (fuel + 1)) (atLevel level (fuel' + 1)) :=
      mirror_atLevel (ih fuel').1 (ih fuel').2.2 (ih fuel').2.1 level
    refine ⟨?_, fun level => ?_, ?_⟩
    · refine mirror_rounds expression (by rw [expression]) (fun fuel' => ?_) fuel'
      rw [expression, expression]
      exact .nested ((ih fuel').2.1 .conditional)
    · exact mirror_rounds (atLevel level) (by rw [atLevel]) (hlevel level) fuel'
    · refine mirror_rounds query (by rw [query]) (fun fuel' => ?_) fuel'
      rw [query, query]
      exact .nested (mirror_clauses (ih fuel').1 (ih fuel').2.2)

/-- What an expression makes of some tokens depends on no rounds. -/
theorem mirror_expression (fuel fuel' : Nat) : Mirror (expression fuel) (expression fuel') :=
  (mirror_all fuel fuel').1

/-- What a query makes of some tokens depends on no rounds. -/
theorem mirror_query (fuel fuel' : Nat) : Mirror (query fuel) (query fuel') :=
  (mirror_all fuel fuel').2.2

end DocQuery.Reading
