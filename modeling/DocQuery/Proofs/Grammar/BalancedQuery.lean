import DocQuery.Proofs.Grammar.Balanced
import DocQuery.Proofs.Grammar.Requests

/-!
# The grammar gives back the levels that it enters

Expressions, prefix operators and queries enter a level and leave it; chains enter one for each link and
leave them all at their end. A reading that fails leaves the levels open that it has entered by then, and
so the next one may begin at any depth.

* `Reading.Part p`: the reading `p` is one that the grammar is made of.
* `Reading.Part.balanced`: all of them are balanced.
* `balanced_of_session`: so is all that a session is asked for, also after errors.
-/

namespace DocQuery

namespace Reading

/-! ## Parts of the grammar -/

theorem Balanced.clause? {α : Type} {body : Reading α} (word : Keyword) (hbody : Balanced 0 body 0) :
    Balanced 0 (clause? word body) 0 :=
  .bind (.consume _) fun _ => .ite (.map hbody) (.pure none)

/-- The readings that the grammar is made of, whatever rounds they are given. -/
inductive Part : {α : Type} → Reading α → Prop
  | advance : Part advance
  | bump : Part bump
  | consume (t : Token) : Part (consume t)
  | expect (t : Token) : Part (expect t)
  | identifier : Part identifier
  | expectEnd : Part expectEnd
  | list {α : Type} {item : Reading α} (h : Part item) (fuel : Nat) : Part (list item fuel)
  | delimited {α : Type} {item : Reading α} (h : Part item) (close : Token) (fuel : Nat) :
      Part (delimited close item fuel)
  | expression (fuel : Nat) : Part (expression fuel)
  | atLevel (level : Level) (fuel : Nat) : Part (atLevel level fuel)
  | infix? (level : Level) : Part (infix? level)
  | infixStep (level : Level) (rounds fuel : Nat) (left : Scalar) (i : Infix) :
      Part (infixStep (Reading.atLevel level rounds) (Reading.expression rounds) fuel left i)
  | access? : Part access?
  | accessStep (rounds : Nat) (owner : Scalar) (access : Access) :
      Part (accessStep (Reading.expression rounds) owner access)
  | primary (rounds fuel : Nat) :
      Part (primary (Reading.expression rounds) (Reading.query rounds) fuel)
  | call (name : String) (userDefined : Bool) (rounds fuel : Nat) :
      Part (call name userDefined (Reading.expression rounds) fuel)
  | field (rounds : Nat) : Part (field (Reading.expression rounds))
  | queryArgument (rounds : Nat) : Part (queryArgument (Reading.query rounds))
  | parenthesizedQuery (rounds : Nat) : Part (parenthesizedQuery (Reading.query rounds))
  | query (fuel : Nat) : Part (query fuel)
  | clauses (rounds fuel : Nat) :
      Part (clauses (Reading.expression rounds) (Reading.query rounds) fuel)
  | clause? {α : Type} {body : Reading α} (word : Keyword) (h : Part body) : Part (clause? word body)
  | clauseBy? {α : Type} {body : Reading α} (word : Keyword) (h : Part body) :
      Part (clauseBy? word body)
  | count : Part count
  | alias? : Part alias?
  | projection (rounds fuel : Nat) : Part (projection (Reading.expression rounds) fuel)
  | selectItem (rounds : Nat) : Part (selectItem (Reading.expression rounds))
  | source (rounds fuel : Nat) :
      Part (source (Reading.expression rounds) (Reading.query rounds) fuel)
  | join? : Part join?
  | operand (rounds fuel : Nat) :
      Part (operand (Reading.expression rounds) (Reading.query rounds) fuel)
  | collection (rounds fuel : Nat) :
      Part (collection (Reading.expression rounds) (Reading.query rounds) fuel)
  | inputPath (input : String) (fuel : Nat) : Part (inputPath input fuel)
  | pathStep (before : List Segment) (access : Access) : Part (pathStep before access)
  | pathKey : Part pathKey
  | sortKey (rounds : Nat) : Part (sortKey (Reading.expression rounds))
  | window : Part window

/-- All readings of the grammar are balanced: they are in good order, but for the two that only pass over
a token, and those made of such. -/
theorem Part.balanced {α : Type} {p : Reading α} (h : Part p) : Balanced 0 p 0 := by
  have horderly {α : Type} {p : Reading α} (hp : Orderly 0 0 p) : Balanced 0 p 0 := hp.balanced
  have hE (fuel : Nat) := orderly_expression fuel
  have hQ (fuel : Nat) := orderly_query fuel
  have hfuel (fuel : Nat) := Nat.zero_le fuel
  induction h with
  | advance => exact .advance
  | bump => exact .bump
  | consume t => exact .consume t
  | expect t => exact .expect t
  | identifier => exact horderly .identifier
  | expectEnd => exact horderly .expectEnd
  | list _ fuel ih => exact ih.list fuel
  | delimited _ close fuel ih => exact ih.delimited close fuel
  | expression fuel => exact horderly (hE fuel)
  | atLevel level fuel => exact horderly (orderly_atLevel level fuel)
  | infix? level => exact horderly (.infix? level)
  | infixStep level rounds fuel left i =>
    exact ((orderly_atLevel level rounds).infixStep (hE rounds) (hfuel fuel) left i).1.balanced
  | access? => exact horderly .access?
  | accessStep rounds owner access => exact horderly ((hE rounds).accessStep owner access)
  | primary rounds fuel => exact horderly (.primary (hE rounds) (hQ rounds) (hfuel fuel))
  | call name userDefined rounds fuel => exact horderly ((hE rounds).call (hfuel fuel) name userDefined)
  | field rounds => exact horderly (hE rounds).field
  | queryArgument rounds => exact horderly (hQ rounds).queryArgument
  | parenthesizedQuery rounds => exact horderly (hQ rounds).parenthesizedQuery
  | query fuel => exact horderly (hQ fuel)
  | clauses rounds fuel => exact horderly (.clauses (hE rounds) (hQ rounds) (hfuel fuel))
  | clause? word _ ih => exact .clause? word ih
  | clauseBy? word _ ih => exact .clause? word (.bind (.expect _) fun _ => ih)
  | count => exact horderly .count
  | alias? => exact horderly .alias?
  | projection rounds fuel => exact horderly ((hE rounds).projection (hfuel fuel))
  | selectItem rounds => exact horderly (hE rounds).selectItem
  | source rounds fuel => exact horderly ((hE rounds).source (hQ rounds) (hfuel fuel))
  | join? => exact horderly .join?
  | operand rounds fuel => exact horderly ((hE rounds).operand (hQ rounds) (hfuel fuel))
  | collection rounds fuel => exact horderly ((hE rounds).collection (hQ rounds) (hfuel fuel))
  | inputPath input fuel => exact horderly (.inputPath (hfuel fuel) input)
  | pathStep before access => exact horderly (.pathStep before access)
  | pathKey => exact horderly .pathKey
  | sortKey rounds => exact horderly (hE rounds).sortKey
  | window => exact horderly .window

end Reading

/-! ## Requests -/

namespace Session

open Reading

/-- The session gives what it is asked for. -/
def meets (s : Session) : Request → Bool
  | .query => s.query.1.isOk
  | .scalar => s.scalar.1.isOk
  | .expression => s.expression.1.isOk

/-- While it reads what it is asked for, the session leaves no more levels than are open. -/
def Covers (s : Session) : Request → Prop
  | .query => Covered (Reading.query s.fuel).whole s
  | .scalar => Covered (Reading.expression s.fuel).whole s
  | .expression => Covered (Reading.expression s.fuel) s

variable {α : Type} {p : Reading α} {s : Session}

/-- Where a balanced reading begins at no level of its own, it ends at the depth where it began, or
deeper if it fails. -/
theorem depth_of_balanced (h : Balanced 0 p 0) (s : Session) :
    ((p.run s).1.isOk = true → (p.run s).2.depth = s.depth) ∧ s.depth ≤ (p.run s).2.depth := by
  have hs : 0 ≤ s.depth := Nat.zero_le _
  rcases hrun : p.run s with ⟨e | a, m⟩
  · exact ⟨nofun, h.error hs hrun⟩
  · exact ⟨fun _ => h.ok hs hrun, (h.ok hs hrun).ge⟩

theorem depth_behind (s : Session) (request : Request) : s.Covers request ∧
    (s.meets request = true → (s.behind request).depth = s.depth) ∧
    s.depth ≤ (s.behind request).depth := by
  have hs : 0 ≤ s.depth := Nat.zero_le _
  have hquery := (orderly_query s.fuel).whole.balanced
  have hscalar := (orderly_expression s.fuel).whole.balanced
  have hexpression := (orderly_expression s.fuel).balanced
  cases request with
  | query => exact ⟨hquery.covered hs, depth_of_balanced hquery s⟩
  | scalar => exact ⟨hscalar.covered hs, depth_of_balanced hscalar s⟩
  | expression => exact ⟨hexpression.covered hs, depth_of_balanced hexpression s⟩

end Session

open Reading

/-- The depth of a session is balanced. It is 0 at the start of a text. Whatever the session was asked
for before and whether or not it could give it, the next request leaves no more levels at any time than
are open, ends at the depth where it began if it is met, and at no lesser depth if it is not. The same is
so of every reading that the grammar is made of, in whatever session it is run. -/
theorem balanced_of_session {text : String} {limit : Nat} {s : Session}
    (hs : Session.start text limit = .ok s) : s.depth = 0 ∧
    (∀ requests request, (s.after requests).Covers request ∧
      ((s.after requests).meets request = true →
        ((s.after requests).behind request).depth = (s.after requests).depth) ∧
      (s.after requests).depth ≤ ((s.after requests).behind request).depth) ∧
    ∀ (α : Type) (p : Reading α), Part p → ∀ s, Covered p s ∧
      (∀ a m, p.run s = (.ok a, m) → m.depth = s.depth) ∧
      (∀ e m, p.run s = (.error e, m) → s.depth ≤ m.depth) := by
  refine ⟨?_, fun requests request => (s.after requests).depth_behind request,
    fun α p hp s => ?_⟩
  · unfold Session.start at hs
    split at hs <;> cases hs
    rfl
  · have hdepth : 0 ≤ s.depth := Nat.zero_le _
    exact ⟨hp.balanced.covered hdepth, fun a m => hp.balanced.ok hdepth,
      fun e m => hp.balanced.error hdepth⟩

/-- The comma leaves the levels of the expression and of its link open, and no `SELECT` behind it that of
a query. The name with its access is read at depth 3 and ends there. -/
theorem balanced_of_session_comma : ∃ s, Session.start "1 + , c.x" defaultLimit = .ok s ∧
    s.depth = 0 ∧ s.meets .expression = false ∧ (s.after [.expression]).depth = 2 ∧
    (s.after [.expression]).meets .query = false ∧ (s.after [.expression, .query]).depth = 3 ∧
    (s.after [.expression, .query, .scalar]).depth = 3 := by
  have hfacts : (Session.start "1 + , c.x" defaultLimit).toOption.map (fun s =>
      (s.meets .expression, (s.after [.expression]).depth, (s.after [.expression]).meets .query,
        (s.after [.expression, .query]).depth, (s.after [.expression, .query]).meets .scalar)) =
      some (false, 2, false, 3, true) := by
    decide +kernel
  obtain ⟨s, hs, hfacts⟩ := exists_of_map hfacts
  simp only [Prod.mk.injEq] at hfacts
  obtain ⟨hfirst, hdepth, hsecond, hdepth', hthird⟩ := hfacts
  obtain ⟨hzero, hrequests, -⟩ := balanced_of_session hs
  have hlast : s.after [.expression, .query, .scalar] =
      (s.after [.expression, .query]).behind .scalar := rfl
  refine ⟨s, hs, hzero, hfirst, hdepth, hsecond, hdepth', ?_⟩
  rw [hlast, (hrequests [.expression, .query] .scalar).2.1 hthird, hdepth']

end DocQuery
