import DocQuery.Proofs.Obfuscation.Ledger

/-!
# What hiding a tree gives

* `Writes`: what a step gives and lists, as long as its ledger goes on to one that is known.
* `Scalar.hide_writes`, `Query.hide_writes`: a tree with stand-ins is the tree relabelled by any later
  ledger, and its leaves are listed one after another.
-/

namespace DocQuery

variable {α β : Type} {final : Ledger}

/-- If its ledger with `leaves` listed goes on to `final`, the step gives `a` and lists `leaves`. -/
def Writes (final : Ledger) (step : Hiding α) (leaves : List Leaf) (a : α) : Prop :=
  ∀ l : Ledger, (l.recordAll leaves).Within final → step.run l = (a, l.recordAll leaves)

namespace Writes

variable {step : Hiding α} {as bs : List Leaf} {a : α} {b : β}

theorem pure (final : Ledger) (a : α) : Writes final (Pure.pure a) [] a := fun _ _ => rfl

theorem bind {f : α → Hiding β} (ha : Writes final step as a) (hb : Writes final (f a) bs b) :
    Writes final (step >>= f) (as ++ bs) b := by
  intro l hl
  rw [Ledger.recordAll_append] at hl ⊢
  have hstep := ha l ((Ledger.within_recordAll _ bs).trans hl)
  rw [StateT.run_bind, hstep]
  exact hb (l.recordAll as) hl

theorem map (f : α → β) (ha : Writes final step as a) : Writes final (f <$> step) as (f a) := by
  intro l hl
  rw [StateT.run_map, ha l hl]
  rfl

/-- The last step of a pass. -/
theorem bind_pure (f : α → β) (ha : Writes final step as a) :
    Writes final (step >>= fun a => Pure.pure (f a)) as (f a) := by
  rw [← map_eq_pure_bind]
  exact ha.map f

/-- Leaves that leave ledgers as they are. -/
theorem skip (bs : List Leaf) (h : ∀ l : Ledger, l.recordAll bs = l) (ha : Writes final step as a) :
    Writes final step (bs ++ as) a := by
  intro l hl
  rw [Ledger.recordAll_append, h] at hl ⊢
  exact ha l hl

end Writes

/-! ## Leaves -/

theorem hideString_writes (category : Category) (s : String) :
    Writes final (hideString category s) [.word category s] (final.relabeling.word category s) :=
  fun _ hl => Prod.ext (Ledger.Within.hideString_fst hl).symm rfl

theorem hideNumber_writes (n : Number) :
    Writes final (hideNumber n) [.number n] (final.relabeling.number n) :=
  fun _ hl => Prod.ext (Ledger.Within.hideNumber_fst hl).symm rfl

theorem hideAlias_writes (alias? : Option String) : Writes final (hideAlias alias?)
    (aliasLeaves alias?) (alias?.map (final.relabeling.word .identifier)) := by
  cases alias? with
  | none => exact .pure final none
  | some name => exact (hideString_writes .identifier name).map some

theorem Literal.hide_writes (v : Literal) :
    Writes final v.hide v.leaves (v.relabel final.relabeling) := by
  cases v with
  | number n => exact (hideNumber_writes n).map Literal.number
  | string s => exact (hideString_writes .string s).map Literal.string
  | null => exact .pure final _
  | undefined => exact .pure final _
  | boolean value => exact .pure final _

theorem Segment.hide_writes (s : Segment) :
    Writes final s.hide [s.leaf] (s.relabel final.relabeling) := by
  cases s with
  | name identifier => exact (hideString_writes .identifier identifier).map Segment.name
  | number n => exact (hideNumber_writes n).map Segment.number
  | string s => exact (hideString_writes .string s).map Segment.string

theorem Segment.list_hide_writes (ss : List Segment) : Writes final (ss.mapM Segment.hide)
    (ss.map Segment.leaf) (ss.map (Segment.relabel final.relabeling)) := by
  induction ss with
  | nil => exact .pure final []
  | cons s ss ih =>
    rw [List.mapM_cons]
    exact s.hide_writes.bind (ih.bind_pure _)

/-! ## Trees -/

/-- Hiding a clause, if it is there. -/
def hideClause (hide : α → Hiding α) : Option α → Hiding (Option α)
  | some a => some <$> hide a
  | none => pure none

/-- Hiding a query, clause by clause. -/
theorem Query.hide_eq (q : Query) : q.hide = do
    let projection ← q.projection.hide
    let source? ← hideClause Source.hide q.source?
    let filter? ← hideClause Scalar.hide q.filter?
    let groupKeys? ← hideClause Scalar.hideList q.groupKeys?
    let sortKeys? ← hideClause SortKey.hideList q.sortKeys?
    return ⟨q.distinct, q.top?.map fun _ => hiddenCount, projection, source?, filter?, groupKeys?,
      sortKeys?, q.window?.map fun _ => ⟨hiddenCount, hiddenCount⟩⟩ := by
  obtain ⟨_, _, _, source?, filter?, groupKeys?, sortKeys?, _⟩ := q
  cases source? <;> cases filter? <;> cases groupKeys? <;> cases sortKeys? <;> rfl

mutual

theorem Scalar.hide_writes : (e : Scalar) →
    Writes final e.hide e.leaves (e.relabel final.relabeling)
  | .literal v => v.hide_writes.map Scalar.literal
  | .unary op operand => (Scalar.hide_writes operand).map (Scalar.unary op)
  | .binary _ left right =>
    (Scalar.hide_writes left).bind ((Scalar.hide_writes right).bind_pure _)
  | .between subject low high _ =>
    (Scalar.hide_writes subject).bind
      ((Scalar.hide_writes low).bind ((Scalar.hide_writes high).bind_pure _))
  | .conditional condition consequent alternative =>
    (Scalar.hide_writes condition).bind
      ((Scalar.hide_writes consequent).bind ((Scalar.hide_writes alternative).bind_pure _))
  | .coalesce left right =>
    (Scalar.hide_writes left).bind ((Scalar.hide_writes right).bind_pure _)
  | .among subject items _ =>
    (Scalar.hide_writes subject).bind ((Scalar.hideList_writes items).bind_pure _)
  | .subquery use query => (Query.hide_writes query).map (Scalar.subquery use)
  | .call function userDefined arguments =>
    .skip [.function function] (fun _ => rfl)
      ((Scalar.hideList_writes arguments).map (Scalar.call function userDefined))
  | .index owner index =>
    (Scalar.hide_writes owner).bind ((Scalar.hide_writes index).bind_pure _)
  | .name identifier => (hideString_writes .identifier identifier).map Scalar.name
  | .property owner identifier =>
    (Scalar.hide_writes owner).bind ((hideString_writes .identifier identifier).bind_pure _)
  | .parameter name => (hideString_writes .parameter name).map Scalar.parameter
  | .array items => (Scalar.hideList_writes items).map Scalar.array
  | .object fields => (Field.hideList_writes fields).map Scalar.object
termination_by structural e => e

theorem Scalar.hideList_writes : (es : List Scalar) →
    Writes final (Scalar.hideList es) (Scalar.listLeaves es) (Scalar.relabelList final.relabeling es)
  | [] => .pure final []
  | e :: rest => (Scalar.hide_writes e).bind ((Scalar.hideList_writes rest).bind_pure _)
termination_by structural es => es

theorem Field.hideList_writes : (fields : List Field) → Writes final (Field.hideList fields)
    (Field.listLeaves fields) (Field.relabelList final.relabeling fields)
  | [] => .pure final []
  | ⟨key, value⟩ :: rest =>
    (hideString_writes .key key).bind
      ((Scalar.hide_writes value).bind ((Field.hideList_writes rest).bind_pure _))
termination_by structural fields => fields

theorem SelectItem.hideList_writes : (items : List SelectItem) →
    Writes final (SelectItem.hideList items) (SelectItem.listLeaves items)
      (SelectItem.relabelList final.relabeling items)
  | [] => .pure final []
  | ⟨e, alias?⟩ :: rest =>
    (Scalar.hide_writes e).bind
      ((hideAlias_writes alias?).bind ((SelectItem.hideList_writes rest).bind_pure _))
termination_by structural items => items

theorem SortKey.hideList_writes : (keys : List SortKey) → Writes final (SortKey.hideList keys)
    (SortKey.listLeaves keys) (SortKey.relabelList final.relabeling keys)
  | [] => .pure final []
  | ⟨e, _⟩ :: rest => (Scalar.hide_writes e).bind ((SortKey.hideList_writes rest).bind_pure _)
termination_by structural keys => keys

theorem Projection.hide_writes : (p : Projection) →
    Writes final p.hide p.leaves (p.relabel final.relabeling)
  | .all => .pure final Projection.all
  | .items items => (SelectItem.hideList_writes items).map Projection.items
  | .value e => (Scalar.hide_writes e).map Projection.value
termination_by structural p => p

theorem Collection.hide_writes : (c : Collection) →
    Writes final c.hide c.leaves (c.relabel final.relabeling)
  | .path input segments =>
    (hideString_writes .identifier input).bind ((Segment.list_hide_writes segments).bind_pure _)
  | .subquery query => (Query.hide_writes query).map Collection.subquery
  | .array items => (Scalar.hideList_writes items).map Collection.array
termination_by structural c => c

theorem Source.hide_writes : (s : Source) →
    Writes final s.hide s.leaves (s.relabel final.relabeling)
  | .aliased collection alias? =>
    (Collection.hide_writes collection).bind ((hideAlias_writes alias?).bind_pure _)
  | .each element collection =>
    (hideString_writes .identifier element).bind ((Collection.hide_writes collection).bind_pure _)
  | .join left right =>
    (Source.hide_writes left).bind ((Source.hide_writes right).bind_pure _)
termination_by structural s => s

theorem Query.hide_writes : (q : Query) →
    Writes final q.hide q.leaves (q.relabel final.relabeling)
  | ⟨_, top?, projection, source?, filter?, groupKeys?, sortKeys?, window?⟩ => by
    have htop (l : Ledger) : l.recordAll (clauseLeaves (fun count => [.count count]) top?) = l := by
      cases top? <;> rfl
    have hsource : Writes final (hideClause Source.hide source?) (clauseLeaves Source.leaves source?)
        (source?.map (Source.relabel final.relabeling)) := by
      cases source? with
      | none => exact .pure final none
      | some s => exact (Source.hide_writes s).map some
    have hfilter : Writes final (hideClause Scalar.hide filter?) (clauseLeaves Scalar.leaves filter?)
        (filter?.map (Scalar.relabel final.relabeling)) := by
      cases filter? with
      | none => exact .pure final none
      | some e => exact (Scalar.hide_writes e).map some
    have hgroup : Writes final (hideClause Scalar.hideList groupKeys?)
        (clauseLeaves Scalar.listLeaves groupKeys?)
        (groupKeys?.map (Scalar.relabelList final.relabeling)) := by
      cases groupKeys? with
      | none => exact .pure final none
      | some keys => exact (Scalar.hideList_writes keys).map some
    have hsort : Writes final (hideClause SortKey.hideList sortKeys?)
        (clauseLeaves SortKey.listLeaves sortKeys?)
        (sortKeys?.map (SortKey.relabelList final.relabeling)) := by
      cases sortKeys? with
      | none => exact .pure final none
      | some keys => exact (SortKey.hideList_writes keys).map some
    have hwindow (l : Ledger) : l.recordAll (clauseLeaves Window.leaves window?) = l := by
      cases window? <;> rfl
    rw [Query.hide_eq, Query.leaves_eq, Query.relabel_eq]
    refine .skip _ htop ((Projection.hide_writes projection).bind (hsource.bind (hfilter.bind
      (hgroup.bind (hsort.bind ?_)))))
    rw [← List.append_nil (clauseLeaves Window.leaves window?)]
    exact .skip _ hwindow (.pure final _)
termination_by structural q => q

end

end DocQuery
