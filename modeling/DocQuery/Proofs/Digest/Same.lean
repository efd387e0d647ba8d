import DocQuery.Proofs.Digest.Parts
import DocQuery.Proofs.Number.NormalForm
import DocQuery.Tree.Same

/-!
# Trees that say the same have one digest

* `Query.digest_eq_of_same`, `Scalar.digest_eq_of_same`: by recursion on both trees.
* `digest_same`: trees that differ at most in how their numbers are held have one digest, strict or
  loose.

A number enters a digest by its normal form, which numbers of one value share. All else that enters
is the same in both trees, node by node.
-/

namespace DocQuery

open Digest

/-! ## Leaves and paths -/

theorem Literal.digest_eq_of_same {v w : Literal} (h : v.same w = true) : v.digest = w.digest := by
  cases v with
  | number m =>
    cases w with
    | number n => exact congrArg (mix Salt.number) (Number.digest_eq_of_same h)
    | _ => cases h
  | _ => exact congrArg digest (of_decide_eq_true h)

theorem Segment.digest_eq_of_same {s t : Segment} (h : s.same t = true) (before : Option UInt32) :
    s.digest before = t.digest before := by
  cases s with
  | number m =>
    cases t with
    | number n => simp only [digest, ofNumber, Number.digest_eq_of_same h]
    | _ => cases h
  | _ => exact congrArg (digest before) (of_decide_eq_true h)

theorem Segment.pathDigest?_eq_of_same {ss ts : List Segment} (h : Segment.sameList ss ts = true) :
    pathDigest? ss = pathDigest? ts := by
  unfold pathDigest?
  generalize (none : Option UInt32) = before
  induction ss generalizing ts before with
  | nil =>
    cases ts with
    | nil => rfl
    | cons t ts => cases h
  | cons s ss ih =>
    cases ts with
    | nil => cases h
    | cons t ts =>
      obtain ⟨hs, hss⟩ := Bool.and_eq_true_iff.mp h
      rw [List.foldl_cons, List.foldl_cons, Segment.digest_eq_of_same hs]
      exact ih hss _

/-! ## Trees -/

section

variable (strict : Bool)

mutual

theorem Scalar.digest_eq_of_same : (a b : Scalar) → a.same b = true →
    a.digest strict = b.digest strict
  | .literal v, b, h => by
    cases b with
    | literal w => exact congrArg (mix Salt.literal) (Literal.digest_eq_of_same h)
    | _ => nomatch h
  | .unary op operand, b, h => by
    cases b with
    | unary op' operand' =>
      simp only [Scalar.same, Bool.and_eq_true, decide_eq_true_eq] at h
      obtain ⟨rfl, hoperand⟩ := h
      simp only [Scalar.digest, Scalar.digest_eq_of_same operand operand' hoperand]
    | _ => nomatch h
  | .binary op left right, b, h => by
    cases b with
    | binary op' left' right' =>
      simp only [Scalar.same, Bool.and_eq_true, decide_eq_true_eq] at h
      obtain ⟨⟨rfl, hleft⟩, hright⟩ := h
      simp only [Scalar.digest, Scalar.digest_eq_of_same left left' hleft,
        Scalar.digest_eq_of_same right right' hright]
    | _ => nomatch h
  | .between subject low high negated, b, h => by
    cases b with
    | between subject' low' high' negated' =>
      simp only [Scalar.same, Bool.and_eq_true, decide_eq_true_eq] at h
      obtain ⟨⟨⟨hsubject, hlow⟩, hhigh⟩, rfl⟩ := h
      simp only [Scalar.digest, Scalar.digest_eq_of_same subject subject' hsubject,
        Scalar.digest_eq_of_same low low' hlow, Scalar.digest_eq_of_same high high' hhigh]
    | _ => nomatch h
  | .conditional condition consequent alternative, b, h => by
    cases b with
    | conditional condition' consequent' alternative' =>
      simp only [Scalar.same, Bool.and_eq_true] at h
      obtain ⟨⟨hcondition, hconsequent⟩, halternative⟩ := h
      simp only [Scalar.digest, Scalar.digest_eq_of_same condition condition' hcondition,
        Scalar.digest_eq_of_same consequent consequent' hconsequent,
        Scalar.digest_eq_of_same alternative alternative' halternative]
    | _ => nomatch h
  | .coalesce left right, b, h => by
    cases b with
    | coalesce left' right' =>
      simp only [Scalar.same, Bool.and_eq_true] at h
      simp only [Scalar.digest, Scalar.digest_eq_of_same left left' h.1,
        Scalar.digest_eq_of_same right right' h.2]
    | _ => nomatch h
  | .among subject items negated, b, h => by
    cases b with
    | among subject' items' negated' =>
      simp only [Scalar.same, Bool.and_eq_true, decide_eq_true_eq] at h
      obtain ⟨⟨hsubject, hitems⟩, rfl⟩ := h
      simp only [Scalar.digest, Scalar.digest_eq_of_same subject subject' hsubject,
        Scalar.digests_eq_of_same items items' hitems]
    | _ => nomatch h
  | .subquery use query, b, h => by
    cases b with
    | subquery use' query' =>
      simp only [Scalar.same, Bool.and_eq_true, decide_eq_true_eq] at h
      obtain ⟨rfl, hquery⟩ := h
      simp only [Scalar.digest, Query.digest_eq_of_same query query' hquery]
    | _ => nomatch h
  | .call function userDefined arguments, b, h => by
    cases b with
    | call function' userDefined' arguments' =>
      simp only [Scalar.same, Bool.and_eq_true, decide_eq_true_eq] at h
      obtain ⟨⟨rfl, rfl⟩, harguments⟩ := h
      simp only [Scalar.digest, Scalar.digests_eq_of_same arguments arguments' harguments]
    | _ => nomatch h
  | .index owner index, b, h => by
    cases b with
    | index owner' index' =>
      simp only [Scalar.same, Bool.and_eq_true] at h
      simp only [Scalar.digest, Scalar.digest_eq_of_same owner owner' h.1,
        Scalar.digest_eq_of_same index index' h.2]
    | _ => nomatch h
  | .name identifier, b, h => by
    cases b with
    | name identifier' =>
      simp only [Scalar.same, decide_eq_true_eq] at h
      rw [h]
    | _ => nomatch h
  | .property owner identifier, b, h => by
    cases b with
    | property owner' identifier' =>
      simp only [Scalar.same, Bool.and_eq_true, decide_eq_true_eq] at h
      obtain ⟨howner, rfl⟩ := h
      simp only [Scalar.digest, Scalar.digest_eq_of_same owner owner' howner]
    | _ => nomatch h
  | .parameter name, b, h => by
    cases b with
    | parameter name' =>
      simp only [Scalar.same, decide_eq_true_eq] at h
      rw [h]
    | _ => nomatch h
  | .array items, b, h => by
    cases b with
    | array items' => simp only [Scalar.digest, Scalar.digests_eq_of_same items items' h]
    | _ => nomatch h
  | .object fields, b, h => by
    cases b with
    | object fields' => simp only [Scalar.digest, Field.digests_eq_of_same fields fields' h]
    | _ => nomatch h
termination_by structural a => a

theorem Scalar.digests_eq_of_same : (as bs : List Scalar) → Scalar.sameList as bs = true →
    Scalar.digests strict as = Scalar.digests strict bs
  | [], [], _ => rfl
  | [], _ :: _, h => nomatch h
  | _ :: _, [], h => nomatch h
  | a :: as, b :: bs, h => by
    simp only [Scalar.sameList, Bool.and_eq_true] at h
    simp only [Scalar.digests, Scalar.digest_eq_of_same a b h.1,
      Scalar.digests_eq_of_same as bs h.2]
termination_by structural a => a

theorem Field.digests_eq_of_same : (as bs : List Field) → Field.sameList as bs = true →
    Field.digests strict as = Field.digests strict bs
  | [], [], _ => rfl
  | [], ⟨_, _⟩ :: _, h => nomatch h
  | ⟨_, _⟩ :: _, [], h => nomatch h
  | ⟨_, a⟩ :: as, ⟨_, b⟩ :: bs, h => by
    simp only [Field.sameList, Bool.and_eq_true, decide_eq_true_eq] at h
    obtain ⟨⟨rfl, ha⟩, has⟩ := h
    simp only [Field.digests, Scalar.digest_eq_of_same a b ha, Field.digests_eq_of_same as bs has]
termination_by structural a => a

theorem SelectItem.digests_eq_of_same : (as bs : List SelectItem) →
    SelectItem.sameList as bs = true → SelectItem.digests strict as = SelectItem.digests strict bs
  | [], [], _ => rfl
  | [], ⟨_, _⟩ :: _, h => nomatch h
  | ⟨_, _⟩ :: _, [], h => nomatch h
  | ⟨a, _⟩ :: as, ⟨b, _⟩ :: bs, h => by
    simp only [SelectItem.sameList, Bool.and_eq_true, decide_eq_true_eq] at h
    obtain ⟨⟨ha, rfl⟩, has⟩ := h
    simp only [SelectItem.digests, Scalar.digest_eq_of_same a b ha,
      SelectItem.digests_eq_of_same as bs has]
termination_by structural a => a

theorem SortKey.digests_eq_of_same : (as bs : List SortKey) → SortKey.sameList as bs = true →
    SortKey.digests strict as = SortKey.digests strict bs
  | [], [], _ => rfl
  | [], ⟨_, _⟩ :: _, h => nomatch h
  | ⟨_, _⟩ :: _, [], h => nomatch h
  | ⟨a, _⟩ :: as, ⟨b, _⟩ :: bs, h => by
    simp only [SortKey.sameList, Bool.and_eq_true, decide_eq_true_eq] at h
    obtain ⟨⟨ha, rfl⟩, has⟩ := h
    simp only [SortKey.digests, Scalar.digest_eq_of_same a b ha,
      SortKey.digests_eq_of_same as bs has]
termination_by structural a => a

theorem Projection.digest_eq_of_same : (p r : Projection) → p.same r = true →
    p.digest strict = r.digest strict
  | .all, r, h => by
    cases r with
    | all => rfl
    | _ => nomatch h
  | .items items, r, h => by
    cases r with
    | items items' =>
      simp only [Projection.digest, SelectItem.digests_eq_of_same items items' h]
    | _ => nomatch h
  | .value e, r, h => by
    cases r with
    | value f => simp only [Projection.digest, Scalar.digest_eq_of_same e f h]
    | _ => nomatch h
termination_by structural a => a

theorem Collection.digest_eq_of_same : (c d : Collection) → c.same d = true →
    c.digest strict = d.digest strict
  | .path input segments, d, h => by
    cases d with
    | path input' segments' =>
      simp only [Collection.same, Bool.and_eq_true, decide_eq_true_eq] at h
      obtain ⟨rfl, hsegments⟩ := h
      simp only [Collection.digest, Segment.pathDigest?_eq_of_same hsegments]
    | _ => nomatch h
  | .subquery query, d, h => by
    cases d with
    | subquery query' => simp only [Collection.digest, Query.digest_eq_of_same query query' h]
    | _ => nomatch h
  | .array items, d, h => by
    cases d with
    | array items' => simp only [Collection.digest, Scalar.digests_eq_of_same items items' h]
    | _ => nomatch h
termination_by structural a => a

theorem Source.digest_eq_of_same : (s t : Source) → s.same t = true →
    s.digest strict = t.digest strict
  | .aliased collection x?, t, h => by
    cases t with
    | aliased collection' y? =>
      simp only [Source.same, Bool.and_eq_true, decide_eq_true_eq] at h
      obtain ⟨hcollection, rfl⟩ := h
      simp only [Source.digest, Collection.digest_eq_of_same collection collection' hcollection]
    | _ => nomatch h
  | .each element collection, t, h => by
    cases t with
    | each element' collection' =>
      simp only [Source.same, Bool.and_eq_true, decide_eq_true_eq] at h
      obtain ⟨rfl, hcollection⟩ := h
      simp only [Source.digest, Collection.digest_eq_of_same collection collection' hcollection]
    | _ => nomatch h
  | .join left right, t, h => by
    cases t with
    | join left' right' =>
      simp only [Source.same, Bool.and_eq_true] at h
      simp only [Source.digest, Source.digest_eq_of_same left left' h.1,
        Source.digest_eq_of_same right right' h.2]
    | _ => nomatch h
termination_by structural a => a

theorem Scalar.clause_digest_eq_of_same : (a? b? : Option Scalar) →
    Scalar.sameClause a? b? = true →
    a?.map (Scalar.digest strict) = b?.map (Scalar.digest strict)
  | none, none, _ => rfl
  | none, some _, h => nomatch h
  | some _, none, h => nomatch h
  | some a, some b, h => congrArg some (Scalar.digest_eq_of_same a b h)
termination_by structural a => a

theorem Scalar.clause_digests_eq_of_same : (as? bs? : Option (List Scalar)) →
    Scalar.sameListClause as? bs? = true →
    as?.map (Scalar.digests strict) = bs?.map (Scalar.digests strict)
  | none, none, _ => rfl
  | none, some _, h => nomatch h
  | some _, none, h => nomatch h
  | some as, some bs, h => congrArg some (Scalar.digests_eq_of_same as bs h)
termination_by structural a => a

theorem SortKey.clause_digests_eq_of_same : (as? bs? : Option (List SortKey)) →
    SortKey.sameListClause as? bs? = true →
    as?.map (SortKey.digests strict) = bs?.map (SortKey.digests strict)
  | none, none, _ => rfl
  | none, some _, h => nomatch h
  | some _, none, h => nomatch h
  | some as, some bs, h => congrArg some (SortKey.digests_eq_of_same as bs h)
termination_by structural a => a

theorem Source.clause_digest_eq_of_same : (s? t? : Option Source) →
    Source.sameClause s? t? = true →
    s?.map (Source.digest strict) = t?.map (Source.digest strict)
  | none, none, _ => rfl
  | none, some _, h => nomatch h
  | some _, none, h => nomatch h
  | some s, some t, h => congrArg some (Source.digest_eq_of_same s t h)
termination_by structural a => a

theorem Window.clause_digest_eq_of_same : (v? w? : Option Window) →
    Window.sameClause v? w? = true →
    v?.map (Window.digest strict) = w?.map (Window.digest strict)
  | none, none, _ => rfl
  | none, some ⟨_, _⟩, h => nomatch h
  | some ⟨_, _⟩, none, h => nomatch h
  | some ⟨a, b⟩, some ⟨c, d⟩, h => by
    simp only [Window.sameClause, Bool.and_eq_true] at h
    simp only [Option.map_some, Window.digest, Scalar.digest_eq_of_same a c h.1,
      Scalar.digest_eq_of_same b d h.2]
termination_by structural a => a

theorem Query.digest_eq_of_same : (q r : Query) → q.same r = true →
    q.digest strict = r.digest strict
  | ⟨_, top?, projection, source?, filter?, groupKeys?, sortKeys?, window?⟩, r, h => by
    obtain ⟨_, top'?, projection', source'?, filter'?, groupKeys'?, sortKeys'?, window'?⟩ := r
    simp only [Query.same, Bool.and_eq_true, decide_eq_true_eq] at h
    obtain ⟨⟨⟨⟨⟨⟨⟨hdistinct, htop⟩, hprojection⟩, hsource⟩, hfilter⟩, hgroup⟩, hsort⟩, hwindow⟩ := h
    exact Query.digest_congr hdistinct (Scalar.clause_digest_eq_of_same top? top'? htop)
      (Projection.digest_eq_of_same projection projection' hprojection)
      (Source.clause_digest_eq_of_same source? source'? hsource)
      (Scalar.clause_digest_eq_of_same filter? filter'? hfilter)
      (Scalar.clause_digests_eq_of_same groupKeys? groupKeys'? hgroup)
      (SortKey.clause_digests_eq_of_same sortKeys? sortKeys'? hsort)
      (Window.clause_digest_eq_of_same window? window'? hwindow)
termination_by structural a => a

end

end

/-- Trees that say the same have one digest, strict or loose. Numbers may be held in any way that
leaves them worth the same, wherever they stand. -/
theorem digest_same :
    (∀ m n : Number, m.same n = true ↔ m.value = n.value) ∧
    (∀ (strict : Bool) (q r : Query), q.same r = true → q.digest strict = r.digest strict) ∧
    (∀ (strict : Bool) (a b : Scalar), a.same b = true → a.digest strict = b.digest strict) :=
  ⟨fun _ _ => Number.same_iff_value_eq, Query.digest_eq_of_same, Scalar.digest_eq_of_same⟩

/-- `SELECT TOP 2 0, nan FROM c[3]`, its numbers held as integers where they can be. -/
def wholeNumbers : Query :=
  ⟨false, some (.number (.integer 2)),
    .items [⟨.number (.integer 0), none⟩, ⟨.number (.double .nan), none⟩],
    some (.aliased (.path "c" [.number (.integer 3)]) none), none, none, none, none⟩

/-- The same query with doubles, of which one is a negative zero and one another NaN. -/
def doubleNumbers : Query :=
  ⟨false, some (.number (.double ⟨0x4000000000000000⟩)),
    .items [⟨.number (.double ⟨0x8000000000000000⟩), none⟩,
      ⟨.number (.double ⟨0xFFF8000000000001⟩), none⟩],
    some (.aliased (.path "c" [.number (.double ⟨0x4008000000000000⟩)]) none), none, none, none, none⟩

theorem digest_same_doubles : wholeNumbers.same doubleNumbers = true ∧
    ∀ strict, wholeNumbers.digest strict = doubleNumbers.digest strict := by
  have h : wholeNumbers.same doubleNumbers = true := by decide +kernel
  exact ⟨h, fun strict => digest_same.2.1 strict _ _ h⟩

end DocQuery
