import Mathlib.Data.UInt
import DocQuery.Digest.Tree

/-!
# Digests by their parts

* `Query.digest_congr`: queries whose clauses have the same digests have the same digest.
* `Field.digests_eq_map`, `SelectItem.digests_eq_map`: lists have the digests of their items.
* `Digest.mixItems_eq_add_sum`: a loose digest takes its items as a sum.
-/

namespace DocQuery

open Digest

/-- A loose digest adds its items up. -/
theorem Digest.mixItems_eq_add_sum (before : UInt32) (parts : List UInt32) :
    mixItems false before parts = before + parts.sum := by
  induction parts generalizing before with
  | nil => exact (UInt32.add_zero before).symm
  | cons part parts ih => exact (ih (before + part)).trans (UInt32.add_assoc before part parts.sum)

theorem Digest.sum_perm {parts parts' : List UInt32} (h : parts.Perm parts') :
    parts.sum = parts'.sum :=
  h.foldr_eq' (fun x _ y _ z => by rw [← UInt32.add_assoc, UInt32.add_comm y, UInt32.add_assoc]) 0

/-- The digest of a field. -/
def Field.digest (strict : Bool) (f : Field) : UInt32 :=
  mix (mix Salt.field (ofKey f.key)) (f.value.digest strict)

/-- The digest of a select item. -/
def SelectItem.digest (strict : Bool) (i : SelectItem) : UInt32 :=
  mixAlias (mix Salt.selectItem (i.expression.digest strict)) i.alias?

/-- The digest of the counts behind `OFFSET`. -/
def Window.digest (strict : Bool) (w : Window) : UInt32 :=
  mix (mix Salt.window (mix Salt.offset (w.offset.digest strict)))
    (mix Salt.limit (w.limit.digest strict))

theorem Field.digests_eq_map (strict : Bool) (fields : List Field) :
    Field.digests strict fields = fields.map (Field.digest strict) := by
  induction fields with
  | nil => rfl
  | cons f fields ih =>
    obtain ⟨_, _⟩ := f
    rw [List.map_cons, ← ih]
    rfl

theorem SelectItem.digests_eq_map (strict : Bool) (items : List SelectItem) :
    SelectItem.digests strict items = items.map (SelectItem.digest strict) := by
  induction items with
  | nil => rfl
  | cons i items ih =>
    obtain ⟨_, _⟩ := i
    rw [List.map_cons, ← ih]
    rfl

/-- The digest of a query, clause by clause. -/
theorem Query.digest_eq (strict : Bool) (q : Query) : q.digest strict =
    mixAll Salt.query (mixAll (mixFlag Salt.select Salt.distinct q.distinct)
        (((q.top?.map (Scalar.digest strict)).map (mix Salt.top)).toList ++
          [q.projection.digest strict]) ::
      ((q.source?.map (Source.digest strict)).map (mix Salt.source)).toList ++
      ((q.filter?.map (Scalar.digest strict)).map (mix Salt.filter)).toList ++
      ((q.groupKeys?.map (Scalar.digests strict)).map (mixAll Salt.groupKeys)).toList ++
      ((q.sortKeys?.map (SortKey.digests strict)).map (mixAll Salt.sortKeys)).toList ++
      (q.window?.map (Window.digest strict)).toList) := by
  obtain ⟨_, top?, _, source?, filter?, groupKeys?, sortKeys?, window?⟩ := q
  -- The recursion goes through the clauses, so it goes on only where each is known to be there.
  cases top? <;> cases source? <;> cases filter? <;> cases groupKeys? <;> cases sortKeys? <;>
    rcases window? with _ | ⟨_, _⟩ <;> rfl

/-- The digests of its clauses settle the digest of a query. -/
theorem Query.digest_congr {strict : Bool} {q r : Query} (hdistinct : q.distinct = r.distinct)
    (htop : q.top?.map (Scalar.digest strict) = r.top?.map (Scalar.digest strict))
    (hprojection : q.projection.digest strict = r.projection.digest strict)
    (hsource : q.source?.map (Source.digest strict) = r.source?.map (Source.digest strict))
    (hfilter : q.filter?.map (Scalar.digest strict) = r.filter?.map (Scalar.digest strict))
    (hgroup : q.groupKeys?.map (Scalar.digests strict) = r.groupKeys?.map (Scalar.digests strict))
    (hsort : q.sortKeys?.map (SortKey.digests strict) = r.sortKeys?.map (SortKey.digests strict))
    (hwindow : q.window?.map (Window.digest strict) = r.window?.map (Window.digest strict)) :
    q.digest strict = r.digest strict := by
  rw [Query.digest_eq, Query.digest_eq, hdistinct, htop, hprojection, hsource, hfilter, hgroup, hsort,
    hwindow]

end DocQuery
