import DocQuery.Proofs.Digest.Parts

/-!
# Loose digests and order

* `Reordered`: one fragment of a tree is the other with select items and fields in another order, at
  any depth.
* `Reordered.digests_eq`: such fragments have the same loose digests.
* `digest_reordered`: so have queries and scalars.
-/

namespace DocQuery

open Digest

/-! ## Trees in another order -/

/-- A fragment of a tree: a node, or nodes that stand side by side. -/
inductive Fragment where
  | scalar (a : Scalar)
  | scalars (as : List Scalar)
  | fields (as : List Field)
  | items (as : List SelectItem)
  | sortKeys (as : List SortKey)
  | projection (p : Projection)
  | collection (c : Collection)
  | source (s : Source)
  | query (q : Query)

section

open Fragment

/-- Fragments that differ in the order of select items and fields: the items of a `SELECT` and the
fields of an object may be permuted, in any number of places and steps, at any depth. -/
inductive Reordered : Fragment → Fragment → Prop
  | refl (p) : Reordered p p
  | trans {p q r} (h : Reordered p q) (h' : Reordered q r) : Reordered p r
  | permFields {as bs : List Field} (h : as.Perm bs) : Reordered (fields as) (fields bs)
  | permItems {as bs : List SelectItem} (h : as.Perm bs) : Reordered (items as) (items bs)
  -- Lists, item by item.
  | consScalar {a b as bs} (h : Reordered (scalar a) (scalar b))
    (hs : Reordered (scalars as) (scalars bs)) : Reordered (scalars (a :: as)) (scalars (b :: bs))
  | consField {key a b as bs} (h : Reordered (scalar a) (scalar b))
    (hs : Reordered (fields as) (fields bs)) :
    Reordered (fields (⟨key, a⟩ :: as)) (fields (⟨key, b⟩ :: bs))
  | consItem {alias? a b as bs} (h : Reordered (scalar a) (scalar b))
    (hs : Reordered (items as) (items bs)) :
    Reordered (items (⟨a, alias?⟩ :: as)) (items (⟨b, alias?⟩ :: bs))
  | consSortKey {descending a b as bs} (h : Reordered (scalar a) (scalar b))
    (hs : Reordered (sortKeys as) (sortKeys bs)) :
    Reordered (sortKeys (⟨a, descending⟩ :: as)) (sortKeys (⟨b, descending⟩ :: bs))
  -- Scalars.
  | unary {op a b} (h : Reordered (scalar a) (scalar b)) :
    Reordered (scalar (.unary op a)) (scalar (.unary op b))
  | binary {op a b c d} (hleft : Reordered (scalar a) (scalar c))
    (hright : Reordered (scalar b) (scalar d)) :
    Reordered (scalar (.binary op a b)) (scalar (.binary op c d))
  | between {a b c d e f negated} (hsubject : Reordered (scalar a) (scalar d))
    (hlow : Reordered (scalar b) (scalar e)) (hhigh : Reordered (scalar c) (scalar f)) :
    Reordered (scalar (.between a b c negated)) (scalar (.between d e f negated))
  | conditional {a b c d e f} (hcondition : Reordered (scalar a) (scalar d))
    (hconsequent : Reordered (scalar b) (scalar e))
    (halternative : Reordered (scalar c) (scalar f)) :
    Reordered (scalar (.conditional a b c)) (scalar (.conditional d e f))
  | coalesce {a b c d} (hleft : Reordered (scalar a) (scalar c))
    (hright : Reordered (scalar b) (scalar d)) :
    Reordered (scalar (.coalesce a b)) (scalar (.coalesce c d))
  | among {a b as bs negated} (hsubject : Reordered (scalar a) (scalar b))
    (hitems : Reordered (scalars as) (scalars bs)) :
    Reordered (scalar (.among a as negated)) (scalar (.among b bs negated))
  | subquery {use q r} (h : Reordered (query q) (query r)) :
    Reordered (scalar (.subquery use q)) (scalar (.subquery use r))
  | call {function userDefined as bs} (h : Reordered (scalars as) (scalars bs)) :
    Reordered (scalar (.call function userDefined as)) (scalar (.call function userDefined bs))
  | index {a b c d} (howner : Reordered (scalar a) (scalar c))
    (hindex : Reordered (scalar b) (scalar d)) :
    Reordered (scalar (.index a b)) (scalar (.index c d))
  | property {identifier a b} (h : Reordered (scalar a) (scalar b)) :
    Reordered (scalar (.property a identifier)) (scalar (.property b identifier))
  | array {as bs} (h : Reordered (scalars as) (scalars bs)) :
    Reordered (scalar (.array as)) (scalar (.array bs))
  | object {as bs} (h : Reordered (fields as) (fields bs)) :
    Reordered (scalar (.object as)) (scalar (.object bs))
  -- What a query selects, and from where.
  | selectItems {as bs} (h : Reordered (items as) (items bs)) :
    Reordered (projection (.items as)) (projection (.items bs))
  | selectValue {a b} (h : Reordered (scalar a) (scalar b)) :
    Reordered (projection (.value a)) (projection (.value b))
  | subqueryCollection {q r} (h : Reordered (query q) (query r)) :
    Reordered (collection (.subquery q)) (collection (.subquery r))
  | arrayCollection {as bs} (h : Reordered (scalars as) (scalars bs)) :
    Reordered (collection (.array as)) (collection (.array bs))
  | aliased {alias? c d} (h : Reordered (collection c) (collection d)) :
    Reordered (source (.aliased c alias?)) (source (.aliased d alias?))
  | each {element c d} (h : Reordered (collection c) (collection d)) :
    Reordered (source (.each element c)) (source (.each element d))
  | join {s t u v} (hleft : Reordered (source s) (source u))
    (hright : Reordered (source t) (source v)) :
    Reordered (source (.join s t)) (source (.join u v))
  -- Queries, one clause at a time.
  | top {q : Query} {a b} (h : Reordered (scalar a) (scalar b)) :
    Reordered (query { q with top? := some a }) (query { q with top? := some b })
  | select {q : Query} {p r} (h : Reordered (projection p) (projection r)) :
    Reordered (query { q with projection := p }) (query { q with projection := r })
  | fromSource {q : Query} {s t} (h : Reordered (source s) (source t)) :
    Reordered (query { q with source? := some s }) (query { q with source? := some t })
  | filter {q : Query} {a b} (h : Reordered (scalar a) (scalar b)) :
    Reordered (query { q with filter? := some a }) (query { q with filter? := some b })
  | groupBy {q : Query} {as bs} (h : Reordered (scalars as) (scalars bs)) :
    Reordered (query { q with groupKeys? := some as }) (query { q with groupKeys? := some bs })
  | orderBy {q : Query} {as bs} (h : Reordered (sortKeys as) (sortKeys bs)) :
    Reordered (query { q with sortKeys? := some as }) (query { q with sortKeys? := some bs })
  | window {q : Query} {a b c d} (hoffset : Reordered (scalar a) (scalar c))
    (hlimit : Reordered (scalar b) (scalar d)) :
    Reordered (query { q with window? := some ⟨a, b⟩ }) (query { q with window? := some ⟨c, d⟩ })

end

/-! ## Their digests -/

/-- The loose digests of a fragment: those of its nodes, or their sum where order does not count. -/
def Fragment.digests : Fragment → List UInt32
  | scalar a => [a.digest false]
  | scalars as => Scalar.digests false as
  | fields as => [(Field.digests false as).sum]
  | items as => [(SelectItem.digests false as).sum]
  | sortKeys as => SortKey.digests false as
  | projection p => [p.digest false]
  | collection c => [c.digest false]
  | source s => [s.digest false]
  | query q => [q.digest false]

/-- Fragments in another order have the same loose digests. -/
theorem Reordered.digests_eq {p q : Fragment} (h : Reordered p q) : p.digests = q.digests := by
  induction h with
  | refl p => rfl
  | trans _ _ ih ih' => exact ih.trans ih'
  | permFields h => simp only [Fragment.digests, Field.digests_eq_map, sum_perm (h.map _)]
  | permItems h => simp only [Fragment.digests, SelectItem.digests_eq_map, sum_perm (h.map _)]
  | consScalar | consField | consItem | consSortKey =>
    simp_all only [Fragment.digests, Scalar.digests, Field.digests, SelectItem.digests, SortKey.digests,
      List.sum_cons, List.cons.injEq, and_true]
  | unary | binary | between | conditional | coalesce | among | subquery | call | index | property
  | array | object =>
    simp_all only [Fragment.digests, Scalar.digest, mixItems_eq_add_sum, List.cons.injEq, and_true]
  | selectItems | selectValue =>
    simp_all only [Fragment.digests, Projection.digest, mixItems_eq_add_sum, List.cons.injEq, and_true]
  | subqueryCollection | arrayCollection | aliased | each | join =>
    simp_all only [Fragment.digests, Collection.digest, Source.digest, List.cons.injEq, and_true]
  | top | select | fromSource | filter | groupBy | orderBy | window =>
    simp only [Fragment.digests, List.cons.injEq, and_true] at *
    apply Query.digest_congr <;> simp only [Option.map_some, Window.digest, *]

/-- Queries and scalars that differ in the order of select items and fields, at any depth, have one
loose digest. -/
theorem digest_reordered :
    (∀ q r : Query, Reordered (.query q) (.query r) → q.digest false = r.digest false) ∧
    (∀ a b : Scalar, Reordered (.scalar a) (.scalar b) → a.digest false = b.digest false) :=
  ⟨fun _ _ h => (List.cons.inj h.digests_eq).1, fun _ _ h => (List.cons.inj h.digests_eq).1⟩

/-- `SELECT items` -/
def Query.selecting (items : List SelectItem) : Query :=
  ⟨false, none, .items items, none, none, none, none, none⟩

/-- `SELECT {"a": 1, "b": (SELECT 1, 2)}, 3` -/
def oneOrder : Query :=
  .selecting [⟨.object [⟨"a", .number (.integer 1)⟩, ⟨"b", .subquery .value (.selecting
    [⟨.number (.integer 1), none⟩, ⟨.number (.integer 2), none⟩])⟩], none⟩,
    ⟨.number (.integer 3), none⟩]

/-- `SELECT 3, {"b": (SELECT 2, 1), "a": 1}` -/
def otherOrder : Query :=
  .selecting [⟨.number (.integer 3), none⟩,
    ⟨.object [⟨"b", .subquery .value (.selecting
      [⟨.number (.integer 2), none⟩, ⟨.number (.integer 1), none⟩])⟩,
      ⟨"a", .number (.integer 1)⟩], none⟩]

/-- Items, fields within an item and items within a field change places. The strict digest tells. -/
theorem digest_reordered_nested : Reordered (.query oneOrder) (.query otherOrder) ∧
    oneOrder.digest false = otherOrder.digest false ∧
    oneOrder.digest true ≠ otherOrder.digest true := by
  have hselect {as bs} (h : Reordered (.items as) (.items bs)) :
      Reordered (.query (.selecting as)) (.query (.selecting bs)) :=
    .select (q := .selecting as) h.selectItems
  have hfields {key c key' a b} (h : Reordered (.scalar a) (.scalar b)) :
      Reordered (.fields [⟨key, c⟩, ⟨key', a⟩]) (.fields [⟨key', b⟩, ⟨key, c⟩]) :=
    .trans (.consField (.refl _) (.consField h (.refl _))) (.permFields (.swap _ _ []))
  have hitems {item alias? a b} (h : Reordered (.scalar a) (.scalar b)) :
      Reordered (.items [⟨a, alias?⟩, item]) (.items [item, ⟨b, alias?⟩]) :=
    .trans (.consItem h (.refl _)) (.permItems (.swap _ _ []))
  have h : Reordered (.query oneOrder) (.query otherOrder) :=
    hselect (hitems (.object (hfields (.subquery (hselect (hitems (.refl _)))))))
  exact ⟨h, digest_reordered.1 _ _ h, by decide +kernel⟩

end DocQuery
