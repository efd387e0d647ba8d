import DocQuery.Proofs.Digest.Mix

/-!
# Parts that are mixed in last

* `Digested`: the parts of a tree that have digests of their own.
* `Digested.Last`: two parts are alike but for what they mix in last; or, in a loose digest, but for
  one select item or one field.
* `Digested.LastPath`: any number of such steps, one below the other.
* `digest_eq_iff_last`: the digests of whole trees are equal if and only if the digests are at the
  other end of such a path.
-/

namespace DocQuery

open Digest

/-! ## Parts -/

/-- A part of a tree with a digest of its own. -/
inductive Digested where
  | query (q : Query)
  /-- `SELECT [DISTINCT] [TOP top] projection` -/
  | select (distinct : Bool) (top? : Option Scalar) (p : Projection)
  /-- `FROM source` -/
  | sourceClause (s : Source)
  /-- `WHERE condition` -/
  | filter (condition : Scalar)
  /-- `GROUP BY keys` -/
  | groupBy (keys : List Scalar)
  /-- `ORDER BY keys` -/
  | orderBy (keys : List SortKey)
  | window (w : Window)
  /-- `LIMIT count` -/
  | limit (count : Scalar)
  | projection (p : Projection)
  | item (i : SelectItem)
  | sortKey (k : SortKey)
  | source (s : Source)
  | collection (c : Collection)
  /-- The path that ends in the step `last`. -/
  | path (before : List Segment) (last : Segment)
  | scalar (e : Scalar)
  | field (f : Field)
  | literal (value : Literal)
  | identifier (name : String)
  | parameter (name : String)

/-- The digest of a sort key. -/
def SortKey.digest (strict : Bool) (k : SortKey) : UInt32 :=
  mix (mix Salt.sortKey (k.expression.digest strict))
    (if k.descending then Salt.descending else Salt.ascending)

theorem SortKey.digests_eq_map (strict : Bool) (keys : List SortKey) :
    SortKey.digests strict keys = keys.map (SortKey.digest strict) := by
  induction keys with
  | nil => rfl
  | cons k keys ih =>
    obtain ⟨_, _⟩ := k
    rw [List.map_cons, ← ih]
    rfl

theorem Scalar.digests_eq_map (strict : Bool) (es : List Scalar) :
    Scalar.digests strict es = es.map (Scalar.digest strict) := by
  induction es with
  | nil => rfl
  | cons e es ih => rw [List.map_cons, ← ih, Scalar.digests]

theorem Segment.pathDigest?_nil : pathDigest? [] = none := rfl

theorem Segment.pathDigest?_append (before : List Segment) (last : Segment) :
    pathDigest? (before ++ [last]) = some (last.digest (pathDigest? before)) :=
  List.foldl_append

namespace Digested

/-- The digest of a part. -/
def digest (strict : Bool) : Digested → UInt32
  | query q => q.digest strict
  | select distinct top? p =>
    mixAll (mixFlag Salt.select Salt.distinct distinct)
      (((top?.map (Scalar.digest strict)).map (mix Salt.top)).toList ++ [p.digest strict])
  | sourceClause s => mix Salt.source (s.digest strict)
  | filter condition => mix Salt.filter (condition.digest strict)
  | groupBy keys => mixAll Salt.groupKeys (Scalar.digests strict keys)
  | orderBy keys => mixAll Salt.sortKeys (SortKey.digests strict keys)
  | window w => w.digest strict
  | limit count => mix Salt.limit (count.digest strict)
  | projection p => p.digest strict
  | item i => i.digest strict
  | sortKey k => k.digest strict
  | source s => s.digest strict
  | collection c => c.digest strict
  | path before last => last.digest (Segment.pathDigest? before)
  | scalar e => e.digest strict
  | field f => f.digest strict
  | literal value => value.digest
  | identifier name => ofIdentifier name
  | parameter name => ofParameter name

/-! ## What is mixed in last -/

/-- `Last strict p q a b`: `p` and `q` are alike but for a part of them that is `a` in `p` and `b` in
`q`. It is the one that their digests mix in last, with no salt behind it; where order does not
count, it may be any select item or field. Nothing leads into a sort key, which ends in the salt of
its direction. -/
inductive Last (strict : Bool) : Digested → Digested → Digested → Digested → Prop
  -- A query ends in the last of its clauses.
  | window {q : Query} {w x} :
    Last strict (query { q with window? := some w }) (query { q with window? := some x })
      (window w) (window x)
  | orderBy {q : Query} {ks ls} (hwindow : q.window? = none) :
    Last strict (query { q with sortKeys? := some ks }) (query { q with sortKeys? := some ls })
      (orderBy ks) (orderBy ls)
  | groupBy {q : Query} {es fs} (hsort : q.sortKeys? = none) (hwindow : q.window? = none) :
    Last strict (query { q with groupKeys? := some es }) (query { q with groupKeys? := some fs })
      (groupBy es) (groupBy fs)
  | filter {q : Query} {e f} (hgroup : q.groupKeys? = none) (hsort : q.sortKeys? = none)
    (hwindow : q.window? = none) :
    Last strict (query { q with filter? := some e }) (query { q with filter? := some f })
      (filter e) (filter f)
  | sourceClause {q : Query} {s t} (hfilter : q.filter? = none) (hgroup : q.groupKeys? = none)
    (hsort : q.sortKeys? = none) (hwindow : q.window? = none) :
    Last strict (query { q with source? := some s }) (query { q with source? := some t })
      (sourceClause s) (sourceClause t)
  | select {distinct distinct' top? top?' p r} :
    Last strict (query ⟨distinct, top?, p, none, none, none, none, none⟩)
      (query ⟨distinct', top?', r, none, none, none, none, none⟩)
      (select distinct top? p) (select distinct' top?' r)
  -- So do clauses.
  | projection {distinct top? p r} :
    Last strict (select distinct top? p) (select distinct top? r) (projection p) (projection r)
  | fromSource {s t} : Last strict (sourceClause s) (sourceClause t) (source s) (source t)
  | condition {e f} : Last strict (filter e) (filter f) (scalar e) (scalar f)
  | groupKey {es e f} :
    Last strict (groupBy (es ++ [e])) (groupBy (es ++ [f])) (scalar e) (scalar f)
  | sortKey {ks k l} :
    Last strict (orderBy (ks ++ [k])) (orderBy (ks ++ [l])) (sortKey k) (sortKey l)
  | limit {offset e f} :
    Last strict (window ⟨offset, e⟩) (window ⟨offset, f⟩) (limit e) (limit f)
  | limitCount {e f} : Last strict (limit e) (limit f) (scalar e) (scalar f)
  -- What a query selects, and from where.
  | selectItem {is js i j} (h : strict = true → js = []) :
    Last strict (projection (.items (is ++ i :: js))) (projection (.items (is ++ j :: js)))
      (item i) (item j)
  | selectValue {e f} :
    Last strict (projection (.value e)) (projection (.value f)) (scalar e) (scalar f)
  | itemAlias {e name name'} :
    Last strict (item ⟨e, some name⟩) (item ⟨e, some name'⟩) (identifier name) (identifier name')
  | itemExpression {e f} : Last strict (item ⟨e, none⟩) (item ⟨f, none⟩) (scalar e) (scalar f)
  | sourceAlias {c name name'} :
    Last strict (source (.aliased c (some name))) (source (.aliased c (some name')))
      (identifier name) (identifier name')
  | aliased {c d} :
    Last strict (source (.aliased c none)) (source (.aliased d none)) (collection c) (collection d)
  | each {element c d} :
    Last strict (source (.each element c)) (source (.each element d)) (collection c) (collection d)
  | join {s t u} :
    Last strict (source (.join s t)) (source (.join s u)) (source t) (source u)
  | input {name name'} :
    Last strict (collection (.path name [])) (collection (.path name' []))
      (identifier name) (identifier name')
  | inputPath {name ss s ts t} :
    Last strict (collection (.path name (ss ++ [s]))) (collection (.path name (ts ++ [t])))
      (path ss s) (path ts t)
  | nameStep {ss name name'} :
    Last strict (path ss (.name name)) (path ss (.name name')) (identifier name) (identifier name')
  | numberStep {ss m n} :
    Last strict (path ss (.number m)) (path ss (.number n))
      (literal (.number m)) (literal (.number n))
  | stringStep {ss s t} :
    Last strict (path ss (.string s)) (path ss (.string t))
      (literal (.string s)) (literal (.string t))
  | subqueryCollection {q r} :
    Last strict (collection (.subquery q)) (collection (.subquery r)) (query q) (query r)
  | arrayCollection {es e f} :
    Last strict (collection (.array (es ++ [e]))) (collection (.array (es ++ [f])))
      (scalar e) (scalar f)
  -- Scalars.
  | literal {v w} :
    Last strict (scalar (.literal v)) (scalar (.literal w)) (literal v) (literal w)
  | operand {op e f} :
    Last strict (scalar (.unary op e)) (scalar (.unary op f)) (scalar e) (scalar f)
  | right {op d e f} :
    Last strict (scalar (.binary op d e)) (scalar (.binary op d f)) (scalar e) (scalar f)
  | high {subject low e f negated} :
    Last strict (scalar (.between subject low e negated)) (scalar (.between subject low f negated))
      (scalar e) (scalar f)
  | alternative {c d e f} :
    Last strict (scalar (.conditional c d e)) (scalar (.conditional c d f)) (scalar e) (scalar f)
  | coalesceRight {d e f} :
    Last strict (scalar (.coalesce d e)) (scalar (.coalesce d f)) (scalar e) (scalar f)
  | amongItem {subject es e f negated} :
    Last strict (scalar (.among subject (es ++ [e]) negated))
      (scalar (.among subject (es ++ [f]) negated)) (scalar e) (scalar f)
  | amongSubject {e f} :
    Last strict (scalar (.among e [] false)) (scalar (.among f [] false)) (scalar e) (scalar f)
  | subquery {use q r} :
    Last strict (scalar (.subquery use q)) (scalar (.subquery use r)) (query q) (query r)
  | argument {function userDefined es e f} :
    Last strict (scalar (.call function userDefined (es ++ [e])))
      (scalar (.call function userDefined (es ++ [f]))) (scalar e) (scalar f)
  | function {name name' userDefined} :
    Last strict (scalar (.call name userDefined [])) (scalar (.call name' userDefined []))
      (identifier name) (identifier name')
  | index {owner e f} :
    Last strict (scalar (.index owner e)) (scalar (.index owner f)) (scalar e) (scalar f)
  | name {name name'} :
    Last strict (scalar (.name name)) (scalar (.name name')) (identifier name) (identifier name')
  | owner {e f name} :
    Last strict (scalar (.property e name)) (scalar (.property f name)) (scalar e) (scalar f)
  | parameter {name name'} :
    Last strict (scalar (.parameter name)) (scalar (.parameter name'))
      (parameter name) (parameter name')
  | arrayItem {es e f} :
    Last strict (scalar (.array (es ++ [e]))) (scalar (.array (es ++ [f]))) (scalar e) (scalar f)
  | objectField {fs gs f g} (h : strict = true → gs = []) :
    Last strict (scalar (.object (fs ++ f :: gs))) (scalar (.object (fs ++ g :: gs)))
      (field f) (field g)
  | fieldValue {key e f} : Last strict (field ⟨key, e⟩) (field ⟨key, f⟩) (scalar e) (scalar f)

/-- `LastPath strict p q a b`: steps lead down from `p` and `q` to `a` and `b`, and all that `p` and
`q` are but for these is the same. -/
inductive LastPath (strict : Bool) : Digested → Digested → Digested → Digested → Prop
  | here {p q} : LastPath strict p q p q
  | step {p q a b c d} (h : Last strict p q a b) (hs : LastPath strict a b c d) :
    LastPath strict p q c d

/-! ## Their digests -/

variable {strict : Bool} {p q a b : Digested}

/-- One step keeps a difference, and makes none. -/
theorem Last.digest_eq_iff (h : Last strict p q a b) :
    p.digest strict = q.digest strict ↔ a.digest strict = b.digest strict := by
  cases h with
  | window | orderBy | groupBy | filter | sourceClause | select =>
    simp only [digest, Query.digest_eq, Option.map_some, Option.map_none, Option.toList_some,
      Option.toList_none, List.append_nil, mixAll_append, mixAll_cons, mixAll_nil, mix_inj, *]
  | projection | fromSource | condition | groupKey | sortKey | limit | limitCount =>
    simp only [digest, Window.digest, Scalar.digests_eq_map, SortKey.digests_eq_map, List.map_append,
      List.map_cons, List.map_nil, mixAll_append, mixAll_cons, mixAll_nil, mix_inj]
  | selectItem hjs =>
    simp only [digest, Projection.digest, SelectItem.digests_eq_map, List.map_append, List.map_cons]
    apply mixItems_inj
    intro hstrict
    rw [hjs hstrict, List.map_nil]
  | objectField hgs =>
    simp only [digest, Scalar.digest, Field.digests_eq_map, List.map_append, List.map_cons]
    apply mixItems_inj
    intro hstrict
    rw [hgs hstrict, List.map_nil]
  | selectValue | itemAlias | itemExpression | sourceAlias | aliased | each | join =>
    simp only [digest, Projection.digest, SelectItem.digest, Source.digest, mixAlias, mix_inj]
  | input | inputPath | subqueryCollection | arrayCollection =>
    simp only [digest, Collection.digest, Segment.pathDigest?_nil, Segment.pathDigest?_append,
      Scalar.digests_eq_map, List.map_append, List.map_cons, List.map_nil, Option.toList_none,
      Option.toList_some, mixAll_append, mixAll_cons, mixAll_nil, mix_inj]
  | nameStep | numberStep | stringStep =>
    simp only [digest, Segment.digest, Literal.digest, mixAll_append, mixAll_cons, mixAll_nil, mix_inj]
  | fieldValue => simp only [digest, Field.digest, mix_inj]
  | _ =>
    simp only [digest, Scalar.digest, Scalar.digests_eq_map, List.map_append, List.map_cons,
      List.map_nil, mixFlag, Bool.false_eq_true, if_false, mixAll_append, mixAll_cons, mixAll_nil,
      mix_inj]

/-- So do any number of steps. -/
theorem LastPath.digest_eq_iff (h : LastPath strict p q a b) :
    p.digest strict = q.digest strict ↔ a.digest strict = b.digest strict := by
  induction h with
  | here => rfl
  | step hlast _ ih => exact hlast.digest_eq_iff.trans ih

end Digested

open Digested

/-- Whatever stands before it, a part is mixed in one to one. So queries and scalars that are alike
but for what lies at the end of a path of parts mixed in last, or in a loose digest of any select
items and fields, have one digest if and only if what lies there has. -/
theorem digest_eq_iff_last (strict : Bool) :
    (∀ before, Function.Bijective (mix before)) ∧
    (∀ (q r : Query) (a b : Digested), LastPath strict (.query q) (.query r) a b →
      (q.digest strict = r.digest strict ↔ a.digest strict = b.digest strict)) ∧
    (∀ (e f : Scalar) (a b : Digested), LastPath strict (.scalar e) (.scalar f) a b →
      (e.digest strict = f.digest strict ↔ a.digest strict = b.digest strict)) :=
  ⟨mix_bijective, fun _ _ _ _ h => h.digest_eq_iff, fun _ _ _ _ h => h.digest_eq_iff⟩

/-- `SELECT * FROM c WHERE a AND b NOT IN (1, n)` -/
def Query.excluding (n : Number) : Query :=
  ⟨false, none, .all, some (.aliased (.path "c" []) none),
    some (.binary .and (.name "a") (.among (.name "b") [.number (.integer 1), .number n] true)),
    none, none, none⟩

/-- `{"a": ARRAY(SELECT VALUE n), "b": 1}` -/
def Scalar.listing (n : Number) : Scalar :=
  .object [⟨"a", .subquery .array ⟨false, none, .value (.number n), none, none, none, none, none⟩⟩,
    ⟨"b", .number (.integer 1)⟩]

/-- Another number in the last item of the last operand makes another digest. So does one in the
first field, where order does not count. -/
theorem digest_eq_iff_last_numbers :
    LastPath true (.query (.excluding (.integer 2))) (.query (.excluding (.integer 3)))
      (.literal (.number (.integer 2))) (.literal (.number (.integer 3))) ∧
    (Query.excluding (.integer 2)).digest true ≠ (Query.excluding (.integer 3)).digest true ∧
    LastPath false (.scalar (.listing (.integer 2))) (.scalar (.listing (.integer 3)))
      (.literal (.number (.integer 2))) (.literal (.number (.integer 3))) ∧
    (Scalar.listing (.integer 2)).digest false ≠ (Scalar.listing (.integer 3)).digest false := by
  have hitem : LastPath true (.query (.excluding (.integer 2))) (.query (.excluding (.integer 3)))
      (.literal (.number (.integer 2))) (.literal (.number (.integer 3))) :=
    .step (.filter (q := .excluding (.integer 2)) rfl rfl rfl) (.step .condition (.step .right
      (.step (@Last.amongItem _ _ [.number (.integer 1)] _ _ _) (.step .literal .here))))
  have hfield : LastPath false (.scalar (.listing (.integer 2))) (.scalar (.listing (.integer 3)))
      (.literal (.number (.integer 2))) (.literal (.number (.integer 3))) :=
    .step (@Last.objectField _ [] [⟨"b", .number (.integer 1)⟩] _ _ nofun) (.step .fieldValue
      (.step .subquery (.step .select (.step .projection (.step .selectValue
        (.step .literal .here))))))
  have hnumber : ∀ strict, (Digested.literal (.number (.integer 2))).digest strict ≠
      (Digested.literal (.number (.integer 3))).digest strict := by decide +kernel
  refine ⟨hitem, ?_, hfield, ?_⟩
  · intro h
    exact hnumber true (((digest_eq_iff_last true).2.1 _ _ _ _ hitem).mp h)
  · intro h
    exact hnumber false (((digest_eq_iff_last false).2.2 _ _ _ _ hfield).mp h)

end DocQuery
