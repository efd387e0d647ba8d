import DocQuery.Proofs.Obfuscation.Leaves

/-!
# Shape and leaves settle a tree

* `Query.eq_of_shape`, `Scalar.eq_of_shape`: trees of one shape with the same leaves are equal.

Shapes tell how many leaves there are, so leaves of trees of one shape are told apart also with more
leaves behind them. That is how the parts of a tree share its leaves.
-/

namespace DocQuery

theorem Literal.eq_of_shape {v w : Literal} (h : v.relabel .blank = w.relabel .blank)
    {as bs : List Leaf} (hleaves : v.leaves ++ as = w.leaves ++ bs) : v = w ∧ as = bs := by
  cases v <;> cases w <;> simp_all [relabel, leaves]

theorem Segment.eq_of_shape {s t : Segment} (h : s.relabel .blank = t.relabel .blank)
    (hleaf : s.leaf = t.leaf) : s = t := by
  cases s <;> cases t <;> simp_all [relabel, leaf]

theorem Segment.list_eq_of_shape {ss ts : List Segment}
    (h : ss.map (Segment.relabel .blank) = ts.map (Segment.relabel .blank)) {as bs : List Leaf}
    (hleaves : ss.map Segment.leaf ++ as = ts.map Segment.leaf ++ bs) : ss = ts ∧ as = bs := by
  induction ss generalizing ts with
  | nil =>
    obtain rfl : ts = [] := List.map_eq_nil_iff.mp h.symm
    exact ⟨rfl, hleaves⟩
  | cons s ss ih =>
    cases ts with
    | nil => cases h
    | cons t ts =>
      obtain ⟨hs, hss⟩ := List.cons.inj h
      obtain ⟨hleaf, hleaves⟩ := List.cons.inj hleaves
      obtain ⟨rfl, hrest⟩ := ih hss hleaves
      exact ⟨by rw [Segment.eq_of_shape hs hleaf], hrest⟩

theorem alias_eq_of_shape {x? y? : Option String}
    (h : x?.map (Relabeling.blank.word .identifier) = y?.map (Relabeling.blank.word .identifier))
    {as bs : List Leaf} (hleaves : aliasLeaves x? ++ as = aliasLeaves y? ++ bs) :
    x? = y? ∧ as = bs := by
  cases x? <;> cases y? <;> simp_all [aliasLeaves]

theorem Window.eq_of_leaves {w w' : Window} {as bs : List Leaf}
    (hleaves : w.leaves ++ as = w'.leaves ++ bs) : w = w' ∧ as = bs := by
  obtain ⟨offset, limit⟩ := w
  obtain ⟨offset', limit'⟩ := w'
  simpa [leaves, and_assoc] using hleaves

/-- Clauses of one shape with the same leaves are equal, if what stands in them is. -/
theorem clause_eq_of_shape {α : Type} {leaves : α → List Leaf} {shape : α → α} {a? b? : Option α}
    (h : a?.map shape = b?.map shape)
    (heq : ∀ a ∈ a?, ∀ b, shape a = shape b → ∀ as bs, leaves a ++ as = leaves b ++ bs →
      a = b ∧ as = bs) {as bs : List Leaf}
    (hleaves : clauseLeaves leaves a? ++ as = clauseLeaves leaves b? ++ bs) :
    a? = b? ∧ as = bs := by
  cases a? with
  | none =>
    cases b? with
    | none => exact ⟨rfl, hleaves⟩
    | some b => cases h
  | some a =>
    cases b? with
    | none => cases h
    | some b =>
      obtain ⟨rfl, hrest⟩ := heq a rfl b (Option.some.inj h) as bs hleaves
      exact ⟨rfl, hrest⟩

mutual

theorem Scalar.eq_of_relabel : (a b : Scalar) → a.relabel .blank = b.relabel .blank →
    ∀ as bs, a.leaves ++ as = b.leaves ++ bs → a = b ∧ as = bs
  | .literal v, b, h, as, bs, hleaves => by
    cases b with
    | literal w =>
      obtain ⟨rfl, hrest⟩ := Literal.eq_of_shape (Scalar.literal.inj h) hleaves
      exact ⟨rfl, hrest⟩
    | _ => nomatch h
  | .unary op operand, b, h, as, bs, hleaves => by
    cases b with
    | unary op' operand' =>
      obtain ⟨rfl, hoperand⟩ := Scalar.unary.inj h
      obtain ⟨rfl, hrest⟩ := Scalar.eq_of_relabel operand operand' hoperand as bs hleaves
      exact ⟨rfl, hrest⟩
    | _ => nomatch h
  | .binary op left right, b, h, as, bs, hleaves => by
    cases b with
    | binary op' left' right' =>
      obtain ⟨rfl, hleft, hright⟩ := Scalar.binary.inj h
      simp only [Scalar.leaves, List.append_assoc] at hleaves
      obtain ⟨hleft, hleaves⟩ := Scalar.eq_of_relabel left left' hleft _ _ hleaves
      obtain ⟨hright, hrest⟩ := Scalar.eq_of_relabel right right' hright _ _ hleaves
      exact ⟨by rw [hleft, hright], hrest⟩
    | _ => nomatch h
  | .between subject low high negated, b, h, as, bs, hleaves => by
    cases b with
    | between subject' low' high' negated' =>
      obtain ⟨hsubject, hlow, hhigh, rfl⟩ := Scalar.between.inj h
      simp only [Scalar.leaves, List.append_assoc] at hleaves
      obtain ⟨hsubject, hleaves⟩ := Scalar.eq_of_relabel subject subject' hsubject _ _ hleaves
      obtain ⟨hlow, hleaves⟩ := Scalar.eq_of_relabel low low' hlow _ _ hleaves
      obtain ⟨hhigh, hrest⟩ := Scalar.eq_of_relabel high high' hhigh _ _ hleaves
      exact ⟨by rw [hsubject, hlow, hhigh], hrest⟩
    | _ => nomatch h
  | .conditional condition consequent alternative, b, h, as, bs, hleaves => by
    cases b with
    | conditional condition' consequent' alternative' =>
      obtain ⟨hcondition, hconsequent, halternative⟩ := Scalar.conditional.inj h
      simp only [Scalar.leaves, List.append_assoc] at hleaves
      obtain ⟨hcondition, hleaves⟩ := Scalar.eq_of_relabel condition condition' hcondition _ _ hleaves
      obtain ⟨hconsequent, hleaves⟩ :=
        Scalar.eq_of_relabel consequent consequent' hconsequent _ _ hleaves
      obtain ⟨halternative, hrest⟩ :=
        Scalar.eq_of_relabel alternative alternative' halternative _ _ hleaves
      exact ⟨by rw [hcondition, hconsequent, halternative], hrest⟩
    | _ => nomatch h
  | .coalesce left right, b, h, as, bs, hleaves => by
    cases b with
    | coalesce left' right' =>
      obtain ⟨hleft, hright⟩ := Scalar.coalesce.inj h
      simp only [Scalar.leaves, List.append_assoc] at hleaves
      obtain ⟨hleft, hleaves⟩ := Scalar.eq_of_relabel left left' hleft _ _ hleaves
      obtain ⟨hright, hrest⟩ := Scalar.eq_of_relabel right right' hright _ _ hleaves
      exact ⟨by rw [hleft, hright], hrest⟩
    | _ => nomatch h
  | .among subject items negated, b, h, as, bs, hleaves => by
    cases b with
    | among subject' items' negated' =>
      obtain ⟨hsubject, hitems, rfl⟩ := Scalar.among.inj h
      simp only [Scalar.leaves, List.append_assoc] at hleaves
      obtain ⟨hsubject, hleaves⟩ := Scalar.eq_of_relabel subject subject' hsubject _ _ hleaves
      obtain ⟨hitems, hrest⟩ := Scalar.list_eq_of_relabel items items' hitems _ _ hleaves
      exact ⟨by rw [hsubject, hitems], hrest⟩
    | _ => nomatch h
  | .subquery use query, b, h, as, bs, hleaves => by
    cases b with
    | subquery use' query' =>
      obtain ⟨rfl, hquery⟩ := Scalar.subquery.inj h
      obtain ⟨rfl, hrest⟩ := Query.eq_of_relabel query query' hquery as bs hleaves
      exact ⟨rfl, hrest⟩
    | _ => nomatch h
  | .call function userDefined arguments, b, h, as, bs, hleaves => by
    cases b with
    | call function' userDefined' arguments' =>
      obtain ⟨rfl, rfl, harguments⟩ := Scalar.call.inj h
      obtain ⟨rfl, hrest⟩ :=
        Scalar.list_eq_of_relabel arguments arguments' harguments as bs (List.cons.inj hleaves).2
      exact ⟨rfl, hrest⟩
    | _ => nomatch h
  | .index owner index, b, h, as, bs, hleaves => by
    cases b with
    | index owner' index' =>
      obtain ⟨howner, hindex⟩ := Scalar.index.inj h
      simp only [Scalar.leaves, List.append_assoc] at hleaves
      obtain ⟨howner, hleaves⟩ := Scalar.eq_of_relabel owner owner' howner _ _ hleaves
      obtain ⟨hindex, hrest⟩ := Scalar.eq_of_relabel index index' hindex _ _ hleaves
      exact ⟨by rw [howner, hindex], hrest⟩
    | _ => nomatch h
  | .name identifier, b, h, as, bs, hleaves => by
    cases b with
    | name identifier' =>
      obtain ⟨hword, hrest⟩ := List.cons.inj hleaves
      exact ⟨congrArg Scalar.name (Leaf.word.inj hword).2, hrest⟩
    | _ => nomatch h
  | .property owner identifier, b, h, as, bs, hleaves => by
    cases b with
    | property owner' identifier' =>
      simp only [Scalar.leaves, List.append_assoc] at hleaves
      obtain ⟨howner, hleaves⟩ :=
        Scalar.eq_of_relabel owner owner' (Scalar.property.inj h).1 _ _ hleaves
      obtain ⟨hword, hrest⟩ := List.cons.inj hleaves
      exact ⟨congrArg₂ Scalar.property howner (Leaf.word.inj hword).2, hrest⟩
    | _ => nomatch h
  | .parameter name, b, h, as, bs, hleaves => by
    cases b with
    | parameter name' =>
      obtain ⟨hword, hrest⟩ := List.cons.inj hleaves
      exact ⟨congrArg Scalar.parameter (Leaf.word.inj hword).2, hrest⟩
    | _ => nomatch h
  | .array items, b, h, as, bs, hleaves => by
    cases b with
    | array items' =>
      obtain ⟨rfl, hrest⟩ := Scalar.list_eq_of_relabel items items' (Scalar.array.inj h) as bs hleaves
      exact ⟨rfl, hrest⟩
    | _ => nomatch h
  | .object fields, b, h, as, bs, hleaves => by
    cases b with
    | object fields' =>
      obtain ⟨rfl, hrest⟩ :=
        Field.list_eq_of_relabel fields fields' (Scalar.object.inj h) as bs hleaves
      exact ⟨rfl, hrest⟩
    | _ => nomatch h
termination_by structural a => a

theorem Scalar.list_eq_of_relabel : (es fs : List Scalar) →
    Scalar.relabelList .blank es = Scalar.relabelList .blank fs →
    ∀ as bs, Scalar.listLeaves es ++ as = Scalar.listLeaves fs ++ bs → es = fs ∧ as = bs
  | [], [], _, _, _, hleaves => ⟨rfl, hleaves⟩
  | [], _ :: _, h, _, _, _ => nomatch h
  | _ :: _, [], h, _, _, _ => nomatch h
  | e :: es, f :: fs, h, as, bs, hleaves => by
    obtain ⟨he, hes⟩ := List.cons.inj h
    simp only [Scalar.listLeaves, List.append_assoc] at hleaves
    obtain ⟨he, hleaves⟩ := Scalar.eq_of_relabel e f he _ _ hleaves
    obtain ⟨hes, hrest⟩ := Scalar.list_eq_of_relabel es fs hes _ _ hleaves
    exact ⟨by rw [he, hes], hrest⟩
termination_by structural a => a

theorem Field.list_eq_of_relabel : (es fs : List Field) →
    Field.relabelList .blank es = Field.relabelList .blank fs →
    ∀ as bs, Field.listLeaves es ++ as = Field.listLeaves fs ++ bs → es = fs ∧ as = bs
  | [], [], _, _, _, hleaves => ⟨rfl, hleaves⟩
  | [], ⟨_, _⟩ :: _, h, _, _, _ => nomatch h
  | ⟨_, _⟩ :: _, [], h, _, _, _ => nomatch h
  | ⟨_, value⟩ :: es, ⟨_, value'⟩ :: fs, h, as, bs, hleaves => by
    obtain ⟨hfield, hes⟩ := List.cons.inj h
    simp only [Field.listLeaves, List.cons_append, List.append_assoc] at hleaves
    obtain ⟨hkey, hleaves⟩ := List.cons.inj hleaves
    obtain ⟨-, hkey⟩ := Leaf.word.inj hkey
    obtain ⟨hvalue, hleaves⟩ := Scalar.eq_of_relabel value value' (Field.mk.inj hfield).2 _ _ hleaves
    obtain ⟨hes, hrest⟩ := Field.list_eq_of_relabel es fs hes _ _ hleaves
    exact ⟨by rw [hkey, hvalue, hes], hrest⟩
termination_by structural a => a

theorem SelectItem.list_eq_of_relabel : (es fs : List SelectItem) →
    SelectItem.relabelList .blank es = SelectItem.relabelList .blank fs →
    ∀ as bs, SelectItem.listLeaves es ++ as = SelectItem.listLeaves fs ++ bs → es = fs ∧ as = bs
  | [], [], _, _, _, hleaves => ⟨rfl, hleaves⟩
  | [], ⟨_, _⟩ :: _, h, _, _, _ => nomatch h
  | ⟨_, _⟩ :: _, [], h, _, _, _ => nomatch h
  | ⟨e, x?⟩ :: es, ⟨f, y?⟩ :: fs, h, as, bs, hleaves => by
    obtain ⟨hitem, hes⟩ := List.cons.inj h
    obtain ⟨he, halias⟩ := SelectItem.mk.inj hitem
    simp only [SelectItem.listLeaves, List.append_assoc] at hleaves
    obtain ⟨he, hleaves⟩ := Scalar.eq_of_relabel e f he _ _ hleaves
    obtain ⟨halias, hleaves⟩ := alias_eq_of_shape halias hleaves
    obtain ⟨hes, hrest⟩ := SelectItem.list_eq_of_relabel es fs hes _ _ hleaves
    exact ⟨by rw [he, halias, hes], hrest⟩
termination_by structural a => a

theorem SortKey.list_eq_of_relabel : (es fs : List SortKey) →
    SortKey.relabelList .blank es = SortKey.relabelList .blank fs →
    ∀ as bs, SortKey.listLeaves es ++ as = SortKey.listLeaves fs ++ bs → es = fs ∧ as = bs
  | [], [], _, _, _, hleaves => ⟨rfl, hleaves⟩
  | [], ⟨_, _⟩ :: _, h, _, _, _ => nomatch h
  | ⟨_, _⟩ :: _, [], h, _, _, _ => nomatch h
  | ⟨e, _⟩ :: es, ⟨f, _⟩ :: fs, h, as, bs, hleaves => by
    obtain ⟨hkey, hes⟩ := List.cons.inj h
    obtain ⟨he, rfl⟩ := SortKey.mk.inj hkey
    simp only [SortKey.listLeaves, List.append_assoc] at hleaves
    obtain ⟨he, hleaves⟩ := Scalar.eq_of_relabel e f he _ _ hleaves
    obtain ⟨hes, hrest⟩ := SortKey.list_eq_of_relabel es fs hes _ _ hleaves
    exact ⟨by rw [he, hes], hrest⟩
termination_by structural a => a

theorem Projection.eq_of_relabel : (p r : Projection) → p.relabel .blank = r.relabel .blank →
    ∀ as bs, p.leaves ++ as = r.leaves ++ bs → p = r ∧ as = bs
  | .all, r, h, as, bs, hleaves => by
    cases r with
    | all => exact ⟨rfl, hleaves⟩
    | _ => nomatch h
  | .items items, r, h, as, bs, hleaves => by
    cases r with
    | items items' =>
      obtain ⟨rfl, hrest⟩ :=
        SelectItem.list_eq_of_relabel items items' (Projection.items.inj h) as bs hleaves
      exact ⟨rfl, hrest⟩
    | _ => nomatch h
  | .value e, r, h, as, bs, hleaves => by
    cases r with
    | value f =>
      obtain ⟨rfl, hrest⟩ := Scalar.eq_of_relabel e f (Projection.value.inj h) as bs hleaves
      exact ⟨rfl, hrest⟩
    | _ => nomatch h
termination_by structural a => a

theorem Collection.eq_of_relabel : (c d : Collection) → c.relabel .blank = d.relabel .blank →
    ∀ as bs, c.leaves ++ as = d.leaves ++ bs → c = d ∧ as = bs
  | .path input segments, d, h, as, bs, hleaves => by
    cases d with
    | path input' segments' =>
      obtain ⟨hword, hleaves⟩ := List.cons.inj hleaves
      obtain ⟨hsegments, hrest⟩ := Segment.list_eq_of_shape (Collection.path.inj h).2 hleaves
      exact ⟨congrArg₂ Collection.path (Leaf.word.inj hword).2 hsegments, hrest⟩
    | _ => nomatch h
  | .subquery query, d, h, as, bs, hleaves => by
    cases d with
    | subquery query' =>
      obtain ⟨rfl, hrest⟩ := Query.eq_of_relabel query query' (Collection.subquery.inj h) as bs hleaves
      exact ⟨rfl, hrest⟩
    | _ => nomatch h
  | .array items, d, h, as, bs, hleaves => by
    cases d with
    | array items' =>
      obtain ⟨rfl, hrest⟩ :=
        Scalar.list_eq_of_relabel items items' (Collection.array.inj h) as bs hleaves
      exact ⟨rfl, hrest⟩
    | _ => nomatch h
termination_by structural a => a

theorem Source.eq_of_relabel : (s t : Source) → s.relabel .blank = t.relabel .blank →
    ∀ as bs, s.leaves ++ as = t.leaves ++ bs → s = t ∧ as = bs
  | .aliased collection x?, t, h, as, bs, hleaves => by
    cases t with
    | aliased collection' y? =>
      obtain ⟨hcollection, halias⟩ := Source.aliased.inj h
      simp only [Source.leaves, List.append_assoc] at hleaves
      obtain ⟨hcollection, hleaves⟩ :=
        Collection.eq_of_relabel collection collection' hcollection _ _ hleaves
      obtain ⟨halias, hrest⟩ := alias_eq_of_shape halias hleaves
      exact ⟨by rw [hcollection, halias], hrest⟩
    | _ => nomatch h
  | .each element collection, t, h, as, bs, hleaves => by
    cases t with
    | each element' collection' =>
      obtain ⟨hword, hleaves⟩ := List.cons.inj hleaves
      obtain ⟨hcollection, hrest⟩ :=
        Collection.eq_of_relabel collection collection' (Source.each.inj h).2 _ _ hleaves
      exact ⟨congrArg₂ Source.each (Leaf.word.inj hword).2 hcollection, hrest⟩
    | _ => nomatch h
  | .join left right, t, h, as, bs, hleaves => by
    cases t with
    | join left' right' =>
      obtain ⟨hleft, hright⟩ := Source.join.inj h
      simp only [Source.leaves, List.append_assoc] at hleaves
      obtain ⟨hleft, hleaves⟩ := Source.eq_of_relabel left left' hleft _ _ hleaves
      obtain ⟨hright, hrest⟩ := Source.eq_of_relabel right right' hright _ _ hleaves
      exact ⟨by rw [hleft, hright], hrest⟩
    | _ => nomatch h
termination_by structural a => a

theorem Query.eq_of_relabel : (q r : Query) → q.relabel .blank = r.relabel .blank →
    ∀ as bs, q.leaves ++ as = r.leaves ++ bs → q = r ∧ as = bs
  | ⟨_, top?, projection, source?, filter?, groupKeys?, sortKeys?, window?⟩, r, h, as, bs, hleaves => by
    obtain ⟨_, top'?, projection', source'?, filter'?, groupKeys'?, sortKeys'?, window'?⟩ := r
    rw [Query.relabel_eq, Query.relabel_eq] at h
    simp only [Query.mk.injEq] at h
    obtain ⟨hdistinct, htop, hprojection, hsource, hfilter, hgroup, hsort, hwindow⟩ := h
    simp only [Query.leaves_eq, List.append_assoc] at hleaves
    obtain ⟨htop, hleaves⟩ := clause_eq_of_shape htop (fun count _ count' _ as bs h => by
      obtain ⟨hcount, h⟩ := List.cons.inj h
      exact ⟨Leaf.count.inj hcount, h⟩) hleaves
    obtain ⟨hprojection, hleaves⟩ :=
      Projection.eq_of_relabel projection projection' hprojection _ _ hleaves
    obtain ⟨hsource, hleaves⟩ := clause_eq_of_shape hsource (by
      cases source? with
      | none => nofun
      | some s =>
        rintro _ ⟨⟩
        exact Source.eq_of_relabel s) hleaves
    obtain ⟨hfilter, hleaves⟩ := clause_eq_of_shape hfilter (by
      cases filter? with
      | none => nofun
      | some e =>
        rintro _ ⟨⟩
        exact Scalar.eq_of_relabel e) hleaves
    obtain ⟨hgroup, hleaves⟩ := clause_eq_of_shape hgroup (by
      cases groupKeys? with
      | none => nofun
      | some keys =>
        rintro _ ⟨⟩
        exact Scalar.list_eq_of_relabel keys) hleaves
    obtain ⟨hsort, hleaves⟩ := clause_eq_of_shape hsort (by
      cases sortKeys? with
      | none => nofun
      | some keys =>
        rintro _ ⟨⟩
        exact SortKey.list_eq_of_relabel keys) hleaves
    obtain ⟨hwindow, hrest⟩ :=
      clause_eq_of_shape hwindow (fun w _ w' _ as bs => Window.eq_of_leaves) hleaves
    exact ⟨by rw [hdistinct, htop, hprojection, hsource, hfilter, hgroup, hsort, hwindow], hrest⟩
termination_by structural a => a

end

/-- Scalars of one shape with the same leaves are equal. -/
theorem Scalar.eq_of_shape {a b : Scalar} (h : a.shape = b.shape) (hleaves : a.leaves = b.leaves) :
    a = b :=
  (Scalar.eq_of_relabel a b h [] [] (congrArg (· ++ []) hleaves)).1

/-- Queries of one shape with the same leaves are equal. -/
theorem Query.eq_of_shape {q r : Query} (h : q.shape = r.shape) (hleaves : q.leaves = r.leaves) :
    q = r :=
  (Query.eq_of_relabel q r h [] [] (congrArg (· ++ []) hleaves)).1

end DocQuery
