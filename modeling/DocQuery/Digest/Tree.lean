import DocQuery.Digest.Salt

/-!
# Digests of trees

A digest is 32 bits that depend on the shape of a tree and on what its leaves say. Each node mixes
its salt with the digests of its parts, one after the other, so order matters everywhere; a loose
digest adds those of select items and of object fields up instead, so their order does not.

Numbers enter by value: an integer and the double of its value have one digest.
-/

namespace DocQuery

namespace Digest

/-- `x` shifted right by two places, with its sign bit repeated. -/
def quarter (x : UInt32) : UInt32 := (x.toInt32 >>> (2 : Int32)).toUInt32

/-- Mixes a part into what comes before it. For each `before` this is one-to-one in `part`. -/
def mix (before part : UInt32) : UInt32 :=
  before ^^^ (part + 0x9e3779b9 + (before <<< (6 : UInt32)) + quarter before)

/-- Mixes parts in, one after the other. -/
def mixAll (before : UInt32) (parts : List UInt32) : UInt32 := parts.foldl mix before

/-- Mixes parts in whose order counts if `strict`. -/
def mixItems (strict : Bool) (before : UInt32) (parts : List UInt32) : UInt32 :=
  if strict then mixAll before parts else parts.foldl (· + ·) before

/-- The digest of a string: `33 * h + b` over the bytes of its UTF-8 form. -/
def ofString (s : String) : UInt32 :=
  s.toUTF8.data.foldl (fun h b => h * 33 + b.toUInt32) 5381

def ofIdentifier (name : String) : UInt32 := mix Salt.identifier (ofString name)

def ofParameter (name : String) : UInt32 := mix Salt.parameter (ofString ("@" ++ name))

def ofKey (key : String) : UInt32 := mix Salt.key (ofString key)

def ofNumber (n : Number) : UInt32 := mix Salt.number n.digest

def ofStringLiteral (s : String) : UInt32 := mix Salt.string (ofString s)

/-- Mixes the digest of an alias in, if there is one. -/
def mixAlias (before : UInt32) : Option String → UInt32
  | some name => mix before (ofIdentifier name)
  | none => before

/-- Mixes a flag in if it is set. -/
def mixFlag (before flag : UInt32) (isSet : Bool) : UInt32 :=
  if isSet then mix before flag else before

end Digest

open Digest

/-- The digest of a literal value. -/
def Literal.digest : Literal → UInt32
  | .null => Salt.null
  | .undefined => Salt.undefined
  | .boolean true => mix Salt.boolean Salt.true
  | .boolean false => mix Salt.boolean Salt.false
  | .number n => ofNumber n
  | .string s => ofStringLiteral s

/-- The digest of a path, given that of the path before its last step. -/
def Segment.digest (before : Option UInt32) : Segment → UInt32
  | .name identifier => mixAll Salt.nameSegment (before.toList ++ [ofIdentifier identifier])
  | .number n => mixAll Salt.numberSegment (before.toList ++ [ofNumber n])
  | .string s => mixAll Salt.stringSegment (before.toList ++ [ofStringLiteral s])

/-- The digest of a path, if it has steps. -/
def Segment.pathDigest? (segments : List Segment) : Option UInt32 :=
  segments.foldl (fun before s => some (s.digest before)) none

mutual

/-- The digest of a scalar. -/
def Scalar.digest (strict : Bool) : Scalar → UInt32
  | .literal value => mix Salt.literal value.digest
  | .unary op operand => mix (mix Salt.unary op.salt) (operand.digest strict)
  | .binary op left right =>
    mix (mix (mix Salt.binary (left.digest strict)) op.salt) (right.digest strict)
  | .between subject low high negated =>
    mix (mix (mixFlag (mix Salt.between (subject.digest strict)) Salt.notBetween negated)
      (low.digest strict)) (high.digest strict)
  | .conditional condition consequent alternative =>
    mix (mix (mix Salt.conditional (condition.digest strict)) (consequent.digest strict))
      (alternative.digest strict)
  | .coalesce left right => mix (mix Salt.coalesce (left.digest strict)) (right.digest strict)
  | .among subject items negated =>
    mixAll (mixFlag (mix Salt.among (subject.digest strict)) Salt.notAmong negated)
      (Scalar.digests strict items)
  | .subquery use query => mix use.salt (query.digest strict)
  | .call function userDefined arguments =>
    mixAll (mix (mixFlag Salt.call Salt.userDefined userDefined) (ofIdentifier function))
      (Scalar.digests strict arguments)
  | .index owner index => mix (mix Salt.index (owner.digest strict)) (index.digest strict)
  | .name identifier => mix Salt.property (ofIdentifier identifier)
  | .property owner identifier =>
    mix (mix Salt.property (ofIdentifier identifier)) (owner.digest strict)
  | .parameter name => mix Salt.parameterScalar (ofParameter name)
  | .array items => mixAll Salt.array (Scalar.digests strict items)
  | .object fields => mixItems strict Salt.object (Field.digests strict fields)

/-- The digests of scalars. -/
def Scalar.digests (strict : Bool) : List Scalar → List UInt32
  | [] => []
  | e :: rest => e.digest strict :: Scalar.digests strict rest

/-- The digests of fields. -/
def Field.digests (strict : Bool) : List Field → List UInt32
  | [] => []
  | ⟨key, value⟩ :: rest =>
    mix (mix Salt.field (ofKey key)) (value.digest strict) :: Field.digests strict rest

/-- The digests of select items. -/
def SelectItem.digests (strict : Bool) : List SelectItem → List UInt32
  | [] => []
  | ⟨e, alias?⟩ :: rest =>
    mixAlias (mix Salt.selectItem (e.digest strict)) alias? :: SelectItem.digests strict rest

/-- The digests of sort keys. -/
def SortKey.digests (strict : Bool) : List SortKey → List UInt32
  | [] => []
  | ⟨e, descending⟩ :: rest =>
    mix (mix Salt.sortKey (e.digest strict))
      (if descending then Salt.descending else Salt.ascending) :: SortKey.digests strict rest

/-- The digest of a projection. -/
def Projection.digest (strict : Bool) : Projection → UInt32
  | .all => Salt.selectAll
  | .items items => mixItems strict Salt.selectItems (SelectItem.digests strict items)
  | .value e => mix Salt.selectValue (e.digest strict)

/-- The digest of a collection. -/
def Collection.digest (strict : Bool) : Collection → UInt32
  | .path input segments =>
    mixAll (mix Salt.path (ofIdentifier input)) (Segment.pathDigest? segments).toList
  | .subquery query => mix Salt.subqueryCollection (query.digest strict)
  | .array items => mixAll Salt.arrayCollection (Scalar.digests strict items)

/-- The digest of a source. -/
def Source.digest (strict : Bool) : Source → UInt32
  | .aliased collection alias? =>
    mixAlias (mix Salt.aliased (collection.digest strict)) alias?
  | .each element collection =>
    mix (mix Salt.each (ofIdentifier element)) (collection.digest strict)
  | .join left right => mix (mix Salt.join (left.digest strict)) (right.digest strict)

/-- The digest of a query. The clauses that it has are mixed in, in their order in the text. -/
def Query.digest (strict : Bool) : Query → UInt32
  | ⟨distinct, top?, projection, source?, filter?, groupKeys?, sortKeys?, window?⟩ =>
    let top := match top? with
      | some count => [mix Salt.top (count.digest strict)]
      | none => []
    let select := mixAll (mixFlag Salt.select Salt.distinct distinct)
      (top ++ [projection.digest strict])
    let source := match source? with
      | some s => [mix Salt.source (s.digest strict)]
      | none => []
    let filter := match filter? with
      | some e => [mix Salt.filter (e.digest strict)]
      | none => []
    let groupKeys := match groupKeys? with
      | some keys => [mixAll Salt.groupKeys (Scalar.digests strict keys)]
      | none => []
    let sortKeys := match sortKeys? with
      | some keys => [mixAll Salt.sortKeys (SortKey.digests strict keys)]
      | none => []
    let window := match window? with
      | some ⟨offset, limit⟩ =>
        [mix (mix Salt.window (mix Salt.offset (offset.digest strict)))
          (mix Salt.limit (limit.digest strict))]
      | none => []
    mixAll Salt.query (select :: source ++ filter ++ groupKeys ++ sortKeys ++ window)

end

end DocQuery
