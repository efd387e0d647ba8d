import DocQuery.Obfuscation.Ledger
import DocQuery.Tree.Basic

/-!
# Trees with stand-ins

`Query.hide` and `Scalar.hide` put stand-ins for the names, strings and numbers of a tree and keep
its shape. They go through the tree in the order of its text, so stand-ins are numbered by first
occurrence there. Function names and constants are kept, and counts become 0 without a place in the
ledger.
-/

namespace DocQuery

/-- A step that looks stand-ins up in a ledger and adds to it. -/
abbrev Hiding (α : Type) : Type := StateM Ledger α

/-- The stand-in of a string. -/
def hideString (category : Category) (s : String) : Hiding String :=
  modifyGet (Ledger.hideString category s)

/-- The stand-in of a number. -/
def hideNumber (n : Number) : Hiding Number := modifyGet (Ledger.hideNumber n)

/-- The stand-in of an identifier. -/
def hideName (name : String) : Hiding String := hideString .identifier name

/-- The stand-in of an alias, if there is one. -/
def hideAlias : Option String → Hiding (Option String)
  | some name => some <$> hideName name
  | none => pure none

/-- The count that stands for every count. -/
def hiddenCount : Scalar := .number (.integer 0)

/-- A literal with its stand-in. -/
def Literal.hide : Literal → Hiding Literal
  | .number n => .number <$> hideNumber n
  | .string s => .string <$> hideString .string s
  | l => pure l

/-- A step of a path with its stand-in. -/
def Segment.hide : Segment → Hiding Segment
  | .name identifier => .name <$> hideName identifier
  | .number n => .number <$> hideNumber n
  | .string s => .string <$> hideString .string s

mutual

/-- A scalar with stand-ins. -/
def Scalar.hide : Scalar → Hiding Scalar
  | .literal value => .literal <$> value.hide
  | .unary op operand => .unary op <$> operand.hide
  | .binary op left right => return .binary op (← left.hide) (← right.hide)
  | .between subject low high negated =>
    return .between (← subject.hide) (← low.hide) (← high.hide) negated
  | .conditional condition consequent alternative =>
    return .conditional (← condition.hide) (← consequent.hide) (← alternative.hide)
  | .coalesce left right => return .coalesce (← left.hide) (← right.hide)
  | .among subject items negated =>
    return .among (← subject.hide) (← Scalar.hideList items) negated
  | .subquery use query => .subquery use <$> query.hide
  | .call function userDefined arguments =>
    .call function userDefined <$> Scalar.hideList arguments
  | .index owner index => return .index (← owner.hide) (← index.hide)
  | .name identifier => .name <$> hideName identifier
  | .property owner identifier =>
    return .property (← owner.hide) (← hideName identifier)
  | .parameter identifier => .parameter <$> hideString .parameter identifier
  | .array items => .array <$> Scalar.hideList items
  | .object fields => .object <$> Field.hideList fields

/-- Scalars with stand-ins. -/
def Scalar.hideList : List Scalar → Hiding (List Scalar)
  | [] => return []
  | e :: rest => return (← e.hide) :: (← Scalar.hideList rest)

/-- Fields with stand-ins. -/
def Field.hideList : List Field → Hiding (List Field)
  | [] => return []
  | ⟨key, value⟩ :: rest => do
    let key ← hideString .key key
    let value ← value.hide
    return ⟨key, value⟩ :: (← Field.hideList rest)

/-- Select items with stand-ins. -/
def SelectItem.hideList : List SelectItem → Hiding (List SelectItem)
  | [] => return []
  | ⟨e, name?⟩ :: rest => do
    let e ← e.hide
    let name? ← hideAlias name?
    return ⟨e, name?⟩ :: (← SelectItem.hideList rest)

/-- Sort keys with stand-ins. -/
def SortKey.hideList : List SortKey → Hiding (List SortKey)
  | [] => return []
  | ⟨e, descending⟩ :: rest => do
    let e ← e.hide
    return ⟨e, descending⟩ :: (← SortKey.hideList rest)

/-- A projection with stand-ins. -/
def Projection.hide : Projection → Hiding Projection
  | .all => return .all
  | .items items => .items <$> SelectItem.hideList items
  | .value e => .value <$> e.hide

/-- A collection with stand-ins. -/
def Collection.hide : Collection → Hiding Collection
  | .path input segments => return .path (← hideName input) (← segments.mapM Segment.hide)
  | .subquery query => .subquery <$> query.hide
  | .array items => .array <$> Scalar.hideList items

/-- A source with stand-ins. -/
def Source.hide : Source → Hiding Source
  | .aliased collection name? => return .aliased (← collection.hide) (← hideAlias name?)
  | .each element collection => return .each (← hideName element) (← collection.hide)
  | .join left right => return .join (← left.hide) (← right.hide)

/-- A query with stand-ins. -/
def Query.hide : Query → Hiding Query
  | ⟨distinct, top?, projection, source?, filter?, groupKeys?, sortKeys?, window?⟩ => do
    let projection ← projection.hide
    let source? ← match source? with
      | some s => some <$> s.hide
      | none => pure none
    let filter? ← match filter? with
      | some e => some <$> e.hide
      | none => pure none
    let groupKeys? ← match groupKeys? with
      | some keys => some <$> Scalar.hideList keys
      | none => pure none
    let sortKeys? ← match sortKeys? with
      | some keys => some <$> SortKey.hideList keys
      | none => pure none
    return ⟨distinct, top?.map fun _ => hiddenCount, projection, source?, filter?, groupKeys?,
      sortKeys?, window?.map fun _ => ⟨hiddenCount, hiddenCount⟩⟩

end

/-- The query with stand-ins from an empty ledger. -/
def Query.obfuscate (q : Query) : Query := (q.hide.run .empty).1

end DocQuery
