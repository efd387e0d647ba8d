import DocQuery.Obfuscation.Jitter

/-!
# Ledgers of stand-ins

A `Ledger` lists what has been replaced so far, in order of first occurrence. The stand-in of a
string is its category's word and the string's number among those of its category, so a string has
the same stand-in wherever it occurs. These numbers are counted in 32 bits.

* `Ledger.ordinal`: the number of what is listed at a place.
* `Ledger.hideString`, `Ledger.hideNumber`: the stand-in, and the ledger with what it is for.
-/

namespace DocQuery

/-- What a replaced string is in its tree. Each category is numbered on its own. -/
inductive Category where
  | identifier | string | key | parameter
deriving DecidableEq, Repr

namespace Category

/-- The word that stand-ins of the category begin with. -/
def stem : Category → String
  | .identifier => "ident"
  | .string => "str"
  | .key => "p"
  | .parameter => "param"

/-- What a name of the category has in front. It counts in the name's length. -/
def sigil : Category → String
  | .parameter => "@"
  | _ => ""

end Category

/-- Strings that identify nobody: system properties, and type and field names of geometries. -/
def exemptStrings : List String := [
  "GeometryCollection", "LineString", "MultiLineString", "MultiPoint", "MultiPolygon", "Point",
  "Polygon", "_attachments", "_etag", "_rid", "_self", "_ts", "coordinates", "id", "name", "type"]

/-- Strings that keep their spelling: those of at most one character and those that identify
nobody. -/
def isExemptString (s : String) : Bool := s.length ≤ 1 || exemptStrings.contains s

/-- The stand-in of the `ordinal`-th string of a category. It tells the string's length from ten
characters on. -/
def stringStandIn (category : Category) (ordinal length : Nat) : String :=
  category.stem ++ toString ordinal ++ (if length < 10 then "" else "__" ++ toString length)

/-- What has been replaced so far, in order of first occurrence. -/
structure Ledger where
  strings : List (Category × String)
  numbers : List Number
deriving DecidableEq

namespace Ledger

/-- Nothing has been replaced. -/
def empty : Ledger := ⟨[], []⟩

/-- The strings of one category, in order of first occurrence. -/
def stringsOf (l : Ledger) (category : Category) : List String :=
  l.strings.filterMap fun (c, s) => if c = category then some s else none

/-- The number of what is listed at a place. A counter of 32 bits goes up by one for each new item, so
behind `2 ^ 32 - 1` items the next one is numbered 0. -/
def ordinal (place : Nat) : Nat := (UInt32.ofNat (place + 1)).toNat

/-- The stand-in of a string, and the ledger that lists the string. -/
def hideString (category : Category) (s : String) (l : Ledger) : String × Ledger :=
  let text := category.sigil ++ s
  if isExemptString text then (s, l)
  else
    let known := l.stringsOf category
    match known.findIdx? (· == s) with
    | some i => (stringStandIn category (ordinal i) text.length, l)
    | none =>
      (stringStandIn category (ordinal known.length) text.length,
        { l with strings := l.strings ++ [(category, s)] })

/-- The stand-in of a number, and the ledger that lists the number. Equal numbers share one. -/
def hideNumber (n : Number) (l : Ledger) : Number × Ledger :=
  if n.isExempt then (n, l)
  else
    match l.numbers.findIdx? (·.same n) with
    | some i => (n.standIn (ordinal i), l)
    | none => (n.standIn (ordinal l.numbers.length), { l with numbers := l.numbers ++ [n] })

end Ledger

end DocQuery
