import DocQuery.Grammar.Parse
import DocQuery.Digest.Tree
import DocQuery.Obfuscation.Tree

/-!
# Journal

Reading, digesting and obfuscating a query note what they do. `Query.parseNoted`,
`Query.digestNoted` and `Query.obfuscateNoted` give the result together with these entries, the
first first. A scalar on its own is noted only for the calls read in it.
-/

namespace DocQuery

/-- How much an entry matters. -/
inductive EntryLevel where
  | debug | trace
deriving DecidableEq, Repr

/-- A line of the journal. -/
structure Entry where
  level : EntryLevel
  text : String
deriving DecidableEq, Repr

namespace Entry

/-- A text is to be read. -/
def parsing (text : String) : Entry := ⟨.debug, s!"parsing query ({text.utf8ByteSize} bytes)"⟩

/-- A text is no query. -/
def parseFailed (e : ParseError) : Entry := ⟨.debug, "parse failed: " ++ e.message⟩

/-- A call was read to its end. -/
def call (c : CallName) : Entry :=
  ⟨.trace, "parsed call to " ++ (if c.userDefined then "udf." else "") ++ c.name⟩

/-- A query was digested. -/
def digest (strict : Bool) (digest : UInt32) : Entry :=
  ⟨.trace, s!"structural hash (strict: {strict}) = 0x{Text.paddedHex 8 digest.toNat}"⟩

/-- A query was obfuscated. -/
def obfuscated (l : Ledger) : Entry :=
  ⟨.debug, s!"obfuscated {l.strings.length} distinct strings and {l.numbers.length} " ++
    "distinct numbers"⟩

end Entry

/-- The calls that a session has read, the first first. -/
def Session.entries (s : Session) : List Entry := s.calls.reverse.map Entry.call

/-- Reads a query and notes it. -/
def Query.parseNoted (text : String) (limit : Nat) : Except ParseError Query × List Entry :=
  match Session.start text limit with
  | .error e => (.error e, [.parsing text])
  | .ok s =>
    match s.query with
    | (.ok q, s) => (.ok q, .parsing text :: s.entries)
    | (.error e, s) => (.error e, .parsing text :: s.entries ++ [.parseFailed e])

/-- Reads a scalar and notes the calls in it. -/
def Scalar.parseNoted (text : String) (limit : Nat) : Except ParseError Scalar × List Entry :=
  match Session.start text limit with
  | .error e => (.error e, [])
  | .ok s =>
    let (result, s) := s.scalar
    (result, s.entries)

/-- Digests a query and notes it. -/
def Query.digestNoted (strict : Bool) (q : Query) : UInt32 × List Entry :=
  (q.digest strict, [.digest strict (q.digest strict)])

/-- Obfuscates a query with a ledger and notes how much the ledger lists. -/
def Query.obfuscateNoted (q : Query) (l : Ledger) : Query × Ledger × List Entry :=
  let (q, l) := q.hide.run l
  (q, l, [.obfuscated l])

end DocQuery
