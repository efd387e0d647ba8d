import DocQuery.Grammar.Parse
import DocQuery.Layout.Tree
import DocQuery.Digest.Tree
import DocQuery.Obfuscation.Tree

/-!
# Commands

What can be asked of a query text, and the answers.
-/

namespace DocQuery

/-- What to do with a query. -/
inductive Command where
  /-- Tell whether it is one. -/
  | check
  /-- Write it in one spelling. -/
  | format
  /-- Give its digests. -/
  | hash
  /-- Write it with stand-ins. -/
  | obfuscate
deriving DecidableEq, Repr

/-- A command with its options and its text. -/
structure Request where
  command : Command
  text : String
  /-- Write a line for each clause. -/
  clausewise : Bool
  /-- Leave out the digest that ignores order. -/
  strictOnly : Bool
  /-- How many levels may nest. -/
  limit : Nat
deriving DecidableEq, Repr

/-- The answer to a command. -/
inductive Answer where
  /-- The text is a query. -/
  | valid
  | text (text : String)
  /-- The digests, also the one that ignores order if it was asked for. -/
  | digests (strict : UInt32) (loose? : Option UInt32)
deriving DecidableEq, Repr

/-- Why a command has no answer. -/
inductive CommandError where
  | parse (error : ParseError)
  /-- There is no text, or it is blank. -/
  | noInput
  /-- The bytes of the text are not UTF-8. -/
  | notUtf8
deriving DecidableEq

namespace CommandError

def message : CommandError → String
  | parse e => "Parse error: " ++ e.message
  | noInput => "No query provided. Pass it as an argument or pipe it to stdin."
  | notUtf8 => "IO error: stream did not contain valid UTF-8"

end CommandError

namespace Answer

/-- The digests as a JSON object, its keys in order. -/
def digestsText (strict : UInt32) (loose? : Option UInt32) : String :=
  "\x7b" ++ (match loose? with
    | some loose => "\"nonStrict\":" ++ toString loose.toNat ++ ","
    | none => "") ++
  "\"strict\":" ++ toString strict.toNat ++ "\x7d"

/-- The line that tells the answer. -/
def line : Answer → String
  | valid => "Syntax is valid"
  | text t => t
  | digests strict loose? => digestsText strict loose?

end Answer

namespace Request

/-- How text is written. -/
def layout (r : Request) : Layout := if r.clausewise then .clausewise else .compact

/-- The answer to a request. -/
def answer (r : Request) : Except CommandError Answer :=
  if r.text.toList.all Text.isBlank then .error .noInput
  else
    match Query.parse r.text r.limit with
    | .error e => .error (.parse e)
    | .ok q =>
      match r.command with
      | .check => .ok .valid
      | .format => .ok (.text (q.text r.layout))
      | .obfuscate => .ok (.text (q.obfuscate.text r.layout))
      | .hash =>
        .ok (.digests (q.digest true) (if r.strictOnly then none else some (q.digest false)))

end Request

end DocQuery
