import DocQuery.CommandLine.Command

/-!
# Arguments of the command line

`command [options] [query]`, where the nesting limit may be given before the command as well; the
one behind it counts. An option may be given once in each place. Behind `--` stand no more options,
and a lone `-` is none anywhere.
-/

namespace DocQuery

/-- A command with its options, and the query if it is among the arguments. -/
structure Arguments where
  command : Command
  query? : Option String
  clausewise : Bool
  strictOnly : Bool
  limit? : Option Nat
deriving DecidableEq, Repr

namespace Arguments

/-- The command that a word names. -/
def command? : String → Option Command
  | "check" => some .check
  | "format" => some .format
  | "hash" => some .hash
  | "obfuscate" => some .obfuscate
  | _ => none

/-- The value of a limit: digits, perhaps with a plus sign, of a number of 64 bits. -/
def limitValue? (value : List Char) : Option Nat :=
  let digits := match value with
    | '+' :: digits => digits
    | digits => digits
  if digits.isEmpty || !digits.all Text.isDigit then none
  else
    let n := digitsValue 0 digits
    if n < UInt64.size then some n else none

/-- The value in an argument such as `--max-depth=8`. -/
def inlineLimit? (argument : String) : Option (List Char) :=
  "--max-depth=".toList.isPrefixOf? argument.toList

/-- What is left behind `--`: at most the query. -/
def readQuery (a : Arguments) : List String → Option Arguments
  | [] => some a
  | [q] => if a.query?.isSome then none else some { a with query? := some q }
  | _ => none

/-- Reads what stands behind the command. -/
def readOptions (a : Arguments) : List String → Option Arguments
  | [] => some a
  | "--" :: rest => a.readQuery rest
  | "--max-depth" :: value :: rest =>
    match a.limit?, limitValue? value.toList with
    | none, some n => readOptions { a with limit? := some n } rest
    | _, _ => none
  | argument :: rest =>
    if argument = "-p" || argument = "--pretty" then
      if (a.command = .format || a.command = .obfuscate) && !a.clausewise then
        readOptions { a with clausewise := true } rest
      else none
    else if argument = "-s" || argument = "--strict" then
      if a.command = .hash && !a.strictOnly then readOptions { a with strictOnly := true } rest
      else none
    else
      match inlineLimit? argument with
      | some value =>
        match a.limit?, limitValue? value with
        | none, some n => readOptions { a with limit? := some n } rest
        | _, _ => none
      | none =>
        if (argument.toList.head? = some '-' && argument != "-") || a.query?.isSome then none
        else readOptions { a with query? := some argument } rest

/-- Reads arguments from the start, where a limit may have been given already. -/
def readFrom (limit? : Option Nat) : List String → Option Arguments
  | [] => none
  | "--max-depth" :: value :: rest =>
    match limit?, limitValue? value.toList with
    | none, some n => readFrom (some n) rest
    | _, _ => none
  | argument :: rest =>
    match inlineLimit? argument with
    | some value =>
      match limit?, limitValue? value with
      | none, some n => readFrom (some n) rest
      | _, _ => none
    | none =>
      match command? argument with
      | none => none
      | some command =>
        match readOptions ⟨command, none, false, false, none⟩ rest with
        | none => none
        | some a => some { a with limit? := a.limit? <|> limit? }

/-- Reads all arguments. -/
def read (arguments : List String) : Option Arguments := readFrom none arguments

/-- The request for a query text. -/
def request (a : Arguments) (text : String) : Request :=
  ⟨a.command, text, a.clausewise, a.strictOnly, a.limit?.getD defaultLimit⟩

end Arguments

/-- What a run of the program leaves behind. -/
structure Outcome where
  status : Nat
  output : String
  errors : String
deriving DecidableEq, Repr

namespace Outcome

/-- How the program is called. -/
def usage : String :=
  "Usage: [--max-depth N] check|format|hash|obfuscate [-p|--pretty] [-s|--strict] [QUERY]\n"

/-- The outcome of a command. -/
def ofAnswer : Except CommandError Answer → Outcome
  | .ok answer => ⟨0, answer.line ++ "\n", ""⟩
  | .error e => ⟨1, "", e.message ++ "\n"⟩

/-- The outcome for given arguments and input; there is none where the input is a terminal. The
input counts only if the query is not among the arguments. -/
def ofRun (arguments : List String) (input? : Option ByteArray) : Outcome :=
  match Arguments.read arguments with
  | none => ⟨2, "", usage⟩
  | some a =>
    match a.query?, input? with
    | some q, _ => ofAnswer (a.request q).answer
    | none, none => ofAnswer (.error .noInput)
    | none, some bytes =>
      match String.fromUTF8? bytes with
      | some q => ofAnswer (a.request q).answer
      | none => ofAnswer (.error .notUtf8)

end Outcome

end DocQuery
