import DocQuery.CommandLine.Arguments

/-!
# The program

Reads the query from the arguments or from standard input and prints the answer.
-/

namespace DocQuery

/-- All that is left of a stream, behind `before`. -/
partial def readAll (stream : IO.FS.Stream) (before : ByteArray) : IO ByteArray := do
  let bytes ← stream.read 65536
  if bytes.isEmpty then return before else readAll stream (before ++ bytes)

/-- Standard input, unless it is a terminal. -/
def readInput : IO (Option ByteArray) := do
  let stream ← IO.getStdin
  if ← stream.isTty then return none
  else some <$> readAll stream .empty

end DocQuery

open DocQuery in
def main (arguments : List String) : IO UInt32 := do
  let needsInput := (Arguments.read arguments).any (·.query?.isNone)
  let input? ← if needsInput then readInput else pure none
  let outcome := Outcome.ofRun arguments input?
  (← IO.getStdout).putStr outcome.output
  (← IO.getStderr).putStr outcome.errors
  return outcome.status.toUInt32
