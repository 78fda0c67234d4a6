-- The program: it reads the arguments and the file, and writes what the run leaves behind.
import SpanishNumerals.CommandLine

namespace SpanishNumerals

/-- The problem that the system met with a file. -/
def fileProblemOf : IO.Error → FileProblem
  | .noFileOrDirectory .. => .missing
  | .inappropriateType _ 21 _ => .directory
  | .inappropriateType _ code details => .other s!"{details} (os error {code})"
  | .permissionDenied _ code details => .other s!"{details} (os error {code})"
  | error => .other (toString error)

/-- The text of a file. -/
def readTextFile (name : String) : IO (Except FileProblem Text) := do
  match ← (IO.FS.readBinFile name).toBaseIO with
  | .error error => pure (.error (fileProblemOf error))
  | .ok bytes =>
    match String.fromUTF8? bytes with
    | some text => pure (.ok text.toList)
    | none => pure (.error .notUtf8)

end SpanishNumerals

/-- Runs the program and returns the code that it ends with. -/
def main (arguments : List String) : IO UInt32 := do
  let outcome ← SpanishNumerals.runCommand SpanishNumerals.readTextFile arguments
  (← IO.getStderr).putStr outcome.stderr
  (← IO.getStdout).putStr outcome.stdout
  pure (UInt32.ofNat outcome.code)
