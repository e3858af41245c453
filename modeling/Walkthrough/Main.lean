import Walkthrough.CommandLine

/-!
# The program

Reads the arguments and the file, and writes the trace.
-/

namespace Walkthrough.Main

open CommandLine (ReadFault)

/-- Why a file could not be read. -/
def cause : IO.Error → ReadFault
  | .noFileOrDirectory .. => .missing
  | .permissionDenied .. => .denied
  | .inappropriateType (some _) .. => .notDirectory
  | .inappropriateType none .. => .directory
  | .invalidArgument (some _) .. => .tooLong
  | error => .other (toString error)

/-- The bytes of a file. -/
def readFile (file : String) : IO (Except ReadFault ByteArray) := do
  try
    return .ok (← IO.FS.readBinFile file)
  catch error =>
    return .error (cause error)

end Walkthrough.Main

/-- Writes the trace of a file. -/
def main (args : List String) : IO UInt32 := do
  let marking := if ← (← IO.getStdout).isTty then Walkthrough.Marking.styled else .brackets
  let outcome ← Walkthrough.CommandLine.outcome marking Walkthrough.Main.readFile args
  (← IO.getStdout).putStr outcome.output
  (← IO.getStderr).putStr outcome.error
  return outcome.code.toUInt32
