import MathMarkup.Command.Run

/-!
This module contains the command line program. It reads from the file system and the standard input
and writes what a run leaves behind.
-/

namespace MathMarkup
namespace Command

def readTextFile (path : String) : IO (Except ReadFault String) := do
  try
    return decode (← IO.FS.readBinFile path)
  catch
    | .noFileOrDirectory .. => return .error .missing
    | error => return .error (.other (toString error))

def readTextInput : IO (Except ReadFault String) := do
  try
    return decode (← (← IO.getStdin).readBinToEnd)
  catch error =>
    return .error (.other (toString error))

def world : IO (World IO) := do
  return {
    file := readTextFile
    input := readTextInput
    config := ← IO.getEnv "T2T_CONFIG" }

end Command
end MathMarkup

def main (arguments : List String) : IO UInt32 := do
  let outcome ← MathMarkup.Command.run (← MathMarkup.Command.world) arguments
  (← IO.getStdout).putStr outcome.output
  (← IO.getStderr).putStr outcome.errors
  return outcome.code.toUInt32
