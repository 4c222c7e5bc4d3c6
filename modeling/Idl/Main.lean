import Idl.Cli.Run

/-!
The program around the command line: it reads the files, runs the command and writes what comes
out.
-/

set_option autoImplicit false

namespace Idl.Cli

/-- The code is the one of the system, which comes with either sign. -/
def isCode (known code : UInt32) : Bool := code == known || code == 0 - known

/-- What a failure of the system says of a file. -/
def faultOf (error : IO.Error) : FileFault :=
  match error with
  | .noFileOrDirectory _ _ _ => .missing
  | .inappropriateType _ code _ => if isCode 20 code then .notDirectory else .directory
  | .permissionDenied _ _ _ => .denied
  | .invalidArgument _ code _ =>
    if isCode 36 code then .nameTooLong else .other (toString error)
  | _ => .other (toString error)

/-- Reads a file that has to be text. -/
def readText (path : String) : IO (Except FileFault String) :=
  try
    return textOfBytes (← IO.FS.readBinFile path)
  catch error => return .error (faultOf error)

/-- Writes what a command leaves behind. The file comes first, because a failure to write it is an
outcome of its own. -/
def deliver (outcome : Outcome) : IO UInt32 := do
  let outcome ← match outcome.file with
    | none => pure outcome
    | some (path, content) =>
      try
        IO.FS.writeFile path content
        pure outcome
      catch error => pure (outcome.unwritten (faultOf error))
  for line in outcome.stderr do
    IO.eprintln line
  IO.print outcome.stdout
  return outcome.code.toUInt32

end Idl.Cli

open Idl Cli in
def main (args : List String) : IO UInt32 := do
  match request? args with
  | none =>
    IO.eprintln usage
    deliver misused
  | some .help =>
    IO.println usage
    deliver helped
  | some (.run command) =>
    let texts ← command.inputs.mapM fun path => return (path, ← readText path)
    deliver (command.run fun path => (texts.lookup path).getD (.error .missing))
