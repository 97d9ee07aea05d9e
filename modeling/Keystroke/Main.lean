import Keystroke.Cli.Run

/-!
# Entry point of the command line tool
-/

namespace Keystroke.Cli

/-- The cause of a failed access to a file. -/
def fileError (error : IO.Error) : FileError :=
  match error with
  | .noFileOrDirectory _ _ _ => .notFound
  | .noSuchThing _ _ _ => .notFound
  | .inappropriateType _ _ _ => .isDirectory
  | .userError _ => .notText
  | _ => .other (toString error)

def machineFiles : FileAccess IO where
  read path := do
    try
      return .ok (← IO.FS.readFile path)
    catch error =>
      return .error (fileError error)
  write path text := do
    try
      IO.FS.writeFile path text
      return .ok ()
    catch error =>
      return .error (fileError error)

end Keystroke.Cli

/-- Runs the tool on the files of the machine. -/
def main (words : List String) : IO UInt32 := do
  let outcome ← Keystroke.Cli.run Keystroke.Cli.machineFiles words
  IO.print outcome.output
  IO.eprint outcome.errors
  return outcome.exitCode.toUInt32
