/-!
# File access

The command line tool reads and writes whole files. It does so through a record of operations, so
that it can be run on real files and on a directory in memory alike.
-/

namespace Keystroke.Cli

/-- The ways in which a file cannot be read or written. -/
inductive FileError where
  | notFound
  | isDirectory
  | notDirectory
  | notText
  | other (text : String)
deriving DecidableEq, Repr

/-- What a file reports that cannot be read or written. -/
def FileError.text : FileError → String
  | notFound => "No such file or directory (os error 2)"
  | isDirectory => "Is a directory (os error 21)"
  | notDirectory => "Not a directory (os error 20)"
  | notText => "stream did not contain valid UTF-8"
  | other text => text

/-- The operations on files. -/
structure FileAccess (m : Type → Type) where
  read : String → m (Except FileError String)
  /-- Replaces the text of the file at a path. -/
  write : String → String → m (Except FileError Unit)

end Keystroke.Cli
