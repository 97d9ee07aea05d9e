import Keystroke.Cli.Arguments
import Keystroke.Cli.FileAccess
import Keystroke.Cli.JsonLines
import Keystroke.Cli.OptionsFile
import Keystroke.Compile

/-!
# The command line tool

The tool compiles a file, or a text from its command line, and prints the listing or writes it to a
file. It reads the source first, then the options file, and writes nothing if anything fails.
-/

namespace Keystroke.Cli

/-- What a run leaves behind: its exit code and what it prints. -/
structure Outcome where
  exitCode : Nat := 0
  output : String := ""
  errors : String := ""
deriving DecidableEq, Repr

def failureCode : Nat := 1

/-- The exit code of a misuse of the command line. -/
def misuseCode : Nat := 2

/-- The word that starts a report of a failure, in bold red. -/
def errorMark : String := "\x1b[1m\x1b[31merror\x1b[0m"

/-- A remark in a dim color. -/
def dimmed (text : String) : String := "\x1b[2m" ++ text ++ "\x1b[0m"

/-- What the tool calls itself. -/
def versionText : String := "pyrpn-cli 0.1.0"

/-- How the tool is called. -/
def usageText : String := "Usage: pyrpn [OPTIONS] [FILE]"

def Outcome.failure (message : String) : Outcome :=
  { exitCode := failureCode, errors := errorMark ++ ": " ++ message ++ "\n" }

/-- The outcome of a failed compilation of a file. -/
def Outcome.ofReport (file : String) (report : Report) : Outcome :=
  { exitCode := failureCode
    errors := errorMark ++ " in " ++ file ++ " [" ++ report.kind.text ++ "]:\n" ++ report.text ++
      "\n" }

/-- What is reported of a file that cannot be read. -/
def readFailure (path : String) : FileError → String
  | .isDirectory => path ++ " is not a file"
  | error => "reading " ++ path ++ ": " ++ error.text

/-- The options with those of the command line in place of the ones in the options file. -/
def Arguments.override (arguments : Arguments) (options : Options) : Options :=
  { comments := options.comments || arguments.comments
    lineNumbers := options.lineNumbers || arguments.lineNumbers
    library := options.library && !arguments.noLibrary
    localLibraryLabels := options.localLibraryLabels && !arguments.globalLibraryLabels
    registerLimit := arguments.registerLimit.getD options.registerLimit }

/-- The name under which a text from the command line is reported. -/
def codeName : String := "<string>"

/-- A step of a run; its failure is the outcome of the run. -/
abbrev Step (m : Type → Type) := ExceptT Outcome m

variable {m : Type → Type} [Monad m]

def readText (files : FileAccess m) (path : String) : Step m String := do
  match ← files.read path with
  | .ok text => return text
  | .error error => throw (.failure (readFailure path error))

/-- The source text, and the name under which it is reported. -/
def readSource (files : FileAccess m) (arguments : Arguments) : Step m (String × String) := do
  match arguments.code, arguments.file with
  | some _, some _ => throw (.failure "cannot specify both -c and a file")
  | some code, none => return (codeName, code)
  | none, some path => return (path, ← readText files path)
  | none, none => throw (.failure "expected a file or -c <code>")

/-- The options of a run. -/
def readOptions (files : FileAccess m) (arguments : Arguments) : Step m Options := do
  match arguments.optionsFile with
  | none => return arguments.override {}
  | some path =>
    let text ← readText files path
    match Options.ofJson text with
    | .ok options => return arguments.override options
    | .error error => throw (.failure ("parsing " ++ path ++ ": " ++ error.text))

/-- The listing in the form that is asked for. -/
def printed (arguments : Arguments) (options : Options) (listing : Listing) : String :=
  if arguments.json then listing.toJsonLines
  else listing.render options.comments options.lineNumbers

/-- Compiles the source and delivers the listing. -/
def compileAndDeliver (files : FileAccess m) (arguments : Arguments) : Step m Outcome := do
  let (name, source) ← readSource files arguments
  let options ← readOptions files arguments
  match compile source options with
  | .error report => throw (.ofReport name report)
  | .ok listing =>
    let text := printed arguments options listing ++ "\n"
    match arguments.output with
    | none => return { output := text }
    | some path =>
      match ← files.write path text with
      | .error error => throw (.failure ("writing " ++ path ++ ": " ++ error.text))
      | .ok () =>
        let remark := decimal listing.lines.size ++ " lines written to " ++ path
        return { errors := dimmed remark ++ "\n" }

/-- Runs the tool with the words of a command line. -/
def run (files : FileAccess m) (words : List String) : m Outcome := do
  match Command.ofWords words with
  | .version => return { output := versionText ++ "\n" }
  | .help => return { output := usageText ++ "\n" }
  | .misuse => return { exitCode := misuseCode, errors := usageText ++ "\n" }
  | .run arguments =>
    match ← (compileAndDeliver files arguments).run with
    | .ok outcome => return outcome
    | .error outcome => return outcome

end Keystroke.Cli
