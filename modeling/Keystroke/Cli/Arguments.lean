import Keystroke.Options

/-!
# Command line arguments

Arguments are read from left to right. An option that takes a value can be written with its value
in one word, after an equals sign where it is a long one, or in two words. Short options can be
joined. After a double dash every argument is a file. An option that is given twice, an unknown one
and a second file are misuses.
-/

namespace Keystroke.Cli

/-- What the command line asks for. -/
structure Arguments where
  code : Option String := none
  file : Option String := none
  output : Option String := none
  optionsFile : Option String := none
  comments : Bool := false
  lineNumbers : Bool := false
  noLibrary : Bool := false
  globalLibraryLabels : Bool := false
  registerLimit : Option Nat := none
  json : Bool := false
  verbosity : Nat := 0
deriving DecidableEq, Repr

inductive ValueOption where
  | code
  | output
  | optionsFile
  | registerLimit
deriving DecidableEq, Repr

/-- Options that do not take a value and can be given once. -/
inductive Flag where
  | comments
  | lineNumbers
  | noLibrary
  | globalLibraryLabels
  | json
deriving DecidableEq, Repr

inductive Switch where
  | value (option : ValueOption)
  | flag (option : Flag)
  | verbose
  | help
  | version
deriving DecidableEq, Repr

def Switch.ofLong? (name : String) : Option Switch :=
  match name with
  | "output" => some (.value .output)
  | "options" => some (.value .optionsFile)
  | "max-registers" => some (.value .registerLimit)
  | "comments" => some (.flag .comments)
  | "linenos" => some (.flag .lineNumbers)
  | "no-library" => some (.flag .noLibrary)
  | "global-library-labels" => some (.flag .globalLibraryLabels)
  | "json" => some (.flag .json)
  | "verbose" => some .verbose
  | "help" => some .help
  | "version" => some .version
  | _ => none

def Switch.ofShort? (letter : Char) : Option Switch :=
  match letter with
  | 'c' => some (.value .code)
  | 'o' => some (.value .output)
  | 'n' => some (.flag .lineNumbers)
  | 'v' => some .verbose
  | 'h' => some .help
  | 'V' => some .version
  | _ => none

/-- What to do. -/
inductive Command where
  | run (arguments : Arguments)
  | help
  | version
  | misuse
deriving DecidableEq, Repr

/-- The value of decimal digits, of which there has to be one. -/
def digitsNat? (digits : List Char) : Option Nat :=
  if !digits.isEmpty && digits.all Char.isDigit then
    some (digits.foldl (fun value c => value * 10 + (c.toNat - '0'.toNat)) 0)
  else
    none

/-- The number of registers that a text gives. A sign may stand before its digits. -/
def readLimit? (text : String) : Option Nat :=
  let limit? := match text.toList with
    | '+' :: digits => digitsNat? digits
    | '-' :: digits => (digitsNat? digits).filter (· = 0)
    | digits => digitsNat? digits
  limit?.filter (· ≤ Options.maxRegisterLimit)

namespace Arguments

/-- Sets an option that takes a value, unless it is set already or cannot take that value. -/
def setValue? (arguments : Arguments) (option : ValueOption) (value : String) :
    Option Arguments :=
  match option with
  | .code => if arguments.code.isSome then none else some { arguments with code := value }
  | .output => if arguments.output.isSome then none else some { arguments with output := value }
  | .optionsFile =>
    if arguments.optionsFile.isSome then none else some { arguments with optionsFile := value }
  | .registerLimit =>
    if arguments.registerLimit.isSome then none
    else (readLimit? value).map fun limit => { arguments with registerLimit := limit }

/-- Sets an option without a value, unless it is set already. -/
def setFlag? (arguments : Arguments) (option : Flag) : Option Arguments :=
  match option with
  | .comments => if arguments.comments then none else some { arguments with comments := true }
  | .lineNumbers =>
    if arguments.lineNumbers then none else some { arguments with lineNumbers := true }
  | .noLibrary => if arguments.noLibrary then none else some { arguments with noLibrary := true }
  | .globalLibraryLabels =>
    if arguments.globalLibraryLabels then none
    else some { arguments with globalLibraryLabels := true }
  | .json => if arguments.json then none else some { arguments with json := true }

def setFile? (arguments : Arguments) (file : String) : Option Arguments :=
  if arguments.file.isSome then none else some { arguments with file }

end Arguments

/-- What one word of the command line leads to. -/
inductive WordResult where
  | next (arguments : Arguments)
  | needsValue (option : ValueOption) (arguments : Arguments)
  | stop (command : Command)
deriving DecidableEq, Repr

/-- Goes on with changed arguments, unless the change is a misuse. -/
def WordResult.ofChange : Option Arguments → WordResult
  | some arguments => .next arguments
  | none => .stop .misuse

/-- Joined short options. -/
def readShort : List Char → Arguments → WordResult
  | [], arguments => .next arguments
  | letter :: rest, arguments =>
    match Switch.ofShort? letter with
    | none => .stop .misuse
    | some .help => .stop .help
    | some .version => .stop .version
    | some .verbose => readShort rest { arguments with verbosity := arguments.verbosity + 1 }
    | some (.flag option) =>
      match arguments.setFlag? option with
      | some arguments => readShort rest arguments
      | none => .stop .misuse
    | some (.value option) =>
      match rest with
      | [] => .needsValue option arguments
      | '=' :: value => .ofChange (arguments.setValue? option (String.ofList value))
      | value => .ofChange (arguments.setValue? option (String.ofList value))

/-- A text before an equals sign, and the text after it if there is one. -/
def cutAtEquals : List Char → List Char × Option (List Char)
  | [] => ([], none)
  | c :: rest =>
    if c = '=' then ([], some rest)
    else
      let (name, value) := cutAtEquals rest
      (c :: name, value)

/-- A long option, with its value if it has one. -/
def readLong (word : List Char) (arguments : Arguments) : WordResult :=
  let (name, value) := cutAtEquals word
  match Switch.ofLong? (String.ofList name), value with
  | some (.value option), some value =>
    .ofChange (arguments.setValue? option (String.ofList value))
  | some (.value option), none => .needsValue option arguments
  | some (.flag option), none => .ofChange (arguments.setFlag? option)
  | some .verbose, none => .next { arguments with verbosity := arguments.verbosity + 1 }
  | some .help, none => .stop .help
  | some .version, none => .stop .version
  | _, _ => .stop .misuse

/-- Whether a word is an option and no value. A dash alone is a value. -/
def isOption (word : String) : Bool :=
  match word.toList with
  | '-' :: _ :: _ => true
  | _ => false

/-- One word of the command line. -/
def readWord (word : String) (arguments : Arguments) : WordResult :=
  match word.toList with
  | '-' :: '-' :: name => readLong name arguments
  | '-' :: letter :: rest => readShort (letter :: rest) arguments
  | _ => .ofChange (arguments.setFile? word)

/-- The files after a double dash. -/
def readFiles : List String → Arguments → Command
  | [], arguments => .run arguments
  | file :: rest, arguments =>
    match arguments.setFile? file with
    | some arguments => readFiles rest arguments
    | none => .misuse

/-- The words of the command line, after an option that waits for its value. -/
def readWords : Option ValueOption → List String → Arguments → Command
  | none, [], arguments => .run arguments
  | some _, [], _ => .misuse
  | some option, word :: rest, arguments =>
    if isOption word then .misuse
    else
      match arguments.setValue? option word with
      | some arguments => readWords none rest arguments
      | none => .misuse
  | none, word :: rest, arguments =>
    if word = "--" then readFiles rest arguments
    else
      match readWord word arguments with
      | .next arguments => readWords none rest arguments
      | .needsValue option arguments => readWords (some option) rest arguments
      | .stop command => command

def Command.ofWords (words : List String) : Command :=
  readWords none words {}

end Keystroke.Cli
