import Keystroke.Emit.Stmt
import Keystroke.Label.Assignment
import Keystroke.Options
import Keystroke.Python.Module
import Keystroke.Script.Subset

/-!
# Compiling a source text

A source text is read, its functions are given labels, and its code is written. The first failure
stops the compilation, and is reported with the pass in which it arose.
-/

namespace Keystroke

/-- The report of an error that arose in a pass. -/
def CompileError.report (error : CompileError) (phase : Phase) (source : SourceText) : Report :=
  let line := error.position.line.toNat
  { kind := error.fault.kind
    message := error.fault.message
    phase
    location := some ⟨line, source.lineText line⟩ }

def Script.ofSource (source : SourceText) : Except CompileError (List Script.Stmt) :=
  match Python.parseModule source.chars with
  | .ok body => Script.checkStmts source body
  | .error fault => .error ⟨.invalidText, source.position fault.offset⟩

def Listing.ofScript (labels : FunctionLabels) (body : List Script.Stmt) (registerLimit : Nat)
    (jumps : LabelSupply := .pools) : Except CompileError Listing :=
  match (Emit.program labels body).run { scopes := .ofLimit registerLimit, jumps } with
  | .ok (_, emitter) => .ok emitter.listing
  | .error error => .error error

/-- A result of a pass, with its failure reported. -/
def inPhase {α : Type} (phase : Phase) (source : SourceText) (result : Except CompileError α) :
    Except Report α :=
  match result with
  | .ok a => .ok a
  | .error error => .error (error.report phase source)

def labelsOf (text : String) : Except Report FunctionLabels := do
  let source := SourceText.ofString text
  let body ← inPhase .parse source (Script.ofSource source)
  inPhase .lookahead source (FunctionLabels.assign body)

/-- The listing of a source text, with the support routines that it calls. -/
def compile (text : String) (options : Options) (jumps : LabelSupply := .pools) :
    Except Report Listing := do
  let source := SourceText.ofString text
  let body ← inPhase .parse source (Script.ofSource source)
  let labels ← inPhase .lookahead source (FunctionLabels.assign body)
  let listing ← inPhase .compile source (Listing.ofScript labels body options.registerLimit jumps)
  return if options.library then listing.appendLibrary options.localLibraryLabels else listing

/-- The printed listing of a source text. -/
def compileToText (text : String) (options : Options) : Except Report String := do
  let listing ← compile text options
  return listing.render options.comments options.lineNumbers

end Keystroke
