import Keystroke.Text.Decimal

/-!
# Reports

A failed compilation is reported with the kind of the failure, a message, the pass that failed and
the source line.
-/

namespace Keystroke

/-- The kinds of compilation failures. -/
inductive FaultKind where
  | syntaxError
  | unboundIdentifier
  | duplicateFunction
  | badLabel
  | unsupported
  | primitiveMismatch
  | rangeOutOfBounds
  | labelBankExhausted
  | registersExhausted
  | jumpLabelsExhausted
deriving DecidableEq, Repr

/-- The kind of a failure, in words. -/
def FaultKind.text : FaultKind → String
  | syntaxError => "syntax error"
  | unboundIdentifier => "unbound identifier"
  | duplicateFunction => "duplicate function"
  | badLabel => "bad label"
  | unsupported => "unsupported construct"
  | primitiveMismatch => "primitive mismatch"
  | rangeOutOfBounds => "range out of bounds"
  | labelBankExhausted => "label bank exhausted"
  | registersExhausted => "registers exhausted"
  | jumpLabelsExhausted => "jump labels exhausted"

/-- The passes of a compilation. -/
inductive Phase where
  | parse
  | lookahead
  | compile
deriving DecidableEq, Repr

/-- The name of a pass. -/
def Phase.text : Phase → String
  | parse => "parse"
  | lookahead => "lookahead"
  | compile => "compile"

/-- The source line that a report points at. -/
structure ReportLocation where
  line : Nat
  text : String
deriving DecidableEq, Repr

/-- A failed compilation, as it is shown to the user. -/
structure Report where
  kind : FaultKind
  message : String
  phase : Phase
  location : Option ReportLocation
deriving DecidableEq, Repr

/-- The report in one text: message, pass, line number and line. -/
def Report.text (report : Report) : String :=
  report.message ++ " (" ++ report.phase.text ++ ")" ++
    match report.location with
    | some location => ", line: " ++ decimal location.line ++ "\n" ++ location.text
    | none => ""

end Keystroke
