import Keystroke.Label.FunctionLabels
import Keystroke.Label.JumpLabels
import Keystroke.Python.Tree
import Keystroke.Report
import Keystroke.Source.Scopes
import Keystroke.Source.SourceText

/-!
# Faults

The causes for which a source text is not compiled. Each cause has a kind and a message; a
`CompileError` adds the byte offset at which it is reported.
-/

namespace Keystroke

/-! ### Outside the language -/

/-- The causes for which a construct is outside the language. -/
inductive SubsetFault where
  | statement (what : Python.OutsideStmt)
  | expression (what : Python.OutsideExpr)
  | starred
  | memberAccess
  | imaginary
  | largeInteger
  | sliceStep
  | keywordArguments
  | computedCallee
  | notName
  | asyncFor
  | forElse
  | whileElse
  | asyncFunction
  | decorators
  | collectors
  | restrictedParams
  | defaultValue (param : String)
deriving DecidableEq, Repr

/-- Expressions outside the language, in words. -/
def Python.OutsideExpr.text : Python.OutsideExpr → String
  | lambda => "lambda"
  | comprehension => "comprehensions"
  | generator => "generators"
  | await => "await"
  | formatted => "f-strings"
  | set => "sets"
  | named => "assignment expressions"
  | conditional => "conditional expressions"
  | bytes => "bytes literals"
  | dictUnpacking => "dict unpacking"
  | other => "this expression"

/-- Statements outside the language, in words. -/
def Python.OutsideStmt.text : Python.OutsideStmt → String
  | classDef => "class definitions"
  | tryBlock => "try statements"
  | withBlock => "with statements"
  | matchBlock => "match statements"
  | raise => "raise"
  | delete => "del"
  | globals => "global declarations"
  | nonlocals => "nonlocal declarations"
  | typeAlias => "type aliases"

/-- What a construct outside the language reports. -/
def SubsetFault.message : SubsetFault → String
  | statement what => what.text ++ " not supported"
  | expression what => what.text ++ " not supported"
  | starred => "starred expressions not supported"
  | memberAccess => "attribute access outside method calls not supported"
  | imaginary => "complex literals not supported"
  | largeInteger => "integer literal too large"
  | sliceStep => "slice steps not supported"
  | keywordArguments => "keyword arguments not supported"
  | computedCallee => "only named functions and methods can be called"
  | notName => "expected a plain variable name"
  | asyncFor => "async for not supported"
  | forElse => "else clause on a for loop not supported"
  | whileElse => "else clause on a while loop not supported"
  | asyncFunction => "async functions not supported"
  | decorators => "decorators not supported"
  | collectors => "*args and **kwargs not supported"
  | restrictedParams => "keyword-only and positional-only parameters not supported"
  | defaultValue param => "default value for parameter '" ++ param ++ "' not supported"

/-! ### The label of the code outside functions -/

/-- The ways in which the label of the code outside functions can be declared wrongly. -/
inductive EntryFault where
  | afterFunction
  | repeated
  | badArgument
  | insideFunction
  /-- The label belongs to a support routine. -/
  | reserved (label : String)
deriving DecidableEq, Repr

/-- What a wrong declaration reports. -/
def EntryFault.message : EntryFault → String
  | afterFunction => "LBL() must come before any function definition"
  | repeated => "LBL() may only be declared once"
  | badArgument => "LBL() takes a single non-empty string literal"
  | insideFunction => "LBL() is only allowed at module level, before any function definition"
  | reserved label => "label \"" ++ label ++ "\" is reserved for the support library"

/-! ### Constructs without code -/

/-- The kinds of values that can only be assigned to a single name. -/
inductive SingleNameValue where
  | listLiteral
  | dictLiteral
  | containerAlias
deriving DecidableEq, Repr

/-- A kind of values, in words. -/
def SingleNameValue.text : SingleNameValue → String
  | listLiteral => "list literals"
  | dictLiteral => "dict literals"
  | containerAlias => "list and dict aliases"

/-- How many values the operand stack holds. -/
def stackDepth : Nat := 4

/-- The causes for which a construct has no code where it stands. -/
inductive UseFault where
  | codeOutsideFunctions
  | functionInBlock
  | functionWithoutLabel (name : String)
  | operator (op : Python.BinaryOp)
  | comparison (op : Python.CompareOp)
  | sliceValue
  | tupleValue
  | containerValue
  | functionValue (name : String)
  | rangeValue
  | notContainer (name : String) (elementOf : Option String)
  | notIterable (name : String)
  | loopIterable
  | method (name : String)
  | singleName (value : SingleNameValue)
  | noTarget (value : SingleNameValue)
  | assignTarget
  | augmentedTarget
  | unpackedValue
  | unpackedCount (values names : Nat)
  | unpackedWidth
  | unpackedString
  | unpackedTarget
  | breakOutsideLoop
  | continueOutsideLoop
deriving DecidableEq, Repr

/-- What a construct without code reports. -/
def UseFault.message : UseFault → String
  | codeOutsideFunctions => "code outside functions needs an LBL(\"name\") declaration first"
  | functionInBlock => "functions cannot be defined inside if, while or for blocks"
  | functionWithoutLabel name =>
    "function '" ++ name ++ "' must be defined at module level or directly inside a function"
  | operator op => "operator '" ++ op.sign ++ "' is not supported"
  | comparison op => "'" ++ op.sign ++ "' comparisons are not supported"
  | sliceValue => "slices can only be used as subscripts"
  | tupleValue => "tuples can only be used in assignments"
  | containerValue => "list and dict literals can only be assigned to a variable"
  | functionValue name => "function '" ++ name ++ "' can only be called, not used as a value"
  | rangeValue => "range() can only be used as the iterable of a for loop"
  | notContainer name elementOf =>
    "'" ++ name ++ "' is not a list, dict or matrix" ++
      match elementOf with
      | some container => " (it holds one element of '" ++ container ++ "')"
      | none => ""
  | notIterable name => "'" ++ name ++ "' is not a list or dict"
  | loopIterable => "for loops can only iterate over range() or a list or dict variable"
  | method name => "method '" ++ name ++ "' is not supported"
  | singleName value => value.text ++ " can only be assigned to a single name"
  | noTarget value => value.text ++ " need a target"
  | assignTarget => "can only assign to names and subscripts"
  | augmentedTarget => "augmented assignment to list, dict or matrix elements is not supported"
  | unpackedValue => "tuple assignment needs a tuple of values on the right"
  | unpackedCount values names =>
    "cannot assign " ++ decimal values ++ " values to " ++ decimal names ++ " names"
  | unpackedWidth => "tuple assignment is limited to " ++ decimal stackDepth ++ " values"
  | unpackedString => "strings cannot be used in tuple assignment"
  | unpackedTarget => "tuple assignment targets must be plain names"
  | breakOutsideLoop => "'break' outside loop"
  | continueOutsideLoop => "'continue' not properly in loop"

/-! ### Arguments -/

/-- The causes for which a calculator function or method does not take its arguments. -/
inductive CallFault where
  | oneArgument (function : String)
  | lengthArgument
  | stackArguments (mnemonic : String) (expected given : Nat)
  | digitsArgument (mnemonic : String)
  | variableArgument (mnemonic : String)
  | numberedVariable (mnemonic name : String)
  | rangeArguments (given : Nat)
  | subscriptCount
  | sliceAxes
  | sliceUpper
  | dimArguments
  | methodArguments (object method : String)
deriving DecidableEq, Repr

/-- What a function or method reports that does not take its arguments. -/
def CallFault.message : CallFault → String
  | oneArgument function => function ++ "() takes exactly one argument"
  | lengthArgument => "len() needs a list, dict or matrix variable"
  | stackArguments mnemonic expected given =>
    mnemonic ++ " takes " ++ decimal expected ++ " argument(s), got " ++ decimal given
  | digitsArgument mnemonic => mnemonic ++ " takes one integer literal from 0 to 99"
  | variableArgument mnemonic => mnemonic ++ " takes one variable"
  | numberedVariable mnemonic name =>
    mnemonic ++ " needs a named variable, '" ++ name ++ "' is a numbered register"
  | rangeArguments given => "range() takes 1 to 3 arguments, got " ++ decimal given
  | subscriptCount => "matrix subscripts take one or two indices"
  | sliceAxes => "two-dimensional slices need a slice on both axes"
  | sliceUpper => "slices need an explicit upper bound"
  | dimArguments => "dim() takes rows and columns"
  | methodArguments object method =>
    object ++ "." ++ method ++ "() does not take these arguments here"

/-- The largest end of a range that a loop counter can hold. -/
def maxRangeStop : Int := 999

/-- The ways in which a loop counter cannot hold a range. -/
inductive RangeFault where
  | stop (value : Int)
  | step
deriving DecidableEq, Repr

/-- What a range reports that a loop counter cannot hold. -/
def RangeFault.message : RangeFault → String
  | stop value =>
    "range() stop " ++ signedDecimal value ++ " exceeds " ++ signedDecimal maxRangeStop
  | step => "range() step must be positive"

/-! ### All causes -/

/-- The cause for which a source text is not compiled. -/
inductive Fault where
  | invalidText
  | subset (fault : SubsetFault)
  | entry (fault : EntryFault)
  | label (error : LabelError)
  | scope (error : ScopeError)
  | jumps (pool : JumpPool)
  | use (fault : UseFault)
  | call (fault : CallFault)
  | range (fault : RangeFault)
  | undefinedFunction (name : String)
deriving DecidableEq, Repr

namespace Fault

/-- The kind of a cause. -/
def kind : Fault → FaultKind
  | invalidText => .syntaxError
  | subset _ => .unsupported
  | entry _ => .badLabel
  | label (.duplicate _) => .duplicateFunction
  | label (.globalClash _ _ _) => .duplicateFunction
  | label (.bankExhausted _) => .labelBankExhausted
  | scope (.unbound _) => .unboundIdentifier
  | scope (.registersExhausted _) => .registersExhausted
  | scope (.aliasCycle _) => .unsupported
  | jumps _ => .jumpLabelsExhausted
  | use _ => .unsupported
  | call _ => .primitiveMismatch
  | range _ => .rangeOutOfBounds
  | undefinedFunction _ => .unboundIdentifier

/-- What is reported for a cause. -/
def message : Fault → String
  | invalidText => "invalid syntax"
  | subset fault => fault.message
  | entry fault => fault.message
  | label error => error.message
  | scope error => error.message
  | jumps pool => pool.message
  | use fault => fault.message
  | call fault => fault.message
  | range fault => fault.message
  | undefinedFunction name => "function '" ++ name ++ "' is not defined"

end Fault

/-- A cause, and the position at which it is reported. -/
structure CompileError where
  fault : Fault
  position : Position
deriving DecidableEq, Repr

end Keystroke
