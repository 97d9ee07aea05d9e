/-!
# Compile options
-/

namespace Keystroke

/-- What a compilation is asked to do. -/
structure Options where
  /-- Print comments. -/
  comments : Bool := false
  lineNumbers : Bool := false
  /-- Append the support routines that the program calls. -/
  library : Bool := true
  /-- Give support routines local labels. -/
  localLibraryLabels : Bool := true
  /-- How many numbered registers the calculator has. -/
  registerLimit : Nat := 100
deriving DecidableEq, Repr

/-- The largest number of registers that can be asked for. -/
def Options.maxRegisterLimit : Nat := 65535

end Keystroke
