import Keystroke.Emit.Stmt

/-!
# The names that a script stores to

Assignments, loops and parameters store to names, and so do two kinds of expressions: an input makes
its variable, and giving dimensions makes a matrix. No other code changes what a name stands for.
-/

namespace Keystroke.Script

namespace Expr

def ownName : Expr → List String
  | .name id => [id.name]
  | _ => []

end Expr

/-- The names that a call stores to: an input stores to its variable. -/
def inputNames (callee : Ident) (args : List Expr) : List String :=
  if callee.name = MemoryOp.input.mnemonic then args.flatMap Expr.ownName else []

/-- The names that a method stores to: dimensions make their object a matrix. -/
def dimensionedNames (object attr : Ident) : List String :=
  if attr.name = "dim" then [object.name] else []

mutual

/-- The names that the code of an expression can store to. -/
def Expr.storedNames : Expr → List String
  | .int _ _ => []
  | .float _ _ => []
  | .string _ _ => []
  | .bool _ _ => []
  | .none _ => []
  | .name _ => []
  | .binary _ left _ right => left.storedNames ++ right.storedNames
  | .boolean _ _ first others => first.storedNames ++ operandNames others
  | .not _ operand => operand.storedNames
  | .negate _ operand => operand.storedNames
  | .invert _ operand => operand.storedNames
  | .compare _ left comparisons => left.storedNames ++ comparedNames comparisons
  | .call _ callee args => inputNames callee args ++ operandNames args
  | .method _ object attr args => dimensionedNames object attr ++ operandNames args
  | .subscript _ _ index => index.storedNames
  | .slice _ lower upper => boundNames lower ++ boundNames upper
  | .tuple _ elements => operandNames elements
  | .list _ elements => operandNames elements
  | .dict _ items => pairNames items

/-- The names that the code of some expressions stores to. -/
def operandNames : List Expr → List String
  | [] => []
  | e :: rest => e.storedNames ++ operandNames rest

/-- The names that the code of the operands of comparisons stores to. -/
def comparedNames : List (Python.CompareOp × Expr) → List String
  | [] => []
  | (_, e) :: rest => e.storedNames ++ comparedNames rest

/-- The names that the code of a bound stores to, if there is one. -/
def boundNames : Option Expr → List String
  | none => []
  | some e => e.storedNames

/-- The names that the code of keys and values stores to. -/
def pairNames : List (Expr × Expr) → List String
  | [] => []
  | (key, value) :: rest => key.storedNames ++ value.storedNames ++ pairNames rest

end

/-- The names that an assignment to a target stores to. -/
def Expr.targetNames : Expr → List String
  | .name id => [id.name]
  | .tuple _ elements => elements.flatMap Expr.ownName
  | e => e.storedNames

mutual

/-- The names that the code of a statement stores to. -/
def Stmt.storedNames : Stmt → List String
  | .pass _ => []
  | .expression _ value => value.storedNames
  | .returns _ value => boundNames value
  | .assign _ target others value =>
    target.targetNames ++ others.flatMap Expr.targetNames ++ value.storedNames
  | .augmented _ _ _ value => value.storedNames
  | .ifElse _ test body orElse =>
    test.storedNames ++ Script.storedNames body ++ Script.storedNames orElse
  | .whileLoop _ test body => test.storedNames ++ Script.storedNames body
  | .forLoop _ target iterable body =>
    target.name :: (iterable.storedNames ++ Script.storedNames body)
  | .breaks _ => []
  | .continues _ => []
  | .assertion _ test => test.storedNames
  | .functionDef _ header body => header.params.map Ident.name ++ Script.storedNames body

/-- The names that the code of some statements stores to. -/
def storedNames : List Stmt → List String
  | [] => []
  | s :: rest => s.storedNames ++ storedNames rest

end

variable {p : String → Prop}

theorem forall_operandNames {es : List Expr} :
    (∀ name ∈ operandNames es, p name) ↔ ∀ e ∈ es, ∀ name ∈ e.storedNames, p name := by
  induction es with
  | nil => simp [operandNames]
  | cons e rest ih => rw [operandNames, List.forall_mem_append, ih, List.forall_mem_cons]

theorem forall_comparedNames {comparisons : List (Python.CompareOp × Expr)} :
    (∀ name ∈ comparedNames comparisons, p name) ↔
      ∀ comparison ∈ comparisons, ∀ name ∈ comparison.2.storedNames, p name := by
  induction comparisons with
  | nil => simp [comparedNames]
  | cons e rest ih => rw [comparedNames, List.forall_mem_append, ih, List.forall_mem_cons]

theorem forall_boundNames {bound : Option Expr} :
    (∀ name ∈ boundNames bound, p name) ↔ ∀ e ∈ bound, ∀ name ∈ e.storedNames, p name := by
  cases bound <;> simp [boundNames]

theorem forall_pairNames {items : List (Expr × Expr)} :
    (∀ name ∈ pairNames items, p name) ↔ ∀ item ∈ items,
      (∀ name ∈ item.1.storedNames, p name) ∧ ∀ name ∈ item.2.storedNames, p name := by
  induction items with
  | nil => simp [pairNames]
  | cons item rest ih =>
    rw [pairNames, List.forall_mem_append, List.forall_mem_append, ih, List.forall_mem_cons]

theorem forall_storedNames {body : List Stmt} :
    (∀ name ∈ storedNames body, p name) ↔ ∀ s ∈ body, ∀ name ∈ s.storedNames, p name := by
  induction body with
  | nil => simp [storedNames]
  | cons s rest ih => rw [storedNames, List.forall_mem_append, ih, List.forall_mem_cons]

end Keystroke.Script
