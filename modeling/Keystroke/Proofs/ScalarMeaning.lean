import Keystroke.Proofs.Machine

/-!
# What scalar statements mean

The statements of a function that works on numbers only are given a meaning of their own, without a
word about code: an expression has a value in an environment, a statement changes the environment,
and conditions and loops run as they are written. Truth operators and comparisons look at all of
their operands.
-/

namespace Keystroke

open Python (BinaryOp BoolOp CompareOp)
open Script (Expr Stmt)

/-- The values of variables. -/
abbrev Env (V : Type) := String → V

/-! ### Operators -/

namespace Python

variable {V : Type} (A : Arithmetic V)

/-- What an operator computes, if the calculator has it. -/
def BinaryOp.compute : BinaryOp → V → V → Option V
  | .add, a, b => A.binary .add a b
  | .sub, a, b => A.binary .sub a b
  | .mul, a, b | .matMul, a, b => A.binary .mul a b
  | .div, a, b => A.binary .div a b
  | .mod, a, b => A.binary .mod a b
  | .pow, a, b => A.binary .pow a b
  | .floorDiv, a, b => (A.binary .div a b).bind (A.unary .integerPart)
  | .bitAnd, a, b => A.binary .and a b
  | .bitOr, a, b => A.binary .or a b
  | .bitXor, a, b => A.binary .xor a b
  | .shiftLeft, _, _ | .shiftRight, _, _ => none

/-- What a truth operator makes of the truth values of its operands. -/
def BoolOp.combine : BoolOp → List Bool → Bool
  | .and, operands => operands.all id
  | .or, operands => operands.any id

end Python

namespace Script

/-! ### Scalar statements -/

mutual

/-- Whether an expression works on numbers only, with `vars` as its variables. -/
def Expr.isScalar (vars : List String) : Expr → Bool
  | .int _ _ | .float _ _ | .bool _ _ | .none _ => true
  | .name id => vars.contains id.name
  | .binary _ left op right =>
    op.ops?.isSome && isScalar vars left && isScalar vars right
  | .boolean _ _ first others =>
    isScalar vars first && !others.isEmpty && areScalar vars others
  | .not _ operand | .negate _ operand | .invert _ operand => isScalar vars operand
  | .compare _ left comparisons =>
    isScalar vars left && !comparisons.isEmpty && comparesScalars vars comparisons
  | _ => false

/-- Whether some expressions work on numbers only. -/
def Expr.areScalar (vars : List String) : List Expr → Bool
  | [] => true
  | e :: rest => isScalar vars e && areScalar vars rest

/-- Whether a chain of comparisons is between numbers only. -/
def Expr.comparesScalars (vars : List String) : List (CompareOp × Expr) → Bool
  | [] => true
  | (operator, e) :: rest =>
    operator.routine?.isSome && isScalar vars e && comparesScalars vars rest

end

/-- The expressions that work on numbers only, by their form. -/
inductive Expr.Scalar (vars : List String) : Expr → Prop
  | int {start : Position} {n : Nat} : Scalar vars (.int start n)
  | float {start : Position} {spelling : String} : Scalar vars (.float start spelling)
  | bool {start : Position} {b : Bool} : Scalar vars (.bool start b)
  | none {start : Position} : Scalar vars (.none start)
  | name {id : Ident} : id.name ∈ vars → Scalar vars (.name id)
  | binary {start : Position} {left right : Expr} {op : BinaryOp} {ops : List Op} :
      op.ops? = some ops → Scalar vars left → Scalar vars right →
        Scalar vars (.binary start left op right)
  | boolean {start : Position} {op : BoolOp} {first : Expr} {others : List Expr} :
      others ≠ [] → Scalar vars first → (∀ e ∈ others, Scalar vars e) →
        Scalar vars (.boolean start op first others)
  | not {start : Position} {operand : Expr} : Scalar vars operand → Scalar vars (.not start operand)
  | negate {start : Position} {operand : Expr} : Scalar vars operand →
      Scalar vars (.negate start operand)
  | invert {start : Position} {operand : Expr} : Scalar vars operand →
      Scalar vars (.invert start operand)
  | compare {start : Position} {left : Expr} {comparisons : List (CompareOp × Expr)} :
      comparisons ≠ [] → (∀ c ∈ comparisons, c.1.routine?.isSome = true) → Scalar vars left →
        (∀ c ∈ comparisons, Scalar vars c.2) → Scalar vars (.compare start left comparisons)

mutual

theorem Expr.scalar {vars : List String} : (e : Expr) → e.isScalar vars = true → e.Scalar vars
  | .int _ _, _ => .int
  | .float _ _, _ => .float
  | .bool _ _, _ => .bool
  | .none _, _ => .none
  | .name id, h => by
    rw [isScalar, List.contains_iff_mem] at h
    exact .name h
  | .binary _ left op right, h => by
    rw [isScalar, Bool.and_eq_true, Bool.and_eq_true] at h
    obtain ⟨ops, hops⟩ := Option.isSome_iff_exists.mp h.1.1
    exact .binary hops (left.scalar h.1.2) (right.scalar h.2)
  | .boolean _ _ first others, h => by
    rw [isScalar, Bool.and_eq_true, Bool.and_eq_true] at h
    exact .boolean (by simpa using h.1.2) (first.scalar h.1.1) (scalars others h.2)
  | .not _ operand, h => .not (operand.scalar h)
  | .negate _ operand, h => .negate (operand.scalar h)
  | .invert _ operand, h => .invert (operand.scalar h)
  | .compare _ left comparisons, h => by
    rw [isScalar, Bool.and_eq_true, Bool.and_eq_true] at h
    obtain ⟨hoperators, hright⟩ := scalarComparisons comparisons h.2
    exact .compare (by simpa using h.1.2) hoperators (left.scalar h.1.1) hright

theorem Expr.scalars {vars : List String} :
    (es : List Expr) → Expr.areScalar vars es = true → ∀ e ∈ es, e.Scalar vars
  | [], _ => List.forall_mem_nil _
  | e :: rest, h => by
    rw [areScalar, Bool.and_eq_true] at h
    exact List.forall_mem_cons.mpr ⟨e.scalar h.1, scalars rest h.2⟩

theorem Expr.scalarComparisons {vars : List String} : (comparisons : List (CompareOp × Expr)) →
    Expr.comparesScalars vars comparisons = true →
      (∀ c ∈ comparisons, c.1.routine?.isSome = true) ∧ ∀ c ∈ comparisons, c.2.Scalar vars
  | [], _ => ⟨List.forall_mem_nil _, List.forall_mem_nil _⟩
  | (_, e) :: rest, h => by
    rw [comparesScalars, Bool.and_eq_true, Bool.and_eq_true] at h
    obtain ⟨hoperators, hright⟩ := scalarComparisons rest h.2
    exact ⟨List.forall_mem_cons.mpr ⟨h.1.1, hoperators⟩,
      List.forall_mem_cons.mpr ⟨e.scalar h.1.2, hright⟩⟩

end

def Expr.name? : Expr → Option String
  | .name id => some id.name
  | _ => Option.none

def Expr.isVariable (vars : List String) (e : Expr) : Bool :=
  e.name?.any vars.contains

mutual

/-- Whether a statement works on numbers only, with `vars` as its variables. -/
def Stmt.isScalar (vars : List String) : Stmt → Bool
  | .pass _ | .breaks _ | .continues _ => true
  | .expression _ value => value.isScalar vars
  | .returns _ value => value.all (·.isScalar vars)
  | .assign _ target others value =>
    (target :: others).all (·.isVariable vars) && value.isScalar vars
  | .augmented _ target op value =>
    op.ops?.isSome && target.isVariable vars && value.isScalar vars
  | .ifElse _ test body orElse =>
    test.isScalar vars && areScalar vars body && areScalar vars orElse
  | .whileLoop _ test body => test.isScalar vars && areScalar vars body
  | _ => false

/-- Whether some statements work on numbers only. -/
def Stmt.areScalar (vars : List String) : List Stmt → Bool
  | [] => true
  | s :: rest => isScalar vars s && areScalar vars rest

end

/-! ### Values -/

section Values

variable {V : Type} (A : Arithmetic V) (env : Env V)

mutual

/-- The value of an expression, where it has one. Both operands of `and` and `or` are computed. -/
def Expr.value : Expr → Option V
  | .int _ n => some (A.ofNat n)
  | .float _ spelling => some (A.ofSpelling spelling)
  | .bool _ b => some (A.bit b)
  | .none _ => some (A.ofNat 0)
  | .name id => some (env id.name)
  | .binary _ left op right => do
    let a ← value left
    let b ← value right
    op.compute A a b
  | .boolean _ op first others => do
    let v ← value first
    let b ← A.truth v
    let rest ← truths others
    some (A.bit (op.combine (b :: rest)))
  | .not _ operand => do
    let v ← value operand
    let b ← A.truth v
    some (A.bit !b)
  | .negate _ operand => (value operand).bind (A.unary .negate)
  | .invert _ operand => (value operand).bind (A.unary .not)
  | .compare _ left comparisons => do
    let v ← value left
    let b ← chain v comparisons
    some (A.bit b)
  | _ => Option.none

def Expr.truths : List Expr → Option (List Bool)
  | [] => some []
  | e :: rest => do
    let v ← value e
    let b ← A.truth v
    let bs ← truths rest
    some (b :: bs)

/-- Whether all comparisons of a chain hold, each with the value before it. -/
def Expr.chain (v : V) : List (CompareOp × Expr) → Option Bool
  | [] => some true
  | (operator, e) :: rest => do
    let w ← value e
    let b ← A.compare operator v w
    let c ← chain w rest
    some (b && c)

end

/-- Whether a condition holds. -/
def Expr.truth (e : Expr) : Option Bool :=
  (e.value A env).bind A.truth

/-- A condition that is a literal always holds. -/
theorem Expr.truth_of_isConstantTrue {e : Expr} (h : e.isConstantTrue = true) :
    e.truth A env = some true := by
  cases e with
  | bool start b =>
    cases b with
    | true => exact A.truth_bit true
    | false => cases h
  | int start n =>
    have hn : (n == 0) = false := by simpa [isConstantTrue] using h
    show (A.isZero (A.ofNat n)).map (!·) = some true
    rw [A.isZero_ofNat, hn]
    rfl
  | _ => cases h

/-! ### Statements without control flow -/

/-- The variables after a value is assigned to each of some names. -/
def assignAll (v : V) (names : List String) : Env V :=
  names.foldl (fun env name => Function.update env name v) env

/-- What a statement without control flow does to the variables. -/
def Stmt.effect : Stmt → Option (Env V)
  | .pass _ => some env
  | .expression _ e => (e.value A env).map fun _ => env
  | .assign _ target others e =>
    (e.value A env).map fun v => assignAll env v ((target :: others).filterMap Expr.name?)
  | .augmented _ (.name id) op e => do
    let v ← e.value A env
    let w ← op.compute A (env id.name) v
    some (Function.update env id.name w)
  | _ => none

end Values

end Script

/-! ### Control flow -/

/-- How statements come to an end: after the last of them, by leaving the loop around them or going
on with it, or by returning, perhaps with a value. -/
inductive Outcome (V : Type) where
  | next
  | broke
  | continued
  | returned (value : Option V)

/-- Statements run to an end, from some values of the variables to others. -/
inductive Runs {V : Type} (A : Arithmetic V) : List Stmt → Env V → Outcome V → Env V → Prop where
  | nil {env : Env V} : Runs A [] env .next env
  | simple {s : Stmt} {rest : List Stmt} {env env₁ env' : Env V} {o : Outcome V}
      (heffect : s.effect A env = some env₁) (hrest : Runs A rest env₁ o env') :
      Runs A (s :: rest) env o env'
  | returns {start : Position} {rest : List Stmt} {env : Env V} :
      Runs A (.returns start none :: rest) env (.returned none) env
  | returnsValue {start : Position} {e : Expr} {rest : List Stmt} {env : Env V} {v : V}
      (hvalue : e.value A env = some v) :
      Runs A (.returns start (some e) :: rest) env (.returned (some v)) env
  | breaks {start : Position} {rest : List Stmt} {env : Env V} :
      Runs A (.breaks start :: rest) env .broke env
  | continues {start : Position} {rest : List Stmt} {env : Env V} :
      Runs A (.continues start :: rest) env .continued env
  | branch {start : Position} {test : Expr} {body orElse rest : List Stmt} {env env₁ env' : Env V}
      {b : Bool} {o : Outcome V} (htest : test.truth A env = some b)
      (hbranch : Runs A (if b then body else orElse) env .next env₁)
      (hrest : Runs A rest env₁ o env') : Runs A (.ifElse start test body orElse :: rest) env o env'
  | branchLeaves {start : Position} {test : Expr} {body orElse rest : List Stmt} {env env' : Env V}
      {b : Bool} {o : Outcome V} (htest : test.truth A env = some b)
      (hbranch : Runs A (if b then body else orElse) env o env') (hleaves : o ≠ .next) :
      Runs A (.ifElse start test body orElse :: rest) env o env'
  | loopDone {start : Position} {test : Expr} {body rest : List Stmt}
      {env env' : Env V} {o : Outcome V}
      (htest : test.truth A env = some false) (hrest : Runs A rest env o env') :
      Runs A (.whileLoop start test body :: rest) env o env'
  | loopAgain {start : Position} {test : Expr} {body rest : List Stmt} {env env₁ env' : Env V}
      {o₁ o : Outcome V} (htest : test.truth A env = some true) (hbody : Runs A body env o₁ env₁)
      (hagain : o₁ = .next ∨ o₁ = .continued)
      (hloop : Runs A (.whileLoop start test body :: rest) env₁ o env') :
      Runs A (.whileLoop start test body :: rest) env o env'
  | loopBroke {start : Position} {test : Expr} {body rest : List Stmt} {env env₁ env' : Env V}
      {o : Outcome V} (htest : test.truth A env = some true) (hbody : Runs A body env .broke env₁)
      (hrest : Runs A rest env₁ o env') :
      Runs A (.whileLoop start test body :: rest) env o env'
  | loopReturned {start : Position} {test : Expr} {body rest : List Stmt} {env env' : Env V}
      {value : Option V} (htest : test.truth A env = some true)
      (hbody : Runs A body env (.returned value) env') :
      Runs A (.whileLoop start test body :: rest) env (.returned value) env'

/-- The body of a function runs to its end, or to a `return`, which may give a value. -/
def Finishes {V : Type} (A : Arithmetic V) (body : List Stmt) (env : Env V) (result : Option V)
    (env' : Env V) : Prop :=
  (result = none ∧ Runs A body env .next env') ∨ Runs A body env (.returned result) env'

/-- Whether statements always leave a block. -/
def Script.Stmt.leaves : Stmt → Bool
  | .returns _ _ | .breaks _ | .continues _ => true
  | _ => false

theorem Runs.not_leaves {V : Type} {A : Arithmetic V} {statements : List Stmt} {env env' : Env V}
    (h : Runs A statements env .next env') : ∀ s ∈ statements, s.leaves = false := by
  generalize hnext : Outcome.next = o at h
  induction h with
  | nil => exact fun _ hmem => absurd hmem List.not_mem_nil
  | @simple s _ _ _ _ _ heffect _ ih =>
    have hsimple : s.leaves = false := by
      cases s with
      | returns | breaks | continues => cases heffect
      | _ => rfl
    exact List.forall_mem_cons.mpr ⟨hsimple, ih hnext⟩
  | returns | returnsValue | breaks | continues | loopReturned => cases hnext
  | branch _ _ _ _ ih => exact List.forall_mem_cons.mpr ⟨rfl, ih hnext⟩
  | branchLeaves _ _ hleaves => exact absurd hnext.symm hleaves
  | loopDone _ _ ih => exact List.forall_mem_cons.mpr ⟨rfl, ih hnext⟩
  | loopAgain _ _ _ _ _ ih => exact ih hnext
  | loopBroke _ _ _ _ ih => exact List.forall_mem_cons.mpr ⟨rfl, ih hnext⟩

end Keystroke
