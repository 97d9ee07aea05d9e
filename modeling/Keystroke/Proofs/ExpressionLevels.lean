import Keystroke.Proofs.FourLevels
import Keystroke.Proofs.ScalarEmission

/-!
# Expressions on four levels

What the code of a scalar expression does to the four levels of the stack is a function of the
expression, and the code that is written does just that. Registers are kept, and all flags but the
scratch flag.
-/

namespace Keystroke

variable {V : Type} {A : Arithmetic V} {pending : Nat} {registers : Register → V}

open Python (BinaryOp BoolOp CompareOp)
open Script (Expr Ident)

/-! ### What code does to the levels -/

namespace Python

variable {V : Type} (A : Arithmetic V)

/-- What the code of an operator does to the levels. -/
def BinaryOp.onLevels (op : BinaryOp) (levels : Levels V) : Option (Levels V) :=
  (op.compute A levels.y levels.x).map levels.combine

/-- What the code of a truth operator does to the levels. -/
def BoolOp.onLevels (op : BoolOp) (levels : Levels V) : Option (Levels V) :=
  (A.truth levels.y).bind fun b => (A.truth levels.x).map fun c =>
    levels.combine (A.bit (op.combine [b, c]))

/-- What the code of a comparison does to the levels. X goes to T. -/
def CompareOp.onLevels (operator : CompareOp) (levels : Levels V) : Option (Levels V) :=
  (A.compare operator levels.y levels.x).map fun b => levels.rollDown.rollDown.push (A.bit b)

end Python

namespace Script

variable {V : Type} (A : Arithmetic V) (env : Env V)

mutual

/-- What the code of a scalar expression does to the levels. -/
def Expr.onLevels : Expr → Levels V → Option (Levels V)
  | .int _ n, levels => some (levels.push (A.ofNat n))
  | .float _ spelling, levels => some (levels.push (A.ofSpelling spelling))
  | .bool _ b, levels => some (levels.push (A.bit b))
  | .none _, levels => some (levels.push (A.ofNat 0))
  | .name id, levels => some (levels.push (env id.name))
  | .binary _ left op right, levels =>
    (onLevels left levels).bind fun levels => (onLevels right levels).bind (op.onLevels A)
  | .boolean _ op first others, levels => (onLevels first levels).bind (booleansOnLevels op others)
  | .not _ operand, levels =>
    (onLevels operand levels).bind fun levels =>
      (A.truth levels.x).map fun b => levels.replace (A.bit !b)
  | .negate _ operand, levels =>
    (onLevels operand levels).bind fun levels => (A.unary .negate levels.x).map levels.replace
  | .invert _ operand, levels =>
    (onLevels operand levels).bind fun levels => (A.unary .not levels.x).map levels.replace
  | .compare _ left comparisons, levels => chainOnLevels true (onLevels left) comparisons levels
  | _, _ => Option.none

/-- What the code of the further operands of a truth operator does to the levels. -/
def Expr.booleansOnLevels (op : BoolOp) : List Expr → Levels V → Option (Levels V)
  | [], levels => some levels
  | e :: rest, levels =>
    (onLevels e levels).bind fun levels => (op.onLevels A levels).bind (booleansOnLevels op rest)

/-- What the code of a chain of comparisons does to the levels, after an operand whose code does
`previous`. -/
def Expr.chainOnLevels (isFirst : Bool) (previous : Levels V → Option (Levels V)) :
    List (CompareOp × Expr) → Levels V → Option (Levels V)
  | [], levels => some levels
  | (operator, right) :: rest, levels =>
    (previous levels).bind fun levels => (onLevels right levels).bind fun levels =>
      (operator.onLevels A levels).bind fun levels =>
        (if isFirst then some levels else BoolOp.and.onLevels A levels).bind
          (chainOnLevels false (onLevels right) rest)

end

end Script

/-! ### Lines of scalar code -/

/-- What `Does` says of code is what it does to the levels, as far as scalar code is concerned: it
says so of the lines that such code is made of, and of code in two parts if it does of the parts. -/
structure Effects {V : Type} (A : Arithmetic V)
    (Does : List Instr → (Levels V → Option (Levels V)) → Prop) : Prop where
  nil : Does [] some
  append {code code' : List Instr} {effect effect' : Levels V → Option (Levels V)} :
    Does code effect → Does code' effect' →
      Does (code ++ code') fun levels => (effect levels).bind effect'
  int (n : Nat) : Does [.int n] fun levels => some (levels.push (A.ofNat n))
  decimal (spelling : String) :
    Does [.decimal spelling] fun levels => some (levels.push (A.ofSpelling spelling))
  unary {o : Op} : o.isUnary = true →
    Does [.op o] fun levels => (A.unary o levels.x).map levels.replace
  binary {o : Op} : o.isBinary = true →
    Does [.op o] fun levels => (A.binary o levels.y levels.x).map levels.combine
  comparison {routine : Routine} {operator : CompareOp} : routine.comparison? = some operator →
    Does [Routine.call routine] (operator.onLevels A)
  truth : Does [Routine.call .truth] fun levels =>
    (A.truth levels.x).map fun b => levels.replace (A.bit b)
  negation : Does [Routine.call .negation] fun levels =>
    (A.isZero levels.x).map fun b => levels.replace (A.bit b)
  truthPair : Does [Routine.call .truthPair] fun levels =>
    (A.truth levels.x).bind fun b => (A.truth levels.y).map fun b' =>
      ⟨A.bit b, A.bit b', levels.z, levels.t⟩

namespace Effects

variable {V : Type} {A : Arithmetic V} {Does : List Instr → (Levels V → Option (Levels V)) → Prop}
  {code : List Instr} {effect effect' : Levels V → Option (Levels V)}

theorem congr (h : Does code effect) (heffect : ∀ levels, effect levels = effect' levels) :
    Does code effect' :=
  funext heffect ▸ h

variable (h : Effects A Does)

include h

theorem binaryOps {op : BinaryOp} {ops : List Op} (hops : op.ops? = some ops) :
    Does (ops.map .op) (op.onLevels A) := by
  cases op
  case floorDiv =>
    cases hops
    refine congr (h.append (h.binary rfl) (h.unary rfl)) fun levels => ?_
    show ((A.binary .div levels.y levels.x).map _).bind _ =
      ((A.binary .div levels.y levels.x).bind _).map _
    cases A.binary .div levels.y levels.x <;> rfl
  case shiftLeft | shiftRight => cases hops
  all_goals
    cases hops
    exact h.binary rfl

/-- A further operand of a truth operator is combined with the value so far. -/
theorem truthOp (op : BoolOp) : Does [Routine.call .truthPair, .op op.op] (op.onLevels A) := by
  have hbinary : op.op.isBinary = true := by cases op <;> rfl
  refine congr (h.append h.truthPair (h.binary hbinary)) fun levels => ?_
  show ((A.truth levels.x).bind _).bind _ = (A.truth levels.y).bind _
  cases A.truth levels.x with
  | none => cases A.truth levels.y <;> rfl
  | some c =>
    cases A.truth levels.y with
    | none => rfl
    | some b =>
      show (A.binary op.op (A.bit b) (A.bit c)).map _ = _
      rw [BoolOp.binary_bit]
      rfl

theorem not : Does [Routine.call .truth, Routine.call .negation] fun levels =>
    (A.truth levels.x).map fun b => levels.replace (A.bit !b) := by
  refine congr (h.append h.truth h.negation) fun levels => ?_
  cases A.truth levels.x with
  | none => rfl
  | some b =>
    show (A.isZero (A.bit b)).map _ = _
    rw [A.isZero_bit]
    rfl

end Effects

/-- The lines that recall a variable. Of a loop counter only the whole part is the value. -/
def Scopes.recallCode (scopes : Scopes) (name : String) (register : Register) : List Instr :=
  .recallValue register :: if scopes.isRangeIndex name then [.op .integerPart] else []

namespace Emit

variable {V : Type} {A : Arithmetic V} {Does : List Instr → (Levels V → Option (Levels V)) → Prop}
  {env : Env V} {vars : List String} {labels : FunctionLabels} {id : Ident}
  {effect : Levels V → Option (Levels V)}

/-- An action writes code that does to the levels what `effect` says, where the lines that recall
variables enter the values `env`. -/
def Driving (Does : List Instr → (Levels V → Option (Levels V)) → Prop) (env : Env V)
    (vars : List String) (effect : Levels V → Option (Levels V)) (m : Emit Unit) : Prop :=
  ∀ s u s', (∀ name ∈ vars, ∀ register, s.scopes.getRegister name = .ok register →
      Does (s.scopes.recallCode name register) fun levels => some (levels.push (env name))) →
    m.run s = .ok (u, s') → ∃ code, Emits code s s' ∧ Does code effect

namespace Driving

variable {m : Emit Unit} {f : Unit → Emit Unit} {effect effect' : Levels V → Option (Levels V)}
  {code : List Instr}

theorem pure (h : Effects A Does) (u : Unit) : Driving Does env vars some (Pure.pure u) := by
  intro s u s' _ hrun
  cases hrun
  exact ⟨[], .refl s, h.nil⟩

theorem bind (h : Effects A Does) (hm : Driving Does env vars effect m)
    (hf : ∀ u, Driving Does env vars effect' (f u)) :
    Driving Does env vars (fun levels => (effect levels).bind effect') (m >>= f) := by
  intro s u s' hvars hrun
  obtain ⟨u₁, s₁, hm₁, hf₁⟩ := run_bind.mp hrun
  obtain ⟨code, hfirst, hacts⟩ := hm s u₁ s₁ hvars hm₁
  rw [← hfirst.scopes] at hvars
  obtain ⟨code', hthen, hacts'⟩ := hf u₁ s₁ u s' hvars hf₁
  exact ⟨code ++ code', hfirst.trans hthen, h.append hacts hacts'⟩

/-- An action that writes the same code everywhere. -/
theorem of_emitting (hm : ∀ place, Emitting [] place code m) (hcode : Does code effect) :
    Driving Does env vars effect m := by
  intro s u s' _ hrun
  exact ⟨code, hm s.scopes.place s u s' (.self (List.forall_mem_nil _)) hrun, hcode⟩

end Driving

/-- The lines that are written to recall a variable. -/
theorem emits_recallName {s s' : Emitter} {u : Unit}
    (hrun : (recallName labels id).run s = .ok (u, s')) :
    ∃ register, s.scopes.getRegister id.name = .ok register ∧
      Emits (s.scopes.recallCode id.name register) s s' := by
  unfold recallName at hrun
  split at hrun
  · cases hrun
  · obtain ⟨register, s₁, hregister, hrest⟩ := run_bind.mp hrun
    obtain ⟨hget, rfl⟩ := run_registerOf_eq_ok.mp hregister
    have hplaces : Places [] s.scopes.place s.scopes := .self (List.forall_mem_nil _)
    obtain ⟨u₁, s₂, hline, hcounter⟩ := run_bind.mp hrest
    have hrecall := Emitting.line _ s u₁ s₂ hplaces hline
    rw [run_get_bind, hrecall.scopes] at hcounter
    refine ⟨register, hget, ?_⟩
    rw [Scopes.recallCode]
    cases hindex : s.scopes.isRangeIndex id.name with
    | true =>
      -- the register of a loop counter also holds its bound
      rw [hindex] at hcounter
      exact hrecall.trans (Emitting.op _ s₂ u s' (hrecall.scopes ▸ hplaces) hcounter)
    | false =>
      rw [hindex] at hcounter
      cases hcounter
      exact hrecall

theorem driving_recallName (hname : id.name ∈ vars) :
    Driving Does env vars (fun levels => some (levels.push (env id.name)))
      (recallName labels id) := by
  intro s u s' hvars hrun
  obtain ⟨register, hget, hemits⟩ := emits_recallName hrun
  exact ⟨_, hemits, hvars id.name hname register hget⟩

/-- What further operands and comparisons are joined with. -/
theorem Driving.truthOp (h : Effects A Does) (op : BoolOp) {m : Emit Unit}
    (hm : Driving Does env vars effect m) :
    Driving Does env vars (fun levels => (op.onLevels A levels).bind effect) (do
      call .truthPair
      Emit.op op.op
      m) := by
  have hboth := Driving.bind h
    (.of_emitting (fun _ => .bind (.call _) fun _ => .op _) (h.truthOp op)) fun _ => hm
  exact hboth

theorem driving_booleans (h : Effects A Does) (op : BoolOp) {others : List Expr}
    (hothers : ∀ e ∈ others, Driving Does env vars (e.onLevels A env) (expr labels e)) :
    Driving Does env vars (Expr.booleansOnLevels A env op others) (booleans labels op others) := by
  induction others with
  | nil =>
    exact .pure h _
  | cons e others ih =>
    rw [List.forall_mem_cons] at hothers
    exact .bind h hothers.1 fun _ => .truthOp h op (ih hothers.2)

theorem driving_compareChain (h : Effects A Does) {comparisons : List (CompareOp × Expr)}
    (hoperators : ∀ c ∈ comparisons, c.1.routine?.isSome = true)
    (hcomparisons : ∀ c ∈ comparisons, Driving Does env vars (c.2.onLevels A env) (expr labels c.2))
    (isFirst : Bool) {previous : Emit Unit} (hprevious : Driving Does env vars effect previous) :
    Driving Does env vars (Expr.chainOnLevels A env isFirst effect comparisons)
      (compareChain labels isFirst previous comparisons) := by
  induction comparisons generalizing isFirst previous effect with
  | nil =>
    exact .pure h _
  | cons comparison comparisons ih =>
    obtain ⟨operator, right⟩ := comparison
    rw [List.forall_mem_cons] at hcomparisons hoperators
    obtain ⟨routine, hroutine⟩ := Option.isSome_iff_exists.mp hoperators.1
    -- the right operand is computed again, as the left one of the next comparison
    have hrest := ih hoperators.2 hcomparisons.2 false hcomparisons.1
    have hcompare : Driving Does env vars (operator.onLevels A) (call routine) :=
      .of_emitting (fun _ => .call _) (h.comparison (Routine.comparison?_of_routine? hroutine))
    rw [compareChain, hroutine]
    refine .bind h hprevious fun _ => .bind h hcomparisons.1 fun _ => .bind h hcompare fun _ => ?_
    cases isFirst with
    | true => exact hrest
    | false => exact .truthOp h .and hrest

theorem driving_expr (h : Effects A Does) {e : Expr} (hscalar : e.Scalar vars) :
    Driving Does env vars (e.onLevels A env) (expr labels e) := by
  induction hscalar with
  | int | none =>
    exact .of_emitting (fun _ => .line _) (h.int _)
  | float =>
    exact .of_emitting (fun _ => .line _) (h.decimal _)
  | @bool _ b =>
    cases b with
    | true => exact .of_emitting (fun _ => .line _) (h.int 1)
    | false => exact .of_emitting (fun _ => .line _) (h.int 0)
  | name hname =>
    exact driving_recallName hname
  | binary hops _ _ ihleft ihright =>
    rw [expr, hops]
    exact .bind h ihleft fun _ => .bind h ihright fun _ =>
      .of_emitting (fun _ => .lines _) (h.binaryOps hops)
  | boolean _ _ _ ihfirst ihothers =>
    exact .bind h ihfirst fun _ => driving_booleans h _ ihothers
  | not _ ih =>
    exact .bind h ih fun _ => .of_emitting (fun _ => .bind (.call _) fun _ => .call _) h.not
  | negate _ ih | invert _ ih =>
    exact .bind h ih fun _ => .of_emitting (fun _ => .op _) (h.unary rfl)
  | compare _ hoperators _ _ ihleft ih =>
    exact driving_compareChain h hoperators ih true ihleft

end Emit

/-! ### The machine with four levels -/

theorem Arithmetic.Acts.effects : Effects A (A.Acts (pending + 2) registers) where
  nil := .nil
  append := .append
  int _ := .single rfl fun _ _ => rfl
  decimal _ := .single rfl fun _ _ => rfl
  unary := .unary
  binary := .binary
  comparison := .comparison
  truth := .truth
  negation := .negation
  truthPair := .truthPair

/-- Variables have the values `env` when the registers hold `registers`. Of a loop counter only the
whole part is the value. -/
def Represents {V : Type} (A : Arithmetic V) (vars : List String) (scopes : Scopes)
    (registers : Register → V) (env : Env V) : Prop :=
  ∀ name ∈ vars, ∀ register, scopes.getRegister name = .ok register →
    (if scopes.isRangeIndex name then A.unary .integerPart (registers register)
      else some (registers register)) = some (env name)

/-- The lines that recall a variable enter its value. -/
theorem Arithmetic.Acts.recallCode {vars : List String} {scopes : Scopes} {env : Env V}
    {name : String} {register : Register} (hvars : Represents A vars scopes registers env)
    (hname : name ∈ vars) (hget : scopes.getRegister name = .ok register) :
    A.Acts pending registers (scopes.recallCode name register) fun levels =>
      some (levels.push (env name)) := by
  have hvalue := hvars name hname register hget
  have hrecall : A.Acts pending registers [.recallValue register] fun levels =>
      some (levels.push (registers register)) := .single rfl fun _ _ => rfl
  rw [Scopes.recallCode]
  cases hindex : scopes.isRangeIndex name with
  | true =>
    rw [hindex, if_pos rfl] at hvalue
    refine .congr (hrecall.append (.unary rfl)) fun levels => ?_
    show (A.unary .integerPart (registers register)).map _ = _
    rw [hvalue]
    rfl
  | false =>
    rw [hindex] at hvalue
    refine .congr hrecall fun levels => ?_
    rw [Option.some.inj hvalue]

end Keystroke
