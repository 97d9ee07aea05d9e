import Keystroke.Proofs.ScalarMeaning

/-!
# The code of scalar expressions

The code of a scalar expression is a function of the expression and of the registers of its
variables. Executed, it pushes the value of the expression, and it fails where the expression has no
value. The same holds of the statements without control flow.
-/

namespace Keystroke

open Python (BinaryOp BoolOp CompareOp)
open Arithmetic (Store)
open Arithmetic Function

/-! ### Code -/

namespace Script

variable (place : String → Register)

mutual

/-- The code of a scalar expression, for the registers of its variables. -/
def Expr.code : Expr → List Instr
  | .int _ n => [.int n]
  | .float _ spelling => [.decimal spelling]
  | .bool _ b => [.int (if b then 1 else 0)]
  | .none _ => [.int 0]
  | .name id => [.recallValue (place id.name)]
  | .binary _ left op right => code left ++ (code right ++ (op.ops?.getD []).map .op)
  | .boolean _ op first others => code first ++ booleansCode op others
  | .not _ operand => code operand ++ [Routine.call .truth, Routine.call .negation]
  | .negate _ operand => code operand ++ [.op .negate]
  | .invert _ operand => code operand ++ [.op .not]
  | .compare _ left comparisons => chainCode true (code left) comparisons
  | _ => []

/-- The code of the further operands of a truth operator. -/
def Expr.booleansCode (op : BoolOp) : List Expr → List Instr
  | [] => []
  | e :: rest => code e ++ (Routine.call .truthPair :: .op op.op :: booleansCode op rest)

def Expr.chainCode (isFirst : Bool) (previous : List Instr) : List (CompareOp × Expr) → List Instr
  | [] => []
  | (operator, right) :: rest =>
    previous ++ (code right ++ ((operator.routine?.map Routine.call).toList ++
      ((if isFirst then [] else [Routine.call .truthPair, .op .and]) ++
        chainCode false (code right) rest)))

end

/-- The code of a statement without control flow. -/
def Stmt.code? : Stmt → Option (List Instr)
  | .pass _ => some []
  | .expression _ e => some (e.code place)
  | .assign _ target others e =>
    some (e.code place ++ ((target :: others).filterMap Expr.name?).map (.store <| place ·))
  | .augmented _ (.name id) op e =>
    match op.storeOp? with
    | some o => some (e.code place ++ [.memory o (.register (place id.name))])
    | none => some (.recallValue (place id.name) :: (e.code place ++ ((op.ops?.getD []).map .op ++
        [.store (place id.name)])))
  | _ => none

end Script

/-! ### Operators -/

section

variable {V : Type} {A : Arithmetic V} {st : List V} {registers : Register → V}

/-- The instructions of an operator compute it. -/
theorem Python.BinaryOp.exec_ops {op : BinaryOp} {ops : List Op} (h : op.ops? = some ops) (a b : V)
    (rest : List Instr) :
    A.exec (ops.map .op ++ rest) ⟨b :: a :: st, registers⟩ =
      (op.compute A a b).bind fun v => A.exec rest ⟨v :: st, registers⟩ := by
  cases op
  case floorDiv =>
    cases h
    show A.exec (.op .div :: .op .integerPart :: rest) _ =
      ((A.binary .div a b).bind (A.unary .integerPart)).bind _
    rw [exec_binary rfl, Option.bind_assoc]
    exact congrArg _ (funext fun v => exec_unary rfl v rest)
  case shiftLeft | shiftRight => cases h
  all_goals
    cases h
    exact exec_binary rfl b a rest

/-- The instruction that combines a register with X computes the operator. -/
theorem Python.BinaryOp.exec_storeOp {op : BinaryOp} {o : MemoryOp} (h : op.storeOp? = some o)
    (register : Register) (x : V) :
    A.exec [.memory o (.register register)] ⟨x :: st, registers⟩ =
      (op.compute A (registers register) x).map fun v =>
        ⟨x :: st, update registers register v⟩ := by
  have hexec : ∀ operation, o.combination? = some operation →
      A.exec [.memory o (.register register)] ⟨x :: st, registers⟩ =
        (A.binary operation (registers register) x).map fun v =>
          ⟨x :: st, update registers register v⟩ := by
    intro operation hoperation
    cases o <;> cases hoperation <;>
      exact (Option.bind_fun_some _).trans (Option.map_eq_bind ..).symm
  cases op
  case add | sub | mul | div =>
    cases h
    exact hexec _ rfl
  all_goals cases h

/-- A truth operator combines one more operand with the value so far. -/
theorem Python.BoolOp.combine_cons_cons (op : BoolOp) (b c : Bool) (rest : List Bool) :
    op.combine (b :: c :: rest) = op.combine (op.combine [b, c] :: rest) := by
  cases op <;> simp [combine, Bool.and_assoc, Bool.or_assoc]

/-- Truth values are combined by the instruction of their operator. -/
theorem Python.BoolOp.binary_bit (op : BoolOp) (b c : Bool) :
    A.binary op.op (A.bit b) (A.bit c) = some (A.bit (op.combine [b, c])) := by
  cases op with
  | and => simpa [op, combine, bit] using A.and_ofNat b c
  | or => simpa [op, combine, bit] using A.or_ofNat b c

/-- A further operand is combined with the value so far. -/
theorem Python.BoolOp.exec_op (op : BoolOp) (v w : V) (rest : List Instr) :
    A.exec (Routine.call .truthPair :: .op op.op :: rest) ⟨w :: v :: st, registers⟩ =
      (A.truth v).bind fun b => (A.truth w).bind fun c =>
        A.exec rest ⟨A.bit (op.combine [b, c]) :: st, registers⟩ := by
  have hbinary : op.op.isBinary = true := by cases op <;> rfl
  rw [exec_call]
  show ((A.truth w).bind fun b => (A.truth v).map _).bind _ = _
  cases A.truth w with
  | none => cases A.truth v <;> rfl
  | some c =>
    cases A.truth v with
    | none => rfl
    | some b =>
      show A.exec (.op op.op :: rest) ⟨A.bit c :: A.bit b :: st, registers⟩ = _
      rw [exec_binary hbinary, binary_bit]
      rfl

/-- Code pushes a value, and fails if there is none. -/
abbrev Arithmetic.Pushes (A : Arithmetic V) (registers : Register → V) (code : List Instr)
    (v? : Option V) : Prop :=
  ∀ st k, A.exec (code ++ k) ⟨st, registers⟩ = v?.bind fun v => A.exec k ⟨v :: st, registers⟩

/-- A comparison of two values, whose code is given. -/
theorem Python.CompareOp.exec_routine {operator : CompareOp} (h : operator.routine?.isSome = true)
    {previous right : List Instr} {v : V} {w? : Option V}
    (hprevious : A.Pushes registers previous (some v)) (hright : A.Pushes registers right w?)
    (st : List V) (k : List Instr) :
    A.exec (previous ++ (right ++ ((operator.routine?.map Routine.call).toList ++ k)))
        ⟨st, registers⟩ =
      w?.bind fun w => (A.compare operator v w).bind fun b =>
        A.exec k ⟨A.bit b :: st, registers⟩ := by
  obtain ⟨routine, hroutine⟩ := Option.isSome_iff_exists.mp h
  rw [hprevious, Option.bind_some, hright, hroutine]
  refine congrArg _ (funext fun w => ?_)
  show A.exec (Routine.call routine :: k) _ = _
  rw [exec_call, A.call_comparison (Routine.comparison?_of_routine? hroutine),
    Option.bind_map]
  rfl

end

/-! ### Expressions -/

namespace Script

variable {V : Type} {A : Arithmetic V} {place : String → Register} {vars : List String}
  {st : List V} {registers : Register → V}

/-- The code of further operands combines their truth values with the one before. -/
theorem Expr.exec_booleansCode (op : BoolOp) {others : List Expr}
    (h : ∀ e ∈ others, A.Pushes registers (e.code place) (e.value A (registers ∘ place))) (v : V)
    (hv : others = [] → ∃ b, v = A.bit b) (st : List V) (k : List Instr) :
    A.exec (Expr.booleansCode place op others ++ k) ⟨v :: st, registers⟩ =
      (A.truth v).bind fun b => (Expr.truths A (registers ∘ place) others).bind fun bs =>
        A.exec k ⟨A.bit (op.combine (b :: bs)) :: st, registers⟩ := by
  induction others generalizing v with
  | nil =>
    obtain ⟨b, rfl⟩ := hv rfl
    rw [booleansCode, truths, A.truth_bit]
    cases op <;> simp [BoolOp.combine]
  | cons e others ih =>
    rw [List.forall_mem_cons] at h
    rw [booleansCode, truths, List.append_assoc, h.1]
    cases e.value A (registers ∘ place) with
    | none => cases A.truth v <;> rfl
    | some w =>
      show A.exec
        (Routine.call .truthPair :: .op op.op :: (booleansCode place op others ++ k)) _ = _
      rw [BoolOp.exec_op]
      cases A.truth v with
      | none => rfl
      | some b =>
        show (A.truth w).bind _ = ((A.truth w).bind _).bind _
        cases A.truth w with
        | none => rfl
        | some c =>
          show A.exec (booleansCode place op others ++ k) _ = _
          rw [ih h.2 _ (fun _ => ⟨_, rfl⟩), A.truth_bit]
          cases truths A (registers ∘ place) others with
          | none => rfl
          | some bs =>
            show A.exec k _ = A.exec k _
            rw [BoolOp.combine_cons_cons op b c bs]

/-- The code of a chain of comparisons tells whether all of them hold, and those before it, if
any. -/
theorem Expr.exec_chainCode {comparisons : List (CompareOp × Expr)}
    (hoperators : ∀ c ∈ comparisons, c.1.routine?.isSome = true)
    (h : ∀ c ∈ comparisons, A.Pushes registers (c.2.code place) (c.2.value A (registers ∘ place)))
    {v : V} {previous : List Instr} (hprevious : A.Pushes registers previous (some v))
    (before : Option Bool) (hbefore : comparisons = [] → before.isSome = true) (st : List V)
    (k : List Instr) :
    A.exec (Expr.chainCode place before.isNone previous comparisons ++ k)
        ⟨before.toList.map A.bit ++ st, registers⟩ =
      (Expr.chain A (registers ∘ place) v comparisons).bind fun c =>
        A.exec k ⟨A.bit (before.getD true && c) :: st, registers⟩ := by
  induction comparisons generalizing v previous before with
  | nil =>
    obtain ⟨b, rfl⟩ := Option.isSome_iff_exists.mp (hbefore rfl)
    rw [chainCode, chain]
    simp
  | cons comparison comparisons ih =>
    obtain ⟨operator, right⟩ := comparison
    rw [List.forall_mem_cons] at h hoperators
    rw [chainCode, chain]
    simp only [List.append_assoc]
    rw [CompareOp.exec_routine hoperators.1 hprevious h.1]
    cases hw : right.value A (registers ∘ place) with
    | none => rfl
    | some w =>
      have hnext : A.Pushes registers (right.code place) (some w) := hw ▸ h.1
      show (A.compare operator v w).bind _ = ((A.compare operator v w).bind _).bind _
      cases A.compare operator v w with
      | none => rfl
      | some c =>
        -- the outcome joins that of the comparisons before
        have hjoin : ∀ k, A.exec ((if before.isNone then [] else [Routine.call .truthPair,
            .op BoolOp.and.op]) ++ k) ⟨A.bit c :: (before.toList.map A.bit ++ st), registers⟩ =
              A.exec k ⟨A.bit (before.getD true && c) :: st, registers⟩ := by
          intro k
          cases before with
          | none => rfl
          | some b =>
            show A.exec (Routine.call .truthPair :: .op BoolOp.and.op :: k) _ = _
            rw [Option.toList, List.map_singleton, List.singleton_append, BoolOp.exec_op,
              A.truth_bit, A.truth_bit]
            simp [BoolOp.combine]
        have hrest := ih hoperators.2 h.2 hnext (some (before.getD true && c)) (fun _ => rfl)
        refine (hjoin _).trans (hrest.trans ?_)
        simp [Option.bind_assoc, Bool.and_assoc]

theorem Expr.Scalar.pushes {e : Expr} (h : e.Scalar vars) :
    A.Pushes registers (e.code place) (e.value A (registers ∘ place)) := by
  induction h with
  | int | float | none | name =>
    intro st k
    rfl
  | @bool _ b =>
    intro st k
    cases b <;> rfl
  | @binary _ left right _ ops hops _ _ ihleft ihright =>
    intro st k
    rw [code, value, List.append_assoc, ihleft, hops]
    cases left.value A (registers ∘ place) with
    | none => rfl
    | some a =>
      rw [Option.bind_some, List.append_assoc, ihright]
      cases right.value A (registers ∘ place) with
      | none => rfl
      | some b => exact BinaryOp.exec_ops hops a b k
  | @boolean _ op first others hsome _ _ ihfirst ihothers =>
    intro st k
    rw [code, value, List.append_assoc, ihfirst]
    cases first.value A (registers ∘ place) with
    | none => rfl
    | some v =>
      rw [Option.bind_some, exec_booleansCode op ihothers v (absurd · hsome)]
      simp only [Option.bind_eq_bind, Option.bind_assoc, Option.bind_some]
  | @not _ operand _ ih =>
    intro st k
    rw [code, value, List.append_assoc, ih]
    cases operand.value A (registers ∘ place) with
    | none => rfl
    | some v =>
      -- the value becomes a truth value first, which is then negated
      show A.exec (Routine.call .truth :: Routine.call .negation :: k) _ = _
      rw [Arithmetic.exec_call]
      show ((A.truth v).map _).bind _ = ((A.truth v).bind _).bind _
      cases A.truth v with
      | none => rfl
      | some b =>
        show A.exec (Routine.call .negation :: k) ⟨A.bit b :: st, registers⟩ = _
        rw [Arithmetic.exec_call]
        show ((A.truth (A.bit b)).map _).bind _ = _
        rw [A.truth_bit]
        rfl
  | negate _ ih | invert _ ih =>
    intro st k
    rw [code, value, List.append_assoc, ih, Option.bind_assoc]
    exact congrArg _ (funext fun v => Arithmetic.exec_unary rfl v k)
  | @compare _ left comparisons hsome hoperators _ _ ihleft ih =>
    intro st k
    rw [code, value]
    cases hv : left.value A (registers ∘ place) with
    | none =>
      obtain ⟨⟨operator, right⟩, rest, rfl⟩ := List.exists_cons_of_ne_nil hsome
      rw [chainCode, List.append_assoc, ihleft, hv]
      rfl
    | some v =>
      have hchain := exec_chainCode hoperators ih (hv ▸ ihleft) Option.none (absurd · hsome) st k
      refine hchain.trans ?_
      simp [Option.bind_assoc]

theorem Expr.exec_code {e : Expr} (h : e.isScalar vars = true) :
    A.exec (e.code place) ⟨st, registers⟩ =
      (e.value A (registers ∘ place)).map fun v => ⟨v :: st, registers⟩ := by
  have hexec : A.exec (e.code place ++ []) ⟨st, registers⟩ =
      (e.value A (registers ∘ place)).bind fun v => some ⟨v :: st, registers⟩ :=
    (e.scalar h).pushes st []
  rwa [List.append_nil, ← comp_def, ← Option.map_eq_bind] at hexec

-- `0 < n <= 9`, with three in the register of `n`
example : (Arithmetic.integers.exec ((Expr.compare {} (.int {} 0)
    [(.lt, .name ⟨{}, "n"⟩), (.le, .int {} 9)]).code fun _ => .numbered 0) ⟨[], fun _ => 3⟩).map
      (·.stack) = some [1] := by
  decide

/-! ### Statements -/

/-- The registers of variables, after one of them is stored to. -/
theorem update_comp_place (hplace : Injective place) (registers : Register → V)
    (name : String) (v : V) :
    update registers (place name) v ∘ place =
      update (registers ∘ place) name v :=
  update_comp_eq_of_injective registers hplace name v

/-- Stores to variables in turn assign to each of them. -/
theorem exec_stores (hplace : Injective place) (v : V) (names : List String)
    (registers : Register → V) :
    (A.exec (names.map fun name => .store (place name)) ⟨v :: st, registers⟩).map
        (·.registers ∘ place) = some (assignAll (registers ∘ place) v names) := by
  induction names generalizing registers with
  | nil => rfl
  | cons name rest ih =>
    show (A.exec (rest.map _) ⟨v :: st, update registers (place name) v⟩).map _ = _
    rw [ih, update_comp_place hplace]
    rfl

/-- The code of a statement without control flow does to the registers of variables what the
statement does to the variables, and fails where the statement does. -/
theorem Stmt.exec_code? (hplace : Injective place) {s : Stmt} {code : List Instr}
    (hscalar : s.isScalar vars = true) (hcode : s.code? place = some code) :
    (A.exec code ⟨st, registers⟩).map (·.registers ∘ place) = s.effect A (registers ∘ place) := by
  cases s with
  | pass start =>
    cases hcode
    rfl
  | expression start e =>
    cases hcode
    rw [Expr.exec_code hscalar, Option.map_map]
    rfl
  | assign start target others e =>
    cases hcode
    rw [Stmt.isScalar, Bool.and_eq_true] at hscalar
    rw [(e.scalar hscalar.2).pushes]
    show _ = (e.value A _).map _
    cases e.value A (registers ∘ place) with
    | none => rfl
    | some v => exact exec_stores hplace v _ registers
  | augmented start target op e =>
    cases target
    case name id =>
      rw [Stmt.isScalar, Bool.and_eq_true, Bool.and_eq_true] at hscalar
      obtain ⟨⟨hop, -⟩, he⟩ := hscalar
      rw [Stmt.code?] at hcode
      show _ = (e.value A _).bind _
      cases hstore : op.storeOp? with
      | some o =>
        rw [hstore] at hcode
        cases hcode
        rw [(e.scalar he).pushes]
        cases e.value A (registers ∘ place) with
        | none => rfl
        | some v =>
          show (A.exec [.memory o (.register (place id.name))] ⟨v :: st, registers⟩).map _ = _
          rw [BinaryOp.exec_storeOp hstore, Option.map_map]
          show _ = (op.compute A (registers (place id.name)) v).bind _
          cases op.compute A (registers (place id.name)) v with
          | none => rfl
          | some w => exact congrArg some (update_comp_place hplace registers id.name w)
      | none =>
        obtain ⟨ops, hops⟩ := Option.isSome_iff_exists.mp hop
        rw [hstore, hops] at hcode
        cases hcode
        show (A.exec (e.code place ++ _) ⟨registers (place id.name) :: st, registers⟩).map _ = _
        rw [(e.scalar he).pushes]
        cases e.value A (registers ∘ place) with
        | none => rfl
        | some v =>
          show (A.exec (ops.map .op ++ [.store (place id.name)])
            ⟨v :: registers (place id.name) :: st, registers⟩).map _ = _
          rw [BinaryOp.exec_ops hops]
          show _ = (op.compute A (registers (place id.name)) v).bind _
          cases op.compute A (registers (place id.name)) v with
          | none => rfl
          | some w => exact congrArg some (update_comp_place hplace registers id.name w)
    all_goals cases hcode
  | _ => cases hcode

end Script

/-! ### What code can change -/

/-- Whether the machine goes on with the next line after an instruction, and the instruction changes
no register but those given. -/
def Instr.staysWithin (places : List Register) : Instr → Bool
  | .int _ | .decimal _ | .xeq _ => true
  | .op o => !o.isControl
  | .memory .recallValue _ => true
  | .memory _ (.register register) => places.contains register
  | _ => false

theorem Instr.goesOn_of_staysWithin {places : List Register} {instr : Instr}
    (h : instr.staysWithin places = true) : instr.goesOn = true := by
  cases instr with
  | gto n => cases h
  | lbl label => cases h
  | op o =>
    cases o
    case isZero | isNonzero | returns => cases h
    all_goals rfl
  | _ => rfl

theorem Instr.registers_of_staysWithin {V : Type} {A : Arithmetic V} {places : List Register}
    {instr : Instr} {store store' : Store V} {register : Register}
    (h : instr.staysWithin places = true) (happly : A.apply instr store = some store')
    (hregister : register ∉ places) : store'.registers register = store.registers register := by
  -- every change of a register is an update of one among the places
  have hupdate : ∀ (target : Register) (v : V), places.contains target = true →
      update store.registers target v register = store.registers register := by
    intro target v htarget
    refine update_of_ne ?_ _ _
    rintro rfl
    exact hregister (by simpa using htarget)
  cases instr with
  | int n | decimal spelling =>
    cases happly
    rfl
  | op o =>
    obtain ⟨stack, -, rfl⟩ := Option.map_eq_some_iff.mp happly
    rfl
  | xeq label =>
    obtain ⟨routine, -, happly⟩ := Option.bind_eq_some_iff.mp happly
    obtain ⟨stack, -, happly⟩ := Option.bind_eq_some_iff.mp happly
    cases happly
    rfl
  | memory o operand =>
    cases operand with
    | register target =>
      cases o
      case recallValue =>
        cases happly
        rfl
      case store =>
        obtain ⟨x, -, rfl⟩ := Option.map_eq_some_iff.mp happly
        exact hupdate target x h
      case storeAdd | storeSub | storeMul | storeDiv =>
        obtain ⟨x, -, happly⟩ := Option.bind_eq_some_iff.mp happly
        obtain ⟨v, -, happly⟩ := Option.bind_eq_some_iff.mp happly
        cases happly
        exact hupdate target v h
      all_goals cases happly
    | _ => cases o <;> cases happly
  | _ => cases h

theorem Arithmetic.registers_of_exec {V : Type} {A : Arithmetic V} {places : List Register}
    {code : List Instr} {store store' : Store V} {register : Register}
    (h : ∀ instr ∈ code, instr.staysWithin places = true) (hexec : A.exec code store = some store')
    (hregister : register ∉ places) : store'.registers register = store.registers register := by
  induction code generalizing store with
  | nil =>
    cases hexec
    rfl
  | cons instr rest ih =>
    obtain ⟨hinstr, hrest⟩ := List.forall_mem_cons.mp h
    obtain ⟨middle, happly, hexec⟩ := Option.bind_eq_some_iff.mp hexec
    rw [ih hrest hexec, Instr.registers_of_staysWithin hinstr happly hregister]

namespace Script

variable {place : String → Register} {vars : List String}

theorem staysWithin_ops {op : BinaryOp} {places : List Register} :
    ∀ instr ∈ (op.ops?.getD []).map Instr.op, instr.staysWithin places = true := by
  have hops : ∀ o ∈ op.ops?.getD [], o.isControl = false := by cases op <;> decide
  simpa [Instr.staysWithin] using hops

mutual

theorem Expr.staysWithin_code {places : List Register} :
    (e : Expr) → ∀ instr ∈ e.code place, instr.staysWithin places = true
  | .int _ _ | .float _ _ | .bool _ _ | .none _ | .name _ => by
    exact List.forall_mem_singleton.mpr rfl
  | .binary _ left op right => by
    exact List.forall_mem_append.mpr ⟨staysWithin_code left,
      List.forall_mem_append.mpr ⟨staysWithin_code right, staysWithin_ops⟩⟩
  | .boolean _ op first others => by
    exact List.forall_mem_append.mpr ⟨staysWithin_code first, staysWithin_booleansCode op others⟩
  | .not _ operand => by
    exact List.forall_mem_append.mpr
      ⟨staysWithin_code operand, by simp [Routine.call, Instr.staysWithin]⟩
  | .negate _ operand | .invert _ operand => by
    exact List.forall_mem_append.mpr ⟨staysWithin_code operand, List.forall_mem_singleton.mpr rfl⟩
  | .compare _ left comparisons => by
    exact staysWithin_chainCode true (staysWithin_code left) comparisons
  | .string _ _ | .call _ _ _ | .method _ _ _ _ | .subscript _ _ _ | .slice _ _ _ | .tuple _ _
  | .list _ _ | .dict _ _ => by
    rw [code] <;> simp

theorem Expr.staysWithin_booleansCode {places : List Register} (op : BoolOp) :
    (others : List Expr) → ∀ instr ∈ booleansCode place op others, instr.staysWithin places = true
  | [] => by
    exact List.forall_mem_nil _
  | e :: others => by
    refine List.forall_mem_append.mpr ⟨staysWithin_code e, List.forall_mem_cons.mpr ⟨rfl,
      List.forall_mem_cons.mpr ⟨?_, staysWithin_booleansCode op others⟩⟩⟩
    cases op <;> rfl

theorem Expr.staysWithin_chainCode {places : List Register} (isFirst : Bool)
    {previous : List Instr} (hprevious : ∀ instr ∈ previous, instr.staysWithin places = true) :
    (comparisons : List (CompareOp × Expr)) →
      ∀ instr ∈ chainCode place isFirst previous comparisons, instr.staysWithin places = true
  | [] => by
    exact List.forall_mem_nil _
  | (operator, right) :: comparisons => by
    refine List.forall_mem_append.mpr
      ⟨hprevious, List.forall_mem_append.mpr ⟨staysWithin_code right,
      List.forall_mem_append.mpr ⟨?_, List.forall_mem_append.mpr ⟨?_,
        staysWithin_chainCode false (staysWithin_code right) comparisons⟩⟩⟩⟩
    · cases operator <;> simp [CompareOp.routine?, Routine.call, Instr.staysWithin]
    · cases isFirst <;> simp [Routine.call, Instr.staysWithin, Op.isControl]

end

theorem Expr.goesOn_code (e : Expr) : ∀ instr ∈ e.code place, instr.goesOn = true := by
  intro instr hinstr
  have hstays : instr.staysWithin [] = true := e.staysWithin_code instr hinstr
  exact Instr.goesOn_of_staysWithin hstays

/-- The code of a statement without control flow changes the registers of its variables only. -/
theorem Stmt.staysWithin_code? {s : Stmt} {code : List Instr} (hscalar : s.isScalar vars = true)
    (hcode : s.code? place = some code) :
    ∀ instr ∈ code, instr.staysWithin (vars.map place) = true := by
  cases s with
  | pass start =>
    cases hcode
    exact List.forall_mem_nil _
  | expression start e =>
    cases hcode
    exact e.staysWithin_code
  | assign start target others e =>
    cases hcode
    rw [Stmt.isScalar, Bool.and_eq_true] at hscalar
    refine List.forall_mem_append.mpr ⟨e.staysWithin_code, fun instr hinstr => ?_⟩
    obtain ⟨name, hname, rfl⟩ := List.mem_map.mp hinstr
    obtain ⟨e', he', hname⟩ := List.mem_filterMap.mp hname
    have hvar := List.all_eq_true.mp hscalar.1 e' he'
    rw [Expr.isVariable, hname] at hvar
    have hmem : name ∈ vars := by simpa using hvar
    simpa [Instr.store, Instr.staysWithin] using ⟨name, hmem, rfl⟩
  | augmented start target op e =>
    cases target
    case name id =>
      rw [Stmt.isScalar, Bool.and_eq_true, Bool.and_eq_true] at hscalar
      have hmem : id.name ∈ vars := by simpa [Expr.isVariable, Expr.name?] using hscalar.1.2
      have hplace : (vars.map place).contains (place id.name) = true := by
        simpa using ⟨id.name, hmem, rfl⟩
      rw [Stmt.code?] at hcode
      cases hstore : op.storeOp? with
      | some o =>
        rw [hstore] at hcode
        cases hcode
        refine List.forall_mem_append.mpr ⟨e.staysWithin_code, List.forall_mem_singleton.mpr ?_⟩
        cases op <;> cases hstore <;> exact hplace
      | none =>
        rw [hstore] at hcode
        cases hcode
        exact List.forall_mem_cons.mpr ⟨rfl, List.forall_mem_append.mpr ⟨e.staysWithin_code,
          List.forall_mem_append.mpr ⟨staysWithin_ops, List.forall_mem_singleton.mpr hplace⟩⟩⟩
    all_goals cases hcode
  | _ => cases hcode

end Script

end Keystroke
