import Keystroke.Proofs.CounterRecords
import Keystroke.Proofs.ScalarSimulation

/-!
# Writing scalar code

The code that is written for scalar expressions and for assignments is the code that they have by
`Script.Expr.code` and `Script.Stmt.code?`, once the registers of all variables are known.
-/

namespace Keystroke

variable {listing : Listing} {s s' : Emitter}

open Script (Expr Ident Stmt)
open Python (BinaryOp BoolOp CompareOp)

/-! ### Written code -/

/-- Whether the last line is a text, after some code. -/
def endsWithText (code : List Instr) (before : Bool) : Bool :=
  code.foldl (fun _ instr => instr.kind == .string) before

theorem endsWithText_eq_false {code : List Instr} {places : List Register} (hne : code ≠ [])
    (h : ∀ instr ∈ code, instr.staysWithin places = true) (before : Bool) :
    endsWithText code before = false := by
  rcases List.eq_nil_or_concat' code with rfl | ⟨code, instr, rfl⟩
  · exact absurd rfl hne
  · have hinstr := h instr (by simp)
    rw [endsWithText, List.foldl_append]
    cases instr with
    | alpha text => cases hinstr
    | alphaAppend text => cases hinstr
    | _ => rfl

theorem Listing.lastIsString_emitAll {instrs : List Instr} {kind : LineKind}
    (h : ∀ instr ∈ instrs, instr.kind = kind) :
    (listing.emitAll instrs kind).lastIsString = endsWithText instrs listing.lastIsString := by
  induction instrs generalizing listing with
  | nil => rfl
  | cons instr rest ih =>
    rw [List.forall_mem_cons] at h
    show ((listing.emit instr none kind).emitAll rest kind).lastIsString = _
    rw [ih h.2, lastIsString_emit, ← h.1]
    rfl

/-- Code has been written between two states, and only the supply of labels may have changed
besides. -/
structure Emits (code : List Instr) (s s' : Emitter) : Prop where
  instrs : s'.listing.instrs = s.listing.instrs ++ code
  scopes : s'.scopes = s.scopes
  loops : s'.loops = s.loops
  lastIsString : s'.listing.lastIsString = endsWithText code s.listing.lastIsString

namespace Emits

variable {code code' : List Instr} {s s₁ s' : Emitter}

theorem refl (s : Emitter) : Emits [] s s :=
  ⟨(List.append_nil _).symm, rfl, rfl, rfl⟩

theorem trans (h : Emits code s s₁) (h' : Emits code' s₁ s') : Emits (code ++ code') s s' where
  instrs := by rw [h'.instrs, h.instrs, List.append_assoc]
  scopes := h'.scopes.trans h.scopes
  loops := h'.loops.trans h.loops
  lastIsString := by rw [h'.lastIsString, h.lastIsString, endsWithText, endsWithText, endsWithText,
    List.foldl_append]

theorem of_emit {instr : Instr} {comment : Option String} (s : Emitter) (jumps : LabelSupply) :
    Emits [instr] s { s with listing := s.listing.emit instr comment instr.kind, jumps } where
  instrs := Listing.instrs_emit
  scopes := rfl
  loops := rfl
  lastIsString := Listing.lastIsString_emit

theorem length_eq (h : Emits code s s') :
    s'.listing.instrs.length = s.listing.instrs.length + code.length := by
  rw [h.instrs, List.length_append]

end Emits

/-- Some names are scalars, and those that are bound have the registers given by `place`. -/
structure Places (vars : List String) (place : String → Register) (scopes : Scopes) : Prop where
  scalar : ∀ name ∈ vars, scopes.IsScalar name
  place : ∀ name ∈ vars, ∀ register, scopes.lookup name = some register → place name = register

namespace Places

variable {vars : List String} {place : String → Register} {scopes scopes' : Scopes}

/-- There are registers for any scalars. -/
theorem self (h : ∀ name ∈ vars, scopes.IsScalar name) : Places vars scopes.place scopes := by
  refine ⟨h, fun name hname register hlookup => ?_⟩
  obtain ⟨n, rfl⟩ := (h name hname).numbered register hlookup
  rw [Scopes.place, hlookup]

/-- The registers of variables that are bound later do no harm. -/
theorem of_extends (h : Places vars place scopes') (hkept : scopes.Extends scopes')
    (hscalar : ∀ name ∈ vars, scopes.IsScalar name) : Places vars place scopes :=
  ⟨hscalar, fun name hname register hlookup => h.place name hname register (hkept name register
    hlookup)⟩

end Places

namespace Emit

variable {labels : FunctionLabels} {vars : List String} {place : String → Register}
  {code code' : List Instr}

/-- An action writes given code where some names are scalars in given registers. -/
def Emitting (vars : List String) (place : String → Register) (code : List Instr) (m : Emit Unit) :
    Prop :=
  ∀ s u s', Places vars place s.scopes → m.run s = .ok (u, s') → Emits code s s'

namespace Emitting

variable {m : Emit Unit} {f : Unit → Emit Unit}

theorem pure (u : Unit) : Emitting vars place [] (Pure.pure u) := by
  intro s u s' _ hrun
  cases hrun
  exact .refl s

theorem bind (hm : Emitting vars place code m) (hf : ∀ u, Emitting vars place code' (f u)) :
    Emitting vars place (code ++ code') (m >>= f) := by
  intro s u s' hplaces hrun
  obtain ⟨u₁, s₁, hm₁, hf₁⟩ := run_bind.mp hrun
  have hfirst := hm s u₁ s₁ hplaces hm₁
  rw [← hfirst.scopes] at hplaces
  exact hfirst.trans (hf u₁ s₁ u s' hplaces hf₁)

theorem congr (hm : Emitting vars place code m) (hcode : code' = code) :
    Emitting vars place code' m :=
  hcode ▸ hm

theorem line (instr : Instr) : Emitting vars place [instr] (Emit.line instr instr.kind) := by
  intro s u s' _ hrun
  cases hrun
  exact .of_emit s s.jumps

theorem commented {instr : Instr} (h : instr.kind = .plain) (comment : String) :
    Emitting vars place [instr] (Emit.commented instr comment) := by
  intro s u s' _ hrun
  cases hrun
  exact h ▸ .of_emit s s.jumps

theorem op (o : Op) : Emitting vars place [.op o] (Emit.op o) :=
  line _

theorem store (register : Register) (comment : String) :
    Emitting vars place [.store register] (Emit.store register comment false) := by
  intro s u s' _ hrun
  cases hrun
  exact .of_emit s s.jumps

theorem call (routine : Routine) :
    Emitting vars place [Routine.call routine] (Emit.call routine) := by
  intro s u s' _ hrun
  cases hrun
  refine ⟨?_, rfl, rfl, ?_⟩
  · show (s.listing.callRoutine routine).instrs = _
    rw [Listing.callRoutine_eq_write, Listing.instrs_write]
  · show (s.listing.callRoutine routine).lastIsString = _
    rw [Listing.callRoutine_eq_write, Listing.lastIsString_write]
    rfl

theorem lines (ops : List Op) :
    Emitting vars place (ops.map .op) (Emit.lines (ops.map .op)) := by
  intro s u s' _ hrun
  cases hrun
  exact ⟨Listing.instrs_emitAll, rfl, rfl, Listing.lastIsString_emitAll (by simp [Instr.kind])⟩

end Emitting

/-! ### Expressions -/

/-- The register of a scalar is found without a change. -/
theorem run_registerOf {name : String} {start : Position} {s s' : Emitter} {register : Register}
    (hplaces : Places vars place s.scopes) (hname : name ∈ vars)
    (hrun : (registerOf name start).run s = .ok (register, s')) :
    register = place name ∧ s' = s := by
  obtain ⟨hget, rfl⟩ := run_registerOf_eq_ok.mp hrun
  have hlookup := (Scopes.getRegister_of_no_alias (hplaces.scalar name hname).noAlias).mp hget
  exact ⟨(hplaces.place name hname _ hlookup).symm, rfl⟩

theorem emitting_recallName {id : Ident} (hname : id.name ∈ vars) :
    Emitting vars place [.recallValue (place id.name)] (recallName labels id) := by
  intro s u s' hplaces hrun
  unfold recallName at hrun
  split at hrun
  · cases hrun
  · obtain ⟨register, s₁, hregister, hline⟩ := run_bind.mp hrun
    obtain ⟨rfl, rfl⟩ := run_registerOf hplaces hname hregister
    obtain ⟨u₁, s₂, hline, hcounter⟩ := run_bind.mp hline
    have hemits := Emitting.line (.recallValue (place id.name)) s₁ u₁ s₂ hplaces hline
    rw [run_get_bind, hemits.scopes, (hplaces.scalar id.name hname).noCounter] at hcounter
    cases hcounter
    exact hemits

theorem emitting_booleans (op : BoolOp) {others : List Expr}
    (h : ∀ e ∈ others, Emitting vars place (e.code place) (expr labels e)) :
    Emitting vars place (Expr.booleansCode place op others) (booleans labels op others) := by
  induction others with
  | nil =>
    exact .pure _
  | cons e others ih =>
    rw [List.forall_mem_cons] at h
    exact .bind h.1 fun _ => .bind (.call _) fun _ => .bind (.op _) fun _ => ih h.2

theorem emitting_compareChain {comparisons : List (CompareOp × Expr)}
    (hoperators : ∀ c ∈ comparisons, c.1.routine?.isSome = true)
    (h : ∀ c ∈ comparisons, Emitting vars place (c.2.code place) (expr labels c.2)) (isFirst : Bool)
    {previous : Emit Unit} (hprevious : Emitting vars place code previous) :
    Emitting vars place (Expr.chainCode place isFirst code comparisons)
      (compareChain labels isFirst previous comparisons) := by
  induction comparisons generalizing isFirst previous code with
  | nil =>
    exact .pure _
  | cons comparison comparisons ih =>
    rw [List.forall_mem_cons] at h hoperators
    obtain ⟨routine, hroutine⟩ := Option.isSome_iff_exists.mp hoperators.1
    have hrest := ih hoperators.2 h.2 false h.1
    rw [compareChain, Expr.chainCode, hroutine]
    refine .bind hprevious fun _ => .bind h.1 fun _ => .bind (.call routine) fun _ => ?_
    cases isFirst with
    | true => exact hrest
    | false => exact .congr (.bind (.call _) fun _ => .bind (.op _) fun _ => hrest) rfl

variable {e : Expr}

theorem emitting_expr (h : e.Scalar vars) :
    Emitting vars place (e.code place) (expr labels e) := by
  induction h with
  | int | float | bool | none =>
    exact .line _
  | name hname =>
    exact emitting_recallName hname
  | binary hops _ _ ihleft ihright =>
    rw [expr, Expr.code, hops]
    exact .bind ihleft fun _ => .bind ihright fun _ => .lines _
  | boolean _ _ _ ihfirst ihothers =>
    exact .bind ihfirst fun _ => emitting_booleans _ ihothers
  | not _ ih =>
    exact .bind ih fun _ => .bind (.call _) fun _ => .call _
  | negate _ ih | invert _ ih =>
    exact .bind ih fun _ => .op _
  | compare _ hoperators _ _ ihleft ih =>
    exact emitting_compareChain hoperators ih true ihleft

theorem code_ne_nil (h : e.Scalar vars) : e.code place ≠ [] := by
  cases h with
  | @binary _ _ _ op _ hops =>
    have hne : (op.ops?.getD []).map Instr.op ≠ [] := by
      cases op <;> simp [BinaryOp.ops?] at hops ⊢
    simp [Expr.code, hne]
  | boolean hsome =>
    obtain ⟨second, others, rfl⟩ := List.exists_cons_of_ne_nil hsome
    simp [Expr.code, Expr.booleansCode]
  | compare hsome hoperators =>
    obtain ⟨⟨operator, right⟩, comparisons, rfl⟩ := List.exists_cons_of_ne_nil hsome
    obtain ⟨routine, hroutine⟩ :=
      Option.isSome_iff_exists.mp (hoperators _ List.mem_cons_self)
    simp [Expr.code, Expr.chainCode, hroutine]
  | _ => simp [Expr.code]

theorem producesMatrix_eq_false {scopes : Scopes} (hscalar : ∀ name ∈ vars, scopes.IsScalar name)
    (h : e.Scalar vars) : producesMatrix labels scopes e = false := by
  induction h with
  | name hname =>
    rw [producesMatrix, (hscalar _ hname).noContainer]
    rfl
  | binary _ _ _ ihleft ihright =>
    rw [producesMatrix, ihleft, ihright]
    rfl
  | negate _ ih => rw [producesMatrix, ih]
  | _ => rfl

end Emit

/-! ### Assignments -/

/-- Between two states code has been written that depends on the registers of the variables. Some of
them may have been bound. -/
structure Assigns (vars : List String) (code : (String → Register) → List Instr) (s s' : Emitter) :
    Prop where
  scalar : ∀ name ∈ vars, s'.scopes.IsScalar name
  kept : s.scopes.Extends s'.scopes
  loops : s'.loops = s.loops
  instrs : ∀ place, Places vars place s'.scopes →
    s'.listing.instrs = s.listing.instrs ++ code place

theorem Assigns.trans {vars : List String} {code code' : (String → Register) → List Instr}
    {s₁ : Emitter} (h : Assigns vars code s s₁) (h' : Assigns vars code' s₁ s') :
    Assigns vars (fun place => code place ++ code' place) s s' where
  scalar := h'.scalar
  kept name register hlookup := h'.kept name register (h.kept name register hlookup)
  loops := h'.loops.trans h.loops
  instrs place hplaces := by
    rw [h'.instrs place hplaces, h.instrs place (hplaces.of_extends h'.kept h.scalar),
      List.append_assoc]

namespace Emit

variable {labels : FunctionLabels} {vars : List String} {code : (String → Register) → List Instr}

variable {s s' : Emitter} {u : Unit}

/-- Code that is written for any registers is written for those that the variables have. -/
theorem Emitting.assigns {m : Emit Unit} (h : ∀ place, Emitting vars place (code place) m)
    (hscalar : ∀ name ∈ vars, s.scopes.IsScalar name) (hrun : m.run s = .ok (u, s')) :
    Assigns vars code s s' := by
  have hself := h _ s u s' (.self hscalar) hrun
  refine ⟨hself.scopes ▸ hscalar, ?_, hself.loops, fun place hplaces => ?_⟩
  · rw [hself.scopes]
    exact fun _ _ => id
  · rw [hself.scopes] at hplaces
    exact (h place s u s' hplaces hrun).instrs

section

variable (hscalar : ∀ name ∈ vars, s.scopes.IsScalar name)
  (hcase : ∀ name ∈ vars, isAllUppercase name = false) {target : Expr}

include hscalar hcase

theorem assigns_storeTarget (htarget : target.isVariable vars = true)
    (hrun : (storeTarget labels .scalar false target).run s = .ok (u, s')) :
    Assigns vars (fun place => [target].filterMap Expr.name? |>.map (.store <| place ·)) s s' := by
  cases target
  case name id =>
    have hname : id.name ∈ vars := by simpa [Expr.isVariable, Expr.name?] using htarget
    obtain ⟨register, s₁, hregister, hstore⟩ := run_bind.mp hrun
    obtain ⟨scopes, hscopes, rfl⟩ := run_withScopes.mp hregister
    obtain ⟨hlookup, hkept, hscalars⟩ :=
      (hscalar id.name hname).storeRegister (hcase id.name hname) hscopes
    cases hstore
    refine ⟨fun name hmem => hscalars name (hscalar name hmem), hkept, rfl, fun place hplaces => ?_⟩
    show (s.listing.emit (.store register) _).instrs = _ ++ [.store (place id.name)]
    rw [Listing.instrs_emit, hplaces.place id.name hname register hlookup]
  all_goals cases htarget

/-- A value is stored to variables in turn. -/
theorem assigns_storeTargets {targets : List Expr}
    (htargets : targets.all (·.isVariable vars) = true)
    (hrun : (storeTargets labels .scalar false targets).run s = .ok (u, s')) :
    Assigns vars (fun place => targets.filterMap Expr.name? |>.map (.store <| place ·)) s s' := by
  induction targets generalizing s with
  | nil =>
    cases hrun
    exact ⟨hscalar, fun _ _ => id, rfl, fun _ _ => (List.append_nil _).symm⟩
  | cons target rest ih =>
    rw [List.all_cons, Bool.and_eq_true] at htargets
    obtain ⟨u₁, s₁, htarget, hrest⟩ := run_bind.mp hrun
    have hfirst := assigns_storeTarget hscalar hcase htargets.1 htarget
    have hall := hfirst.trans (ih hfirst.scalar htargets.2 hrest)
    have hcode : ∀ place : String → Register,
        ((target :: rest).filterMap Expr.name?).map (Instr.store <| place ·) =
          ([target].filterMap Expr.name?).map (Instr.store <| place ·) ++
            (rest.filterMap Expr.name?).map (Instr.store <| place ·) := by
      intro place
      rw [← List.map_append, ← List.filterMap_append, List.singleton_append]
    simpa only [hcode] using hall

theorem assigns_assign {value : Expr} {others : List Expr}
    (htargets : (target :: others).all (·.isVariable vars) = true)
    (hvalue : value.isScalar vars = true)
    (hrun : (assign labels target others value).run s = .ok (u, s')) :
    Assigns vars (fun place => value.code place ++
      ((target :: others).filterMap Expr.name?).map (.store <| place ·)) s s' := by
  have hcomputed : (assignComputed labels target others value).run s = .ok (u, s') := by
    cases value with
    | name source =>
      rw [Expr.isScalar] at hvalue
      have hsource := (hscalar source.name (by simpa using hvalue)).noContainer
      unfold assign assignName at hrun
      rwa [run_get_bind, hsource] at hrun
    | list | dict => cases hvalue
    | _ => exact hrun
  have hassign : (assignValue labels (target :: others) value).run s = .ok (u, s') := by
    cases target
    case name id => exact hcomputed
    all_goals cases htargets
  unfold assignValue at hassign
  rw [run_get_bind, producesMatrix_eq_false hscalar (value.scalar hvalue)] at hassign
  obtain ⟨u₁, s₁, hexpr, hassign⟩ := run_bind.mp hassign
  obtain ⟨alpha, s₂, halpha, hstores⟩ := run_bind.mp hassign
  have hcode := Emitting.assigns (fun place => emitting_expr (value.scalar hvalue)) hscalar hexpr
  have hplain : s₁.listing.lastIsString = false := by
    rw [(emitting_expr (value.scalar hvalue) s u₁ s₁ (.self hscalar) hexpr).lastIsString]
    have hstays : ∀ instr ∈ value.code s.scopes.place, instr.staysWithin [] = true :=
      value.staysWithin_code
    exact endsWithText_eq_false (code_ne_nil (value.scalar hvalue)) hstays _
  cases halpha
  rw [hplain] at hstores
  exact hcode.trans (assigns_storeTargets hcode.scalar hcase htargets hstores)

end

theorem emitting_augment {id : Ident} {op : BinaryOp} {value : Expr} {place : String → Register}
    {code : List Instr} (hname : id.name ∈ vars) (hvalue : value.isScalar vars = true)
    (hcode : Stmt.code? place (.augmented {} (.name id) op value) = some code) :
    Emitting vars place code (augment labels (.name id) op value) := by
  intro s u s' hplaces hrun
  obtain ⟨register, s₁, hregister, hrest⟩ := run_bind.mp hrun
  obtain ⟨rfl, rfl⟩ := run_registerOf hplaces hname hregister
  rw [Stmt.code?] at hcode
  cases hstore : op.storeOp? with
  | some o =>
    rw [hstore] at hcode hrest
    cases hcode
    exact Emitting.bind (emitting_expr (value.scalar hvalue)) (fun _ => .commented rfl _) s₁ u s'
      hplaces hrest
  | none =>
    rw [hstore] at hcode hrest
    cases hops : op.ops? with
    | none =>
      simp only [hops] at hrest
      cases hrest
    | some ops =>
      simp only [hops] at hrest
      rw [hops] at hcode
      cases hcode
      exact Emitting.bind (.line _) (fun _ => .bind (emitting_expr (value.scalar hvalue)) fun _ =>
        .bind (.lines _) fun _ => .store _ _) s₁ u s' hplaces hrest

/-- A statement without control flow writes its code. -/
theorem assigns_stmt {statement : Stmt} (hscalar : ∀ name ∈ vars, s.scopes.IsScalar name)
    (hcase : ∀ name ∈ vars, isAllUppercase name = false)
    (hstatement : statement.isScalar vars = true)
    (hcode : ∀ place, statement.code? place = some (code place))
    (hrun : (stmt labels statement).run s = .ok (u, s')) : Assigns vars code s s' := by
  cases statement with
  | pass start =>
    exact Emitting.assigns (fun place => (Emitting.pure ()).congr
      (Option.some.inj (hcode place)).symm) hscalar hrun
  | expression start value =>
    exact Emitting.assigns (fun place => (emitting_expr (value.scalar hstatement)).congr
      (Option.some.inj (hcode place)).symm) hscalar hrun
  | assign start target others value =>
    rw [Stmt.isScalar, Bool.and_eq_true] at hstatement
    obtain rfl := funext fun place => Option.some.inj (hcode place)
    exact assigns_assign hscalar hcase hstatement.1 hstatement.2 hrun
  | augmented start target op value =>
    rw [Stmt.isScalar, Bool.and_eq_true, Bool.and_eq_true] at hstatement
    cases target
    case name id =>
      have hname : id.name ∈ vars := by simpa [Expr.isVariable, Expr.name?] using hstatement.1.2
      exact Emitting.assigns
        (fun place => emitting_augment hname hstatement.2 (hcode place)) hscalar hrun
    all_goals cases hstatement.1.2
  | _ => cases hcode fun _ => .numbered 0

end Emit

/-! ### Stores from the stack -/

/-- The code that stores values from the stack to registers. -/
def storesDown (targets : List (Ident × Register)) : List Instr :=
  targets.flatMap fun target => [.store target.2, .op .rollDown]

theorem Emit.emits_storeDown (targets : List (Ident × Register)) {u : Unit}
    (hrun : (storeDown targets).run s = .ok (u, s')) : Emits (storesDown targets) s s' := by
  induction targets generalizing s with
  | nil =>
    cases hrun
    exact .refl _
  | cons target targets ih =>
    obtain ⟨id, register⟩ := target
    obtain ⟨_, s₁, hstore, hrun⟩ := run_bind.mp hrun
    obtain ⟨_, s₂, hroll, hrest⟩ := run_bind.mp hrun
    have hfirst : Emits [.store register] s s₁ := by
      cases hstore
      exact .of_emit s s.jumps
    have hsecond : Emits [.op .rollDown] s₁ s₂ := by
      cases hroll
      exact .of_emit s₁ s₁.jumps
    exact (hfirst.trans hsecond).trans (ih hrest)

end Keystroke
