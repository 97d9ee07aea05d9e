import Keystroke.Proofs.CarefulCode
import Keystroke.Proofs.FlowDiscipline

/-!
# Numbered registers are stored to before they are used

All code of a module is written by careful actions, so in the text of a program the first line that
works on a numbered register stores to it.
-/

namespace Keystroke

open Emit FunctionLabels

variable {instr : Instr} {localLabels : Bool}

theorem Instr.IsInert.number?_eq_none {p : Vocabulary} {kind : LineKind}
    (h : instr.IsInert p kind) : instr.number? = none := by
  cases instr with
  | memory o operand =>
    cases operand with
    | stack level => rfl
    | _ => cases kind <;> exact h.elim
  | _ => rfl

namespace Emit

open Script (Expr Ident Stmt)

variable {labels : FunctionLabels} {limit : Nat} {α β : Type} {known : Facts} {m : Emit α}

namespace Tidy

/-! ### Composition -/

theorem pure (a : α) : Tidy limit (pure a : Emit α) :=
  fun _ => .pure fun _ _ => trivial

theorem fail {fault : Fault} {start : Position}
    (h : ∀ name, fault ≠ .use (.functionWithoutLabel name)) :
    Tidy limit (fail fault start : Emit α) :=
  fun _ => .fail h

theorem bind {m : Emit α} {f : α → Emit β} (hm : Tidy limit m) (hf : ∀ a, Tidy limit (f a)) :
    Tidy limit (m >>= f) :=
  fun code => (hm code).next fun a => hf a code

theorem get_bind {f : Emitter → Emit α} (h : ∀ s, Tidy limit (f s)) : Tidy limit (get >>= f) :=
  fun code => .get_bind fun s => h s code

/-- A change of the state that writes nothing and hands out nothing. -/
theorem modify {f : Emitter → Emitter} (hlisting : ∀ s, (f s).listing = s.listing)
    (hscopes : ∀ s : Emitter, s.scopes.Keeps (f s).scopes) : Tidy limit (modify f : Emit Unit) := by
  intro code s hs _
  refine ⟨fun u s' hrun => ?_, nofun⟩
  cases hrun
  exact ⟨hs.keeps (hscopes s) (hlisting s), hlisting s ▸ List.prefix_rfl, trivial⟩

/-! ### Lines -/

theorem line {instr : Instr} {kind : LineKind} (h : instr.number? = none) :
    Tidy limit (line instr kind) :=
  fun _ => .emitted fun n hn => by simp [h] at hn

theorem op (o : Op) : Tidy limit (op o) :=
  line rfl

theorem call (routine : Routine) : Tidy limit (call routine) := by
  intro code s hs _
  refine ⟨fun u s' hrun => ?_, nofun⟩
  cases hrun
  have hcode : (s.listing.callRoutine routine).instrs =
      s.listing.instrs ++ [Routine.call routine] := by
    rw [Listing.callRoutine_eq_write, Listing.instrs_write]
  have hplain : (Routine.call routine).Follows limit s.listing.instrs := nofun
  exact ⟨hs.write hplain hcode rfl, ⟨_, hcode.symm⟩, trivial⟩

theorem lastIsString : Tidy limit lastIsString :=
  get_bind fun _ => pure _

theorem finishBody : Tidy limit finishBody :=
  get_bind fun _ code => .ite (pure _ code) (op _ code)

/-! ### Jumps -/

theorem withJumps {step : LabelSupply → Except JumpPool (α × LabelSupply)} {start : Position} :
    Tidy limit (withJumps step start) := by
  refine get_bind fun s => ?_
  split
  · exact bind (modify (fun _ => rfl) fun _ => .refl _) fun _ => pure _
  · exact fail nofun

theorem place (label : Nat) : Tidy limit (place label) :=
  line rfl

theorem jump (label : Nat) : Tidy limit (jump label) :=
  line rfl

theorem placeSkip (label : Nat) : Tidy limit (placeSkip label) :=
  bind (place label) fun _ => modify (fun _ => rfl) fun _ => .refl _

theorem selectContainer (register : Register) : Tidy limit (selectContainer register) :=
  bind (line rfl) fun _ => line rfl

theorem loopBody (loop : Loop) {body : Emit Unit} (hbody : Tidy limit body) :
    Tidy limit (loopBody loop body) := by
  refine bind (modify (fun _ => rfl) fun _ => .refl _) fun _ => bind hbody fun _ =>
    get_bind fun s => ?_
  split
  · exact pure _
  · exact bind (modify (fun _ => rfl) fun _ => .refl _) fun _ => pure _

theorem share (name target : String) (start : Position) : Tidy limit (withScopes
    (fun scopes => return ((), ← scopes.bindAlias name target)) start) := by
  intro code s hs _
  refine .withScopes fun a scopes h => ?_
  obtain ⟨result, halias, h⟩ := bind_eq_ok.mp h
  cases h
  exact ⟨hs.keeps (Scopes.keeps_bindAlias halias) rfl, List.prefix_rfl, trivial⟩

/-- Registers are handed out and then stored to. -/
theorem granted {registers : α → List Register} {m : Emit α} {n : α → Emit Unit}
    (hm : Grants limit registers m) (hn : ∀ a, Fills limit (registers a) (n a)) :
    Tidy limit (m >>= n) := by
  intro code
  have h : Careful limit code (m >>= fun a => n a >>= fun _ => Pure.pure ()) fun _ _ => True :=
    .granted hm hn fun _ _ _ _ => .pure fun _ _ => trivial
  simpa using h

end Tidy

namespace Careful

variable {code : List Instr}

/-- The register of a container can be worked on. -/
theorem containerOf (id : Ident) : Careful limit code (containerOf id) fun found code' =>
    Ready limit code' found.1 := by
  refine bind (registerOf _ _) fun register code' _ hready => get_bind fun s => ?_
  have hfound :
      ∀ kind, Careful limit code' (Pure.pure (register, kind) : Emit (Register × Container))
      fun found code' => Ready limit code' found.1 :=
    fun kind => pure fun _ hstarts => hready.mono hstarts
  dsimp only
  cases s.scopes.container? id.name with
  | some kind => exact hfound kind
  | none => exact ite (hfound _) (fail nofun)

theorem sourceOf (id : Ident) : Careful limit code (sourceOf id) fun register code' =>
    Ready limit code' register := by
  refine get_bind fun s => ?_
  split
  iterate 2 exact registerOf _ _
  · exact fail nofun

end Careful

theorem grants_unpackedRegisters (names : List Expr) :
    Grants limit (·.map Prod.snd) (unpackedRegisters names) := by
  induction names with
  | nil => exact .nil
  | cons name rest ih =>
    unfold unpackedRegisters
    split
    · exact .nil
    · rename_i hnames
      cases hnames
      exact .cons (.storeRegister _ _ _) ih
    · exact fun _ _ _ => .fail (by simp)

/-! ### Expressions and statements -/

/-- What is known of registers after some code: which have been stored to, and which are below the
limit. -/
def registerFacts (limit : Nat) (code : List Instr) : Facts
  | .usable register => Ready limit code register
  | .granted register => Below limit register
  | _ => True

theorem registerFacts_later {code code' : List Instr} (h : known.Later (registerFacts limit code))
    (hstarts : code <+: code') :
    known.Later (registerFacts limit code') := by
  intro fact hfact
  cases fact with
  | usable register => exact (h (.usable register) hfact).mono hstarts
  | _ => exact h _ hfact

/-- How careful actions follow each other. -/
def Careful.logic (limit : Nat) : Logic where
  words := .any
  Holds known m Q := ∀ code, known.Later (registerFacts limit code) →
    Careful limit code m fun a code' => Q a (registerFacts limit code')
  pure h _ hknown := .pure fun _ hstarts => h _ (registerFacts_later hknown hstarts)
  bind hm hf code hknown := .bind (hm code hknown) fun a code' hstarts ha =>
    hf a _ (registerFacts_later hknown hstarts) ha code' fun _ => id
  mono hlater hm code hknown := hm code fun fact h => hknown fact (hlater fact h)
  fail h _ _ _ := .fail fun name hname => by simp [hname, Fault.isOwn] at h
  read _ hf code hknown := .get_bind fun s => hf s code hknown

theorem Tidy.holds (h : Tidy limit m) :
    (Careful.logic limit).Holds known m fun _ _ => True :=
  fun code _ => h code

/-- What careful actions keep to. -/
def Careful.discipline (labels : FunctionLabels) (limit : Nat) : FlowDiscipline labels where
  toLogic := Careful.logic limit
  stores _ := True
  declares _ := True
  lastIsString := Tidy.lastIsString.holds
  line h := (Tidy.line h.number?_eq_none).holds
  memory _ _ h _ hknown := .memory (hknown _ h)
  call routine := (Tidy.call routine).holds
  callOwn _ := Tidy.holds (.line rfl)
  named _ _ _ := .pure fun _ _ => .of_named _
  registerOf name start _ _ _ := .registerOf name start
  containerOf _ _ _ := (Careful.containerOf _).imp fun _ _ h => ⟨h, trivial⟩
  selectContainer _ := (Tidy.selectContainer _).holds
  declare _ _ hinfo _ _ _ := .imp (.bindNamed (by simp [Scopes.namedRegister?_of_declared hinfo]))
    fun _ _ h => ⟨h, trivial⟩
  share _ _ _ _ _ := (Tidy.share _ _ _).holds
  storeNamed _ _ h _ _ _ := .storeRegister h
  assigned _ _ _ _ hf code hknown := .granted (.storeRegister _ _ _) (fun _ => .store _ _ _)
    fun register code' hstarts hready => hf register _ (registerFacts_later hknown hstarts)
      (hready register List.mem_cons_self) code' fun _ => id
  unpacked _ _ _ :=
    Tidy.holds (.granted (grants_unpackedRegisters _) fun registers => .storeUp registers)
  store _ h _ hknown := .imp (.store (hknown _ h).below) fun _ _ _ => trivial
  sourceOf _ _ _ := (Careful.sourceOf _).imp fun _ _ h => ⟨h, trivial⟩
  anonymous _ _ _ := .anonymous _
  fill _ h _ hknown := .store (hknown _ h)
  skipLabel _ _ _ := .imp (Tidy.withJumps _) fun _ _ _ => trivial
  loopLabel _ _ _ := .imp (Tidy.withJumps _) fun _ _ _ => trivial
  place n := (Tidy.place n).holds
  placeSkip _ := (Tidy.placeSkip _).holds
  jump _ := (Tidy.jump _).holds
  test hinstr _ code hknown := by
    refine Careful.next (Q := fun _ _ => True) ?_ fun _ => Tidy.jump _ code
    cases hinstr with
    | op o => exact Tidy.op o code
    | counter h => exact .memory (hknown _ h)
  returns := (Tidy.op _).holds
  loopBody _ hbody _ _ :=
    .imp (Tidy.loopBody _ (fun code => hbody (fun _ => False) code fun _ => False.elim) _)
    fun _ _ _ => .trivial
  setLoop _ := Tidy.holds (.modify (fun _ => rfl) fun _ => .refl _)
  loops _ hf code hknown := .get_bind fun s => hf s _ hknown (fun _ _ => .trivial) code fun _ => id

theorem Tidy.of_tame (h : (Careful.discipline labels limit).Tame m) : Tidy limit m :=
  fun code => h (fun _ => False) code fun _ => False.elim

theorem tidy_ownCode (statements : List Stmt) : Tidy limit (ownCode labels statements) :=
  .of_tame
    (FlowDiscipline.tame_ownCode (.of_declares fun _ => trivial) (Script.named_any_stmts _)
      fun _ _ => trivial)

/-! ### Functions -/

theorem grants_paramRegisters : ∀ params : List Ident,
    Grants limit (·.map Prod.snd) (paramRegisters params)
  | [] => .nil
  | _ :: rest =>
    .cons (.withScopes fun _ _ _ => Scopes.grants_bind) (grants_paramRegisters rest)

theorem tidy_function {header : Script.FunctionHeader} {body nested : Emit Unit}
    (hlabel : labels.has header.name.name = true) (hbody : Tidy limit body)
    (hnested : Tidy limit nested) : Tidy limit (function labels header body nested) := by
  rw [function_eq]
  split
  · rename_i hnone
    unfold get? at hnone
    simp [has, NameMap.contains, hnone] at hlabel
  · refine .get_bind fun s =>
      .bind (.modify (fun _ => rfl) fun _ => Scopes.keeps_push) fun _ code => ?_
    refine .next (.emitted fun _ hn => by cases hn) fun _ => ?_
    refine .granted (grants_paramRegisters header.params) (fun registers => .storeUp registers)
      fun _ code' _ _ => ?_
    refine .next (hbody code') fun _ => .next (Tidy.finishBody code') fun _ =>
      .next (hnested code') fun _ => ?_
    exact Tidy.modify
      (f := fun emitter => { emitter with loops := s.loops, scopes := emitter.scopes.pop })
      (fun _ => rfl) (fun _ => Scopes.keeps_pop) code'

theorem tidy_functions {statements : List Stmt}
    (h : ∀ name ∈ Script.definedNames statements, labels.has name = true) :
    Tidy limit (functions labels statements) := by
  induction statements using Script.functions_induction with
  | nil => exact .pure _
  | other s rest hnot ih =>
    rw [Script.definedNames, List.forall_mem_append] at h
    simpa [functions, definedFunction] using ih h.2
  | functionDef start header body rest hbody hrest =>
    rw [Script.definedNames, List.forall_mem_append, Stmt.definedNames, List.forall_mem_cons] at h
    exact .bind (tidy_function h.1.1 (tidy_ownCode body) (hbody h.1.2)) fun _ => hrest h.2

theorem tidy_entryCode (body : List Stmt) : Tidy limit (entryCode labels body) := by
  unfold entryCode
  split
  · exact fun code => .next (.emitted nofun) fun _ =>
      Tidy.bind (.of_tame (FlowDiscipline.tame_block (.of_declares fun _ => trivial) body
        (Script.named_any_stmts _) fun _ _ => trivial)) (fun _ => .finishBody) code
  · split
    · exact .pure _
    · exact .fail (by simp)

end Emit

/-! ### Programs -/

theorem Emitter.Covers.init (limit : Nat) (jumps : LabelSupply) :
    Emitter.Covers limit [] { scopes := .ofLimit limit, jumps } :=
  ⟨rfl, nofun, .nil limit⟩

namespace Listing

variable {labels : FunctionLabels} {body : List Script.Stmt} {limit : Nat} {jumps : LabelSupply}

/-- A module whose functions have labels is written by a careful action. -/
theorem careful_ofScript (h : assign body = .ok labels) :
    Careful limit [] (program labels body) fun _ _ => True :=
  Tidy.bind (tidy_entryCode _) (fun _ => tidy_functions fun name hname =>
    ((assigned_of_assign h).has_iff name).mpr hname) []

/-- Where functions have been given labels, none is missing when the code is written. -/
theorem not_missesLabel_ofScript {e : CompileError} (hlabels : assign body = .ok labels)
    (h : ofScript labels body limit jumps = .error e) : ¬ e.MissesLabel := by
  unfold ofScript at h
  split at h
  · cases h
  · rename_i hrun
    cases h
    exact (careful_ofScript hlabels _ (.init limit jumps) List.nil_prefix).2 e hrun

end Listing

theorem instrAt_take {code : List Instr} {line count : Nat} :
    InstrAt (code.take count) line instr ↔ line < count ∧ InstrAt code line instr := by
  rw [InstrAt, List.getElem?_take]
  split
  · simp [*, InstrAt]
  · simp [*]

theorem Listing.number?_finalInstr :
    (Listing.finalInstr localLabels instr).number? = instr.number? := by
  cases localLabels with
  | false => rfl
  | true => cases instr <;> rfl

theorem Listing.storesTo_finalInstr {n : Nat} :
    (Listing.finalInstr localLabels instr).StoresTo n ↔ instr.StoresTo n := by
  cases localLabels with
  | false => rfl
  | true => cases instr <;> simp [finalInstr, localisedInstr, Instr.StoresTo, Instr.store,
      Instr.storeAlpha]

/-- A numbered register is below the limit wherever a program works on it, and the program stores
to it before it does anything else with it. -/
theorem numbered_registers_stored {text : String} {options : Options} {final : Listing}
    (h : compile text options = .ok final) {line n : Nat} {instr : Instr}
    (hline : InstrAt final.instrs line instr) (hn : instr.number? = some n) :
    n < options.registerLimit ∧ (instr.StoresTo n ∨
      ∃ before earlier, before < line ∧ InstrAt final.instrs before earlier ∧
        earlier.StoresTo n) := by
  obtain ⟨body, labels, listing, -, hlabels, hlisting, rfl⟩ := compile_eq_ok.mp h
  obtain ⟨u, s, hrun, rfl⟩ := ofScript_eq_ok.mp hlisting
  have hprudent := ((Listing.careful_ofScript hlabels _ (.init _ _)
    List.nil_prefix).1 u s hrun).1.prudent
  rw [Listing.instrs_final] at hline ⊢
  obtain ⟨source, hsource, rfl⟩ := instrAt_map.mp hline
  rw [Listing.number?_finalInstr] at hn
  rcases instrAt_append.mp hsource with hsource | ⟨-, hsource⟩
  · obtain ⟨hlt, hstored⟩ := hprudent line source hsource n hn
    refine ⟨hlt, hstored.imp Listing.storesTo_finalInstr.mpr ?_⟩
    rintro ⟨earlier, hmem, hstores⟩
    obtain ⟨before, hbefore⟩ := exists_instrAt.mpr hmem
    obtain ⟨hbefore, hearlier⟩ := instrAt_take.mp hbefore
    exact ⟨before, _, hbefore, instrAt_map.mpr ⟨earlier, hearlier.append _, rfl⟩,
      Listing.storesTo_finalInstr.mpr hstores⟩
  · rw [Listing.forall_mem_suffix (·.number? = none) (by decide) (by decide +kernel) _
      (exists_instrAt.mp ⟨_, hsource⟩)] at hn
    cases hn

/-- A function with variables from all sources: parameters, names that are assigned side by side, a
counter without a name and the element that it is at. -/
def countingText : String :=
  "def f(xs, n):\n  a, b = n, 2\n  xs = [a]\n  for x in xs:\n    b += x\n  return b\n"

/-- The counter of its loop has been stored to where it is stepped. Six registers are enough. -/
theorem numbered_registers_stored_counter :
    ∃ final : Listing, compile countingText { registerLimit := 6 } = .ok final ∧
      InstrAt final.instrs 36 (.memory .stepCounter (.register (.numbered 4))) ∧ 4 < 6 ∧
      ∃ before earlier, before < 36 ∧ InstrAt final.instrs before earlier ∧ earlier.StoresTo 4 := by
  have hcompiles : (compile countingText { registerLimit := 6 }).toOption.any (fun final =>
      final.instrs[36]? = some (.memory .stepCounter (.register (.numbered 4)))) = true := by
    decide +kernel
  obtain ⟨final, hfinal, hline⟩ := exists_ok_of_any hcompiles
  have hline : InstrAt final.instrs 36 (.memory .stepCounter (.register (.numbered 4))) :=
    of_decide_eq_true hline
  obtain ⟨hlt, hstored⟩ := numbered_registers_stored hfinal hline rfl
  exact ⟨final, hfinal, hline, hlt, hstored.resolve_left (by simp [Instr.StoresTo, Instr.store,
    Instr.storeAlpha])⟩

end Keystroke
