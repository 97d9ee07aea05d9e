import Mathlib.Data.List.Rotate
import Keystroke.Proofs.DeviceExpressions
import Keystroke.Proofs.ScalarFunctions

/-!
# Arguments and parameters

A call enters its arguments one after another and goes to the label of the function, where each
parameter is stored from X and the next one comes down. So the parameters are read off the four
levels of the stack, around and around. With more arguments than levels, the first ones have been
lost, and a text is not on the stack at all, since its code puts it in the alpha register.
-/

namespace Keystroke

open Listing

variable {d : Device} {code : List Instr} {line : Nat} {targets : List (Ident × Register)}
  {label : Label}

open Script (Expr Ident Stmt)

/-! ### The stack -/

namespace Levels

variable {V : Type}

/-- Values are entered one after another. -/
def pushAll (levels : Levels V) (values : List V) : Levels V :=
  values.foldl push levels

/-- The last four values are left. -/
theorem toList_pushAll (levels : Levels V) (values : List V) :
    (levels.pushAll values).toList = (values.reverse ++ levels.toList).take 4 := by
  induction values generalizing levels with
  | nil => rfl
  | cons v rest ih =>
    have hpush : (levels.push v).toList = (v :: levels.toList).take 4 := rfl
    show ((levels.push v).pushAll rest).toList = _
    rw [ih, hpush, List.reverse_cons, List.append_assoc, List.take_append, List.take_append,
      List.take_take, Nat.min_eq_left (Nat.sub_le _ _)]
    rfl

theorem getElem?_rollDown (levels : Levels V) (k : Nat) :
    levels.rollDown.toList[k % 4]? = levels.toList[(k + 1) % 4]? := by
  have hrotate : levels.rollDown.toList = levels.toList.rotate 1 := rfl
  have hlt : k % 4 < levels.toList.length := Nat.mod_lt k (show 0 < 4 by decide)
  rw [hrotate, List.getElem?_rotate hlt]
  exact congrArg (levels.toList[·]?) (Nat.mod_add_mod k 4 1)

end Levels

/-! ### Storing parameters -/

namespace Device

variable {d : Device} {register : Register} {registers : List Register}

/-- Each register gets what is in X, and the next level comes down. -/
def storeDown (d : Device) : List Register → Device
  | [] => d
  | register :: rest => storeDown ((d.put register d.levels.x).holding d.levels.rollDown) rest

theorem registers_storeDown_of_notMem (hregister : register ∉ registers) :
    (d.storeDown registers).registers register = d.registers register := by
  induction registers generalizing d with
  | nil => rfl
  | cons first rest ih =>
    obtain ⟨hne, hrest⟩ := not_or.mp (List.mem_cons.not.mp hregister)
    rw [storeDown, ih hrest, registers_holding, registers_put_of_ne _ _ hne]

/-- The registers are filled from the levels, around and around. -/
theorem registers_storeDown {k : Nat} (hnodup : registers.Nodup)
    (hregister : registers[k]? = some register) :
    (d.storeDown registers).registers register = d.levels.toList[k % 4]? := by
  induction registers generalizing d k with
  | nil => cases hregister
  | cons first rest ih =>
    obtain ⟨hfirst, hnodup⟩ := List.nodup_cons.mp hnodup
    rw [storeDown]
    cases k with
    | zero =>
      cases hregister
      rw [registers_storeDown_of_notMem hfirst, registers_holding, registers_put_self]
      rfl
    | succ k =>
      rw [ih hnodup hregister]
      exact d.levels.getElem?_rollDown k

end Device

theorem Hardware.goes_storeDown {h : Hardware} {registers : List Register}
    (hcode :
      CodeAt code line (registers.flatMap fun register => [.store register, .op .rollDown])) :
    h.Goes code (d, line) (d.storeDown registers, line + 2 * registers.length) := by
  induction registers generalizing d line with
  | nil => exact .refl
  | cons register rest ih =>
    obtain ⟨hfirst, hrest⟩ := codeAt_append.mp hcode
    refine .trans (.perform hfirst.head rfl rfl) (.trans (.perform hfirst.tail.head rfl rfl) ?_)
    rw [List.length_cons, show line + 2 * (rest.length + 1) = line + 2 + 2 * rest.length by omega]
    exact ih hrest

/-! ### The registers of parameters -/

namespace Scopes

variable {scopes scopes' : Scopes} {targets : List (Ident × Register)} {name : String}
  {register : Register}

theorem register_of_bind_scalar (h : scopes.bind name .scalar = .ok (register, scopes')) :
    (register = .named (variableName name) ∧ scopes'.next = scopes.next) ∨
      (register = .numbered scopes.next ∧ scopes'.next = scopes.next + 1) := by
  rcases bind_inv h with ⟨hnamed, rfl⟩ | ⟨-, -, rfl, rfl⟩
  · exact Or.inl ⟨namedRegister?_eq_some (fun _ hforced => by cases hforced) hnamed,
      next_modifyHome scopes name _⟩
  · exact Or.inr ⟨rfl, rfl⟩

namespace BindsEach

theorem register_cases (h : scopes.BindsEach targets scopes') : ∀ target ∈ targets,
    target.2 = .named (variableName target.1.name) ∨ ∃ n, scopes.next ≤ n ∧
      target.2 = .numbered n := by
  induction targets generalizing scopes with
  | nil => exact nofun
  | cons first rest ih =>
    obtain ⟨scopes₁, hbind, hrest⟩ := h
    rw [List.forall_mem_cons]
    rcases register_of_bind_scalar hbind with ⟨hregister, hnext⟩ | ⟨hregister, hnext⟩
    · exact ⟨Or.inl hregister, hnext ▸ ih hrest⟩
    · refine ⟨Or.inr ⟨_, Nat.le_refl _, hregister⟩, fun target htarget => ?_⟩
      refine (ih hrest target htarget).imp_right fun ⟨n, hle, hn⟩ => ⟨n, ?_, hn⟩
      omega

/-- Parameters with different names that are not too long have different registers. -/
theorem nodup_registers (h : scopes.BindsEach targets scopes')
    (hnames : (targets.map (·.1.name)).Nodup)
    (hshort : ∀ target ∈ targets, variableName target.1.name = target.1.name) :
    (targets.map Prod.snd).Nodup := by
  induction targets generalizing scopes with
  | nil => exact List.nodup_nil
  | cons first rest ih =>
    obtain ⟨scopes₁, hbind, hrest⟩ := h
    obtain ⟨hfirst, hnames⟩ := List.nodup_cons.mp hnames
    rw [List.forall_mem_cons] at hshort
    refine List.nodup_cons.mpr ⟨fun hmem => ?_, ih hrest hnames hshort.2⟩
    obtain ⟨target, htarget, hsame⟩ := List.mem_map.mp hmem
    rcases register_of_bind_scalar hbind with ⟨hregister, -⟩ | ⟨hregister, hnext⟩
    · rcases hrest.register_cases target htarget with hnamed | ⟨n, -, hn⟩
      · rw [hnamed, hregister, hshort.1, hshort.2 target htarget, Register.named.injEq] at hsame
        exact hfirst (List.mem_map.mpr ⟨target, htarget, hsame⟩)
      · rw [hn, hregister] at hsame
        cases hsame
    · rcases hrest.register_cases target htarget with hnamed | ⟨n, hle, hn⟩
      · rw [hnamed, hregister] at hsame
        cases hsame
      · rw [hn, hregister, Register.numbered.injEq] at hsame
        omega

end BindsEach

end Scopes

/-- A name that is not too long is kept as it is. -/
theorem variableName_of_length_le {name : String} (h : name.length ≤ maxNameLength) :
    variableName name = name := by
  have hdrop : name.toList.length - maxNameLength = 0 := by
    exact Nat.sub_eq_zero_of_le h
  rw [variableName, hdrop, List.drop_zero, String.ofList_toList]

/-! ### Arguments -/

namespace Hardware

variable {h : Hardware} {scopes : Scopes} {registers : Register → Option Datum}
  {code code' : List Instr} {data data' : List Datum}

/-- What the code of a literal or of a variable enters, in some scopes and with some contents of the
registers. A text is put in the alpha register, and nothing is entered. -/
inductive Enters (h : Hardware) (scopes : Scopes) (registers : Register → Option Datum) :
    Expr → Option Datum → Prop where
  | int (start : Position) (n : Nat) : Enters h scopes registers (.int start n)
      (some (h.arithmetic.ofNat n))
  | float (start : Position) (spelling : String) :
      Enters h scopes registers (.float start spelling) (some (h.arithmetic.ofSpelling spelling))
  | bool (start : Position) (b : Bool) :
      Enters h scopes registers (.bool start b) (some (h.arithmetic.bit b))
  | none (start : Position) : Enters h scopes registers (.none start) (some (h.arithmetic.ofNat 0))
  | string (start : Position) (text : String) : Enters h scopes registers (.string start text) none
  | name {id : Ident} {register : Register} {value : Datum}
      (hregister : scopes.getRegister id.name = .ok register)
      (hvalue : (if scopes.isRangeIndex id.name then
        (registers register).bind (h.arithmetic.unary .integerPart) else registers register) =
          some value) : Enters h scopes registers (.name id) (some value)
  | negate {start : Position} {operand : Expr} {value result : Datum}
      (hoperand : Enters h scopes registers operand (some value))
      (hresult : h.arithmetic.unary .negate value = some result) :
      Enters h scopes registers (.negate start operand) (some result)

/-- Code that pushes data and leaves the registers alone, wherever it stands. -/
def Pushes (h : Hardware) (registers : Register → Option Datum) (code : List Instr)
    (data : List Datum) : Prop :=
  ∀ (program : List Instr) (line : Nat) (d : Device) (callers : List Frame),
    CodeAt program line code → d.registers = registers →
      ∃ d', d'.registers = registers ∧ d'.levels = d.levels.pushAll data ∧
        h.Path (Above callers) ⟨d, ⟨program, line⟩ :: callers⟩
          ⟨d', ⟨program, line + code.length⟩ :: callers⟩

namespace Pushes

theorem nil : h.Pushes registers [] [] :=
  fun _ _ d _ _ hregisters => ⟨d, hregisters, rfl, .refl⟩

theorem append (hcode : h.Pushes registers code data) (hcode' : h.Pushes registers code' data') :
    h.Pushes registers (code ++ code') (data ++ data') := by
  intro program line d callers hat hregisters
  obtain ⟨hat, hat'⟩ := codeAt_append.mp hat
  obtain ⟨d₁, hregisters₁, hlevels₁, hfirst⟩ := hcode program line d callers hat hregisters
  obtain ⟨d₂, hregisters₂, hlevels₂, hsecond⟩ := hcode' program _ d₁ callers hat' hregisters₁
  refine ⟨d₂, hregisters₂, by rw [hlevels₂, hlevels₁]; exact List.foldl_append.symm, ?_⟩
  rw [List.length_append, ← Nat.add_assoc]
  exact hfirst.trans hsecond

theorem of_acts {datum : Datum}
    (hacts : h.Acts registers code fun levels => some (levels.push datum)) :
    h.Pushes registers code [datum] := by
  intro program line d callers hat hregisters
  obtain ⟨b, hpath⟩ := hacts program line d _ callers hat hregisters rfl
  exact ⟨(d.flagged Reserved.scratchFlag b).holding (d.levels.push datum), hregisters, rfl,
    hpath.mono fun _ => Between.above⟩

theorem unary {o : Op} {value result : Datum} (hcode : h.Pushes registers code [value])
    (ho : o.isUnary = true) (hresult : h.arithmetic.unary o value = some result) :
    h.Pushes registers (code ++ [.op o]) [result] := by
  intro program line d callers hat hregisters
  obtain ⟨hat, hop⟩ := codeAt_append.mp hat
  obtain ⟨d₁, hregisters₁, hlevels₁, hfirst⟩ := hcode program line d callers hat hregisters
  have heffect : (h.arithmetic.unary o d₁.levels.x).map d₁.levels.replace =
      some (d.levels.push result) := by
    rw [hlevels₁]
    show (h.arithmetic.unary o value).map _ = _
    rw [hresult]
    rfl
  obtain ⟨b, hsecond⟩ := effects.unary ho program _ d₁ _ callers hop hregisters₁ heffect
  refine ⟨(d₁.flagged Reserved.scratchFlag b).holding (d.levels.push result), hregisters₁, rfl, ?_⟩
  rw [List.length_append, ← Nat.add_assoc]
  exact hfirst.trans (hsecond.mono fun _ => Between.above)

/-- A line that sets the alpha register or appends to it enters nothing. -/
theorem of_alpha {instr : Instr}
    (hinstr : ∃ piece, instr = .alpha piece ∨ instr = .alphaAppend piece) :
    h.Pushes registers [instr] [] := by
  intro program line d callers hat hregisters
  obtain ⟨piece, rfl | rfl⟩ := hinstr
  · exact ⟨{ d with alpha := piece }, hregisters, rfl,
      Goes.reaches (.perform hat.head rfl rfl) callers⟩
  · exact ⟨{ d with alpha := d.alpha ++ piece }, hregisters, rfl,
      Goes.reaches (.perform hat.head rfl rfl) callers⟩

theorem of_alphaLines
    (hcode : ∀ instr ∈ code, ∃ piece, instr = .alpha piece ∨ instr = .alphaAppend piece) :
    h.Pushes registers code [] := by
  induction code with
  | nil => exact nil
  | cons instr rest ih =>
    rw [List.forall_mem_cons] at hcode
    exact append (of_alpha hcode.1) (ih hcode.2)

end Pushes

end Hardware

namespace Emit

variable {h : Hardware} {scopes : Scopes} {registers : Register → Option Datum}
  {labels : FunctionLabels} {s s' : Emitter} {args : List Expr}

/-- From one state to another, lines are written that enter data. They are no labels or calls that
could become local. -/
def WritesData (h : Hardware) (registers : Register → Option Datum) (data : List Datum)
    (s s' : Emitter) : Prop :=
  ∃ code, Emits code s s' ∧ (∀ instr ∈ code, Listing.localisedInstr instr = instr) ∧
    h.Pushes registers code data

namespace WritesData

theorem of_line {instr : Instr} {datum : Datum}
    (hrun : (Emit.line instr instr.kind).run s = .ok ((), s'))
    (hlocal : localisedInstr instr = instr)
    (hacts : h.Acts registers [instr] fun levels => some (levels.push datum)) :
    WritesData h registers [datum] s s' :=
  ⟨[instr], emits_line hrun, List.forall_mem_singleton.mpr hlocal, .of_acts hacts⟩

end WritesData

theorem localisedInstr_recallCode {name : String} {register : Register} {instr : Instr}
    (hinstr : instr ∈ scopes.recallCode name register) : localisedInstr instr = instr := by
  rcases List.mem_cons.mp hinstr with rfl | hinstr
  · rfl
  · split at hinstr
    · obtain rfl := List.mem_singleton.mp hinstr
      rfl
    · cases hinstr

/-- The code of an argument enters what it says. -/
theorem writesData_expr {e : Expr} {entered : Option Datum}
    (henters : h.Enters s.scopes registers e entered)
    (hrun : (expr labels e).run s = .ok ((), s')) : WritesData h registers entered.toList s s' := by
  generalize hscopes : s.scopes = scopes at henters
  induction henters generalizing s' with
  | int _ n =>
    exact .of_line hrun rfl (Hardware.effects.int n)
  | float _ spelling =>
    exact .of_line hrun rfl (Hardware.effects.decimal spelling)
  | bool _ b =>
    cases b with
    | true => exact .of_line hrun rfl (Hardware.effects.int 1)
    | false => exact .of_line hrun rfl (Hardware.effects.int 0)
  | none =>
    exact .of_line hrun rfl (Hardware.effects.int 0)
  | string _ text =>
    cases hrun
    refine ⟨alphaLines text, ⟨instrs_emitAll, rfl, rfl,
      lastIsString_emitAll kind_of_mem_alphaLines⟩,
      fun instr hinstr => ?_, .of_alphaLines fun instr hinstr => ?_⟩
    · obtain ⟨piece, -, rfl | rfl⟩ := mem_alphaLines hinstr <;> rfl
    · obtain ⟨piece, -, hinstr⟩ := mem_alphaLines hinstr
      exact ⟨piece, hinstr⟩
  | name hregister hvalue =>
    obtain ⟨register, hget, hemits⟩ := emits_recallName hrun
    rw [hscopes] at hget hemits
    cases hget.symm.trans hregister
    exact ⟨_, hemits, fun _ => localisedInstr_recallCode,
      .of_acts (Hardware.acts_recallCode hvalue)⟩
  | negate hoperand hresult ih =>
    obtain ⟨⟨⟩, s₁, hfirst, hop⟩ := run_bind.mp hrun
    obtain ⟨code, hemits, hlocal, hpushes⟩ := ih hfirst
    have hline : (line (.op .negate)).run s₁ = .ok ((), s') := hop
    refine ⟨code ++ [.op .negate], hemits.trans (emits_line hline), fun instr hinstr => ?_,
      hpushes.unary rfl hresult⟩
    rcases List.mem_append.mp hinstr with hinstr | hinstr
    · exact hlocal instr hinstr
    · obtain rfl := List.mem_singleton.mp hinstr
      rfl

theorem writesData_inOrder {entered : List (Option Datum)}
    (henters : List.Forall₂ (h.Enters s.scopes registers) args entered)
    (hrun : (inOrder (codes labels args)).run s = .ok ((), s')) :
    WritesData h registers entered.reduceOption s s' := by
  induction args generalizing s entered with
  | nil =>
    cases henters
    cases hrun
    exact ⟨[], .refl _, List.forall_mem_nil _, .nil⟩
  | cons e rest ih =>
    obtain ⟨first, others, hfirst, hothers, rfl⟩ := List.forall₂_cons_left_iff.mp henters
    obtain ⟨⟨⟩, s₁, hrun₁, hrun₂⟩ := run_bind.mp hrun
    obtain ⟨code, hemits, hlocal, hpushes⟩ := writesData_expr hfirst hrun₁
    rw [← hemits.scopes] at hothers
    obtain ⟨code', hemits', hlocal', hpushes'⟩ := ih hothers hrun₂
    refine ⟨code ++ code', hemits.trans hemits', fun instr hinstr => ?_, ?_⟩
    · exact (List.mem_append.mp hinstr).elim (hlocal instr) (hlocal' instr)
    · have hdata : (first :: others).reduceOption = first.toList ++ others.reduceOption := by
        cases first <;> rfl
      exact hdata ▸ hpushes.append hpushes'

end Emit

/-! ### Calls -/

namespace Listing

variable {labels : FunctionLabels} {listing : Listing} {library localLabels : Bool} {label : Label}
  {code : List Instr} {line : Nat}

theorem eq_of_finalLabel_eq {other : Label} (hown : label.IsOwn)
    (h : finalLabel localLabels other = label) : other = label := by
  cases localLabels with
  | false => exact h
  | true =>
    have hlocal : localised other = localised label := h.trans (localised_of_isOwn hown).symm
    refine eq_of_localised_eq (Or.inr hown) (fun n hn => ?_) hlocal
    subst hn
    rw [show label = .number n from h.symm] at hown
    exact hown.elim

/-- Lines that are no labels or calls that could become local stand in the program too. -/
theorem codeAt_final (hcode : CodeAt listing.instrs line code)
    (hlocal : ∀ instr ∈ code, localisedInstr instr = instr) :
    CodeAt ((listing.instrs ++ suffix library listing.needed).map (finalInstr localLabels))
      line code := by
  intro k instr hinstr
  refine instrAt_map.mpr ⟨instr, (hcode k instr hinstr).append _, ?_⟩
  cases localLabels with
  | false => rfl
  | true => exact hlocal instr (List.mem_of_getElem? hinstr)

/-- In the program, the label of a function stands where it stands in the listing, and nowhere
else. -/
theorem IsLinked.instrAt_final_iff (h : listing.IsLinked labels) {name : String}
    (hlabel : labels.get? name = some label) (hline : InstrAt listing.instrs line (.lbl label))
    {k : Nat} : InstrAt ((listing.instrs ++ suffix library listing.needed).map
      (finalInstr localLabels)) k (.lbl label) ↔ k = line := by
  have hown := h.own name label hlabel
  constructor
  · intro hk
    obtain ⟨source, hsource, hfinal⟩ := instrAt_map.mp hk
    obtain ⟨other, rfl, hother⟩ := finalInstr_eq_lbl.mp hfinal
    obtain rfl := eq_of_finalLabel_eq hown hother
    rcases instrAt_append.mp hsource with hsource | ⟨-, hsuffix⟩
    · obtain ⟨only, -, honly⟩ := existsUnique_instrAt.mpr (h.once name _ hlabel)
      rw [honly k hsource, honly line hline]
    · have hnone := count_own_suffix hown library listing.needed
      exact absurd (List.mem_of_getElem? hsuffix) (List.count_eq_zero.mp hnone)
  · rintro rfl
    exact instrAt_map.mpr ⟨_, hline.append _, finalInstr_lbl_of_isOwn hown⟩

end Listing

theorem Routine.ofLabel?_of_isOwn (h : label.IsOwn) : ofLabel? label = none := by
  cases label with
  | global name => exact h.1
  | letter c => rfl
  | number n => exact h.elim

theorem Hardware.callee_eq (hown : label.IsOwn)
    (hline : ∀ k, InstrAt code k (.lbl label) ↔ k = line) :
    callee code label = some ⟨code, line⟩ := by
  have hfind : (code.findIdx? fun instr => instr = .lbl label) = some line := by
    obtain ⟨hlt, hat⟩ := List.getElem?_eq_some_iff.mp ((hline line).mpr rfl)
    refine List.findIdx?_eq_some_iff_getElem.mpr ⟨hlt, decide_eq_true hat, fun k hk hlabel => ?_⟩
    have hk' := (hline k).mp (List.getElem?_eq_some_iff.mpr ⟨_, of_decide_eq_true hlabel⟩)
    omega
  rw [callee, Routine.ofLabel?_of_isOwn hown]
  rw [hfind]
  rfl

/-- A function that begins in some scopes keeps its parameters in registers: the parameters are
bound one after another, and the body finds each of them in its register. -/
structure Procedure.KeepsIn (procedure : Procedure) (scopes : Scopes)
    (targets : List (Ident × Register)) : Prop where
  idents : targets.map Prod.fst = procedure.params
  nodup : (targets.map Prod.snd).Nodup
  found : ∃ scopes', scopes.BindsEach targets scopes' ∧
    ∀ target ∈ targets, scopes'.lookup target.1.name = some target.2

/-- Every function of a script begins with its label and code that stores its parameters. -/
theorem Listing.exists_prologue {text : String} {options : Options} {user : Listing}
    {body : List Stmt} {labels : FunctionLabels} {procedure : Procedure}
    (hbody : Script.ofSource (SourceText.ofString text) = .ok body)
    (hlabels : FunctionLabels.assign body = .ok labels)
    (huser : ofScript labels body options.registerLimit = .ok user)
    (hprocedure : procedure ∈ Script.functionProcedures labels body)
    (hnames : (procedure.params.map (·.name)).Nodup)
    (hshort : ∀ param ∈ procedure.params, param.name.length ≤ maxNameLength) :
    ∃ scopes targets line, procedure.BeginsIn text options scopes ∧
      procedure.KeepsIn scopes targets ∧
      CodeAt user.instrs line (.lbl procedure.label :: prologue (targets.map Prod.snd)) := by
  have hlinkable := (FunctionLabels.assigned_of_assign hlabels).own
  obtain ⟨⟨⟩, last, hrun, rfl⟩ := ofScript_eq_ok.mp huser
  obtain ⟨⟨⟩, s, hentry, hfunctions⟩ := Emit.run_bind.mp hrun
  obtain ⟨start, hbegins⟩ := Emit.exists_begins body hprocedure s last hfunctions
  obtain ⟨t, hwrite, hprefix⟩ := hbegins.written hlinkable hfunctions
  obtain ⟨targets, s₁, s₂, hopens, hcode, hfinish⟩ := Procedure.run_write hwrite
  rw [← hopens.idents, List.map_map] at hnames
  refine ⟨start.scopes, targets, start.size,
    ⟨body, labels, s, start, hbody, hlabels, hentry, hbegins, rfl⟩,
    ⟨hopens.idents, ?_, s₁.scopes, hopens.binds, hopens.binds.lookup_eq hnames⟩, ?_⟩
  · exact hopens.binds.nodup_registers hnames fun target htarget =>
      variableName_of_length_le (hshort _ (hopens.idents ▸ List.mem_map_of_mem htarget))
  -- the body and the return come behind the code that stores the parameters
  · have hown :=
      (Emit.writes_ownCode hlinkable procedure.body (Script.named_any_stmts _)).grows hcode
    exact codeAt_of_instrs hopens.instrs
      (hown.2.trans ((Emit.finishBody_grows hfinish).2.trans hprefix))

/-! ### What parameters get -/

theorem forall_getElem?_add_iff {V : Type} {values : List V} :
    (∀ i < values.length, values[i + 4 * ((values.length - 1 - i) / 4)]? = values[i]?) ↔
      ∀ i, i + 4 < values.length → values[i]? = values[i + 4]? := by
  constructor
  · intro h i hi
    rw [← h i (by omega), ← h (i + 4) hi]
    exact congrArg (values[·]?) (by omega)
  · intro h
    have hsteps : ∀ q i, i + 4 * q < values.length → values[i + 4 * q]? = values[i]? := by
      intro q
      induction q with
      | zero => exact fun _ _ => rfl
      | succ q ih =>
        intro i hi
        rw [h i (by omega), ← ih (i + 4) (by omega)]
        exact congrArg (values[·]?) (by omega)
    exact fun i hi => hsteps _ i (by omega)

/-- Parameters are read off the levels after some data have been entered, from the last one on. -/
structure Device.Receives (d : Device) (targets : List (Ident × Register)) (data : List Datum)
    (d' : Device) : Prop where
  others : ∀ register ∉ targets.map Prod.snd, d'.registers register = d.registers register
  param : ∀ i target, targets[i]? = some target → d'.registers target.2 =
    ((data.reverse ++ d.levels.toList).take 4)[(targets.length - 1 - i) % 4]?

namespace Device.Receives

variable {d d' : Device} {targets : List (Ident × Register)} {values : List Datum}

/-- With a value for every parameter, a parameter gets the last value that is a multiple of four
places behind its own. -/
theorem param_eq (h : d.Receives targets values d') (hlength : values.length = targets.length)
    {i : Nat} {target : Ident × Register} (htarget : targets[i]? = some target) :
    d'.registers target.2 = values[i + 4 * ((values.length - 1 - i) / 4)]? := by
  have hi : i < targets.length := (List.getElem?_eq_some_iff.mp htarget).1
  have hlast : (targets.length - 1 - i) % 4 < values.length := by omega
  rw [h.param i target htarget, List.getElem?_take_of_lt (Nat.mod_lt _ (by decide)),
    List.getElem?_append_left (by rwa [List.length_reverse]), List.getElem?_reverse hlast]
  exact congrArg (values[·]?) (by omega)

/-- All parameters get their values only if values that are four places apart are the same. -/
theorem map_eq_iff (h : d.Receives targets values d') (hlength : values.length = targets.length) :
    (targets.map fun target => d'.registers target.2) = values.map some ↔
      ∀ i, i + 4 < values.length → values[i]? = values[i + 4]? := by
  rw [← forall_getElem?_add_iff, List.map_eq_iff]
  refine forall_congr' fun i => ?_
  rw [List.getElem?_map]
  rcases Nat.lt_or_ge i values.length with hi | hi
  · have htarget := List.getElem?_eq_getElem (show i < targets.length from hlength ▸ hi)
    rw [htarget, List.getElem?_eq_getElem hi, Option.map_some, Option.map_some,
      h.param_eq hlength htarget]
    simp only [Option.some.injEq, hi, forall_const, eq_comm]
  · rw [List.getElem?_eq_none hi, List.getElem?_eq_none (hlength ▸ hi)]
    exact iff_of_true rfl fun hlt => absurd hlt (Nat.not_lt.mpr hi)

end Device.Receives

/-- The code that stores parameters reads them off the levels. -/
theorem Device.receives_storeDown {d₁ : Device} {data : List Datum}
    (hnodup : (targets.map Prod.snd).Nodup) (hregisters : d₁.registers = d.registers)
    (hlevels : d₁.levels = d.levels.pushAll data) :
    d.Receives targets data (d₁.storeDown (targets.map Prod.snd).reverse) where
  others register hregister := by
    rw [registers_storeDown_of_notMem (by rwa [List.mem_reverse]), hregisters]
  param i target htarget := by
    have hi : i < targets.length := (List.getElem?_eq_some_iff.mp htarget).1
    have hstored : (targets.map Prod.snd).reverse[targets.length - 1 - i]? = some target.2 := by
      rw [List.getElem?_reverse (by rw [List.length_map]; omega), List.length_map,
        show targets.length - 1 - (targets.length - 1 - i) = i by omega, List.getElem?_map, htarget]
      rfl
    rw [registers_storeDown (List.nodup_reverse.mpr hnodup) hstored, hlevels, Levels.toList_pushAll]

namespace Hardware

variable {h : Hardware} {d : Device} {code program : List Instr} {label : Label}
  {registers : List Register} {line line' : Nat} {callers : List Frame} {library localLabels : Bool}

/-- A call goes to its label and stores the parameters. -/
theorem path_enter (hown : label.IsOwn) (hline : ∀ k, InstrAt code k (.lbl label) ↔ k = line')
    (hcode : CodeAt code line' (.lbl label :: prologue registers))
    (hcall : InstrAt code line (.xeq label)) :
    h.Path (Above callers) ⟨d, ⟨code, line⟩ :: callers⟩
      ⟨d.storeDown registers.reverse,
        ⟨code, line' + 1 + 2 * registers.length⟩ :: ⟨code, line + 1⟩ :: callers⟩ := by
  have hstores := Goes.trans (h := h) (.advance (advance_label hcode.head))
    (goes_storeDown (d := d) hcode.tail)
  rw [List.length_reverse] at hstores
  refine .head ⟨Nat.lt_succ_self _, step_of_callee hcall (callee_eq hown hline)⟩
    ((hstores.reaches _).mono fun p hp => ?_)
  exact Nat.lt_of_succ_lt hp

/-- A call runs the code of its arguments and the code that stores the parameters. -/
theorem path_call {labels : FunctionLabels} {user : Listing} {start : Position} {callee : Ident}
    {args : List Expr} {targets : List (Ident × Register)} {entered : List (Option Datum)}
    {s s' : Emitter} (hlinked : user.IsLinked labels)
    (hlabel : labels.get? callee.name = some label)
    (hcode : CodeAt user.instrs line (.lbl label :: prologue (targets.map Prod.snd)))
    (hnodup : (targets.map Prod.snd).Nodup)
    (hcall : (Emit.expr labels (.call start callee args)).run s = .ok ((), s'))
    (hwritten : s'.listing.instrs <+: user.instrs)
    (henters : List.Forall₂ (h.Enters s.scopes d.registers) args entered)
    (hprogram : program = (user.instrs ++ suffix library user.needed).map
      (finalInstr localLabels)) :
    ∃ d', h.Path (Above callers) ⟨d, ⟨program, s.size⟩ :: callers⟩
        ⟨d', ⟨program, line + 1 + 2 * targets.length⟩ :: ⟨program, s'.size⟩ :: callers⟩ ∧
      d.Receives targets entered.reduceOption d' := by
  have hown := hlinked.own _ _ hlabel
  rw [Emit.expr, Emit.callFunction, hlabel] at hcall
  obtain ⟨⟨⟩, s₁, hinOrder, hxeq⟩ := Emit.run_bind.mp hcall
  obtain ⟨code, hemits, hlocal, hpushes⟩ := Emit.writesData_inOrder henters hinOrder
  have hwhole := hemits.trans (Emit.emits_line hxeq)
  have hat : CodeAt program s.size (code ++ [.xeq label]) := by
    rw [hprogram]
    refine codeAt_final (codeAt_of_instrs hwhole.instrs hwritten) ?_
    exact List.forall_mem_append.mpr ⟨hlocal,
      List.forall_mem_singleton.mpr (congrArg Instr.xeq (localised_of_isOwn hown))⟩
  have hstores : CodeAt program line (.lbl label :: prologue (targets.map Prod.snd)) := by
    rw [hprogram]
    refine codeAt_final hcode (List.forall_mem_cons.mpr ⟨?_, fun instr hinstr => ?_⟩)
    · exact congrArg Instr.lbl (localised_of_isOwn hown)
    · rcases mem_prologue hinstr with ⟨register, rfl⟩ | rfl <;> rfl
  -- the call finds the function, since its label occurs once
  have hline : ∀ k, InstrAt program k (.lbl label) ↔ k = line := fun k => by
    rw [hprogram]
    exact hlinked.instrAt_final_iff hlabel hcode.head
  obtain ⟨henter, hxeqAt⟩ := codeAt_append.mp hat
  obtain ⟨d₁, hregisters, hlevels, hpath⟩ := hpushes program s.size d callers henter rfl
  refine ⟨d₁.storeDown (targets.map Prod.snd).reverse, hpath.trans ?_,
    Device.receives_storeDown hnodup hregisters hlevels⟩
  have hsize : s'.size = s.size + code.length + 1 := by
    rw [Emitter.size, hwhole.length_eq, List.length_append]
    rfl
  rw [hsize, ← List.length_map Prod.snd]
  exact path_enter hown hline hstores hxeqAt.head

/-- A call reads the parameters of a function off the four levels of the stack, behind its
arguments. So every parameter gets its argument as long as there are not more than four and none of
them is a text; with more, only if arguments that are four places apart have the same value. -/
theorem call_arguments_on_levels {text : String} {options : Options} {final user : Listing}
    {body : List Stmt} {labels : FunctionLabels} {procedure : Procedure} {start : Position}
    {callee : Ident}
    {args : List Expr} {s s' : Emitter} (hcompile : compile text options = .ok final)
    (hbody : Script.ofSource (SourceText.ofString text) = .ok body)
    (hlabels : FunctionLabels.assign body = .ok labels)
    (huser : Listing.ofScript labels body options.registerLimit = .ok user)
    (hprocedure : procedure ∈ Script.functionProcedures labels body)
    (hnames : (procedure.params.map (·.name)).Nodup)
    (hshort : ∀ param ∈ procedure.params, param.name.length ≤ maxNameLength)
    (hcallee : labels.get? callee.name = some procedure.label)
    (hargs : args.length = procedure.params.length)
    (hcall : (Emit.expr labels (.call start callee args)).run s = .ok ((), s'))
    (hwritten : s'.listing.instrs <+: user.instrs) :
    ∃ scopes targets line, procedure.BeginsIn text options scopes ∧
      procedure.KeepsIn scopes targets ∧ InstrAt final.instrs line (.lbl procedure.label) ∧
      ∀ (h : Hardware) (d : Device) (callers : List Frame) (entered : List (Option Datum)),
        List.Forall₂ (h.Enters s.scopes d.registers) args entered →
        ∃ d', h.Path (Above callers) ⟨d, ⟨final.instrs, s.size⟩ :: callers⟩
            ⟨d', ⟨final.instrs, line + 1 + 2 * args.length⟩ :: ⟨final.instrs, s'.size⟩ :: callers⟩ ∧
          d.Receives targets entered.reduceOption d' ∧
          ∀ values : List Datum, entered = values.map some →
            ((targets.map fun target => d'.registers target.2) = values.map some ↔
              ∀ i, i + 4 < args.length → values[i]? = values[i + 4]?) := by
  obtain ⟨body', labels', user', hbody', hlabels', huser', rfl⟩ := compile_eq_ok.mp hcompile
  cases hbody.symm.trans hbody'
  cases hlabels.symm.trans hlabels'
  cases huser.symm.trans huser'
  have hlinked := Listing.isLinked_ofScript hlabels huser
  obtain ⟨scopes, targets, line, hbegins, hkeeps, hcode⟩ :=
    Listing.exists_prologue hbody hlabels huser hprocedure hnames hshort
  have hlength : args.length = targets.length := by
    rw [hargs, ← hkeeps.idents, List.length_map]
  refine ⟨scopes, targets, line, hbegins, hkeeps, ?_, fun h d callers entered henters => ?_⟩
  · rw [Listing.instrs_final]
    exact (hlinked.instrAt_final_iff hcallee hcode.head).mpr rfl
  obtain ⟨d', hpath, hreceives⟩ :=
    path_call hlinked hcallee hcode hkeeps.nodup hcall hwritten henters Listing.instrs_final
  rw [← hlength] at hpath
  refine ⟨d', hpath, hreceives, fun values hvalues => ?_⟩
  have hentered : entered.reduceOption = values := by
    rw [hvalues]
    show (values.map some).filterMap id = values
    rw [List.filterMap_map]
    exact List.filterMap_some
  have hcount : values.length = args.length := by
    rw [henters.length_eq, hvalues, List.length_map]
  rw [hentered] at hreceives
  rw [hreceives.map_eq_iff (hcount.trans hlength), hcount]

/-- A call with five arguments: the function returns the first of its parameters. -/
def firstOfFiveText : String :=
  "LBL(\"M\")\nprint(f(1, 2, 3, 4, 5))\ndef f(a, b, c, d, e):\n  return a\n"

/-- The arguments of the call. -/
def oneToFive : List Expr :=
  [.int {} 1, .int {} 2, .int {} 3, .int {} 4, .int {} 5]

/-- The state in which the code of the call begins, behind the label of the program. -/
def firstOfFiveStart : Emitter :=
  { listing := ({} : Listing).emit (.lbl (.global "M")) none, scopes := .ofLimit 100 }

/-- The parameter `a` gets 5. -/
theorem call_arguments_on_levels_five :
    ∃ (final : Listing) (procedure : Procedure) (scopes : Scopes)
    (targets : List (Ident × Register)) (line : Nat), compile firstOfFiveText {} = .ok final ∧
    procedure.params.map (·.name) = ["a", "b", "c", "d", "e"] ∧ procedure.KeepsIn scopes targets ∧
    ∀ (h : Hardware) (d : Device) (callers : List Frame), ∃ d',
      h.Path (Above callers) ⟨d, ⟨final.instrs, 1⟩ :: callers⟩
        ⟨d', ⟨final.instrs, line⟩ :: ⟨final.instrs, 7⟩ :: callers⟩ ∧
      ∀ target, targets[0]? = some target → d'.registers target.2 = some (.number 5) := by
  have hfacts : (compile firstOfFiveText {}).toOption.any (fun _ =>
      (Script.ofSource (SourceText.ofString firstOfFiveText)).toOption.any fun body =>
      (FunctionLabels.assign body).toOption.any fun labels =>
      (Listing.ofScript labels body 100).toOption.any fun user =>
      ((Emit.expr labels (.call {} ⟨{}, "f"⟩ oneToFive)).run firstOfFiveStart).toOption.any
      fun after =>
      (Script.functionProcedures labels body).any fun procedure =>
        (procedure.params.map (·.name) = ["a", "b", "c", "d", "e"] ∧
          labels.get? "f" = some procedure.label) ∧
        after.2.size = 7 ∧ after.2.listing.instrs <+: user.instrs) = true := by
    decide +kernel
  obtain ⟨final, hfinal, hfacts⟩ := exists_ok_of_any hfacts
  obtain ⟨body, hbody, hfacts⟩ := exists_ok_of_any hfacts
  obtain ⟨labels, hlabels, hfacts⟩ := exists_ok_of_any hfacts
  obtain ⟨user, huser, hfacts⟩ := exists_ok_of_any hfacts
  obtain ⟨⟨_, s'⟩, hcall, hfacts⟩ := exists_ok_of_any hfacts
  obtain ⟨procedure, hprocedure, hfacts⟩ := List.any_eq_true.mp hfacts
  obtain ⟨⟨hparams, hlabel⟩, hsize, hwritten⟩ := of_decide_eq_true hfacts
  have hnames : (procedure.params.map (·.name)).Nodup := hparams ▸ by decide
  have hshort : ∀ param ∈ procedure.params, param.name.length ≤ maxNameLength := by
    have hall : ∀ name ∈ ["a", "b", "c", "d", "e"], name.length ≤ maxNameLength := by decide
    exact fun param hparam => hall _ (hparams ▸ List.mem_map_of_mem hparam)
  have hcount : oneToFive.length = procedure.params.length :=
    (congrArg List.length hparams).symm.trans (List.length_map _)
  obtain ⟨scopes, targets, line, -, hkeeps, -, hruns⟩ :=
    call_arguments_on_levels hfinal hbody hlabels
    huser hprocedure hnames hshort hlabel hcount hcall hwritten
  refine ⟨final, procedure, scopes, targets, line + 1 + 2 * oneToFive.length, hfinal,
    hparams, hkeeps, fun h d callers => ?_⟩
  obtain ⟨d', hpath, hreceives, -⟩ := hruns h d callers _ (.cons (.int {} 1) (.cons (.int {} 2)
    (.cons (.int {} 3) (.cons (.int {} 4) (.cons (.int {} 5) .nil)))))
  rw [hsize] at hpath
  refine ⟨d', hpath, fun target htarget => ?_⟩
  have hfive : targets.length = 5 := by
    rw [← List.length_map Prod.fst, hkeeps.idents, ← hcount]
    rfl
  rw [hreceives.param 0 target htarget, hfive]
  rfl

end Hardware

end Keystroke
