import Keystroke.Proofs.NamedTrees
import Keystroke.Proofs.RegisterLimits

/-!
# Disciplines of code

That code only works on registers that have been stored to, that it runs from its first line to its
last, that it is made of certain steps: each of these holds of the single steps and is kept when one
action follows another. So it holds of all code that an expression or an assignment writes. That is
shown here once, for any such property.
-/

namespace Keystroke

open Script (Expr Ident)

/-! ### Instructions -/

/-- Whether an instruction without an operand decides where a program goes on. -/
def Op.isControl : Op → Bool
  | isZero | isNonzero | isNegative | xEqY | xNeY | xLtY | xGtY | xLeY | xGeY | returns => true
  | _ => false

/-- Whether a flag instruction decides where a program goes on. -/
def FlagOp.isControl : FlagOp → Bool
  | set | clear => false
  | isSet | isClear | isClearThenClear => true

/-- Whether an instruction on a register can stand anywhere. A counter is stepped before a jump
only, and stores are written by assignments only. -/
def MemoryOp.isPlain : MemoryOp → Bool
  | stepCounter | store | storeAlpha => false
  | _ => true

theorem MemoryOp.ne_of_isPlain {o other : MemoryOp} (h : o.isPlain = true)
    (hother : other.isPlain = false) : o ≠ other := by
  rintro rfl
  simp [h] at hother

/-- Whether a function of the calculator decides where a program goes on, or stores to a
variable. -/
def Primitive.isControl : Primitive → Bool
  | stack o _ _ => o.isControl
  | digits (.setting _) => false
  | digits (.flag o) => o.isControl
  | onVariable o => !o.isPlain

/-- The functions of the calculator that a script can call neither test nor jump nor store. -/
theorem Primitive.isControl_of_ofName? {name : String} {instruction : Primitive}
    (h : ofName? name = some instruction) : instruction.isControl = false := by
  have hall : ∀ p ∈ all, p.isControl = false := by decide
  exact hall instruction (List.mem_of_find?_eq_some h)

theorem mem_alphaLines {text : String} {instr : Instr} (h : instr ∈ alphaLines text) :
    ∃ piece ∈ alphaPieces text, instr = .alpha piece ∨ instr = .alphaAppend piece := by
  unfold alphaLines at h
  split at h
  · cases h
  · rename_i first rest hpieces
    rw [hpieces]
    rcases List.mem_cons.mp h with rfl | hrest
    · exact ⟨first, List.mem_cons_self, Or.inl rfl⟩
    · obtain ⟨piece, hpiece, rfl⟩ := List.mem_map.mp hrest
      exact ⟨piece, List.mem_cons_of_mem first hpiece, Or.inr rfl⟩

theorem kind_of_mem_alphaLines {text : String} : ∀ instr ∈ alphaLines text,
    instr.kind = .string := by
  intro instr hinstr
  obtain ⟨piece, -, rfl | rfl⟩ := mem_alphaLines hinstr <;> rfl

/-- An instruction that decides nothing, calls nothing and works on no register, in a line of a
kind. -/
def Instr.IsInert (p : Vocabulary) : LineKind → Instr → Prop
  | .plain, .op o => o.isControl = false
  | .plain, .flag o _ => o.isControl = false
  | .plain, .memory o (.stack _) => o.isPlain = true
  | .plain, .decimal spelling => p.number spelling
  | .string, .alpha piece | .string, .alphaAppend piece =>
    ∃ text, p.text text ∧ piece ∈ alphaPieces text
  | .plain, .int _ | .plain, .setting _ _ => True
  | _, _ => False

theorem Instr.IsInert.kind_eq {p : Vocabulary} {kind : LineKind} {instr : Instr}
    (h : instr.IsInert p kind) : kind = instr.kind := by
  cases kind <;> cases instr <;> first | rfl | exact h.elim

def Script.Expr.isCompound : Expr → Bool
  | .slice _ _ _ | .tuple _ _ => true
  | _ => false

/-- Whether the code of a statement can fail for a cause. That labels run out, or that a function
has none, is not up to the statement. -/
def Fault.isOwn : Fault → Bool
  | .jumps _ => false
  | .use (.functionWithoutLabel _) => false
  | _ => true

namespace Emit

/-! ### Disciplines -/

/-- What can become known of a register or a label while code is written. -/
inductive Fact where
  /-- The register can be worked on. -/
  | usable (register : Register)
  | container (register : Register)
  /-- The register has been handed out. -/
  | granted (register : Register)
  /-- The label can be jumped to. -/
  | label (n : Nat)

/-- The facts that are known at some point. -/
abbrev Facts := Fact → Prop

/-- What was known at some point is known at a later one. -/
def Facts.Later (known later : Facts) : Prop :=
  ∀ fact, known fact → later fact

/-- A way to reason about actions that follow each other. -/
structure Logic where
  /-- What scripts are made of. -/
  words : Vocabulary
  /-- From a point where `known` is known, an action goes on as it should. The value that it gives
  and what is known then are as `Q` says. -/
  Holds : {α : Type} → Facts → Emit α → (α → Facts → Prop) → Prop
  pure {α : Type} {known : Facts} {a : α} {Q : α → Facts → Prop}
    (h : ∀ later, known.Later later → Q a later) : Holds known (Pure.pure a) Q
  bind {α β : Type} {known : Facts} {m : Emit α} {f : α → Emit β} {Q : α → Facts → Prop}
    {R : β → Facts → Prop} (hm : Holds known m Q)
    (hf : ∀ a later, known.Later later → Q a later → Holds later (f a) R) : Holds known (m >>= f) R
  mono {α : Type} {known later : Facts} {m : Emit α} {Q : α → Facts → Prop}
    (hlater : known.Later later) (hm : Holds known m Q) : Holds later m Q
  fail {α : Type} {known : Facts} {fault : Fault} {start : Position} {Q : α → Facts → Prop}
    (h : fault.isOwn = true) (hplace : words.place start) :
    Holds known (Emit.fail fault start : Emit α) Q
  /-- An action that looks at the scopes, but not at the number of registers. -/
  read {α : Type} {known : Facts} {f : Emitter → Emit α} {Q : α → Facts → Prop}
    (hscopes : ∀ (s t : Emitter) limit, s.scopes = t.scopes.withLimit limit → f s = f t)
    (hf : ∀ s, Holds known (f s) Q) : Holds known (get >>= f) Q

/-- The logic of a property: an action goes on as it should if everything that can follow it has the
property also when it follows. Some facts are known from the start. -/
def Logic.through (words : Vocabulary) (P : {α : Type} → Emit α → Prop) (facts : Facts)
    (fail : ∀ {α : Type} {fault : Fault} {start : Position}, fault.isOwn = true →
      words.place start → P (Emit.fail fault start : Emit α))
    (read : ∀ {α : Type} {f : Emitter → Emit α},
      (∀ (s t : Emitter) limit, s.scopes = t.scopes.withLimit limit → f s = f t) →
      (∀ s, P (f s)) → P (get >>= f)) : Logic where
  words := words
  Holds {α} known m Q := known.Later facts → ∀ {β : Type} (k : α → Emit β),
    (∀ a, Q a facts → P (k a)) → P (m >>= k)
  pure h hknown _ k hk := by
    rw [pure_bind]
    exact hk _ (h facts hknown)
  bind hm hf hknown _ k hk := by
    rw [bind_assoc]
    exact hm hknown _ fun a ha => hf a facts hknown ha (fun _ => id) k hk
  mono hlater hm hknown := hm fun fact h => hknown fact (hlater fact h)
  fail h hplace _ _ _ _ := fail h hplace
  read hscopes hf hknown _ k hk := by
    rw [bind_assoc]
    exact read (fun s t limit hsame => by rw [hscopes s t limit hsame]) fun s => hf s hknown k hk

/-- A register that an assignment gets is stored to, where both steps can be taken anyway. -/
theorem Logic.assigned {logic : Logic} {α : Type} {known : Facts} {m : Emit Register}
    {n : Register → Emit Unit} {f : Register → Emit α} {Q : α → Facts → Prop}
    (hm : logic.Holds known m fun register later => later (.usable register))
    (hn : ∀ register known, known (.usable register) →
      logic.Holds known (n register) fun _ _ => True)
    (hf : ∀ register later, known.Later later → later (.usable register) →
      logic.Holds later (f register) Q) :
    logic.Holds known (m >>= fun register => n register >>= fun _ => f register) Q :=
  logic.bind hm fun register known hlater hregister => logic.bind (hn register known hregister)
    fun _ later hlater' _ => hf register later (fun fact h => hlater' fact (hlater fact h))
      (hlater' _ hregister)

/-- A property of actions, with the steps that have it. -/
structure Discipline (labels : FunctionLabels) extends Logic where
  stores : String → Prop
  /-- Whether variables may be assigned to, as texts or otherwise. Only where it may be otherwise,
  names are made containers or aliases. -/
  declares : Bool → Prop
  lastIsString {known : Facts} : Holds known Emit.lastIsString fun _ _ => True
  line {known : Facts} {instr : Instr} {kind : LineKind} (h : instr.IsInert words kind) :
    Holds known (Emit.line instr kind) fun _ _ => True
  memory {known : Facts} {o : MemoryOp} {register : Register} (comment : Option String)
    (ho : o.isPlain = true) (h : known (.usable register)) :
    Holds known (modifyListing (·.emit (.memory o (.register register)) comment)) fun _ _ => True
  call {known : Facts} (routine : Routine) : Holds known (Emit.call routine) fun _ _ => True
  /-- A call of a function of the script. -/
  callOwn {known : Facts} {name : String} {label : Label} (h : labels.get? name = some label) :
    Holds known (Emit.line (.xeq label)) fun _ _ => True
  named {known : Facts} {name : String} (h : words.text name) :
    Holds known (Pure.pure (.named name)) fun register later => later (.usable register)
  registerOf {known : Facts} (name : String) {start : Position} (hplace : words.place start) :
    Holds known (Emit.registerOf name start) fun register later => later (.usable register)
  containerOf {known : Facts} {id : Ident} (hplace : words.place id.start) :
    Holds known (Emit.containerOf id) fun found later =>
      later (.usable found.1) ∧ later (.container found.1)
  selectContainer {known : Facts} {register : Register} (h : known (.container register)) :
    Holds known (Emit.selectContainer register) fun _ _ => True
  declare {known : Facts} {name : String} {info : VarInfo} {start : Position}
    (hdeclares : declares false)
    (hname : stores name) (hinfo : info = .list ∨ info = .dict) (hplace : words.place start) :
    Holds known (Emit.bind name info start) fun register later =>
      later (.usable register) ∧ later (.container register)
  share {known : Facts} {name : String} (target : String) {start : Position}
    (hdeclares : declares false) (hname : stores name) (hplace : words.place start) : Holds known
      (withScopes (fun scopes => return ((), ← scopes.bindAlias name target)) start) fun _ _ => True
  /-- A variable that gets no numbered register. -/
  storeNamed {known : Facts} {name : String} {info : VarInfo} {start : Position}
    (hname : stores name) (hforced : ∀ forced, info.forcedName = some forced → forced = name)
    (hnamed : Scopes.namedRegister? name info ≠ none) (hplace : words.place start) :
    Holds known (Emit.storeRegister name info start) fun register later => later (.usable register)
  /-- A register that an assignment gets is stored to before anything else. -/
  assigned {α : Type} {known : Facts} {name comment : String} {info : VarInfo}
    {start : Position} {alpha : Bool}
    {f : Register → Emit α} {Q : α → Facts → Prop} (hdeclares : declares alpha)
    (hname : stores name) (hforced : info.forcedName = none) (hplace : words.place start)
    (hf : ∀ register later, known.Later later → later (.usable register) →
      Holds later (f register) Q) :
    Holds known (Emit.storeRegister name info start >>= fun register =>
      Emit.store register comment alpha >>= fun _ => f register) Q
  /-- So are the registers that an assignment to several names gets. -/
  unpacked {known : Facts} {names : List Expr} (hdeclares : declares false)
    (h : ∀ name ∈ names.flatMap Expr.ownName, stores name) (hnamed : ∀ e ∈ names, e.Named words) :
    Holds known (unpackedRegisters names >>= fun registers => storeDown registers.reverse)
      fun _ _ => True
  /-- A variable is stored to again. -/
  store {known : Facts} {register : Register} {comment : String} (hdeclares : declares false)
    (h : known (.usable register)) : Holds known (Emit.store register comment false) fun _ _ => True

namespace Discipline

variable {α β : Type} {labels : FunctionLabels} {D : Discipline labels} {known : Facts}
  {Q : α → Facts → Prop} {R : β → Facts → Prop} {m : Emit α} {c : Prop} {o : MemoryOp}
  {items : List (Emit Unit)} {object callee : Ident} {bound : Option Expr} {targets : List Expr}

/-- An action goes on as it should, wherever it starts. -/
def Tame (D : Discipline labels) (m : Emit α) : Prop :=
  ∀ known, D.Holds known m fun _ _ => True

theorem next {f : α → Emit β} (hm : D.Holds known m Q) (hf : ∀ a, D.Holds known (f a) R) :
    D.Holds known (m >>= f) R :=
  D.bind hm fun a _ hlater _ => D.mono hlater (hf a)

theorem ite [Decidable c] {n : Emit α} (hm : D.Holds known m Q) (hn : D.Holds known n Q) :
    D.Holds known (if c then m else n) Q := by
  split
  · exact hm
  · exact hn

namespace Tame

variable {fault : Fault} {start : Position} {c : Prop} {kind : LineKind}

theorem pure (a : α) : D.Tame (Pure.pure a : Emit α) :=
  fun _ => D.pure fun _ _ => trivial

theorem fail (h : fault.isOwn = true) (hplace : D.words.place start) :
    D.Tame (Emit.fail fault start : Emit α) :=
  fun _ => D.fail h hplace

variable {m : Emit α}

theorem bind {f : α → Emit β} (hm : D.Tame m) (hf : ∀ a, D.Tame (f a)) :
    D.Tame (m >>= f) :=
  fun known => next (hm known) fun a => hf a known

theorem ite [Decidable c] {n : Emit α} (hm : D.Tame m) (hn : D.Tame n) :
    D.Tame (if c then m else n) :=
  fun known => Discipline.ite (hm known) (hn known)

/-- An action that comes after a check. -/
theorem checked [Decidable c] (hm : D.Tame m) (h : fault.isOwn = true)
    (hplace : D.words.place start) : D.Tame (do
      if c then Emit.fail fault start
      m) :=
  ite (bind (fail h hplace) fun _ => hm) hm

theorem read {f : Emitter → Emit α}
    (hscopes : ∀ (s t : Emitter) limit, s.scopes = t.scopes.withLimit limit → f s = f t)
    (hf : ∀ s, D.Tame (f s)) : D.Tame (get >>= f) :=
  fun known => D.read hscopes fun s => hf s known

theorem line {instr : Instr} (h : instr.IsInert D.words kind) : D.Tame (Emit.line instr kind) :=
  fun _ => D.line h

theorem op {o : Op} (h : o.isControl = false) : D.Tame (Emit.op o) :=
  line h

theorem lines {instrs : List Instr} (h : ∀ instr ∈ instrs, instr.IsInert D.words kind) :
    D.Tame (Emit.lines instrs kind) := by
  induction instrs with
  | nil => exact pure ()
  | cons instr rest ih =>
    rw [List.forall_mem_cons] at h
    exact bind (line h.1) fun _ => ih h.2

theorem call (routine : Routine) : D.Tame (Emit.call routine) :=
  fun _ => D.call routine

/-- What comes after a look at the last line has to be tame for the kinds of lines only with which
the action before it can end. -/
theorem ending {m : Emit Unit} {k : Bool → Emit Unit} {ends : Bool → Prop}
    (hends : ∀ s s', m.run s = .ok ((), s') → ends s'.listing.lastIsString) (hm : D.Tame m)
    (hk : ∀ alpha, ends alpha → D.Tame (k alpha)) :
    D.Tame (m >>= fun _ => Emit.lastIsString >>= k) := by
  classical
  have hsame : (m >>= fun _ => Emit.lastIsString >>= k) = m >>= fun _ =>
      Emit.lastIsString >>= fun alpha => if ends alpha then k alpha else Pure.pure () := by
    refine bind_congr_of_run fun s _ s' hrun => ?_
    show _ = (if ends s'.listing.lastIsString then k _ else Pure.pure ()).run s'
    rw [if_pos (hends s s' hrun)]
    rfl
  rw [hsame]
  refine bind hm fun _ => bind (fun _ => D.lastIsString) fun alpha => ?_
  split
  · exact hk alpha ‹_›
  · exact pure _

end Tame

variable {register : Register}

theorem onRegister (h : known (.usable register)) (ho : o.isPlain = true) :
    D.Holds known (Emit.line (.memory o (.register register))) fun _ _ => True :=
  D.memory none ho h

theorem select {register : Register} {m : Emit Unit} (h : known (.container register))
    (hm : D.Tame m) :
    D.Holds known (Emit.selectContainer register >>= fun _ => m) fun _ _ => True :=
  next (D.selectContainer h) fun _ => hm known

/-! ### Literals -/

theorem Tame.pushItems (h : ∀ item ∈ items, D.Tame item) :
    D.Tame (Emit.pushItems items) := by
  induction items with
  | nil => exact .pure _
  | cons item rest ih =>
    rw [List.forall_mem_cons] at h
    exact .bind h.1 fun _ => .bind (.call _) fun _ => ih h.2

theorem Tame.pushPairs {items : List (Emit Unit × Emit Unit)}
    (h : ∀ item ∈ items, D.Tame item.1 ∧ D.Tame item.2) : D.Tame (Emit.pushPairs items) := by
  induction items with
  | nil => exact .pure _
  | cons item rest ih =>
    rw [List.forall_mem_cons] at h
    exact .bind h.1.1 fun _ => .bind h.1.2 fun _ => .bind (.call _) fun _ => ih h.2

theorem Tame.setFlag (flag : Nat) : D.Tame (Emit.setFlag flag) :=
  .line rfl

theorem Tame.clearFlag (flag : Nat) : D.Tame (Emit.clearFlag flag) :=
  .line rfl

variable {info : VarInfo} {start : Position} {attr : Ident}

/-- A container is declared, and filled unless it is empty. -/
theorem tame_declared {name comment : String} [Decidable c] {m : Emit Unit}
    (hdeclares : D.declares false) (hname : D.stores name) (hinfo : info = .list ∨ info = .dict)
    (hplace : D.words.place start) (hm : D.Tame m) :
    D.Tame (Emit.bind name info start >>= fun register =>
      commented (.memory .clearVariable (.register register)) comment >>= fun _ =>
        if c then Pure.pure () else Emit.selectContainer register >>= fun _ => m) := by
  intro known
  refine D.bind (D.declare hdeclares hname hinfo hplace) fun register later _ hregister => ?_
  exact next (D.memory _ rfl hregister.1) fun _ =>
    ite (D.pure fun _ _ => trivial) (select hregister.2 hm)

/-! ### Subscripts -/

/-- All code of a part of a matrix is tame. -/
structure TamePart (D : Discipline labels) (part : PartCode) : Prop where
  rowLower : D.Tame part.rows.lower
  rowUpper : D.Tame part.rows.upper
  columnLower : D.Tame part.columns.lower
  columnUpper : D.Tame part.columns.upper

/-- The code of a subscript is tame, in whichever way it is used. -/
structure TameIndex (D : Discipline labels) (index : IndexCode) : Prop where
  key : D.Tame index.key
  element : D.Tame index.element
  part : ∀ known, D.Holds known index.part? fun found _ => ∀ part ∈ found, D.TamePart part

theorem tame_pointAtPart {part : PartCode} (h : D.TamePart part) : D.Tame (Emit.pointAtPart part) :=
  .bind h.rowLower fun _ => .bind h.columnLower fun _ => .call _

theorem loadPart {part : PartCode} (hregister : known (.usable register))
    (h : D.TamePart part) : D.Holds known (Emit.loadPart register part) fun _ _ => True :=
  next (onRegister hregister rfl) fun _ => Tame.bind (tame_pointAtPart h) (fun _ =>
    .bind h.rowLower fun _ => .bind h.rowUpper fun _ => .bind h.columnLower fun _ =>
    .bind h.columnUpper fun _ => .bind (.call _) fun _ => .op rfl) known

theorem tame_loadSubscript (hobject : D.words.Has object) {index : IndexCode}
    (h : D.TameIndex index) : D.Tame (Emit.loadSubscript object index) := by
  intro known
  refine D.bind (D.containerOf hobject.place)
    fun (register, kind) later _ ⟨husable, hcontainer⟩ => ?_
  cases kind with
  | dict => exact select hcontainer (.bind h.key fun _ => .bind (.call _) fun _ => .op rfl)
  | list | matrix =>
    refine D.bind (h.part later) fun found later' hlater hfound => ?_
    cases found with
    | some part => exact loadPart (hlater _ husable) (hfound part rfl)
    | none =>
      exact next (onRegister (hlater _ husable) rfl) fun _ =>
        Tame.bind h.element (fun _ => .bind (.call _) fun _ => .op rfl) later'

theorem tame_storeSubscript (hobject : D.words.Has object) {index : IndexCode}
    (h : D.TameIndex index) : D.Tame (Emit.storeSubscript object index) := by
  intro known
  refine D.bind (D.containerOf hobject.place)
    fun (register, kind) later _ ⟨husable, hcontainer⟩ => ?_
  cases kind with
  | dict =>
    exact select hcontainer (.bind (.setFlag _) fun _ => .bind h.key fun _ =>
      .bind (.call _) fun _ => .bind (.clearFlag _) fun _ => .op rfl)
  | list | matrix =>
    refine next (onRegister husable rfl) fun _ =>
      D.bind (h.part later) fun found later' _ hfound => ?_
    cases found with
    | some part => exact Tame.bind (tame_pointAtPart (hfound part rfl)) (fun _ => .op rfl) later'
    | none => exact Tame.bind h.element (fun _ => .bind (.call _) fun _ => .op rfl) later'

/-! ### Methods -/

theorem tame_dimension {args : List (Emit Unit)} (hstores : D.stores object.name)
    (hobject : D.words.Has object) (hattr : D.words.Has attr) (h : ∀ arg ∈ args, D.Tame arg) :
    D.Tame (Emit.dimension object attr args) := by
  unfold Emit.dimension
  split
  · rename_i rows columns
    intro known
    refine D.bind (D.storeNamed hstores nofun ?_ hobject.place) fun register later _ hregister => ?_
    · simp [Scopes.namedRegister?, VarInfo.matrix, VarInfo.isContainer]
    · exact next (h rows (by simp) later) fun _ => next (h columns (by simp) later) fun _ =>
        onRegister hregister rfl
  · exact .fail rfl hattr.place

theorem tame_method {args : List (Emit Unit)}
    (hstores : ∀ name ∈ Script.dimensionedNames object attr, D.stores name)
    (hobject : D.words.Has object) (hattr : D.words.Has attr) (h : ∀ arg ∈ args, D.Tame arg) :
    D.Tame (Emit.method object attr args) := by
  unfold Emit.method
  by_cases hdim : attr.name = "dim"
  · rw [if_pos hdim]
    exact tame_dimension (hstores _ (by simp [Script.dimensionedNames, hdim])) hobject hattr h
  rw [if_neg hdim]
  intro known
  refine D.bind (D.containerOf hobject.place) fun found later _ hfound => ?_
  obtain ⟨register, kind⟩ := found
  obtain ⟨husable, hcontainer⟩ := hfound
  dsimp only
  split
  · exact select hcontainer (.bind (.clearFlag _) fun _ =>
      .bind (h _ List.mem_cons_self) fun _ => .call _)
  iterate 3 exact select hcontainer (.call _)
  iterate 4
    exact next (onRegister husable rfl) fun _ => next (h _ List.mem_cons_self later) fun _ =>
      next (D.line trivial) fun _ => next (D.call _) fun _ => D.line rfl
  · exact ite (D.fail rfl hattr.place) (D.fail rfl hattr.place)

/-! ### Calls -/

theorem Tame.alpha {text : String} (h : D.words.text text) : D.Tame (Emit.alpha text) := by
  refine lines fun instr hinstr => ?_
  obtain ⟨piece, hpiece, rfl | rfl⟩ := mem_alphaLines hinstr <;> exact ⟨text, h, hpiece⟩

theorem Tame.inOrder {codes : List (Emit Unit)} (h : ∀ code ∈ codes, D.Tame code) :
    D.Tame (Emit.inOrder codes) := by
  induction codes with
  | nil => exact pure _
  | cons code rest ih =>
    rw [List.forall_mem_cons] at h
    exact bind h.1 fun _ => ih h.2

theorem tame_length {arg : Expr} (h : arg.Named D.words) : D.Tame (Emit.length arg) := by
  unfold Emit.length
  split
  · intro known
    refine D.bind (D.containerOf h.place) fun (register, kind) later _ ⟨husable, hcontainer⟩ => ?_
    cases kind with
    | list | dict => exact select hcontainer (.call _)
    | matrix =>
      exact next (onRegister husable rfl) fun _ => Tame.bind (.op rfl) (fun _ => .op rfl) later
  · exact .fail rfl h.place

variable {args : List Expr}

theorem tame_builtin (function : Builtin) {codes : List (Emit Unit)}
    (hplace : D.words.place start) (hnamed : ∀ e ∈ args, e.Named D.words)
    (h : ∀ code ∈ codes, D.Tame code) :
    D.Tame (Emit.builtin function args codes start) := by
  unfold Emit.builtin
  split
  iterate 2 exact .fail rfl hplace
  · exact tame_length (hnamed _ List.mem_cons_self)
  · unfold Emit.print
    split
    · cases hnamed _ List.mem_cons_self with
      | string _ htext => exact .bind (.alpha htext) fun _ => .op rfl
    · exact .bind (h _ List.mem_cons_self) fun _ => .line rfl
  iterate 2 exact .bind (h _ List.mem_cons_self) fun _ => .op rfl
  iterate 2 exact .bind (h _ List.mem_cons_self) fun _ => .call _
  · exact .fail rfl hplace

/-- The variable that an instruction takes can be worked on. -/
theorem variableOperand (hplace : D.words.place start) (hnamed : ∀ e ∈ args, e.Named D.words)
    (hargs : o = .input → ∀ name ∈ args.flatMap Expr.ownName, D.stores name) :
    D.Holds known (Emit.variableOperand o args start) fun register later =>
      later (.usable register) := by
  unfold Emit.variableOperand
  split
  · cases hnamed _ List.mem_cons_self with
    | string _ htext => exact ite (D.fail rfl hplace) (D.named htext)
  · rename_i id
    have hid := (hnamed _ List.mem_cons_self).place
    have hcheck : ∀ register later, known.Later later → later (.usable register) →
        D.Holds later (do
          if (o = .index || o = .clearVariable) && !register.isNamed then
            Emit.fail (.call (.numberedVariable o.mnemonic id.name)) id.start
          return register) fun register later => later (.usable register) := by
      intro register later _ hregister
      have hgiven : D.Holds later (Pure.pure register : Emit Register)
          fun register later => later (.usable register) := D.pure fun _ hlater =>
            hlater _ hregister
      exact ite (next (D.fail rfl hid : D.Holds _ _ fun _ _ => True) fun _ => hgiven) hgiven
    -- an input makes its variable, anything else looks one up
    by_cases hinput : o = .input
    · rw [if_pos hinput]
      refine D.bind (D.storeNamed (hargs hinput _ (by simp [Expr.ownName]))
        (fun forced hforced => ?_) ?_ hid) hcheck
      · cases hforced
        rfl
      · simp [Scopes.namedRegister?, VarInfo.forced]
    · rw [if_neg hinput]
      exact D.bind (D.registerOf _ hid) hcheck
  · exact D.fail rfl hplace

theorem tame_primitive {instruction : Primitive}
    (hname : Primitive.ofName? callee.name = some instruction) {codes : List (Emit Unit)}
    (hplace : D.words.place start) (hnamed : ∀ e ∈ args, e.Named D.words)
    (hargs : ∀ name ∈ Script.inputNames callee args, D.stores name)
    (h : ∀ code ∈ codes, D.Tame code) : D.Tame (Emit.primitive instruction args codes start) := by
  have hcontrol := Primitive.isControl_of_ofName? hname
  unfold Emit.primitive
  cases instruction with
  | stack o arity reversed =>
    have hcodes : ∀ code ∈ if reversed then codes.reverse else codes, D.Tame code := by
      intro code hcode
      cases reversed with
      | false => exact h code hcode
      | true => exact h code (List.mem_reverse.mp hcode)
    have hwrite : D.Tame (do
        Emit.inOrder (if reversed then codes.reverse else codes)
        Emit.op o) := .bind (.inOrder hcodes) fun _ => .op hcontrol
    exact .ite hwrite (.bind (.fail rfl hplace) fun _ => hwrite)
  | digits o =>
    dsimp only
    split
    · cases o with
      | setting o => exact .line trivial
      | flag o => exact .line hcontrol
    · exact .fail rfl hplace
  | onVariable o =>
    intro known
    refine D.bind (variableOperand hplace hnamed fun hinput => ?_) fun register _ _ hregister =>
      onRegister hregister (by simpa [Primitive.isControl] using hcontrol)
    subst hinput
    have hfound : (Primitive.onVariable .input).name = callee.name := by
      simpa using List.find?_some hname
    have hmnemonic : callee.name = MemoryOp.input.mnemonic := hfound.symm
    rwa [Script.inputNames, if_pos hmnemonic] at hargs

theorem tame_callFunction {codes : List (Emit Unit)} (hplace : D.words.place start)
    (hcallee : D.words.Has callee) (hnamed : ∀ e ∈ args, e.Named D.words)
    (hargs : ∀ name ∈ Script.inputNames callee args, D.stores name)
    (h : ∀ code ∈ codes, D.Tame code) :
    D.Tame (Emit.callFunction labels callee args codes start) := by
  unfold Emit.callFunction
  split
  · exact .bind (.inOrder h) fun _ _ => D.callOwn ‹_›
  · split
    · exact tame_builtin _ hplace hnamed h
    · split
      · exact tame_primitive ‹_› hplace hnamed hargs h
      · exact .fail rfl hcallee.place

/-! ### Expressions -/

theorem tame_recallName {id : Ident} (h : D.words.Has id) : D.Tame (Emit.recallName labels id) := by
  refine .checked (fun known => D.bind (D.registerOf _ h.place) fun register later _ hregister =>
    next (onRegister hregister rfl) fun _ => ?_) rfl h.place
  exact D.read (fun _ _ _ hsame => by rw [hsame, Scopes.isRangeIndex_withLimit]) fun _ =>
    ite (D.line rfl) (D.pure fun _ _ => trivial)

theorem tame_operatorLines {operator : Python.BinaryOp} {ops : List Op}
    (h : operator.ops? = some ops) : D.Tame (Emit.lines (ops.map .op)) := by
  have hcontrol : ∀ o ∈ ops, o.isControl = false := by
    cases operator <;> cases h <;> decide
  refine .lines fun instr hinstr => ?_
  obtain ⟨o, ho, rfl⟩ := List.mem_map.mp hinstr
  exact hcontrol o ho

variable {others : List Expr}

theorem tame_booleans (operator : Python.BoolOp)
    (h : ∀ e ∈ others, D.Tame (expr labels e)) : D.Tame (booleans labels operator others) := by
  induction others with
  | nil => exact .pure _
  | cons e rest ih =>
    rw [List.forall_mem_cons] at h
    exact .bind h.1 fun _ => .bind (.call _) fun _ =>
      .bind (.op (by cases operator <;> rfl)) fun _ =>
      ih h.2

theorem tame_compareChain {comparisons : List (Python.CompareOp × Expr)}
    (hnamed : ∀ comparison ∈ comparisons, comparison.2.Named D.words)
    (h : ∀ comparison ∈ comparisons, D.Tame (expr labels comparison.2)) (isFirst : Bool)
    {previous : Emit Unit} (hprevious : D.Tame previous) :
    D.Tame (compareChain labels isFirst previous comparisons) := by
  induction comparisons generalizing isFirst previous with
  | nil => exact .pure _
  | cons comparison rest ih =>
    rw [List.forall_mem_cons] at h hnamed
    rw [compareChain]
    split
    · exact .fail rfl hnamed.1.place
    · have hrest := ih hnamed.2 h.2 false h.1
      exact .bind hprevious fun _ => .bind h.1 fun _ => .bind (.call _) fun _ =>
        .ite hrest (.bind (.call _) fun _ => .bind (.op rfl) fun _ => hrest)

theorem tame_codes (h : ∀ e ∈ args, D.Tame (expr labels e)) :
    ∀ code ∈ codes labels args, D.Tame code := by
  induction args with
  | nil => simp [codes]
  | cons e rest ih =>
    rw [List.forall_mem_cons] at h
    exact List.forall_mem_cons.mpr ⟨h.1, ih h.2⟩

theorem tame_sliceEnd (h : ∀ e ∈ bound, D.Tame (expr labels e)) :
    D.Tame (sliceEnd labels bound) := by
  cases bound with
  | none => exact .line trivial
  | some e =>
    exact h e rfl

def TameEnds (D : Discipline labels) (e : Expr) : Prop :=
  ∀ {start lower upper}, e = .slice start lower upper →
    D.Tame (sliceEnd labels lower) ∧ D.Tame (sliceEnd labels upper)

/-- An expression is tame, also where it is a subscript of one or two dimensions. -/
structure TameOperand (D : Discipline labels) (e : Expr) : Prop where
  whole : D.Tame (expr labels e)
  ends : D.TameEnds e
  elements : ∀ {start elements}, e = .tuple start elements →
    ∀ x ∈ elements, D.Tame (expr labels x) ∧ D.TameEnds x

variable {e : Expr}

/-- Where an expression is no slice and no tuple, its code is all there is. -/
theorem TameOperand.of_whole (h : D.Tame (expr labels e)) (hsingle : e.isCompound = false) :
    D.TameOperand e := by
  refine ⟨h, ?_, ?_⟩
  · rintro _ _ _ rfl
    cases hsingle
  · rintro _ _ rfl
    cases hsingle

theorem TameOperand.element (h : D.TameOperand e) (hplace : D.words.place e.start) :
    D.Tame (element labels (expr labels e) e) := by
  unfold Emit.element
  split
  · rename_i row column
    exact .bind (h.elements rfl row (by simp)).1 fun _ => (h.elements rfl column (by simp)).1
  · exact .fail rfl hplace
  · exact .bind h.whole fun _ => .line trivial

theorem TameOperand.part (h : D.TameOperand e) (hplace : D.words.place e.start) (known : Facts) :
    D.Holds known (part labels e) fun found _ => ∀ part ∈ found, D.TamePart part := by
  -- each form of a part is checked first, and then given
  have hgiven : ∀ {found : Option PartCode} {c : Prop} [Decidable c] {fault : Fault},
      (∀ part ∈ found, D.TamePart part) → fault.isOwn = true → D.Holds known (do
        if c then Emit.fail fault e.start
        return found : Emit (Option PartCode)) fun found _ => ∀ part ∈ found, D.TamePart part :=
    fun hfound hfault => ite (next (D.fail hfault hplace : D.Holds _ _ fun _ _ => True) fun _ =>
      D.pure fun _ _ => hfound) (D.pure fun _ _ => hfound)
  unfold Emit.part
  split
  · obtain ⟨hlower, hupper⟩ := h.ends rfl
    refine hgiven (fun part hpart => ?_) rfl
    cases hpart
    exact ⟨hlower, hupper, .line trivial, .line trivial⟩
  · obtain ⟨hrowLower, hrowUpper⟩ := (h.elements rfl _ List.mem_cons_self).2 rfl
    obtain ⟨hcolumnLower, hcolumnUpper⟩ :=
      (h.elements rfl _ (List.mem_cons_of_mem _ List.mem_cons_self)).2 rfl
    refine hgiven (fun part hpart => ?_) rfl
    cases hpart
    exact ⟨hrowLower, hrowUpper, hcolumnLower, hcolumnUpper⟩
  · exact hgiven nofun rfl
  · exact D.pure fun _ _ => nofun

theorem TameOperand.index (h : D.TameOperand e) (hplace : D.words.place e.start) :
    D.TameIndex (index labels e) :=
  ⟨h.whole, h.element hplace, h.part hplace⟩

/-- The code of an expression is tame, if its numbers and texts may be written and the names may be
stored to that its inputs and dimensions store to. -/
theorem tame_operand (hnamed : e.Named D.words)
    (h : ∀ name ∈ e.storedNames, D.stores name) : D.TameOperand e := by
  induction hnamed with
  | int | bool | none => exact .of_whole (.line trivial) rfl
  | float _ hnumber => exact .of_whole (.line hnumber) rfl
  | string _ htext => exact .of_whole (.alpha htext) rfl
  | name hid => exact .of_whole (tame_recallName hid) rfl
  | binary hplace _ _ ihleft ihright =>
    rw [Expr.storedNames, List.forall_mem_append] at h
    refine .of_whole ?_ rfl
    rw [expr]
    split
    · exact .fail rfl hplace
    · exact .bind (ihleft h.1).whole fun _ => .bind (ihright h.2).whole fun _ =>
        tame_operatorLines ‹_›
  | boolean _ _ _ _ ihfirst ihothers =>
    rw [Expr.storedNames, List.forall_mem_append, Script.forall_operandNames] at h
    exact .of_whole (.bind (ihfirst h.1).whole fun _ =>
      tame_booleans _ fun e he => (ihothers e he (h.2 e he)).whole) rfl
  | not _ _ ih =>
    exact .of_whole (.bind (ih h).whole fun _ => .bind (.call _) fun _ => .call _) rfl
  | negate _ _ ih | invert _ _ ih =>
    exact .of_whole (.bind (ih h).whole fun _ => .op rfl) rfl
  | compare _ _ hcompared _ ihleft ih =>
    rw [Expr.storedNames, List.forall_mem_append, Script.forall_comparedNames] at h
    exact .of_whole
      (tame_compareChain hcompared (fun e he => (ih e he (h.2 e he)).whole) true
        (ihleft h.1).whole) rfl
  | call hplace hcallee hargs ih =>
    rw [Expr.storedNames, List.forall_mem_append, Script.forall_operandNames] at h
    exact .of_whole
      (tame_callFunction hplace hcallee hargs h.1
        (tame_codes fun e he => (ih e he (h.2 e he)).whole)) rfl
  | method _ hobject hattr _ ih =>
    rw [Expr.storedNames, List.forall_mem_append, Script.forall_operandNames] at h
    exact .of_whole
      (tame_method h.1 hobject hattr (tame_codes fun e he => (ih e he (h.2 e he)).whole)) rfl
  | subscript _ hobject hindex ih =>
    exact .of_whole (tame_loadSubscript hobject ((ih h).index hindex.place)) rfl
  | slice hplace _ _ ihlower ihupper =>
    rw [Expr.storedNames, List.forall_mem_append, Script.forall_boundNames,
      Script.forall_boundNames] at h
    refine ⟨.fail rfl hplace, ?_, by rintro _ _ ⟨⟩⟩
    rintro _ _ _ ⟨⟩
    exact ⟨tame_sliceEnd fun e he => (ihlower e he (h.1 e he)).whole,
      tame_sliceEnd fun e he => (ihupper e he (h.2 e he)).whole⟩
  | tuple hplace _ ih =>
    rw [Expr.storedNames, Script.forall_operandNames] at h
    refine ⟨.fail rfl hplace, by rintro _ _ _ ⟨⟩, ?_⟩
    rintro _ _ ⟨⟩ x hx
    exact ⟨(ih x hx (h x hx)).whole, (ih x hx (h x hx)).ends⟩
  | list hplace | dict hplace => exact .of_whole (.fail rfl hplace) rfl

theorem tame_expr (hnamed : e.Named D.words)
    (h : ∀ name ∈ e.storedNames, D.stores name) : D.Tame (expr labels e) :=
  (tame_operand hnamed h).whole

theorem tame_listItems {elements : List Expr} (hnamed : ∀ e ∈ elements, e.Named D.words)
    (h : ∀ name ∈ Script.operandNames elements, D.stores name) :
    ∀ item ∈ elements.map (expr labels), D.Tame item := by
  rw [Script.forall_operandNames] at h
  exact List.forall_mem_map.mpr fun e he => tame_expr (hnamed e he) (h e he)

theorem tame_dictItems {items : List (Expr × Expr)} (hkeys : ∀ pair ∈ items, pair.1.Named D.words)
    (hvalues : ∀ pair ∈ items, pair.2.Named D.words)
    (h : ∀ name ∈ Script.pairNames items, D.stores name) :
    ∀ item ∈ items.map fun (key, item) => (expr labels key, expr labels item),
      D.Tame item.1 ∧ D.Tame item.2 := by
  rw [Script.forall_pairNames] at h
  exact List.forall_mem_map.mpr fun pair hpair =>
    ⟨tame_expr (hkeys pair hpair) (h pair hpair).1, tame_expr (hvalues pair hpair) (h pair hpair).2⟩

/-! ### Assignments -/

variable {target : Expr}

theorem tame_storeTarget (alpha : Bool) (hdeclares : D.declares alpha)
    (hforced : info.forcedName = none)
    (hnamed : target.Named D.words) (h : ∀ name ∈ target.targetNames, D.stores name) :
    D.Tame (storeTarget labels info alpha target) := by
  unfold storeTarget
  split
  · rename_i id
    intro known
    have hassigned : D.Holds known (do
        let register ← storeRegister id.name info id.start
        Emit.store register id.name alpha
        return ()) fun _ _ => True :=
      D.assigned hdeclares (h _ (by simp [Expr.targetNames])) hforced hnamed.place
        fun _ later _ _ => Tame.pure () later
    simpa using hassigned
  · cases hnamed with
    | subscript _ hobject hindex =>
      exact tame_storeSubscript hobject ((tame_operand hindex h).index hindex.place)
  · exact .fail rfl hnamed.place

theorem tame_storeTargets (alpha : Bool) (hdeclares : D.declares alpha)
    (hforced : info.forcedName = none) (hnamed : ∀ target ∈ targets, target.Named D.words)
    (h : ∀ target ∈ targets, ∀ name ∈ target.targetNames, D.stores name) :
    D.Tame (storeTargets labels info alpha targets) := by
  induction targets with
  | nil => exact .pure _
  | cons target rest ih =>
    rw [List.forall_mem_cons] at h hnamed
    exact .bind (tame_storeTarget alpha hdeclares hforced hnamed.1 h.1) fun _ => ih hnamed.2 h.2

variable {value : Expr}

/-- A value may be assigned: as a text where its code can end with a line of text. -/
structure Assignable (D : Discipline labels) (value : Expr) : Prop where
  ending : ∀ s s', (expr labels value).run s = .ok ((), s') → D.declares s'.listing.lastIsString
  other : (∀ start text, value ≠ .string start text) → D.declares false

theorem Assignable.of_declares (h : ∀ alpha, D.declares alpha) : D.Assignable value :=
  ⟨fun _ _ _ => h _, fun _ => h _⟩

theorem tame_pushValues {values : List Expr} (hnamed : ∀ value ∈ values, value.Named D.words)
    (h : ∀ value ∈ values, ∀ name ∈ value.storedNames, D.stores name) :
    D.Tame (pushValues labels values) := by
  induction values with
  | nil => exact .pure _
  | cons value rest ih =>
    rw [List.forall_mem_cons] at h hnamed
    exact .bind (tame_expr hnamed.1 h.1) fun _ => .bind (fun _ => D.lastIsString) fun _ =>
      .checked (ih hnamed.2 h.2) rfl hnamed.1.place

theorem tame_unpack {names : List Expr} (hplace : D.words.place start)
    (hdeclares : D.Assignable value) (hnamed : ∀ e ∈ names, e.Named D.words)
    (hvalue : value.Named D.words) (hnames : ∀ name ∈ names.flatMap Expr.ownName, D.stores name)
    (h : ∀ name ∈ value.storedNames, D.stores name) :
    D.Tame (unpack labels start names value) := by
  unfold unpack
  split
  · rename_i values
    cases hvalue with
    | tuple _ hvalues =>
      rw [Expr.storedNames, Script.forall_operandNames] at h
      have hstore : D.Tame (do
          pushValues labels values
          let registers ← unpackedRegisters names
          storeDown registers.reverse) :=
        .bind (tame_pushValues hvalues h) fun _ _ =>
          D.unpacked (hdeclares.other (by simp)) hnames hnamed
      exact .ite (.checked hstore rfl hplace)
        (.bind (.fail rfl hplace) fun _ => .checked hstore rfl hplace)
  · exact .fail rfl hvalue.place

theorem tame_assignComputed (hdeclares : D.Assignable value)
    (hnamed : ∀ e ∈ target :: others, e.Named D.words) (hvalue : value.Named D.words)
    (htargets : ∀ e ∈ target :: others, ∀ name ∈ e.targetNames, D.stores name)
    (h : ∀ name ∈ value.storedNames, D.stores name) :
    D.Tame (assignComputed labels target others value) := by
  unfold assignComputed
  split
  · cases hnamed _ List.mem_cons_self with
    | tuple hplace hnames =>
      exact tame_unpack hplace hdeclares hnames hvalue (htargets _ List.mem_cons_self) h
  · refine .read (fun _ _ _ hsame => by rw [hsame, Scopes.producesMatrix_withLimit]) fun _ =>
      .ending hdeclares.ending (tame_expr hvalue h) fun alpha halpha =>
      tame_storeTargets alpha halpha ?_ hnamed htargets
    split <;> rfl

theorem tame_singleName_bind (value : SingleNameValue) {f : Ident → Emit α}
    (hnamed : target.Named D.words) (htarget : ∀ name ∈ target.targetNames, D.stores name)
    (hf : ∀ id, D.stores id.name → D.words.place id.start → D.Tame (f id)) :
    D.Tame (singleName value (target :: others) >>= f) := by
  intro known
  refine D.bind (Q := fun id _ => D.stores id.name ∧ D.words.place id.start) ?_
    fun id later _ hid => hf id hid.1 hid.2 later
  unfold singleName
  split
  · rename_i hname
    cases hname
    exact D.pure fun _ _ => ⟨htarget _ (by simp [Expr.targetNames]), hnamed.place⟩
  · rename_i hfirst
    cases hfirst
    exact D.fail rfl hnamed.place
  · rename_i hnone
    cases hnone

theorem tame_assignName {source : Ident} (hdeclares : D.Assignable (.name source))
    (hnamed : ∀ e ∈ target :: others, e.Named D.words) (hsource : D.words.Has source)
    (htargets : ∀ e ∈ target :: others, ∀ name ∈ e.targetNames, D.stores name) :
    D.Tame (assignName labels target others source) := by
  have hshare : D.Tame (do
      let id ← singleName .containerAlias (target :: others)
      withScopes (fun scopes => return ((), ← scopes.bindAlias id.name source.name))
        source.start) :=
    tame_singleName_bind _ (hnamed target List.mem_cons_self) (htargets target List.mem_cons_self)
      fun id hid _ _ => D.share _ (hdeclares.other nofun) hid hsource.place
  refine .read (fun _ _ _ hsame => by simp only [hsame, Scopes.container?_withLimit]) fun s => ?_
  split
  · exact hshare
  · exact hshare
  · exact tame_assignComputed hdeclares hnamed (.name hsource) htargets (by simp [Expr.storedNames])

theorem tame_assign (hdeclares : D.Assignable value)
    (hnamed : ∀ e ∈ target :: others, e.Named D.words) (hvalue : value.Named D.words)
    (htargets : ∀ e ∈ target :: others, ∀ name ∈ e.targetNames, D.stores name)
    (h : ∀ name ∈ value.storedNames, D.stores name) :
    D.Tame (assign labels target others value) := by
  have htarget := hnamed target List.mem_cons_self
  have hstores := htargets target List.mem_cons_self
  cases hvalue with
  | list _ helements =>
    exact tame_singleName_bind _ htarget hstores fun id hid hplace =>
      tame_declared (hdeclares.other nofun) hid (Or.inl rfl) hplace
        (.bind (.clearFlag _) fun _ => .pushItems (tame_listItems helements h))
  | dict _ hkeys hvalues =>
    exact tame_singleName_bind _ htarget hstores fun id hid hplace =>
      tame_declared (hdeclares.other nofun) hid (Or.inr rfl) hplace (.bind (.setFlag _) fun _ =>
        .bind (.pushPairs (tame_dictItems hkeys hvalues h)) fun _ => .clearFlag _)
  | name hsource => exact tame_assignName hdeclares hnamed hsource htargets
  | _ => exact tame_assignComputed hdeclares hnamed (by constructor <;> assumption) htargets h

theorem tame_augment (operator : Python.BinaryOp) (hdeclares : D.declares false)
    (htarget : target.Named D.words) (hvalue : value.Named D.words)
    (h : ∀ name ∈ value.storedNames, D.stores name) :
    D.Tame (augment labels target operator value) := by
  unfold augment
  split
  · refine fun known => D.bind (D.registerOf _ htarget.place) fun register later _ hregister => ?_
    have hexpr := tame_expr hvalue h later
    split
    · rename_i o ho
      refine next hexpr fun _ => D.memory _ ?_ hregister
      cases operator <;> cases ho <;> rfl
    · split
      · exact D.fail rfl htarget.place
      · exact next (onRegister hregister rfl) fun _ => next hexpr fun _ =>
          next (tame_operatorLines ‹_› later) fun _ => D.store hdeclares hregister
  · exact .fail rfl htarget.place

/-! ### Around loops -/

theorem tame_checkBounds {bounds : RangeBounds} (hstop : bounds.stop.Named D.words)
    (hplace : D.words.place start) :
    D.Tame (checkBounds bounds start) := by
  unfold checkBounds
  dsimp only
  split
  -- the check of the step follows in each case of that of the end
  · refine .checked ?_ rfl hstop.place
    split
    · exact .ite (.fail rfl hplace) (.pure _)
    · exact .pure _
  · split
    · exact .ite (.fail rfl hplace) (.pure _)
    · exact .pure _

theorem tame_boundOr (omitted : Nat) (hnamed : ∀ e ∈ bound, e.Named D.words)
    (h : ∀ e ∈ bound, ∀ name ∈ e.storedNames, D.stores name) :
    D.Tame (boundOr labels bound omitted) := by
  cases bound with
  | some e => exact tame_expr (hnamed e rfl) (h e rfl)
  | none => exact .line trivial

theorem loadRow {container counter : Register} (hcontainer : known (.usable container))
    (hcounter : known (.usable counter)) :
    D.Holds known (Emit.loadRow container counter) fun _ _ => True :=
  next (onRegister hcontainer rfl) fun _ => next (onRegister hcounter rfl) fun _ =>
    next (D.line rfl) fun _ => next (D.line trivial) fun _ => next (D.call _) fun _ => D.line rfl

end Discipline

end Emit

end Keystroke
