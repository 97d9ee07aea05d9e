import Mathlib.Data.List.Forall2
import Keystroke.Proofs.StraightCode

/-!
# The container in focus

The calculator has one variable for the name of the list or dictionary being worked on, and one
matrix that is indexed. Code that uses a container puts it into one of these two places first. Which
container is there at a line depends only on the lines before it.
-/

namespace Keystroke

open Script (Expr Ident)

/-! ### The focus of code -/

/-- Whether an instruction makes a matrix the indexed one. -/
def Instr.isIndex : Instr → Bool
  | .memory .index _ => true
  | _ => false

/-- Whether a routine makes a matrix the indexed one. -/
def Routine.setsIndex (routine : Routine) : Bool :=
  routine.body.any Instr.isIndex

/-- Whether another matrix can be the indexed one after an instruction. -/
def Instr.setsIndex (instr : Instr) : Bool :=
  instr.isIndex || (Routine.ofCall? instr).any Routine.setsIndex

/-- The line that makes the text before it the name of the container that routines work on. -/
def selectionLine : Instr :=
  .storeAlpha (.named Reserved.listNameVariable)

/-- What code leaves in the two places through which containers are used. -/
structure Focus where
  /-- The line before the latest one that stores the name of a container. -/
  selected : Option Instr := none
  /-- The latest line that makes a matrix the indexed one. -/
  indexed : Option Instr := none
deriving DecidableEq

namespace Focus

/-- The focus after an instruction, given the line before it. -/
def step (focus : Focus) (last : Option Instr) (instr : Instr) : Focus where
  selected := if instr = selectionLine then last else focus.selected
  indexed := if instr.setsIndex then some instr else focus.indexed

/-- The focus after some code, given the line before it. -/
def after (last : Option Instr) (focus : Focus) : List Instr → Focus
  | [] => focus
  | instr :: rest => after (some instr) (focus.step last instr) rest

/-- The focus after a program up to a line. -/
def of (code : List Instr) : Focus :=
  after none {} code

theorem after_append (last : Option Instr) (focus : Focus) (code₁ code₂ : List Instr) :
    after last focus (code₁ ++ code₂) =
      after (code₁.getLast?.or last) (after last focus code₁) code₂ := by
  induction code₁ generalizing last focus with
  | nil => rfl
  | cons instr rest ih =>
    have hlast : (instr :: rest).getLast?.or last = rest.getLast?.or (some instr) := by
      cases rest with
      | nil => rfl
      | cons next rest => simp [List.getLast?_cons]
    rw [hlast]
    exact ih (some instr) (focus.step last instr)

end Focus

/-! ### Reading the focus off an expression -/

/-- The scopes and the focus at some place of a program. -/
structure Track where
  scopes : Scopes
  focus : Focus

/-- The scopes and the focus at the end of what has been written. -/
def Emitter.track (emitter : Emitter) : Track :=
  ⟨emitter.scopes, .of emitter.listing.instrs⟩

namespace Track

/-- What writing something does to scopes and focus. -/
abbrev Move := Track → Track

/-- Selects a container. -/
def select (register : Register) : Move := fun track =>
  { track with focus.selected := some (.alpha register.nameOrEmpty) }

/-- Passes an instruction other than the one that selects a container. -/
def pass (instr : Instr) : Move := fun track =>
  if instr.setsIndex then { track with focus.indexed := some instr } else track

def call (routine : Routine) : Move :=
  pass (Routine.call routine)

/-- Makes one move after the other. -/
def inOrder : List Move → Move
  | [], track => track
  | move :: rest, track => inOrder rest (move track)

def container? (track : Track) (name : String) : Option (Register × Container) :=
  match track.scopes.getRegister name with
  | .ok register => some (register, (track.scopes.container? name).getD .matrix)
  | .error _ => none

/-- Gives a name a register. -/
def declare (name : String) (info : VarInfo) : Move := fun track =>
  match track.scopes.storeRegister name info with
  | .ok (_, scopes) => { track with scopes }
  | .error _ => track

/-- The moves of the ends of a part of a matrix. -/
structure PartMoves where
  rowLower : Move
  rowUpper : Move
  columnLower : Move
  columnUpper : Move

/-- The moves of a subscript, for each way in which it can be used. -/
structure IndexMoves where
  key : Move
  element : Move
  part? : Option PartMoves

/-- Loads an element or a part of a container. -/
def loadSubscript (object : Ident) (index : IndexMoves) : Move := fun track =>
  match track.container? object.name with
  | none => track
  | some (register, .dict) => (index.key (track.select register)).call .pointAtKey
  | some (register, _) =>
    match index.part? with
    | none => index.element (track.pass (.index register))
    | some part =>
      inOrder [part.rowLower, part.columnLower, part.rowLower, part.rowUpper, part.columnLower,
        part.columnUpper] (track.pass (.index register))

def dimension (object : Ident) : List Move → Move
  | [rows, columns] => fun track => columns (rows (track.declare object.name .matrix))
  | _ => id

/-- Calls a method, apart from that which gives dimensions, of a container of some kind. -/
def methodOf (register : Register) (kind : Container) (name : String) (args : List Move) : Move :=
  match name, kind, args with
  | "append", .list, [value] => fun track => (value (track.select register)).call .listPush
  | "pop", .list, [] => fun track => (track.select register).call .listPop
  | "clear", .list, [] | "clear", .dict, [] => select register
  | "insr", .list, [row] | "insr", .matrix, [row] => fun track => row (track.pass (.index register))
  | "delr", .list, [row] | "delr", .matrix, [row] => fun track => row (track.pass (.index register))
  | _, _, _ => id

/-- Calls a method of a container. -/
def method (object attr : Ident) (args : List Move) : Move := fun track =>
  if attr.name = "dim" then
    dimension object args track
  else
    match track.container? object.name with
    | some (register, kind) => methodOf register kind attr.name args track
    | none => track

/-- The number of elements of a container. -/
def length : Expr → Move
  | .name id => fun track =>
    match track.container? id.name with
    | some (register, .list) | some (register, .dict) => track.select register
    | _ => track
  | _ => id

/-- Shows a text or a value. -/
def print (arg : Expr) (move : Move) : Move :=
  match arg with
  | .string _ _ => id
  | _ => move

/-- A call of a function with code of its own. -/
def builtin (function : Builtin) (args : List Expr) (moves : List Move) : Move :=
  match function, args, moves with
  | .len, [arg], _ => length arg
  | .print, [arg], [move] => print arg move
  | .int, _, [move] | .abs, _, [move] | .flagSet, _, [move] | .flagClear, _, [move] => move
  | _, _, _ => id

/-- An instruction on a variable. -/
def onVariable (o : MemoryOp) (args : List Expr) : Move := fun track =>
  match args with
  | [.string _ name] => track.pass (.memory o (.register (.named name)))
  | [.name id] =>
    if o = .input then
      track.declare id.name (.forced id.name)
    else
      match track.scopes.getRegister id.name with
      | .ok register => track.pass (.memory o (.register register))
      | .error _ => track
  | _ => track

/-- A call of an instruction. -/
def primitive (instruction : Primitive) (args : List Expr) (moves : List Move) : Move :=
  match instruction with
  | .stack _ _ reversed => inOrder (if reversed then moves.reverse else moves)
  | .digits _ => id
  | .onVariable o => onVariable o args

def callFunction (labels : FunctionLabels) (callee : Ident) (args : List Expr)
    (moves : List Move) : Move :=
  match labels.get? callee.name with
  | some _ => inOrder moves
  | none =>
    match Builtin.ofName? callee.name with
    | some function => builtin function args moves
    | none =>
      match Primitive.ofName? callee.name with
      | some instruction => primitive instruction args moves
      | none => id

end Track

open Track (Move PartMoves IndexMoves)

mutual

/-- What the code of an expression does to scopes and focus. -/
def trackExpr (labels : FunctionLabels) : Expr → Move
  | .binary _ left _ right => fun track => trackExpr labels right (trackExpr labels left track)
  | .boolean _ _ first others => fun track =>
    Track.inOrder (trackCodes labels others) (trackExpr labels first track)
  | .not _ operand => trackExpr labels operand
  | .negate _ operand => trackExpr labels operand
  | .invert _ operand => trackExpr labels operand
  | .compare _ left comparisons => trackChain labels (trackExpr labels left) comparisons
  | .call _ callee args => Track.callFunction labels callee args (trackCodes labels args)
  | .method _ object attr args => Track.method object attr (trackCodes labels args)
  | .subscript _ object index => Track.loadSubscript object
      ⟨trackExpr labels index, trackElement labels (trackExpr labels index) index,
        trackPart labels index⟩
  | .int _ _ | .float _ _ | .string _ _ | .bool _ _ | .none _ | .name _ | .slice _ _ _
  | .tuple _ _ | .list _ _ | .dict _ _ => id

/-- The moves of each of some expressions. -/
def trackCodes (labels : FunctionLabels) : List Expr → List Move
  | [] => []
  | e :: rest => trackExpr labels e :: trackCodes labels rest

/-- A chain of comparisons after an operand. The operands in between are written twice. -/
def trackChain (labels : FunctionLabels) (previous : Move) :
    List (Python.CompareOp × Expr) → Move
  | [] => id
  | (_, right) :: rest => fun track =>
    trackChain labels (trackExpr labels right) rest (trackExpr labels right (previous track))

def trackElement (labels : FunctionLabels) (whole : Move) : Expr → Move
  | .tuple _ [row, column] => fun track => trackExpr labels column (trackExpr labels row track)
  | .tuple _ _ => id
  | _ => whole

/-- An end of a slice. -/
def trackEnd (labels : FunctionLabels) : Option Expr → Move
  | none => id
  | some e => trackExpr labels e

/-- The part of a matrix that a subscript selects. -/
def trackPart (labels : FunctionLabels) : Expr → Option PartMoves
  | .slice _ lower upper => some ⟨trackEnd labels lower, trackEnd labels upper, id, id⟩
  | .tuple _ [.slice _ rowLower rowUpper, .slice _ columnLower columnUpper] =>
    some ⟨trackEnd labels rowLower, trackEnd labels rowUpper, trackEnd labels columnLower,
      trackEnd labels columnUpper⟩
  | _ => none

end

/-! ### Expressions without containers -/

mutual

/-- Whether an expression is made of literals, names and operators only. -/
def isPlain : Expr → Bool
  | .int _ _ | .float _ _ | .string _ _ | .bool _ _ | .none _ | .name _ => true
  | .binary _ left _ right => isPlain left && isPlain right
  | .boolean _ _ first others => isPlain first && arePlain others
  | .not _ operand | .negate _ operand | .invert _ operand => isPlain operand
  | .compare _ left comparisons => isPlain left && arePlainComparisons comparisons
  | .slice _ lower upper => isPlainEnd lower && isPlainEnd upper
  | .tuple _ elements => arePlain elements
  | .call _ _ _ | .method _ _ _ _ | .subscript _ _ _ | .list _ _ | .dict _ _ => false

def arePlain : List Expr → Bool
  | [] => true
  | e :: rest => isPlain e && arePlain rest

def arePlainComparisons : List (Python.CompareOp × Expr) → Bool
  | [] => true
  | (_, e) :: rest => isPlain e && arePlainComparisons rest

def isPlainEnd : Option Expr → Bool
  | none => true
  | some e => isPlain e

end

variable {labels : FunctionLabels} {e : Expr}

mutual

theorem trackExpr_of_isPlain : ∀ e : Expr, isPlain e = true → trackExpr labels e = id
  | .int _ _, _ | .float _ _, _ | .string _ _, _ | .bool _ _, _ | .none _, _ | .name _, _
  | .slice _ _ _, _ | .tuple _ _, _ => by rw [trackExpr]
  | .binary _ left _ right, h => by
    rw [isPlain, Bool.and_eq_true] at h
    rw [trackExpr, trackExpr_of_isPlain left h.1, trackExpr_of_isPlain right h.2]
    rfl
  | .boolean _ _ first others, h => by
    rw [isPlain, Bool.and_eq_true] at h
    rw [trackExpr, trackExpr_of_isPlain first h.1]
    exact trackCodes_of_arePlain others h.2
  | .not _ operand, h | .negate _ operand, h | .invert _ operand, h => by
    rw [trackExpr, trackExpr_of_isPlain operand h]
  | .compare _ left comparisons, h => by
    rw [isPlain, Bool.and_eq_true] at h
    rw [trackExpr, trackExpr_of_isPlain left h.1]
    exact trackChain_of_arePlain comparisons h.2
  | .call _ _ _, h | .method _ _ _ _, h | .subscript _ _ _, h | .list _ _, h | .dict _ _, h => by
    cases h

theorem trackCodes_of_arePlain : ∀ es : List Expr, arePlain es = true →
    Track.inOrder (trackCodes labels es) = id
  | [], _ => by
    rfl
  | e :: rest, h => by
    rw [arePlain, Bool.and_eq_true] at h
    rw [trackCodes, trackExpr_of_isPlain e h.1]
    exact trackCodes_of_arePlain rest h.2

theorem trackChain_of_arePlain : ∀ comparisons : List (Python.CompareOp × Expr),
    arePlainComparisons comparisons = true → trackChain labels id comparisons = id
  | [], _ => by rw [trackChain]
  | (_, e) :: rest, h => by
    rw [arePlainComparisons, Bool.and_eq_true] at h
    rw [trackChain, trackExpr_of_isPlain e h.1]
    exact trackChain_of_arePlain rest h.2

end

theorem trackEnd_of_isPlainEnd {bound : Option Expr} (h : isPlainEnd bound = true) :
    trackEnd labels bound = id := by
  cases bound with
  | none => rw [trackEnd]
  | some e =>
    rw [trackEnd, trackExpr_of_isPlain e h]

theorem trackElement_of_isPlain (h : isPlain e = true) :
    trackElement labels (trackExpr labels e) e = id := by
  rw [trackExpr_of_isPlain e h]
  unfold trackElement
  split
  · simp only [isPlain, arePlain, Bool.and_true, Bool.and_eq_true] at h
    rw [trackExpr_of_isPlain _ h.1, trackExpr_of_isPlain _ h.2]
    rfl
  · rfl
  · rfl

theorem trackPart_of_isPlain {part : PartMoves} (h : isPlain e = true)
    (hpart : trackPart labels e = some part) : part = ⟨id, id, id, id⟩ := by
  unfold trackPart at hpart
  split at hpart
  · rw [isPlain, Bool.and_eq_true] at h
    rw [trackEnd_of_isPlainEnd h.1, trackEnd_of_isPlainEnd h.2] at hpart
    exact (Option.some.inj hpart).symm
  · simp only [isPlain, arePlain, Bool.and_true, Bool.and_eq_true] at h
    rw [trackEnd_of_isPlainEnd h.1.1, trackEnd_of_isPlainEnd h.1.2, trackEnd_of_isPlainEnd h.2.1,
      trackEnd_of_isPlainEnd h.2.2] at hpart
    exact (Option.some.inj hpart).symm
  · cases hpart

/-! ### Actions that move the focus -/

namespace Emit

variable {α β : Type} {scopes : Scopes}

/-- From given scopes, an action moves every focus as `move` says. -/
def MovesFrom (scopes : Scopes) (m : Emit α) (move : Focus → Track) : Prop :=
  ∀ s a s', s.scopes = scopes → m.run s = .ok (a, s') → ∃ code,
    s'.listing.instrs = s.listing.instrs ++ code ∧
    ∀ last focus, move focus = ⟨s'.scopes, .after last focus code⟩

/-- An action moves every focus as `move` says. -/
def Moves (m : Emit α) (move : Move) : Prop :=
  ∀ scopes, MovesFrom scopes m fun focus => move ⟨scopes, focus⟩

namespace MovesFrom

theorem fail (fault : Fault) (start : Position) (move : Focus → Track) :
    MovesFrom scopes (Emit.fail fault start : Emit α) move := by
  intro s a s' _ h
  cases h

theorem fail_bind (fault : Fault) (start : Position) (f : α → Emit β) (move : Focus → Track) :
    MovesFrom scopes ((Emit.fail fault start : Emit α) >>= f) move := by
  intro s a s' _ h
  cases h

variable {move : Focus → Track} {m : Emit α} {start : Position}

theorem ite {c : Prop} [Decidable c] {n : Emit α} (hm : MovesFrom scopes m move)
    (hn : MovesFrom scopes n move) :
    MovesFrom scopes (if c then m else n) move := by
  split
  · exact hm
  · exact hn

theorem congr {move' : Focus → Track} (h : MovesFrom scopes m move)
    (heq : ∀ focus, move' focus = move focus) : MovesFrom scopes m move' := by
  rwa [funext heq]

theorem registerOf {name : String} {f : Register → Emit α}
    (h : ∀ register, scopes.getRegister name = .ok register → MovesFrom scopes (f register) move) :
    MovesFrom scopes (Emit.registerOf name start >>= f) move := by
  intro s a s' hs hrun
  subst hs
  obtain ⟨register, s₁, hfound, hrun⟩ := run_bind.mp hrun
  obtain ⟨hregister, rfl⟩ := run_registerOf_eq_ok.mp hfound
  exact h register hregister _ a s' rfl hrun

/-- An action that looks up a container. -/
theorem containerOf {id : Ident} {f : Register × Container → Emit α}
    (h : ∀ register kind,
      (∀ focus, Track.container? ⟨scopes, focus⟩ id.name = some (register, kind)) →
      MovesFrom scopes (f (register, kind)) move) :
    MovesFrom scopes (Emit.containerOf id >>= f) move := by
  intro s a s' hs hrun
  subst hs
  obtain ⟨⟨register, kind⟩, s₁, hfound, hrun⟩ := run_bind.mp hrun
  obtain ⟨hregister, rfl, hkind⟩ := run_containerOf hfound
  refine h register kind (fun focus => ?_) _ a s' rfl hrun
  rcases hkind with hkind | ⟨hkind, rfl, -⟩
  · simp [Track.container?, hregister, hkind]
  · simp [Track.container?, hregister, hkind]

/-- An action that changes the scopes first. -/
theorem withScopes {step : Scopes → Except ScopeError (β × Scopes)} {f : β → Emit α}
    (h : ∀ b scopes', step scopes = .ok (b, scopes') → MovesFrom scopes' (f b) move) :
    MovesFrom scopes (Emit.withScopes step start >>= f) move := by
  intro s a s' hs hrun
  subst hs
  obtain ⟨b, s₁, h₁, h₂⟩ := run_bind.mp hrun
  obtain ⟨scopes', hstep, rfl⟩ := run_withScopes.mp h₁
  exact h b scopes' hstep { s with scopes := scopes' } a s' rfl h₂

end MovesFrom

namespace Moves

theorem fail (fault : Fault) (start : Position) (move : Move) :
    Moves (Emit.fail fault start : Emit α) move :=
  fun _ => .fail fault start _

variable {m : Emit α} {move : Move}

theorem congr {move' : Move} (h : Moves m move) (heq : ∀ track, move' track = move track) :
    Moves m move' :=
  fun scopes => (h scopes).congr fun focus => heq ⟨scopes, focus⟩

theorem pure (a : α) : Moves (Pure.pure a : Emit α) id := by
  intro scopes s b s' hs h
  cases h
  exact ⟨[], by simp, fun last focus => by rw [← hs]; rfl⟩

theorem bind {f : α → Emit β} {move₁ move₂ : Move} (hm : Moves m move₁)
    (hf : ∀ a, Moves (f a) move₂) : Moves (m >>= f) fun track => move₂ (move₁ track) := by
  intro scopes s b s' hs h
  obtain ⟨a, s₁, h₁, h₂⟩ := run_bind.mp h
  obtain ⟨code₁, hcode₁, hfocus₁⟩ := hm scopes s a s₁ hs h₁
  obtain ⟨code₂, hcode₂, hfocus₂⟩ := hf a s₁.scopes s₁ b s' rfl h₂
  refine ⟨code₁ ++ code₂, by rw [hcode₂, hcode₁, List.append_assoc], fun last focus => ?_⟩
  show move₂ (move₁ ⟨scopes, focus⟩) = _
  rw [show move₁ ⟨scopes, focus⟩ = _ from hfocus₁ last focus, Focus.after_append]
  exact hfocus₂ (code₁.getLast?.or last) _

/-- What an action does to the state that it starts from. -/
theorem track (h : Moves m move) {s s' : Emitter} {a : α}
    (hrun : m.run s = .ok (a, s')) : s'.track = move s.track := by
  obtain ⟨code, hcode, hfocus⟩ := h s.scopes s a s' rfl hrun
  rw [Emitter.track, hcode, Focus.of, Focus.after_append]
  exact (hfocus _ _).symm

/-! ### Lines -/

variable {instr : Instr} {kind : LineKind}

/-- An action that writes one instruction, which does not select a container. -/
theorem emitted {m : Emit Unit} (hne : instr ≠ selectionLine)
    (hlisting : ∀ s, ∃ listing : Listing, listing.instrs = s.listing.instrs ++ [instr] ∧
      m.run s = .ok ((), { s with listing })) : Moves m (Track.pass instr) := by
  intro scopes s a s' hs h
  obtain ⟨listing, hinstrs, hrun⟩ := hlisting s
  rw [hrun] at h
  cases h
  refine ⟨[instr], hinstrs, fun last focus => ?_⟩
  subst hs
  have hstep : Focus.after last focus [instr] =
      if instr.setsIndex then { focus with indexed := some instr } else focus := by
    show focus.step last instr = _
    rw [Focus.step, if_neg hne]
    split <;> rfl
  rw [hstep]
  unfold Track.pass
  split <;> rfl

theorem line (hne : instr ≠ selectionLine) :
    Moves (Emit.line instr kind) (Track.pass instr) :=
  emitted hne fun s => ⟨s.listing.emit instr none kind, Listing.instrs_emit, rfl⟩

theorem call (routine : Routine) : Moves (Emit.call routine) (Track.call routine) := by
  refine emitted (by simp [Routine.call, selectionLine, Instr.storeAlpha]) fun s =>
    ⟨s.listing.callRoutine routine, ?_, rfl⟩
  rw [Listing.callRoutine_eq_write, Listing.instrs_write]

/-- Instructions that leave the focus where it is. -/
theorem quiet (hindex : instr.setsIndex = false) (hne : instr ≠ selectionLine) :
    Moves (Emit.line instr kind) id := by
  have h : Moves (Emit.line instr kind) _ := line hne
  rwa [show Track.pass instr = id by funext track; rw [Track.pass, hindex]; rfl] at h

theorem op (o : Op) : Moves (Emit.op o) id :=
  quiet rfl nofun

theorem quietCall {routine : Routine} (h : routine.setsIndex = false) :
    Moves (Emit.call routine) id := by
  have hcall := call routine
  have hindex : (Routine.call routine).setsIndex = false := by
    rw [Instr.setsIndex, Routine.ofCall?_call, Option.any_some, h]
    rfl
  rwa [show Track.call routine = id by funext track; rw [Track.call, Track.pass, hindex]; rfl]
    at hcall

theorem lines {instrs : List Instr}
    (h : ∀ instr ∈ instrs, instr ≠ selectionLine ∧ instr.setsIndex = false) :
    Moves (Emit.lines instrs kind) id := by
  intro scopes s a s' hs hrun
  cases hrun
  refine ⟨instrs, Listing.instrs_emitAll, fun last focus => ?_⟩
  subst hs
  have hsame : Focus.after last focus instrs = focus := by
    induction instrs generalizing last with
    | nil => rfl
    | cons instr rest ih =>
      obtain ⟨hne, hindex⟩ := h instr List.mem_cons_self
      have hstep : focus.step last instr = focus := by
        rw [Focus.step, if_neg hne, hindex]
        rfl
      rw [Focus.after, hstep]
      exact ih (fun instr hinstr => h instr (List.mem_cons_of_mem _ hinstr)) _
  rw [hsame]
  rfl

/-- The name that is stored is the one in the line before. -/
theorem selectContainer (register : Register) :
    Moves (Emit.selectContainer register) (Track.select register) := by
  intro scopes s a s' hs hrun
  cases hrun
  refine ⟨[.alpha register.nameOrEmpty, selectionLine], ?_, fun last focus => ?_⟩
  · simp [selectionLine]
  · subst hs
    rfl

/-! ### Containers and calls -/

variable {codes args : List (Emit Unit)} {moves : List Move} {part : PartCode}

theorem inOrder
    (h : List.Forall₂ Moves codes moves) : Moves (Emit.inOrder codes) (Track.inOrder moves) := by
  induction h with
  | nil => exact pure ()
  | cons hcode _ ih => exact (bind hcode fun _ => ih).congr fun _ => rfl

/-- The code of the ends of a part, and their moves. -/
structure PartMoves (part : PartCode) (moves : Track.PartMoves) : Prop where
  rowLower : Moves part.rows.lower moves.rowLower
  rowUpper : Moves part.rows.upper moves.rowUpper
  columnLower : Moves part.columns.lower moves.columnLower
  columnUpper : Moves part.columns.upper moves.columnUpper

/-- The code of a subscript, and its moves. Which part it selects is decided without writing. -/
structure IndexMoves (index : IndexCode) (moves : Track.IndexMoves) : Prop where
  key : Moves index.key moves.key
  element : Moves index.element moves.element
  part : ∀ s found s', index.part?.run s = .ok (found, s') → s' = s ∧
    Option.Rel PartMoves found moves.part?

theorem pointAtPart {moves : Track.PartMoves} (h : PartMoves part moves) :
    Moves (Emit.pointAtPart part) fun track => moves.columnLower (moves.rowLower track) :=
  (bind h.rowLower fun _ => bind h.columnLower fun _ => quietCall rfl).congr fun _ => rfl

theorem indexLine (register : Register) :
    Moves (Emit.line (.index register)) (Track.pass (.index register)) :=
  line (by simp [Instr.index, selectionLine, Instr.storeAlpha])

theorem loadPart (register : Register) {moves : Track.PartMoves} (h : PartMoves part moves) :
    Moves (Emit.loadPart register part) fun track =>
      Track.inOrder [moves.rowLower, moves.columnLower, moves.rowLower, moves.rowUpper,
        moves.columnLower, moves.columnUpper] (track.pass (.index register)) :=
  (bind (indexLine register) fun _ => bind (pointAtPart h) fun _ => bind h.rowLower fun _ =>
    bind h.rowUpper fun _ => bind h.columnLower fun _ => bind h.columnUpper fun _ =>
      bind (quietCall rfl) fun _ => op _).congr fun _ => rfl

theorem loadSubscript (object : Ident) {index : IndexCode} {moves : Track.IndexMoves}
    (h : IndexMoves index moves) :
    Moves (Emit.loadSubscript object index) (Track.loadSubscript object moves) := by
  intro scopes
  refine MovesFrom.containerOf fun register kind hfound => ?_
  cases kind with
  | dict =>
    refine MovesFrom.congr (bind (selectContainer register) (fun _ => bind h.key fun _ =>
      bind (call .pointAtKey) fun _ => op _) scopes) fun focus => ?_
    simp only [Track.loadSubscript, hfound]
    rfl
  | list | matrix =>
    intro s a s' hs hrun
    obtain ⟨found, s₁, hpart, hrest⟩ := run_bind.mp hrun
    obtain ⟨rfl, hrel⟩ := h.part s found s₁ hpart
    simp only [Track.loadSubscript, hfound]
    generalize moves.part? = parts at hrel ⊢
    cases hrel with
    | none =>
      exact bind (indexLine register) (fun _ => bind h.element fun _ =>
        bind (quietCall rfl) fun _ => op _) scopes s₁ a s' hs hrest
    | some hrel => exact loadPart register hrel scopes s₁ a s' hs hrest

theorem dimension (object attr : Ident) (h : List.Forall₂ Moves args moves) :
    Moves (Emit.dimension object attr args) (Track.dimension object moves) := by
  intro scopes
  unfold Emit.dimension
  split
  · obtain _ | ⟨hrows, _ | ⟨hcolumns, _ | _⟩⟩ := h
    refine MovesFrom.withScopes fun register scopes' hstore => ?_
    refine MovesFrom.congr (bind hrows (fun _ => bind hcolumns fun _ =>
      quiet (by rfl) (by nofun)) scopes') fun focus => ?_
    simp only [Track.dimension, Track.declare, hstore]
    rfl
  · exact .fail _ _ _

theorem changeRow (register : Register) {row : Emit Unit} {o : Op} (h : Moves row move) :
    Moves (Emit.changeRow register row o) fun track => move (track.pass (.index register)) :=
  (bind (indexLine register) fun _ => bind h fun _ =>
    bind (quiet (by rfl) (by nofun)) fun _ =>
      bind (quietCall rfl) fun _ => op o).congr fun _ => rfl

theorem clearFlag (flag : Nat) : Moves (Emit.clearFlag flag) id :=
  quiet (by rfl) (by nofun)

theorem setFlag (flag : Nat) : Moves (Emit.setFlag flag) id :=
  quiet rfl nofun

theorem method (object attr : Ident) (h : List.Forall₂ Moves args moves) :
    Moves (Emit.method object attr args) (Track.method object attr moves) := by
  intro scopes
  unfold Emit.method
  by_cases hdim : attr.name = "dim"
  · rw [if_pos hdim]
    refine (dimension object attr h scopes).congr fun focus => ?_
    rw [Track.method, if_pos hdim]
  rw [if_neg hdim]
  refine MovesFrom.containerOf fun register kind hfound => ?_
  have hopen : ∀ focus, Track.method object attr moves ⟨scopes, focus⟩ =
      Track.methodOf register kind attr.name moves ⟨scopes, focus⟩ := by
    intro focus
    simp only [Track.method, if_neg hdim, hfound]
  refine MovesFrom.congr ?_ hopen
  dsimp only
  split
  · rename_i hattr
    obtain _ | ⟨hvalue, _ | _⟩ := h
    rw [hattr]
    exact (bind (selectContainer register) fun _ => bind (clearFlag _) fun _ =>
      bind hvalue fun _ => call .listPush) scopes
  · rename_i hattr
    cases h
    rw [hattr]
    exact (bind (selectContainer register) fun _ => call .listPop) scopes
  iterate 2
    · rename_i hattr
      cases h
      rw [hattr]
      exact (bind (selectContainer register) fun _ => quietCall rfl) scopes
  iterate 4
    · rename_i hattr
      obtain _ | ⟨hrow, _ | _⟩ := h
      rw [hattr]
      exact changeRow register hrow scopes
  · exact .ite (.fail _ _ _) (.fail _ _ _)

theorem alpha (text : String) : Moves (Emit.alpha text) id := by
  refine lines fun instr hinstr => ?_
  unfold alphaLines at hinstr
  split at hinstr
  · cases hinstr
  · rcases List.mem_cons.mp hinstr with rfl | hrest
    · exact ⟨by simp [selectionLine, Instr.storeAlpha], rfl⟩
    · obtain ⟨piece, -, rfl⟩ := List.mem_map.mp hrest
      exact ⟨by simp [selectionLine, Instr.storeAlpha], rfl⟩

theorem length (arg : Expr) : Moves (Emit.length arg) (Track.length arg) := by
  intro scopes
  unfold Emit.length
  split
  · refine MovesFrom.containerOf fun register kind hfound => ?_
    have hselect : Moves (do Emit.selectContainer register; Emit.call .listLength)
        (Track.select register) :=
      (bind (selectContainer register) fun _ => quietCall rfl).congr fun _ => rfl
    have hrows :
        Moves (do Emit.line (.recallValue register); Emit.op .dimensions; Emit.op .rollDown) id :=
      (bind (quiet (by rfl) (by nofun)) fun _ =>
        bind (op _) fun _ => op _).congr fun _ => rfl
    cases kind with
    | list | dict =>
      refine (hselect scopes).congr fun focus => ?_
      simp only [Track.length, hfound]
    | matrix =>
      refine (hrows scopes).congr fun focus => ?_
      simp only [Track.length, hfound]
      rfl
  · exact .fail _ _ _

theorem print (arg : Expr) {code : Emit Unit} (h : Moves code move) :
    Moves (Emit.print arg code) (Track.print arg move) := by
  have hview : Moves (do code; Emit.line (.memory .view (.stack .x))) move :=
    (bind h fun _ => quiet (by rfl) (by nofun)).congr fun _ => rfl
  cases arg with
  | string _ text => exact (bind (alpha text) fun _ => op _).congr fun _ => rfl
  | _ => exact hview

theorem builtin (function : Builtin) (args : List Expr)
    (start : Position) (h : List.Forall₂ Moves codes moves) :
    Moves (Emit.builtin function args codes start) (Track.builtin function args moves) := by
  unfold Emit.builtin
  split
  · exact .fail _ _ _
  · exact .fail _ _ _
  · exact length _
  · obtain _ | ⟨hcode, _ | _⟩ := h
    exact print _ hcode
  iterate 2
    · obtain _ | ⟨hcode, _ | _⟩ := h
      exact (bind hcode fun _ => op _).congr fun _ => rfl
  iterate 2
    · obtain _ | ⟨hcode, _ | _⟩ := h
      exact (bind hcode fun _ => quietCall rfl).congr fun _ => rfl
  · exact .fail _ _ _

theorem onVariable {o : MemoryOp} (ho : o ≠ .storeAlpha) (args : List Expr) (start : Position) :
    Moves (do
      let register ← Emit.variableOperand o args start
      Emit.line (.memory o (.register register))) (Track.onVariable o args) := by
  have hline : ∀ register, Moves (Emit.line (.memory o (.register register)))
      (Track.pass (.memory o (.register register))) :=
    fun register => line (by simp [selectionLine, Instr.storeAlpha, ho])
  intro scopes
  unfold Emit.variableOperand
  split
  · rename_i name
    split
    · exact .fail_bind _ _ _ _
    · exact hline (.named name) scopes
  · rename_i ident
    -- a numbered register is refused where a name is needed
    have hcheck : ∀ register scopes, MovesFrom scopes ((do
        if (o = .index || o = .clearVariable) && !register.isNamed then
          Emit.fail (.call (.numberedVariable o.mnemonic ident.name)) ident.start
        return register : Emit Register) >>= fun register =>
          Emit.line (.memory o (.register register)))
        fun focus => Track.pass (.memory o (.register register)) ⟨scopes, focus⟩ := by
      intro register scopes
      by_cases hrefused : ((o = .index || o = .clearVariable) && !register.isNamed) = true
      · rw [if_pos hrefused]
        exact .fail_bind _ _ _ _
      · rw [if_neg hrefused]
        exact hline register scopes
    by_cases hinput : o = .input
    · rw [if_pos hinput, bind_assoc]
      refine MovesFrom.withScopes fun register scopes' hstore => ?_
      refine (hcheck register scopes').congr fun focus => ?_
      simp only [Track.onVariable, if_pos hinput, Track.declare, hstore]
      subst hinput
      rfl
    · rw [if_neg hinput, bind_assoc]
      refine MovesFrom.registerOf fun register hregister => ?_
      refine (hcheck register scopes).congr fun focus => ?_
      simp only [Track.onVariable, if_neg hinput, hregister]
  · exact .fail_bind _ _ _ _

theorem primitive {name : String} {instruction : Primitive}
    (hname : Primitive.ofName? name = some instruction) (args : List Expr) (start : Position)
    (h : List.Forall₂ Moves codes moves) :
    Moves (Emit.primitive instruction args codes start)
      (Track.primitive instruction args moves) := by
  unfold Emit.primitive
  cases instruction with
  | stack o arity reversed =>
    have hcodes : List.Forall₂ Moves (if reversed then codes.reverse else codes)
        (if reversed then moves.reverse else moves) := by
      cases reversed with
      | false => exact h
      | true => exact List.forall₂_reverse_iff.mpr h
    intro scopes
    have hwrite := (bind (inOrder hcodes) fun _ => op o) scopes
    exact .ite hwrite (.fail_bind _ _ _ _)
  | digits o =>
    dsimp only
    split
    · cases o with
      | setting o => exact (quiet rfl nofun : Moves (Emit.line (.setting o _)) id)
      | flag o => exact (quiet rfl nofun : Moves (Emit.line (.flag o _)) id)
    · exact .fail _ _ _
  | onVariable o =>
    have ho : o.isPlain = true := by
      simpa [Primitive.isControl] using Primitive.isControl_of_ofName? hname
    exact onVariable (MemoryOp.ne_of_isPlain ho rfl) args start

theorem callFunction (hlabels : labels.Linkable) (callee : Ident) (args : List Expr)
    (start : Position) (h : List.Forall₂ Moves codes moves) :
    Moves (Emit.callFunction labels callee args codes start)
      (Track.callFunction labels callee args moves) := by
  unfold Emit.callFunction Track.callFunction
  cases hlabel : labels.get? callee.name with
  | some label =>
    have hown := hlabels _ _ hlabel
    have hindex : (Instr.xeq label).setsIndex = false := by
      cases label with
      | global name => rw [Instr.setsIndex, Routine.ofCall?, hown.1]; rfl
      | letter c => rfl
      | number n => rfl
    exact (bind (inOrder h) fun _ => quiet hindex nofun).congr fun _ => rfl
  | none =>
    cases Builtin.ofName? callee.name with
    | some function => exact builtin function args start h
    | none =>
      cases hinstruction : Primitive.ofName? callee.name with
      | some instruction => exact primitive hinstruction args start h
      | none => exact .fail _ _ _

/-! ### Operands -/

theorem recallName (id : Ident) : Moves (Emit.recallName labels id) fun track => track := by
  intro scopes
  have hread : MovesFrom scopes (do
      let register ← Emit.registerOf id.name id.start
      Emit.line (.recallValue register)
      if (← get).scopes.isRangeIndex id.name then
        Emit.op .integerPart) fun focus => ⟨scopes, focus⟩ := by
    refine MovesFrom.registerOf fun register _ => ?_
    have hrecall : Moves (Emit.line (.recallValue register)) fun track => track :=
      quiet rfl nofun
    have hpart : Moves (do
        if (← get).scopes.isRangeIndex id.name then
          Emit.op .integerPart) fun track => track := by
      intro scopes s a s' hs hrun
      rw [run_get_bind] at hrun
      split at hrun
      · exact op .integerPart scopes s a s' hs hrun
      · exact pure () scopes s a s' hs hrun
    exact (bind hrecall fun _ => hpart) scopes
  exact .ite (.fail_bind _ _ _ _) hread

theorem operatorLines (ops : List Op) : Moves (Emit.lines (ops.map .op)) id := by
  refine lines fun instr hinstr => ?_
  obtain ⟨o, -, rfl⟩ := List.mem_map.mp hinstr
  exact ⟨by simp [selectionLine, Instr.storeAlpha], rfl⟩

end Moves

/-! ### Expressions -/

/-- The ends of a slice move the focus as they should, if an expression is one. -/
def EndsMove (labels : FunctionLabels) (e : Expr) : Prop :=
  ∀ {start lower upper}, e = .slice start lower upper →
    Moves (sliceEnd labels lower) (trackEnd labels lower) ∧
      Moves (sliceEnd labels upper) (trackEnd labels upper)

/-- An expression moves the focus as it should, also where it is a subscript of one or two
dimensions. -/
structure OperandMoves (labels : FunctionLabels) (e : Expr) : Prop where
  whole : Moves (expr labels e) (trackExpr labels e)
  ends : EndsMove labels e
  elements : ∀ {start elements}, e = .tuple start elements →
    ∀ x ∈ elements, Moves (expr labels x) (trackExpr labels x) ∧ EndsMove labels x

variable {e : Expr}

theorem OperandMoves.of_whole (h : Moves (expr labels e) (trackExpr labels e))
    (hsingle : e.isCompound = false) : OperandMoves labels e := by
  refine ⟨h, ?_, ?_⟩
  · rintro _ _ _ rfl
    cases hsingle
  · rintro _ _ rfl
    cases hsingle

theorem moves_int (value : Nat) : Moves (line (.int value)) id :=
  .quiet rfl nofun

theorem moves_element (h : OperandMoves labels e) :
    Moves (element labels (expr labels e) e) (trackElement labels (trackExpr labels e) e) := by
  unfold element
  split
  · rw [trackElement]
    refine .bind (h.elements rfl _ ?_).1 fun _ => (h.elements rfl _ ?_).1
    all_goals simp
  · exact .fail _ _ _
  · rename_i hpair htuple
    have hwhole : trackElement labels (trackExpr labels e) e = trackExpr labels e := by
      rw [trackElement]
      · exact hpair
      · exact htuple
    rw [hwhole]
    exact (Moves.bind h.whole fun _ => moves_int 0).congr fun _ => rfl

theorem moves_part (h : OperandMoves labels e)
    {s s' : Emitter} {found : Option PartCode} (hrun : (part labels e).run s = .ok (found, s')) :
    s' = s ∧ Option.Rel Moves.PartMoves found (trackPart labels e) := by
  unfold part at hrun
  split at hrun
  · obtain ⟨hlower, hupper⟩ := h.ends rfl
    split at hrun
    · cases hrun
    · cases hrun
      exact ⟨rfl, .some ⟨hlower, hupper, moves_int 0, moves_int 1⟩⟩
  · obtain ⟨hrowLower, hrowUpper⟩ := (h.elements rfl _ List.mem_cons_self).2 rfl
    obtain ⟨hcolumnLower, hcolumnUpper⟩ :=
      (h.elements rfl _ (List.mem_cons_of_mem _ List.mem_cons_self)).2 rfl
    split at hrun
    · cases hrun
    · cases hrun
      exact ⟨rfl, .some ⟨hrowLower, hrowUpper, hcolumnLower, hcolumnUpper⟩⟩
  · rename_i hslices
    split at hrun
    · cases hrun
    · cases hrun
      rw [trackPart]
      · exact ⟨rfl, .none⟩
      · intro _ _ _ heq
        cases heq
      · intro _ _ _ _ _ _ _ heq
        exact hslices _ _ _ _ _ _ (Expr.tuple.inj heq).2
  · rename_i hslice hslices _
    cases hrun
    rw [trackPart]
    · exact ⟨rfl, .none⟩
    · exact hslice
    · exact hslices

theorem moves_index (h : OperandMoves labels e) :
    Moves.IndexMoves (index labels e) ⟨trackExpr labels e,
      trackElement labels (trackExpr labels e) e, trackPart labels e⟩ :=
  ⟨h.whole, moves_element h, fun _ _ _ => moves_part h⟩

theorem moves_codes {args : List Expr}
    (h : ∀ e ∈ args, Moves (expr labels e) (trackExpr labels e)) :
    List.Forall₂ Moves (codes labels args) (trackCodes labels args) := by
  induction args with
  | nil => exact .nil
  | cons e rest ih =>
    rw [List.forall_mem_cons] at h
    exact .cons h.1 (ih h.2)

theorem moves_booleans (operator : Python.BoolOp) {others : List Expr}
    (h : ∀ e ∈ others, Moves (expr labels e) (trackExpr labels e)) :
    Moves (booleans labels operator others) (Track.inOrder (trackCodes labels others)) := by
  induction others with
  | nil => exact .pure ()
  | cons e rest ih =>
    rw [List.forall_mem_cons] at h
    exact (Moves.bind h.1 fun _ => .bind (.quietCall rfl) fun _ => .bind (.op _) fun _ =>
      ih h.2).congr fun _ => rfl

theorem moves_compareChain {comparisons : List (Python.CompareOp × Expr)}
    (h : ∀ comparison ∈ comparisons,
      Moves (expr labels comparison.2) (trackExpr labels comparison.2))
    (isFirst : Bool) {previous : Emit Unit} {move : Move} (hprevious : Moves previous move) :
    Moves (compareChain labels isFirst previous comparisons)
      (trackChain labels move comparisons) := by
  induction comparisons generalizing isFirst previous move with
  | nil => exact .pure ()
  | cons comparison rest ih =>
    obtain ⟨operator, right⟩ := comparison
    rw [List.forall_mem_cons] at h
    rw [compareChain, trackChain]
    split
    · exact .fail _ _ _
    · rename_i routine hroutine
      have hquiet : routine.setsIndex = false := by
        cases operator <;> cases hroutine <;> decide
      have hrest := ih h.2 false h.1
      have hjoin : Moves (do
          unless isFirst do
            call .truthPair
            op .and
          compareChain labels false (expr labels right) rest)
          (trackChain labels (trackExpr labels right) rest) := by
        cases isFirst with
        | true => exact hrest
        | false =>
          exact (Moves.bind (.quietCall rfl) fun _ => .bind (.op _) fun _ => hrest).congr
            fun _ => rfl
      exact (Moves.bind hprevious fun _ => .bind h.1 fun _ => .bind (.quietCall hquiet) fun _ =>
        hjoin).congr fun _ => rfl

theorem moves_sliceEnd {bound : Option Expr}
    (h : ∀ e ∈ bound, Moves (expr labels e) (trackExpr labels e)) :
    Moves (sliceEnd labels bound) (trackEnd labels bound) := by
  cases bound with
  | none => exact moves_int 0
  | some e =>
    exact h e rfl

theorem moves_operand (hlabels : labels.Linkable) (e : Expr) : OperandMoves labels e := by
  induction Script.named_any e with
  | int _ value => exact .of_whole (moves_int value) rfl
  | float => exact .of_whole (.quiet rfl (by rintro ⟨⟩)) rfl
  | string => exact .of_whole (.alpha _) rfl
  | bool | none => exact .of_whole (moves_int _) rfl
  | @name id => exact .of_whole (.recallName id) rfl
  | binary _ _ _ ihleft ihright =>
    refine .of_whole ?_ rfl
    rw [expr, trackExpr]
    split
    · exact .fail _ _ _
    · exact (Moves.bind ihleft.whole fun _ => .bind ihright.whole fun _ =>
        .operatorLines _).congr fun _ => rfl
  | boolean _ _ _ _ ihfirst ihothers =>
    refine .of_whole ?_ rfl
    rw [expr, trackExpr]
    exact .bind ihfirst.whole fun _ => moves_booleans _ fun e he => (ihothers e he).whole
  | not _ _ ih =>
    refine .of_whole ?_ rfl
    exact (Moves.bind ih.whole fun _ => .bind (.quietCall rfl) fun _ => .quietCall rfl).congr
      fun _ => rfl
  | negate _ _ ih | invert _ _ ih =>
    refine .of_whole ?_ rfl
    exact (Moves.bind ih.whole fun _ => .op _).congr fun _ => rfl
  | compare _ _ _ _ ihleft ih =>
    refine .of_whole ?_ rfl
    exact moves_compareChain (fun e he => (ih e he).whole) true ihleft.whole
  | call _ _ _ ih =>
    refine .of_whole ?_ rfl
    exact .callFunction hlabels _ _ _ (moves_codes fun e he => (ih e he).whole)
  | method _ _ _ _ ih =>
    refine .of_whole ?_ rfl
    exact .method _ _ (moves_codes fun e he => (ih e he).whole)
  | subscript _ _ _ ih =>
    refine .of_whole ?_ rfl
    exact .loadSubscript _ (moves_index ih)
  | slice _ _ _ ihlower ihupper =>
    refine ⟨.fail _ _ _, ?_, by rintro _ _ ⟨⟩⟩
    rintro _ _ _ ⟨⟩
    exact ⟨moves_sliceEnd fun e he => (ihlower e he).whole,
      moves_sliceEnd fun e he => (ihupper e he).whole⟩
  | tuple _ _ ih =>
    refine ⟨.fail _ _ _, by rintro _ _ _ ⟨⟩, ?_⟩
    rintro _ _ ⟨⟩ x hx
    exact ⟨(ih x hx).whole, (ih x hx).ends⟩
  | list | dict => exact .of_whole (.fail _ _ _) rfl

theorem moves_expr (hlabels : labels.Linkable) (e : Expr) :
    Moves (expr labels e) (trackExpr labels e) :=
  (moves_operand hlabels e).whole

theorem moves_subscript (hlabels : labels.Linkable) (e : Expr) :
    Moves.IndexMoves (index labels e) ⟨trackExpr labels e,
      trackElement labels (trackExpr labels e) e, trackPart labels e⟩ :=
  moves_index (moves_operand hlabels e)

end Emit

end Keystroke
