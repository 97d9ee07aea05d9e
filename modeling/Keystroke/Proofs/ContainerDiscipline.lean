import Keystroke.Proofs.ContainerFocus
import Keystroke.Proofs.JumpTarget
import Keystroke.Proofs.WrittenLines

/-!
# Containers that are still in focus when they are used

An operation on a container puts it into focus, writes the code of its operands, and then calls a
routine or works on the indexed matrix. The operands come in between, and they can use containers of
their own. So the container is still in focus when its routine is called exactly when the operands
leave it there.
-/

namespace Keystroke

open Emit (Moves PartCode call clearFlag containerOf expr line loadPart moves_expr moves_int
  moves_subscript op pointAtPart pushItems pushPairs run_bind run_bind_of_ok selectContainer
  setFlag)
open Script (Expr Ident Stmt)
open Track (Move)
open Emit

/-- A place where lines are written on behalf of a container, with the operation that it belongs
to. -/
inductive ContainerUse where
  | listItem (target : Ident) (before : List Expr) (item : Expr) (after : List Expr)
  | dictItem (target : Ident) (before : List (Expr × Expr)) (key value : Expr)
      (after : List (Expr × Expr))
  | append (start : Position) (object : Ident) (value : Expr)
  | pop (start : Position) (object : Ident)
  | clear (start : Position) (object : Ident)
  | length (object : Ident)
  | keyLoad (object : Ident) (key : Expr)
  /-- A value is stored under a key. -/
  | keyStore (object : Ident) (key : Expr)
  /-- The length of a container is taken before a loop over its rows. -/
  | loopLength (start : Position) (target container : Ident) (body : List Stmt)
  | elementLoad (object : Ident) (index : Expr)
  | elementStore (object : Ident) (index : Expr)
  /-- The first element of a part that is loaded is pointed at. -/
  | partLoad (object : Ident) (index : Expr)
  /-- A part is copied, after its size has been computed. -/
  | partCopy (object : Ident) (index : Expr)
  | partStore (object : Ident) (index : Expr)
  | insertRow (start : Position) (object : Ident) (row : Expr)
  | deleteRow (start : Position) (object : Ident) (row : Expr)
  | loopRow (start : Position) (target container : Ident) (body : List Stmt)

namespace ContainerUse

variable {labels : FunctionLabels}

/-- The operation that the place belongs to. -/
def code (labels : FunctionLabels) : ContainerUse → Emit Unit
  | listItem target before item after =>
    Emit.listLiteral target ((before ++ item :: after).map (expr labels))
  | dictItem target before key value after =>
    Emit.dictLiteral target ((before ++ (key, value) :: after).map fun (key, item) =>
      (expr labels key, expr labels item))
  | append start object value =>
    Emit.method object ⟨start, "append"⟩ [expr labels value]
  | pop start object => Emit.method object ⟨start, "pop"⟩ []
  | clear start object => Emit.method object ⟨start, "clear"⟩ []
  | length object => Emit.length (.name object)
  | keyLoad object index | elementLoad object index | partLoad object index
  | partCopy object index => Emit.loadSubscript object (Emit.index labels index)
  | keyStore object index | elementStore object index | partStore object index =>
    Emit.storeSubscript object (Emit.index labels index)
  | insertRow start object row => Emit.method object ⟨start, "insr"⟩ [expr labels row]
  | deleteRow start object row => Emit.method object ⟨start, "delr"⟩ [expr labels row]
  | loopLength start target container body | loopRow start target container body =>
    Emit.forElements target container start (Emit.block labels body)

/-- The lines that are written there on behalf of the container. -/
def owned : ContainerUse → List Instr
  | listItem _ _ _ _ | dictItem _ _ _ _ _ | append _ _ _ => [Routine.call .listPush]
  | pop _ _ => [Routine.call .listPop]
  | clear _ _ => [Routine.call .listClear]
  | length _ | loopLength _ _ _ _ => [Routine.call .listLength]
  | keyLoad _ _ | keyStore _ _ => [Routine.call .pointAtKey]
  | elementLoad _ _ | loopRow _ _ _ _ => [Routine.call .pointAt, .op .recallElement]
  | elementStore _ _ => [Routine.call .pointAt, .op .storeElement]
  | partLoad _ _ => [Routine.call .pointAt]
  | partCopy _ _ => [.op .getMatrix]
  | partStore _ _ => [Routine.call .pointAt, .op .putMatrix]
  | insertRow _ _ _ => [Routine.call .pointAt, .op .insertRow]
  | deleteRow _ _ _ => [Routine.call .pointAt, .op .deleteRow]

/-- Whether the container is used by its name, and not as the indexed matrix. -/
def selects : ContainerUse → Bool
  | listItem _ _ _ _ | dictItem _ _ _ _ _ | append _ _ _ | pop _ _ | clear _ _ | length _
  | keyLoad _ _ | keyStore _ _ | loopLength _ _ _ _ => true
  | elementLoad _ _ | elementStore _ _ | partLoad _ _ | partCopy _ _ | partStore _ _
  | insertRow _ _ _ | deleteRow _ _ _ | loopRow _ _ _ _ => false

/-- The container in `register` is in focus: the name stored last is its name, or it is the matrix
that was indexed last. -/
def InFocus (use : ContainerUse) (register : Register) (focus : Focus) : Prop :=
  if use.selects then focus.selected = some (.alpha register.nameOrEmpty)
  else focus.indexed = some (.index register)

instance (use : ContainerUse) (register : Register) (focus : Focus) :
    Decidable (use.InFocus register focus) :=
  inferInstanceAs (Decidable (if use.selects then _ else _))

/-! ### Finding the container -/

def expectKind (object : Ident) (kinds : List Container) : Emit Register := do
  let (register, kind) ← containerOf object
  unless kinds.contains kind do
    Emit.fail (.use (.notIterable object.name)) object.start
  return register

/-- Fails unless a subscript selects a part, or unless it selects an element. -/
def expectPart (labels : FunctionLabels) (index : Expr) (isPart : Bool) : Emit Unit := do
  let part? ← Emit.part labels index
  unless part?.isSome = isPart do
    Emit.fail (.call .sliceAxes) index.start

/-- Where a container is, and the counter of the loop over its rows, if there is one. -/
structure Spot where
  container : Register
  counter : Register := container

/-- The code of an operation up to where it puts its container into focus. -/
def find (labels : FunctionLabels) : ContainerUse → Emit Spot
  | listItem target _ _ _ => do
    let register ← Emit.bind target.name .list target.start
    Emit.commented (.memory .clearVariable (.register register)) (target.name ++ " = [...]")
    return { container := register }
  | dictItem target _ _ _ _ => do
    let register ← Emit.bind target.name .dict target.start
    Emit.commented (.memory .clearVariable (.register register)) (target.name ++ " = \x7b...\x7d")
    return { container := register }
  | append _ object _ | pop _ object => return { container := ← expectKind object [.list] }
  | clear _ object | length object => return { container := ← expectKind object [.list, .dict] }
  | keyLoad object _ | keyStore object _ => return { container := ← expectKind object [.dict] }
  | insertRow _ object _ | deleteRow _ object _ =>
    return { container := ← expectKind object [.list, .matrix] }
  | elementLoad object index | elementStore object index => do
    let register ← expectKind object [.list, .matrix]
    expectPart labels index false
    return { container := register }
  | partLoad object index | partCopy object index | partStore object index => do
    let register ← expectKind object [.list, .matrix]
    expectPart labels index true
    return { container := register }
  | loopLength start _ container _ => do
    let register ← expectKind container [.list, .dict]
    let counter ← Emit.anonymous start
    let _ ← Emit.skipLabel start
    line (.int 0)
    return { container := register, counter }
  | loopRow start target container _ => do
    let register ← expectKind container [.list, .dict]
    let counter ← Emit.anonymous start
    let exit ← Emit.skipLabel start
    line (.int 0)
    selectContainer register
    call .listLength
    op .isZero
    Emit.jump exit
    line (.int 1)
    call .packCounter
    Emit.store counter ("for " ++ target.name ++ " in " ++ container.name) false
    let entry ← Emit.loopLabel start
    Emit.place entry
    return { container := register, counter }

/-- Puts the container into focus. -/
def focusOn (spot : Spot) : ContainerUse → Emit Unit
  | listItem _ _ _ _ | append _ _ _ => do
    selectContainer spot.container
    clearFlag Reserved.pairFlag
  | dictItem _ _ _ _ _ => do
    selectContainer spot.container
    setFlag Reserved.pairFlag
  | keyStore _ _ => do
    selectContainer spot.container
    setFlag Reserved.createKeyFlag
  | pop _ _ | clear _ _ | length _ | keyLoad _ _ | loopLength _ _ _ _ =>
    selectContainer spot.container
  | elementLoad _ _ | elementStore _ _ | partLoad _ _ | partCopy _ _ | partStore _ _
  | insertRow _ _ _ | deleteRow _ _ _ => line (.index spot.container)
  | loopRow _ _ _ _ => do
    line (.index spot.container)
    line (.recallValue spot.counter)
    op .integerPart
    line (.int 0)

/-! ### Operands -/

/-- The code between the line that puts the container into focus and the lines on its behalf. -/
def operands (labels : FunctionLabels) : ContainerUse → Emit Unit
  | listItem _ before item _ => do
    pushItems (before.map (expr labels))
    expr labels item
  | dictItem _ before key value _ => do
    pushPairs (before.map fun (key, item) => (expr labels key, expr labels item))
    expr labels key
    expr labels value
  | append _ _ value => expr labels value
  | keyLoad _ key | keyStore _ key => expr labels key
  | elementLoad _ index | elementStore _ index =>
    Emit.element labels (expr labels index) index
  | partLoad _ index | partStore _ index => do
    if let some part ← Emit.part labels index then
      part.rows.lower
      part.columns.lower
  | partCopy _ index => do
    if let some part ← Emit.part labels index then
      pointAtPart part
      part.rows.lower
      part.rows.upper
      part.columns.lower
      part.columns.upper
      call .sliceSize
  | insertRow _ _ row | deleteRow _ _ row => do
    expr labels row
    line (.int 0)
  | pop _ _ | clear _ _ | length _ | loopLength _ _ _ _ | loopRow _ _ _ _ => return ()

/-- What the operands do to the focus. -/
def move (labels : FunctionLabels) : ContainerUse → Move
  | listItem _ before item _ => fun track =>
    trackExpr labels item (before.foldl (fun track item =>
      (trackExpr labels item track).call .listPush) track)
  | dictItem _ before key value _ => fun track =>
    trackExpr labels value (trackExpr labels key (before.foldl (fun track item =>
      (trackExpr labels item.2 (trackExpr labels item.1 track)).call .listPush) track))
  | append _ _ e | keyLoad _ e | keyStore _ e | insertRow _ _ e | deleteRow _ _ e =>
    trackExpr labels e
  | elementLoad _ index | elementStore _ index =>
    trackElement labels (trackExpr labels index) index
  | partLoad _ index | partStore _ index => fun track =>
    match trackPart labels index with
    | some part => part.columnLower (part.rowLower track)
    | none => track
  | partCopy _ index => fun track =>
    match trackPart labels index with
    | some part => Track.inOrder [part.rowLower, part.columnLower, part.rowLower, part.rowUpper,
        part.columnLower, part.columnUpper] track
    | none => track
  | pop _ _ | clear _ _ | length _ | loopLength _ _ _ _ | loopRow _ _ _ _ => id

/-! ### Moving the focus -/

theorem moves_focusOn (use : ContainerUse) (spot : Spot) :
    Moves (use.focusOn spot) fun track =>
      if use.selects then track.select spot.container else track.pass (.index spot.container) := by
  have hselect := Moves.selectContainer spot.container
  have hindex := Moves.indexLine spot.container
  cases use with
  | listItem | append => exact (hselect.bind fun _ => .clearFlag _).congr fun _ => rfl
  | dictItem | keyStore => exact (hselect.bind fun _ => .setFlag _).congr fun _ => rfl
  | pop | clear | length | keyLoad | loopLength => exact hselect
  | elementLoad | elementStore | partLoad | partCopy | partStore | insertRow | deleteRow =>
    exact hindex
  | loopRow =>
    exact (hindex.bind fun _ =>
      .bind (.quiet (by rfl) (by nofun)) fun _ =>
      (Moves.op _).bind fun _ => moves_int 0).congr fun _ => rfl

variable {use : ContainerUse} {spot : Spot} {s : Emitter}

/-- Once an operation has put its container into focus, it is there. -/
theorem inFocus_of_focusOn {u : Emitter} (h : (use.focusOn spot).run s = .ok ((), u)) :
    use.InFocus spot.container (.of u.listing.instrs) := by
  have htrack := (moves_focusOn use spot).track h
  have hfocus : Focus.of u.listing.instrs = u.track.focus := rfl
  rw [hfocus, htrack]
  unfold InFocus
  cases use.selects with
  | true => rfl
  | false => rfl

theorem moves_pushItems (hlabels : labels.Linkable) (items : List Expr) :
    Moves (pushItems (items.map (expr labels))) fun track =>
      items.foldl (fun track item => (trackExpr labels item track).call .listPush) track := by
  induction items with
  | nil => exact .pure ()
  | cons item rest ih =>
    exact ((moves_expr hlabels item).bind fun _ => (Moves.call .listPush).bind fun _ =>
      ih).congr fun _ => rfl

theorem moves_pushPairs (hlabels : labels.Linkable) (items : List (Expr × Expr)) :
    Moves (pushPairs (items.map fun (key, item) =>
        (expr labels key, expr labels item))) fun track =>
      items.foldl (fun track item =>
        (trackExpr labels item.2 (trackExpr labels item.1 track)).call .listPush) track := by
  induction items with
  | nil => exact .pure ()
  | cons item rest ih =>
    exact ((moves_expr hlabels item.1).bind fun _ =>
      (moves_expr hlabels item.2).bind fun _ => (Moves.call .listPush).bind fun _ =>
      ih).congr fun _ => rfl

/-- Operands that are written for a part of a matrix. -/
theorem moves_ofPart (hlabels : labels.Linkable) (index : Expr) {f : PartCode → Emit Unit}
    {g : Track.PartMoves → Move}
    (h : ∀ part moves, Moves.PartMoves part moves → Moves (f part) (g moves)) :
    Moves (do
      if let some part ← part labels index then
        f part) fun track =>
      match trackPart labels index with
      | some moves => g moves track
      | none => track := by
  intro scopes s a s' hs hrun
  obtain ⟨found, s₁, hpart, hrest⟩ := run_bind.mp hrun
  obtain ⟨rfl, hrel⟩ := (moves_subscript hlabels index).part s found s₁ hpart
  generalize trackPart labels index = parts at hrel ⊢
  cases hrel with
  | none => exact Moves.pure () scopes s₁ a s' hs hrest
  | some hrel => exact h _ _ hrel scopes s₁ a s' hs hrest

/-- The operands of a place move the focus as the place says. -/
theorem moves_operands (hlabels : labels.Linkable) (use : ContainerUse) :
    Moves (use.operands labels) (use.move labels) := by
  cases use with
  | listItem target before item after =>
    exact (moves_pushItems hlabels before).bind fun _ => moves_expr hlabels item
  | dictItem target before key value after =>
    exact ((moves_pushPairs hlabels before).bind fun _ => (moves_expr hlabels key).bind fun _ =>
      moves_expr hlabels value).congr fun _ => rfl
  | append _ _ e | keyLoad _ e | keyStore _ e => exact moves_expr hlabels e
  | elementLoad _ index | elementStore _ index => exact (moves_subscript hlabels index).element
  | partLoad object index | partStore object index =>
    exact moves_ofPart hlabels index fun part moves h => h.rowLower.bind fun _ => h.columnLower
  | partCopy object index =>
    exact moves_ofPart hlabels index fun part moves h => ((Moves.pointAtPart h).bind fun _ =>
      h.rowLower.bind fun _ => h.rowUpper.bind fun _ => h.columnLower.bind fun _ =>
      h.columnUpper.bind fun _ => .quietCall rfl).congr fun _ => rfl
  | insertRow start object row | deleteRow start object row =>
    exact ((moves_expr hlabels row).bind fun _ => moves_int 0).congr fun _ => rfl
  | pop | clear | length | loopLength | loopRow => exact Moves.pure ()

/-! ### Runs of operations -/

/-- An action writes some lines first, and only appends to them. -/
def Opens (owned : List Instr) (m : Emit Unit) : Prop :=
  ∀ t s', m.run t = .ok ((), s') → ∃ rest, s'.listing.instrs = t.listing.instrs ++ (owned ++ rest)

variable {m : Emit Unit} {owned : List Instr} {kinds : List Container} {α : Type} {track : Track}

theorem Opens.of_moves {move : Move} (h : Moves m move) : Opens [] m := by
  intro t s' hrun
  obtain ⟨code, hcode, -⟩ := h t.scopes t () s' rfl hrun
  exact ⟨code, hcode⟩

theorem Opens.of_writes (h : Writes labels .any [] m) : Opens [] m := by
  intro t s' hrun
  obtain ⟨-, -, code, hcode, -, -⟩ := h.code t () s' hrun
  exact ⟨code.map (·.instr), by rw [hcode, Listing.instrs_writeAll]; rfl⟩

theorem Opens.call (routine : Routine) (h : Opens owned m) :
    Opens (Routine.call routine :: owned) (call routine >>= fun _ => m) := by
  intro t s' hrun
  obtain ⟨_, t', hcall, hrest⟩ := run_bind.mp hrun
  obtain ⟨rest, hs'⟩ := h t' s' hrest
  cases hcall
  refine ⟨rest, ?_⟩
  rw [hs']
  show (t.listing.callRoutine routine).instrs ++ _ = _
  rw [Listing.callRoutine_eq_write, Listing.instrs_write]
  simp

theorem Opens.op (o : Op) (h : Opens owned m) :
    Opens (.op o :: owned) (op o >>= fun _ => m) := by
  intro t s' hrun
  obtain ⟨_, t', hop, hrest⟩ := run_bind.mp hrun
  obtain ⟨rest, hs'⟩ := h t' s' hrest
  cases hop
  refine ⟨rest, ?_⟩
  rw [hs', Listing.instrs_emit]
  simp

theorem Opens.nil : Opens [] (pure ()) :=
  .of_moves (.pure ())

variable {object : Ident} {s₁ : Emitter} {register : Register}

theorem expectKind_eq_ok (h : (expectKind object kinds).run s = .ok (register, s₁)) :
    ∃ kind ∈ kinds, (containerOf object).run s = .ok ((register, kind), s₁) := by
  obtain ⟨⟨found, kind⟩, s₂, hfound, hrest⟩ := run_bind.mp h
  by_cases hkind : kinds.contains kind = true
  · simp only [hkind] at hrest
    cases hrest
    exact ⟨kind, by simpa using hkind, hfound⟩
  · simp only [hkind] at hrest
    cases hrest

theorem find_eq_ok
    (h : (do return { container := ← expectKind object kinds } : Emit Spot).run s =
      .ok (spot, s₁)) :
    ∃ kind ∈ kinds, (containerOf object).run s = .ok ((spot.container, kind), s₁) := by
  obtain ⟨register, s₂, hexpect, hspot⟩ := run_bind.mp h
  cases hspot
  exact expectKind_eq_ok hexpect

variable {index : Expr}

/-- The part that a subscript selects does not depend on the state. -/
theorem part_eq_pure {found : Option PartCode}
    (h : (Emit.part labels index).run s = .ok (found, s₁)) :
    Emit.part labels index = pure found ∧ s₁ = s := by
  unfold Emit.part at h ⊢
  split at h
  case h_4 =>
    cases h
    exact ⟨rfl, rfl⟩
  all_goals
    split at h
    · cases h
    · rename_i hcheck
      cases h
      exact ⟨if_neg hcheck, rfl⟩

theorem expectPart_eq_ok {isPart : Bool}
    (h : (expectPart labels index isPart).run s = .ok ((), s₁)) :
    s₁ = s ∧ ∃ found, found.isSome = isPart ∧ Emit.part labels index = pure found := by
  obtain ⟨found, s₂, hfound, hrest⟩ := Emit.run_bind.mp h
  obtain ⟨hpart, rfl⟩ := part_eq_pure hfound
  by_cases hsome : found.isSome = isPart
  · rw [if_pos hsome] at hrest
    cases hrest
    exact ⟨rfl, found, hsome, hpart⟩
  · rw [if_neg hsome] at hrest
    cases hrest

theorem findSubscript_eq_ok {isPart : Bool}
    (h : (do
      let register ← expectKind object [.list, .matrix]
      expectPart labels index isPart
      return { container := register } : Emit Spot).run s = .ok (spot, s₁)) :
    ∃ kind found, (kind = .list ∨ kind = .matrix) ∧
      (containerOf object).run s = .ok ((spot.container, kind), s₁) ∧
      found.isSome = isPart ∧ Emit.part labels index = pure found := by
  obtain ⟨register, s₂, hexpect, h⟩ := run_bind.mp h
  obtain ⟨_, s₃, hpart, hspot⟩ := run_bind.mp h
  cases hspot
  obtain ⟨rfl, found, hpart⟩ := expectPart_eq_ok hpart
  obtain ⟨kind, hkind, hcontainer⟩ := expectKind_eq_ok hexpect
  exact ⟨kind, found, by simpa using hkind, hcontainer, hpart⟩

theorem exists_partMoves (hlabels : labels.Linkable) {part : PartCode}
    (h : Emit.part labels index = pure (some part)) : ∃ moves, Moves.PartMoves part moves := by
  have hrun : (Emit.part labels index).run { scopes := .ofLimit 0 } =
      .ok (some part, { scopes := .ofLimit 0 }) := by
    rw [h]
    rfl
  obtain ⟨-, hrel⟩ := (moves_subscript hlabels index).part _ _ _ hrun
  generalize trackPart labels index = parts at hrel
  cases hrel with
  | some hrel => exact ⟨_, hrel⟩

theorem pushItems_append (before : List (Emit Unit)) (item : Emit Unit) (after : List (Emit Unit)) :
    pushItems (before ++ item :: after) = (do
      pushItems before
      item
      call .listPush
      pushItems after) := by
  induction before with
  | nil => simp [pushItems]
  | cons first rest ih => simp [pushItems, ih]

theorem pushPairs_append (before : List (Emit Unit × Emit Unit)) (key item : Emit Unit)
    (after : List (Emit Unit × Emit Unit)) :
    pushPairs (before ++ (key, item) :: after) = (do
      pushPairs before
      key
      item
      call .listPush
      pushPairs after) := by
  induction before with
  | nil => simp [pushPairs]
  | cons first rest ih => simp [pushPairs, ih]

/-! ### Loops over rows -/

variable {target container : Ident} {body : Emit Unit}

theorem writes_rowLoop {counter : Register} {entry exit : Nat}
    (hbody : Writes labels .any [] body) :
    Writes labels .any [] (rowLoop target container counter entry exit body) :=
  .bind (.of_straight (.storeRegister _ _ _)) fun _ =>
    .bind (.of_straight (.store _ _ rfl)) fun _ =>
    .bind (.loopBody hbody) fun _ => .closeCounted

theorem writes_testedLoop {start : Position} {source counter : Register}
    {exit : Nat} (hbody : Writes labels .any [] body) :
    Writes labels .any [] (testedLoop start target container source counter exit body) :=
  .bind (.op _) fun _ => .bind (.jump _) fun _ => .bind (.line trivial trivial rfl rfl) fun _ =>
    .bind (.of_straight (.call _)) fun _ => .bind (.of_straight (.store _ _ rfl)) fun _ =>
    .bind .withJumps fun _ => .bind (.place _) fun _ =>
    .bind (.of_straight (straight_loadRow _ _)) fun _ => writes_rowLoop hbody

theorem forElements_run {start : Position}
    (h : (expectKind container [.list, .dict]).run s = .ok (register, s₁)) :
    (forElements target container start body).run s =
      (sourceLoop start target container body register).run s₁ := by
  obtain ⟨kind, hkind, hcontainer⟩ := expectKind_eq_ok h
  obtain ⟨hregister, rfl, hfound⟩ := run_containerOf hcontainer
  rw [forElements_eq]
  refine run_bind_of_ok ?_
  rw [sourceOf, run_get_bind]
  rcases hfound with hfound | ⟨-, rfl, -⟩
  · obtain rfl | rfl : kind = .list ∨ kind = .dict := by simpa using hkind
    all_goals
      simp only [hfound]
      exact run_registerOf_eq_ok.mpr ⟨hregister, rfl⟩
  · simp at hkind

/-- Two actions that start alike run alike at first. -/
theorem run_bind_both {β γ : Type} {m : Emit α} {f : α → Emit β} {g : α → Emit γ} {s' : Emitter}
    {b : β} {c : γ} (hf : (m >>= f).run s = .ok (b, s₁)) (hg : (m >>= g).run s = .ok (c, s')) :
    ∃ a s₂, (f a).run s₂ = .ok (b, s₁) ∧ (g a).run s₂ = .ok (c, s') := by
  obtain ⟨a, s₂, hm, hf⟩ := run_bind.mp hf
  rw [run_bind_of_ok hm] at hg
  exact ⟨a, s₂, hf, hg⟩

/-- An operation finds its container, puts it into focus, writes its operands, and then the lines on
behalf of the container. -/
theorem code_run (hlabels : labels.Linkable) {s' : Emitter}
    (hfind : (use.find labels).run s = .ok (spot, s₁))
    (hcode : (use.code labels).run s = .ok ((), s')) : ∃ tail, Opens use.owned tail ∧
      (do use.focusOn spot; use.operands labels; tail : Emit Unit).run s₁ = .ok ((), s') := by
  cases use with
  | listItem target before item after =>
    obtain ⟨register, s₂, hfind, hcode⟩ := run_bind_both hfind hcode
    obtain ⟨_, s₃, hfind, hcode⟩ := run_bind_both hfind hcode
    cases hfind
    refine ⟨_, .call _ (.of_moves (moves_pushItems hlabels after)), ?_⟩
    rw [List.map_append, List.map_cons, pushItems_append] at hcode
    simpa [focusOn, operands] using hcode
  | dictItem target before key value after =>
    obtain ⟨register, s₂, hfind, hcode⟩ := run_bind_both hfind hcode
    obtain ⟨_, s₃, hfind, hcode⟩ := run_bind_both hfind hcode
    cases hfind
    refine ⟨_, .call _ (.of_moves ((moves_pushPairs hlabels after).bind fun _ =>
      .clearFlag Reserved.pairFlag)), ?_⟩
    rw [List.map_append, List.map_cons, pushPairs_append] at hcode
    simpa [focusOn, operands] using hcode
  | append | pop =>
    obtain ⟨kind, hkind, hcontainer⟩ := find_eq_ok hfind
    obtain rfl : kind = .list := by simpa using hkind
    refine ⟨_, .call _ .nil, ?_⟩
    rw [code, Emit.method, if_neg (by simp), run_bind_of_ok hcontainer] at hcode
    simpa [focusOn, operands] using hcode
  | clear =>
    obtain ⟨kind, hkind, hcontainer⟩ := find_eq_ok hfind
    refine ⟨_, .call _ .nil, ?_⟩
    rw [code, Emit.method, if_neg (by simp), run_bind_of_ok hcontainer] at hcode
    obtain rfl | rfl : kind = .list ∨ kind = .dict := by simpa using hkind
    all_goals simpa [focusOn, operands] using hcode
  | length =>
    obtain ⟨kind, hkind, hcontainer⟩ := find_eq_ok hfind
    refine ⟨_, .call _ .nil, ?_⟩
    rw [code, Emit.length, run_bind_of_ok hcontainer] at hcode
    obtain rfl | rfl : kind = .list ∨ kind = .dict := by simpa using hkind
    all_goals simpa [focusOn, operands] using hcode
  | keyLoad =>
    obtain ⟨kind, hkind, hcontainer⟩ := find_eq_ok hfind
    obtain rfl : kind = .dict := by simpa using hkind
    refine ⟨_, .call _ (.of_moves (.op .recallElement)), ?_⟩
    rw [code, loadSubscript, run_bind_of_ok hcontainer] at hcode
    simpa [focusOn, operands, index] using hcode
  | keyStore =>
    obtain ⟨kind, hkind, hcontainer⟩ := find_eq_ok hfind
    obtain rfl : kind = .dict := by simpa using hkind
    refine ⟨_, .call _ (.of_moves ((Moves.clearFlag Reserved.createKeyFlag).bind fun _ =>
      .op .storeElement)), ?_⟩
    rw [code, storeSubscript, run_bind_of_ok hcontainer] at hcode
    simpa [focusOn, operands, index] using hcode
  | elementLoad | elementStore =>
    obtain ⟨kind, found, hkind, hcontainer, hfound, hpart⟩ := findSubscript_eq_ok hfind
    obtain rfl : found = none := by simpa using hfound
    refine ⟨_, .call _ (.op _ .nil), ?_⟩
    simp only [code, loadSubscript, storeSubscript] at hcode
    rw [run_bind_of_ok hcontainer] at hcode
    rcases hkind with rfl | rfl
    all_goals simpa [focusOn, operands, index, hpart] using hcode
  | partLoad =>
    obtain ⟨kind, found, hkind, hcontainer, hfound, hpart⟩ := findSubscript_eq_ok hfind
    obtain ⟨part, rfl⟩ := Option.isSome_iff_exists.mp hfound
    obtain ⟨moves, hmoves⟩ := exists_partMoves hlabels hpart
    refine ⟨_, .call _ (.of_moves (hmoves.rowLower.bind fun _ => hmoves.rowUpper.bind fun _ =>
      hmoves.columnLower.bind fun _ => hmoves.columnUpper.bind fun _ =>
      (Moves.call .sliceSize).bind fun _ => .op .getMatrix)), ?_⟩
    rw [code, loadSubscript, run_bind_of_ok hcontainer] at hcode
    rcases hkind with rfl | rfl
    all_goals simpa [focusOn, operands, index, hpart, loadPart, pointAtPart] using hcode
  | partCopy =>
    obtain ⟨kind, found, hkind, hcontainer, hfound, hpart⟩ := findSubscript_eq_ok hfind
    obtain ⟨part, rfl⟩ := Option.isSome_iff_exists.mp hfound
    refine ⟨_, .op _ .nil, ?_⟩
    rw [code, loadSubscript, run_bind_of_ok hcontainer] at hcode
    rcases hkind with rfl | rfl
    all_goals simpa [focusOn, operands, index, hpart, loadPart] using hcode
  | partStore =>
    obtain ⟨kind, found, hkind, hcontainer, hfound, hpart⟩ := findSubscript_eq_ok hfind
    obtain ⟨part, rfl⟩ := Option.isSome_iff_exists.mp hfound
    refine ⟨_, .call _ (.op _ .nil), ?_⟩
    rw [code, storeSubscript, run_bind_of_ok hcontainer] at hcode
    rcases hkind with rfl | rfl
    all_goals simpa [focusOn, operands, index, hpart, pointAtPart] using hcode
  | insertRow | deleteRow =>
    obtain ⟨kind, hkind, hcontainer⟩ := find_eq_ok hfind
    refine ⟨_, .call _ (.op _ .nil), ?_⟩
    rw [code, Emit.method, if_neg (by simp), run_bind_of_ok hcontainer] at hcode
    obtain rfl | rfl : kind = .list ∨ kind = .matrix := by simpa using hkind
    all_goals simpa [focusOn, operands, changeRow] using hcode
  | loopLength start target container body =>
    obtain ⟨register, s₂, hexpect, hfind⟩ := run_bind.mp hfind
    rw [code, forElements_run hexpect] at hcode
    obtain ⟨counter, s₃, hfind, hcode⟩ := run_bind_both hfind hcode
    obtain ⟨exit, s₄, hfind, hcode⟩ := run_bind_both hfind hcode
    obtain ⟨_, s₅, hfind, hcode⟩ := run_bind_both hfind hcode
    cases hfind
    have hloop : Writes labels .any [] (testedLoop start target container register counter
        exit (block labels body)) :=
      writes_testedLoop (writes_block hlabels body (Script.named_any_stmts body))
    refine ⟨_, .call _ (.of_writes hloop), ?_⟩
    simpa [focusOn, operands] using hcode
  | loopRow start target container body =>
    obtain ⟨register, s₂, hexpect, hfind⟩ := run_bind.mp hfind
    rw [code, forElements_run hexpect] at hcode
    obtain ⟨counter, s₃, hfind, hcode⟩ := run_bind_both hfind hcode
    obtain ⟨exit, s₄, hfind, hcode⟩ := run_bind_both hfind hcode
    -- the lines up to the loop label are written before the row is loaded
    iterate 8 obtain ⟨_, _, hfind, hcode⟩ := run_bind_both hfind hcode
    obtain ⟨entry, s₅, hfind, hcode⟩ := run_bind_both hfind hcode
    obtain ⟨_, s₆, hfind, hcode⟩ := run_bind_both hfind hcode
    cases hfind
    have hloop : Writes labels .any [] (rowLoop target container counter entry exit
        (block labels body)) :=
      writes_rowLoop (writes_block hlabels body (Script.named_any_stmts body))
    refine ⟨_, .call _ (.op _ (.of_writes hloop)), ?_⟩
    simpa [focusOn, operands, loadRow] using hcode

/-! ### Plain operands -/

/-- The operands that are written between the focus on the container and the lines on its
behalf. -/
def operandExprs : ContainerUse → List Expr
  | listItem _ before item _ => before ++ [item]
  | dictItem _ before key value _ => before.flatMap (fun item => [item.1, item.2]) ++ [key, value]
  | append _ _ e | keyLoad _ e | keyStore _ e | elementLoad _ e | elementStore _ e | partLoad _ e
  | partCopy _ e | partStore _ e | insertRow _ _ e | deleteRow _ _ e => [e]
  | pop _ _ | clear _ _ | length _ | loopLength _ _ _ _ | loopRow _ _ _ _ => []

/-- Appending plain items changes the indexed matrix, but not the selected container. -/
theorem selected_foldl_push {items : List α} {step : α → Move}
    (h : ∀ item ∈ items, step item = id) :
    (items.foldl (fun track item => (step item track).call .listPush) track).focus.selected =
      track.focus.selected := by
  induction items generalizing track with
  | nil => rfl
  | cons item rest ih =>
    rw [List.foldl_cons, ih fun item hitem => h item (List.mem_cons_of_mem _ hitem),
      h item List.mem_cons_self]
    rfl

theorem InFocus.of_isPlain (h : use.InFocus register track.focus)
    (hplain : ∀ e ∈ use.operandExprs, isPlain e = true) :
    use.InFocus register (use.move labels track).focus := by
  have hid : ∀ e ∈ use.operandExprs, trackExpr labels e = id := fun e he =>
    trackExpr_of_isPlain e (hplain e he)
  have hpart : ∀ e ∈ use.operandExprs, ∀ part, trackPart labels e = some part →
      part = ⟨id, id, id, id⟩ := fun e he _ => trackPart_of_isPlain (hplain e he)
  cases use with
  | listItem target before item after =>
    have hmove : (move labels (.listItem target before item after) track).focus.selected =
        track.focus.selected := by
      rw [move, hid item (by simp [operandExprs])]
      exact selected_foldl_push fun e he => hid e (by simp [operandExprs, he])
    exact hmove.trans h
  | dictItem target before key value after =>
    have hmove : (move labels (.dictItem target before key value after) track).focus.selected =
        track.focus.selected := by
      rw [move, hid key (by simp [operandExprs]), hid value (by simp [operandExprs])]
      refine selected_foldl_push fun item hitem => ?_
      have hmem : ∀ e ∈ [item.1, item.2], trackExpr labels e = id := fun e he =>
        hid e (List.mem_append_left _ (List.mem_flatMap.mpr ⟨item, hitem, he⟩))
      rw [hmem item.1 (by simp), hmem item.2 (by simp)]
      rfl
    exact hmove.trans h
  | append _ _ e | keyLoad _ e | keyStore _ e | insertRow _ _ e | deleteRow _ _ e =>
    rw [move, hid e List.mem_cons_self]
    exact h
  | elementLoad _ e | elementStore _ e =>
    rw [move, trackElement_of_isPlain (hplain e List.mem_cons_self)]
    exact h
  | partLoad _ e | partStore _ e | partCopy _ e =>
    rw [move]
    split
    · rename_i part hsome
      rw [hpart e List.mem_cons_self part hsome]
      exact h
    · exact h
  | pop | clear | length | loopLength | loopRow => exact h

end ContainerUse

/-- Wherever an operation on a container is written, it puts the container into focus before its
operands, and the container is still in focus at the lines on its behalf exactly when the operands
leave it there. Operands without calls, methods and subscripts do. Lines that follow later make no
difference. -/
theorem container_in_focus_iff {body : List Stmt} {labels : FunctionLabels}
    (hlabels : FunctionLabels.assign body = .ok labels) (use : ContainerUse)
    {spot : ContainerUse.Spot} {s s₁ s' : Emitter}
    (hfind : (use.find labels).run s = .ok (spot, s₁))
    (hcode : (use.code labels).run s = .ok ((), s')) :
    ∃ u t, (use.focusOn spot).run s₁ = .ok ((), u) ∧
      use.InFocus spot.container (.of u.listing.instrs) ∧
      (use.operands labels).run u = .ok ((), t) ∧
      ∀ final, s'.listing.instrs <+: final →
        t.listing.instrs ++ use.owned <+: final ∧
        (use.InFocus spot.container (.of (final.take t.listing.instrs.length)) ↔
          use.InFocus spot.container (use.move labels u.track).focus) ∧
        ((∀ e ∈ use.operandExprs, isPlain e = true) →
          use.InFocus spot.container (.of (final.take t.listing.instrs.length))) := by
  have hlinkable := (FunctionLabels.assigned_of_assign hlabels).own
  obtain ⟨tail, hopens, hrun⟩ := ContainerUse.code_run hlinkable hfind hcode
  obtain ⟨_, u, hfocus, hrun⟩ := Emit.run_bind.mp hrun
  obtain ⟨_, t, hoperands, htail⟩ := Emit.run_bind.mp hrun
  obtain ⟨rest, hrest⟩ := hopens t s' htail
  have hin := ContainerUse.inFocus_of_focusOn hfocus
  refine ⟨u, t, hfocus, hin, hoperands, ?_⟩
  rintro final ⟨later, rfl⟩
  rw [hrest, List.append_assoc]
  have htake : (t.listing.instrs ++ ((use.owned ++ rest) ++ later)).take t.listing.instrs.length =
      t.listing.instrs := List.take_left
  have htrack : Focus.of t.listing.instrs = (use.move labels u.track).focus :=
    congrArg Track.focus ((ContainerUse.moves_operands hlinkable use).track hoperands)
  rw [htake, htrack]
  exact ⟨by simp, Iff.rfl, hin.of_isPlain⟩

/-- Where two lists `a` and `b` are known. -/
def twoLists : Emitter where
  scopes :=
    { innermost := (Scope.bind {} "a" (.named "a") .list).bind "b" (.named "b") .list
      limit := 100 }

def appendLength : ContainerUse :=
  .append {} ⟨{}, "a"⟩ (.call {} ⟨{}, "len"⟩ [.name ⟨{}, "b"⟩])

/-- What is appended selects `b`, and then `a` is no longer in focus. -/
theorem container_in_focus_iff_appendLength :
    ∃ (spot : ContainerUse.Spot) (s₁ s' u t : Emitter),
      (appendLength.find {}).run twoLists = .ok (spot, s₁) ∧ spot.container = .named "a" ∧
      (appendLength.code {}).run twoLists = .ok ((), s') ∧
      (appendLength.focusOn spot).run s₁ = .ok ((), u) ∧
      (appendLength.operands {}).run u = .ok ((), t) ∧
      InstrAt s'.listing.instrs t.listing.instrs.length (Routine.call .listPush) ∧
      ¬ appendLength.InFocus spot.container
        (.of (s'.listing.instrs.take t.listing.instrs.length)) := by
  have hfind : (appendLength.find {}).run twoLists =
      .ok ({ container := .named "a" }, twoLists) := rfl
  obtain ⟨s', hcode⟩ : ∃ s', (appendLength.code {}).run twoLists = .ok ((), s') := ⟨_, rfl⟩
  have hlabels : FunctionLabels.assign [] = .ok {} := rfl
  obtain ⟨u, t, hfocus, -, hoperands, hlines⟩ :=
    container_in_focus_iff hlabels appendLength hfind hcode
  obtain ⟨⟨rest, howned⟩, hiff, -⟩ := hlines s'.listing.instrs (List.prefix_refl _)
  refine ⟨_, _, s', u, t, hfind, rfl, hcode, hfocus, hoperands, ?_, ?_⟩
  · rw [← howned]
    simp [InstrAt, appendLength, ContainerUse.owned]
  · rw [hiff]
    cases hfocus
    decide +kernel

end Keystroke
