import Keystroke.Proofs.AliasRecords
import Keystroke.Proofs.VisitedStates

/-!
# Assignments and the reads after them

After an assignment the name should stand for the register that was written. It does, unless an
alias of the same name is left in front of the binding or beside it: only the nearest alias is
dropped, and literals of containers drop none. These are the exact conditions, for every state that
a compilation can pass through.
-/

namespace Keystroke

open Script (Expr Ident Stmt)

/-! ### Stores -/

/-- In every state of every compilation, a store to a name leaves it as a variable of its own, bound
to the register that is stored to, exactly if `Scopes.storesOwn` says so once the nearest alias of
the name has been dropped. It does so whenever the name is then no alias any more, so wherever one
alias was all there was. The register is then that of no other variable, unless the two names agree
in the characters that the calculator keeps. -/
theorem store_owned_iff {labels : FunctionLabels} {body : List Stmt} {limit : Nat}
    {jumps : LabelSupply} {s : Emitter} {name : String} {info : VarInfo} {register : Register}
    {scopes' : Scopes} (hs : Emit.Reaches labels body limit jumps s)
    (hstore : s.scopes.storeRegister name info = .ok (register, scopes')) :
    (scopes'.aliasTarget? name = none ∧ scopes'.lookup name = some register ↔
      (s.scopes.dropAlias name).2.storesOwn name info = true) ∧
    ((s.scopes.dropAlias name).2.aliasTarget? name = none →
      (s.scopes.dropAlias name).2.storesOwn name info = true) ∧
    ((s.scopes.dropAlias name).2.storesOwn name info = true →
      (∀ forced, info.forcedName = some forced → forced = name) →
      ∀ other, other ≠ name → s.scopes.lookup other = some register →
        variableName other = variableName name) := by
  have hsound := hs.sound
  obtain ⟨halias, hlookup⟩ := Scopes.owned_storeRegister_iff hsound hstore
  refine ⟨⟨fun howned => halias.mp howned.1, fun hown => ?_⟩,
    Scopes.storesOwn_of_no_alias hsound.dropAlias, fun hown hforced other hne hother => ?_⟩
  · exact ⟨halias.mpr hown, hlookup (halias.mpr hown)⟩
  · have hsound' : scopes'.Sound fun _ => True :=
      (hsound.mono fun _ _ => trivial).storeRegister trivial hforced hstore
    rw [← (Scopes.untouched_storeRegister hne hstore).sameAt.lookup] at hother
    rcases hsound'.lookup_inj hother (hlookup (halias.mpr hown)) with heq | ⟨-, heq⟩
    · exact (hne heq).elim
    · exact heq

/-- The list `a` and its alias `b`, made in the code outside functions. -/
def listAndAlias : List Stmt :=
  [.assign {} (.name ⟨{}, "a"⟩) [] (.list {} [.int {} 1]), .assign {} (.name ⟨{}, "b"⟩) []
    (.name ⟨{}, "a"⟩)]

/-- A function that makes `b` an alias again and then stores a number to it. -/
def aliasAgain : Stmt :=
  .functionDef {} ⟨⟨{}, "f"⟩, [], "def f():", none⟩
    [.assign {} (.name ⟨{}, "b"⟩) [] (.name ⟨{}, "a"⟩), .assign {} (.name ⟨{}, "b"⟩) [] (.int {} 5)]

def aliasLabels : FunctionLabels :=
  { labels := NameMap.insert {} "f" (.letter 'A'), entry := some (.global "M") }

/-- Before the number is stored, only the alias inside the function is dropped, and the number is
stored over the list. -/
theorem store_owned_iff_aliasAgain : ∃ s scopes',
    Emit.Reaches aliasLabels (listAndAlias ++ [aliasAgain]) 100 .pools s ∧
    s.scopes.storeRegister "b" .scalar = .ok (.named "a", scopes') ∧
    s.scopes.lookup "a" = some (.named "a") ∧
    ¬ (scopes'.aliasTarget? "b" = none ∧ scopes'.lookup "b" = some (.named "a")) := by
  have hfacts : ((do
      Emit.entryCode aliasLabels listAndAlias
      let registers ← Emit.enter (.letter 'A') "def f():" []
      Emit.storeDown registers.reverse
      Emit.stmt aliasLabels (.assign {} (.name ⟨{}, "b"⟩) [] (.name ⟨{}, "a"⟩)) :
        Emit Unit).run { scopes := .ofLimit 100, jumps := .pools }).toOption.any (fun final =>
      (final.2.scopes.storeRegister "b" .scalar).toOption.any (·.1 = .named "a") ∧
        final.2.scopes.lookup "a" = some (.named "a") ∧
        (final.2.scopes.dropAlias "b").2.storesOwn "b" .scalar = false) = true := by
    decide +kernel
  -- the state between the two assignments of the function
  obtain ⟨⟨_, s⟩, hrun, hfacts⟩ := exists_ok_of_any hfacts
  obtain ⟨hstore, hlookup, hown⟩ := of_decide_eq_true hfacts
  obtain ⟨⟨register, scopes'⟩, hstore, hregister⟩ := exists_ok_of_any hstore
  obtain rfl : register = .named "a" := of_decide_eq_true hregister
  obtain ⟨_, s₁, hentry, hrun⟩ := Emit.run_bind.mp hrun
  obtain ⟨registers, s₂, henter, hrun⟩ := Emit.run_bind.mp hrun
  obtain ⟨_, s₃, hdown, hshare⟩ := Emit.run_bind.mp hrun
  have hentryNames : ∀ name ∈ Script.storedNames listAndAlias,
      name ∈ Script.storedNames (listAndAlias ++ [aliasAgain]) := by decide +kernel
  have hsharedNames : ∀ name ∈ ["b"],
      name ∈ Script.storedNames (listAndAlias ++ [aliasAgain]) := by decide +kernel
  have hreaches : Emit.Reaches aliasLabels (listAndAlias ++ [aliasAgain]) 100 .pools s := by
    refine .next (Emit.permitted_entryCode trivial (Script.named_any_stmts _) hentryNames) hentry
      (.next (.pure _) rfl (.next (.pure _) rfl (.first ?_)))
    show Emit.Visits _ (Emit.function aliasLabels ⟨⟨{}, "f"⟩, [], "def f():", none⟩ _ _) _ _
    rw [Emit.function_eq_enter rfl]
    exact .next .state rfl (.next (.enter _ _ trivial nofun) henter
      (.next
        (Emit.permitted_storeDown trivial fun _ _ =>
          Emit.Permit.allows_of_text (fun _ => trivial) _)
        hdown
        (.first (.next (Emit.permitted_stmt trivial (Script.named_any_stmt _) hsharedNames) hshare
          (.start _ _)))))
  refine ⟨s, scopes', hreaches, hstore, hlookup, fun howned => ?_⟩
  rw [(store_owned_iff hreaches hstore).1.mp howned] at hown
  cases hown

/-! ### Variables in view -/

variable {name : String} {permit : Emit.Permit} {s s' : Emitter}

/-- A step that declares nothing keeps a variable with its own name in view. -/
theorem Emitter.Step.sees (h : s.Step permit s') (hs : s.scopes.Sound permit.known)
    (hdeclares : ¬ permit.declares) (hnests : ¬ permit.nests)
    (hsees : s.scopes.Sees name (.named (variableName name))) :
    s'.scopes.Sees name (.named (variableName name)) := by
  cases h with
  | write | call | select => exact hsees
  | @store other info register scopes _ hforced hstore =>
    by_cases hother : name = other
    · subst hother
      exact hsees.storeRegister hs hforced hstore
    · exact hsees.sameAt (Scopes.untouched_storeRegister hother hstore).sameAt
  | allocate h => exact hsees.sameAt (Scopes.untouched_allocate h).sameAt
  | declare hdeclare | share hdeclare => exact (hdeclares hdeclare).elim
  | push hpush | param hpush | pop hpush => exact (hnests hpush).elim
  | control _ hscopes => exact hscopes ▸ hsees

theorem Emitter.Steps.sees (h : s.Steps permit s') (hs : s.scopes.Sound permit.known)
    (hdeclares : ¬ permit.declares) (hnests : ¬ permit.nests)
    (hsees : s.scopes.Sees name (.named (variableName name))) :
    s'.scopes.Sees name (.named (variableName name)) := by
  induction h with
  | refl => exact hsees
  | tail hsteps hstep ih => exact hstep.sees (Steps.sound hsteps hs) hdeclares hnests ih

/-- Whether an assignment to a name leaves it as what the next read finds. Literals of containers
drop no alias. -/
def Scopes.assignsInView (scopes : Scopes) (name : String) (info : VarInfo) : Bool :=
  if info.isList || info.isDict then scopes.bindsOpenly name info
  else (scopes.dropAlias name).2.storesInView name info

theorem Scopes.assignsInView_of_no_alias {known : String → Prop} {scopes : Scopes}
    {info : VarInfo} (h : scopes.Sound known) (halias : scopes.aliasTarget? name = none) :
    scopes.assignsInView name info = true := by
  unfold assignsInView storesInView bindsInView
  rw [bindsOpenly_of_no_alias h halias,
    bindsOpenly_of_no_alias h.dropAlias (aliasTarget?_dropAlias h halias)]
  simp

/-! ### Assignments -/

/-- An instruction that gives a register a new value. -/
def Instr.Assigns (instr : Instr) (register : Register) : Prop :=
  instr = .memory .clearVariable (.register register) ∨ instr = .store register ∨
    instr = .storeAlpha register

namespace Emit

variable {labels : FunctionLabels} {s s' s₁ : Emitter} {line : Line} {register : Register}

/-- What a read after an assignment finds. The name is bound in state `s₁` as `info` says, the line
writes the register, and the assignment ends in state `s'`. -/
structure Assigned (names : List String) (name : String) (info : VarInfo) (s₁ s' : Emitter)
    (line : Line) (register : Register) : Prop where
  assigns : line.instr.Assigns register
  inView : s₁.scopes.aliasTarget? name = none → s₁.scopes.assignsInView name info = true
  seen : s₁.scopes.assignsInView name info = true → s'.scopes.getRegister name = .ok register
  /-- A name that is hidden has another one, unless it cannot be told from what it is an alias of,
  or is one of the names to which the value itself stores. -/
  hidden : name ∉ names → s'.scopes.getRegister name = .ok register →
    s₁.scopes.assignsInView name info = true ∨ info.isContainer = true ∧ s'.scopes.Collides name

/-- What a literal of a container records about its target. -/
def literalInfo? : Expr → Option VarInfo
  | .list _ _ => some .list
  | .dict _ _ => some .dict
  | _ => none

/-- The code of the items of a literal comes after the line that makes its target a container. It
stores to no names but those in the items. -/
structure LiteralRun (id : Ident) (info : VarInfo) (names : List String) (s s' s₁ : Emitter)
    (register : Register) : Prop where
  isLiteral : info = .list ∨ info = .dict
  bound : s.scopes.bind id.name info = .ok (register, s₁.scopes)
  cleared : ∃ comment,
    s₁.listing = s.listing.emit (.memory .clearVariable (.register register)) (some comment)
  sound : s₁.scopes.Sound fun _ => True
  items : s₁.Steps (.operand (fun _ => True) (· ∈ names) fun _ _ => trivial) s'

variable {id : Ident} {value : Expr} {info : VarInfo}

theorem run_literal (hs : s.scopes.Sound fun _ => True) (hvalue : literalInfo? value = some info)
    (hrun : (assign labels (.name id) [] value).run s = .ok ((), s')) :
    ∃ s₁ register, LiteralRun id info value.storedNames s s' s₁ register := by
  obtain ⟨comment, items, hinfo, hrun, hitems⟩ :
      ∃ (comment : String) (items : Register → Emit Unit), (info = .list ∨ info = .dict) ∧ (do
        let register ← Emit.bind id.name info id.start
        commented (.memory .clearVariable (.register register)) comment
        items register : Emit Unit).run s = .ok ((), s') ∧
      ∀ register, register.IsVariable (fun _ => True) →
        Permitted (.operand (fun _ => True) (· ∈ value.storedNames) fun _ _ => trivial)
          (items register) := by
    cases value with
    | list _ elements =>
      cases hvalue
      have hrun : (listLiteral id (elements.map (expr labels))).run s = .ok ((), s') := hrun
      exact ⟨_, _, Or.inl rfl, hrun, fun _ hregister => .ite (.pure _)
        (.bind (.selectContainer hregister) fun _ => .of_tame (.bind (.clearFlag _) fun _ =>
          .pushItems (Discipline.tame_listItems (Script.forall_named_any elements) fun _ h => h)))⟩
    | dict _ items =>
      cases hvalue
      have hrun : (dictLiteral id (items.map fun item =>
          (expr labels item.1, expr labels item.2))).run s = .ok ((), s') := hrun
      exact ⟨_, _, Or.inr rfl, hrun, fun _ hregister => .ite (.pure _)
        (.bind (.selectContainer hregister) fun _ => .of_tame (.bind (.setFlag _) fun _ =>
          .bind (.pushPairs (Discipline.tame_dictItems (fun _ _ => Script.named_any _)
            (fun _ _ => Script.named_any _) fun _ h => h)) fun _ => .clearFlag _))⟩
    | _ => cases hvalue
  -- both kinds of literals bind the name, clear the variable and push the items
  obtain ⟨register, s₁, hdeclare, hrest⟩ := run_bind.mp hrun
  have hvariable : register.IsVariable fun _ => True := isVariable_of_declare trivial hinfo hdeclare
  obtain ⟨scopes, hbind, rfl⟩ := run_withScopes.mp hdeclare
  obtain ⟨_, s₂, hclear, hlast⟩ := run_bind.mp hrest
  obtain ⟨rfl, hlisting⟩ : scopes = s₂.scopes ∧ s₂.listing =
      s.listing.emit (.memory .clearVariable (.register register)) (some comment) := by
    cases hclear
    exact ⟨rfl, rfl⟩
  have hsound : s₂.scopes.Sound fun _ => True := hs.declare trivial hinfo hbind
  exact ⟨s₂, register, hinfo, hbind, ⟨comment, hlisting⟩, hsound,
    (hitems register hvariable).steps hsound hlast⟩

/-- What the items of a literal store to is all that can change what the target stands for. -/
theorem assigned_of_literal
    (hs : s.scopes.Sound fun _ => True) (hvalue : literalInfo? value = some info)
    (hrun : (assign labels (.name id) [] value).run s = .ok ((), s')) :
    ∃ line register, s'.listing.lines[s.listing.lines.size]? = some line ∧
      Assigned value.storedNames id.name info s s' line register := by
  obtain ⟨s₁, register, hinfo, hbind, ⟨comment, hlisting⟩, hs₁, hsteps⟩ :=
    run_literal hs hvalue hrun
  have hview : s.scopes.assignsInView id.name info = s.scopes.bindsOpenly id.name info := by
    rcases hinfo with rfl | rfl <;> rfl
  have hbound := Scopes.lookup_bind hbind
  have hcontainer : info.isContainer = true := by
    rcases hinfo with rfl | rfl <;> rfl
  -- the target has been bound to its own name when the items are written
  obtain ⟨rfl, hscopes⟩ : register = .named (variableName id.name) ∧ s₁.scopes =
      s.scopes.modifyHome id.name (·.bind id.name (.named (variableName id.name)) info) := by
    rw [Scopes.bind, Scopes.namedRegister?_of_declared hinfo] at hbind
    injection hbind with hbind
    injection hbind with hregister hscopes
    exact ⟨hregister.symm, hscopes.symm⟩
  have halias : s₁.scopes.aliasTarget? id.name = none ↔
      s.scopes.bindsOpenly id.name info = true := by
    rw [hscopes]
    exact Scopes.aliasTarget?_modifyHome_bind hs _
  obtain ⟨rest, hlines⟩ := hsteps.grows
  refine ⟨⟨.memory .clearVariable (.register (.named (variableName id.name))),
    some comment, .plain⟩,
    .named (variableName id.name), ?_, Or.inl rfl, Scopes.assignsInView_of_no_alias hs,
    fun hopen => ?_, fun hnames hfound => ?_⟩
  · rw [← Array.getElem?_toList, ← hlines, hlisting]
    simp [Listing.emit, Listing.append]
  · rw [hview] at hopen
    exact (hsteps.sees hs₁ not_false not_false ⟨halias.mpr hopen, hbound⟩).getRegister
  -- the items do not store to the target, which is still what it was bound to
  · have hsame := (hsteps.untouched not_false hnames).sameAt
    rw [hview]
    by_cases hopen : s.scopes.bindsOpenly id.name info = true
    · exact Or.inl hopen
    · refine Or.inr ⟨hcontainer, (hsteps.sound hs₁).collides (fun hnone => ?_) ?_ hfound⟩
      · rw [hsame.aliasTarget?] at hnone
        exact hopen (halias.mp hnone)
      · rw [hsame.lookup]
        exact hbound

/-- Whether an assignment of a value shares a list or dictionary, and writes no register. -/
def isShared (scopes : Scopes) (value : Expr) : Bool :=
  match value with
  | .name source =>
    scopes.container? source.name == some .list || scopes.container? source.name == some .dict
  | _ => false

theorem run_assignName {target : Expr} {others : List Expr} {source : Ident}
    (h : isShared s.scopes (.name source) = false) :
    (assignName labels target others source).run s =
      (assignComputed labels target others (.name source)).run s := by
  rw [isShared] at h
  rw [assignName, run_get_bind]
  split
  · rename_i hlist
    simp [hlist] at h
  · rename_i hdict
    simp [hdict] at h
  · rfl

/-- Whether a value is computed before its targets are bound. -/
def isComputed (scopes : Scopes) (value : Expr) : Bool :=
  !isShared scopes value &&
    match value with
    | .list _ _ | .dict _ _ => false
    | _ => true

variable {target : Expr} {others before rest : List Expr}

theorem run_storeTargets_append {alpha : Bool} :
    (storeTargets labels info alpha (before ++ rest)).run s = .ok ((), s') →
      ∃ t, (storeTargets labels info alpha before).run s = .ok ((), t) ∧
        (storeTargets labels info alpha rest).run t = .ok ((), s') := by
  induction before generalizing s with
  | nil => exact fun h => ⟨s, rfl, h⟩
  | cons target before ih =>
    intro h
    obtain ⟨_, s₁, hfirst, h⟩ := run_bind.mp h
    obtain ⟨t, hbefore, hrest⟩ := ih h
    exact ⟨t, run_bind.mpr ⟨_, s₁, hfirst, hbefore⟩, hrest⟩

theorem run_assign_of_computed (h : isComputed s.scopes value = true) :
    (assign labels target others value).run s =
      (assignComputed labels target others value).run s := by
  cases value with
  | list | dict => cases h
  | name source => exact run_assignName (by simpa [isComputed] using h)
  | _ => rfl

/-- A computed value is stored to each target in turn, whatever is stored before and after. -/
theorem run_assign_computed (hcomputed : isComputed s.scopes value = true)
    (hinfo : info = if producesMatrix labels s.scopes value then .matrix else .scalar)
    (htargets : target :: others = before ++ .name id :: rest)
    (hrun : (assign labels target others value).run s = .ok ((), s')) :
    ∃ s₁ t register scopes, (expr labels value).run s = .ok ((), s₁) ∧
      (storeTargets labels info s₁.listing.lastIsString before).run s₁ = .ok ((), t) ∧
      t.scopes.storeRegister id.name info = .ok (register, scopes) ∧
      (storeTargets labels info s₁.listing.lastIsString rest).run
        { t with
          scopes
          listing := t.listing.emitStore register (some id.name) s₁.listing.lastIsString } =
        .ok ((), s') := by
  have hvalue : assignComputed labels target others value =
      assignValue labels (target :: others) value := by
    unfold assignComputed
    split
    · -- a tuple alone has no name among its targets
      rcases before with _ | ⟨first, before⟩
      · cases htargets
      · simp at htargets
    · rfl
  rw [run_assign_of_computed hcomputed, hvalue, assignValue, run_get_bind, htargets] at hrun
  obtain ⟨_, s₁, hexpr, hrun⟩ := run_bind.mp hrun
  obtain ⟨alpha, s₂, halpha, hrun⟩ := run_bind.mp hrun
  cases halpha
  rw [← hinfo] at hrun
  obtain ⟨t, hbefore, hrun⟩ := run_storeTargets_append hrun
  obtain ⟨_, t', htarget, hrest⟩ := run_bind.mp hrun
  obtain ⟨register, t₁, hregister, hstore⟩ := run_bind.mp htarget
  obtain ⟨scopes, hscopes, rfl⟩ := run_withScopes.mp hregister
  cases hstore
  exact ⟨s₁, t, register, scopes, hexpr, hbefore, hscopes, hrest⟩

/-- A value is computed before its target is bound, and the store is the last line. -/
theorem assigned_of_computed (names : List String) (hs : s.scopes.Sound fun _ => True)
    (hcomputed : isComputed s.scopes value = true)
    (hinfo : info = if producesMatrix labels s.scopes value then .matrix else .scalar)
    (hrun : (assign labels (.name id) [] value).run s = .ok ((), s')) :
    ∃ s₁ line register, (expr labels value).run s = .ok ((), s₁) ∧
      s'.listing.lines.back? = some line ∧ Assigned names id.name info s₁ s' line register := by
  obtain ⟨s₁, t, register, scopes, hvalue, hbefore, hscopes, hrest⟩ :=
    run_assign_computed hcomputed hinfo (List.nil_append [Expr.name id]).symm hrun
  cases hbefore
  cases hrest
  -- the target is bound in the scopes that the value leaves
  have hpermitted : Permitted (.full fun _ => True) (expr labels value) :=
    permitted_expr (Script.named_any value) fun _ _ => trivial
  have hs₁ : s₁.scopes.Sound fun _ => True := hpermitted.sound hs hvalue
  have hforced : ∀ forced, info.forcedName = some forced → forced = id.name := by
    intro forced hforced
    rw [hinfo] at hforced
    split at hforced <;> cases hforced
  have hview : s₁.scopes.assignsInView id.name info =
      (s₁.scopes.dropAlias id.name).2.storesInView id.name info := by
    rw [hinfo]
    split <;> rfl
  refine ⟨s₁, _, register, hvalue, Array.back?_push .., ?_, Scopes.assignsInView_of_no_alias hs₁,
    fun hseen => ?_, fun _ hfound => ?_⟩
  · cases s₁.listing.lastIsString with
    | true => exact Or.inr (Or.inr rfl)
    | false => exact Or.inr (Or.inl rfl)
  · exact Scopes.getRegister_of_storesInView hs₁ hscopes (hview ▸ hseen)
  · rw [hview]
    refine (Scopes.storesInView_of_getRegister hs₁ hforced hscopes hfound).imp_right ?_
    rintro ⟨hmatrix, hcollides⟩
    exact ⟨by simp [VarInfo.isContainer, hmatrix], hcollides⟩

/-- What an assignment records about its target. -/
def assignedInfo (labels : FunctionLabels) (scopes : Scopes) (value : Expr) : VarInfo :=
  match value with
  | .list _ _ => .list
  | .dict _ _ => .dict
  | _ => if producesMatrix labels scopes value then .matrix else .scalar

/-- An assignment in state `s` binds its target in state `s₁`: a literal of a container at once, any
other value after it has been computed. -/
def BindsIn (labels : FunctionLabels) (value : Expr) (s s₁ : Emitter) : Prop :=
  match value with
  | .list _ _ | .dict _ _ => s₁ = s
  | _ => (expr labels value).run s = .ok ((), s₁)

/-- The line of an assignment that writes its target, of those that it adds between two states: the
first line of a literal of a container, and the last one of other code. -/
def assigningLine? (value : Expr) (s s' : Emitter) : Option Line :=
  match value with
  | .list _ _ | .dict _ _ => s'.listing.lines[s.listing.lines.size]?
  | _ => s'.listing.lines.back?

end Emit

/-- In every state of every compilation, after an assignment to a name of a value that it does not
share, the next read of the name finds the register that the assignment has written exactly if
`Scopes.assignsInView` says so of the scopes in which the name was bound. It does whenever the name
is no alias there. -/
theorem assignment_seen {labels : FunctionLabels} {body : List Stmt} {limit : Nat}
    {jumps : LabelSupply} {s s' : Emitter} {start : Position} {id : Ident} {value : Expr}
    (hs : Emit.Reaches labels body limit jumps s) (hshared : Emit.isShared s.scopes value = false)
    (hrun : (Emit.stmt labels (.assign start (.name id) [] value)).run s = .ok ((), s')) :
    ∃ s₁ line register, Emit.BindsIn labels value s s₁ ∧
      Emit.assigningLine? value s s' = some line ∧
      Emit.Assigned value.storedNames id.name (Emit.assignedInfo labels s.scopes value) s₁ s'
        line register := by
  have hsound : s.scopes.Sound fun _ => True := hs.sound.mono fun _ _ => trivial
  rw [Emit.stmt] at hrun
  cases value with
  | list | dict =>
    obtain ⟨line, register, hline, hassigned⟩ := Emit.assigned_of_literal hsound rfl hrun
    exact ⟨s, line, register, rfl, hline, hassigned⟩
  | name source =>
    exact Emit.assigned_of_computed _ hsound (by simpa [Emit.isComputed] using hshared) rfl hrun
  | _ => exact Emit.assigned_of_computed _ hsound rfl rfl hrun

/-- An assignment of a dictionary to `b`. -/
def dictToAlias : Stmt :=
  .assign {} (.name ⟨{}, "b"⟩) [] (.dict {} [(.int {} 1, .int {} 2)])

/-- A dictionary that is assigned to an alias of a list is never read: the name still stands for the
list. -/
theorem assignment_seen_dictToAlias : ∃ s s' line register,
    Emit.Reaches aliasLabels (listAndAlias ++ [dictToAlias]) 100 .pools s ∧
    (Emit.stmt aliasLabels dictToAlias).run s = .ok ((), s') ∧
    s'.listing.lines[s.listing.lines.size]? = some line ∧ line.instr.Assigns register ∧
    s'.scopes.getRegister "b" = .ok (.named "a") ∧ s'.scopes.getRegister "b" ≠ .ok register := by
  have hfacts : ((do
      Emit.commented (.lbl (.global "M")) Emit.entryComment
      Emit.block aliasLabels listAndAlias : Emit Unit).run
        { scopes := .ofLimit 100, jumps := .pools }).toOption.any (fun before =>
      before.2.scopes.assignsInView "b" .dict = false ∧
        ((Emit.stmt aliasLabels dictToAlias).run before.2).toOption.any (fun after =>
          (after.2.scopes.getRegister "b").toOption.any (· = .named "a") ∧
            (after.2.scopes.resolve "b").toOption.any (· = "a"))) = true := by
    decide +kernel
  -- the state in front of the last assignment
  obtain ⟨⟨_, s⟩, hrun, hfacts⟩ := exists_ok_of_any hfacts
  obtain ⟨hview, hfacts⟩ := of_decide_eq_true hfacts
  obtain ⟨⟨_, s'⟩, hassign, hfacts⟩ := exists_ok_of_any hfacts
  obtain ⟨hregister, hresolve⟩ := of_decide_eq_true hfacts
  obtain ⟨found, hregister, hfound⟩ := exists_ok_of_any hregister
  obtain ⟨resolved, hresolve, hresolved⟩ := exists_ok_of_any hresolve
  obtain rfl : found = .named "a" := of_decide_eq_true hfound
  obtain rfl : resolved = "a" := of_decide_eq_true hresolved
  have hreaches : Emit.Reaches aliasLabels (listAndAlias ++ [dictToAlias]) 100 .pools s :=
    Emit.reaches_of_block [dictToAlias] rfl rfl (by decide +kernel) hrun
  obtain ⟨bound, line, register, hbound, hline, hassigned⟩ := assignment_seen hreaches rfl hassign
  rw [show bound = s from hbound] at hassigned
  refine ⟨s, s', line, register, hreaches, hassign, hline, hassigned.assigns, hregister,
    fun hread => ?_⟩
  rcases hassigned.hidden (by decide +kernel) hread with hseen | ⟨-, other, -, hother, hcollides⟩
  · exact absurd hseen (by simp [Emit.assignedInfo, hview])
  · rw [hresolve] at hother
    cases hother
    exact absurd hcollides (by decide +kernel)

end Keystroke
