import Keystroke.Proofs.AliasChains
import Keystroke.Proofs.SeenAssignments
import Keystroke.Proofs.TupleAssignment

/-!
# The kind of container that a name is taken for

An assignment records what its target holds. Records of a list or a dictionary are never taken back,
and lists are looked up before dictionaries, dictionaries before matrices. So what a name is taken
for after an assignment also depends on what it held before.
-/

namespace Keystroke

open Script (Expr Ident Stmt)
open NameMap Scope

/-! ### One scope -/

namespace Scope

variable {known : String → Prop} {scope : Scope} {name : String} {info : VarInfo}

/-- The kind that a scope has a name down as once it has bound the name as `info` says. -/
def kindBeside? (scope : Scope) (name : String) (info : VarInfo) : Option Container :=
  if info.isList || scope.lists.contains name then some .list
  else if info.isDict || scope.dicts.contains name then some .dict
  else if info.isMatrix || scope.matrices.contains name then some .matrix
  else none

theorem containerRecord?_bind (scope : Scope) (name : String) (register : Register)
    (info : VarInfo) :
    (scope.bind name register info).containerRecord? name = some (scope.kindBeside? name info) := by
  have hlists : (scope.bind name register info).lists.contains name =
      (info.isList || scope.lists.contains name) := by
    cases hlist : info.isList <;> simp [bind, stamp, contains, hlist]
  have hdicts : (scope.bind name register info).dicts.contains name =
      (info.isDict || scope.dicts.contains name) := by
    cases hdict : info.isDict <;> simp [bind, stamp, contains, hdict]
  have hmatrices : (scope.bind name register info).matrices.contains name =
      (info.isMatrix || scope.matrices.contains name) := by
    cases hmatrix : info.isMatrix <;> simp [bind, stamp, contains, hmatrix]
  rw [containerRecord?, kindBeside?, hlists, hdicts, hmatrices, binds_bind]
  split
  · rfl
  · split
    · rfl
    · split <;> rfl

theorem Sound.isPlain_of_unbound (h : scope.Sound known) (hbinds : scope.binds name = false)
    (halias : scope.isAlias name = false) : scope.IsPlain name := by
  have hrecord : scope.aliasRecord? name = none := by
    rcases h.aliasAnswer?_of_unbound hbinds with ⟨htrue, -⟩ | ⟨-, hanswer⟩
    · rw [halias] at htrue
      cases htrue
    · unfold aliasAnswer? at hanswer
      split at hanswer
      · cases hanswer
      · assumption
  obtain ⟨hlists, hdicts⟩ := Option.or_eq_none_iff.mp hrecord
  refine ⟨hlists, hdicts, ?_⟩
  cases hmatrices : scope.matrices.get? name with
  | none => rfl
  | some u => exact (h.not_marks hbinds (Or.inr (Or.inr hmatrices))).elim

theorem IsPlain.kindBeside?_scalar (h : scope.IsPlain name) :
    scope.kindBeside? name .scalar = none := by
  simp [kindBeside?, VarInfo.scalar, contains, h.lists, h.dicts, h.matrices]

end Scope

/-! ### Bindings -/

namespace Scopes

variable {known : String → Prop} {scopes scopes' : Scopes} {name other target : String}
  {register : Register} {info : VarInfo}

/-- What names are taken for depends on the records alone. -/
theorem container?_congr (h : ∀ name, SameAt name scopes scopes') (name : String) :
    scopes'.container? name = scopes.container? name := by
  rw [container?, container?, resolve_congr fun other => (h other).aliasTarget?]
  cases scopes.resolve name with
  | error e => rfl
  | ok last => exact (h last).ownKind?

/-- The scopes in front of a name that is bound openly have nothing on record about it. -/
theorem findSome?_front (h : scopes.Sound known) (hopen : scopes.bindsOpenly name info = true) :
    (scopes.front name).findSome? (·.containerRecord? name) = none := by
  obtain ⟨after, -, hunbound, -⟩ := scopes.exists_split name
  refine List.findSome?_eq_none_iff.mpr fun scope hscope => ?_
  have halias : scope.isAlias name = false := by
    rw [bindsOpenly, Bool.and_eq_true, List.all_eq_true] at hopen
    simpa using hopen.1 scope hscope
  have hplain := (sound_front h scope hscope).isPlain_of_unbound (hunbound scope hscope) halias
  simp [hplain.containerRecord?, hunbound scope hscope]

/-- A name that has been bound openly has the kind that its seat has it down as. -/
theorem container?_modifyHome_bind (h : scopes.Sound known) (register : Register)
    (hopen : scopes.bindsOpenly name info = true) :
    (scopes.modifyHome name (·.bind name register info)).container? name =
      (scopes.seat name).kindBeside? name info := by
  rw [container?_of_no_alias ((aliasTarget?_modifyHome_bind h register).mpr hopen)]
  obtain ⟨after, -, -, hmodify⟩ := scopes.exists_split name
  rw [hmodify, List.findSome?_append, findSome?_front h hopen, Option.none_or, List.findSome?_cons,
    containerRecord?_bind]
  rfl

theorem container?_bind_hidden (h : scopes.Sound known)
    (hbind : scopes.bind name info = .ok (register, scopes'))
    (hview : scopes.bindsInView name info = false) :
    scopes'.container? name = scopes.container? name := by
  obtain ⟨hresolve, hsame⟩ := resolve_bind_hidden h hbind hview
  rw [container?, container?, hresolve]
  cases hresolved : scopes.resolve name with
  | error e => rfl
  | ok last => exact (hsame last hresolved).ownKind?

/-- The kind that a name is taken for once it has been bound to a named variable. -/
def kindBound? (scopes : Scopes) (name : String) (info : VarInfo) : Option Container :=
  if scopes.bindsOpenly name info then (scopes.seat name).kindBeside? name info
  else scopes.container? name

/-- A container is bound to a named variable. -/
theorem container?_bind (h : scopes.Sound known) (hcontainer : info.isContainer = true)
    (hbind : scopes.bind name info = .ok (register, scopes')) :
    scopes'.container? name = scopes.kindBound? name info := by
  have hnamed : (namedRegister? name info).isNone = false := by
    by_contra hnone
    rw [isContainer_of_namedRegister? (by simpa using hnone)] at hcontainer
    cases hcontainer
  unfold kindBound?
  split
  · rename_i hopen
    rcases bind_inv hbind with ⟨-, rfl⟩ | ⟨hnone, -⟩
    · exact container?_modifyHome_bind h register hopen
    · simp [hnone] at hnamed
  · rename_i hopen
    refine container?_bind_hidden h hbind ?_
    rw [bindsInView, hnamed, Bool.false_or]
    simpa using hopen

/-! ### Scalars -/

theorem isPlain_of_lookup (h : scopes.Sound known) (halias : scopes.aliasTarget? name = none)
    (hlookup : scopes.lookup name = none) : ∀ scope ∈ scopes.toList, scope.IsPlain name := by
  have hunbound : ∀ scope ∈ scopes.toList, scope.binds name = false := fun scope hscope =>
    binds_eq_false.mpr (List.findSome?_eq_none_iff.mp hlookup scope hscope)
  rw [aliasTarget?_eq, ← List.append_nil scopes.toList, join_findSome?_append h.each hunbound,
    List.all_eq_true] at halias
  exact fun scope hscope => (h.each scope hscope).isPlain_of_unbound (hunbound scope hscope)
    (by simpa using halias.1 scope hscope)

theorem container?_of_isUnbound (h : scopes.Sound known) (hunbound : scopes.isUnbound name = true) :
    scopes.container? name = none := by
  unfold isUnbound getRegister at hunbound
  cases hresolve : scopes.resolve name with
  | error e =>
    rw [container?, hresolve]
  | ok last =>
    rw [container?_of_resolve hresolve, ownKind?]
    cases hlookup : scopes.lookup last with
    | some register => simp [hresolve, Bind.bind, Except.bind, hlookup] at hunbound
    | none =>
      have hplain := isPlain_of_lookup h (resolve_no_alias hresolve) hlookup
      have hnone : scopes.toList.findSome? (·.containerRecord? last) = none := by
        refine List.findSome?_eq_none_iff.mpr fun scope hscope => ?_
        have hbinds : scope.binds last = false :=
          binds_eq_false.mpr (List.findSome?_eq_none_iff.mp hlookup scope hscope)
        simp [(hplain scope hscope).containerRecord?, hbinds]
      rw [hnone]
      rfl

theorem isUnbound_of_binds {scope : Scope} (halias : scopes.aliasTarget? name = none)
    (hscope : scope ∈ scopes.toList) (hbinds : scope.binds name = true) :
    scopes.isUnbound name = false := by
  obtain ⟨found, hfound⟩ := binds_eq_true.mp hbinds
  cases hlookup : scopes.lookup name with
  | none =>
    rw [List.findSome?_eq_none_iff.mp hlookup scope hscope] at hfound
    cases hfound
  | some register =>
    have hregister := (getRegister_of_no_alias halias).mpr hlookup
    simp [isUnbound, hregister]

theorem isPlain_innermost (h : scopes.Sound known) (hunbound : scopes.isUnbound name = true)
    (halias : scopes.innermost.isAlias name = false) : scopes.innermost.IsPlain name := by
  have hinnermost : scopes.innermost ∈ scopes.toList := List.mem_cons_self
  refine (h.each _ hinnermost).isPlain_of_unbound ?_ halias
  by_contra hbinds
  rw [Bool.not_eq_false] at hbinds
  rw [isUnbound_of_binds (aliasTarget?_of_binds hbinds halias) hinnermost hbinds] at hunbound
  cases hunbound

/-- A name without a register that a scalar is bound to openly is not known where it is bound. -/
theorem isPlain_seat (h : scopes.Sound known) (hunbound : scopes.isUnbound name = true)
    (halias : scopes.innermost.isAlias name = false)
    (hopen : scopes.bindsOpenly name .scalar = true) : (scopes.seat name).IsPlain name := by
  cases hhome : scopes.home? name with
  | none =>
    rw [seat, hhome]
    exact isPlain_innermost h hunbound halias
  | some home =>
    have hbinds : (scopes.seat name).binds name = true := by
      rw [seat, hhome]
      exact List.find?_some (p := fun scope : Scope => scope.binds name) hhome
    obtain ⟨after, hlist, hfront, -⟩ := scopes.exists_split name
    rw [bindsOpenly, Bool.and_eq_true, Option.isNone_iff_eq_none] at hopen
    have hnone : scopes.aliasTarget? name = none := by
      rw [aliasTarget?_eq, hlist, join_findSome?_append (sound_front h) hfront]
      refine ⟨hopen.1, ?_⟩
      rw [List.findSome?_cons, aliasAnswer?_of_binds hbinds]
      exact hopen.2
    rw [isUnbound_of_binds hnone (by rw [hlist]; simp) hbinds] at hunbound
    cases hunbound

/-- A scalar that is stored leaves the kind of its name as it is, once the nearest alias of the name
has been dropped. -/
theorem container?_storeRegister_scalar (h : scopes.Sound known)
    (hstore : scopes.storeRegister name .scalar = .ok (register, scopes')) :
    scopes'.container? name = (scopes.dropAlias name).2.container? name := by
  have hdrop : (scopes.dropAlias name).2.Sound known := h.dropAlias
  have halias := isAlias_innermost_dropAlias scopes name
  rcases storeRegister_eq_ok hstore with ⟨hunbound, hbind⟩ | ⟨-, -, rfl⟩
  · have hunbound : (scopes.dropAlias name).2.isUnbound name = true := hunbound
    -- a name without a register is no container, and does not become one
    rw [container?_of_isUnbound hdrop hunbound]
    cases hview : (scopes.dropAlias name).2.bindsInView name .scalar with
    | false => rw [container?_bind_hidden hdrop hbind hview, container?_of_isUnbound hdrop hunbound]
    | true =>
      have hnone := (bound_of_bind hdrop halias hbind).2.mpr hview
      rcases bind_inv hbind with ⟨hnamed, rfl⟩ | ⟨-, -, -, rfl⟩
      · have hopen : (scopes.dropAlias name).2.bindsOpenly name .scalar = true := by
          simpa [bindsInView, hnamed] using hview
        rw [container?_modifyHome_bind hdrop register hopen]
        exact (isPlain_seat hdrop hunbound halias hopen).kindBeside?_scalar
      · rw [container?_of_no_alias hnone, toList, List.findSome?_cons,
          containerRecord?_bind]
        exact (isPlain_innermost hdrop hunbound halias).kindBeside?_scalar
  · exact container?_congr (fun _ => sameAt_restamp) name

/-! ### Aliases -/

theorem aliasTarget?_of_list {record : Option String}
    (h : scopes.innermost.lists.get? name = some record) : scopes.aliasTarget? name = record :=
  aliasTarget?_of_answer (by simp [aliasAnswer?, aliasRecord?, h])

theorem ownKind?_of_list {record : Option String}
    (h : scopes.innermost.lists.get? name = some record) : scopes.ownKind? name = some .list := by
  simp [ownKind?, toList, containerRecord?, contains, h]

theorem container?_bindAlias_hidden (h : scopes.bindAlias name target = .ok scopes')
    (hhidden : scopes.hidesAlias name target = true) :
    scopes'.container? name = scopes.container? name := by
  obtain ⟨hdict, hlist⟩ := Bool.and_eq_true_iff.mp hhidden
  obtain ⟨record, hrecord⟩ := Option.isSome_iff_exists.mp hlist
  have hrecord' : scopes'.innermost.lists.get? name = some record := by
    rw [bindAlias, beq_iff_eq.mp hdict] at h
    cases h
    exact hrecord
  have halias : ∀ other, scopes'.aliasTarget? other = scopes.aliasTarget? other := by
    intro other
    by_cases hother : other = name
    · rw [hother, aliasTarget?_of_list hrecord, aliasTarget?_of_list hrecord']
    · exact (untouched_bindAlias hother h).sameAt.aliasTarget?
  rw [container?, container?, resolve_congr halias]
  cases scopes.resolve name with
  | error e => rfl
  | ok last =>
    show scopes'.ownKind? last = scopes.ownKind? last
    by_cases hlast : last = name
    · rw [hlast, ownKind?_of_list hrecord, ownKind?_of_list hrecord']
    · exact (untouched_bindAlias hlast h).sameAt.ownKind?

/-! ### Assignments -/

/-- What an assignment records about a name. -/
inductive Entry where
  | list
  | dict
  | matrix
  | scalar
  | shared (source : String)

namespace Entry

/-- The scopes once an entry has been recorded for a name. Literals of containers drop no alias of
the name. -/
def record (scopes : Scopes) (name : String) : Entry → Except ScopeError Scopes
  | list => (·.2) <$> scopes.bind name .list
  | dict => (·.2) <$> scopes.bind name .dict
  | matrix => (·.2) <$> scopes.storeRegister name .matrix
  | scalar => (·.2) <$> scopes.storeRegister name .scalar
  | shared source => scopes.bindAlias name source

/-- The kind that a name should be taken for once an entry has been recorded for it. -/
def Suggests (scopes : Scopes) (kind : Option Container) : Entry → Prop
  | list => kind = some .list
  | dict => kind = some .dict
  | matrix => kind = some .matrix
  | scalar => kind ≠ some .list ∧ kind ≠ some .dict
  | shared source => kind = scopes.container? source

/-- The kind that a name is taken for once an entry has been recorded for it. -/
def Leaves (scopes : Scopes) (name : String) (kind : Option Container) : Entry → Prop
  | list => kind = scopes.kindBound? name .list
  | dict => kind = scopes.kindBound? name .dict
  | matrix => kind = (scopes.dropAlias name).2.kindBound? name .matrix
  | scalar => kind = (scopes.dropAlias name).2.container? name
  | shared source =>
    if scopes.hidesAlias name source then kind = scopes.container? name
    else (scopes.Closes name source → kind = none) ∧
      (¬ scopes.Closes name source → kind = scopes.container? source)

end Entry

theorem leaves_of_record {entry : Entry} (h : scopes.Sound known)
    (hrecord : entry.record scopes name = .ok scopes') :
    entry.Leaves scopes name (scopes'.container? name) := by
  have hsnd : ∀ {result : Except ScopeError (Register × Scopes)}, (·.2) <$> result = .ok scopes' →
      ∃ register, result = .ok (register, scopes') := by
    intro result hresult
    cases result with
    | error e => cases hresult
    | ok pair =>
      cases hresult
      exact ⟨pair.1, rfl⟩
  cases entry with
  | list | dict =>
    obtain ⟨register, hbind⟩ := hsnd hrecord
    exact container?_bind h rfl hbind
  | matrix =>
    obtain ⟨register, hstore⟩ := hsnd hrecord
    exact container?_bind h.dropAlias rfl hstore
  | scalar =>
    obtain ⟨register, hstore⟩ := hsnd hrecord
    exact container?_storeRegister_scalar h hstore
  | shared source =>
    cases hhidden : scopes.hidesAlias name source with
    | true =>
      rw [Entry.Leaves, if_pos hhidden]
      exact container?_bindAlias_hidden hrecord hhidden
    | false =>
      rw [Entry.Leaves, if_neg (by simp [hhidden])]
      refine ⟨fun hcloses => ?_, fun hcloses => ?_⟩
      · exact container?_of_cycle (resolve_bindAlias_of_closes hrecord hhidden hcloses)
      · obtain ⟨last, hresolve, hresolve', hsame⟩ := resolve_bindAlias hrecord hhidden hcloses
        rw [container?_of_resolve hresolve, container?_of_resolve hresolve', hsame.ownKind?]

/-- No scope has a name as a list or a dictionary. -/
def IsUnlisted (scopes : Scopes) (name : String) : Prop :=
  ∀ scope ∈ scopes.toList, scope.lists.get? name = none ∧ scope.dicts.get? name = none

namespace IsUnlisted

theorem aliasTarget? (h : scopes.IsUnlisted name) : scopes.aliasTarget? name = none := by
  rw [aliasTarget?_eq]
  cases hfind : scopes.toList.findSome? (·.aliasAnswer? name) with
  | none => rfl
  | some answer =>
    obtain ⟨scope, hscope, hanswer⟩ := List.exists_of_findSome?_eq_some hfind
    have hjoin : (scope.aliasAnswer? name).join = (scope.aliasRecord? name).join :=
      join_aliasAnswer?
    rw [hanswer, aliasRecord?, (h scope hscope).1, (h scope hscope).2] at hjoin
    exact hjoin

theorem dropAlias (h : scopes.IsUnlisted name) : (scopes.dropAlias name).2 = scopes := by
  rcases dropAlias_cases scopes name with hsame | ⟨before, scope, after, hlist, -, halias, -⟩
  · rw [hsame]
  · have hscope := h scope (by rw [hlist]; simp)
    simp [isAlias, hscope.1, hscope.2] at halias

theorem kindBound? (h : scopes.IsUnlisted name) (hsound : scopes.Sound known) (info : VarInfo) :
    scopes.kindBound? name info = (scopes.seat name).kindBeside? name info :=
  if_pos (bindsOpenly_of_no_alias hsound h.aliasTarget?)

theorem seat (h : scopes.IsUnlisted name) :
    (scopes.seat name).lists.get? name = none ∧ (scopes.seat name).dicts.get? name = none := by
  obtain ⟨after, hlist, -, -⟩ := scopes.exists_split name
  exact h _ (by rw [hlist]; simp)

theorem container? (h : scopes.IsUnlisted name) :
    scopes.container? name = none ∨ scopes.container? name = some .matrix := by
  rw [container?_of_no_alias h.aliasTarget?]
  cases hfind : scopes.toList.findSome? (·.containerRecord? name) with
  | none => exact Or.inl rfl
  | some record =>
    obtain ⟨scope, hscope, hrecord⟩ := List.exists_of_findSome?_eq_some hfind
    rw [containerRecord?, if_neg (by simp [contains, (h scope hscope).1]),
      if_neg (by simp [contains, (h scope hscope).2])] at hrecord
    split at hrecord
    · cases hrecord
      exact Or.inr rfl
    · split at hrecord
      · cases hrecord
        exact Or.inl rfl
      · cases hrecord

end IsUnlisted

/-- Whether a new alias can be followed. -/
def Entry.Follows (scopes : Scopes) (name : String) : Entry → Prop
  | shared source => ¬ scopes.Closes name source
  | _ => True

/-- An assignment to a name that has not been a list or a dictionary leaves the kind that it
should. -/
theorem Entry.suggests_of_isUnlisted {entry : Entry} {kind : Option Container}
    (h : scopes.Sound known) (hname : scopes.IsUnlisted name) (hfollows : entry.Follows scopes name)
    (hleaves : entry.Leaves scopes name kind) : entry.Suggests scopes kind := by
  cases entry with
  | list =>
    rw [Leaves, hname.kindBound? h] at hleaves
    simpa [Suggests, kindBeside?, VarInfo.list] using hleaves
  | dict =>
    rw [Leaves, hname.kindBound? h] at hleaves
    simpa [Suggests, kindBeside?, VarInfo.dict, contains, hname.seat.1] using hleaves
  | matrix =>
    rw [Leaves, hname.dropAlias, hname.kindBound? h] at hleaves
    simpa [Suggests, kindBeside?, VarInfo.matrix, contains, hname.seat.1,
      hname.seat.2] using hleaves
  | scalar =>
    rw [Leaves, hname.dropAlias] at hleaves
    rcases hname.container? with hkind | hkind <;> simp [Suggests, hleaves, hkind]
  | shared source =>
    have hlists := (hname scopes.innermost List.mem_cons_self).1
    rw [Leaves, if_neg (by simp [hidesAlias, contains, hlists])] at hleaves
    exact hleaves.2 hfollows

end Scopes

/-! ### Targets -/

namespace Emit

variable {labels : FunctionLabels} {s s' : Emitter}

/-- The targets of an assignment, those of a tuple one by one. -/
def eachTarget (target : Expr) (others : List Expr) : List Expr :=
  match target, others with
  | .tuple _ names, [] => names
  | _, _ => target :: others

/-- While an assignment runs from state `s`, it records an entry for a name in some scopes, with
some targets still to come. -/
inductive Records (labels : FunctionLabels) (s : Emitter) :
    Expr → List Expr → Expr → Ident → Scopes.Entry → Scopes → List Expr → Prop where
  | list (id : Ident) (start : Position) (elements : List Expr) :
      Records labels s (.name id) [] (.list start elements) id .list s.scopes []
  | dict (id : Ident) (start : Position) (items : List (Expr × Expr)) :
      Records labels s (.name id) [] (.dict start items) id .dict s.scopes []
  | shared (id source : Ident) (h : isShared s.scopes (.name source) = true) :
      Records labels s (.name id) [] (.name source) id (.shared source.name) s.scopes []
  | computed {target value : Expr} {others before rest : List Expr} {id : Ident} {s₁ t : Emitter}
      (hcomputed : isComputed s.scopes value = true)
      (htargets : target :: others = before ++ .name id :: rest)
      (hvalue : (expr labels value).run s = .ok ((), s₁))
      (hbefore :
        (storeTargets labels (if producesMatrix labels s.scopes value then .matrix else .scalar)
        s₁.listing.lastIsString before).run s₁ = .ok ((), t)) :
      Records labels s target others value id
        (if producesMatrix labels s.scopes value then .matrix else .scalar) t.scopes rest
  | unpacked {start start' : Position} {names values before rest : List Expr} {id : Ident}
      {registers : List (Ident × Register)} {s₁ t : Emitter}
      (hnames : names = before ++ .name id :: rest)
      (hvalues : (pushValues labels values).run s = .ok ((), s₁))
      (hbefore : (unpackedRegisters before).run s₁ = .ok (registers, t)) :
      Records labels s (.tuple start names) [] (.tuple start' values) id .scalar t.scopes rest

variable {before rest others : List Expr} {target value : Expr} {id : Ident}

theorem run_unpackedRegisters_append {registers : List (Ident × Register)}
    (hrun : (unpackedRegisters (before ++ rest)).run s = .ok (registers, s')) :
    ∃ first t last, (unpackedRegisters before).run s = .ok (first, t) ∧
      (unpackedRegisters rest).run t = .ok (last, s') ∧ registers = first ++ last := by
  induction before generalizing s registers with
  | nil => exact ⟨[], s, registers, rfl, hrun, rfl⟩
  | cons target before ih =>
    cases target with
    | name id =>
      obtain ⟨register, s₁, hstore, hrun⟩ := run_bind.mp hrun
      obtain ⟨registers', s₂, hrest, hrun⟩ := run_bind.mp hrun
      cases hrun
      obtain ⟨first, t, last, hfirst, hlast, rfl⟩ := ih hrest
      refine ⟨(id, register) :: first, t, last, ?_, hlast, rfl⟩
      exact run_bind.mpr ⟨register, s₁, hstore, run_bind.mpr ⟨first, t, hfirst, rfl⟩⟩
    | _ => cases hrun

variable {start : Position}

theorem run_assign_unpacked {position start' : Position} {names values : List Expr}
    (hnames : names = before ++ .name id :: rest)
    (hrun : (stmt labels (.assign position (.tuple start names) [] (.tuple start' values))).run s =
      .ok ((), s')) :
    ∃ s₁ first t register scopes after s₂, (pushValues labels values).run s = .ok ((), s₁) ∧
      (unpackedRegisters before).run s₁ = .ok (first, t) ∧
      t.scopes.storeRegister id.name .scalar = .ok (register, scopes) ∧
      (unpackedRegisters rest).run { t with scopes } = .ok (after, s₂) ∧
      (storeDown (first ++ (id, register) :: after).reverse).run s₂ = .ok ((), s') := by
  obtain ⟨-, -, s₁, s₂, registers, hvalues, hregisters, hdown⟩ := run_tupleAssignment hrun
  rw [hnames] at hregisters
  obtain ⟨first, t, last, hfirst, hlast, rfl⟩ := run_unpackedRegisters_append hregisters
  obtain ⟨register, t₁, hregister, hlast⟩ := run_bind.mp hlast
  obtain ⟨scopes, hstore, rfl⟩ := run_withScopes.mp hregister
  obtain ⟨after, t₂, hafter, hlast⟩ := run_bind.mp hlast
  cases hlast
  exact ⟨s₁, first, t, register, scopes, after, s₂, hvalues, hfirst, hstore, hafter, hdown⟩

theorem run_singleName {value : SingleNameValue}
    (hrun : (singleName value (target :: others)).run s = .ok (id, s')) :
    target = .name id ∧ others = [] ∧ s' = s := by
  unfold singleName at hrun
  split at hrun
  · rename_i htargets
    cases htargets
    cases hrun
    exact ⟨rfl, rfl, rfl⟩
  all_goals cases hrun

theorem run_assign_shared {source : Ident} (hshared : isShared s.scopes (.name source) = true)
    (hrun : (assign labels target others (.name source)).run s = .ok ((), s')) :
    ∃ id scopes, target = .name id ∧ others = [] ∧
      s.scopes.bindAlias id.name source.name = .ok scopes ∧ s' = { s with scopes } := by
  have hrun : (assignName labels target others source).run s = .ok ((), s') := hrun
  have hshare : (singleName .containerAlias (target :: others) >>= fun id =>
      withScopes (fun scopes => return ((), ← scopes.bindAlias id.name source.name))
        source.start).run s = .ok ((), s') := by
    rw [assignName, run_get_bind] at hrun
    split at hrun
    iterate 2 exact hrun
    · rename_i hlist hdict
      exact absurd (by simpa [isShared] using hshared) (not_or.mpr ⟨hlist, hdict⟩)
  obtain ⟨id, s₁, hname, hbind⟩ := run_bind.mp hshare
  obtain ⟨rfl, rfl, rfl⟩ := run_singleName hname
  obtain ⟨scopes, halias, rfl⟩ := run_withScopes.mp hbind
  obtain ⟨scopes', halias, hscopes⟩ := bind_eq_ok.mp halias
  cases hscopes
  exact ⟨id, scopes, rfl, rfl, halias, rfl⟩

theorem exists_records (hid : .name id ∈ eachTarget target others)
    (hrun : (stmt labels (.assign start target others value)).run s = .ok ((), s')) :
    ∃ entry scopes rest, Records labels s target others value id entry scopes rest := by
  have hassign : (assign labels target others value).run s = .ok ((), s') := hrun
  have hsingle : ∀ {id' : Ident}, target = .name id' ∧ others = [] → id = id' := by
    rintro id' ⟨rfl, rfl⟩
    exact Expr.name.inj (List.mem_singleton.mp hid)
  cases hcomputed : isComputed s.scopes value with
  | true =>
    unfold eachTarget at hid
    split at hid
    · cases value with
      | tuple start' values =>
        obtain ⟨before, rest, rfl⟩ := List.append_of_mem hid
        obtain ⟨s₁, first, t, -, -, -, -, hvalues, hfirst, -⟩ := run_assign_unpacked rfl hrun
        exact ⟨.scalar, t.scopes, rest, .unpacked rfl hvalues hfirst⟩
      | _ =>
        rw [run_assign_of_computed hcomputed] at hassign
        cases hassign
    · obtain ⟨before, rest, htargets⟩ := List.append_of_mem hid
      obtain ⟨s₁, t, register, scopes, hvalue, hbefore, -⟩ :=
        run_assign_computed hcomputed rfl htargets hassign
      exact ⟨_, t.scopes, rest, .computed hcomputed htargets hvalue hbefore⟩
  | false =>
    cases value with
    | list start elements =>
      obtain ⟨id', s₁, hname, -⟩ := run_bind.mp hassign
      obtain ⟨rfl, rfl, -⟩ := run_singleName hname
      obtain rfl := hsingle ⟨rfl, rfl⟩
      exact ⟨.list, s.scopes, [], .list id start elements⟩
    | dict start items =>
      obtain ⟨id', s₁, hname, -⟩ := run_bind.mp hassign
      obtain ⟨rfl, rfl, -⟩ := run_singleName hname
      obtain rfl := hsingle ⟨rfl, rfl⟩
      exact ⟨.dict, s.scopes, [], .dict id start items⟩
    | name source =>
      have hshared : isShared s.scopes (.name source) = true := by
        simpa [isComputed] using hcomputed
      obtain ⟨id', scopes, rfl, rfl, -⟩ := run_assign_shared hshared hassign
      obtain rfl := hsingle ⟨rfl, rfl⟩
      exact ⟨.shared source.name, s.scopes, [], .shared id source hshared⟩
    | _ => cases hcomputed

/-- What an assignment records succeeds. It is the last change to the scopes when no targets and no
names in the items of a literal are left. -/
theorem Records.record_eq_ok
    {entry : Scopes.Entry} {scopes : Scopes} (hs : s.scopes.Sound fun _ => True)
    (hrun : (stmt labels (.assign start target others value)).run s = .ok ((), s'))
    (h : Records labels s target others value id entry scopes rest) :
    (scopes.Sound fun _ => True) ∧ ∃ scopes', entry.record scopes id.name = .ok scopes' ∧
      (rest = [] → isComputed s.scopes value = true ∨ value.storedNames = [] →
        ∀ name, Scopes.SameAt name scopes' s'.scopes) := by
  have hassign : (assign labels target others value).run s = .ok ((), s') := hrun
  cases h with
  | list | dict =>
    obtain ⟨s₁, register, hliteral⟩ := run_literal hs rfl hassign
    refine ⟨hs, s₁.scopes, by rw [Scopes.Entry.record, hliteral.bound]; rfl,
      fun _ hnames name => ?_⟩
    -- the items come after the record and store to no names
    have hnames := hnames.resolve_left (by simp [isComputed])
    exact (hliteral.items.untouched not_false (hnames ▸ List.not_mem_nil)).sameAt
  | shared _ source hshared =>
    obtain ⟨id', scopes', hid, -, halias, rfl⟩ := run_assign_shared hshared hassign
    cases hid
    exact ⟨hs, scopes', halias, fun _ _ name => (Scopes.Untouched.refl name scopes').sameAt⟩
  | @computed _ _ _ before _ _ s₁ t hcomputed htargets hvalue hbefore =>
    obtain ⟨_, _, register, scopes', hvalue', hbefore', hstore, hrest⟩ :=
      run_assign_computed hcomputed rfl htargets hassign
    cases hvalue.symm.trans hvalue'
    cases hbefore.symm.trans hbefore'
    -- the value and the targets in front keep the scopes sound
    have hexpr : Permitted (.full fun _ => True) (expr labels value) :=
      permitted_expr (Script.named_any value) fun _ _ => trivial
    have htargets : ∀ info : VarInfo, info.forcedName = none →
        Permitted (.full fun _ => True) (storeTargets labels info s₁.listing.lastIsString before) :=
      fun _ hforced => .of_tame (Discipline.tame_storeTargets _ trivial hforced
        (Script.forall_named_any before) fun _ _ _ _ => trivial)
    refine ⟨(htargets _ (by split <;> rfl)).sound (hexpr.sound hs hvalue) hbefore, scopes',
      by split at hstore <;> simp_all [Scopes.Entry.record], ?_⟩
    rintro rfl _ name
    cases hrest
    exact (Scopes.Untouched.refl name scopes').sameAt
  | @unpacked _ _ _ values before _ _ first s₁ t hnames hvalues hbefore =>
    obtain ⟨_, _, _, register, scopes', after, s₂, hvalues', hfirst, hstore, hafter, hdown⟩ :=
      run_assign_unpacked hnames hrun
    cases hvalues.symm.trans hvalues'
    cases hbefore.symm.trans hfirst
    have hpush : Permitted (.full fun _ => True) (pushValues labels values) :=
      .of_tame (Discipline.tame_pushValues (Script.forall_named_any values) fun _ _ _ _ => trivial)
    have htake : Permitted (.full fun _ => True) (unpackedRegisters before) :=
      permitted_unpackedRegisters (fun _ _ => trivial) (Script.forall_named_any before)
    have ht := htake.sound (hpush.sound hs hvalues) hbefore
    refine ⟨ht, scopes', by rw [Scopes.Entry.record, hstore]; rfl, ?_⟩
    rintro rfl _ name
    cases hafter
    -- registers are found first and stored to afterwards, which changes no scopes
    have hstores : Permitted (.statements fun _ => False)
        (storeDown (first ++ [(id, register)]).reverse) :=
      permitted_storeDown trivial fun _ _ => Permit.allows_of_text (fun _ => trivial) _
    have hsteps := hstores.steps (Scopes.sound_storeRegister ht hstore) hdown
    exact (hsteps.untouched not_false not_false).sameAt

end Emit

/-- In every state of every compilation, an assignment that succeeds records each name to which it
assigns, in turn, and the name is then taken for what `Scopes.Entry.Leaves` says. This is what it
should be taken for if no scope has had the name as a list or a dictionary. The last name is taken
for the same when the assignment is done, unless it is that of a literal whose items store to
names. -/
theorem kind_after_assignment {labels : FunctionLabels} {body : List Stmt} {limit : Nat}
    {jumps : LabelSupply} {s s' : Emitter} {start : Position} {target value : Expr}
    {others : List Expr} (hs : Emit.Reaches labels body limit jumps s)
    (hrun : (Emit.stmt labels (.assign start target others value)).run s = .ok ((), s')) :
    (∀ id, .name id ∈ Emit.eachTarget target others →
      ∃ entry scopes rest, Emit.Records labels s target others value id entry scopes rest) ∧
    ∀ id entry scopes rest, Emit.Records labels s target others value id entry scopes rest →
      ∃ scopes', entry.record scopes id.name = .ok scopes' ∧
        entry.Leaves scopes id.name (scopes'.container? id.name) ∧
        (scopes.IsUnlisted id.name → entry.Follows scopes id.name →
          entry.Suggests scopes (scopes'.container? id.name)) ∧
        (rest = [] → Emit.isComputed s.scopes value = true ∨ value.storedNames = [] →
          s'.scopes.container? id.name = scopes'.container? id.name) := by
  refine ⟨fun id hid => Emit.exists_records hid hrun, fun id entry scopes rest hrecords => ?_⟩
  obtain ⟨hsound, scopes', hrecord, hlast⟩ :=
    hrecords.record_eq_ok (hs.sound.mono fun _ _ => trivial) hrun
  have hleaves := Scopes.leaves_of_record hsound hrecord
  exact ⟨scopes', hrecord, hleaves,
    fun hname hfollows => Scopes.Entry.suggests_of_isUnlisted hsound hname hfollows hleaves,
    fun hrest hvalue => Scopes.container?_congr (hlast hrest hvalue) id.name⟩

/-- A list, and a number that takes its place. -/
def numberForList : List Stmt :=
  [.assign {} (.name ⟨{}, "a"⟩) [] (.list {} [.int {} 1]),
    .assign {} (.name ⟨{}, "a"⟩) [] (.int {} 5)]

/-- The number is taken for a list. -/
theorem kind_after_assignment_numberForList : ∃ s s' entry scopes scopes',
    Emit.Reaches aliasLabels numberForList 100 .pools s ∧
    (Emit.stmt aliasLabels (.assign {} (.name ⟨{}, "a"⟩) [] (.int {} 5))).run s = .ok ((), s') ∧
    Emit.Records aliasLabels s (.name ⟨{}, "a"⟩) [] (.int {} 5) ⟨{}, "a"⟩ entry scopes [] ∧
    entry.record scopes "a" = .ok scopes' ∧ entry.Leaves scopes "a" (scopes'.container? "a") ∧
    ¬ entry.Suggests scopes (scopes'.container? "a") := by
  have hfacts : ((do
      Emit.commented (.lbl (.global "M")) Emit.entryComment
      Emit.block aliasLabels (numberForList.take 1) : Emit Unit).run
        { scopes := .ofLimit 100, jumps := .pools }).toOption.any (fun before =>
      ((Emit.stmt aliasLabels (.assign {} (.name ⟨{}, "a"⟩) [] (.int {} 5))).run
        before.2).toOption.any
        (fun after => after.2.scopes.container? "a" = some .list)) = true := by
    decide +kernel
  obtain ⟨⟨_, s⟩, hrun, hfacts⟩ := exists_ok_of_any hfacts
  obtain ⟨⟨_, s'⟩, hassign, hkind⟩ := exists_ok_of_any hfacts
  have hkind : s'.scopes.container? "a" = some .list := of_decide_eq_true hkind
  have hreaches : Emit.Reaches aliasLabels numberForList 100 .pools s :=
    Emit.reaches_of_block (numberForList.drop 1) rfl rfl (by decide +kernel) hrun
  obtain ⟨hrecords, hleaves⟩ := kind_after_assignment hreaches hassign
  obtain ⟨entry, scopes, rest, hrecords⟩ := hrecords ⟨{}, "a"⟩ List.mem_cons_self
  obtain ⟨rfl, rfl⟩ : rest = [] ∧ entry = .scalar := by
    cases hrecords with
    | @computed _ _ _ before _ _ _ _ _ htargets =>
      cases before with
      | nil =>
        cases htargets
        exact ⟨rfl, rfl⟩
      | cons _ before => simp at htargets
  obtain ⟨scopes', hrecord, hleaves, -, hlast⟩ := hleaves _ _ _ _ hrecords
  refine ⟨s, s', .scalar, scopes, scopes', hreaches, hassign, hrecords, hrecord, hleaves,
    fun hsuggests => ?_⟩
  rw [← hlast rfl (Or.inl rfl)] at hsuggests
  exact hsuggests.1 hkind

end Keystroke
