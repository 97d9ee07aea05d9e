import Mathlib.Logic.Function.Basic
import Keystroke.Proofs.FreshRegisters
import Keystroke.Proofs.SoundScopes

/-!
# What a function leaves in the scopes around it

Between entering a scope and leaving it, operations can bind names, enter further scopes and leave
them again. A numbered register is bound in the innermost scope, so it is forgotten with that scope.
A named variable takes the place of the nearest binding of its name, which may be in a scope further
out. These bindings are all that is left.
-/

namespace Keystroke.Scopes

variable {scopes scopes' : Scopes} {name other : String} {register : Register} {depth depth' : Nat}
  {operation : Operation} {operations : List Operation}

/-! ### Views -/

/-- What a scope binds names to. -/
abbrev View := String → Option Register

/-- What each scope binds names to, innermost first. -/
def views (scopes : Scopes) : List View :=
  scopes.toList.map fun scope name => scope.bindings.get? name

/-- Binds a name anew where it is bound nearest, if it is bound. -/
def rebind? (name : String) (register : Register) : List View → Option (List View)
  | [] => none
  | view :: rest =>
    if (view name).isSome then some (Function.update view name (some register) :: rest)
    else (rebind? name register rest).map (view :: ·)

/-- The views after some bindings, each of a name that is bound. -/
inductive Rebinds : List (String × Register) → List View → List View → Prop where
  | nil (list : List View) : Rebinds [] list list
  | cons {name : String} {register : Register} {writes : List (String × Register)}
      {list list' list'' : List View} (h : rebind? name register list = some list')
      (hrest : Rebinds writes list' list'') : Rebinds ((name, register) :: writes) list list''

section

variable {list list' inner outer : List View} {writes : List (String × Register)}

theorem rebind?_eq_none : rebind? name register list = none ↔ ∀ view ∈ list, view name = none := by
  induction list with
  | nil => simp [rebind?]
  | cons view rest ih =>
    rw [rebind?]
    cases hview : view name with
    | some _ => simp [hview]
    | none => simp [hview, ih]

/-- Inner scopes that do not bind a name make no difference to where it is bound nearest. -/
theorem rebind?_append (h : ∀ view ∈ inner, view name = none) :
    rebind? name register (inner ++ outer) = (rebind? name register outer).map (inner ++ ·) := by
  induction inner with
  | nil => simp
  | cons view rest ih =>
    rw [List.forall_mem_cons] at h
    rw [List.cons_append, rebind?, h.1, ih h.2]
    simp [Function.comp_def]

/-- A name that inner scopes bind is bound anew there. -/
theorem exists_rebind?_append (h : ¬ ∀ view ∈ inner, view name = none) (register : Register)
    (outer : List View) :
    ∃ inner', rebind? name register (inner ++ outer) = some (inner' ++ outer) ∧
      inner'.length = inner.length := by
  induction inner with
  | nil => exact absurd (List.forall_mem_nil _) h
  | cons view rest ih =>
    rw [List.cons_append, rebind?]
    cases hview : view name with
    | some _ => exact ⟨Function.update view name (some register) :: rest, rfl, rfl⟩
    | none =>
      obtain ⟨rest', hrest', hlength⟩ := ih fun hrest => h (List.forall_mem_cons.mpr ⟨hview, hrest⟩)
      refine ⟨view :: rest', ?_, by simp [hlength]⟩
      rw [hrest']
      rfl

/-- No name is bound or lost. -/
theorem map_isSome_rebind? (h : rebind? name register list = some list') (other : String) :
    list'.map (fun view => (view other).isSome) = list.map fun view => (view other).isSome := by
  induction list generalizing list' with
  | nil => cases h
  | cons view rest ih =>
    rw [rebind?] at h
    split at h
    · rename_i hview
      cases h
      by_cases hother : other = name
      · simp [hother, hview]
      · simp [hother]
    · obtain ⟨rest', hrest', rfl⟩ := Option.map_eq_some_iff.mp h
      rw [List.map_cons, List.map_cons, ih hrest']

theorem findSome?_rebind? (h : rebind? name register list = some list') (other : String) :
    list'.findSome? (· other) =
      if other = name then some register else list.findSome? (· other) := by
  induction list generalizing list' with
  | nil => cases h
  | cons view rest ih =>
    rw [rebind?] at h
    split at h
    · cases h
      by_cases hother : other = name
      · simp [hother]
      · simp [List.findSome?_cons, hother]
    · rename_i hview
      obtain ⟨rest', hrest', rfl⟩ := Option.map_eq_some_iff.mp h
      rw [List.findSome?_cons, List.findSome?_cons, ih hrest']
      by_cases hother : other = name
      · simp [hother, Option.not_isSome_iff_eq_none.mp hview]
      · simp [hother]

theorem Rebinds.append {more : List (String × Register)} {list'' : List View}
    (h : Rebinds writes list list') (h' : Rebinds more list' list'') :
    Rebinds (writes ++ more) list list'' := by
  induction h with
  | nil => exact h'
  | cons hfirst _ ih => exact .cons hfirst (ih h')

theorem Rebinds.map_isSome (h : Rebinds writes list list') (other : String) :
    list'.map (fun view => (view other).isSome) = list.map fun view => (view other).isSome := by
  induction h with
  | nil => rfl
  | cons hfirst _ ih => rw [ih, map_isSome_rebind? hfirst]

/-- A name is bound to the register of the last binding, or as before. -/
theorem Rebinds.findSome? (h : Rebinds writes list list') (other : String) :
    list'.findSome? (· other) = ((writes.reverse.lookup other).or (list.findSome? (· other))) := by
  induction h with
  | nil => rfl
  | @cons name register writes _ _ _ hfirst _ ih =>
    rw [ih, findSome?_rebind? hfirst, List.reverse_cons, List.lookup_append]
    by_cases hother : other = name
    · subst hother
      cases writes.reverse.lookup other <;> simp
    · have hbeq : (other == name) = false := beq_eq_false_iff_ne.mpr hother
      simp [List.lookup_cons, hother, hbeq]

end

/-! ### One operation -/

theorem views_eq_of_forall₂
    (h : List.Forall₂ (fun scope scope' : Scope => scope'.bindings = scope.bindings)
      scopes.toList scopes'.toList) : scopes'.views = scopes.views := by
  unfold views
  generalize scopes.toList = list at h
  generalize scopes'.toList = list' at h
  induction h with
  | nil => rfl
  | cons hscope _ ih => rw [List.map_cons, List.map_cons, hscope, ih]

theorem isSome_get?_eq_binds (scope : Scope) (name : String) :
    (scope.bindings.get? name).isSome = scope.binds name :=
  rfl

theorem view_bind (scope : Scope) (info : VarInfo) :
    (fun other => (scope.bind name register info).bindings.get? other) =
      Function.update (fun other => scope.bindings.get? other) name (some register) := by
  funext other
  by_cases hother : other = name
  · subst hother
    rw [Function.update_self]
    exact NameMap.get?_insert_self
  · rw [Function.update_of_ne hother]
    exact NameMap.get?_insert_of_ne hother

/-- A named variable takes the place of the nearest binding, or is bound in the innermost scope. -/
theorem views_modifyHome_bind (scopes : Scopes) (name : String) (register : Register)
    (info : VarInfo) : (scopes.modifyHome name (·.bind name register info)).views =
      (rebind? name register scopes.views).getD
        (Function.update (fun other => scopes.innermost.bindings.get? other) name (some register) ::
          scopes.views.tail) := by
  have hfirst : ∀ list : List Scope, rebind? name register (list.map fun scope name =>
      scope.bindings.get? name) = (modifyFirst? (·.binds name) (·.bind name register info) list).map
        (·.map fun scope name => scope.bindings.get? name) := by
    intro list
    induction list with
    | nil => rfl
    | cons scope rest ih =>
      rw [List.map_cons, rebind?, modifyFirst?, ih, isSome_get?_eq_binds]
      split
      · rw [Option.map_some, List.map_cons, view_bind]
      · simp [Function.comp_def]
  rw [show scopes.views = (fun name => scopes.innermost.bindings.get? name) ::
    scopes.outer.map fun scope name => scope.bindings.get? name from rfl, rebind?,
    isSome_get?_eq_binds, hfirst]
  unfold modifyHome
  split
  · rw [views, toList, List.map_cons, view_bind]
    rfl
  · split
    · rename_i houter
      rw [houter]
      rfl
    · rename_i houter
      rw [houter, views, toList, List.map_cons, view_bind]
      rfl

/-- An operation fails and changes nothing, or succeeds. -/
theorem Operation.exists_perform (scopes : Scopes) (operation : Operation) :
    ∃ scopes', (operation.perform scopes).2 = scopes' ∧
      (scopes' = scopes ∨ ∃ answer, operation.apply scopes = .ok (answer, scopes')) := by
  refine ⟨_, rfl, ?_⟩
  unfold perform
  cases operation.apply scopes with
  | error => exact Or.inl rfl
  | ok result => exact Or.inr ⟨result.1, rfl⟩

/-- How many scopes have been entered after an operation, unless it leaves one that was not. -/
def Operation.depthAfter? : Operation → Nat → Option Nat
  | push, depth => some (depth + 1)
  | pop, 0 => none
  | pop, depth + 1 => some depth
  | _, depth => some depth

/-- Operations leave as many scopes as they have entered, and no others. -/
def IsBalanced (operations : List Operation) : Prop :=
  operations.foldlM (fun depth operation => operation.depthAfter? depth) 0 = some 0

instance (operations : List Operation) : Decidable (IsBalanced operations) :=
  inferInstanceAs (Decidable (_ = _))

/-- The binding of a named variable that an operation makes outside of the innermost scopes: the
nearest binding of its name is there. -/
def Operation.outward? (scopes : Scopes) (inner : Nat) : Operation → Option (String × Register)
  | bind name info =>
    if !(scopes.toList.take inner).any (·.binds name) &&
    (scopes.toList.drop inner).any (·.binds name) then (namedRegister? name info).map (name, ·)
    else none
  | _ => none

/-- The bindings of named variables that operations make outside, when they start in a scope in
which `depth` further scopes have been entered. -/
def outwardWrites (scopes : Scopes) (depth : Nat) : List Operation → List (String × Register)
  | [] => []
  | operation :: rest =>
    (operation.outward? scopes (depth + 1)).toList ++
      outwardWrites (operation.perform scopes).2 ((operation.depthAfter? depth).getD 0) rest

/-- Some scopes have been entered, and those around have given views. -/
def IsInside (outer : List View) (depth : Nat) (scopes : Scopes) : Prop :=
  ∃ inner, scopes.views = inner ++ outer ∧ inner.length = depth + 1

section

variable {outer : List View} {info : VarInfo}

/-- An operation that changes the innermost scope only. -/
theorem IsInside.of_tail (h : IsInside outer depth scopes) {view : View}
    (hviews : scopes'.views = view :: scopes.views.tail) : IsInside outer depth scopes' := by
  obtain ⟨inner, hinner, hlength⟩ := h
  cases inner with
  | nil => cases hlength
  | cons first rest => exact ⟨view :: rest, by rw [hviews, hinner]; rfl, hlength⟩

theorem IsInside.of_eq (h : IsInside outer depth scopes) (hviews : scopes'.views = scopes.views) :
    IsInside outer depth scopes' := by
  rwa [IsInside, hviews]

theorem views_pop (h : scopes.views.tail ≠ []) : scopes.pop.views = scopes.views.tail := by
  unfold pop
  split
  · rename_i houter
    rw [views, toList, houter] at h
    exact absurd rfl h
  · rename_i houter
    rw [views, views, toList, toList, houter]
    rfl

theorem any_binds {inner : List View} (hviews : scopes.views = inner ++ outer) :
    (scopes.toList.take inner.length).any (·.binds name) =
        (inner.any fun view => (view name).isSome) ∧
      (scopes.toList.drop inner.length).any (·.binds name) =
        outer.any fun view => (view name).isSome := by
  obtain ⟨near, far, hsplit, rfl, rfl⟩ := List.map_eq_append_iff.mp hviews
  rw [hsplit, List.length_map, List.take_left, List.drop_left, List.any_map, List.any_map]
  exact ⟨rfl, rfl⟩

/-- A named variable is bound anew in the scopes around, or these are left alone. -/
theorem IsInside.bindNamed (h : IsInside outer depth scopes)
    (hnamed : namedRegister? name info = some register) : ∃ outer',
      IsInside outer' depth (scopes.modifyHome name (·.bind name register info)) ∧
      Rebinds ((Operation.bind name info).outward? scopes (depth + 1)).toList outer outer' := by
  have hviews := views_modifyHome_bind scopes name register info
  obtain ⟨inner, hinner, hlength⟩ := id h
  rw [Operation.outward?, ← hlength, (any_binds hinner).1, (any_binds hinner).2, hnamed]
  by_cases hin : ∀ view ∈ inner, view name = none
  · have hnone : (inner.any fun view => (view name).isSome) = false := by simpa using hin
    rw [hnone]
    rw [hinner, rebind?_append hin] at hviews
    cases hrebind : rebind? name register outer with
    | none =>
      have hfree : (outer.any fun view => (view name).isSome) = false := by
        simpa using rebind?_eq_none.mp hrebind
      rw [hrebind, ← hinner] at hviews
      rw [hfree]
      exact ⟨outer, h.of_tail hviews, .nil outer⟩
    | some outer' =>
      have hbound : (outer.any fun view => (view name).isSome) = true := by
        by_contra hfree
        rw [rebind?_eq_none.mpr (by simpa using hfree)] at hrebind
        cases hrebind
      rw [hrebind] at hviews
      rw [hbound]
      exact ⟨outer', ⟨inner, hviews, hlength⟩, .cons hrebind (.nil outer')⟩
  · have hsome : (inner.any fun view => (view name).isSome) = true := by
      by_contra hnone
      exact hin (by simpa using hnone)
    obtain ⟨inner', hrebind, hlength'⟩ := exists_rebind?_append hin register outer
    rw [hinner, hrebind] at hviews
    rw [hsome]
    exact ⟨outer, ⟨inner', hviews, hlength'.trans hlength⟩, .nil outer⟩

theorem IsInside.bindNumbered (h : IsInside outer depth scopes)
    (hnamed : namedRegister? name info = none) :
    IsInside outer depth ((Operation.bind name info).perform scopes).2 := by
  obtain ⟨scopes', hperform, rfl | ⟨answer, happly⟩⟩ :=
    Operation.exists_perform scopes (.bind name info)
  · rwa [hperform]
  · obtain ⟨⟨register, scopes₁⟩, hbind, hresult⟩ := bind_eq_ok.mp happly
    cases hresult
    rw [hperform]
    rcases bind_inv hbind with ⟨hsome, -⟩ | ⟨-, -, -, rfl⟩
    · rw [hnamed] at hsome
      cases hsome
    · have hviews : _ = List.cons
          (fun other => (scopes.innermost.bind name register info).bindings.get? other)
          scopes.views.tail := rfl
      exact h.of_tail hviews

/-- Every operation leaves the scopes around alone, but for the binding that it makes there. -/
theorem IsInside.perform (h : IsInside outer depth scopes)
    (hdepth : operation.depthAfter? depth = some depth') : ∃ outer',
      IsInside outer' depth' (operation.perform scopes).2 ∧
      Rebinds (operation.outward? scopes (depth + 1)).toList outer outer' := by
  cases operation with
  | push =>
    cases hdepth
    obtain ⟨inner, hinner, hlength⟩ := h
    refine ⟨outer, ⟨(fun name => ({} : Scope).bindings.get? name) :: inner, ?_, by simp [hlength]⟩,
      .nil outer⟩
    rw [List.cons_append, ← hinner]
    rfl
  | pop =>
    cases depth with
    | zero => cases hdepth
    | succ depth =>
      cases hdepth
      obtain ⟨inner, hinner, hlength⟩ := h
      cases inner with
      | nil => cases hlength
      | cons first rest =>
        have hrest : rest ++ outer ≠ [] := by
          intro hnil
          rw [(List.append_eq_nil_iff.mp hnil).1] at hlength
          simp at hlength
        refine ⟨outer, ⟨rest, ?_, Nat.succ.inj hlength⟩, .nil outer⟩
        show scopes.pop.views = _
        rw [views_pop (by rw [hinner]; exact hrest), hinner]
        rfl
  | bind name info =>
    cases hdepth
    -- a number is bound in the innermost scope, a variable where its name is bound
    cases hnamed : namedRegister? name info with
    | none =>
      refine ⟨outer, h.bindNumbered hnamed, ?_⟩
      rw [Operation.outward?, hnamed]
      simpa using .nil outer
    | some register =>
      have hperform : ((Operation.bind name info).perform scopes).2 =
          scopes.modifyHome name (·.bind name register info) := by
        simp [Operation.perform, Operation.apply, Scopes.bind, hnamed, Bind.bind, Except.bind, pure,
          Except.pure]
      rw [hperform]
      exact h.bindNamed hnamed
  | bindAlias name target =>
    cases hdepth
    -- an alias is no binding
    refine ⟨outer, h.of_eq ?_, .nil outer⟩
    obtain ⟨scopes', hperform, rfl | ⟨answer, happly⟩⟩ :=
      Operation.exists_perform scopes (.bindAlias name target)
    · rw [hperform]
    · obtain ⟨scopes₁, hbind, hresult⟩ := bind_eq_ok.mp happly
      cases hresult
      rw [hperform]
      rcases bindAlias_eq_ok hbind with rfl | rfl <;> rfl
  | anonymous =>
    cases hdepth
    refine ⟨outer, h.of_eq ?_, .nil outer⟩
    obtain ⟨scopes', hperform, rfl | ⟨answer, happly⟩⟩ := Operation.exists_perform scopes .anonymous
    · rw [hperform]
    · obtain ⟨⟨register, scopes₁⟩, hallocate, hresult⟩ := bind_eq_ok.mp happly
      cases hresult
      rw [hperform]
      obtain ⟨-, -, rfl⟩ := allocate_eq_ok.mp hallocate
      rfl
  | restamp name info =>
    cases hdepth
    exact ⟨outer, h.of_eq (views_eq_of_forall₂ (forall₂_modifyHome (fun _ => rfl) fun _ => rfl)),
      .nil outer⟩
  | dropAlias name =>
    cases hdepth
    exact ⟨outer, h.of_eq (views_eq_of_forall₂ (forall₂_dropAlias (fun _ => rfl) fun _ => rfl)),
      .nil outer⟩

/-! ### Runs -/

theorem run_append (scopes : Scopes) (operations later : List Operation) :
    (scopes.run (operations ++ later)).2 = ((scopes.run operations).2.run later).2 := by
  induction operations generalizing scopes with
  | nil => rfl
  | cons operation rest ih => exact ih (operation.perform scopes).2

theorem IsInside.run (h : IsInside outer depth scopes)
    (hdepth : operations.foldlM (fun depth operation => operation.depthAfter? depth) depth =
      some depth') :
    ∃ outer', IsInside outer' depth' (scopes.run operations).2 ∧
      Rebinds (scopes.outwardWrites depth operations) outer outer' := by
  induction operations generalizing scopes depth outer with
  | nil =>
    cases hdepth
    exact ⟨outer, h, .nil outer⟩
  | cons operation rest ih =>
    obtain ⟨depth₁, hfirst, hrest⟩ := Option.bind_eq_some_iff.mp hdepth
    obtain ⟨outer₁, hinside, hwrites⟩ := h.perform hfirst
    obtain ⟨outer', hinside', hwrites'⟩ := ih hinside hrest
    refine ⟨outer', hinside', ?_⟩
    rw [outwardWrites, show operation.depthAfter? depth = some depth₁ from hfirst]
    exact hwrites.append hwrites'

/-- What is bound outside is bound to a named variable by an operation. -/
theorem exists_bind_of_mem_outwardWrites
    (h : (name, register) ∈ scopes.outwardWrites depth operations) :
    ∃ info, .bind name info ∈ operations ∧ namedRegister? name info = some register := by
  induction operations generalizing scopes depth with
  | nil => cases h
  | cons operation rest ih =>
    rcases List.mem_append.mp h with hfirst | hrest
    · cases operation with
      | bind other info =>
        rw [Option.mem_toList, Operation.outward?] at hfirst
        split at hfirst
        · obtain ⟨found, hfound, heq⟩ := Option.map_eq_some_iff.mp hfirst
          cases heq
          exact ⟨info, List.mem_cons_self, hfound⟩
        · cases hfirst
      | _ => cases hfirst
    · obtain ⟨info, hmem, hnamed⟩ := ih hrest
      exact ⟨info, List.mem_cons_of_mem operation hmem, hnamed⟩

theorem lookup_eq_findSome?_views (scopes : Scopes) (name : String) :
    scopes.lookup name = scopes.views.findSome? (· name) := by
  rw [views, List.findSome?_map]
  rfl

theorem map_binds_eq (scopes : Scopes) (name : String) :
    scopes.toList.map (·.binds name) = scopes.views.map fun view => (view name).isSome := by
  rw [views, List.map_map]
  rfl

theorem exists_home_of_lookup (h : scopes.lookup name = some register) :
    ∃ i scope, scopes.toList.findIdx? (·.binds name) = some i ∧ scopes.toList[i]? = some scope ∧
      scope.bindings.get? name = some register := by
  unfold lookup at h
  generalize scopes.toList = list at h
  induction list with
  | nil => cases h
  | cons scope rest ih =>
    rw [List.findSome?_cons] at h
    cases hget : scope.bindings.get? name with
    | some found =>
      rw [hget] at h
      cases h
      exact ⟨0, scope, by simp [List.findIdx?_cons, Scope.binds, NameMap.contains, hget], rfl, hget⟩
    | none =>
      rw [hget] at h
      obtain ⟨i, home, hfind, hhome, hbinding⟩ := ih h
      refine ⟨i + 1, home, ?_, hhome, hbinding⟩
      have hbinds : scope.binds name = false := by simp [Scope.binds, NameMap.contains, hget]
      simp [List.findIdx?_cons, hbinds, hfind]

/-- After a scope has been entered and left again, with balanced operations in between, the scopes
around bind the same names as before. A name stands for what it stood for before, unless an
operation has bound it to a named variable when its nearest binding was in a scope around. Then it
is bound to the variable of the last such operation, in the scope of that binding. A name that only
numbered registers were bound to stands for what it stood for. -/
theorem scope_left_as_found (scopes : Scopes) {operations : List Operation}
    (h : IsBalanced operations) :
    ∃ after writes, after = (scopes.run (.push :: (operations ++ [.pop]))).2 ∧
      writes = scopes.push.outwardWrites 0 operations ∧
      after.toList.length = scopes.toList.length ∧
      (∀ name, after.toList.map (·.binds name) = scopes.toList.map (·.binds name)) ∧
      (∀ name, after.lookup name = (writes.reverse.lookup name).or (scopes.lookup name)) ∧
      (∀ name register, writes.reverse.lookup name = some register → register.isNamed = true ∧
        ∃ i scope, scopes.toList.findIdx? (·.binds name) = some i ∧ after.toList[i]? = some scope ∧
          scope.bindings.get? name = some register) ∧
      ∀ name, (∀ info, .bind name info ∈ operations → namedRegister? name info = none) →
        after.lookup name = scopes.lookup name := by
  have hinside : IsInside scopes.views 0 scopes.push := ⟨[_], rfl, rfl⟩
  -- at the end one scope is inside, and those around differ by the writes outward
  obtain ⟨outer, ⟨inner, hinner, hlength⟩, hwrites⟩ := hinside.run h
  obtain ⟨view, rfl⟩ := List.length_eq_one_iff.mp hlength
  have houter : outer.length = scopes.views.length := by
    simpa using congrArg List.length (hwrites.map_isSome "")
  have hviews : (scopes.push.run operations).2.pop.views = outer := by
    rw [views_pop, hinner]
    · rfl
    · rw [hinner]
      rintro rfl
      cases houter
  have hrun : (scopes.run (.push :: (operations ++ [.pop]))).2 =
      (scopes.push.run operations).2.pop :=
    run_append scopes.push operations [.pop]
  have hlookup : ∀ name, (scopes.push.run operations).2.pop.lookup name =
      ((scopes.push.outwardWrites 0 operations).reverse.lookup name).or (scopes.lookup name) := by
    intro name
    rw [lookup_eq_findSome?_views, hviews, hwrites.findSome?, ← lookup_eq_findSome?_views]
  have hbinds : ∀ name, (scopes.push.run operations).2.pop.toList.map (·.binds name) =
      scopes.toList.map (·.binds name) := by
    intro name
    rw [map_binds_eq, map_binds_eq, hviews, hwrites.map_isSome]
  -- only a binding to a named variable is written outward
  have hbound : ∀ {name register}, (scopes.push.outwardWrites 0 operations).reverse.lookup name =
      some register → ∃ info, .bind name info ∈ operations ∧
        namedRegister? name info = some register := by
    intro name register hwrite
    obtain ⟨before, later, hsplit, -⟩ := List.lookup_eq_some_iff.mp hwrite
    have hmem : (name, register) ∈ (scopes.push.outwardWrites 0 operations).reverse :=
      hsplit ▸ List.mem_append_right before List.mem_cons_self
    exact exists_bind_of_mem_outwardWrites (List.mem_reverse.mp hmem)
  refine ⟨_, _, hrun.symm, rfl, ?_, hbinds, hlookup, fun name register hwrite => ?_,
    fun name hnumbers => ?_⟩
  · simpa using congrArg List.length (hbinds "")
  · obtain ⟨info, -, hnamed⟩ := hbound hwrite
    obtain ⟨i, scope, hindex, hscope, hget⟩ := exists_home_of_lookup
      ((hlookup name).trans (by rw [hwrite]; rfl))
    have hsame := congrArg (List.findIdx? id) (hbinds name)
    rw [List.findIdx?_map, List.findIdx?_map] at hsame
    obtain ⟨text, rfl⟩ := namedRegister?_isNamed hnamed
    exact ⟨rfl, i, scope, hsame.symm.trans hindex, hscope, hget⟩
  · cases hwrite : (scopes.push.outwardWrites 0 operations).reverse.lookup name with
    | none => rw [hlookup name, hwrite, Option.none_or]
    | some register =>
      obtain ⟨info, hmem, hnamed⟩ := hbound hwrite
      exact absurd ((hnumbers info hmem).symm.trans hnamed) (by simp)

end

/-- In a function, a list takes the place of a number that is bound outside, and a number is bound
besides. -/
theorem scope_left_as_found_list : ∃ after,
    after = (((ofLimit 5).run [.bind "x" .scalar]).2.run
      [.push, .bind "x" .list, .bind "y" .scalar, .pop]).2 ∧
    after.lookup "x" = some (.named "x") ∧ after.lookup "y" = none := by
  have hwrites : (((ofLimit 5).run [.bind "x" .scalar]).2.push.outwardWrites 0
      [.bind "x" .list, .bind "y" .scalar]).reverse.lookup "x" = some (.named "x") :=
      by decide +kernel
  obtain ⟨after, writes, hafter, rfl, -, -, hlookup, -, hnumbers⟩ :=
    scope_left_as_found ((ofLimit 5).run [.bind "x" .scalar]).2
      (show IsBalanced [.bind "x" .list, .bind "y" .scalar] by decide)
  refine ⟨after, hafter, ?_, ?_⟩
  · rw [hlookup, hwrites]
    rfl
  · refine (hnumbers "y" ?_).trans (by decide +kernel)
    intro info hinfo
    simp only [List.mem_cons, Operation.bind.injEq, List.not_mem_nil, or_false] at hinfo
    obtain ⟨h, -⟩ | ⟨-, rfl⟩ := hinfo
    · exact absurd h (by decide)
    · decide

end Keystroke.Scopes
