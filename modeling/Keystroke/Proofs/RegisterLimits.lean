import Mathlib.Data.List.Forall2
import Keystroke.Proofs.Emission

/-!
# Scopes with another number of registers

How many numbered registers there are is looked at in one place only: where the next one is handed
out. Scopes that differ in nothing else answer every question alike, and an operation that succeeds
on them succeeds with every number of registers that is not below the counter that it leaves.
-/

namespace Keystroke

namespace Scope

/-- What a scope says about a name as an alias: nothing when it does not know the name, and
`some none` when the name is a variable of its own there. -/
def aliasAnswer? (scope : Scope) (name : String) : Option (Option String) :=
  match scope.aliasRecord? name with
  | some target => some target
  | none => if scope.binds name then some none else none

/-- A scope that records a name neither as a list nor as a dictionary. -/
def clearAlias (scope : Scope) (name : String) : Scope :=
  { scope with lists := scope.lists.erase name, dicts := scope.dicts.erase name }

end Scope

namespace Scopes

variable {scopes scopes' : Scopes} {limit : Nat} {name : String} {info : VarInfo}
  {R : Scope → Scope → Prop} {register : Register}

/-- The scopes with another number of registers. -/
def withLimit (scopes : Scopes) (limit : Nat) : Scopes :=
  { scopes with limit }

/-! ### Looking up -/

@[simp] theorem followAliases_withLimit (depth : Nat) :
    (scopes.withLimit limit).followAliases depth name = scopes.followAliases depth name := by
  induction depth generalizing name with
  | zero => rfl
  | succ depth ih =>
    rw [followAliases, followAliases,
      show (scopes.withLimit limit).aliasTarget? name = scopes.aliasTarget? name from rfl]
    split
    · exact ih
    · rfl

@[simp] theorem resolve_withLimit : (scopes.withLimit limit).resolve name =
    scopes.resolve name := by
  rw [resolve, followAliases_withLimit, resolve]

@[simp] theorem getRegister_withLimit :
    (scopes.withLimit limit).getRegister name = scopes.getRegister name := by
  rw [getRegister, resolve_withLimit]
  rfl

@[simp] theorem rebinds_withLimit :
    (scopes.withLimit limit).rebinds name info = scopes.rebinds name info := by
  simp only [rebinds, isUnbound, getRegister_withLimit]

@[simp] theorem container?_withLimit :
    (scopes.withLimit limit).container? name = scopes.container? name := by
  rfl

@[simp] theorem isRangeIndex_withLimit :
    (scopes.withLimit limit).isRangeIndex name = scopes.isRangeIndex name := rfl

@[simp] theorem producesMatrix_withLimit (labels : FunctionLabels) (e : Script.Expr) :
    Emit.producesMatrix labels (scopes.withLimit limit) e =
      Emit.producesMatrix labels scopes e := by
  induction e using Emit.producesMatrix.induct with
  | case4 start left op right ihleft ihright =>
    rw [Emit.producesMatrix, ihleft, ihright, Emit.producesMatrix]
  | case5 start operand ih => rw [Emit.producesMatrix, ih, Emit.producesMatrix]
  | _ => simp [Emit.producesMatrix]

/-! ### Changing -/

theorem pop_withLimit : (scopes.withLimit limit).pop = scopes.pop.withLimit limit := by
  unfold pop
  rw [show (scopes.withLimit limit).outer = scopes.outer from rfl]
  split <;> rfl

theorem next_pop (scopes : Scopes) : scopes.pop.next = scopes.next := by
  unfold pop
  split <;> rfl

theorem modifyHome_withLimit (f : Scope → Scope) :
    (scopes.withLimit limit).modifyHome name f = (scopes.modifyHome name f).withLimit limit := by
  unfold modifyHome
  rw [show (scopes.withLimit limit).innermost = scopes.innermost from rfl,
    show (scopes.withLimit limit).outer = scopes.outer from rfl]
  split
  · rfl
  · split <;> rfl

theorem next_modifyHome (scopes : Scopes) (name : String) (f : Scope → Scope) :
    (scopes.modifyHome name f).next = scopes.next := by
  unfold modifyHome
  split
  · rfl
  · split <;> rfl

theorem dropAlias_withLimit : ((scopes.withLimit limit).dropAlias name).2 =
    (scopes.dropAlias name).2.withLimit limit := by
  unfold dropAlias
  rw [show (scopes.withLimit limit).toList = scopes.toList from rfl]
  split <;> rfl

theorem next_dropAlias (scopes : Scopes) (name : String) :
    (scopes.dropAlias name).2.next = scopes.next := by
  unfold dropAlias
  split <;> rfl

/-- The number of scopes around the innermost one. -/
def depth (scopes : Scopes) : Nat :=
  scopes.outer.length

theorem depth_pop_of_pos {n : Nat} (h : scopes.depth = n + 1) : scopes.pop.depth = n := by
  unfold pop
  unfold depth at h
  split
  · rename_i houter
    simp [houter] at h
  · rename_i houter
    simpa [depth, houter] using h

/-! ### Changing scope by scope -/

theorem forall₂_modifyHome {f : Scope → Scope} (hrefl : ∀ scope, R scope scope)
    (hf : ∀ scope, R scope (f scope)) :
    List.Forall₂ R scopes.toList (scopes.modifyHome name f).toList := by
  have hsame : ∀ list : List Scope, List.Forall₂ R list list := fun list =>
    List.forall₂_same.mpr fun scope _ => hrefl scope
  have hfirst : ∀ {list list' : List Scope} {p : Scope → Bool},
      modifyFirst? p f list = some list' → List.Forall₂ R list list' := by
    intro list list' p h
    induction list generalizing list' with
    | nil => cases h
    | cons scope rest ih =>
      rw [modifyFirst?] at h
      split at h
      · cases h
        exact .cons (hf scope) (hsame rest)
      · obtain ⟨rest', hrest, rfl⟩ := Option.map_eq_some_iff.mp h
        exact .cons (hrefl scope) (ih hrest)
  unfold modifyHome
  split
  · exact .cons (hf _) (hsame _)
  · split
    · rename_i outer houter
      exact .cons (hrefl _) (hfirst houter)
    · exact .cons (hf _) (hsame _)

theorem dropAliasFrom_eq_some {list list' : List Scope} (h : dropAliasFrom name list = some list') :
    ∃ before scope after, list = before ++ scope :: after ∧
      list' = before ++ scope.clearAlias name :: after ∧ scope.isAlias name = true ∧
      ∀ nearer ∈ before, nearer.aliasAnswer? name = none := by
  induction list generalizing list' with
  | nil => cases h
  | cons scope rest ih =>
    rw [dropAliasFrom] at h
    split at h
    · rename_i halias
      cases h
      exact ⟨[], scope, rest, rfl, rfl, halias, List.forall_mem_nil _⟩
    · split at h
      · cases h
      · rename_i hknows
        obtain ⟨rest', hrest, rfl⟩ := Option.map_eq_some_iff.mp h
        obtain ⟨before, found, after, rfl, rfl, halias, hbefore⟩ := ih hrest
        refine ⟨scope :: before, found, after, rfl, rfl, halias, fun nearer hnearer => ?_⟩
        rcases List.mem_cons.mp hnearer with rfl | hnearer
        · simp only [Bool.or_eq_true, not_or, Bool.not_eq_true, Option.isSome_eq_false_iff,
            Option.isNone_iff_eq_none] at hknows
          simp [Scope.aliasAnswer?, hknows]
        · exact hbefore nearer hnearer

theorem dropAlias_cases (scopes : Scopes) (name : String) :
    (scopes.dropAlias name).2 = scopes ∨ ∃ before scope after,
      scopes.toList = before ++ scope :: after ∧
      (scopes.dropAlias name).2.toList = before ++ scope.clearAlias name :: after ∧
      scope.isAlias name = true ∧ ∀ nearer ∈ before, nearer.aliasAnswer? name = none := by
  unfold dropAlias
  split
  · rename_i innermost outer hdrop
    exact Or.inr (dropAliasFrom_eq_some hdrop)
  · exact Or.inl rfl

theorem forall₂_dropAlias (hrefl : ∀ scope, R scope scope)
    (hclear : ∀ scope, R scope (scope.clearAlias name)) :
    List.Forall₂ R scopes.toList (scopes.dropAlias name).2.toList := by
  have hsame : ∀ list : List Scope, List.Forall₂ R list list := fun list =>
    List.forall₂_same.mpr fun scope _ => hrefl scope
  rcases dropAlias_cases scopes name with h | ⟨before, scope, after, hlist, hlist', -, -⟩
  · rw [h]
    exact hsame _
  · rw [hlist, hlist']
    exact List.rel_append (hsame before) (.cons (hclear scope) (hsame after))

theorem depth_eq_of_forall₂
    (h : List.Forall₂ (fun _ _ : Scope => True) scopes.toList scopes'.toList) :
    scopes'.depth = scopes.depth :=
  (Nat.succ.inj h.length_eq).symm

theorem depth_modifyHome (scopes : Scopes) (name : String) (f : Scope → Scope) :
    (scopes.modifyHome name f).depth = scopes.depth :=
  depth_eq_of_forall₂ (forall₂_modifyHome (fun _ => trivial) fun _ => trivial)

/-! ### Operations -/

theorem allocate_eq_ok : scopes.allocate = .ok (register, scopes') ↔
    scopes.next < scopes.limit ∧ register = .numbered scopes.next ∧
      scopes' = { scopes with next := scopes.next + 1 } := by
  unfold allocate
  split
  · rename_i hlt
    simp [hlt, eq_comm]
  · rename_i hlt
    simp [hlt]

/-- What a successful binding does: a named variable goes to the home of the name, a numbered
register to the innermost scope. -/
theorem bind_inv (h : scopes.bind name info = .ok (register, scopes')) :
    (namedRegister? name info = some register ∧
      scopes' = scopes.modifyHome name (·.bind name register info)) ∨
    (namedRegister? name info = none ∧ scopes.next < scopes.limit ∧
      register = .numbered scopes.next ∧
      scopes' = { scopes with
        next := scopes.next + 1
        innermost := scopes.innermost.bind name register info }) := by
  unfold Scopes.bind at h
  cases hnamed : namedRegister? name info with
  | some named =>
    rw [hnamed] at h
    cases h
    exact Or.inl ⟨rfl, rfl⟩
  | none =>
    rw [hnamed] at h
    obtain ⟨⟨register₁, scopes₁⟩, hallocate, h⟩ := bind_eq_ok.mp h
    obtain ⟨hlt, rfl, rfl⟩ := allocate_eq_ok.mp hallocate
    cases h
    exact Or.inr ⟨rfl, hlt, rfl, rfl⟩

section

variable {α : Type} {step : Scopes → Except ScopeError (α × Scopes)} {a : α}

/-- For a result of an operation, the number of registers decides only whether there is one: there
is one with every number that is not below the counter in the result. -/
structure Stretches (step : Scopes → Except ScopeError (α × Scopes)) (scopes : Scopes) (a : α)
    (scopes' : Scopes) : Prop where
  depth : scopes'.depth = scopes.depth
  grows : scopes.next ≤ scopes'.next
  enough : ∀ limit, scopes'.next ≤ limit →
    step (scopes.withLimit limit) = .ok (a, scopes'.withLimit limit)
  short : ∀ limit, scopes.next ≤ limit → limit < scopes'.next →
    step (scopes.withLimit limit) = .error (.registersExhausted limit)

/-- An operation inside a scope for which the number of registers decides only whether it
succeeds. -/
def Elastic (step : Scopes → Except ScopeError (α × Scopes)) : Prop :=
  ∀ scopes a scopes', step scopes = .ok (a, scopes') → Stretches step scopes a scopes'

/-- A result without a new register is the same for every number of registers. -/
theorem Stretches.of_next_eq (hdepth : scopes'.depth = scopes.depth)
    (hnext : scopes'.next = scopes.next)
    (hsame : ∀ limit, step (scopes.withLimit limit) = .ok (a, scopes'.withLimit limit)) :
    Stretches step scopes a scopes' where
  depth := hdepth
  grows := Nat.le_of_eq hnext.symm
  enough limit _ := hsame limit
  short limit hle hlt := absurd hle (by omega)

theorem elastic_allocate : Elastic allocate := by
  intro scopes register scopes' h
  obtain ⟨-, rfl, rfl⟩ := allocate_eq_ok.mp h
  refine ⟨rfl, Nat.le_succ _, fun limit hle => if_pos hle, fun limit _ hlt => if_neg ?_⟩
  exact Nat.not_lt.mpr (Nat.le_of_lt_succ hlt)

theorem elastic_bind (name : String) (info : VarInfo) : Elastic (·.bind name info) := by
  intro scopes register scopes' h
  unfold Scopes.bind at h
  cases hnamed : namedRegister? name info with
  | some named =>
    rw [hnamed] at h
    cases h
    refine .of_next_eq (depth_modifyHome ..) (next_modifyHome ..) fun limit => ?_
    rw [Scopes.bind, hnamed, ← modifyHome_withLimit]
  | none =>
    -- only a register with a number is taken from the supply
    rw [hnamed] at h
    obtain ⟨⟨taken, scopes₁⟩, htake, h⟩ := bind_eq_ok.mp h
    cases h
    have hstretches := elastic_allocate scopes register scopes₁ htake
    refine ⟨hstretches.depth, hstretches.grows, fun limit hle => ?_, fun limit hle hlt => ?_⟩
    · rw [Scopes.bind, hnamed]
      exact bind_eq_ok.mpr ⟨_, hstretches.enough limit hle, rfl⟩
    · rw [Scopes.bind, hnamed]
      exact bind_eq_error.mpr (Or.inl (hstretches.short limit hle hlt))

theorem elastic_bindAlias (name target : String) :
    Elastic fun scopes => return ((), ← scopes.bindAlias name target) := by
  intro scopes a scopes' h
  obtain ⟨scopes₁, hbind, h⟩ := bind_eq_ok.mp h
  cases h
  unfold bindAlias at hbind
  cases hkind : scopes.container? target with
  | none =>
    rw [hkind] at hbind
    cases hbind
  | some kind =>
    rw [hkind] at hbind
    cases hbind
    refine .of_next_eq rfl rfl fun limit => bind_eq_ok.mpr ⟨_, ?_, rfl⟩
    rw [bindAlias, container?_withLimit, hkind]
    rfl

theorem elastic_storeRegister (name : String) (info : VarInfo) :
    Elastic (·.storeRegister name info) := by
  intro scopes register scopes' h
  have hdepth : (scopes.dropAlias name).2.depth = scopes.depth :=
    depth_eq_of_forall₂ (forall₂_dropAlias (fun _ => trivial) fun _ => trivial)
  have hnext := next_dropAlias scopes name
  rcases storeRegister_eq_ok h with ⟨hrebinds, hbind⟩ | ⟨hrebinds, hregister, rfl⟩
  · have hsame : ∀ limit, (scopes.withLimit limit).storeRegister name info =
        ((scopes.dropAlias name).2.withLimit limit).bind name info := fun limit => by
      rw [storeRegister_eq, dropAlias_withLimit, rebinds_withLimit, if_pos hrebinds]
    have hstretches := elastic_bind name info _ register scopes' hbind
    refine ⟨hstretches.depth.trans hdepth, hnext ▸ hstretches.grows, fun limit hle => ?_,
      fun limit hle hlt => ?_⟩
    · exact (hsame limit).trans (hstretches.enough limit hle)
    · exact (hsame limit).trans (hstretches.short limit (hnext ▸ hle) hlt)
  · refine .of_next_eq ((depth_modifyHome ..).trans hdepth) ((next_modifyHome ..).trans hnext)
      fun limit => ?_
    rw [storeRegister_eq, dropAlias_withLimit, rebinds_withLimit, hrebinds, getRegister_withLimit,
      hregister, restamp, modifyHome_withLimit]
    rfl

end

end Scopes

/-! ### Actions -/

/-- The state with another number of registers. -/
def Emitter.withLimit (s : Emitter) (limit : Nat) : Emitter :=
  { s with scopes := s.scopes.withLimit limit }

namespace Emit

variable {α β : Type} {m : Emit α} {s s' : Emitter} {a : α}

/-- For a run of an action, the number of registers decides only whether it succeeds: it does with
every number that is not below the counter at its end, and with fewer it runs out of registers. -/
structure Stretches (m : Emit α) (s : Emitter) (a : α) (s' : Emitter) : Prop where
  grows : s.scopes.next ≤ s'.scopes.next
  enough : ∀ limit, s'.scopes.next ≤ limit → m.run (s.withLimit limit) = .ok (a, s'.withLimit limit)
  short : ∀ limit, s.scopes.next ≤ limit → limit < s'.scopes.next →
    ∃ start, m.run (s.withLimit limit) = .error ⟨.scope (.registersExhausted limit), start⟩

/-- An action for which the number of registers decides only whether it succeeds. -/
def Elastic (m : Emit α) : Prop :=
  ∀ s a s', m.run s = .ok (a, s') → Stretches m s a s'

/-- A run without a new register is the same for every number of registers. -/
theorem Stretches.of_next_eq (hnext : s'.scopes.next = s.scopes.next)
    (hsame : ∀ limit, m.run (s.withLimit limit) = .ok (a, s'.withLimit limit)) :
    Stretches m s a s' where
  grows := Nat.le_of_eq hnext.symm
  enough limit _ := hsame limit
  short limit hle hlt := absurd hle (by omega)

namespace Elastic

theorem pure (a : α) : Elastic (pure a : Emit α) := by
  intro s b s' h
  cases h
  exact .of_next_eq rfl fun limit => rfl

theorem fail {fault : Fault} {start : Position} : Elastic (Emit.fail fault start : Emit α) := by
  intro s a s' h
  cases h

/-- Two actions in a row, where the second is elastic for every value that the first can give. -/
theorem bind_of {f : α → Emit β} (hm : Elastic m)
    (hf : ∀ s a s', m.run s = .ok (a, s') → Elastic (f a)) : Elastic (m >>= f) := by
  intro s b s' h
  obtain ⟨a, s₁, h₁, h₂⟩ := run_bind.mp h
  have hfirst := hm s a s₁ h₁
  have hsecond := hf s a s₁ h₁ s₁ b s' h₂
  refine ⟨Nat.le_trans hfirst.grows hsecond.grows, fun limit hle => ?_, fun limit hle hlt => ?_⟩
  · rw [run_bind_of_ok (hfirst.enough limit (Nat.le_trans hsecond.grows hle))]
    exact hsecond.enough limit hle
  · -- the registers run out in the first action or in the second
    rcases Nat.lt_or_ge limit s₁.scopes.next with hshort | henough
    · obtain ⟨start, herror⟩ := hfirst.short limit hle hshort
      exact ⟨start, run_bind_error.mpr (Or.inl herror)⟩
    · rw [run_bind_of_ok (hfirst.enough limit henough)]
      exact hsecond.short limit henough hlt

/-- An action that looks at the state, but not at the number of registers. -/
theorem get_bind {f : Emitter → Emit α} (hlimit : ∀ s limit, f (s.withLimit limit) = f s)
    (hf : ∀ s, Elastic (f s)) : Elastic (get >>= f) := by
  intro s a s' h
  obtain ⟨hgrows, henough, hshort⟩ := hf s s a s' h
  refine ⟨hgrows, fun limit hle => ?_, fun limit hle hlt => ?_⟩
  · rw [run_get_bind, hlimit]
    exact henough limit hle
  · rw [run_get_bind, hlimit]
    exact hshort limit hle hlt

/-- A change that hands out no register and does not look at their number. -/
theorem modify {f : Emitter → Emitter} (hnext : ∀ s, (f s).scopes.next = s.scopes.next)
    (hlimit : ∀ s limit, f (s.withLimit limit) = (f s).withLimit limit) :
    Elastic (modify f : Emit Unit) := by
  intro s a s' h
  cases h
  refine .of_next_eq (hnext s) fun limit => ?_
  rw [run_modify, hlimit]

theorem withScopes {step : Scopes → Except ScopeError (α × Scopes)} {start : Position}
    (hstep : Scopes.Elastic step) : Elastic (Emit.withScopes step start) := by
  intro s a s' h
  obtain ⟨scopes, hs, rfl⟩ := run_withScopes.mp h
  have hstretches := hstep _ _ _ hs
  refine ⟨hstretches.grows, fun limit hle => ?_, fun limit hle hlt => ⟨start, ?_⟩⟩
  · exact run_withScopes.mpr ⟨_, hstretches.enough limit hle, rfl⟩
  · exact run_withScopes_error.mpr ⟨_, hstretches.short limit hle hlt, rfl⟩

theorem withJumps {step : LabelSupply → Except JumpPool (α × LabelSupply)} {start : Position} :
    Elastic (Emit.withJumps step start) := by
  intro s a s' h
  obtain ⟨jumps, hs, rfl⟩ := run_withJumps.mp h
  exact .of_next_eq rfl fun limit => run_withJumps.mpr ⟨jumps, hs, rfl⟩

end Elastic

end Emit

end Keystroke
