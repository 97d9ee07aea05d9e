import Mathlib.Data.List.TakeWhile
import Keystroke.Proofs.SoundScopes

/-!
# Aliases beside bindings

A name can be bound in one scope and be an alias in others, and it can even be both in one scope. A
store removes one alias at most, that of the nearest scope that knows the name, and a list or
dictionary literal removes none. Whether the name then stands for what was stored depends on which
alias records are left in front of its binding, or beside it.
-/

namespace Keystroke

open Scope

/-! ### One scope -/

namespace Scope

/-- The alias that a scope still records for a name once it has bound the name as `info` says. A new
list takes the place of an alias of either kind, since lists are looked up first, a new dictionary
that of an alias of a dictionary, and nothing else removes an alias. -/
def aliasBeside? (scope : Scope) (name : String) (info : VarInfo) : Option String :=
  if info.isList then none
  else if info.isDict then (scope.lists.get? name).join
  else (scope.aliasRecord? name).join

variable {known : String → Prop} {scope : Scope} {name : String} {info : VarInfo}

theorem binds_bind (scope : Scope) (name : String) (register : Register) (info : VarInfo) :
    (scope.bind name register info).binds name = true :=
  binds_eq_true.mpr ⟨register, NameMap.get?_insert_self⟩

theorem join_aliasAnswer? : (scope.aliasAnswer? name).join = (scope.aliasRecord? name).join := by
  unfold aliasAnswer?
  cases scope.aliasRecord? name with
  | some target => rfl
  | none =>
    show (if scope.binds name then some none else none).join = none
    split <;> rfl

theorem join_aliasAnswer?_bind (register : Register) :
    ((scope.bind name register info).aliasAnswer? name).join = scope.aliasBeside? name info := by
  rw [join_aliasAnswer?]
  unfold aliasBeside? aliasRecord?
  cases hlist : info.isList with
  | true => simp [bind, hlist]
  | false =>
    cases hdict : info.isDict with
    | true =>
      simp only [bind, stamp, hlist, hdict, Bool.false_eq_true, if_false, if_true,
        NameMap.get?_insert_self]
      cases scope.lists.get? name <;> rfl
    | false => simp [bind, stamp, hlist, hdict]

/-- An alias that is left beside a new binding was on record before. -/
theorem join_aliasRecord?_of_aliasBeside? {target : String}
    (h : scope.aliasBeside? name info = some target) :
    (scope.aliasRecord? name).join = some target := by
  unfold aliasBeside? at h
  split at h
  · cases h
  · split at h
    · rcases hlists : scope.lists.get? name with _ | found
      · rw [hlists] at h
        cases h
      · rw [hlists] at h
        rw [aliasRecord?, hlists]
        exact h
    · exact h

theorem aliasBeside?_of_no_alias (h : (scope.aliasRecord? name).join = none) :
    scope.aliasBeside? name info = none := by
  cases hbeside : scope.aliasBeside? name info with
  | none => rfl
  | some target =>
    rw [join_aliasRecord?_of_aliasBeside? hbeside] at h
    cases h

theorem Sound.not_marks (h : scope.Sound known) (hbinds : scope.binds name = false) :
    ¬ scope.Marks name := by
  intro hmarks
  obtain ⟨other, hget⟩ := (h name).marked hmarks
  rw [binds_eq_false.mp hbinds] at hget
  cases hget

theorem Sound.aliasAnswer?_of_unbound (h : scope.Sound known) (hbinds : scope.binds name = false) :
    (scope.isAlias name = true ∧ ∃ target, scope.aliasAnswer? name = some (some target)) ∨
      (scope.isAlias name = false ∧ scope.aliasAnswer? name = none) := by
  have hmarks := h.not_marks hbinds
  simp only [Marks, not_or] at hmarks
  unfold isAlias aliasAnswer? aliasRecord?
  rcases hlists : scope.lists.get? name with _ | (_ | target)
  · rcases hdicts : scope.dicts.get? name with _ | (_ | target)
    · exact Or.inr ⟨rfl, by simp [hbinds]⟩
    · exact (hmarks.2.1 hdicts).elim
    · exact Or.inl ⟨rfl, target, rfl⟩
  · exact (hmarks.1 hlists).elim
  · exact Or.inl ⟨rfl, target, rfl⟩

end Scope

/-! ### Where a named variable is bound -/

namespace Scopes

def front (scopes : Scopes) (name : String) : List Scope :=
  if (scopes.home? name).isSome then scopes.toList.takeWhile (!·.binds name) else []

/-- The scope in which a named variable is bound: the nearest that binds its name, or the
innermost. -/
def seat (scopes : Scopes) (name : String) : Scope :=
  (scopes.home? name).getD scopes.innermost

/-- No alias of a name stands in front of the variable that it is bound to as `info` says, or beside
it. -/
def bindsOpenly (scopes : Scopes) (name : String) (info : VarInfo) : Bool :=
  (scopes.front name).all (!·.isAlias name) && ((scopes.seat name).aliasBeside? name info).isNone

variable {known : String → Prop} {scopes scopes' : Scopes} {name other : String}
  {register : Register} {info : VarInfo}

/-- A change to the first scope with a property leaves those in front of it and behind it alone. -/
theorem modifyFirst?_cases (p : Scope → Bool) (list : List Scope) :
    (list.find? p = none ∧ ∀ f, modifyFirst? p f list = none) ∨ ∃ scope after,
      list.find? p = some scope ∧ list = list.takeWhile (!p ·) ++ scope :: after ∧
      ∀ f, modifyFirst? p f list = some (list.takeWhile (!p ·) ++ f scope :: after) := by
  induction list with
  | nil => exact Or.inl ⟨rfl, fun _ => rfl⟩
  | cons scope rest ih =>
    by_cases hp : p scope = true
    · exact Or.inr ⟨scope, rest, by simp [hp], by simp [hp], fun f => by simp [modifyFirst?, hp]⟩
    · have hwhile : (scope :: rest).takeWhile (!p ·) = scope :: rest.takeWhile (!p ·) := by
        simp [hp]
      rcases ih with ⟨hfind, hmodify⟩ | ⟨found, after, hfind, hsplit, hmodify⟩
      · exact Or.inl ⟨by simp [hp, hfind], fun f => by simp [modifyFirst?, hp, hmodify]⟩
      · refine Or.inr ⟨found, after, by simp [hp, hfind], ?_, fun f => ?_⟩
        · rw [hwhile, List.cons_append, ← hsplit]
        · rw [hwhile, modifyFirst?, if_neg hp, hmodify]
          rfl

/-- The stack of scopes around the seat of a name. A named variable changes the seat and nothing
else. -/
theorem exists_split (scopes : Scopes) (name : String) : ∃ after,
    scopes.toList = scopes.front name ++ scopes.seat name :: after ∧
    (∀ scope ∈ scopes.front name, scope.binds name = false) ∧
    ∀ f, (scopes.modifyHome name f).toList =
      scopes.front name ++ f (scopes.seat name) :: after := by
  have hfront : ∀ scope ∈ scopes.front name, scope.binds name = false := by
    intro scope hscope
    unfold front at hscope
    split at hscope
    · simpa using List.mem_takeWhile_imp hscope
    · cases hscope
  -- the innermost scope is tried apart from the others
  by_cases hinnermost : scopes.innermost.binds name = true
  · have hhome : scopes.home? name = some scopes.innermost := by simp [home?, toList, hinnermost]
    have hnone : scopes.front name = [] := by simp [front, hhome, toList, hinnermost]
    refine ⟨scopes.outer, ?_, hfront, fun f => ?_⟩
    · rw [hnone, seat, hhome]
      rfl
    · rw [hnone, seat, hhome, modifyHome, if_pos hinnermost]
      rfl
  · have hhome : scopes.home? name = scopes.outer.find? (·.binds name) := by
      simp [home?, toList, hinnermost]
    rcases modifyFirst?_cases (·.binds name) scopes.outer with
      ⟨hfind, hmodify⟩ | ⟨scope, after, hfind, hsplit, hmodify⟩
    · -- no scope binds the name, so it is bound in the innermost one
      have hnone : scopes.front name = [] := by simp [front, hhome, hfind]
      refine ⟨scopes.outer, ?_, hfront, fun f => ?_⟩
      · rw [hnone, seat, hhome, hfind]
        rfl
      · rw [hnone, seat, hhome, hfind, modifyHome, if_neg hinnermost, hmodify f]
        rfl
    · have hsome : scopes.front name =
          scopes.innermost :: scopes.outer.takeWhile (!·.binds name) := by
        simp [front, hhome, hfind, toList, hinnermost]
      refine ⟨after, ?_, hfront, fun f => ?_⟩
      · rw [hsome, seat, hhome, hfind, List.cons_append]
        exact congrArg (scopes.innermost :: ·) hsplit
      · rw [hsome, seat, hhome, hfind, modifyHome, if_neg hinnermost, hmodify f]
        rfl

theorem sound_front (h : scopes.Sound known) : ∀ scope ∈ scopes.front name, scope.Sound known := by
  intro scope hscope
  obtain ⟨after, hlist, -, -⟩ := scopes.exists_split name
  refine h.each scope ?_
  rw [hlist]
  exact List.mem_append_left _ hscope

theorem lookup_modifyHome_bind (scopes : Scopes) (name : String) (register : Register)
    (info : VarInfo) :
    (scopes.modifyHome name (·.bind name register info)).lookup name = some register := by
  obtain ⟨after, -, hfront, hmodify⟩ := scopes.exists_split name
  have hskip : (scopes.front name).findSome? (·.bindings.get? name) = none := by
    refine List.findSome?_eq_none_iff.mpr fun scope hscope => ?_
    exact binds_eq_false.mp (hfront scope hscope)
  rw [lookup, hmodify, List.findSome?_append, hskip, Option.none_or, List.findSome?_cons]
  have hget : ((scopes.seat name).bind name register info).bindings.get? name = some register :=
    NameMap.get?_insert_self
  rw [hget]

theorem lookup_bind (h : scopes.bind name info = .ok (register, scopes')) :
    scopes'.lookup name = some register := by
  rcases bind_inv h with ⟨-, rfl⟩ | ⟨-, -, rfl, rfl⟩
  · exact lookup_modifyHome_bind scopes name register info
  · have hget : (scopes.innermost.bind name (.numbered scopes.next) info).bindings.get? name =
        some (.numbered scopes.next) := NameMap.get?_insert_self
    rw [lookup_eq, hget]
    rfl

theorem join_findSome?_append {before rest : List Scope}
    (hsound : ∀ scope ∈ before, scope.Sound known)
    (hunbound : ∀ scope ∈ before, scope.binds name = false) :
    ((before ++ rest).findSome? (·.aliasAnswer? name)).join = none ↔
      before.all (!·.isAlias name) = true ∧ (rest.findSome? (·.aliasAnswer? name)).join = none := by
  induction before with
  | nil => simp
  | cons scope before ih =>
    rw [List.forall_mem_cons] at hsound hunbound
    rw [List.cons_append, List.findSome?_cons, List.all_cons]
    rcases hsound.1.aliasAnswer?_of_unbound hunbound.1 with
      ⟨halias, target, hanswer⟩ | ⟨halias, hanswer⟩
    · simp [halias, hanswer]
    · rw [hanswer, halias]
      simpa using ih hsound.2 hunbound.2

/-- A name that has been bound to a named variable is no alias exactly if it was bound openly. -/
theorem aliasTarget?_modifyHome_bind (h : scopes.Sound known) (register : Register) :
    (scopes.modifyHome name (·.bind name register info)).aliasTarget? name = none ↔
      scopes.bindsOpenly name info = true := by
  obtain ⟨after, -, hfront, hmodify⟩ := scopes.exists_split name
  rw [aliasTarget?_eq, hmodify, join_findSome?_append (sound_front h) hfront, List.findSome?_cons,
    bindsOpenly, Bool.and_eq_true, Option.isNone_iff_eq_none,
    ← join_aliasAnswer?_bind register]
  rw [aliasAnswer?_of_binds (binds_bind (scopes.seat name) name register info)]

/-- A name that has been bound behind an alias stands for the same name as before. -/
theorem aliasTarget?_modifyHome_bind_hidden (h : scopes.Sound known) (register : Register)
    (hopen : scopes.bindsOpenly name info = false) :
    (scopes.modifyHome name (·.bind name register info)).aliasTarget? name =
      scopes.aliasTarget? name := by
  obtain ⟨after, hlist, hfront, hmodify⟩ := scopes.exists_split name
  rw [aliasTarget?_eq, aliasTarget?_eq, hmodify, hlist, List.findSome?_append,
    List.findSome?_append]
  cases hfirst : (scopes.front name).findSome? (·.aliasAnswer? name) with
  | some answer => rfl
  | none =>
    -- nothing is in front, so the alias is beside the binding
    have hclear : (scopes.front name).all (!·.isAlias name) = true := by
      have hnone : ((scopes.front name ++ ([] : List Scope)).findSome? (·.aliasAnswer? name)).join =
          none := by
        rw [List.append_nil, hfirst]
        rfl
      exact ((join_findSome?_append (sound_front h) hfront).mp hnone).1
    obtain ⟨target, hbeside⟩ : ∃ target, (scopes.seat name).aliasBeside? name info =
        some target := by
      rw [bindsOpenly, hclear, Bool.true_and] at hopen
      exact Option.isSome_iff_exists.mp (by simpa using hopen)
    have hafter : ((scopes.seat name).bind name register info).aliasAnswer? name =
        some (some target) := by
      rw [← join_aliasAnswer?_bind register] at hbeside
      exact Option.join_eq_some_iff.mp hbeside
    have hbefore : (scopes.seat name).aliasAnswer? name = some (some target) := by
      have hrecord := join_aliasRecord?_of_aliasBeside? hbeside
      rw [← join_aliasAnswer?] at hrecord
      exact Option.join_eq_some_iff.mp hrecord
    rw [List.findSome?_cons, List.findSome?_cons, hafter, hbefore]

theorem bindsOpenly_of_no_alias (h : scopes.Sound known)
    (halias : scopes.aliasTarget? name = none) : scopes.bindsOpenly name info = true := by
  obtain ⟨after, hlist, hfront, -⟩ := scopes.exists_split name
  have hsound : ∀ scope ∈ scopes.front name, scope.Sound known := sound_front h
  rw [aliasTarget?_eq, hlist, join_findSome?_append hsound hfront, List.findSome?_cons] at halias
  have hseat : ((scopes.seat name).aliasRecord? name).join = none := by
    rw [← join_aliasAnswer?]
    cases hanswer : (scopes.seat name).aliasAnswer? name with
    | none => rfl
    | some answer =>
      rw [hanswer] at halias
      exact halias.2
  rw [bindsOpenly, halias.1, aliasBeside?_of_no_alias hseat]
  rfl

/-! ### Dropping an alias -/

theorem lookup_dropAlias (scopes : Scopes) (name other : String) :
    (scopes.dropAlias name).2.lookup other = scopes.lookup other := by
  rcases dropAlias_cases scopes name with hsame | ⟨before, scope, after, hlist, hlist', -, -⟩
  · rw [hsame]
  · rw [lookup, lookup, hlist, hlist', List.findSome?_append, List.findSome?_append,
      List.findSome?_cons, List.findSome?_cons]
    rfl

/-- A name that is no alias stays none when its alias is dropped: only a record that something else
in the same scope hides can be removed. -/
theorem aliasTarget?_dropAlias (h : scopes.Sound known) (halias : scopes.aliasTarget? name = none) :
    (scopes.dropAlias name).2.aliasTarget? name = none := by
  rcases dropAlias_cases scopes name with
    hsame | ⟨before, scope, after, hlist, hlist', hisAlias, hbefore⟩
  · rw [hsame]
    exact halias
  · have hskip : before.findSome? (·.aliasAnswer? name) = none :=
      List.findSome?_eq_none_iff.mpr hbefore
    -- a name that is not bound here would be an alias
    have hbinds : scope.binds name = true := by
      by_contra hbinds
      have hscope : scope.Sound known := h.each scope (by rw [hlist]; simp)
      rcases hscope.aliasAnswer?_of_unbound (by simpa using hbinds) with
        ⟨-, target, hanswer⟩ | ⟨hnone, -⟩
      · rw [aliasTarget?_eq, hlist, List.findSome?_append, hskip, Option.none_or,
          List.findSome?_cons, hanswer] at halias
        cases halias
      · rw [hnone] at hisAlias
        cases hisAlias
    have hcleared : (scope.clearAlias name).aliasAnswer? name = some none := by
      have hbinds' : (scope.clearAlias name).binds name = true := hbinds
      rw [aliasAnswer?_of_binds hbinds']
      simp [aliasRecord?, clearAlias, NameMap.get?_erase_self]
    rw [aliasTarget?_eq, hlist', List.findSome?_append, hskip, Option.none_or, List.findSome?_cons,
      hcleared]
    rfl

/-! ### Stores -/

/-- Whether a name that has been bound is what a read of the name finds. -/
def bindsInView (scopes : Scopes) (name : String) (info : VarInfo) : Bool :=
  (namedRegister? name info).isNone || scopes.bindsOpenly name info

theorem container?_of_no_alias (halias : scopes.aliasTarget? name = none) :
    scopes.container? name = (scopes.toList.findSome? (·.containerRecord? name)).join := by
  rw [container?, resolve_of_aliasTarget? halias]

theorem resolve_congr (halias : ∀ name, scopes'.aliasTarget? name = scopes.aliasTarget? name)
    (name : String) : scopes'.resolve name = scopes.resolve name := by
  have hfollow : ∀ depth name, scopes'.followAliases depth name =
      scopes.followAliases depth name := by
    intro depth
    induction depth with
    | zero => exact fun _ => rfl
    | succ depth ih =>
      intro name
      rw [followAliases, followAliases, halias]
      split
      · exact ih _
      · rfl
  rw [resolve, resolve, hfollow]

theorem getRegister_restamp :
    (scopes.restamp name info).getRegister other = scopes.getRegister other := by
  rw [getRegister, getRegister, resolve_congr (fun _ => sameAt_restamp.aliasTarget?)]
  simp only [sameAt_restamp.lookup]

/-- A name that has been bound has the register that it was bound to. It is no alias if it was bound
in view of a read. -/
theorem bound_of_bind (h : scopes.Sound known) (halias : scopes.innermost.isAlias name = false)
    (hbind : scopes.bind name info = .ok (register, scopes')) :
    scopes'.lookup name = some register ∧
      (scopes'.aliasTarget? name = none ↔ scopes.bindsInView name info = true) := by
  refine ⟨lookup_bind hbind, ?_⟩
  rcases bind_inv hbind with ⟨hnamed, rfl⟩ | ⟨hnone, -, rfl, rfl⟩
  · rw [aliasTarget?_modifyHome_bind h, bindsInView, hnamed]
    simp
  -- a number is bound in the innermost scope, which holds no alias
  · have hbeside : scopes.innermost.aliasBeside? name info = none :=
      aliasBeside?_of_no_alias (join_aliasRecord?_of_isAlias halias)
    rw [← join_aliasAnswer?_bind (.numbered scopes.next), join_aliasAnswer?] at hbeside
    simp only [bindsInView, hnone, Option.isNone_none, Bool.true_or, iff_true]
    rw [aliasTarget?_of_answer (aliasAnswer?_of_binds (binds_bind scopes.innermost name _ info))]
    exact hbeside

/-- Whether a store gives a name a register of its own, once the nearest alias of the name has been
dropped. -/
def storesOwn (scopes : Scopes) (name : String) (info : VarInfo) : Bool :=
  if scopes.rebinds name info then scopes.bindsInView name info
  else (scopes.aliasTarget? name).isNone

/-- Whether a read finds what has been stored, once the nearest alias of the name has been dropped.
A store to the register that the name stands for is always found, also that of an alias. -/
def storesInView (scopes : Scopes) (name : String) (info : VarInfo) : Bool :=
  !scopes.rebinds name info || scopes.bindsInView name info

/-- A store leaves the name as a variable of its own, with the register that was stored to, exactly
if `storesOwn` says so. Otherwise the name is still an alias. -/
theorem owned_storeRegister_iff (h : scopes.Sound known)
    (hstore : scopes.storeRegister name info = .ok (register, scopes')) :
    (scopes'.aliasTarget? name = none ↔ (scopes.dropAlias name).2.storesOwn name info = true) ∧
      (scopes'.aliasTarget? name = none → scopes'.lookup name = some register) := by
  have hdrop : (scopes.dropAlias name).2.Sound known := h.dropAlias
  rcases storeRegister_eq_ok hstore with ⟨hrebinds, hbind⟩ | ⟨hrebinds, hregister, rfl⟩
  · obtain ⟨hlookup, halias⟩ := bound_of_bind hdrop (isAlias_innermost_dropAlias scopes name) hbind
    exact ⟨by rw [halias, storesOwn, if_pos hrebinds], fun _ => hlookup⟩
  · rw [sameAt_restamp.aliasTarget?, sameAt_restamp.lookup]
    refine ⟨?_, fun halias => (getRegister_of_no_alias halias).mp hregister⟩
    rw [storesOwn, if_neg (by simp [hrebinds]), Option.isNone_iff_eq_none]

theorem storesOwn_of_no_alias (h : scopes.Sound known) (halias : scopes.aliasTarget? name = none) :
    scopes.storesOwn name info = true := by
  unfold storesOwn bindsInView
  rw [bindsOpenly_of_no_alias h halias, halias]
  simp

theorem resolve_ne_of_alias {resolved : String} (halias : scopes.aliasTarget? name ≠ none)
    (h : scopes.resolve name = .ok resolved) : resolved ≠ name := by
  rintro rfl
  exact halias (resolve_no_alias h)

/-- What a name stands for does not change when it is bound behind an alias. -/
theorem resolve_bind_hidden (h : scopes.Sound known)
    (hbind : scopes.bind name info = .ok (register, scopes'))
    (hview : scopes.bindsInView name info = false) :
    scopes'.resolve name = scopes.resolve name ∧
      ∀ resolved, scopes.resolve name = .ok resolved → SameAt resolved scopes scopes' := by
  rw [bindsInView, Bool.or_eq_false_iff] at hview
  have hname : scopes.aliasTarget? name ≠ none := by
    intro hnone
    rw [bindsOpenly_of_no_alias h hnone] at hview
    cases hview.2
  refine ⟨resolve_congr (fun other => ?_) name, fun resolved hresolved => ?_⟩
  · by_cases hother : other = name
    · subst hother
      rcases bind_inv hbind with ⟨-, rfl⟩ | ⟨hnone, -⟩
      · exact aliasTarget?_modifyHome_bind_hidden h register hview.2
      · simp [hnone] at hview
    · exact (untouched_bind hother hbind).sameAt.aliasTarget?
  · exact (untouched_bind (resolve_ne_of_alias hname hresolved) hbind).sameAt

theorem getRegister_bind_hidden (h : scopes.Sound known)
    (hbind : scopes.bind name info = .ok (register, scopes'))
    (hview : scopes.bindsInView name info = false) :
    scopes'.getRegister name = scopes.getRegister name := by
  obtain ⟨hresolve, hsame⟩ := resolve_bind_hidden h hbind hview
  rw [getRegister, getRegister, hresolve]
  cases hresolved : scopes.resolve name with
  | error e => rfl
  | ok resolved => simp only [Bind.bind, Except.bind, (hsame resolved hresolved).lookup]

/-- The next read finds the register that was stored to if `storesInView` says so. -/
theorem getRegister_of_storesInView (h : scopes.Sound known)
    (hstore : scopes.storeRegister name info = .ok (register, scopes'))
    (hview : (scopes.dropAlias name).2.storesInView name info = true) :
    scopes'.getRegister name = .ok register := by
  rcases storeRegister_eq_ok hstore with ⟨hrebinds, hbind⟩ | ⟨-, hregister, rfl⟩
  · obtain ⟨hlookup, halias⟩ :=
      bound_of_bind h.dropAlias (isAlias_innermost_dropAlias scopes name) hbind
    rw [storesInView, hrebinds] at hview
    exact (getRegister_of_no_alias (halias.mpr (by simpa using hview))).mpr hlookup
  · rw [getRegister_restamp]
    exact hregister

/-- A name is an alias of another one that it cannot be told from on the calculator. -/
def Collides (scopes : Scopes) (name : String) : Prop :=
  ∃ other, other ≠ name ∧ scopes.resolve name = .ok other ∧ variableName other = variableName name

/-- An alias that is bound too, and has the register to which it is bound, collides with the name
that it stands for. -/
theorem Sound.collides (h : scopes.Sound known) (halias : scopes.aliasTarget? name ≠ none)
    (hlookup : scopes.lookup name = some register)
    (hregister : scopes.getRegister name = .ok register) : scopes.Collides name := by
  obtain ⟨resolved, hresolved, hother⟩ := getRegister_eq_ok.mp hregister
  have hne : resolved ≠ name := resolve_ne_of_alias halias hresolved
  rcases h.lookup_inj hother hlookup with heq | ⟨-, heq⟩
  · exact (hne heq).elim
  · exact ⟨resolved, hne, hresolved, heq⟩

/-- The next read finds nothing else than what was stored only if `storesInView` says so, or if a
matrix collides with what its name stands for. -/
theorem storesInView_of_getRegister (h : scopes.Sound known)
    (hforced : ∀ forced, info.forcedName = some forced → forced = name)
    (hstore : scopes.storeRegister name info = .ok (register, scopes'))
    (hregister : scopes'.getRegister name = .ok register) :
    (scopes.dropAlias name).2.storesInView name info = true ∨
      info.isMatrix = true ∧ scopes'.Collides name := by
  have hdrop : (scopes.dropAlias name).2.Sound known := h.dropAlias
  rcases storeRegister_eq_ok hstore with ⟨hrebinds, hbind⟩ | ⟨hrebinds, -, -⟩
  · obtain ⟨hlookup, halias⟩ := bound_of_bind hdrop (isAlias_innermost_dropAlias scopes name) hbind
    cases hview : (scopes.dropAlias name).2.bindsInView name info with
    | true => exact Or.inl (by simp [storesInView, hview])
    | false =>
      cases hmatrix : info.isMatrix with
      | true =>
        -- a matrix is bound even where its name has a register
        have hsound : scopes'.Sound fun _ => True :=
          (h.mono fun _ _ => trivial).storeRegister trivial hforced hstore
        refine Or.inr ⟨rfl, hsound.collides (fun hnone => ?_) hlookup hregister⟩
        rw [halias.mp hnone] at hview
        cases hview
      | false =>
        -- the name had no register before, and behind its alias it gets none
        have hunbound : (scopes.dropAlias name).2.isUnbound name = true := by
          simpa [rebinds, hmatrix] using hrebinds
        rw [getRegister_bind_hidden hdrop hbind hview] at hregister
        simp [isUnbound, hregister] at hunbound
  · exact Or.inl (by simp [storesInView, hrebinds])

/-! ### Variables in view -/

/-- A name is a variable of its own, with a given register. -/
structure Sees (scopes : Scopes) (name : String) (register : Register) : Prop where
  noAlias : scopes.aliasTarget? name = none
  bound : scopes.lookup name = some register

theorem Sees.getRegister (h : scopes.Sees name register) : scopes.getRegister name = .ok register :=
  (getRegister_of_no_alias h.noAlias).mpr h.bound

theorem Sees.sameAt (h : scopes.Sees name register) (hsame : scopes.SameAt name scopes') :
    scopes'.Sees name register :=
  ⟨hsame.aliasTarget?.trans h.noAlias, hsame.lookup.trans h.bound⟩

theorem Sees.getRegister_dropAlias (h : scopes.Sees name register) (hsound : scopes.Sound known) :
    (scopes.dropAlias name).2.getRegister name = .ok register := by
  rw [getRegister_of_no_alias (aliasTarget?_dropAlias hsound h.noAlias), lookup_dropAlias]
  exact h.bound

/-- A name that is no alias is a variable of its own once it has been stored to. -/
theorem sees_storeRegister (hsound : scopes.Sound known) (halias : scopes.aliasTarget? name = none)
    (hstore : scopes.storeRegister name info = .ok (register, scopes')) :
    scopes'.Sees name register := by
  obtain ⟨howned, hlookup⟩ := owned_storeRegister_iff hsound hstore
  have hown := howned.mpr
    (storesOwn_of_no_alias hsound.dropAlias (aliasTarget?_dropAlias hsound halias))
  exact ⟨hown, hlookup hown⟩

theorem Sees.storeRegister (hsound : scopes.Sound known)
    (h : scopes.Sees name (.named (variableName name)))
    (hforced : ∀ forced, info.forcedName = some forced → forced = name)
    (hstore : scopes.storeRegister name info = .ok (register, scopes')) :
    scopes'.Sees name (.named (variableName name)) := by
  have hfound := h.getRegister_dropAlias hsound
  suffices hregister : register = .named (variableName name) from
    hregister ▸ sees_storeRegister hsound h.noAlias hstore
  rcases storeRegister_eq_ok hstore with ⟨hrebinds, hbind⟩ | ⟨-, hregister, -⟩
  · rcases bind_inv hbind with ⟨hnamed, -⟩ | ⟨hnumbered, -⟩
    · exact namedRegister?_eq_some hforced hnamed
    · -- a name with a register is only bound again as a matrix, which never gets a number
      have hmatrix : info.isMatrix = true := by simpa [rebinds, isUnbound, hfound] using hrebinds
      have hcontainer := isContainer_of_namedRegister? hnumbered
      simp [VarInfo.isContainer, hmatrix] at hcontainer
  · rw [hfound] at hregister
    cases hregister
    rfl

end Scopes

end Keystroke
