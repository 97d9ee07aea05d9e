import Keystroke.Proofs.ScalarScopes

/-!
# Sound scopes

A container needs a name on the calculator, but nothing in a scope ties the record of a container to
a named register: a scope could hold a mark without a binding, or a mark on a variable that has
since been given a number. The compiler never gets there, because of the order in which it drops
aliases, looks names up and binds them.
-/

namespace Keystroke

open NameMap

/-- A register is the named variable of one of some source names. -/
def Register.IsVariable (known : String → Prop) (register : Register) : Prop :=
  ∃ name, known name ∧ register = .named (variableName name)

/-- A variable keeps at most as many characters as the calculator allows, and at least one. -/
theorem length_variableName {name : String} (h : name ≠ "") :
    1 ≤ (variableName name).length ∧ (variableName name).length ≤ maxNameLength := by
  have hchars : 0 < name.toList.length := by
    refine List.length_pos_iff.mpr fun hnil => h ?_
    rw [← String.ofList_toList (s := name), hnil]
  have hmax : 0 < maxNameLength := by decide
  simp only [variableName, String.length_ofList, List.length_drop]
  omega

/-! ### One scope -/

namespace Scope

/-- A scope records a name as a container of its own, and not as an alias. -/
def Marks (scope : Scope) (name : String) : Prop :=
  scope.lists.get? name = some none ∨ scope.dicts.get? name = some none ∨
    scope.matrices.get? name = some ()

/-- What a scope says about a name is kept, apart from how it was last stored to. -/
structure SameAt (name : String) (scope scope' : Scope) : Prop where
  bindings : scope'.bindings.get? name = scope.bindings.get? name
  lists : scope'.lists.get? name = scope.lists.get? name
  dicts : scope'.dicts.get? name = scope.dicts.get? name
  matrices : scope'.matrices.get? name = scope.matrices.get? name

/-- What a scope says about a name is kept, also whether it is the counter of a loop or takes the
elements of a container. -/
structure Untouched (name : String) (scope scope' : Scope) : Prop extends
    SameAt name scope scope' where
  rangeIndices : scope'.rangeIndices.get? name = scope.rangeIndices.get? name
  elements : scope'.elements.get? name = scope.elements.get? name

/-- A name is sound in a scope: it is bound to a number or to its own variable, it may be bound at
all, and it has its own variable when it is a container. -/
structure SoundAt (known : String → Prop) (scope : Scope) (name : String) : Prop where
  own : ∀ other, scope.bindings.get? name = some (.named other) → other = variableName name
  known : scope.binds name = true → known name
  marked : scope.Marks name → ∃ other, scope.bindings.get? name = some (.named other)

def Sound (known : String → Prop) (scope : Scope) : Prop :=
  ∀ name, scope.SoundAt known name

variable {known : String → Prop} {scope scope' : Scope} {name other : String} {register : Register}
  {info : VarInfo}

theorem binds_eq_true : scope.binds name = true ↔ ∃ register, scope.bindings.get? name = some
  register :=
  Option.isSome_iff_exists

theorem binds_eq_false : scope.binds name = false ↔ scope.bindings.get? name = none :=
  Option.isSome_eq_false_iff.trans Option.isNone_iff_eq_none

namespace SameAt

theorem refl (name : String) (scope : Scope) : SameAt name scope scope :=
  ⟨rfl, rfl, rfl, rfl⟩

theorem trans {scope'' : Scope} (h : SameAt name scope scope') (h' : SameAt name scope' scope'') :
    SameAt name scope scope'' where
  bindings := h'.bindings.trans h.bindings
  lists := h'.lists.trans h.lists
  dicts := h'.dicts.trans h.dicts
  matrices := h'.matrices.trans h.matrices

theorem binds (h : SameAt name scope scope') : scope'.binds name = scope.binds name := by
  rw [Scope.binds, Scope.binds, contains, contains, h.bindings]

theorem soundAt (h : SameAt name scope scope') (hsound : scope.SoundAt known name) :
    scope'.SoundAt known name where
  own := by
    rw [h.bindings]
    exact hsound.own
  known := by
    rw [h.binds]
    exact hsound.known
  marked := by
    rw [Marks, h.lists, h.dicts, h.matrices, h.bindings]
    exact hsound.marked

end SameAt

/-- Only the counters and the elements of loops remember how a variable was stored to. -/
theorem sameAt_stamp (scope : Scope) (name other : String) (info : VarInfo) :
    SameAt other scope (scope.stamp name info) :=
  ⟨rfl, rfl, rfl, rfl⟩

theorem Untouched.refl (name : String) (scope : Scope) : Untouched name scope scope :=
  ⟨.refl name scope, rfl, rfl⟩

theorem Untouched.trans {scope'' : Scope} (h : Untouched name scope scope')
    (h' : Untouched name scope' scope'') : Untouched name scope scope'' :=
  ⟨h.toSameAt.trans h'.toSameAt, h'.rangeIndices.trans h.rangeIndices, h'.elements.trans h.elements⟩

theorem untouched_stamp (h : other ≠ name) (info : VarInfo) :
    Untouched other scope (scope.stamp name info) := by
  refine ⟨sameAt_stamp scope name other info, ?_, ?_⟩
  · show (if info.isRangeIndex then scope.rangeIndices.insert name () else
      scope.rangeIndices.erase name).get? other = _
    split
    · exact get?_insert_of_ne h
    · exact get?_erase_of_ne h
  · unfold stamp
    cases info.elementOf with
    | some container => exact get?_insert_of_ne h
    | none => exact get?_erase_of_ne h

theorem untouched_bind (h : other ≠ name) (register : Register) (info : VarInfo) :
    Untouched other scope (scope.bind name register info) := by
  refine ⟨⟨get?_insert_of_ne h, ?_, ?_, ?_⟩, (untouched_stamp h info).rangeIndices,
    (untouched_stamp h info).elements⟩
  · show (if info.isList then scope.lists.insert name none else scope.lists).get? other = _
    split
    · exact get?_insert_of_ne h
    · rfl
  · show (if info.isDict then scope.dicts.insert name none else scope.dicts).get? other = _
    split
    · exact get?_insert_of_ne h
    · rfl
  · show (if info.isMatrix then scope.matrices.insert name () else scope.matrices).get? other = _
    split
    · exact get?_insert_of_ne h
    · rfl

def aliasList (scope : Scope) (name target : String) : Scope :=
  { scope with lists := scope.lists.insert name (some target) }

def aliasDict (scope : Scope) (name target : String) : Scope :=
  { scope with dicts := scope.dicts.insert name (some target) }

theorem untouched_aliasList (h : other ≠ name) (target : String) :
    Untouched other scope (scope.aliasList name target) :=
  ⟨⟨rfl, get?_insert_of_ne h, rfl, rfl⟩, rfl, rfl⟩

theorem untouched_aliasDict (h : other ≠ name) (target : String) :
    Untouched other scope (scope.aliasDict name target) :=
  ⟨⟨rfl, rfl, get?_insert_of_ne h, rfl⟩, rfl, rfl⟩

theorem untouched_clearAlias (h : other ≠ name) : Untouched other scope (scope.clearAlias name) :=
  ⟨⟨rfl, get?_erase_of_ne h, get?_erase_of_ne h, rfl⟩, rfl, rfl⟩

theorem sound_empty : ({} : Scope).Sound known := fun _ => ⟨nofun, nofun, nofun⟩

namespace Sound

theorem stamp (h : scope.Sound known) : (scope.stamp name info).Sound known :=
  fun other => (sameAt_stamp scope name other info).soundAt (h other)

/-- A name may always be bound to its own variable. -/
theorem bind_named (h : scope.Sound known) (hname : known name) :
    (scope.bind name (.named (variableName name)) info).Sound known := by
  intro other
  by_cases hother : other = name
  · subst hother
    have hget : (scope.bind other (.named (variableName other)) info).bindings.get? other =
        some (.named (variableName other)) := get?_insert_self
    refine ⟨fun n hn => ?_, fun _ => hname, fun _ => ⟨_, hget⟩⟩
    rw [hget] at hn
    cases hn
    rfl
  · exact (untouched_bind hother _ info).soundAt (h other)

/-- A name may be given a number as long as it is no container, and does not become one. -/
theorem bind_numbered {n : Nat} (h : scope.Sound known) (hname : known name)
    (hmarks : ¬ scope.Marks name) (hinfo : info.isContainer = false) :
    (scope.bind name (.numbered n) info).Sound known := by
  obtain ⟨⟨hlist, hdict⟩, hmatrix⟩ : (info.isList = false ∧ info.isDict = false) ∧
      info.isMatrix = false := by
    simpa [VarInfo.isContainer] using hinfo
  intro other
  by_cases hother : other = name
  · subst hother
    have hget : (scope.bind other (.numbered n) info).bindings.get? other = some (.numbered n) :=
      get?_insert_self
    refine ⟨fun m hm => ?_, fun _ => hname, fun hmarked => (hmarks ?_).elim⟩
    · rw [hget] at hm
      cases hm
    · simpa [Marks, Scope.bind, Scope.stamp, hlist, hdict, hmatrix] using hmarked
  · exact (untouched_bind hother _ info).soundAt (h other)

theorem of_marks (h : scope.Sound known)
    (hsame : ∀ other, other ≠ name → Untouched other scope scope')
    (hbindings : scope'.bindings = scope.bindings) (hmarks : scope'.Marks name → scope.Marks name) :
    scope'.Sound known := by
  intro other
  by_cases hother : other = name
  · subst hother
    have hbinds : scope'.binds other = scope.binds other := by
      rw [Scope.binds, Scope.binds, hbindings]
    refine ⟨?_, ?_, fun hmarked => ?_⟩
    · rw [hbindings]
      exact (h other).own
    · rw [hbinds]
      exact (h other).known
    · rw [hbindings]
      exact (h other).marked (hmarks hmarked)
  · exact (hsame other hother).soundAt (h other)

theorem aliasList (h : scope.Sound known) (target : String) :
    (scope.aliasList name target).Sound known := by
  refine h.of_marks (fun _ hother => untouched_aliasList hother target) rfl ?_
  rintro (hmarks | hmarks)
  · rw [Scope.aliasList, get?_insert_self] at hmarks
    cases hmarks
  · exact Or.inr hmarks

theorem aliasDict (h : scope.Sound known) (target : String) :
    (scope.aliasDict name target).Sound known := by
  refine h.of_marks (fun _ hother => untouched_aliasDict hother target) rfl ?_
  rintro (hmarks | hmarks | hmarks)
  · exact Or.inl hmarks
  · rw [Scope.aliasDict, get?_insert_self] at hmarks
    cases hmarks
  · exact Or.inr (Or.inr hmarks)

theorem clearAlias (h : scope.Sound known) : (scope.clearAlias name).Sound known := by
  refine h.of_marks (fun _ hother => untouched_clearAlias hother) rfl ?_
  rintro (hmarks | hmarks | hmarks)
  · rw [Scope.clearAlias, get?_erase_self] at hmarks
    cases hmarks
  · rw [Scope.clearAlias, get?_erase_self] at hmarks
    cases hmarks
  · exact Or.inr (Or.inr hmarks)

end Sound

theorem SameAt.aliasAnswer? (h : SameAt name scope scope') :
    scope'.aliasAnswer? name = scope.aliasAnswer? name := by
  rw [Scope.aliasAnswer?, Scope.aliasAnswer?, Scope.aliasRecord?, Scope.aliasRecord?,
    h.lists, h.dicts, h.binds]

theorem SameAt.containerRecord? (h : SameAt name scope scope') :
    scope'.containerRecord? name = scope.containerRecord? name := by
  unfold Scope.containerRecord? Scope.binds contains
  rw [h.lists, h.dicts, h.matrices, h.bindings]

/-- A scope that binds a name answers for it, with its alias if there is one. -/
theorem aliasAnswer?_of_binds (h : scope.binds name = true) :
    scope.aliasAnswer? name = some (scope.aliasRecord? name).join := by
  unfold Scope.aliasAnswer?
  cases scope.aliasRecord? name with
  | some target => rfl
  | none => exact if_pos h

theorem join_aliasRecord?_of_isAlias (h : scope.isAlias name = false) :
    (scope.aliasRecord? name).join = none := by
  unfold isAlias at h
  unfold aliasRecord?
  rcases hlists : scope.lists.get? name with _ | (_ | target)
  · rcases hdicts : scope.dicts.get? name with _ | (_ | target)
    · rfl
    · rfl
    · simp [hdicts] at h
  · rfl
  · simp [hlists] at h

theorem marks_of_records {kind : Container} (hcontainer : scope.containerRecord? name = some (some
  kind))
    (halias : (scope.aliasAnswer? name).join = none) : scope.Marks name := by
  unfold containerRecord? at hcontainer
  unfold aliasAnswer? aliasRecord? at halias
  unfold Marks
  -- the records are looked up in this order: lists, dictionaries, matrices
  rcases hlists : scope.lists.get? name with _ | (_ | target)
  · rcases hdicts : scope.dicts.get? name with _ | (_ | target)
    · refine Or.inr (Or.inr ?_)
      cases hmatrices : scope.matrices.get? name with
      | some u => rfl
      | none =>
        simp only [contains, hlists, hdicts, hmatrices, Option.isSome_none, Bool.false_eq_true,
          if_false] at hcontainer
        split at hcontainer <;> cases hcontainer
    · exact Or.inr (Or.inl rfl)
    · simp [hlists, hdicts] at halias
  · exact Or.inl rfl
  · simp [hlists] at halias

theorem of_containerRecord?_eq_none (h : scope.containerRecord? name = none) :
    scope.bindings.get? name = none ∧ scope.aliasAnswer? name = none := by
  have hplain : scope.IsPlain name := isPlain_of_containerRecord? (by rw [h]; rfl)
  rw [hplain.containerRecord?] at h
  have hbinds : scope.binds name = false := by
    by_contra hbinds
    rw [if_pos (by simpa using hbinds)] at h
    cases h
  exact ⟨binds_eq_false.mp hbinds, by simp [aliasAnswer?, hplain.aliasRecord?, hbinds]⟩

end Scope

/-! ### All scopes -/

namespace Scopes

/-- All scopes are sound, and numbered registers are not shared. -/
structure Sound (known : String → Prop) (scopes : Scopes) : Prop where
  each : ∀ scope ∈ scopes.toList, scope.Sound known
  distinct : scopes.Distinct

/-- An operation on the scopes leaves alone what every scope says about a name. -/
def SameAt (name : String) (scopes scopes' : Scopes) : Prop :=
  List.Forall₂ (Scope.SameAt name) scopes.toList scopes'.toList

/-- The same, also of a name as the counter of a loop. -/
def Untouched (name : String) (scopes scopes' : Scopes) : Prop :=
  List.Forall₂ (Scope.Untouched name) scopes.toList scopes'.toList

variable {known : String → Prop} {scopes scopes' : Scopes} {name other target resolved : String}
  {register : Register} {info : VarInfo} {kind : Container}

theorem aliasTarget?_eq : scopes.aliasTarget? name =
    (scopes.toList.findSome? (·.aliasAnswer? name)).join :=
  rfl

theorem aliasTarget?_of_answer {answer : Option String}
    (h : scopes.innermost.aliasAnswer? name = some answer) : scopes.aliasTarget? name = answer := by
  rw [aliasTarget?_eq, toList, List.findSome?_cons, h]
  rfl

theorem aliasTarget?_of_binds (hbinds : scopes.innermost.binds name = true)
    (halias : scopes.innermost.isAlias name = false) : scopes.aliasTarget? name = none := by
  rw [aliasTarget?_of_answer (Scope.aliasAnswer?_of_binds hbinds)]
  exact Scope.join_aliasRecord?_of_isAlias halias

namespace SameAt

theorem findSome? {β : Type} {f : Scope → Option β} (h : SameAt name scopes scopes')
    (hf : ∀ {scope scope' : Scope}, Scope.SameAt name scope scope' → f scope' = f scope) :
    scopes'.toList.findSome? f = scopes.toList.findSome? f := by
  unfold SameAt at h
  generalize scopes'.toList = list' at h
  generalize scopes.toList = list at h
  induction h with
  | nil => rfl
  | cons hscope _ ih => rw [List.findSome?_cons, List.findSome?_cons, hf hscope, ih]

theorem lookup (h : SameAt name scopes scopes') : scopes'.lookup name = scopes.lookup name :=
  h.findSome? fun hscope => hscope.bindings

theorem aliasTarget? (h : SameAt name scopes scopes') :
    scopes'.aliasTarget? name = scopes.aliasTarget? name :=
  congrArg Option.join (h.findSome? fun hscope => hscope.aliasAnswer?)

end SameAt

namespace Untouched

theorem refl (name : String) (scopes : Scopes) : Untouched name scopes scopes :=
  List.forall₂_same.mpr fun scope _ => .refl name scope

theorem trans {scopes'' : Scopes} (h : Untouched name scopes scopes')
    (h' : Untouched name scopes' scopes'') : Untouched name scopes scopes'' := by
  unfold Untouched at *
  generalize scopes''.toList = list'' at *
  generalize scopes'.toList = list' at *
  generalize scopes.toList = list at *
  induction h generalizing list'' with
  | nil => exact h'
  | cons hscope _ ih =>
    cases h' with
    | cons hscope' hrest' => exact .cons (hscope.trans hscope') (ih _ hrest')

theorem sameAt (h : Untouched name scopes scopes') : SameAt name scopes scopes' :=
  h.imp fun _ _ hscope => hscope.toSameAt

end Untouched

theorem sameAt_restamp : SameAt other scopes (scopes.restamp name info) :=
  forall₂_modifyHome (Scope.SameAt.refl other) fun scope => Scope.sameAt_stamp scope name other info

theorem untouched_allocate (h : scopes.allocate = .ok (register, scopes')) :
    Untouched other scopes scopes' := by
  obtain ⟨-, -, rfl⟩ := allocate_eq_ok.mp h
  exact .refl other scopes

theorem untouched_bind (hother : other ≠ name)
    (h : scopes.bind name info = .ok (register, scopes')) : Untouched other scopes scopes' := by
  rcases bind_inv h with ⟨-, rfl⟩ | ⟨-, -, rfl, rfl⟩
  · exact forall₂_modifyHome (Scope.Untouched.refl other) fun _ =>
      Scope.untouched_bind hother register info
  · exact .cons (Scope.untouched_bind hother _ info)
      (List.forall₂_same.mpr fun scope _ => .refl other scope)

theorem bindAlias_eq_ok (h : scopes.bindAlias name target = .ok scopes') :
    scopes' = { scopes with innermost := scopes.innermost.aliasList name target } ∨
      scopes' = { scopes with innermost := scopes.innermost.aliasDict name target } := by
  unfold Scopes.bindAlias at h
  split at h
  · cases h
  · rename_i kind _
    cases h
    cases kind with
    | list => exact Or.inl rfl
    | dict => exact Or.inr rfl
    | matrix => exact Or.inl rfl

theorem untouched_bindAlias (hother : other ≠ name)
    (h : scopes.bindAlias name target = .ok scopes') : Untouched other scopes scopes' := by
  have hsame : List.Forall₂ (Scope.Untouched other) scopes.outer scopes.outer :=
    List.forall₂_same.mpr fun scope _ => .refl other scope
  rcases bindAlias_eq_ok h with rfl | rfl
  · exact .cons (Scope.untouched_aliasList hother target) hsame
  · exact .cons (Scope.untouched_aliasDict hother target) hsame

theorem untouched_storeRegister (hother : other ≠ name)
    (h : scopes.storeRegister name info = .ok (register, scopes')) :
    Untouched other scopes scopes' := by
  have hdrop : Untouched other scopes (scopes.dropAlias name).2 :=
    forall₂_dropAlias (Scope.Untouched.refl other) fun _ => Scope.untouched_clearAlias hother
  rcases storeRegister_eq_ok h with ⟨-, hbind⟩ | ⟨-, -, rfl⟩
  · exact hdrop.trans (untouched_bind hother hbind)
  · exact hdrop.trans (forall₂_modifyHome (Scope.Untouched.refl other) fun _ =>
      Scope.untouched_stamp hother info)

/-! ### What sound scopes say -/

/-- In sound scopes, a name that is known as a container and is no alias is bound to a variable with
a name. The nearest scope with a record of the container is also the nearest that binds it. -/
theorem isNamed_of_records {list : List Scope} (hsound : ∀ scope ∈ list, scope.Sound known)
    (hcontainer : (list.findSome? (·.containerRecord? name)).join = some kind)
    (halias : (list.findSome? (·.aliasAnswer? name)).join = none)
    (hlookup : list.findSome? (·.bindings.get? name) = some register) :
    register.isNamed = true := by
  induction list with
  | nil => cases hlookup
  | cons scope rest ih =>
    rw [List.findSome?_cons] at hcontainer halias hlookup
    cases hrecord : scope.containerRecord? name with
    | none =>
      -- a scope without a record does not bind the name either: all three searches go on behind it
      obtain ⟨hbinding, hanswer⟩ := Scope.of_containerRecord?_eq_none hrecord
      rw [hrecord] at hcontainer
      rw [hanswer] at halias
      rw [hbinding] at hlookup
      exact ih (fun s hs => hsound s (List.mem_cons_of_mem scope hs)) hcontainer halias hlookup
    | some record =>
      -- here the container is known, so it is marked and bound here too
      rw [hrecord] at hcontainer
      obtain rfl : record = some kind := hcontainer
      have hanswer : (scope.aliasAnswer? name).join = none := by
        cases h : scope.aliasAnswer? name with
        | none => rfl
        | some answer => rwa [h] at halias
      obtain ⟨n, hn⟩ := (hsound scope List.mem_cons_self name).marked
        (Scope.marks_of_records hrecord hanswer)
      rw [hn] at hlookup
      cases hlookup
      rfl

theorem followAliases_no_alias {depth : Nat} (h : scopes.followAliases depth name = some resolved) :
    scopes.aliasTarget? resolved = none := by
  induction depth generalizing name with
  | zero => cases h
  | succ depth ih =>
    rw [followAliases] at h
    split at h
    · exact ih h
    · rename_i halias
      cases h
      exact halias

theorem resolve_no_alias (h : scopes.resolve name = .ok resolved) :
    scopes.aliasTarget? resolved = none := by
  unfold resolve at h
  split at h
  · rename_i hfollow
    cases h
    exact followAliases_no_alias hfollow
  · cases h

theorem getRegister_of_no_alias (h : scopes.aliasTarget? name = none) :
    scopes.getRegister name = .ok register ↔ scopes.lookup name = some register := by
  rw [getRegister_eq_ok, resolve_of_aliasTarget? h]
  constructor
  · rintro ⟨resolved, hresolved, hlookup⟩
    cases hresolved
    exact hlookup
  · exact fun hlookup => ⟨name, rfl, hlookup⟩

namespace Sound

theorem ofLimit (limit : Nat) : (Scopes.ofLimit limit).Sound known where
  each scope hscope := by
    obtain rfl : scope = {} := List.mem_singleton.mp hscope
    exact Scope.sound_empty
  distinct := distinct_ofLimit limit

section

variable (h : scopes.Sound known)

include h

theorem mono {known' : String → Prop} (hknown : ∀ name, known name → known' name) :
    scopes.Sound known' where
  each scope hscope name :=
    { own := (h.each scope hscope name).own
      known := fun hbinds => hknown name ((h.each scope hscope name).known hbinds)
      marked := (h.each scope hscope name).marked }
  distinct := h.distinct

theorem isVariable_of_lookup (hlookup : scopes.lookup name = some register)
    (hnamed : register.isNamed = true) : register.IsVariable known := by
  obtain ⟨scope, hscope, hget⟩ := List.exists_of_findSome?_eq_some hlookup
  cases register with
  | numbered n => cases hnamed
  | named other =>
    have hsound := h.each scope hscope name
    exact ⟨name, hsound.known (Scope.binds_eq_true.mpr ⟨_, hget⟩),
      congrArg Register.named (hsound.own other hget)⟩

theorem isVariable_of_getRegister (hregister : scopes.getRegister name = .ok register)
    (hnamed : register.isNamed = true) :
    register.IsVariable known := by
  obtain ⟨resolved, -, hlookup⟩ := getRegister_eq_ok.mp hregister
  exact h.isVariable_of_lookup hlookup hnamed

theorem isVariable_of_container (hkind : scopes.container? name = some kind)
    (hregister : scopes.getRegister name = .ok register) : register.IsVariable known := by
  obtain ⟨resolved, hresolved, hlookup⟩ := getRegister_eq_ok.mp hregister
  rw [container?, hresolved] at hkind
  exact h.isVariable_of_lookup hlookup
    (isNamed_of_records h.each hkind (resolve_no_alias hresolved) hlookup)

/-- A variable has a register that no other name is bound to, unless both names end alike. -/
theorem lookup_inj (hname : scopes.lookup name = some register)
    (hother : scopes.lookup other = some register) :
    name = other ∨ register.isNamed = true ∧ variableName name = variableName other := by
  cases register with
  | numbered n => exact Or.inl (h.distinct.lookup_inj hname hother)
  | named n =>
    obtain ⟨scope, hscope, hget⟩ := List.exists_of_findSome?_eq_some hname
    obtain ⟨scope', hscope', hget'⟩ := List.exists_of_findSome?_eq_some hother
    refine Or.inr ⟨rfl, ?_⟩
    rw [← (h.each scope hscope name).own n hget, ← (h.each scope' hscope' other).own n hget']

/-! ### What keeps scopes sound -/

theorem of_each (hreach : scopes.Reach scopes')
    (heach : ∀ scope ∈ scopes'.toList, scope.Sound known) : scopes'.Sound known :=
  ⟨heach, h.distinct.reach hreach⟩

theorem push : scopes.push.Sound known := by
  refine h.of_each (Step.push scopes).reach fun scope hscope => ?_
  rcases List.mem_cons.mp hscope with rfl | hscope
  · exact Scope.sound_empty
  · exact h.each scope hscope

theorem pop : scopes.pop.Sound known := by
  refine h.of_each (Step.pop scopes).reach fun scope hscope => h.each scope ?_
  unfold Scopes.pop at hscope
  split at hscope
  · exact hscope
  · rename_i outermost rest houter
    refine List.mem_cons_of_mem _ ?_
    rw [houter]
    exact hscope

theorem allocate (hstep : scopes.allocate = .ok (register, scopes')) :
    scopes'.Sound known := by
  refine h.of_each (Step.allocate hstep).reach ?_
  obtain ⟨-, -, rfl⟩ := allocate_eq_ok.mp hstep
  exact h.each

theorem of_forall₂ (hreach : scopes.Reach scopes')
    (hall : List.Forall₂ (fun scope scope' : Scope => scope.Sound known → scope'.Sound known)
      scopes.toList scopes'.toList) :
    scopes'.Sound known := by
  refine h.of_each hreach ?_
  have heach := h.each
  generalize scopes'.toList = list' at hall
  generalize scopes.toList = list at hall heach
  induction hall with
  | nil => exact nofun
  | @cons scope scope' rest rest' hscope _ ih =>
    rw [List.forall_mem_cons] at heach ⊢
    exact ⟨hscope heach.1, ih heach.2⟩

theorem modifyHome {f : Scope → Scope} (hreach : scopes.Reach (scopes.modifyHome name f))
    (hf : ∀ scope : Scope, scope.Sound known → (f scope).Sound known) :
    (scopes.modifyHome name f).Sound known :=
  h.of_forall₂ hreach (forall₂_modifyHome (fun _ => id) hf)

theorem restamp : (scopes.restamp name info).Sound known :=
  h.modifyHome (Step.restamp scopes name info).reach fun _ hscope => hscope.stamp

theorem bindAlias {target : String} (hstep : scopes.bindAlias name target = .ok scopes') :
    scopes'.Sound known := by
  have hsame : List.Forall₂ (fun scope scope' : Scope => scope.Sound known → scope'.Sound known)
      scopes.outer scopes.outer := List.forall₂_same.mpr fun _ _ => id
  refine h.of_forall₂ (Step.bindAlias hstep).reach ?_
  rcases bindAlias_eq_ok hstep with rfl | rfl
  · exact .cons (·.aliasList target) hsame
  · exact .cons (·.aliasDict target) hsame

theorem dropAlias : (scopes.dropAlias name).2.Sound known :=
  h.of_forall₂ (Step.dropAlias scopes name).reach
    (forall₂_dropAlias (fun _ => id) fun _ hscope => hscope.clearAlias)

end

end Sound

theorem namedRegister?_eq_some (hforced : ∀ forced, info.forcedName = some forced → forced = name)
    (h : namedRegister? name info = some register) : register = .named (variableName name) := by
  unfold namedRegister? at h
  split at h
  · rename_i forced hname
    cases h
    rw [hforced forced hname]
  · split at h
    · cases h
      rfl
    · cases h

/-- Containers are never given a number. -/
theorem isContainer_of_namedRegister? (h : namedRegister? name info = none) :
    info.isContainer = false := by
  unfold namedRegister? at h
  split at h
  · cases h
  · split at h
    · cases h
    · rename_i hcontainer
      simp only [Bool.or_eq_true, not_or, Bool.not_eq_true] at hcontainer
      exact hcontainer.2

theorem Sound.bind (h : scopes.Sound known) (hname : known name)
    (hforced : ∀ forced, info.forcedName = some forced → forced = name)
    (hmarks : namedRegister? name info = none → ¬ scopes.innermost.Marks name)
    (hstep : scopes.bind name info = .ok (register, scopes')) : scopes'.Sound known := by
  have hreach := (Step.bind hstep).reach
  rcases bind_inv hstep with ⟨hnamed, rfl⟩ | ⟨hnone, -, rfl, rfl⟩
  · obtain rfl := namedRegister?_eq_some hforced hnamed
    exact h.modifyHome hreach fun _ hscope => hscope.bind_named hname
  -- a number goes to the innermost scope, so containers further out do not matter
  · refine h.of_each hreach fun scope hscope => ?_
    rcases List.mem_cons.mp hscope with rfl | hscope
    · exact (h.each _ List.mem_cons_self).bind_numbered hname (hmarks hnone)
        (isContainer_of_namedRegister? hnone)
    · exact h.each scope (List.mem_cons_of_mem _ hscope)

theorem Sound.declare (h : scopes.Sound known) (hname : known name)
    (hinfo : info = .list ∨ info = .dict)
    (hstep : scopes.bind name info = .ok (register, scopes')) : scopes'.Sound known := by
  refine h.bind hname (fun forced hforced => ?_) (fun hnone => ?_) hstep
  · rcases hinfo with rfl | rfl <;> cases hforced
  · rw [namedRegister?_of_declared hinfo] at hnone
    cases hnone

theorem isAlias_innermost_dropAlias (scopes : Scopes) (name : String) :
    (scopes.dropAlias name).2.innermost.isAlias name = false := by
  unfold dropAlias
  split
  · rename_i innermost outer hdrop
    rw [toList, dropAliasFrom] at hdrop
    split at hdrop
    · cases hdrop
      simp [Scope.isAlias, get?_erase_self]
    · rename_i hinnermost
      split at hdrop
      · cases hdrop
      -- the alias is one of an outer scope
      · obtain ⟨rest, -, h⟩ := Option.map_eq_some_iff.mp hdrop
        cases h
        simpa using hinnermost
  · rename_i hdrop
    by_contra halias
    rw [toList, dropAliasFrom, if_pos (by simpa using halias)] at hdrop
    exact hdrop _ _ rfl

/-- A store keeps scopes sound. It binds a number only where the name is not found, and then it is
no container of the innermost scope. -/
theorem Sound.storeRegister (h : scopes.Sound known) (hname : known name)
    (hforced : ∀ forced, info.forcedName = some forced → forced = name)
    (hstep : scopes.storeRegister name info = .ok (register, scopes')) : scopes'.Sound known := by
  have hdrop : (scopes.dropAlias name).2.Sound known := h.dropAlias
  simp only [Scopes.storeRegister] at hstep
  split at hstep
  · rename_i hmatrix
    refine hdrop.bind hname hforced (fun hnone => ?_) hstep
    have hcontainer := isContainer_of_namedRegister? hnone
    simp [VarInfo.isContainer, hmatrix] at hcontainer
  · split at hstep
    · cases hstep
      exact hdrop.restamp
    · rename_i hunbound
      -- a container of the innermost scope would have been found
      refine hdrop.bind hname hforced (fun _ hmarks => ?_) hstep
      obtain ⟨other, hget⟩ := (hdrop.each _ List.mem_cons_self name).marked hmarks
      have hnone := aliasTarget?_of_binds (Scope.binds_eq_true.mpr ⟨_, hget⟩)
        (isAlias_innermost_dropAlias scopes name)
      have hlookup : (scopes.dropAlias name).2.lookup name = some (.named other) := by
        rw [lookup_eq, hget]
        rfl
      rw [(getRegister_of_no_alias hnone).mpr hlookup] at hunbound
      cases hunbound
    · cases hstep

end Scopes

end Keystroke
