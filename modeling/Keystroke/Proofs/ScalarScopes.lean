import Mathlib.Data.List.Pairwise
import Keystroke.Proofs.LabelSpecification

/-!
# Registers of scalar variables

A variable that holds a number has a numbered register, which it keeps, or gets one when it is first
assigned to. No two variables share a numbered register.
-/

namespace Keystroke

open NameMap

/-! ### Scalar variables -/

namespace Scopes

/-- A name is that of a scalar variable in a numbered register, or is not bound yet. -/
structure IsScalar (scopes : Scopes) (name : String) : Prop where
  noAlias : scopes.aliasTarget? name = none
  noContainer : scopes.container? name = none
  noCounter : scopes.isRangeIndex name = false
  numbered : ∀ register, scopes.lookup name = some register → ∃ n, register = .numbered n

end Scopes

/-- A scope does not know a name as a container. -/
structure Scope.IsPlain (scope : Scope) (name : String) : Prop where
  lists : scope.lists.get? name = none
  dicts : scope.dicts.get? name = none
  matrices : scope.matrices.get? name = none

namespace Scope

variable {scope : Scope} {name : String}

theorem IsPlain.containerRecord? (h : scope.IsPlain name) :
    scope.containerRecord? name = if scope.binds name then some none else none := by
  simp [Scope.containerRecord?, NameMap.contains, h.lists, h.dicts, h.matrices]

theorem IsPlain.aliasRecord? (h : scope.IsPlain name) : scope.aliasRecord? name = none := by
  simp [Scope.aliasRecord?, h.lists, h.dicts]

theorem IsPlain.isAlias (h : scope.IsPlain name) : scope.isAlias name = false := by
  simp [Scope.isAlias, h.lists, h.dicts]

theorem isPlain_of_containerRecord? (h : (scope.containerRecord? name).join = none) :
    scope.IsPlain name := by
  unfold Scope.containerRecord? at h
  split at h
  · cases h
  · split at h
    · cases h
    · split at h
      · cases h
      · rename_i hlists hdicts hmatrices
        exact ⟨by simpa [contains] using hlists, by simpa [contains] using hdicts,
          by simpa [contains] using hmatrices⟩

end Scope

namespace Scopes

variable {scopes : Scopes} {name : String}

theorem lookup_eq : scopes.lookup name = (scopes.innermost.bindings.get? name).or
    (scopes.outer.findSome? (·.bindings.get? name)) := by
  rw [lookup, toList, List.findSome?_cons]
  cases scopes.innermost.bindings.get? name <;> rfl

theorem resolve_of_aliasTarget? (h : scopes.aliasTarget? name = none) :
    scopes.resolve name = .ok name := by
  simp [resolve, maxAliasDepth, followAliases, h]

theorem getRegister_eq_ok {register : Register} : scopes.getRegister name = .ok register ↔
    ∃ resolved, scopes.resolve name = .ok resolved ∧ scopes.lookup resolved = some register := by
  unfold getRegister
  rw [bind_eq_ok]
  refine exists_congr fun resolved => and_congr_right fun _ => ?_
  split
  · rename_i found hfound
    simp [hfound]
  · rename_i hfound
    simp [hfound]

/-- A name that is no container is no alias that could be dropped. -/
theorem dropAliasFrom_of_records {list : List Scope}
    (h : (list.findSome? (·.containerRecord? name)).join = none) :
    dropAliasFrom name list = none := by
  induction list with
  | nil => rfl
  | cons scope rest ih =>
    rw [List.findSome?_cons] at h
    have hplain : scope.IsPlain name := by
      apply Scope.isPlain_of_containerRecord?
      cases hrecord : scope.containerRecord? name with
      | none => rfl
      | some record => rwa [hrecord] at h
    rw [hplain.containerRecord?] at h
    rw [dropAliasFrom, hplain.isAlias, hplain.aliasRecord?]
    cases hbinds : scope.binds name with
    | true => rfl
    | false =>
      rw [hbinds] at h
      simpa using ih h

end Scopes

/-! ### Numbered registers are not shared -/

def Register.number? : Register → Option Nat
  | numbered n => some n
  | named _ => none

def Scope.numbers (scope : Scope) : List Nat :=
  scope.bindings.entries.filterMap (·.2.number?)

namespace Scopes

variable {scopes scopes' : Scopes} {name : String} {info : VarInfo} {register : Register}

/-- The numbered registers of all variables. -/
def numbers (scopes : Scopes) : List Nat :=
  scopes.toList.flatMap Scope.numbers

/-- No two variables share a numbered register, and those still to be handed out are new. -/
structure Distinct (scopes : Scopes) : Prop where
  nodup : scopes.numbers.Nodup
  below : ∀ n ∈ scopes.numbers, n < scopes.next

theorem distinct_ofLimit (limit : Nat) : (ofLimit limit).Distinct :=
  ⟨List.nodup_nil, by simp [numbers, ofLimit, toList, Scope.numbers]⟩

/-- No numbered register has been handed out, but some may have been given up. -/
structure Keeps (scopes scopes' : Scopes) : Prop where
  limit : scopes'.limit = scopes.limit
  next : scopes'.next = scopes.next
  numbers : scopes'.numbers.Sublist scopes.numbers

/-- The next numbered register has been handed out. -/
structure Takes (scopes scopes' : Scopes) : Prop where
  limit : scopes'.limit = scopes.limit
  lt : scopes.next < scopes.limit
  next : scopes'.next = scopes.next + 1
  numbers : scopes'.numbers.Sublist (scopes.next :: scopes.numbers)

theorem Keeps.refl (scopes : Scopes) : scopes.Keeps scopes :=
  ⟨rfl, rfl, List.Sublist.refl _⟩

theorem Distinct.of_keeps (h : scopes.Distinct) (hkeeps : scopes.Keeps scopes') :
    scopes'.Distinct where
  nodup := h.nodup.sublist hkeeps.numbers
  below n hn := by
    rw [hkeeps.next]
    exact h.below n (hkeeps.numbers.subset hn)

/-- A new numbered register is none of those handed out before. -/
theorem Distinct.of_takes (h : scopes.Distinct) (htakes : scopes.Takes scopes') :
    scopes'.Distinct where
  nodup := List.Nodup.sublist htakes.numbers (List.nodup_cons.mpr
    ⟨fun hmem => Nat.lt_irrefl _ (h.below _ hmem), h.nodup⟩)
  below n hn := by
    rw [htakes.next]
    rcases List.mem_cons.mp (htakes.numbers.subset hn) with rfl | hmem
    · exact Nat.lt_succ_self _
    · exact Nat.lt_succ_of_lt (h.below n hmem)

/-! ### What operations do to numbered registers -/

theorem takes_allocate (h : scopes.next < scopes.limit) :
    scopes.Takes { scopes with next := scopes.next + 1 } :=
  ⟨rfl, h, rfl, List.sublist_cons_self _ _⟩

theorem keeps_push : scopes.Keeps scopes.push :=
  ⟨rfl, rfl, List.Sublist.refl _⟩

theorem keeps_pop : scopes.Keeps scopes.pop := by
  unfold pop
  split
  · exact .refl scopes
  · rename_i scope rest houter
    refine ⟨rfl, rfl, ?_⟩
    show ((scope :: rest).flatMap Scope.numbers).Sublist
      (scopes.innermost.numbers ++ scopes.outer.flatMap Scope.numbers)
    rw [houter]
    exact List.sublist_append_right _ _

theorem numbers_sublist_of_forall₂ (h : List.Forall₂
    (fun scope scope' : Scope => scope'.numbers.Sublist scope.numbers) scopes.toList
    scopes'.toList) : scopes'.numbers.Sublist scopes.numbers := by
  unfold numbers
  generalize scopes'.toList = list' at h
  generalize scopes.toList = list at h
  induction h with
  | nil => exact List.Sublist.refl _
  | cons hscope _ ih => exact hscope.append ih

theorem keeps_modifyHome {f : Scope → Scope}
    (hf : ∀ scope, (f scope).numbers.Sublist scope.numbers) :
    scopes.Keeps (scopes.modifyHome name f) := by
  have hall : List.Forall₂ (fun scope scope' : Scope => scope'.numbers.Sublist scope.numbers)
      scopes.toList (scopes.modifyHome name f).toList :=
    forall₂_modifyHome (fun scope => List.Sublist.refl _) hf
  have hlimit : (scopes.modifyHome name f).limit = scopes.limit := by
    unfold modifyHome
    split
    · rfl
    · split <;> rfl
  exact ⟨hlimit, next_modifyHome scopes name f, numbers_sublist_of_forall₂ hall⟩

theorem namedRegister?_isNamed (h : namedRegister? name info = some register) :
    ∃ other, register = .named other := by
  unfold namedRegister? at h
  split at h
  · cases h
    exact ⟨_, rfl⟩
  · split at h
    · cases h
      exact ⟨_, rfl⟩
    · cases h

/-- A literal of a list or dictionary gives its target the variable of its own name. -/
theorem namedRegister?_of_declared (hinfo : info = .list ∨ info = .dict) :
    namedRegister? name info = some (.named (variableName name)) := by
  rcases hinfo with rfl | rfl <;>
    simp [namedRegister?, VarInfo.list, VarInfo.dict, VarInfo.isContainer]

/-- A variable is bound to a name, or to the next numbered register. -/
theorem bind_cases (h : scopes.bind name info = .ok (register, scopes')) :
    ((∃ other, register = .named other) ∧ scopes.Keeps scopes') ∨
      (namedRegister? name info = none ∧ register = .numbered scopes.next ∧
        scopes.Takes scopes') := by
  rcases bind_inv h with ⟨hnamed, rfl⟩ | ⟨hnone, hlt, rfl, rfl⟩
  · obtain ⟨other, rfl⟩ := namedRegister?_isNamed hnamed
    exact Or.inl ⟨⟨other, rfl⟩, keeps_modifyHome fun _ => List.filter_sublist.filterMap _⟩
  · refine Or.inr ⟨hnone, rfl, rfl, hlt, rfl, List.Sublist.cons_cons _ ?_⟩
    exact (List.filter_sublist.filterMap _).append (List.Sublist.refl _)

theorem keeps_bindAlias {target : String} (h : scopes.bindAlias name target = .ok scopes') :
    scopes.Keeps scopes' := by
  unfold Scopes.bindAlias at h
  split at h
  · cases h
  · rename_i kind _
    cases h
    cases kind <;> exact ⟨rfl, rfl, List.Sublist.refl _⟩

theorem keeps_dropAlias : scopes.Keeps (scopes.dropAlias name).2 := by
  have hlimit : (scopes.dropAlias name).2.limit = scopes.limit := by
    unfold Scopes.dropAlias
    split <;> rfl
  exact ⟨hlimit, next_dropAlias scopes name, numbers_sublist_of_forall₂
    (forall₂_dropAlias (fun scope => List.Sublist.refl _) fun scope => List.Sublist.refl _)⟩

/-- Every operation keeps the counter, or takes one register from it. -/
theorem Step.keeps_or_takes (h : Step scopes scopes') :
    scopes.Keeps scopes' ∨ scopes.Takes scopes' := by
  cases h with
  | push => exact Or.inl keeps_push
  | pop => exact Or.inl keeps_pop
  | bind hbind => exact (bind_cases hbind).imp And.right fun h => h.2.2
  | allocate hallocate =>
    obtain ⟨hlt, -, rfl⟩ := allocate_eq_ok.mp hallocate
    exact Or.inr (takes_allocate hlt)
  | bindAlias hbind => exact Or.inl (keeps_bindAlias hbind)
  | restamp name info => exact Or.inl (keeps_modifyHome fun _ => List.Sublist.refl _)
  | dropAlias name => exact Or.inl keeps_dropAlias

theorem Distinct.step (h : scopes.Distinct) (hstep : Step scopes scopes') : scopes'.Distinct :=
  hstep.keeps_or_takes.elim h.of_keeps h.of_takes

theorem Distinct.reach (h : scopes.Distinct) (hreach : scopes.Reach scopes') :
    scopes'.Distinct := by
  induction hreach with
  | refl => exact h
  | tail _ hstep ih => exact ih.step hstep

/-- A variable of the scope at some depth, counted from the innermost scope, is in a numbered
register. -/
def Holds (scopes : Scopes) (depth : Nat) (name : String) (n : Nat) : Prop :=
  ∃ scope, scopes.toList[depth]? = some scope ∧ scope.bindings.get? name = some (.numbered n)

end Scopes

namespace Scope

variable {scope : Scope} {name other : String} {n : Nat}

theorem mem_entries_of_get? {register : Register} (h : scope.bindings.get? name = some register) :
    (name, register) ∈ scope.bindings.entries := by
  obtain ⟨before, after, hsplit, -⟩ := List.lookup_eq_some_iff.mp h
  rw [hsplit]
  simp

theorem mem_numbers_of_get? (h : scope.bindings.get? name = some (.numbered n)) :
    n ∈ scope.numbers :=
  List.mem_filterMap.mpr ⟨_, mem_entries_of_get? h, rfl⟩

theorem name_eq_of_nodup_numbers (hnodup : scope.numbers.Nodup)
    (hname : scope.bindings.get? name = some (.numbered n))
    (hother : scope.bindings.get? other = some (.numbered n)) : name = other := by
  have : Std.Symm fun a b : String × Register => ∀ n, a.2.number? = some n →
      ∀ m, b.2.number? = some m → n ≠ m := ⟨fun _ _ h m hm n hn => (h n hn m hm).symm⟩
  by_contra hne
  have hpair := (List.pairwise_filterMap.mp hnodup).forall (mem_entries_of_get? hname)
    (mem_entries_of_get? hother) fun heq => hne (congrArg Prod.fst heq)
  exact hpair n rfl n rfl rfl

end Scope

namespace Scopes

variable {scopes : Scopes} {depth depth' n : Nat} {name other : String}

theorem Holds.mem_numbers (h : scopes.Holds depth name n) : n ∈ scopes.numbers := by
  obtain ⟨scope, hscope, hget⟩ := h
  exact List.mem_flatMap.mpr
    ⟨scope, List.mem_of_getElem? hscope, Scope.mem_numbers_of_get? hget⟩

theorem exists_holds_of_lookup (h : scopes.lookup name = some (.numbered n)) :
    ∃ depth, scopes.Holds depth name n := by
  obtain ⟨scope, hscope, hget⟩ := List.exists_of_findSome?_eq_some h
  obtain ⟨depth, hdepth⟩ := List.mem_iff_getElem?.mp hscope
  exact ⟨depth, scope, hdepth, hget⟩

theorem Distinct.not_holds_of_lt (h : scopes.Distinct) (hlt : depth < depth')
    (hholds : scopes.Holds depth name n) (hholds' : scopes.Holds depth' other n) : False := by
  obtain ⟨scope, hscope, hget⟩ := hholds
  obtain ⟨scope', hscope', hget'⟩ := hholds'
  obtain ⟨hdepth, rfl⟩ := List.getElem?_eq_some_iff.mp hscope
  obtain ⟨hdepth', rfl⟩ := List.getElem?_eq_some_iff.mp hscope'
  have hpairs := (List.nodup_flatMap.mp h.nodup).2
  exact List.pairwise_iff_getElem.mp hpairs depth depth' hdepth hdepth' hlt
    (Scope.mem_numbers_of_get? hget) (Scope.mem_numbers_of_get? hget')

/-- A numbered register belongs to one variable of one scope. -/
theorem Distinct.holds_inj (h : scopes.Distinct) (hname : scopes.Holds depth name n)
    (hother : scopes.Holds depth' other n) : depth = depth' ∧ name = other := by
  rcases Nat.lt_trichotomy depth depth' with hlt | rfl | hlt
  · exact (h.not_holds_of_lt hlt hname hother).elim
  · obtain ⟨scope, hscope, hget⟩ := hname
    obtain ⟨scope', hscope', hget'⟩ := hother
    obtain rfl := Option.some.inj (hscope.symm.trans hscope')
    have hnodup := (List.nodup_flatMap.mp h.nodup).1 scope (List.mem_of_getElem? hscope)
    exact ⟨rfl, Scope.name_eq_of_nodup_numbers hnodup hget hget'⟩
  · exact (h.not_holds_of_lt hlt hother hname).elim

/-- Two variables with the same numbered register are one. -/
theorem Distinct.lookup_inj (h : scopes.Distinct) (hname : scopes.lookup name = some (.numbered n))
    (hother : scopes.lookup other = some (.numbered n)) : name = other := by
  obtain ⟨depth, hname⟩ := exists_holds_of_lookup hname
  obtain ⟨depth', hother⟩ := exists_holds_of_lookup hother
  exact (h.holds_inj hname hother).2

/-! ### The registers of scalars -/

/-- The register of a scalar variable. Names without a numbered register are told apart too. -/
def place (scopes : Scopes) (name : String) : Register :=
  match scopes.lookup name with
  | some (.numbered n) => .numbered n
  | _ => .named name

theorem Distinct.place_injective (h : scopes.Distinct) : Function.Injective scopes.place := by
  intro name other heq
  unfold place at heq
  split at heq
  · rename_i n hname
    split at heq
    · rename_i m hother
      cases heq
      exact h.lookup_inj hname hother
    · cases heq
  · split at heq
    · cases heq
    · cases heq
      rfl

end Scopes

end Keystroke
