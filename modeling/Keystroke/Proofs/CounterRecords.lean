import Keystroke.Proofs.AliasRecords

/-!
# Records of loop counters

The register of a loop counter holds more than its value, so a scope remembers which variables are
counters. A store renews this record for its own name, and leaves all others alone. So a scalar
stays one.
-/

namespace Keystroke

namespace Scope

/-- A scope remembers a variable as a counter exactly if the last store made it one. -/
theorem contains_rangeIndices_stamp (scope : Scope) (name : String) (info : VarInfo) :
    (scope.stamp name info).rangeIndices.contains name = info.isRangeIndex := by
  show (if info.isRangeIndex then scope.rangeIndices.insert name () else
    scope.rangeIndices.erase name).contains name = _
  cases info.isRangeIndex with
  | true => simp [NameMap.contains, NameMap.get?_insert_self]
  | false => simp [NameMap.contains, NameMap.get?_erase_self]

end Scope

namespace Scopes

variable {scopes scopes' : Scopes} {name : String} {register : Register} {info : VarInfo}

theorem Untouched.home? (h : Untouched name scopes scopes') :
    (scopes.home? name = none ∧ scopes'.home? name = none) ∨
      ∃ scope scope', scopes.home? name = some scope ∧ scopes'.home? name = some scope' ∧
        Scope.Untouched name scope scope' := by
  unfold Scopes.home?
  unfold Untouched at h
  generalize scopes'.toList = list' at h ⊢
  generalize scopes.toList = list at h ⊢
  induction h with
  | nil => exact Or.inl ⟨rfl, rfl⟩
  | @cons scope scope' rest rest' hscope _ ih =>
    rw [List.find?_cons, List.find?_cons, hscope.binds]
    cases scope.binds name with
    | true => exact Or.inr ⟨scope, scope', rfl, rfl, hscope⟩
    | false => exact ih

theorem Untouched.isRangeIndex (h : Untouched name scopes scopes') :
    scopes'.isRangeIndex name = scopes.isRangeIndex name := by
  unfold Scopes.isRangeIndex
  rcases h.home? with ⟨hhome, hhome'⟩ | ⟨scope, scope', hhome, hhome', hscope⟩
  · rw [hhome, hhome']
  · rw [hhome, hhome']
    show scope'.rangeIndices.contains name = scope.rangeIndices.contains name
    rw [NameMap.contains, NameMap.contains, hscope.rangeIndices]

theorem isRangeIndex_modifyHome {f : Scope → Scope}
    (hbinds : (f (scopes.seat name)).binds name = true) :
    (scopes.modifyHome name f).isRangeIndex name =
      (f (scopes.seat name)).rangeIndices.contains name := by
  obtain ⟨after, -, hfront, hmodify⟩ := scopes.exists_split name
  have hskip : (scopes.front name).find? (·.binds name) = none :=
    List.find?_eq_none.mpr fun scope hscope => by simp [hfront scope hscope]
  rw [isRangeIndex, home?, hmodify, List.find?_append, hskip, List.find?_cons, hbinds]
  rfl

theorem binds_seat (h : scopes.lookup name = some register) :
    (scopes.seat name).binds name = true := by
  obtain ⟨scope, hscope, hget⟩ := List.exists_of_findSome?_eq_some h
  cases hhome : scopes.home? name with
  | none =>
    have hnone := List.find?_eq_none.mp hhome scope hscope
    exact absurd (Scope.binds_eq_true.mpr ⟨register, hget⟩) hnone
  | some home =>
    have hbinds : home.binds name = true := by simpa using List.find?_some hhome
    rwa [seat, hhome]

/-- A variable is a counter exactly if the last store made it one. -/
theorem isRangeIndex_storeRegister
    (hstore : scopes.storeRegister name info = .ok (register, scopes'))
    (hlookup : scopes'.lookup name = some register) :
    scopes'.isRangeIndex name = info.isRangeIndex := by
  rcases storeRegister_eq_ok hstore with ⟨-, hbind⟩ | ⟨-, -, rfl⟩
  · rcases bind_inv hbind with ⟨-, rfl⟩ | ⟨-, -, rfl, rfl⟩
    · rw [isRangeIndex_modifyHome (Scope.binds_bind _ name register info)]
      exact Scope.contains_rangeIndices_stamp _ name info
    · rw [isRangeIndex, home?, toList, List.find?_cons, Scope.binds_bind]
      exact Scope.contains_rangeIndices_stamp _ name info
  · rw [sameAt_restamp.lookup] at hlookup
    have hbinds : (((scopes.dropAlias name).2.seat name).stamp name info).binds name = true :=
      binds_seat hlookup
    rw [restamp, isRangeIndex_modifyHome hbinds]
    exact Scope.contains_rangeIndices_stamp _ name info

/-! ### Scalars -/

variable {other : String}

theorem SameAt.container?_eq_none (h : SameAt name scopes scopes')
    (halias : scopes.aliasTarget? name = none) (hcontainer : scopes.container? name = none) :
    scopes'.container? name = none := by
  rw [container?_of_no_alias halias] at hcontainer
  rw [container?_of_no_alias (h.aliasTarget?.trans halias)]
  exact (congrArg Option.join (h.findSome? fun hscope => hscope.containerRecord?)).trans hcontainer

theorem Untouched.isScalar (h : Untouched name scopes scopes') (hscalar : scopes.IsScalar name) :
    scopes'.IsScalar name where
  noAlias := h.sameAt.aliasTarget?.trans hscalar.noAlias
  noContainer := h.sameAt.container?_eq_none hscalar.noAlias hscalar.noContainer
  noCounter := h.isRangeIndex.trans hscalar.noCounter
  numbered := by
    rw [h.sameAt.lookup]
    exact hscalar.numbered

section

variable (h : scopes.bind name .scalar = .ok (register, scopes'))
  (hcase : isAllUppercase name = false)

include h hcase

/-- A new scalar is bound to the next numbered register, in the innermost scope. -/
theorem bind_scalar_eq :
    register = .numbered scopes.next ∧ scopes' = { scopes with
      next := scopes.next + 1
      innermost := scopes.innermost.bind name (.numbered scopes.next) .scalar } := by
  have hnumbered : namedRegister? name .scalar = none := by
    simp [namedRegister?, VarInfo.scalar, VarInfo.isContainer, hcase]
  rcases bind_inv h with ⟨hnamed, -⟩ | ⟨-, -, rfl, rfl⟩
  · rw [hnumbered] at hnamed
    cases hnamed
  · exact ⟨rfl, rfl⟩

theorem isPlain_bind_scalar (hplain : scopes.innermost.IsPlain other) :
    scopes'.innermost.IsPlain other := by
  obtain ⟨-, rfl⟩ := bind_scalar_eq h hcase
  exact ⟨hplain.lists, hplain.dicts, hplain.matrices⟩

/-- A name that is bound as a scalar is one, whatever it is further out. -/
theorem isScalar_bind_self (hplain : scopes.innermost.IsPlain name) :
    scopes'.IsScalar name := by
  have hplain := isPlain_bind_scalar h hcase hplain
  have hlookup := lookup_bind h
  obtain ⟨rfl, rfl⟩ := bind_scalar_eq h hcase
  have halias : aliasTarget? { scopes with
      next := scopes.next + 1
      innermost := scopes.innermost.bind name (.numbered scopes.next) .scalar } name = none := by
    exact aliasTarget?_of_binds (Scope.binds_bind _ name _ _) hplain.isAlias
  refine ⟨halias, ?_, ?_, fun r hr => ?_⟩
  · rw [container?_of_no_alias halias, toList, List.findSome?_cons, hplain.containerRecord?,
      Scope.binds_bind]
    rfl
  · rw [isRangeIndex, home?, toList, List.find?_cons, Scope.binds_bind]
    exact Scope.contains_rangeIndices_stamp _ name .scalar
  · exact ⟨_, Option.some.inj (hr.symm.trans hlookup)⟩

end

/-- Every name that is bound in some scopes keeps its register in others. -/
def Extends (scopes scopes' : Scopes) : Prop :=
  ∀ name register, scopes.lookup name = some register → scopes'.lookup name = some register

theorem IsScalar.isPlain_innermost (h : scopes.IsScalar name) : scopes.innermost.IsPlain name := by
  have hcontainer := h.noContainer
  rw [container?_of_no_alias h.noAlias, toList, List.findSome?_cons] at hcontainer
  apply Scope.isPlain_of_containerRecord?
  cases hrecord : scopes.innermost.containerRecord? name with
  | none => rfl
  | some record => rwa [hrecord] at hcontainer

theorem IsScalar.bind (hother : scopes.IsScalar other)
    (h : scopes.bind name .scalar = .ok (register, scopes')) (hcase : isAllUppercase name = false) :
    scopes'.IsScalar other := by
  by_cases hsame : other = name
  · subst hsame
    exact isScalar_bind_self h hcase hother.isPlain_innermost
  · exact (untouched_bind hsame h).isScalar hother

/-- An assignment to a scalar gives it a register, if it has none yet. All other variables keep
theirs, and scalars stay scalars. -/
theorem IsScalar.storeRegister (h : scopes.IsScalar name) (hcase : isAllUppercase name = false)
    (hstore : scopes.storeRegister name .scalar = .ok (register, scopes')) :
    scopes'.lookup name = some register ∧ scopes.Extends scopes' ∧
      ∀ other, scopes.IsScalar other → scopes'.IsScalar other := by
  have hdrop : (scopes.dropAlias name).2 = scopes := by
    rw [dropAlias,
      dropAliasFrom_of_records ((container?_of_no_alias h.noAlias).symm.trans h.noContainer)]
  -- the name itself is bound, or keeps its register
  obtain ⟨hname, hkept, hscalar⟩ : scopes'.lookup name = some register ∧
      (∀ r, scopes.lookup name = some r → r = register) ∧ scopes'.IsScalar name := by
    rcases storeRegister_eq_ok hstore with ⟨hunbound, hbind⟩ | ⟨-, hregister, hrestamp⟩
    · rw [hdrop] at hunbound hbind
      refine ⟨lookup_bind hbind, fun r hr => ?_, h.bind hbind hcase⟩
      have hregister := (getRegister_of_no_alias h.noAlias).mpr hr
      simp [rebinds, VarInfo.scalar, isUnbound, hregister] at hunbound
    · rw [hdrop] at hregister hrestamp
      have hsame : SameAt name scopes scopes' := hrestamp ▸ sameAt_restamp
      have hfound := (getRegister_of_no_alias h.noAlias).mp hregister
      have hname := hsame.lookup.trans hfound
      refine ⟨hname, fun r hr => Option.some.inj (hr.symm.trans hfound), ?_⟩
      refine ⟨hsame.aliasTarget?.trans h.noAlias, hsame.container?_eq_none h.noAlias h.noContainer,
        isRangeIndex_storeRegister hstore hname, ?_⟩
      rw [hsame.lookup]
      exact h.numbered
  refine ⟨hname, fun other r hr => ?_, fun other hother => ?_⟩
  · by_cases hsame : other = name
    · subst hsame
      rw [hname, hkept r hr]
    · rwa [(untouched_storeRegister hsame hstore).sameAt.lookup]
  · by_cases hsame : other = name
    · exact hsame ▸ hscalar
    · exact (untouched_storeRegister hsame hstore).isScalar hother

end Scopes

end Keystroke
