import Keystroke.Proofs.ContainerKinds

/-!
# Where matrices are stored

A matrix does not fit into a numbered register. A value that is known to be a matrix therefore goes
to the named variable of its target. Only names that are assigned side by side get the registers
that they would get for numbers, whatever the values are.
-/

namespace Keystroke

open Script (Expr Ident Stmt)

namespace Scopes

variable {scopes scopes' : Scopes} {name : String} {register : Register}

theorem register_of_storeRegister_matrix
    (h : scopes.storeRegister name .matrix = .ok (register, scopes')) :
    register = .named (variableName name) := by
  have hbind : (scopes.dropAlias name).2.bind name .matrix = .ok (register, scopes') := h
  rcases bind_inv hbind with ⟨hnamed, -⟩ | ⟨hnone, -⟩
  · exact namedRegister?_eq_some (fun _ hforced => by cases hforced) hnamed
  · cases isContainer_of_namedRegister? hnone

theorem kindBound?_matrix_eq_none : scopes.kindBound? name .matrix = none ↔
    scopes.bindsOpenly name .matrix = false ∧ scopes.container? name = none := by
  unfold kindBound?
  split
  · rename_i hopen
    have hsome : (scopes.seat name).kindBeside? name .matrix ≠ none := by
      unfold Scope.kindBeside?
      split
      · nofun
      · split
        · nofun
        · simp [VarInfo.matrix]
    simp [hopen, hsome]
  · rename_i hopen
    simp [hopen]

/-- Whether a scalar that is stored to a name goes to a named variable: the name has one, once its
nearest alias has been dropped, or gets one. -/
def storesNamed (scopes : Scopes) (name : String) : Bool :=
  match (scopes.dropAlias name).2.getRegister name with
  | .ok register => register.isNamed
  | .error _ => isAllUppercase name

theorem isNamed_of_storeRegister_scalar
    (h : scopes.storeRegister name .scalar = .ok (register, scopes')) :
    register.isNamed = scopes.storesNamed name := by
  unfold storesNamed
  rcases storeRegister_eq_ok h with ⟨hunbound, hbind⟩ | ⟨-, hregister, -⟩
  · have hunbound : (scopes.dropAlias name).2.isUnbound name = true := hunbound
    unfold isUnbound at hunbound
    cases hget : (scopes.dropAlias name).2.getRegister name with
    | ok found => simp [hget] at hunbound
    | error e =>
      have hnamed : namedRegister? name .scalar =
          if isAllUppercase name then some (.named (variableName name)) else none := by
        simp [namedRegister?, VarInfo.scalar, VarInfo.isContainer]
      rcases bind_inv hbind with ⟨hsome, -⟩ | ⟨hnone, -, rfl, -⟩
      · rw [hnamed] at hsome
        split at hsome
        · rename_i hupper
          cases hsome
          exact hupper.symm
        · cases hsome
      · rw [hnamed] at hnone
        split at hnone
        · cases hnone
        · rename_i hupper
          exact (Bool.eq_false_iff.mpr hupper).symm
  · rw [hregister]

end Scopes

namespace Emit

variable {labels : FunctionLabels} {s s' : Emitter}

/-- A matrix is no literal and is not shared. -/
theorem isComputed_of_producesMatrix {scopes : Scopes} {value : Expr}
    (h : producesMatrix labels scopes value = true) : isComputed scopes value = true := by
  cases value with
  | list | dict => cases h
  | name id =>
    rw [producesMatrix, beq_iff_eq] at h
    simp [isComputed, isShared, h]
  | _ => rfl

end Emit

/-- In every state of every compilation, a value that is a matrix is stored to the named variable of
every name among its targets. The name is then taken for a container, unless an alias that cannot be
followed is left in front of the variable or beside it. A name that is assigned to side by side with
others has the register that it has, or would get, for a number, and is taken for what it was taken
for before, whatever its value is. -/
theorem matrices_in_variables {labels : FunctionLabels} {body : List Stmt} {limit : Nat}
    {jumps : LabelSupply} {s s' : Emitter} {start : Position} {target value : Expr}
    {others : List Expr} (hs : Emit.Reaches labels body limit jumps s)
    (hrun : (Emit.stmt labels (.assign start target others value)).run s = .ok ((), s')) :
    (Emit.producesMatrix labels s.scopes value = true → ∀ before id rest,
      target :: others = before ++ .name id :: rest → ∃ s₁ t scopes,
        (Emit.expr labels value).run s = .ok ((), s₁) ∧
        (Emit.storeTargets labels .matrix s₁.listing.lastIsString before).run s₁ = .ok ((), t) ∧
        t.scopes.storeRegister id.name .matrix = .ok (.named (variableName id.name), scopes) ∧
        (Emit.storeTargets labels .matrix s₁.listing.lastIsString rest).run
          { t with
            scopes
            listing := t.listing.emitStore (.named (variableName id.name)) (some id.name)
              s₁.listing.lastIsString } = .ok ((), s') ∧
        (scopes.container? id.name = none ↔
          (t.scopes.dropAlias id.name).2.bindsOpenly id.name .matrix = false ∧
            (t.scopes.dropAlias id.name).2.container? id.name = none)) ∧
    ∀ position position' values before id rest, others = [] →
      target = .tuple position (before ++ .name id :: rest) → value = .tuple position' values →
      ∃ s₁ first t register scopes after s₂,
        (Emit.pushValues labels values).run s = .ok ((), s₁) ∧
        (Emit.unpackedRegisters before).run s₁ = .ok (first, t) ∧
        t.scopes.storeRegister id.name .scalar = .ok (register, scopes) ∧
        (Emit.unpackedRegisters rest).run { t with scopes } = .ok (after, s₂) ∧
        (Emit.storeDown (first ++ (id, register) :: after).reverse).run s₂ = .ok ((), s') ∧
        register.isNamed = t.scopes.storesNamed id.name ∧
        scopes.container? id.name = (t.scopes.dropAlias id.name).2.container? id.name := by
  have hsound : s.scopes.Sound fun _ => True := hs.sound.mono fun _ _ => trivial
  refine ⟨fun hmatrix before id rest htargets => ?_, ?_⟩
  · have hcomputed := Emit.isComputed_of_producesMatrix hmatrix
    have hassign : (Emit.assign labels target others value).run s = .ok ((), s') := by
      rw [Emit.stmt] at hrun
      exact hrun
    obtain ⟨s₁, t, register, scopes, hvalue, hbefore, hstore, hrest⟩ :=
      Emit.run_assign_computed hcomputed (if_pos hmatrix).symm htargets hassign
    obtain rfl := Scopes.register_of_storeRegister_matrix hstore
    -- the scopes in which the name is bound are sound
    have ht := ((Emit.Records.computed hcomputed htargets hvalue
      (by rw [if_pos hmatrix]; exact hbefore)).record_eq_ok hsound hrun).1
    refine ⟨s₁, t, scopes, hvalue, hbefore, hstore, hrest, ?_⟩
    rw [Scopes.container?_bind ht.dropAlias rfl hstore, Scopes.kindBound?_matrix_eq_none]
  · rintro position position' values before id rest rfl rfl rfl
    obtain ⟨s₁, first, t, register, scopes, after, s₂, hvalues, hfirst, hstore, hafter, hdown⟩ :=
      Emit.run_assign_unpacked rfl hrun
    have ht := ((Emit.Records.unpacked rfl hvalues hfirst).record_eq_ok hsound hrun).1
    exact ⟨s₁, first, t, register, scopes, after, s₂, hvalues, hfirst, hstore, hafter, hdown,
      Scopes.isNamed_of_storeRegister_scalar hstore,
      Scopes.container?_storeRegister_scalar ht hstore⟩

def newMatrix : Expr :=
  .call {} ⟨{}, "NEWMAT"⟩ [.int {} 2, .int {} 2]

/-- A matrix and a number that are assigned side by side. -/
def matrixAndNumber : Stmt :=
  .assign {} (.tuple {} [.name ⟨{}, "a"⟩, .name ⟨{}, "b"⟩]) [] (.tuple {} [newMatrix, .int {} 1])

/-- The matrix is stored to a numbered register. -/
theorem matrices_in_variables_matrixAndNumber : ∃ s s' s₁ s₂ register scopes after,
    Emit.Reaches aliasLabels [matrixAndNumber] 100 .pools s ∧
    (Emit.stmt aliasLabels matrixAndNumber).run s = .ok ((), s') ∧
    Emit.producesMatrix aliasLabels s.scopes newMatrix = true ∧
    (Emit.pushValues aliasLabels [newMatrix, .int {} 1]).run s = .ok ((), s₁) ∧
    s₁.scopes.storeRegister "a" .scalar = .ok (register, scopes) ∧
    (Emit.storeDown ((⟨{}, "a"⟩, register) :: after).reverse).run s₂ = .ok ((), s') ∧
    register.isNamed = false ∧ scopes.container? "a" = none := by
  have hfacts : ((Emit.commented (.lbl (.global "M")) Emit.entryComment).run
        { scopes := .ofLimit 100, jumps := .pools }).toOption.any (fun before =>
      ((Emit.stmt aliasLabels matrixAndNumber).run before.2).toOption.isSome ∧
        ((Emit.pushValues aliasLabels [newMatrix, .int {} 1]).run before.2).toOption.any
        (fun pushed =>
          pushed.2.scopes.storesNamed "a" = false ∧
            (pushed.2.scopes.dropAlias "a").2.container? "a" = none)) = true := by
    decide +kernel
  obtain ⟨⟨_, s⟩, hlabel, hfacts⟩ := exists_ok_of_any hfacts
  obtain ⟨hassign, hfacts⟩ := of_decide_eq_true hfacts
  obtain ⟨⟨_, pushed⟩, hpushed, hfacts⟩ := exists_ok_of_any hfacts
  obtain ⟨hnamed, hkind⟩ := of_decide_eq_true hfacts
  obtain ⟨⟨_, s'⟩, hassign, -⟩ := exists_ok_of_any (p := fun _ => true) (by simpa using hassign)
  have hreaches : Emit.Reaches aliasLabels [matrixAndNumber] 100 .pools s :=
    .first (.next (.emitted trivial) hlabel (.start _ _))
  obtain ⟨s₁, first, t, register, scopes, after, s₂, hvalues, hfirst, hstore, -, hdown, hregister,
    hcontainer⟩ := (matrices_in_variables hreaches hassign).2 {} {} [newMatrix,
    .int {} 1] [] ⟨{}, "a"⟩
      [.name ⟨{}, "b"⟩] rfl rfl rfl
  cases hfirst
  cases hpushed.symm.trans hvalues
  have hmatrix : (!aliasLabels.has "NEWMAT" &&
      (Primitive.ofName? "NEWMAT").any (·.returnsMatrix)) = true := by decide +kernel
  exact ⟨s, s', pushed, s₂, register, scopes, after, hreaches, hassign, hmatrix, hpushed, hstore,
    hdown, hregister.trans hnamed, hcontainer.trans hkind⟩

end Keystroke
