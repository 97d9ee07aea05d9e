import Keystroke.Proofs.VisitedStates

/-!
# Variables that share storage

A numbered register is handed out once, but a named variable keeps only the tail of its name, and
nothing looks for a second name with the same tail or for a variable of the support routines. These
are the exact conditions under which storage is shared, for every state that a compilation can pass
through.
-/

namespace Keystroke

open Script (Stmt)

namespace Scopes

variable {known : String → Prop} {scopes : Scopes} {name other : String}
  {register register' : Register}

/-- A variable without a number has the kept part of its own name. -/
theorem Sound.eq_named (h : scopes.Sound known) (hlookup : scopes.lookup name = some register)
    (hnamed : register.isNamed = true) : register = .named (variableName name) := by
  obtain ⟨scope, hscope, hget⟩ := List.exists_of_findSome?_eq_some hlookup
  cases register with
  | numbered n => cases hnamed
  | named kept => exact congrArg Register.named ((h.each scope hscope name).own kept hget)

end Scopes

/-- In every state of every compilation, two variables that are no aliases have the same register
exactly if neither has a number and their names agree in the characters that the calculator keeps;
and the register of a variable is one that the support routines write to exactly if it has no number
and what is kept of its name is one of their names. -/
theorem storage_shared_iff {labels : FunctionLabels} {body : List Stmt} {limit : Nat}
    {jumps : LabelSupply} {s : Emitter} {name other : String} {register register' : Register}
    (hs : Emit.Reaches labels body limit jumps s) (hne : name ≠ other)
    (hname : s.scopes.aliasTarget? name = none) (hother : s.scopes.aliasTarget? other = none)
    (hregister : s.scopes.getRegister name = .ok register)
    (hregister' : s.scopes.getRegister other = .ok register') :
    (register = register' ↔
      register.isNamed = true ∧ register'.isNamed = true ∧ variableName name = variableName other) ∧
    ((∃ reserved ∈ Reserved.variableNames, register = .named reserved) ↔
      register.isNamed = true ∧ variableName name ∈ Reserved.variableNames) := by
  have hlookup := (Scopes.getRegister_of_no_alias hname).mp hregister
  have hlookup' := (Scopes.getRegister_of_no_alias hother).mp hregister'
  refine ⟨⟨?_, ?_⟩, ?_, ?_⟩
  · rintro rfl
    rcases hs.sound.lookup_inj hlookup hlookup' with heq | ⟨hnamed, hends⟩
    · exact (hne heq).elim
    · exact ⟨hnamed, hnamed, hends⟩
  · rintro ⟨hnamed, hnamed', hends⟩
    rw [hs.sound.eq_named hlookup hnamed, hs.sound.eq_named hlookup' hnamed', hends]
  · rintro ⟨reserved, hreserved, rfl⟩
    have hkept : reserved = variableName name := Register.named.inj (hs.sound.eq_named hlookup rfl)
    exact ⟨rfl, hkept ▸ hreserved⟩
  · rintro ⟨hnamed, hreserved⟩
    exact ⟨variableName name, hreserved, hs.sound.eq_named hlookup hnamed⟩

/-- Numbers are stored to two names that end alike, and to a name of the support routines. -/
def clashingStores : List Stmt :=
  [.assign {} (.name ⟨{}, "A_COUNTER"⟩) [] (.int {} 1),
    .assign {} (.name ⟨{}, "B_COUNTER"⟩) [] (.int {} 2),
    .assign {} (.name ⟨{}, "ZLIST"⟩) [] (.int {} 3)]

/-- The two names end up with one register, and the third with one of the support routines. -/
theorem storage_shared_iff_clashingStores : ∃ s register,
    Emit.Reaches { entry := some (.global "M") } clashingStores 100 .pools s ∧
    s.scopes.getRegister "A_COUNTER" = .ok register ∧
    s.scopes.getRegister "B_COUNTER" = .ok register ∧
    ∃ reserved ∈ Reserved.variableNames, s.scopes.getRegister "ZLIST" = .ok (.named reserved) := by
  have hfacts : ((Emit.program { entry := some (.global "M") } clashingStores).run
      { scopes := .ofLimit 100, jumps := .pools }).toOption.any (fun final =>
      ["A_COUNTER", "B_COUNTER", "ZLIST"].all fun name =>
        final.2.scopes.aliasTarget? name = none ∧
          (final.2.scopes.getRegister name).toOption.any Register.isNamed) = true := by
    decide +kernel
  obtain ⟨⟨_, s⟩, hrun, hfacts⟩ := exists_ok_of_any hfacts
  have hreaches := Emit.reaches_of_run hrun
  simp only [List.all_cons, List.all_nil, Bool.and_true, Bool.and_eq_true,
    decide_eq_true_eq] at hfacts
  obtain ⟨⟨hfirst, hnamed₁⟩, ⟨hsecond, hnamed₂⟩, hthird, hnamed₃⟩ := hfacts
  obtain ⟨first, hget₁, hnamed₁⟩ := exists_ok_of_any hnamed₁
  obtain ⟨second, hget₂, hnamed₂⟩ := exists_ok_of_any hnamed₂
  obtain ⟨third, hget₃, hnamed₃⟩ := exists_ok_of_any hnamed₃
  have hshared := storage_shared_iff hreaches (by decide) hfirst hsecond hget₁ hget₂
  obtain rfl : first = second := hshared.1.mpr ⟨hnamed₁, hnamed₂, by decide +kernel⟩
  have hwritten := storage_shared_iff hreaches (by decide) hthird hfirst hget₃ hget₁
  obtain ⟨reserved, hreserved, rfl⟩ := hwritten.2.mpr ⟨hnamed₃, by decide +kernel⟩
  exact ⟨s, first, hreaches, hget₁, hget₂, reserved, hreserved, hget₃⟩

end Keystroke
