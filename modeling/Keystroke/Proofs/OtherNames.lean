import Keystroke.Proofs.AliasChains
import Keystroke.Proofs.CounterRecords

/-!
# Names that are left alone

What is asked about a name is answered from the records of that name, and of the names that it is an
alias of, one after the other. An operation changes the records of one name only. So it makes no
difference to a name whose chain of aliases does not pass through that one.
-/

namespace Keystroke.Scopes

variable {scopes scopes' : Scopes} {name other last : String} {operation : Operation} {depth : Nat}

/-- The name whose records an operation may change. -/
def Operation.name? : Operation → Option String
  | bind name _ | bindAlias name _ | restamp name _ | dropAlias name => some name
  | push | pop | anonymous => none

/-- An operation on one name leaves the records of all others alone, whether it succeeds or
fails. -/
theorem untouched_perform (h : operation.name? = some name) (hother : other ≠ name) :
    Untouched other scopes (operation.perform scopes).2 := by
  unfold Operation.perform
  cases happly : operation.apply scopes with
  | error => exact .refl other scopes
  | ok result =>
    cases operation with
    | push | pop | anonymous => cases h
    | bind _ info =>
      cases h
      obtain ⟨⟨register, scopes'⟩, hbind, hresult⟩ := bind_eq_ok.mp happly
      cases hresult
      exact untouched_bind hother hbind
    | bindAlias _ target =>
      cases h
      obtain ⟨scopes', hbind, hresult⟩ := bind_eq_ok.mp happly
      cases hresult
      exact untouched_bindAlias hother hbind
    | restamp _ info =>
      cases h
      cases happly
      exact forall₂_modifyHome (Scope.Untouched.refl other) fun _ =>
        Scope.untouched_stamp hother info
    | dropAlias _ =>
      cases h
      cases happly
      exact forall₂_dropAlias (Scope.Untouched.refl other) fun _ =>
        Scope.untouched_clearAlias hother

theorem Untouched.elementSource? (h : Untouched name scopes scopes') :
    scopes'.elementSource? name = scopes.elementSource? name := by
  rcases h.home? with ⟨hhome, hhome'⟩ | ⟨scope, scope', hhome, hhome', hscope⟩
  · rw [Scopes.elementSource?, Scopes.elementSource?, hhome, hhome']
  · rw [Scopes.elementSource?, Scopes.elementSource?, hhome, hhome']
    exact hscope.elements

/-- The names that a look-up passes when it follows at most `depth` aliases. -/
def passed (scopes : Scopes) : Nat → String → List String
  | 0, _ => []
  | depth + 1, name => name :: (scopes.aliasTarget? name).elim [] (scopes.passed depth)

theorem mem_passed_of_link {target via : String} (hlink : scopes.aliasTarget? name = some target)
    (hvia : via ∈ scopes.passed depth target) :
    via ∈ scopes.passed (depth + 1) name := by
  rw [passed, hlink]
  exact List.mem_cons_of_mem name hvia

theorem followAliases_congr (depth : Nat)
    (h : ∀ via ∈ scopes.passed depth name, Untouched via scopes scopes') :
    scopes'.followAliases depth name = scopes.followAliases depth name := by
  induction depth generalizing name with
  | zero => rfl
  | succ depth ih =>
    rw [followAliases, followAliases, (h name List.mem_cons_self).sameAt.aliasTarget?]
    cases hlink : scopes.aliasTarget? name with
    | none => rfl
    | some target => exact ih fun via hvia => h via (mem_passed_of_link hlink hvia)

theorem mem_passed_of_followAliases (h : scopes.followAliases depth name = some last) :
    last ∈ scopes.passed depth name := by
  induction depth generalizing name with
  | zero => cases h
  | succ depth ih =>
    rw [followAliases] at h
    cases hlink : scopes.aliasTarget? name with
    | none =>
      rw [hlink] at h
      cases h
      exact List.mem_cons_self
    | some target =>
      rw [hlink] at h
      exact mem_passed_of_link hlink (ih h)

/-- What a name stands for, and the answers about it, are as before where the names on the way are
untouched. -/
theorem answers_congr (h : ∀ via ∈ scopes.passed maxAliasDepth name, Untouched via scopes scopes') :
    scopes'.getRegister name = scopes.getRegister name ∧
      scopes'.container? name = scopes.container? name := by
  have hfollow := followAliases_congr maxAliasDepth h
  cases hlast : scopes.followAliases maxAliasDepth name with
  | none =>
    have hcycle : scopes.resolve name = .error (.aliasCycle name) := by rw [resolve, hlast]
    have hcycle' : scopes'.resolve name = .error (.aliasCycle name) := by
      rw [resolve, hfollow, hlast]
    rw [getRegister_of_cycle hcycle, getRegister_of_cycle hcycle', container?_of_cycle hcycle,
      container?_of_cycle hcycle']
    exact ⟨rfl, rfl⟩
  | some last =>
    have hresolve : scopes.resolve name = .ok last := by rw [resolve, hlast]
    have hresolve' : scopes'.resolve name = .ok last := by rw [resolve, hfollow, hlast]
    have hsame := (h last (mem_passed_of_followAliases hlast)).sameAt
    rw [getRegister_of_resolve hresolve, getRegister_of_resolve hresolve',
      container?_of_resolve hresolve, container?_of_resolve hresolve']
    exact ⟨hsame.ownRegister, hsame.ownKind?⟩

/-- An operation on a name, whether it succeeds or fails, makes no difference to the answers about
another name, if a look-up of that one does not pass the name. -/
theorem other_names_left_alone (scopes : Scopes) {operation : Operation} {name other : String}
    (hname : operation.name? = some name) (hpassed : name ∉ scopes.passed maxAliasDepth other) :
    (operation.perform scopes).2.lookup other = scopes.lookup other ∧
    (operation.perform scopes).2.getRegister other = scopes.getRegister other ∧
    (operation.perform scopes).2.container? other = scopes.container? other ∧
    (operation.perform scopes).2.isRangeIndex other = scopes.isRangeIndex other ∧
    (operation.perform scopes).2.elementSource? other = scopes.elementSource? other := by
  have hchain : ∀ via ∈ scopes.passed maxAliasDepth other,
      Untouched via scopes (operation.perform scopes).2 := by
    intro via hvia
    refine untouched_perform hname ?_
    rintro rfl
    exact hpassed hvia
  have hself := hchain other List.mem_cons_self
  obtain ⟨hregister, hkind⟩ := answers_congr hchain
  exact ⟨hself.sameAt.lookup, hregister, hkind, hself.isRangeIndex, hself.elementSource?⟩

/-- In a function, a list in place of a matrix makes no difference to an alias of another list. -/
theorem other_names_left_alone_alias :
    "c" ∉ matrixInFunction.passed maxAliasDepth "b" ∧
    ((Operation.bind "c" .list).perform matrixInFunction).2.getRegister "b" =
      matrixInFunction.getRegister "b" := by
  have hpassed : "c" ∉ matrixInFunction.passed maxAliasDepth "b" := by decide +kernel
  exact ⟨hpassed, (other_names_left_alone matrixInFunction rfl hpassed).2.1⟩

end Keystroke.Scopes
