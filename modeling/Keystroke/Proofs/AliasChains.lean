import Keystroke.Proofs.AliasRecords
import Keystroke.Proofs.FreshRegisters

/-!
# Chains of aliases

The alias of an alias stands for what that one stands for, so a name is looked up along a chain of
links. A look-up follows a fixed number of links and takes a chain that has not ended by then for a
cycle. A new alias makes a chain longer by one link, or closes it to a cycle.
-/

namespace Keystroke

namespace Scopes

variable {scopes scopes' : Scopes} {name target other last : String} {n depth : Nat}

/-! ### Links -/

/-- A name is an alias of another. -/
def Links (scopes : Scopes) (name target : String) : Prop :=
  scopes.aliasTarget? name = some target

/-- A chain of `n` links leads from a name to one that is no alias. -/
inductive Leads (scopes : Scopes) : Nat → String → String → Prop where
  | ends {name : String} (h : scopes.aliasTarget? name = none) : Leads scopes 0 name name
  | link {n : Nat} {name target last : String} (h : scopes.Links name target)
      (hrest : Leads scopes n target last) : Leads scopes (n + 1) name last

theorem Leads.no_alias (h : scopes.Leads n name last) : scopes.aliasTarget? last = none := by
  induction h with
  | ends h => exact h
  | link _ _ ih => exact ih

/-- A chain is the only one from its first name. -/
theorem Leads.unique {n' : Nat} {last' : String} (h : scopes.Leads n name last)
    (h' : scopes.Leads n' name last') : n = n' ∧ last = last' := by
  induction h generalizing n' with
  | ends hnone =>
    cases h' with
    | ends => exact ⟨rfl, rfl⟩
    | link hlink => exact absurd (hnone.symm.trans hlink) nofun
  | link hlink _ ih =>
    cases h' with
    | ends hnone => exact absurd (hnone.symm.trans hlink) nofun
    | link hlink' hrest' =>
      obtain rfl := Option.some.inj (hlink.symm.trans hlink')
      exact ⟨congrArg Nat.succ (ih hrest').1, (ih hrest').2⟩

theorem followAliases_eq_some_iff :
    scopes.followAliases depth name = some last ↔ ∃ n < depth, scopes.Leads n name last := by
  induction depth generalizing name with
  | zero => simp [followAliases]
  | succ depth ih =>
    rw [followAliases]
    constructor
    · intro h
      split at h
      · rename_i hlink
        obtain ⟨n, hn, hleads⟩ := ih.mp h
        exact ⟨n + 1, Nat.succ_lt_succ hn, .link hlink hleads⟩
      · rename_i hnone
        cases h
        exact ⟨0, Nat.succ_pos depth, .ends hnone⟩
    · rintro ⟨n, hn, hleads⟩
      cases hleads with
      | ends hnone => rw [hnone]
      | link hlink hrest =>
        rw [show scopes.aliasTarget? name = _ from hlink]
        exact ih.mpr ⟨_, Nat.lt_of_succ_lt_succ hn, hrest⟩

theorem resolve_of_leads (h : scopes.Leads n name last) (hn : n < maxAliasDepth) :
    scopes.resolve name = .ok last := by
  rw [resolve, followAliases_eq_some_iff.mpr ⟨n, hn, h⟩]

theorem exists_leads_of_resolve (h : scopes.resolve name = .ok last) :
    ∃ n < maxAliasDepth, scopes.Leads n name last := by
  unfold resolve at h
  split at h
  · rename_i hfollow
    cases h
    exact followAliases_eq_some_iff.mp hfollow
  · cases h

theorem resolve_eq_cycle (h : ∀ n last, scopes.Leads n name last → maxAliasDepth ≤ n) :
    scopes.resolve name = .error (.aliasCycle name) := by
  unfold resolve
  split
  · rename_i hfollow
    obtain ⟨n, hn, hleads⟩ := followAliases_eq_some_iff.mp hfollow
    exact absurd (h n _ hleads) (Nat.not_le.mpr hn)
  · rfl

/-! ### What a name stands for -/

/-- The register of a name that is no alias. -/
def ownRegister (scopes : Scopes) (name : String) : Except ScopeError Register :=
  match scopes.lookup name with
  | some register => .ok register
  | none => .error (.unbound name)

/-- The kind of container that a name was declared as that is no alias. -/
def ownKind? (scopes : Scopes) (name : String) : Option Container :=
  (scopes.toList.findSome? (·.containerRecord? name)).join

theorem getRegister_of_resolve (h : scopes.resolve name = .ok last) :
    scopes.getRegister name = scopes.ownRegister last := by
  rw [getRegister, h]
  rfl

theorem getRegister_of_cycle (h : scopes.resolve name = .error (.aliasCycle name)) :
    scopes.getRegister name = .error (.aliasCycle name) := by
  rw [getRegister, h]
  rfl

theorem container?_of_resolve (h : scopes.resolve name = .ok last) :
    scopes.container? name = scopes.ownKind? last := by
  rw [container?, h]
  rfl

theorem container?_of_cycle (h : scopes.resolve name = .error (.aliasCycle name)) :
    scopes.container? name = none := by
  rw [container?, h]

theorem ownRegister_ne_cycle : scopes.ownRegister name ≠ .error (.aliasCycle other) := by
  unfold ownRegister
  split <;> simp

theorem SameAt.ownRegister (h : SameAt name scopes scopes') :
    scopes'.ownRegister name = scopes.ownRegister name := by
  rw [Scopes.ownRegister, Scopes.ownRegister, h.lookup]

theorem SameAt.ownKind? (h : SameAt name scopes scopes') :
    scopes'.ownKind? name = scopes.ownKind? name :=
  congrArg Option.join (h.findSome? fun hscope => hscope.containerRecord?)

/-- A look-up reports a cycle exactly if the chain from the name never ends, or has at least as many
links as are followed. A chain with fewer links gives the register of its last name, or reports that
this one is not bound. -/
theorem alias_cycle_iff_long (scopes : Scopes) (name : String) :
    ((∃ other, scopes.getRegister name = .error (.aliasCycle other)) ↔
      ∀ n last, scopes.Leads n name last → maxAliasDepth ≤ n) ∧
    ∀ n last, scopes.Leads n name last → n < maxAliasDepth →
      scopes.getRegister name = scopes.ownRegister last := by
  have hshort : ∀ n last, scopes.Leads n name last → n < maxAliasDepth →
      scopes.getRegister name = scopes.ownRegister last :=
    fun n last hleads hn => getRegister_of_resolve (resolve_of_leads hleads hn)
  refine ⟨⟨?_, fun h => ⟨name, getRegister_of_cycle (resolve_eq_cycle h)⟩⟩, hshort⟩
  rintro ⟨other, hcycle⟩ n last hleads
  by_contra hn
  rw [hshort n last hleads (Nat.not_le.mp hn)] at hcycle
  exact ownRegister_ne_cycle hcycle

/-- The names of a list and of aliases, each of the one in front of it. -/
def chainNames : List String :=
  ["a", "b", "c", "d", "e", "f", "g", "h", "i", "j", "k", "l", "m", "n", "o", "p", "q"]

/-- A list and as many aliases in a row as are followed. -/
def longChain : Scopes :=
  ((ofLimit 0).run (.bind "a" .list ::
    (chainNames.tail.zip chainNames).map fun (name, target) => .bindAlias name target)).2

theorem alias_cycle_iff_long_last : (∃ n < maxAliasDepth, longChain.Leads n "p" "a") ∧
    longChain.getRegister "p" = .ok (.named "a") := by
  have hfollow : longChain.followAliases maxAliasDepth "p" = some "a" := by decide +kernel
  obtain ⟨n, hn, hleads⟩ := followAliases_eq_some_iff.mp hfollow
  refine ⟨⟨n, hn, hleads⟩, ?_⟩
  rw [(alias_cycle_iff_long longChain "p").2 n "a" hleads hn]
  decide +kernel

/-- A chain that is too long is taken for a cycle, though it ends. -/
theorem long_chain_taken_for_cycle : (∃ n, longChain.Leads n "q" "a") ∧
    longChain.lookup "a" = some (.named "a") ∧
    longChain.getRegister "q" = .error (.aliasCycle "q") := by
  have hfollow : longChain.followAliases (maxAliasDepth + 1) "q" = some "a" := by decide +kernel
  obtain ⟨n, -, hleads⟩ := followAliases_eq_some_iff.mp hfollow
  exact ⟨⟨n, hleads⟩, by decide +kernel, by decide +kernel⟩

/-! ### New aliases -/

/-- Whether a new alias is not seen: the innermost scope has the name as a list, which is looked up
before a dictionary. -/
def hidesAlias (scopes : Scopes) (name target : String) : Bool :=
  scopes.container? target == some .dict && scopes.innermost.lists.contains name

theorem links_bindAlias (h : scopes.bindAlias name target = .ok scopes')
    (hshown : scopes.hidesAlias name target = false) : scopes'.Links name target := by
  unfold bindAlias at h
  split at h
  · cases h
  · rename_i kind hkind
    cases h
    refine aliasTarget?_of_answer ?_
    unfold hidesAlias at hshown
    cases kind with
    | dict =>
      have hlists : scopes.innermost.lists.get? name = none := by
        simpa [hkind, NameMap.contains] using hshown
      simp [Scope.aliasAnswer?, Scope.aliasRecord?, hlists]
    | list | matrix => simp [Scope.aliasAnswer?, Scope.aliasRecord?]

theorem Leads.bindAlias (hleads : scopes.Leads n other last)
    (h : scopes.bindAlias name target = .ok scopes')
    (havoids : ¬ Relation.ReflTransGen scopes.Links other name) : scopes'.Leads n other last := by
  induction hleads with
  | @ends first hnone =>
    have hne : first ≠ name := fun heq => havoids (heq ▸ .refl)
    exact .ends ((untouched_bindAlias hne h).sameAt.aliasTarget?.trans hnone)
  | @link _ first _ _ hlink _ ih =>
    have hne : first ≠ name := fun heq => havoids (heq ▸ .refl)
    exact .link ((untouched_bindAlias hne h).sameAt.aliasTarget?.trans hlink)
      (ih fun hrest => havoids (.head hlink hrest))

/-- Behind a new alias whose target leads back to it, no chain ends. -/
theorem not_leads_of_cycle (h : scopes.bindAlias name target = .ok scopes')
    (hlink : scopes'.Links name target) (hcycle : Relation.ReflTransGen scopes.Links target name)
    (hreaches : Relation.ReflTransGen scopes.Links other name) : ¬ scopes'.Leads n other last := by
  intro hleads
  induction hleads with
  | @ends first hnone =>
    rcases hreaches.cases_head with rfl | ⟨next, hnext, -⟩
    · exact absurd (hlink.symm.trans hnone) nofun
    · by_cases hne : first = name
      · exact absurd ((hne ▸ hlink).symm.trans hnone) nofun
      · rw [(untouched_bindAlias hne h).sameAt.aliasTarget?] at hnone
        exact absurd (hnext.symm.trans hnone) nofun
  | @link _ first second _ hsecond _ ih =>
    by_cases hne : first = name
    · subst hne
      obtain rfl := Option.some.inj (hlink.symm.trans hsecond)
      exact ih hcycle
    · -- a link of another name is an old one, so the way to the alias goes on behind it
      rcases hreaches.cases_head with rfl | ⟨next, hnext, hrest⟩
      · exact hne rfl
      · have hold : scopes.Links first second :=
          (untouched_bindAlias hne h).sameAt.aliasTarget?.symm.trans hsecond
        obtain rfl := Option.some.inj (hnext.symm.trans hold)
        exact ih hrest

/-- The target of a new alias is found, so its chain is not too long. -/
theorem exists_leads_of_bindAlias (h : scopes.bindAlias name target = .ok scopes') :
    ∃ n last, scopes.Leads n target last ∧ n < maxAliasDepth := by
  have hkind : scopes.container? target ≠ none := by
    intro hnone
    rw [bindAlias, hnone] at h
    cases h
  cases hresolve : scopes.resolve target with
  | ok last =>
    obtain ⟨n, hn, hleads⟩ := exists_leads_of_resolve hresolve
    exact ⟨n, last, hleads, hn⟩
  | error e =>
    rw [container?, hresolve] at hkind
    exact absurd rfl hkind

/-- A new alias cannot be followed: its target leads to the name itself, or is at the start of a
chain that is as long as can be. -/
def Closes (scopes : Scopes) (name target : String) : Prop :=
  Relation.ReflTransGen scopes.Links target name ∨
    ∃ last, scopes.Leads (maxAliasDepth - 1) target last

theorem resolve_bindAlias_of_closes (h : scopes.bindAlias name target = .ok scopes')
    (hshown : scopes.hidesAlias name target = false) (hcloses : scopes.Closes name target) :
    scopes'.resolve name = .error (.aliasCycle name) := by
  have hlink := links_bindAlias h hshown
  refine resolve_eq_cycle fun n last hleads => ?_
  by_cases hreaches : Relation.ReflTransGen scopes.Links target name
  · exact absurd hleads (not_leads_of_cycle h hlink hreaches .refl)
  · obtain ⟨last', hlong⟩ := hcloses.resolve_left hreaches
    exact (hleads.unique (.link hlink (hlong.bindAlias h hreaches))).1.ge

/-- A new alias leads to the end of its target's chain, where nothing has changed. -/
theorem resolve_bindAlias (h : scopes.bindAlias name target = .ok scopes')
    (hshown : scopes.hidesAlias name target = false) (hcloses : ¬ scopes.Closes name target) :
    ∃ last, scopes.resolve target = .ok last ∧ scopes'.resolve name = .ok last ∧
      SameAt last scopes scopes' := by
  obtain ⟨havoids, hshort⟩ := not_or.mp hcloses
  obtain ⟨n, last, hleads, hn⟩ := exists_leads_of_bindAlias h
  have hlink := links_bindAlias h hshown
  have hleads' : scopes'.Leads (n + 1) name last := .link hlink (hleads.bindAlias h havoids)
  have hdepth : n + 1 < maxAliasDepth := by
    by_contra hdepth
    obtain rfl : n = maxAliasDepth - 1 := by omega
    exact hshort ⟨last, hleads⟩
  refine ⟨last, resolve_of_leads hleads hn, resolve_of_leads hleads' hdepth,
    (untouched_bindAlias (fun heq => ?_) h).sameAt⟩
  have hnone := hleads'.no_alias
  rw [heq] at hnone
  exact absurd (hlink.symm.trans hnone) nofun

/-- A new alias of a name, unless the innermost scope has the name as a list and the target is a
dictionary, stands for what its target stands for. If the target leads to the name, or if the chain
behind the name becomes too long, looking the name up reports a cycle. -/
theorem alias_stands_for_target (h : scopes.bindAlias name target = .ok scopes')
    (hshown : scopes.hidesAlias name target = false) :
    (¬ scopes.Closes name target → scopes'.getRegister name = scopes.getRegister target ∧
      scopes'.container? name = scopes.container? target) ∧
    (scopes.Closes name target →
      scopes'.getRegister name = .error (.aliasCycle name) ∧ scopes'.container? name = none) := by
  refine ⟨fun hcloses => ?_, fun hcloses => ?_⟩
  · obtain ⟨last, hresolve, hresolve', hsame⟩ := resolve_bindAlias h hshown hcloses
    rw [getRegister_of_resolve hresolve, getRegister_of_resolve hresolve',
      container?_of_resolve hresolve, container?_of_resolve hresolve']
    exact ⟨hsame.ownRegister, hsame.ownKind?⟩
  · have hresolve := resolve_bindAlias_of_closes h hshown hcloses
    exact ⟨getRegister_of_cycle hresolve, container?_of_cycle hresolve⟩

/-- A list with an alias of it, and a function that has a matrix of its own. -/
def matrixInFunction : Scopes :=
  ((ofLimit 0).run [.bind "a" .list, .bindAlias "b" "a", .push, .bind "c" .matrix]).2

/-- In the function the matrix becomes an alias of an alias of the list. -/
theorem alias_stands_for_target_twice : ∃ scopes',
    matrixInFunction.bindAlias "c" "b" = .ok scopes' ∧
    matrixInFunction.hidesAlias "c" "b" = false ∧
    scopes'.getRegister "c" = matrixInFunction.getRegister "b" ∧
    scopes'.container? "c" = matrixInFunction.container? "b" := by
  have hfacts : (matrixInFunction.bindAlias "c" "b").toOption.any
      (fun scopes' => scopes'.container? "c" == some .list) = true := by decide +kernel
  obtain ⟨scopes', halias, hlist⟩ := exists_ok_of_any hfacts
  have hshown : matrixInFunction.hidesAlias "c" "b" = false := by decide +kernel
  obtain ⟨hstands, hcycle⟩ := alias_stands_for_target halias hshown
  refine ⟨scopes', halias, hshown, hstands fun hcloses => ?_⟩
  rw [(hcycle hcloses).2] at hlist
  cases hlist

/-- A list that becomes an alias of itself is lost. -/
theorem alias_of_itself : ∃ scopes scopes', scopes = ((ofLimit 0).run [.bind "a" .list]).2 ∧
    scopes.bindAlias "a" "a" = .ok scopes' ∧
    scopes.getRegister "a" = .ok (.named "a") ∧ scopes.container? "a" = some .list ∧
    scopes'.getRegister "a" = .error (.aliasCycle "a") ∧ scopes'.container? "a" = none := by
  have hfacts :
      (((ofLimit 0).run [.bind "a" .list]).2.bindAlias "a" "a").toOption.any (fun scopes' =>
      scopes'.getRegister "a" = .error (.aliasCycle "a") ∧
      scopes'.container? "a" = none) = true := by
    decide +kernel
  obtain ⟨scopes', halias, hafter⟩ := exists_ok_of_any hfacts
  exact ⟨_, scopes', rfl, halias, by decide +kernel, by decide +kernel, of_decide_eq_true hafter⟩

end Scopes

end Keystroke
