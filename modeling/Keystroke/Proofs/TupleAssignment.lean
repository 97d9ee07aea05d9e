import Keystroke.Proofs.ExpressionRoom
import Keystroke.Proofs.VisitedStates

/-!
# Assignments side by side

An assignment of values to names side by side reads all values before it stores the first one, so
variables can change places. The stack gives the values back in reverse, though, and in this order
they are stored. It only matters where a name is assigned to twice: the variable is left with the
first of its values, not with the last.
-/

namespace Keystroke

variable {V : Type} {levels : Levels V} {s s' : Emitter} {A : Arithmetic V} {vars : List String}
  {labels : FunctionLabels} {start position start' : Position} {names values : List Expr}

open Script (Expr Ident Stmt)

/-! ### Stores one after another -/

/-- Values are stored one after another. -/
def storeEach {α V : Type} [DecidableEq α] (pairs : List (α × V)) (contents : α → V) : α → V :=
  pairs.foldl (fun contents pair => Function.update contents pair.1 pair.2) contents

section Stores

variable {α β V : Type} [DecidableEq α] [DecidableEq β] {a : α} {keys : List α} {values : List V}

theorem storeEach_cons (pair : α × V) (pairs : List (α × V)) (contents : α → V) :
    storeEach (pair :: pairs) contents =
      storeEach pairs (Function.update contents pair.1 pair.2) := rfl

/-- The store that comes last decides. -/
theorem storeEach_reverse_apply (pairs : List (α × V)) (contents : α → V) (a : α) :
    storeEach pairs.reverse contents a = (pairs.lookup a).getD (contents a) := by
  induction pairs with
  | nil => rfl
  | cons pair pairs ih =>
    have hlast : storeEach (pair :: pairs).reverse contents =
        Function.update (storeEach pairs.reverse contents) pair.1 pair.2 := by
      simp [storeEach, List.foldl_append]
    rw [hlast, List.lookup_cons]
    by_cases ha : a = pair.1
    · subst ha
      simp
    · have hkey : (a == pair.1) = false := by simpa using ha
      rw [Function.update_of_ne ha, ih, hkey]

theorem storeEach_apply (pairs : List (α × V)) (contents : α → V) (a : α) :
    storeEach pairs contents a = (pairs.reverse.lookup a).getD (contents a) := by
  rw [← storeEach_reverse_apply, List.reverse_reverse]

/-- Two ways to name the places that are stored to, which agree on one of them. -/
theorem lookup_zip_map {γ : Type} {f : γ → α} {g : γ → β} {b : β} (targets : List γ)
    (h : ∀ t ∈ targets, f t = a ↔ g t = b) (values : List V) :
    ((targets.map f).zip values).lookup a = ((targets.map g).zip values).lookup b := by
  induction targets generalizing values with
  | nil => rfl
  | cons t targets ih =>
    rw [List.forall_mem_cons] at h
    cases values with
    | nil => rfl
    | cons v values =>
      rw [List.map_cons, List.map_cons, List.zip_cons_cons, List.zip_cons_cons, List.lookup_cons,
        List.lookup_cons, ih h.2]
      have hhead : (a == f t) = (b == g t) := by
        rw [Bool.eq_iff_iff, beq_iff_eq, beq_iff_eq, eq_comm, h.1, eq_comm]
      rw [hhead]

/-- A place that is stored to, as often as there are values, is found. -/
theorem exists_lookup_zip (hlength : keys.length = values.length) (ha : a ∈ keys) :
    ∃ v, (keys.zip values).lookup a = some v := by
  induction keys generalizing values with
  | nil => cases ha
  | cons key keys ih =>
    cases values with
    | nil => cases hlength
    | cons v values =>
      rw [List.zip_cons_cons, List.lookup_cons]
      by_cases hkey : a = key
      · exact ⟨v, by simp [hkey]⟩
      · obtain ⟨w, hw⟩ := ih (Nat.succ.inj hlength) ((List.mem_cons.mp ha).resolve_left hkey)
        have hother : (a == key) = false := by simpa using hkey
        exact ⟨w, by rw [hother, hw]⟩

/-- A place that is not stored to is not found. -/
theorem lookup_zip_eq_none (ha : a ∉ keys) :
    (keys.zip values).lookup a = none := by
  refine List.lookup_eq_none_iff.mpr fun pair hpair => ?_
  have hkey : pair.1 ∈ keys := (List.of_mem_zip hpair).1
  have hne : a ≠ pair.1 := fun heq => ha (heq ▸ hkey)
  simpa using hne

end Stores

/-! ### Values on the stack -/

/-- What the code of expressions in a row does to the levels. -/
def Script.Expr.eachOnLevels {V : Type} (A : Arithmetic V) (env : Env V) (values : List Expr)
    (levels : Levels V) : Option (Levels V) :=
  values.foldlM (fun levels e => e.onLevels A env levels) levels

namespace Emit

variable {labels : FunctionLabels} {vars : List String} {s s' : Emitter} {u : Unit}

theorem acts_pushValues : (values : List Expr) → (∀ e ∈ values, e.isScalar vars = true) →
    ∀ {s : Emitter}, (pushValues labels values).run s = .ok (u, s') →
      ∃ code, Emits code s s' ∧ ∀ {V : Type} (A : Arithmetic V) (pending : Nat)
        (registers : Register → V) (env : Env V), Represents A vars s.scopes registers env →
          A.Acts (pending + 2) registers code (Expr.eachOnLevels A env values)
  | [], _, s, hrun => by
    cases hrun
    exact ⟨[], .refl _, fun A pending registers env _ => .nil⟩
  | e :: values, hscalar, s, hrun => by
    rw [List.forall_mem_cons] at hscalar
    obtain ⟨_, s₁, hvalue, hrun⟩ := run_bind.mp hrun
    obtain ⟨text, s₂, htext, hrun⟩ := run_bind.mp hrun
    obtain rfl : s₂ = s₁ := by
      cases htext
      rfl
    -- a text would have been refused
    have hrest : (pushValues labels values).run s₂ = .ok (u, s') := by
      cases text with
      | true => cases hrun
      | false => exact hrun
    obtain ⟨code, hemits, hacts⟩ := exists_acts_expr hscalar.1 hvalue
    obtain ⟨code', hemits', hacts'⟩ := acts_pushValues values hscalar.2 hrest
    refine ⟨code ++ code', hemits.trans hemits', fun A pending registers env hvars => ?_⟩
    refine (hacts A pending registers env hvars).append (hacts' A pending registers env ?_)
    rwa [hemits.scopes]

end Emit

/-- Values that take one level each are left on the stack, the last one in X. -/
theorem Script.Expr.exists_eachOnLevels {env : Env V} (values : List Expr)
    (hscalar : ∀ e ∈ values, e.isScalar vars = true ∧ e.need = 1) {contents : List V}
    (hvalues : values.map (Expr.value A env) = contents.map some) {held : List V}
    (hlevels : levels.Holds held) (hroom : held.length + values.length ≤ 4) :
    ∃ levels', Expr.eachOnLevels A env values levels = some levels' ∧
      levels'.Holds (contents.reverse ++ held) := by
  induction values generalizing contents held levels with
  | nil =>
    obtain rfl : contents = [] := by simpa using hvalues
    exact ⟨levels, rfl, hlevels⟩
  | cons e values ih =>
    rw [List.forall_mem_cons] at hscalar
    cases contents with
    | nil => cases hvalues
    | cons v contents =>
      rw [List.map_cons, List.map_cons, List.cons.injEq] at hvalues
      rw [List.length_cons] at hroom
      obtain ⟨levels₁, hfirst, hlevels₁⟩ := (e.scalar hscalar.1.1).exists_onLevels hvalues.1 hlevels
        (by rw [hscalar.1.2]; omega)
      obtain ⟨levels', hrest, hlevels'⟩ := ih hscalar.2 hvalues.2 hlevels₁
        (by rw [List.length_cons]; omega)
      refine ⟨levels', ?_, by simpa using hlevels'⟩
      rw [eachOnLevels, List.foldlM_cons, hfirst]
      exact hrest

theorem Levels.Holds.rollDown {a : V} {rest : List V} (h : levels.Holds (a :: rest)) :
    levels.rollDown.Holds rest := by
  have hrest : rest <+: [levels.y, levels.z, levels.t] := (List.cons_prefix_cons.mp h).2
  exact hrest.trans ⟨[levels.x], rfl⟩

/-! ### Stores from the stack -/

theorem Arithmetic.execute_storesDown {pending : Nat} {flags : Nat → Bool}
    (targets : List (Ident × Register)) {values : List V}
    (hlength : targets.length = values.length) (hlevels : levels.Holds values)
    (registers : Register → V) :
    ∃ levels', A.execute pending (storesDown targets) ⟨levels, flags, registers⟩ =
      some ⟨levels', flags, storeEach ((targets.map Prod.snd).zip values) registers⟩ := by
  induction targets generalizing values levels registers with
  | nil => exact ⟨levels, rfl⟩
  | cons target targets ih =>
    cases values with
    | nil => cases hlength
    | cons v values =>
      obtain ⟨levels', hrest⟩ := ih (Nat.succ.inj hlength) hlevels.rollDown
        (Function.update registers target.2 v)
      refine ⟨levels', ?_⟩
      rw [List.map_cons, List.zip_cons_cons, storeEach_cons, ← hrest, ← hlevels.x_eq]
      rfl

/-! ### The registers of the targets -/

namespace Scopes

/-- Names are stored to one after another, and each store takes a register. -/
def StoresEach : Scopes → List (Ident × Register) → Scopes → Prop
  | scopes, [], scopes' => scopes' = scopes
  | scopes, (id, register) :: targets, scopes' => ∃ scopes₁,
    scopes.storeRegister id.name .scalar = .ok (register, scopes₁) ∧
      StoresEach scopes₁ targets scopes'

variable {known : String → Prop} {scopes scopes' : Scopes} {name other : String}
  {register register' : Register} {targets : List (Ident × Register)}

theorem sound_storeRegister (hsound : scopes.Sound fun _ => True)
    (hstore : scopes.storeRegister name .scalar = .ok (register, scopes')) :
    scopes'.Sound fun _ => True :=
  hsound.storeRegister trivial (fun _ hforced => by cases hforced) hstore

/-- A name is that of a variable of its own, which is no counter. -/
structure IsOwnScalar (scopes : Scopes) (name : String) (register : Register) : Prop where
  sees : scopes.Sees name register
  noCounter : scopes.isRangeIndex name = false

theorem isOwnScalar_storeRegister (hsound : scopes.Sound known)
    (halias : scopes.aliasTarget? name = none)
    (hstore : scopes.storeRegister name .scalar = .ok (register, scopes')) :
    scopes'.IsOwnScalar name register := by
  have hsees := sees_storeRegister hsound halias hstore
  exact ⟨hsees, isRangeIndex_storeRegister hstore hsees.bound⟩

theorem IsOwnScalar.storeRegister (h : scopes.IsOwnScalar name register)
    (hsound : scopes.Sound known)
    (hstore : scopes.storeRegister other .scalar = .ok (register', scopes')) :
    scopes'.IsOwnScalar name register := by
  by_cases hname : name = other
  · subst hname
    have hfound := h.sees.getRegister_dropAlias hsound
    obtain rfl : register' = register := by
      rcases storeRegister_eq_ok hstore with ⟨hrebinds, -⟩ | ⟨-, hregister, -⟩
      · simp [rebinds, isUnbound, hfound, VarInfo.scalar] at hrebinds
      · rw [hfound] at hregister
        exact (Except.ok.inj hregister).symm
    exact isOwnScalar_storeRegister hsound h.sees.noAlias hstore
  · have huntouched := untouched_storeRegister hname hstore
    exact ⟨h.sees.sameAt huntouched.sameAt, huntouched.isRangeIndex.trans h.noCounter⟩

theorem StoresEach.isOwnScalar (h : scopes.StoresEach targets scopes')
    (hsound : scopes.Sound fun _ => True) (hname : scopes.IsOwnScalar name register) :
    scopes'.IsOwnScalar name register := by
  induction targets generalizing scopes with
  | nil =>
    obtain rfl := h
    exact hname
  | cons target targets ih =>
    obtain ⟨scopes₁, hstore, hrest⟩ := h
    exact ih hrest (sound_storeRegister hsound hstore) (hname.storeRegister hsound hstore)

theorem StoresEach.untouched (h : scopes.StoresEach targets scopes')
    (hname : ∀ target ∈ targets, name ≠ target.1.name) :
    scopes.Untouched name scopes' := by
  induction targets generalizing scopes with
  | nil =>
    obtain rfl := h
    exact .refl name scopes'
  | cons target targets ih =>
    rw [List.forall_mem_cons] at hname
    obtain ⟨scopes₁, hstore, hrest⟩ := h
    exact (untouched_storeRegister hname.1 hstore).trans (ih hrest hname.2)

/-- Every name that is stored to, and was no alias, is a variable of its own in the register that it
was stored to. -/
theorem StoresEach.isOwnScalar_of_mem (h : scopes.StoresEach targets scopes')
    (hsound : scopes.Sound fun _ => True)
    (halias : ∀ target ∈ targets, scopes.aliasTarget? target.1.name = none) :
    ∀ target ∈ targets, scopes'.IsOwnScalar target.1.name target.2 := by
  induction targets generalizing scopes with
  | nil => exact nofun
  | cons first targets ih =>
    rw [List.forall_mem_cons] at halias
    obtain ⟨scopes₁, hstore, hrest⟩ := h
    have hsound₁ := sound_storeRegister hsound hstore
    have hfirst := isOwnScalar_storeRegister hsound halias.1 hstore
    rw [List.forall_mem_cons]
    refine ⟨hrest.isOwnScalar hsound₁ hfirst, ih hrest hsound₁ fun target htarget => ?_⟩
    by_cases hname : target.1.name = first.1.name
    · rw [hname]
      exact hfirst.sees.noAlias
    · exact (untouched_storeRegister hname hstore).sameAt.aliasTarget?.trans
        (halias.2 target htarget)

end Scopes

theorem Emit.run_unpackedRegisters (names : List Expr) {targets : List (Ident × Register)}
    (hrun : (unpackedRegisters names).run s = .ok (targets, s')) :
    names = targets.map (fun target => .name target.1) ∧
      s.scopes.StoresEach targets s'.scopes ∧ Emits [] s { s' with scopes := s.scopes } := by
  induction names generalizing targets s with
  | nil =>
    cases hrun
    exact ⟨rfl, rfl, .refl _⟩
  | cons target names ih =>
    cases target with
    | name id =>
      obtain ⟨register, s₁, hstore, hrun⟩ := run_bind.mp hrun
      obtain ⟨scopes, hscopes, rfl⟩ := run_withScopes.mp hstore
      obtain ⟨rest, s₂, hrest, hrun⟩ := run_bind.mp hrun
      cases hrun
      obtain ⟨hnames, hstores, hemits⟩ := ih hrest
      refine ⟨by rw [hnames, List.map_cons], ⟨scopes, hscopes, hstores⟩, ?_⟩
      exact ⟨hemits.instrs, rfl, hemits.loops, hemits.lastIsString⟩
    | _ => cases hrun

/-! ### The assignment -/

/-- A successful assignment pushes all values, takes a register for each name, and stores from the
last name to the first. -/
theorem Emit.run_tupleAssignment
    (hrun : (stmt labels (.assign position (.tuple start names) [] (.tuple start' values))).run s
      = .ok ((), s')) :
    values.length = names.length ∧ values.length ≤ 4 ∧
      ∃ s₁ s₂ targets, (pushValues labels values).run s = .ok ((), s₁) ∧
        (unpackedRegisters names).run s₁ = .ok (targets, s₂) ∧
        (storeDown targets.reverse).run s₂ = .ok ((), s') := by
  have hrun : (unpack labels start names (.tuple start' values)).run s = .ok ((), s') := hrun
  simp only [unpack] at hrun
  split at hrun
  · rename_i hlength
    split at hrun
    · cases hrun
    · rename_i hdepth
      obtain ⟨_, s₁, hpush, hrun⟩ := run_bind.mp hrun
      obtain ⟨targets, s₂, htargets, hstores⟩ := run_bind.mp hrun
      exact ⟨hlength, Nat.le_of_not_lt hdepth, s₁, s₂, targets, hpush, htargets, hstores⟩
  · cases hrun

/-- Two lists of the same length side by side, from their ends. -/
theorem zip_reverse {α β : Type} {as : List α} {bs : List β} (h : as.length = bs.length) :
    as.reverse.zip bs.reverse = (as.zip bs).reverse :=
  (List.reverse_zipWith h).symm

section Variables

variable {V : Type} {A : Arithmetic V} {vars : List String} {scopes scopes' : Scopes}
  {targets : List (Ident × Register)} {contents : List V} {registers : Register → V} {env : Env V}

/-- What is left in the registers when values are stored to them from the last to the first. -/
def storedBackwards (targets : List (Ident × Register)) (contents : List V)
    (registers : Register → V) : Register → V :=
  storeEach ((targets.map Prod.snd).zip contents).reverse registers

/-- The variables have the values that they have when the first of several values of one name is
stored last. -/
theorem represents_storedBackwards (hsound : scopes.Sound fun _ => True)
    (hown : ∀ name ∈ vars, scopes.aliasTarget? name = none)
    (hstores : scopes.StoresEach targets scopes')
    (htargets : ∀ target ∈ targets, target.1.name ∈ vars)
    (hapart : ∀ name ∈ vars, ∀ other ∈ vars, ∀ register, scopes'.lookup name = some register →
      scopes'.lookup other = some register → name = other)
    (hlength : targets.length = contents.length)
    (hvars : Represents A vars scopes registers env) :
    Represents A vars scopes' (storedBackwards targets contents registers)
      (storeEach ((targets.map (·.1.name)).zip contents).reverse env) := by
  have hplain := hstores.isOwnScalar_of_mem hsound fun target htarget =>
    hown _ (htargets target htarget)
  intro name hname register hregister
  by_cases hstored : ∃ target ∈ targets, target.1.name = name
  · obtain ⟨target, htarget, rfl⟩ := hstored
    have hsees := (hplain target htarget).sees
    obtain rfl : register = target.2 := by
      rw [hsees.getRegister] at hregister
      exact (Except.ok.inj hregister).symm
    -- a register stands for one name, and a name for one register
    have hsame : ∀ t ∈ targets, t.2 = target.2 ↔ t.1.name = target.1.name := by
      intro t ht
      have hbound := (hplain t ht).sees.bound
      constructor
      · intro heq
        exact hapart _ (htargets t ht) _ hname target.2 (heq ▸ hbound) hsees.bound
      · intro heq
        rw [heq, hsees.bound] at hbound
        exact (Option.some.inj hbound).symm
    obtain ⟨v, hv⟩ : ∃ v, ((targets.map (·.1.name)).zip contents).lookup target.1.name = some v :=
      exists_lookup_zip (by simpa using hlength) (List.mem_map_of_mem htarget)
    rw [(hplain target htarget).noCounter, if_neg Bool.false_ne_true, storedBackwards,
      storeEach_reverse_apply, storeEach_reverse_apply, lookup_zip_map targets hsame, hv]
    rfl
  · have hother : ∀ target ∈ targets, name ≠ target.1.name :=
      fun target htarget heq => hstored ⟨target, htarget, heq.symm⟩
    have huntouched := hstores.untouched hother
    have hsame := huntouched.sameAt
    have halias : scopes'.aliasTarget? name = none := hsame.aliasTarget?.trans (hown name hname)
    have hlookup : scopes'.lookup name = some register :=
      (Scopes.getRegister_of_no_alias halias).mp hregister
    have hregisters : register ∉ targets.map Prod.snd := by
      intro hmem
      obtain ⟨target, htarget, rfl⟩ := List.mem_map.mp hmem
      exact hother target htarget
        (hapart _ hname _ (htargets target htarget) _ hlookup (hplain target htarget).sees.bound)
    have hnames : name ∉ targets.map (·.1.name) := by
      intro hmem
      obtain ⟨target, htarget, heq⟩ := List.mem_map.mp hmem
      exact hother target htarget heq.symm
    rw [storedBackwards, storeEach_reverse_apply, storeEach_reverse_apply,
      lookup_zip_eq_none hregisters, lookup_zip_eq_none hnames, huntouched.isRangeIndex]
    exact hvars name hname register
      ((Scopes.getRegister_of_no_alias (hown name hname)).mpr (hsame.lookup ▸ hlookup))

/-- The first and the last value of a name are the same exactly if it makes no difference from which
end the values are stored. -/
theorem storeEach_reverse_iff {keys : List String} (hlength : keys.length = contents.length)
    {stores : List (String × V)} (hstores : stores = keys.zip contents) (env : Env V)
    (name : String) :
    (name ∈ keys → storeEach stores.reverse env name = storeEach stores env name) ↔
      stores.lookup name = stores.reverse.lookup name := by
  subst hstores
  rw [storeEach_reverse_apply, storeEach_apply, ← zip_reverse hlength]
  by_cases hname : name ∈ keys
  · obtain ⟨v, hv⟩ := exists_lookup_zip hlength hname
    obtain ⟨w, hw⟩ : ∃ w, (keys.reverse.zip contents.reverse).lookup name = some w :=
      exists_lookup_zip (by simpa using hlength) (List.mem_reverse.mpr hname)
    rw [hv, hw]
    simp [hname]
  · rw [lookup_zip_eq_none hname, lookup_zip_eq_none (by simpa using hname)]
    simp [hname]

end Variables

/-- What an assignment side by side does when its code runs: all values are on the stack before the
first of them is stored. -/
theorem Emit.execute_tupleAssignment (hvalues : ∀ e ∈ values, e.isScalar vars = true ∧ e.need = 1)
    (hrun : (stmt labels (.assign position (.tuple start names) [] (.tuple start' values))).run s
      = .ok ((), s')) :
    ∃ targets code, names = targets.map (fun target => .name target.1) ∧
      s.scopes.StoresEach targets s'.scopes ∧ s'.listing.instrs = s.listing.instrs ++ code ∧
      ∀ {V : Type} (A : Arithmetic V) (registers : Register → V) (env : Env V),
        Represents A vars s.scopes registers env →
        ∀ contents : List V, values.map (Expr.value A env) = contents.map some →
        targets.length = contents.length ∧
        ∀ (pending : Nat) (levels : Levels V) (flags : Nat → Bool), ∃ levels' flags',
          A.execute (pending + 2) code ⟨levels, flags, registers⟩ =
              some ⟨levels', flags', storedBackwards targets contents registers⟩ ∧
            ∀ n, n ≠ Reserved.scratchFlag → flags' n = flags n := by
  obtain ⟨hlength, hdepth, s₁, s₂, targets, hpush, htargets, hdown⟩ := run_tupleAssignment hrun
  obtain ⟨pushed, hpushed, hacts⟩ := acts_pushValues values (fun e he => (hvalues e he).1) hpush
  obtain ⟨rfl, hstores, hregisters⟩ := run_unpackedRegisters names htargets
  have hstored := emits_storeDown _ hdown
  rw [hpushed.scopes, ← hstored.scopes] at hstores
  rw [List.length_map] at hlength
  refine ⟨targets, pushed ++ storesDown targets.reverse, rfl, hstores, ?_, ?_⟩
  · have hsecond : s₂.listing.instrs = s₁.listing.instrs := by simpa using hregisters.instrs
    rw [hstored.instrs, hsecond, hpushed.instrs, List.append_assoc]
  intro V A registers env hvars contents hcontents
  have hcount : targets.length = contents.length := by
    have hsame := congrArg List.length hcontents
    rwa [List.length_map, List.length_map, hlength] at hsame
  refine ⟨hcount, fun pending levels flags => ?_⟩
  obtain ⟨levels₁, hfold, hlevels₁⟩ := Expr.exists_eachOnLevels values hvalues hcontents
    (show levels.Holds [] from List.nil_prefix) (by simpa using hdepth)
  obtain ⟨flags', hflags, hexecute⟩ := hacts A pending registers env hvars levels flags
  obtain ⟨levels', hrest⟩ : ∃ levels',
      A.execute (pending + 2) (storesDown targets.reverse) ⟨levels₁, flags', registers⟩ =
        some ⟨levels', flags', storedBackwards targets contents registers⟩ := by
    rw [storedBackwards, ← zip_reverse (by simpa using hcount), ← List.map_reverse]
    exact Arithmetic.execute_storesDown targets.reverse (by simpa using hcount)
      (by simpa using hlevels₁) registers
  refine ⟨levels', flags', ?_, hflags⟩
  rw [hexecute, hfold]
  exact hrest

/-- In every state of every compilation, an assignment to names side by side, of values that are
literals or variables, writes code that stores the values that they had before, and changes no other
register. But the first of several values of one name is stored last: the variables are left as if
the names had been assigned to from right to left. They have the values that they have when the
names are assigned to from left to right exactly if the first value of each name is also its last
one. -/
theorem tuple_assignment_on_levels {labels : FunctionLabels} {body : List Stmt} {limit : Nat}
    {jumps : LabelSupply} {s s' : Emitter} {position start start' : Position}
    {names values : List Expr} {vars : List String} (hs : Emit.Reaches labels body limit jumps s)
    (hnames : ∀ target ∈ names, target.isVariable vars = true)
    (hvalues : ∀ e ∈ values, e.isScalar vars = true ∧ e.need = 1)
    (hrun : (Emit.stmt labels
      (.assign position (.tuple start names) [] (.tuple start' values))).run s = .ok ((), s'))
    (hown : ∀ name ∈ vars, s.scopes.aliasTarget? name = none)
    (hapart : ∀ name ∈ vars, ∀ other ∈ vars, ∀ register, s'.scopes.lookup name = some register →
      s'.scopes.lookup other = some register → name = other) :
    (∀ name ∈ names.filterMap Expr.name?, ∃ register, s'.scopes.getRegister name = .ok register) ∧
    ∃ code, s'.listing.instrs = s.listing.instrs ++ code ∧
      ∀ {V : Type} (A : Arithmetic V) (registers : Register → V) (env : Env V),
        Represents A vars s.scopes registers env →
        ∀ contents : List V, values.map (Expr.value A env) = contents.map some →
        ∀ stores, stores = (names.filterMap Expr.name?).zip contents →
        ∀ (pending : Nat) (levels : Levels V) (flags : Nat → Bool), ∃ levels' flags' registers',
          A.execute (pending + 2) code ⟨levels, flags, registers⟩ =
              some ⟨levels', flags', registers'⟩ ∧
            (∀ n, n ≠ Reserved.scratchFlag → flags' n = flags n) ∧
            (∀ register, (∀ name ∈ names.filterMap Expr.name?,
                s'.scopes.getRegister name ≠ .ok register) →
                  registers' register = registers register) ∧
            Represents A vars s'.scopes registers' (storeEach stores.reverse env) ∧
            (Represents A vars s'.scopes registers' (storeEach stores env) ↔
              ∀ name, stores.lookup name = stores.reverse.lookup name) := by
  have hsound : s.scopes.Sound fun _ => True := hs.sound.mono fun _ _ => trivial
  obtain ⟨targets, code, rfl, hstores, hcode, hexecutes⟩ :=
    Emit.execute_tupleAssignment hvalues hrun
  have hfilter : (targets.map fun target => Expr.name target.1).filterMap Expr.name? =
      targets.map (·.1.name) := by
    rw [List.filterMap_map]
    exact congrFun List.filterMap_eq_map' targets
  have hmem : ∀ target ∈ targets, target.1.name ∈ vars := by
    intro target htarget
    simpa [Expr.isVariable, Expr.name?] using hnames _ (List.mem_map_of_mem htarget)
  -- no name is an alias, so each is read from the register that it was stored to
  have hplain := hstores.isOwnScalar_of_mem hsound fun target htarget =>
    hown _ (hmem target htarget)
  rw [hfilter]
  refine ⟨fun name hname => ?_, code, hcode, ?_⟩
  · obtain ⟨target, htarget, rfl⟩ := List.mem_map.mp hname
    exact ⟨target.2, (hplain target htarget).sees.getRegister⟩
  intro V A registers env hvars contents hcontents stores hstoresEq pending levels flags
  obtain ⟨hcount, hexecutes⟩ := hexecutes A registers env hvars contents hcontents
  obtain ⟨levels', flags', hexecute, hflags⟩ := hexecutes pending levels flags
  -- the values come off the stack from the last on, so the first one of a name stays
  have hbackwards := represents_storedBackwards hsound hown hstores hmem hapart hcount hvars
  rw [← hstoresEq] at hbackwards
  refine ⟨levels', flags', _, hexecute, hflags, fun register hregister => ?_, hbackwards, ?_, ?_⟩
  · have hother : register ∉ targets.map Prod.snd := by
      intro hregisterMem
      obtain ⟨target, htarget, rfl⟩ := List.mem_map.mp hregisterMem
      exact hregister _ (List.mem_map_of_mem htarget) (hplain target htarget).sees.getRegister
    rw [storedBackwards, storeEach_reverse_apply, lookup_zip_eq_none hother]
    rfl
  · intro hforwards name
    have hkeys : (targets.map (·.1.name)).length = contents.length := by simpa using hcount
    refine (storeEach_reverse_iff hkeys hstoresEq env name).mp fun hname => ?_
    obtain ⟨target, htarget, rfl⟩ := List.mem_map.mp hname
    have hget := (hplain target htarget).sees.getRegister
    have hfirst := hbackwards _ (hmem target htarget) _ hget
    rw [hforwards _ (hmem target htarget) _ hget] at hfirst
    exact (Option.some.inj hfirst).symm
  · intro hsame
    have henv : storeEach stores env = storeEach stores.reverse env := by
      funext name
      rw [storeEach_apply, storeEach_reverse_apply, hsame]
    rw [henv]
    exact hbackwards

/-- Two variables change places, and one of them is assigned to once more: `a, b, a = b, a, 3`. -/
def exchangeAndAgain : Stmt :=
  .assign {} (.tuple {} [.name ⟨{}, "a"⟩, .name ⟨{}, "b"⟩, .name ⟨{}, "a"⟩]) []
    (.tuple {} [.name ⟨{}, "b"⟩, .name ⟨{}, "a"⟩, .int {} 3])

/-- The assignment after two others, with 5 in `a` and 7 in `b`. -/
def exchangeScript : List Stmt :=
  [.assign {} (.name ⟨{}, "a"⟩) [] (.int {} 5), .assign {} (.name ⟨{}, "b"⟩) [] (.int {} 7),
    exchangeAndAgain]

/-- The labels of a script without functions. -/
def exchangeLabels : FunctionLabels :=
  { entry := some (.global "M") }

/-- Whether a name is that of a scalar variable in a given numbered register. -/
def Scopes.isNumbered (scopes : Scopes) (name : String) (n : Nat) : Bool :=
  scopes.aliasTarget? name = none ∧ scopes.isRangeIndex name = false ∧
    scopes.lookup name = some (.numbered n)

/-- The variables change places, but `a` is not left with its last value, which is 3. -/
theorem tuple_assignment_on_levels_exchange : ∃ s s' code,
    Emit.Reaches exchangeLabels exchangeScript 100 .pools s ∧
    (Emit.stmt exchangeLabels exchangeAndAgain).run s = .ok ((), s') ∧
    s'.listing.instrs = s.listing.instrs ++ code ∧
    s'.scopes.getRegister "a" = .ok (.numbered 0) ∧ s'.scopes.getRegister "b" = .ok (.numbered 1) ∧
    ∀ levels flags registers, registers (.numbered 0) = 5 → registers (.numbered 1) = 7 →
      ∃ c', Arithmetic.integers.execute 2 code ⟨levels, flags, registers⟩ = some c' ∧
        c'.registers (.numbered 0) = 7 ∧ c'.registers (.numbered 1) = 5 := by
  have hfacts : ((do
      Emit.commented (.lbl (.global "M")) Emit.entryComment
      Emit.block exchangeLabels (exchangeScript.take 2) : Emit Unit).run
        { scopes := .ofLimit 100, jumps := .pools }).toOption.any (fun before =>
      (before.2.scopes.isNumbered "a" 0 ∧ before.2.scopes.isNumbered "b" 1) ∧
        ((Emit.stmt exchangeLabels exchangeAndAgain).run before.2).toOption.any (fun after =>
          after.2.scopes.isNumbered "a" 0 ∧ after.2.scopes.isNumbered "b" 1)) = true := by
    decide +kernel
  -- the state in front of the assignment
  obtain ⟨⟨_, s⟩, hrun, hfacts⟩ := exists_ok_of_any hfacts
  obtain ⟨hbefore, hfacts⟩ := of_decide_eq_true hfacts
  obtain ⟨⟨_, s'⟩, hassign, hafter⟩ := exists_ok_of_any hfacts
  simp only [Scopes.isNumbered, decide_eq_true_eq] at hbefore hafter
  obtain ⟨⟨ha, haIndex, haLookup⟩, hb, hbIndex, hbLookup⟩ := hbefore
  obtain ⟨⟨ha', haIndex', haLookup'⟩, hb', hbIndex', hbLookup'⟩ := hafter
  have hreaches : Emit.Reaches exchangeLabels exchangeScript 100 .pools s :=
    Emit.reaches_of_block (exchangeScript.drop 2) rfl rfl (by decide +kernel) hrun
  have hown : ∀ name ∈ ["a", "b"], s.scopes.aliasTarget? name = none := by simp [ha, hb]
  have hapart : ∀ name ∈ ["a", "b"], ∀ other ∈ ["a", "b"], ∀ register,
      s'.scopes.lookup name = some register → s'.scopes.lookup other = some register →
        name = other := by
    simp [haLookup', hbLookup', eq_comm]
  obtain ⟨-, code, hcode, hexecutes⟩ :=
    tuple_assignment_on_levels hreaches (by decide) (by decide) hassign hown hapart
  have haGet := (Scopes.getRegister_of_no_alias ha').mpr haLookup'
  have hbGet := (Scopes.getRegister_of_no_alias hb').mpr hbLookup'
  refine ⟨s, s', code, hreaches, hassign, hcode, haGet, hbGet, ?_⟩
  intro levels flags registers hfive hseven
  have hvars : Represents Arithmetic.integers ["a", "b"] s.scopes registers
      fun name => if name = "a" then 5 else 7 := by
    simp [Represents, Scopes.getRegister_of_no_alias, ha, hb, haLookup, hbLookup, haIndex, hbIndex,
      hfive, hseven]
  obtain ⟨levels', flags', registers', hexecute, -, -, hleft, -⟩ :=
    hexecutes Arithmetic.integers registers _ hvars [7, 5, 3] rfl _ rfl 0 levels flags
  have haLeft := hleft "a" (by simp) _ haGet
  have hbLeft := hleft "b" (by simp) _ hbGet
  rw [haIndex'] at haLeft
  rw [hbIndex'] at hbLeft
  exact ⟨_, hexecute, Option.some.inj haLeft, Option.some.inj hbLeft⟩

end Keystroke
