import Keystroke.Proofs.ContainerKinds
import Keystroke.Proofs.DictionaryCode

/-!
# Dictionaries

A literal binds its name to a dictionary and appends a row for each of its pairs. Stores change the
first row with their key or append one, and loads read the first row with their key. So a dictionary
behaves as a finite map as long as its literal does not repeat a key. A repeated key has several
rows, of which only the first is ever read or changed.
-/

namespace Keystroke

open Script (Expr Ident Stmt)

/-! ### A name that is bound to a dictionary -/

namespace Scopes

variable {known : String → Prop} {scopes : Scopes} {name : String} {register : Register}

/-- The scopes after a name has been bound to a dictionary. -/
def withDictionary (scopes : Scopes) (name : String) : Scopes :=
  scopes.modifyHome name (·.bind name (.named (variableName name)) .dict)

theorem bind_dict (scopes : Scopes) (name : String) :
    scopes.bind name .dict = .ok (.named (variableName name), scopes.withDictionary name) := by
  have hnamed : namedRegister? name .dict = some (.named (variableName name)) := by
    simp [namedRegister?, VarInfo.dict, VarInfo.isContainer]
  rw [bind, hnamed]
  rfl

theorem isDictionary_withDictionary (hsound : scopes.Sound known)
    (halias : scopes.aliasTarget? name = none) (hlist : scopes.container? name ≠ some .list) :
    (scopes.withDictionary name).IsDictionary name (variableName name) := by
  have hopen : scopes.bindsOpenly name .dict = true := bindsOpenly_of_no_alias hsound halias
  have halias' : (scopes.withDictionary name).aliasTarget? name = none :=
    (aliasTarget?_modifyHome_bind hsound (.named (variableName name))).mpr hopen
  obtain ⟨after, hsplit, -, -⟩ := scopes.exists_split name
  have hseat : (scopes.seat name).lists.contains name = false := by
    rw [container?_of_no_alias halias, hsplit, List.findSome?_append,
      findSome?_front hsound hopen] at hlist
    cases hcontains : (scopes.seat name).lists.contains name with
    | false => rfl
    | true =>
      refine (hlist ?_).elim
      simp [Scope.containerRecord?, hcontains]
  refine ⟨?_, ?_⟩
  · exact (getRegister_of_no_alias halias').mpr (lookup_modifyHome_bind scopes name _ _)
  · rw [withDictionary, container?_modifyHome_bind hsound _ hopen]
    simp [Scope.kindBeside?, VarInfo.dict, hseat]

end Scopes

/-! ### Literals and stores -/

section Dictionaries

variable {labels : FunctionLabels} {s s₁ s₂ : Emitter} {position start : Position} {target : Ident}
  {pairs : List (Expr × Expr)} {statements : List Stmt} {vars : List String} {h : Hardware}
  {d : Device} {env : Env Datum} {contents writes : List (ℚ × ℚ)}

/-- In every state of every compilation, a literal of a dictionary and stores to it write code that
leaves a matrix of rows behind. Loads of a key and the length read these rows, at any later time at
which the variable of the dictionary still holds them. The value of a key is that of its last store,
or else that of its first pair in the literal. So a load finds the last value of its key exactly if
the first value of every key that is not stored to is its last one, and the length is the number of
keys exactly if no key is repeated in the literal. -/
theorem dictionary_as_rows {script : List Stmt} {limit : Nat} {jumps : LabelSupply}
    {rows : List (ℚ × ℚ)} (hs : Emit.Reaches labels script limit jumps s)
    (halias : s.scopes.aliasTarget? target.name = none)
    (hlist : s.scopes.container? target.name ≠ some .list)
    (hname : variableName target.name ∉ Reserved.variableNames)
    (hliteral : (Emit.stmt labels (.assign position (.name target) [] (.dict start pairs))).run s =
      .ok ((), s₁))
    (hblock : (Emit.block labels statements).run s₁ = .ok ((), s₂))
    (hvalues :
      h.HasValues (s.scopes.withDictionary target.name) vars env (variableName target.name) d)
    (hpairs : List.Forall₂ (h.YieldsPair vars env) pairs contents)
    (hstores : List.Forall₂ (h.IsStore target.name vars env) statements writes)
    (hrows : rows = storeRows writes contents) (hroom : rows.length ≤ 999) :
    s₂.scopes = s.scopes.withDictionary target.name ∧
    (h.Leads s s₂ d fun d' => d'.registers (.named (variableName target.name)) = dictionary rows ∧
      d.Keeps (variableName target.name) d') ∧
    (∀ later, later.registers (.named (variableName target.name)) = dictionary rows →
      (∀ env', h.HasValues s₂.scopes vars env' (variableName target.name) later →
        ∀ position id key k v, id.name = target.name → h.Yields vars env' 4 key k →
          rows.lookup k = some v →
          h.Leading s₂.scopes (Emit.expr labels (.subscript position id key)) later fun d' =>
            d'.levels.x = .number v ∧
              d'.registers (.named (variableName target.name)) = dictionary rows ∧
              later.Keeps (variableName target.name) d') ∧
      (∀ position callee id, callee.name = Builtin.len.name → labels.get? callee.name = none →
        id.name = target.name →
          h.Leading s₂.scopes (Emit.expr labels (.call position callee [.name id])) later fun d' =>
            d'.levels.x = .number rows.length ∧
              d'.registers (.named (variableName target.name)) = dictionary rows ∧
              later.Keeps (variableName target.name) d')) ∧
    (∀ k, rows.lookup k = (writes.reverse.lookup k).or (contents.lookup k)) ∧
    ((∀ k, rows.lookup k = (contents ++ writes).reverse.lookup k) ↔
      ∀ k ∉ keys writes, contents.lookup k = contents.reverse.lookup k) ∧
    (rows.length = distinctKeys (contents ++ writes) ↔ (keys contents).Nodup) := by
  subst hrows
  have hdict := Scopes.isDictionary_withDictionary hs.sound halias hlist
  -- the literal gives its target a variable, and then pushes its pairs
  obtain ⟨register, s', hbind, hpush⟩ := Emit.run_bind.mp
    (show (Emit.dictLiteral target (Hardware.pairCodes labels pairs)).run s = _ from hliteral)
  obtain ⟨scopes, hscopes, rfl⟩ := Emit.run_withScopes.mp hbind
  rw [Scopes.bind_dict] at hscopes
  cases hscopes
  obtain ⟨hscopes₁, hleads⟩ := Hardware.leading_literal _ hname hpairs hvalues _ _ _ rfl hpush
  have hfirst : h.Leads s s₁ d fun d' =>
      d'.registers (.named (variableName target.name)) = dictionary contents ∧
        d.Keeps (variableName target.name) d' := ⟨hleads.grows, hleads.path⟩
  -- the stores start from the rows of the literal
  have hrest {d' : Device}
      (hholds : d'.registers (.named (variableName target.name)) = dictionary contents)
      (hkeeps : d.Keeps (variableName target.name) d') :=
      Hardware.leading_stores hstores hdict hname
    hholds (hvalues.keeps hkeeps) hroom s₁ _ s₂ hscopes₁ hblock
  obtain ⟨e, hholds, hkeeps⟩ := hfirst.exists_state
  have hscopes₂ := (hrest hholds hkeeps).1
  refine ⟨hscopes₂, ?_, fun later hholds => ⟨?_, ?_⟩, fun k => lookup_storeRows k writes contents,
    lookup_storeRows_iff contents writes, length_storeRows_iff contents writes⟩
  · refine hfirst.trans fun d' hd' => (hrest hd'.1 hd'.2).2.mono ?_
    rintro d'' ⟨hholds, hkeeps⟩
    exact ⟨hholds, hd'.2.trans hkeeps⟩
  · intro env' hvalues' position id key k v hid hkey hlookup
    rw [hscopes₂] at hvalues' ⊢
    exact Hardware.leading_subscript (hid ▸ hdict) hname hholds hvalues' hkey hroom hlookup
  · intro position callee id hcallee hbuiltin hid
    rw [hscopes₂]
    exact Hardware.leading_lengthCall (hid ▸ hdict) hname hholds hcallee hbuiltin

end Dictionaries

def repeatedKey : Stmt :=
  .assign {} (.name ⟨{}, "d"⟩) [] (.dict {} [(.int {} 1, .int {} 2), (.int {} 1, .int {} 3)])

def repeatedKeyLoad : Expr :=
  .subscript {} ⟨{}, "d"⟩ (.int {} 1)

/-- The length of the dictionary. -/
def repeatedKeyLength : Expr :=
  .call {} ⟨{}, Builtin.len.name⟩ [.name ⟨{}, "d"⟩]

/-- A script of these. -/
def repeatedKeyScript : List Stmt :=
  [repeatedKey, .expression {} repeatedKeyLoad, .expression {} repeatedKeyLength]

/-- The labels of the script. -/
def repeatedKeyLabels : FunctionLabels :=
  { entry := some (.global "M") }

/-- The state in front of the literal. -/
def repeatedKeyStart : Emitter where
  listing := ({} : Listing).emit (.lbl (.global "M")) (some Emit.entryComment)
  scopes := .ofLimit 100

/-- The load finds 2, which is not the last value of the key, and the length is 2. -/
theorem dictionary_as_rows_repeated_key : ∃ s₁ s₂ s₃,
    Emit.Reaches repeatedKeyLabels repeatedKeyScript 100 .pools repeatedKeyStart ∧
    (Emit.stmt repeatedKeyLabels repeatedKey).run repeatedKeyStart = .ok ((), s₁) ∧
    (Emit.expr repeatedKeyLabels repeatedKeyLoad).run s₁ = .ok ((), s₂) ∧
    (Emit.expr repeatedKeyLabels repeatedKeyLength).run s₁ = .ok ((), s₃) ∧
    (Hardware.bare.Leads repeatedKeyStart s₂ .blank fun d => d.levels.x = .number 2) ∧
    (Hardware.bare.Leads repeatedKeyStart s₃ .blank fun d => d.levels.x = .number (2 : ℕ)) ∧
    ([(1, 2), (1, 3)] : List (ℚ × ℚ)).reverse.lookup 1 = some 3 ∧
    distinctKeys [(1, 2), (1, 3)] = 1 := by
  have hfacts : ((Emit.stmt repeatedKeyLabels repeatedKey).run repeatedKeyStart).toOption.any
      (fun after =>
        ((Emit.expr repeatedKeyLabels repeatedKeyLoad).run after.2).toOption.any (fun _ => true) ∧
        ((Emit.expr repeatedKeyLabels repeatedKeyLength).run after.2).toOption.any fun _ => true) =
          true := by
    decide +kernel
  obtain ⟨⟨_, s₁⟩, hliteral, hfacts⟩ := exists_ok_of_any hfacts
  obtain ⟨hload, hlength⟩ := of_decide_eq_true hfacts
  obtain ⟨⟨_, s₂⟩, hload, -⟩ := exists_ok_of_any hload
  obtain ⟨⟨_, s₃⟩, hlength, -⟩ := exists_ok_of_any hlength
  have hreaches : Emit.Reaches repeatedKeyLabels repeatedKeyScript 100 .pools repeatedKeyStart :=
    .first (.next (.emitted trivial) rfl (.start _ _))
  have hone : Hardware.bare.Yields [] (fun _ => .number 0) 4 (.int {} 1) 1 :=
    ⟨rfl, by decide, congrArg (some ∘ Datum.number) Nat.cast_one⟩
  have hitem : ∀ n : ℕ, Hardware.bare.Yields [] (fun _ => .number 0) 3 (.int {} n) n :=
    fun n => ⟨rfl, (by decide : 1 ≤ 3), rfl⟩
  have hpairs : List.Forall₂ (Hardware.bare.YieldsPair [] fun _ => .number 0)
      [(.int {} 1, .int {} 2), (.int {} 1, .int {} 3)] [(1, 2), (1, 3)] :=
    .cons ⟨hone, hitem 2⟩ (.cons ⟨hone, hitem 3⟩ .nil)
  have hrows : ([(1, 2), (1, 3)] : List (ℚ × ℚ)) = storeRows [] [(1, 2), (1, 3)] := rfl
  obtain ⟨hscopes, hleads, hreads, -⟩ :=
    dictionary_as_rows (d := .blank) hreaches (by decide +kernel)
    (by decide +kernel) (by decide +kernel) hliteral rfl (List.forall_mem_nil _) hpairs .nil hrows
    (by decide)
  refine ⟨s₁, s₂, s₃, hreaches, hliteral, hload, hlength, ?_, ?_, by decide +kernel,
    by decide +kernel⟩
  · refine hleads.trans fun d' hd' => ?_
    have hloads := (hreads d' hd'.1).1 _ (List.forall_mem_nil _) {} ⟨{}, "d"⟩
      (.int {} 1) 1 2 rfl hone (by decide +kernel)
    exact (hloads s₁ () s₂ rfl hload).2.mono fun _ hfound => hfound.1
  · refine hleads.trans fun d' hd' => ?_
    have hcounts := (hreads d' hd'.1).2 {} ⟨{}, Builtin.len.name⟩ ⟨{}, "d"⟩ rfl rfl rfl
    exact (hcounts s₁ () s₃ rfl hlength).2.mono fun _ hfound => hfound.1

end Keystroke
