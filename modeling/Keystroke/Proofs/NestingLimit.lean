import Keystroke.Proofs.FunctionStarts
import Keystroke.Proofs.LabelAccounts

/-!
# Nesting and the pool of forward labels

Between two functions all forward labels are free. So whether they run out is decided in each
function by itself, from the way in which its conditions and loops are nested; how much has been
written before makes no difference.
-/

namespace Keystroke

open Script (Stmt)

/-- The number of forward labels that the code of a procedure needs at once. -/
def Procedure.peak (procedure : Procedure) : Nat :=
  (Script.blockDemand procedure.body).peak .outside

/-- The number of conditions and loops that are nested in each other in a procedure. -/
def Procedure.nesting (procedure : Procedure) : Nat :=
  Script.blockNesting procedure.body

namespace Account

/-- All forward labels are free, outside of loops. -/
def full (depth : Nat) : Account where
  free := Reserved.skipLabels.toList
  ascending := by decide
  loops := []
  depth

/-- Outside of loops nothing can be recorded, so an account that is settled is as before. -/
theorem Owes.eq_of_outside {account account' : Account} {new : List Nat}
    (h : account.Owes [] new account') (hloops : account.loops = []) : account' = account := by
  obtain ⟨free, ascending, loops, depth⟩ := account
  obtain ⟨free', ascending', loops', depth'⟩ := account'
  obtain rfl : loops = [] := hloops
  obtain ⟨hfree, hrecords, rfl⟩ := h
  cases hrecords
  obtain rfl : free = free' := List.Perm.eq_of_pairwise' ascending ascending' hfree
  rfl

end Account

namespace Emit

variable {labels : FunctionLabels} {account : Account}

theorem idles_finishBody : Idles finishBody := by
  intro account
  refine .get_bind fun s _ => ?_
  dsimp only
  split
  · exact .pure rfl
  · exact Idles.op _ account

/-- From an account, an action writes procedures and leaves the account as it was. Labels run out
only in a procedure that needs more of them at once than are free. -/
def Restores (account : Account) (procedures : List Procedure) (m : Emit Unit) : Prop :=
  Runs m account
    (fun _ account' => account' = account ∧
      ∀ procedure ∈ procedures, procedure.peak ≤ account.free.length)
    (∃ procedure ∈ procedures, account.free.length < procedure.peak)

namespace Restores

variable {procedures first second : List Procedure} {m : Emit Unit} {f : Unit → Emit Unit}
  {s s' : Emitter}

theorem has (h : Restores account procedures m) (hs : s.Has account)
    (hrun : m.run s = .ok ((), s')) : s'.Has account := by
  obtain ⟨_, hs', rfl, -⟩ := (h s hs).1 () s' hrun
  exact hs'

theorem pure : Restores account [] (pure () : Emit Unit) :=
  Runs.pure ⟨rfl, nofun⟩

theorem bind (hm : Restores account first m) (hf : Restores account second (f ())) :
    Restores account (first ++ second) (m >>= f) := by
  refine Runs.bind hm ?_ ?_
  · rintro ⟨procedure, hmem, hfew⟩
    exact ⟨procedure, List.mem_append_left _ hmem, hfew⟩
  · rintro ⟨⟩ _ ⟨rfl, hfirst⟩
    refine hf.mono ?_ ?_
    · rintro ⟨⟩ _ ⟨rfl, hsecond⟩
      exact ⟨rfl, List.forall_mem_append.mpr ⟨hfirst, hsecond⟩⟩
    · rintro ⟨procedure, hmem, hfew⟩
      exact ⟨procedure, List.mem_append_right _ hmem, hfew⟩

theorem write (hlabels : labels.Linkable) (procedure : Procedure) (hloops : account.loops = []) :
    Restores account [procedure] (procedure.write labels) := by
  have hmarks : account.marks = .outside := by rw [Account.marks, hloops]
  refine (Idles.listing _).bind fun _ => ?_
  refine (Idles.of_straight labels (straight_paramRegisters _)).bind fun registers => ?_
  refine (Idles.of_straight labels (straight_storeDown trivial _)).bind fun _ => ?_
  refine Runs.bind (balanced_ownCode hlabels procedure.body account) (fun hfew => ?_) ?_
  · rw [Account.Lacks, hmarks] at hfew
    exact ⟨procedure, List.mem_singleton_self procedure, hfew⟩
  · rintro ⟨⟩ account' ⟨⟨new, hnew⟩, -, hpeak⟩
    rw [hmarks] at hpeak
    obtain rfl := hnew.eq_of_outside hloops
    refine (idles_finishBody _).mono (fun _ _ h => ⟨h, ?_⟩) False.elim
    simpa [Procedure.peak] using hpeak

/-- A function gives back the loops and the scopes that were there before it. -/
theorem function (hlabels : labels.Linkable) {header : Script.FunctionHeader} {body : List Stmt}
    {nested : Emit Unit} (hnested : ∀ account, Restores account procedures nested) :
    Restores account ((labels.get? header.name.name).toList.map
      (⟨·, header.signature, header.params, body⟩) ++ procedures)
      (Emit.function labels header (ownCode labels body) nested) := by
  cases hlabel : labels.get? header.name.name with
  | none =>
    rw [function_eq]
    rw [hlabel]
    exact Runs.fail nofun
  | some label =>
    rw [function_eq_write hlabel]
    refine Runs.get_bind fun s hs => ?_
    let inner : Account := { account with loops := [], depth := account.depth + 1 }
    have hinner : ∀ s : Emitter, s.Has account →
        Emitter.Has { s with loops := [], scopes := s.scopes.push } inner :=
      fun s hs => ⟨hs.1, rfl, congrArg (· + 1) hs.2.2⟩
    have houter : ∀ t : Emitter, t.Has inner →
        Emitter.Has { t with loops := s.loops, scopes := t.scopes.pop } account :=
      fun t ht => ⟨ht.1, hs.2.1, Scopes.depth_pop_of_pos ht.2.2⟩
    have hwrite : Restores inner _ (Procedure.write labels
      ⟨label, header.signature, header.params, body⟩) := .write hlabels _ rfl
    refine Runs.modify_bind hinner ?_
    simp only [← bind_assoc]
    refine Runs.bind (hwrite.bind (hnested inner)) id ?_
    rintro ⟨⟩ _ ⟨rfl, hpeaks⟩
    exact .of_modify houter ⟨rfl, hpeaks⟩

end Restores

theorem restores_functions (hlabels : labels.Linkable) (statements : List Stmt)
    (account : Account) :
    Restores account (Script.functionProcedures labels statements)
      (functions labels statements) := by
  induction statements using Script.functions_induction generalizing account with
  | nil => exact .pure
  | other s rest hnot ih =>
    simpa [functions, definedFunction, Script.functionProcedures, Stmt.procedures] using ih account
  | functionDef start header body rest hbody hrest =>
    exact .bind (.function hlabels hbody) (hrest account)

theorem restores_entryCode (hlabels : labels.Linkable) (body : List Stmt)
    (hloops : account.loops = []) :
    Restores account (labels.entry.toList.map (⟨·, entryComment, [], body.filter isEntryCode⟩))
      (entryCode labels (body.filter isEntryCode)) := by
  cases hlabel : labels.entry with
  | none =>
    unfold entryCode
    rw [hlabel]
    dsimp only
    split
    · exact .pure
    · exact Runs.fail (by simp)
  | some label =>
    rw [entryCode_eq_write hlabel]
    exact .write hlabels _ hloops

theorem restores_program (hlabels : labels.Linkable) (body : List Stmt)
    (hloops : account.loops = []) :
    Restores account (Script.procedures labels body) (program labels body) :=
  .bind (restores_entryCode hlabels body hloops) (restores_functions hlabels body account)

/-- A function begins with all forward labels free, and so it ends. -/
theorem Begins.hasAll (hlabels : labels.Linkable) {statements : List Stmt} {s start : Emitter}
    {procedure : Procedure} (h : Begins labels statements s procedure start) {depth : Nat}
    (hs : s.Has (.full depth)) :
    ∃ depth', start.Has (.full depth') ∧ ∀ last,
      (procedure.write labels).run start = .ok ((), last) → last.Has (.full depth') := by
  have henter : ∀ {s : Emitter} {depth : Nat}, s.Has (.full depth) →
      s.enter.Has (.full (depth + 1)) :=
    fun hs => ⟨hs.1, rfl, congrArg (· + 1) hs.2.2⟩
  induction h generalizing depth with
  | here =>
    exact ⟨depth + 1, henter hs, fun last hrun =>
      (Restores.write hlabels _ rfl).has (henter hs) hrun⟩
  | inside _ hwrite _ ih => exact ih ((Restores.write hlabels _ rfl).has (henter hs) hwrite)
  | later hrun _ ih =>
    rw [← functions_singleton] at hrun
    exact ih ((restores_functions hlabels _ _).has hs hrun)

end Emit

/-- Before anything is written, all forward labels are free. -/
theorem Emitter.has_full (limit : Nat) : Emitter.Has { scopes := .ofLimit limit } (.full 0) :=
  ⟨⟨{}, rfl, rfl⟩, rfl, rfl⟩

/-- Labels return. After a statement those are missing that it has recorded in the loop around it,
and after a function or the code outside functions none: every function begins and ends with all of
them. Whether labels run out is therefore decided by the nesting inside of one function. -/
theorem forward_labels_return {body : List Stmt} {labels : FunctionLabels}
    (hlabels : FunctionLabels.assign body = .ok labels) :
    (∀ (statement : Stmt) (account : Account) (s : Emitter), s.Has account →
      (∀ s', (Emit.stmt labels statement).run s = .ok ((), s') →
        statement.demand.peak account.marks ≤ account.free.length ∧
        ∃ account' new, s'.Has account' ∧ Loop.RecordsIn account.loops new account'.loops ∧
          (∀ label ∈ new, label ∈ account.free) ∧
          (∀ label, label ∈ account'.free ↔ label ∈ account.free ∧ label ∉ new) ∧
          account'.depth = account.depth) ∧
      ∀ e, (Emit.stmt labels statement).run s = .error e → e.fault = .jumps .skip →
        account.free.length < statement.demand.peak account.marks) ∧
    (∀ (statement : Stmt) (account : Account) (s s' : Emitter), s.Has account →
      (Emit.definedFunction labels statement).run s = .ok ((), s') → s'.Has account) ∧
    (∀ limit s, (Emit.entryCode labels (body.filter Emit.isEntryCode)).run
        { scopes := .ofLimit limit } = .ok ((), s) →
      s.Has (.full 0) ∧ ∀ procedure start, Emit.Begins labels body s procedure start →
        ∃ depth, start.Has (.full depth) ∧
          ∀ last, (procedure.write labels).run start = .ok ((), last) → last.Has (.full depth)) ∧
    (∀ limit s, (Emit.program labels body).run { scopes := .ofLimit limit } = .ok ((), s) →
      s.Has (.full 0)) ∧
    (∀ limit listing, Listing.ofScript labels body limit = .ok listing →
      ∀ procedure ∈ Script.procedures labels body, procedure.peak ≤ 20) ∧
    (∀ limit e, Listing.ofScript labels body limit = .error e → e.fault = .jumps .skip →
      ∃ procedure ∈ Script.procedures labels body, 20 < procedure.peak) ∧
    (∀ before after, (Script.blockDemand (before ++ after)).peak .outside =
      max ((Script.blockDemand before).peak .outside) ((Script.blockDemand after).peak .outside)) ∧
    ∀ procedure : Procedure, procedure.peak ≤ 2 * procedure.nesting := by
  have hown := (FunctionLabels.assigned_of_assign hlabels).own
  -- the accounts of the statements and of the functions say all of it
  have hprogram := fun limit => Emit.restores_program hown body rfl _ (Emitter.has_full limit)
  refine ⟨fun statement account s hs => ⟨fun s' hrun => ?_, ?_⟩, ?_, ?_, ?_, ?_, ?_,
    Script.peak_demand_append, fun procedure =>
      (Script.within_blockDemand procedure.body).peak_le .outside⟩
  · obtain ⟨account', hs', ⟨new, howes⟩, -, hpeak⟩ :=
      (Emit.balanced_stmt hown statement account s hs).1 () s' hrun
    refine ⟨hpeak, account', new, hs', howes.loops, fun label hlabel => ?_,
      fun label => howes.mem_free_iff, howes.depth⟩
    exact howes.free.mem_iff.mpr (List.mem_append_left account'.free hlabel)
  · exact (Emit.balanced_stmt hown statement account s hs).2
  · intro statement account s s' hs hrun
    rw [← Emit.functions_singleton] at hrun
    exact (Emit.restores_functions hown _ account).has hs hrun
  · intro limit s hrun
    have hs := (Emit.restores_entryCode hown body rfl).has (Emitter.has_full limit) hrun
    exact ⟨hs, fun procedure start hbegins => hbegins.hasAll hown hs⟩
  · exact fun limit s hrun =>
      (Emit.restores_program hown body rfl).has (Emitter.has_full limit) hrun
  · intro limit listing hlisting
    obtain ⟨⟨⟩, s, hrun, -⟩ := ofScript_eq_ok.mp hlisting
    obtain ⟨_, -, -, hpeaks⟩ := (hprogram limit).1 () s hrun
    exact hpeaks
  · intro limit e herror hfault
    refine (hprogram limit).2 e ?_ hfault
    unfold Listing.ofScript at herror
    split at herror
    · cases herror
    · cases herror
      assumption

def nestedConditions : Nat → List Stmt
  | 0 => [.pass {}]
  | depth + 1 => [.ifElse {} (.name ⟨{}, "a"⟩) (nestedConditions depth) []]

def nestedFunction (depth : Nat) : List Stmt :=
  [.functionDef {} ⟨⟨{}, "f"⟩, [⟨{}, "a"⟩], "def f(a):", none⟩ (nestedConditions depth)]

/-- Nineteen conditions can be nested, and twenty cannot. -/
theorem forward_labels_return_nested : ∃ labels labels' listing e,
    FunctionLabels.assign (nestedFunction 19) = .ok labels ∧
    Listing.ofScript labels (nestedFunction 19) 100 = .ok listing ∧
    (∀ procedure ∈ Script.procedures labels (nestedFunction 19), procedure.peak ≤ 20) ∧
    FunctionLabels.assign (nestedFunction 20) = .ok labels' ∧
    Listing.ofScript labels' (nestedFunction 20) 100 = .error e ∧ e.fault = .jumps .skip ∧
    e.fault.message = "control flow nested too deeply: only 20 forward labels are available" ∧
    ∃ procedure ∈ Script.procedures labels' (nestedFunction 20), 20 < procedure.peak := by
  have hfits : (FunctionLabels.assign (nestedFunction 19)).toOption.any (fun labels =>
      (Listing.ofScript labels (nestedFunction 19) 100).toOption.any fun _ => true) = true := by
    decide +kernel
  have hfails : (FunctionLabels.assign (nestedFunction 20)).toOption.any (fun labels =>
      match Listing.ofScript labels (nestedFunction 20) 100 with
      | .ok _ => false
      | .error e => e.fault = .jumps .skip) = true := by
    decide +kernel
  obtain ⟨labels, hlabels, hfits⟩ := exists_ok_of_any hfits
  obtain ⟨listing, hlisting, -⟩ := exists_ok_of_any hfits
  obtain ⟨labels', hlabels', hfails⟩ := exists_ok_of_any hfails
  obtain ⟨-, -, -, -, hpeaks, -⟩ := forward_labels_return hlabels
  obtain ⟨-, -, -, -, -, hdry, -⟩ := forward_labels_return hlabels'
  cases herror : Listing.ofScript labels' (nestedFunction 20) 100 with
  | ok _ =>
    rw [herror] at hfails
    cases hfails
  | error e =>
    rw [herror] at hfails
    have hfault : e.fault = .jumps .skip := of_decide_eq_true hfails
    refine ⟨labels, labels', listing, e, hlabels, hlisting, hpeaks 100 listing hlisting, hlabels',
      herror, hfault, ?_, hdry 100 e herror hfault⟩
    rw [hfault]
    rfl

end Keystroke
