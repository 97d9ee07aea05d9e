import Keystroke.Proofs.Procedures
import Keystroke.Proofs.WrittenLines

/-!
# Where functions begin

A function sees the variables of the code around it as far as that code has been written: first the
code outside functions, then each function before those inside it. So what a name means in a
function is settled by the scopes in which the code of the function begins.
-/

namespace Keystroke

open Script (Stmt)
open Script

namespace Emit

variable {labels : FunctionLabels} {own : List Label} {statements : List Stmt}
  {procedure : Procedure} {s s' t start : Emitter} {α : Type}

/-- An action that writes lines of a program adds them at its end. -/
theorem Writes.grows {m : Emit α} {a : α} (h : Writes labels .any own m)
    (hrun : m.run s = .ok (a, s')) : s.scopes.Reach s'.scopes ∧ s.listing.instrs <+:
      s'.listing.instrs := by
  obtain ⟨hreach, -, code, hlisting, -⟩ := h.code s a s' hrun
  refine ⟨hreach, code.map (·.instr), ?_⟩
  rw [hlisting, Listing.instrs_writeAll]

theorem writes_write (hlabels : labels.Linkable) (hown : procedure.label.IsOwn) :
    Writes labels .any [procedure.label] (procedure.write labels) :=
  .andThen (.label hown) fun _ => .bind (.of_straight (straight_paramRegisters _)) fun _ =>
    .bind (.of_straight (straight_storeDown rfl _)) fun _ =>
    .bind (writes_ownCode hlabels _ (named_any_stmts _)) fun _ => writes_finishBody

/-- While the functions among some statements are written from the state `s` on, the code of a
procedure begins in the state `start`. -/
inductive Begins (labels : FunctionLabels) : List Stmt → Emitter → Procedure → Emitter → Prop where
  | here {offset : Position} {header : Script.FunctionHeader} {body rest : List Stmt} {s : Emitter}
      {label : Label} (hlabel : labels.get? header.name.name = some label) :
      Begins labels (.functionDef offset header body :: rest) s
        ⟨label, header.signature, header.params, body⟩ s.enter
  | inside {offset : Position} {header : Script.FunctionHeader} {body rest : List Stmt}
      {s s₁ start : Emitter} {label : Label} {procedure : Procedure}
      (hlabel : labels.get? header.name.name = some label)
      (hwrite :
        (Procedure.write labels ⟨label, header.signature, header.params, body⟩).run s.enter =
        .ok ((), s₁)) (hbegins : Begins labels body s₁ procedure start) :
      Begins labels (.functionDef offset header body :: rest) s procedure start
  | later {statement : Stmt} {rest : List Stmt} {s s₁ start : Emitter} {procedure : Procedure}
      (hrun : (definedFunction labels statement).run s = .ok ((), s₁))
      (hbegins : Begins labels rest s₁ procedure start) :
      Begins labels (statement :: rest) s procedure start

theorem exists_begins (statements : List Stmt) :
    procedure ∈ functionProcedures labels statements →
    ∀ s s', (functions labels statements).run s = .ok ((), s') →
      ∃ start, Begins labels statements s procedure start := by
  induction statements using functions_induction with
  | nil => exact fun hmem => nomatch hmem
  | other statement rest hnot ih =>
    intro hmem s s' hrun
    obtain ⟨⟨⟩, s₁, h₁, h₂⟩ := run_bind.mp hrun
    obtain ⟨start, hbegins⟩ := ih (by simpa [functionProcedures, Stmt.procedures] using hmem)
      s₁ s' h₂
    exact ⟨start, .later h₁ hbegins⟩
  | functionDef offset header body rest hbody hrest =>
    intro hmem s s' hrun
    obtain ⟨⟨⟩, s₁, h₁, h₂⟩ := run_bind.mp hrun
    rw [functionProcedures, Stmt.procedures] at hmem
    rcases List.mem_append.mp hmem with hmem | hmem
    · cases hlabel : labels.get? header.name.name with
      | none =>
        rw [definedFunction] at h₁
        rw [function_eq] at h₁
        rw [hlabel] at h₁
        cases h₁
      | some label =>
        obtain ⟨s₂, s₃, hwrite, hnested, -⟩ := (run_function hlabel).mp h₁
        rw [hlabel, Option.toList_some, List.map_singleton, List.singleton_append,
          List.mem_cons] at hmem
        rcases hmem with rfl | hmem
        · exact ⟨s.enter, .here hlabel⟩
        · obtain ⟨start, hbegins⟩ := hbody hmem s₂ s₃ hnested
          exact ⟨start, .inside hlabel hwrite hbegins⟩
    · obtain ⟨start, hbegins⟩ := hrest hmem s₁ s' h₂
      exact ⟨start, .later h₁ hbegins⟩

namespace Begins

theorem isOwn (hlabels : labels.Linkable) (h : Begins labels statements s procedure start) :
    procedure.label.IsOwn := by
  induction h with
  | here hlabel => exact hlabels _ _ hlabel
  | inside _ _ _ ih => exact ih
  | later _ _ ih => exact ih

/-- A function begins in a scope of its own, in which no name is bound. -/
theorem innermost_eq (h : Begins labels statements s procedure start) :
    start.scopes.innermost = {} := by
  induction h with
  | here => rfl
  | inside _ _ _ ih => exact ih
  | later _ _ ih => exact ih

section

variable (hlabels : labels.Linkable) (h : Begins labels statements s procedure start)

include hlabels h

theorem reach :
    s.scopes.Reach start.scopes := by
  induction h with
  | here => exact (Scopes.Step.push _).reach
  | inside hlabel hwrite _ ih =>
    have hwrites := (writes_write hlabels (hlabels _ _ hlabel)).grows hwrite
    exact (Scopes.Step.push _).reach.trans (hwrites.1.trans ih)
  | later hrun _ ih =>
    rw [← functions_singleton] at hrun
    exact ((writes_functions hlabels _ (named_any_stmts _)).grows hrun).1.trans ih

theorem written (hrun : (functions labels statements).run s = .ok ((), s')) :
    ∃ last, (procedure.write labels).run start = .ok ((), last) ∧
      last.listing.instrs <+: s'.listing.instrs := by
  induction h generalizing s' with
  | @here _ header body rest s label hlabel =>
    -- behind the code of the function come the functions inside it and those after it
    obtain ⟨⟨⟩, s₁, hfirst, hrest⟩ := run_bind.mp hrun
    obtain ⟨s₂, s₃, hwrite, hnested, rfl⟩ := (run_function hlabel).mp hfirst
    refine ⟨s₂, hwrite, ?_⟩
    have hinside : s₂.listing.instrs <+: s₃.listing.instrs :=
      ((writes_functions hlabels body (named_any_stmts body)).grows hnested).2
    exact hinside.trans ((writes_functions hlabels rest (named_any_stmts rest)).grows hrest).2
  | @inside _ header body rest s s₁ _ label _ hlabel hwrite _ ih =>
    obtain ⟨⟨⟩, s₂, hfirst, hrest⟩ := run_bind.mp hrun
    obtain ⟨s₂, s₃, hwrite', hnested, rfl⟩ := (run_function hlabel).mp hfirst
    cases hwrite'.symm.trans hwrite
    obtain ⟨last, hlast, hinside⟩ := ih hnested
    have hgrows := (writes_functions hlabels rest (named_any_stmts rest)).grows hrest
    exact ⟨last, hlast, hinside.trans hgrows.2⟩
  | later hfirst _ ih =>
    obtain ⟨⟨⟩, s₂, hfirst', hrest⟩ := run_bind.mp hrun
    cases hfirst'.symm.trans hfirst
    exact ih hrest

theorem twin (hal : Aligned [] [] [] s t) :
    ∃ twin, Aligned [] [] [] start twin ∧ Begins labels statements t procedure twin := by
  induction h generalizing t with
  | here hlabel => exact ⟨t.enter, hal.enter, .here hlabel⟩
  | inside hlabel hwrite _ ih =>
    -- the function around it is written first, which keeps the two states aligned
    obtain ⟨t₁, hwrite', hal₁, -⟩ :=
      composes_write hlabels (hlabels _ _ hlabel) _ _ _ hal.enter hwrite
    obtain ⟨twin, htwin, hbegins⟩ := ih hal₁
    exact ⟨twin, htwin, .inside hlabel hwrite' hbegins⟩
  | later hfirst _ ih =>
    rw [← functions_singleton] at hfirst
    obtain ⟨t₁, hfirst', hal₁, -⟩ := composes_functions hlabels _ _ t _ hal hfirst
    rw [functions_singleton] at hfirst'
    obtain ⟨twin, htwin, hbegins⟩ := ih hal₁
    exact ⟨twin, htwin, .later hfirst' hbegins⟩

end

end Begins

end Emit

/-- In the program of a source text, a function begins in some scopes. -/
def Procedure.BeginsIn (text : String) (options : Options) (procedure : Procedure)
    (scopes : Scopes) : Prop :=
  ∃ body labels s start, Script.ofSource (SourceText.ofString text) = .ok body ∧
    FunctionLabels.assign body = .ok labels ∧
    (Emit.entryCode labels (body.filter Emit.isEntryCode)).run
      { scopes := .ofLimit options.registerLimit } = .ok ((), s) ∧
    Emit.Begins labels body s procedure start ∧ start.scopes = scopes

end Keystroke
