import Keystroke.Proofs.WrittenLines

/-!
# How many registers a program needs

The number of registers on the calculator is asked for only where the next one is handed out. A text
that compiles therefore compiles to the same listing with every number of registers that covers
those it takes, and with fewer the registers run out.
-/

namespace Keystroke

variable {text : String} {options : Options} {jumps : LabelSupply} {final : Listing}

/-- The number of registers decides only whether a text compiles. If it does, then with every number
that is not below the counter of its registers at the end it has the same listing, and with fewer
the registers run out. -/
theorem register_limit_decides_success (h : compile text options jumps = .ok final) :
    ∃ body labels s, Script.ofSource (SourceText.ofString text) = .ok body ∧
      FunctionLabels.assign body = .ok labels ∧
      (Emit.program labels body).run { scopes := .ofLimit options.registerLimit, jumps } =
        .ok ((), s) ∧
      s.scopes.next ≤ options.registerLimit ∧
      ∀ limit,
        (s.scopes.next ≤ limit →
          compile text { options with registerLimit := limit } jumps = .ok final) ∧
        (limit < s.scopes.next →
          ∃ report, compile text { options with registerLimit := limit } jumps = .error report ∧
            report.kind = .registersExhausted) := by
  obtain ⟨body, labels, listing, hbody, hlabels, hlisting, rfl⟩ := compile_eq_ok.mp h
  obtain ⟨⟨⟩, s, hrun, rfl⟩ := ofScript_eq_ok.mp hlisting
  have hassigned := FunctionLabels.assigned_of_assign hlabels
  have hwrites : Emit.Writes labels .any _ (Emit.program labels body) :=
    Emit.writes_program hassigned.own hassigned.entryOwn body (Script.named_any_stmts body)
  have hstretches := hwrites.elastic _ _ _ hrun
  -- with its own number of registers the script would otherwise fail
  have hfits : s.scopes.next ≤ options.registerLimit := by
    by_contra hlt
    obtain ⟨start, herror⟩ :=
      hstretches.short options.registerLimit (Nat.zero_le _) (Nat.lt_of_not_le hlt)
    rw [show Emitter.withLimit { scopes := .ofLimit options.registerLimit, jumps }
      options.registerLimit = { scopes := .ofLimit options.registerLimit, jumps } from rfl,
      hrun] at herror
    cases herror
  refine ⟨body, labels, s, hbody, hlabels, hrun, hfits, fun limit => ⟨fun hle => ?_, fun hlt => ?_⟩⟩
  · exact compile_eq_ok.mpr ⟨body, labels, s.listing, hbody, hlabels,
      ofScript_eq_ok.mpr ⟨(), _, hstretches.enough limit hle, rfl⟩, rfl⟩
  · obtain ⟨start, herror⟩ := hstretches.short limit (Nat.zero_le _) hlt
    have hrun' : (Emit.program labels body).run { scopes := .ofLimit limit, jumps } = _ := herror
    refine ⟨CompileError.report ⟨.scope (.registersExhausted limit), start⟩ .compile
      (.ofString text), bind_eq_error.mpr (Or.inr ⟨body, inPhase_eq_ok.mpr hbody, ?_⟩), rfl⟩
    refine bind_eq_error.mpr (Or.inr ⟨labels, inPhase_eq_ok.mpr hlabels, ?_⟩)
    refine bind_eq_error.mpr (Or.inl ?_)
    unfold Listing.ofScript
    rw [hrun']
    rfl

/-- A function with a parameter and a loop, which needs a register for each of its two variables. -/
def twoRegistersText : String :=
  "def total(n):\n  for k in range(n):\n    n = n + k\n  return n\n"

/-- The function compiles with two registers and not with one. -/
theorem register_limit_decides_success_twoRegisters : ∃ final report,
    compile twoRegistersText {} = .ok final ∧
    (∀ limit, 2 ≤ limit → compile twoRegistersText { registerLimit := limit } = .ok final) ∧
    compile twoRegistersText { registerLimit := 1 } = .error report ∧
    report.kind = .registersExhausted := by
  have hcompiles : (compile twoRegistersText {}).toOption.any (fun _ => true) = true := by
    decide +kernel
  have hcounter : (Script.ofSource (SourceText.ofString twoRegistersText)).toOption.any (fun body =>
      (FunctionLabels.assign body).toOption.any fun labels =>
        ((Emit.program labels body).run { scopes := .ofLimit 100, jumps := .pools }).toOption.any
          fun last => last.2.scopes.next = 2) = true := by
    decide +kernel
  obtain ⟨final, hfinal, -⟩ := exists_ok_of_any hcompiles
  obtain ⟨body, labels, s, hbody, hlabels, hrun, -, hlimits⟩ :=
    register_limit_decides_success hfinal
  have hnext : s.scopes.next = 2 := by
    rw [hbody] at hcounter
    change (FunctionLabels.assign body).toOption.any _ = true at hcounter
    rw [hlabels] at hcounter
    change ((Emit.program labels body).run _).toOption.any _ = true at hcounter
    rw [hrun] at hcounter
    exact of_decide_eq_true hcounter
  rw [hnext] at hlimits
  obtain ⟨report, hreport, hkind⟩ := (hlimits 1).2 (by decide)
  exact ⟨final, report, hfinal, fun limit => (hlimits limit).1, hreport, hkind⟩

end Keystroke
