import Keystroke.Proofs.FlowDiscipline
import Keystroke.Proofs.Lockstep

/-!
# Tests are followed by jumps

Where a program goes on after a test is decided by the jump in the next line. All statements are
written that way, and all of their jumps go to labels that were handed out since the start.
-/

namespace Keystroke

variable {labels : FunctionLabels} {p : Vocabulary} {floor : Nat}

open Script (Expr Ident Stmt)

/-! ### Code between labels -/

/-- Whether an instruction is a test, which skips the next line if it does not hold. -/
def Instr.skips : Instr → Bool
  | .op o => o.isControl && o != .returns
  | .memory o _ => o == .stepCounter
  | .flag o _ => o.isControl
  | _ => false

/-- The tests in some code are followed by jumps, all of its labels are numbers, and all of its
jumps go to numbers from `floor` on. -/
structure Loose (floor : Nat) (code : List Instr) : Prop where
  guarded : ∀ line instr, InstrAt code line instr → instr.skips = true →
    ∃ n, JumpAt code (line + 1) n
  labels : ∀ label, .lbl label ∈ code → ∃ n, label = .number n
  jumps : ∀ n, .gto n ∈ code → floor ≤ n

namespace Loose

variable {floor : Nat} {code code' : List Instr} {instr : Instr}

theorem nil : Loose floor [] :=
  ⟨nofun, nofun, nofun⟩

theorem append (h : Loose floor code) (h' : Loose floor code') : Loose floor (code ++ code') where
  guarded line instr hat hskips := by
    rcases instrAt_append.mp hat with hat | ⟨hle, hat⟩
    · obtain ⟨n, hn⟩ := h.guarded line instr hat hskips
      exact ⟨n, hn.append code'⟩
    · obtain ⟨n, hn⟩ := h'.guarded _ instr hat hskips
      refine ⟨n, instrAt_append.mpr (Or.inr ⟨by omega, ?_⟩)⟩
      rwa [Nat.sub_add_comm hle]
  labels label hmem := (List.mem_append.mp hmem).elim (h.labels label) (h'.labels label)
  jumps n hmem := (List.mem_append.mp hmem).elim (h.jumps n) (h'.jumps n)

/-- A line that is no test and neither a label of a function nor a jump. -/
theorem single (hskips : instr.skips = false)
    (hlabel : ∀ label, instr = .lbl label → ∃ n, label = .number n)
    (hjump : ∀ n, instr = .gto n → floor ≤ n) : Loose floor [instr] where
  guarded line i hat hi := by
    obtain rfl := List.mem_singleton.mp (exists_instrAt.mp ⟨line, hat⟩)
    rw [hskips] at hi
    cases hi
  labels label hmem := hlabel label (List.mem_singleton.mp hmem).symm
  jumps n hmem := hjump n (List.mem_singleton.mp hmem).symm

/-- A line with a jump after it. -/
theorem pair {n : Nat} (hlabel : ∀ label, instr ≠ .lbl label) (hjump : ∀ n, instr ≠ .gto n)
    (hn : floor ≤ n) : Loose floor [instr, .gto n] where
  guarded line i hat hi := by
    match line with
    | 0 => exact ⟨n, rfl⟩
    | 1 =>
      cases hat
      cases hi
  labels label hmem := by
    rcases List.mem_cons.mp hmem with h | hmem
    · exact absurd h.symm (hlabel label)
    · cases List.mem_singleton.mp hmem
  jumps k hmem := by
    rcases List.mem_cons.mp hmem with h | hmem
    · exact absurd h.symm (hjump k)
    · cases List.mem_singleton.mp hmem
      exact hn

end Loose

theorem Instr.IsStraight.loose {instr : Instr} (h : instr.IsStraight labels p) :
    Loose floor [instr] := by
  refine .single ?_ ?_ ?_
  · cases instr with
    | op o =>
      have ho : o.isControl = false := h
      simp [skips, ho]
    | memory o operand => simpa [skips, IsStraight] using h
    | flag o operand => exact h
    | _ => rfl
  · rintro label rfl
    exact h.elim
  · rintro n rfl
    exact h.elim

theorem Loose.of_straight {code : List Line} (h : ∀ line ∈ code, line.instr.IsStraight labels p) :
    Loose floor (code.map Line.instr) := by
  induction code with
  | nil => exact .nil
  | cons line rest ih =>
    exact (h line List.mem_cons_self).loose.append
      (ih fun l hl => h l (List.mem_cons_of_mem line hl))

/-! ### Labels in hand -/

/-- All labels that a supply can hand out are at least `floor`. -/
def LabelSupply.Above (floor : Nat) : LabelSupply → Prop
  | pooled jumps => floor ≤ jumps.nextLoop ∧ ∀ n ∈ jumps.freeSkips, floor ≤ n
  | unlimited next => floor ≤ next

/-- All labels that can be jumped to from here on are at least `floor`. -/
structure Emitter.Above (floor : Nat) (s : Emitter) : Prop where
  supply : s.jumps.Above floor
  loops : ∀ loop ∈ s.loops, loop.All (floor ≤ ·)

namespace LabelSupply

variable {floor n : Nat} {supply supply' : LabelSupply}

theorem above_takeLoop (h : supply.Above floor) (htake : supply.takeLoop = .ok (n, supply')) :
    floor ≤ n ∧ supply'.Above floor := by
  cases supply with
  | unlimited next =>
    cases htake
    exact ⟨h, Nat.le_succ_of_le h⟩
  | pooled jumps =>
    obtain ⟨_, hpool, rfl⟩ := takeLoop_pooled.mp htake
    obtain ⟨-, rfl, rfl⟩ := JumpLabels.takeLoop_eq_ok.mp hpool
    exact ⟨h.1, Nat.le_succ_of_le h.1, h.2⟩

theorem above_takeSkip (h : supply.Above floor) (htake : supply.takeSkip = .ok (n, supply')) :
    floor ≤ n ∧ supply'.Above floor := by
  cases supply with
  | unlimited next =>
    cases htake
    exact ⟨h, Nat.le_succ_of_le h⟩
  | pooled jumps =>
    obtain ⟨_, hpool, rfl⟩ := takeSkip_pooled.mp htake
    obtain ⟨free, hfree, rfl⟩ := JumpLabels.takeSkip_eq_ok.mp hpool
    rw [Above, hfree] at h
    exact ⟨h.2 _ List.mem_cons_self, h.1, fun k hk => h.2 k (List.mem_cons_of_mem _ hk)⟩

theorem Above.release (h : supply.Above floor) (hn : floor ≤ n) :
    (supply.release n).Above floor := by
  cases supply with
  | unlimited next => exact h
  | pooled jumps =>
    show (LabelSupply.pooled (jumps.release n)).Above floor
    unfold JumpLabels.release
    split
    · exact h
    · refine ⟨h.1, fun k hk => ?_⟩
      rcases JumpLabels.mem_insertAscending.mp hk with rfl | hk
      · exact hn
      · exact h.2 k hk

end LabelSupply

theorem Emitter.above_zero (s : Emitter) : s.Above 0 where
  supply := by
    cases s.jumps with
    | pooled jumps => exact ⟨Nat.zero_le _, fun _ _ => Nat.zero_le _⟩
    | unlimited next => exact Nat.zero_le next
  loops _ _ := ⟨Nat.zero_le _, fun _ _ => Nat.zero_le _, fun _ _ => Nat.zero_le _⟩

/-! ### Actions -/

namespace Emit

variable {labels : FunctionLabels} {floor : Nat} {α β : Type}

/-- An action writes loose code. The labels in hand stay above `floor`, and the value that it gives
is as `Q` says. -/
def Flows (floor : Nat) (m : Emit α) (Q : α → Prop) : Prop :=
  ∀ s a s', s.Above floor → m.run s = .ok (a, s') → s'.Above floor ∧ Q a ∧
    ∃ code, s'.listing.instrs = s.listing.instrs ++ code ∧ Loose floor code

namespace Flows

variable {Q : α → Prop} {R : β → Prop} {m : Emit α} {label : Nat} {instr : Instr} {loop : Loop}

theorem pure {a : α} (h : Q a) : Flows floor (pure a : Emit α) Q := by
  intro s b s' hs hrun
  cases hrun
  exact ⟨hs, h, [], (List.append_nil _).symm, .nil⟩

theorem fail {fault : Fault} {start : Position} :
    Flows floor (Emit.fail fault start : Emit α) Q := by
  intro s a s' _ hrun
  cases hrun

theorem bind {f : α → Emit β} (hm : Flows floor m Q) (hf : ∀ a, Q a → Flows floor (f a) R) :
    Flows floor (m >>= f) R := by
  intro s b s' hs hrun
  obtain ⟨a, s₁, h₁, h₂⟩ := run_bind.mp hrun
  obtain ⟨hs₁, hQ, code₁, hcode₁, hloose₁⟩ := hm s a s₁ hs h₁
  obtain ⟨hs', hR, code₂, hcode₂, hloose₂⟩ := hf a hQ s₁ b s' hs₁ h₂
  exact ⟨hs', hR, code₁ ++ code₂, by rw [hcode₂, hcode₁, List.append_assoc], hloose₁.append hloose₂⟩

theorem ite {c : Prop} [Decidable c] {n : Emit α} (hm : Flows floor m Q) (hn : Flows floor n Q) :
    Flows floor (if c then m else n) Q := by
  split
  · exact hm
  · exact hn

/-- The labels of the loops around are in hand. -/
theorem get_bind {f : Emitter → Emit α} (h : ∀ s : Emitter, s.Above floor → Flows floor (f s) Q) :
    Flows floor (get >>= f) Q :=
  fun s a s' hs hrun => h s hs s a s' hs hrun

theorem modify {f : Emitter → Emitter} (hlisting : ∀ s, (f s).listing = s.listing)
    (hf : ∀ s : Emitter, s.Above floor → (f s).Above floor) :
    Flows floor (modify f : Emit Unit) fun _ => True := by
  intro s u s' hs hrun
  cases hrun
  exact ⟨hf s hs, trivial, [], by rw [hlisting, List.append_nil], .nil⟩

/-- Straight code is loose. -/
theorem straight (hm : Straight labels .any m) : Flows floor m fun _ => True := by
  intro s a s' hs hrun
  obtain ⟨code, scopes, hcode, -, hwrite⟩ := hm.repeats s a s' hrun
  have hs' := hwrite s rfl rfl
  rw [hrun] at hs'
  cases hs'
  exact ⟨⟨hs.supply, hs.loops⟩, trivial, code.map Line.instr, Listing.instrs_writeAll,
    .of_straight fun line hline => (hcode line hline).1⟩

/-! ### Lines -/

theorem line (h : Loose floor [instr]) :
    Flows floor (Emit.line instr) fun _ => True := by
  intro s u s' hs hrun
  cases hrun
  exact ⟨⟨hs.supply, hs.loops⟩, trivial, [instr], Listing.instrs_emit, h⟩

theorem returns : Flows floor (Emit.op .returns) fun _ => True :=
  line (.single rfl nofun nofun)

theorem finishBody : Flows floor Emit.finishBody fun _ => True :=
  get_bind fun _ _ => ite (pure trivial) returns

theorem jump (h : floor ≤ label) : Flows floor (Emit.jump label) fun _ => True :=
  line (.single rfl nofun fun n hn => by cases hn; exact h)

theorem place (label : Nat) : Flows floor (Emit.place label) fun _ => True :=
  line (.single rfl (fun other hother => by cases hother; exact ⟨label, rfl⟩) nofun)

/-- A test and the jump that it skips. -/
theorem test (hlabel : ∀ l, instr ≠ .lbl l) (hjump : ∀ n, instr ≠ .gto n) (h : floor ≤ label) :
    Flows floor (Emit.line instr >>= fun _ => Emit.jump label) fun _ => True := by
  intro s u s' hs hrun
  cases hrun
  refine ⟨⟨hs.supply, hs.loops⟩, trivial, [instr, .gto label], ?_, .pair hlabel hjump h⟩
  rw [Listing.instrs_emit, Listing.instrs_emit, List.append_assoc]
  rfl

/-! ### Labels -/

theorem loopLabel (start : Position) : Flows floor (Emit.loopLabel start) (floor ≤ ·) := by
  intro s n s' hs hrun
  obtain ⟨jumps, htake, rfl⟩ := run_withJumps.mp hrun
  obtain ⟨hn, hjumps⟩ := LabelSupply.above_takeLoop hs.supply htake
  exact ⟨⟨hjumps, hs.loops⟩, hn, [], (List.append_nil _).symm, .nil⟩

theorem skipLabel (start : Position) : Flows floor (Emit.skipLabel start) (floor ≤ ·) := by
  intro s n s' hs hrun
  obtain ⟨jumps, htake, rfl⟩ := run_withJumps.mp hrun
  obtain ⟨hn, hjumps⟩ := LabelSupply.above_takeSkip hs.supply htake
  exact ⟨⟨hjumps, hs.loops⟩, hn, [], (List.append_nil _).symm, .nil⟩

theorem placeSkip (h : floor ≤ label) :
    Flows floor (Emit.placeSkip label) fun _ => True :=
  bind (place label) fun _ _ => modify (fun _ => rfl) fun _ hs => ⟨hs.supply.release h, hs.loops⟩

/-! ### Control flow -/

/-- The loop that a body was written in has labels in hand. -/
theorem loopBody {body : Emit Unit} (hloop : loop.All (floor ≤ ·))
    (hbody : Flows floor body fun _ => True) :
    Flows floor (Emit.loopBody loop body) (·.All (floor ≤ ·)) := by
  refine bind (modify (fun _ => rfl) fun s hs => ⟨hs.supply, List.forall_mem_cons.mpr
    ⟨hloop, hs.loops⟩⟩) fun _ _ => bind hbody fun _ _ => get_bind fun s hs => ?_
  split
  · exact pure hloop
  · rename_i inner outer houter
    have hloops := hs.loops
    rw [houter] at hloops
    obtain ⟨hinner, hrest⟩ := List.forall_mem_cons.mp hloops
    exact bind (modify (fun _ => rfl) fun s hs => ⟨hs.supply, hrest⟩) fun _ _ => pure hinner

theorem setLoop (h : loop.All (floor ≤ ·)) :
    Flows floor (Emit.setLoop loop) fun _ => True :=
  modify (fun _ => rfl) fun _ hs => ⟨hs.supply, List.forall_mem_cons.mpr
    ⟨h, fun loop hloop => hs.loops loop (List.mem_of_mem_drop hloop)⟩⟩

theorem imp {Q' : α → Prop} (h : Flows floor m Q) (hQ : ∀ a, Q a → Q' a) :
    Flows floor m Q' :=
  fun s a s' hs hrun => (h s a s' hs hrun).imp_right (.imp_left (hQ a))

end Flows

/-! ### Statements -/

/-- The labels that are known to be in hand are at least `floor`. -/
def labelFacts (floor : Nat) : Facts
  | .label n => floor ≤ n
  | _ => True

/-- How actions that keep to the labels in hand follow each other. -/
def Flows.logic (floor : Nat) : Logic where
  words := .any
  Holds known m Q := known.Later (labelFacts floor) → Flows floor m fun a => Q a (labelFacts floor)
  pure h hknown := .pure (h _ hknown)
  bind hm hf hknown := .bind (hm hknown) fun a ha => hf a _ hknown ha fun _ => id
  mono hlater hm hknown := hm fun fact h => hknown fact (hlater fact h)
  fail _ _ _ := .fail
  read _ hf hknown := .get_bind fun s _ => hf s hknown

/-- What statements keep to. -/
def Flows.discipline (hlabels : labels.Linkable) (floor : Nat) : FlowDiscipline labels where
  toDiscipline := .ofStraight (p := .any) hlabels (Flows.logic floor) rfl
    (fun _ => ⟨trivial, trivial⟩) fun hm hQ _ => (Flows.straight hm).imp fun a _ => hQ a
  sourceOf _ _ := (Flows.straight (.sourceOf _ : Straight labels .any _)).imp
    fun _ _ => ⟨trivial, trivial⟩
  anonymous _ _ := Flows.straight (.anonymous _ : Straight labels .any _)
  fill _ _ _ := Flows.straight (.store _ _ trivial : Straight labels .any _)
  skipLabel _ _ := .skipLabel _
  loopLabel _ _ := .loopLabel _
  place n _ := .place n
  placeSkip h hknown := .placeSkip (hknown _ h)
  jump h hknown := .jump (hknown _ h)
  test hinstr h hknown := by cases hinstr <;> exact .test nofun nofun (hknown _ h)
  returns _ := .returns
  loopBody hloop hbody hknown := .loopBody (hloop.mono fun n => hknown (.label n)) (hbody _ hknown)
  setLoop h hknown := .setLoop (h.mono fun n => hknown (.label n))
  loops _ hf hknown := .get_bind fun s hs => hf s _ hknown hs.loops fun _ => id

theorem flows_ownCode (hlabels : labels.Linkable) (statements : List Stmt) :
    Flows floor (ownCode labels statements) fun _ => True :=
  FlowDiscipline.tame_ownCode (D := Flows.discipline hlabels floor) (.of_declares fun _ => trivial)
    (Script.named_any_stmts statements) (fun _ _ => trivial) (fun _ => False) fun _ => False.elim

end Emit

end Keystroke
