import Mathlib.Tactic.Common
import Keystroke.Script.Stmt

/-!
# How many forward labels a statement needs

A condition needs labels for its branches, and a loop needs them for a `break` or a `continue` that
jumps forward. How many are in use at the same time can be read off the syntax, given what the
innermost loop around the statement has already.
-/

namespace Keystroke

/-- What the innermost loop has already: a label for a `break`, and one for a `continue`, unless
that goes back to the top. -/
structure LoopMarks where
  exits : Bool
  continues : Bool
deriving DecidableEq

namespace LoopMarks

/-- Outside of loops no label is ever asked for. -/
def outside : LoopMarks := ⟨true, true⟩

/-- The number of labels that the loop no longer asks for. -/
def count (marks : LoopMarks) : Nat :=
  marks.exits.toNat + marks.continues.toNat

theorem count_le_two (marks : LoopMarks) : marks.count ≤ 2 :=
  Nat.add_le_add (Bool.toNat_le _) (Bool.toNat_le _)

theorem eq_outside {marks : LoopMarks} (h : 2 ≤ marks.count) : marks = outside := by
  obtain ⟨exits, continues⟩ := marks
  revert exits continues
  decide

end LoopMarks

/-- The forward labels that some code needs, given what the innermost loop around it has. -/
@[ext]
structure Demand where
  after : LoopMarks → LoopMarks
  /-- The largest number of labels that are in use at once. -/
  peak : LoopMarks → Nat

namespace Demand

/-- The number of labels that the code leaves to the loop. -/
def left (demand : Demand) (marks : LoopMarks) : Nat :=
  (demand.after marks).count - marks.count

/-- Code without control flow. -/
def none : Demand := ⟨id, fun _ => 0⟩

/-- Two pieces of code in a row: what the first leaves to the loop stays in use. -/
def andThen (first second : Demand) : Demand where
  after marks := second.after (first.after marks)
  peak marks := max (first.peak marks) (first.left marks + second.peak (first.after marks))

/-- A condition without a second branch. Two labels are handed out at its start, and one of them is
in use throughout the branch. -/
def ifThen (body : Demand) : Demand where
  after := body.after
  peak marks := max 2 (1 + body.peak marks)

/-- A condition with two branches. -/
def ifElse (body orElse : Demand) : Demand where
  after marks := orElse.after (body.after marks)
  peak marks := max (body.ifThen.peak marks)
    (body.left marks + max 2 (1 + orElse.peak (body.after marks)))

/-- A loop that has marks of its own at its start, and for that takes some labels. -/
def loop (body : Demand) (taken : Nat) (marks : LoopMarks) : Demand where
  after := id
  peak _ := taken + body.peak marks

/-- A loop with a condition. It is left when the condition fails, which may not be possible. -/
def whileLoop (body : Demand) (test : Script.Expr) : Demand :=
  if test.isConstantTrue then body.loop 0 ⟨false, true⟩ else body.loop 1 ⟨true, true⟩

/-- A loop over a range or a container. A container may be empty, and then its loop is jumped
over. -/
def forLoop (body : Demand) (iterable : Script.Expr) : Demand :=
  match iterable with
  | .name _ => body.loop 1 ⟨true, false⟩
  | _ => body.loop 0 ⟨false, false⟩

def breaks : Demand where
  after marks := { marks with exits := true }
  peak marks := 1 - marks.exits.toNat

def continues : Demand where
  after marks := { marks with continues := true }
  peak marks := 1 - marks.continues.toNat

@[simp] theorem none_andThen (demand : Demand) : none.andThen demand = demand := by
  ext marks <;> simp [andThen, none, left]

end Demand

namespace Script

mutual

/-- The forward labels that a statement needs. -/
def Stmt.demand : Stmt → Demand
  | .ifElse _ _ body orElse =>
    if orElse.isEmpty then (blockDemand body).ifThen
    else (blockDemand body).ifElse (blockDemand orElse)
  | .whileLoop _ test body => (blockDemand body).whileLoop test
  | .forLoop _ _ iterable body => (blockDemand body).forLoop iterable
  | .breaks _ => .breaks
  | .continues _ => .continues
  | _ => .none

/-- The forward labels that statements in order need. -/
def blockDemand : List Stmt → Demand
  | [] => .none
  | s :: rest => s.demand.andThen (blockDemand rest)

end

mutual

/-- The number of conditions and loops that are nested in each other in a statement. -/
def Stmt.nesting : Stmt → Nat
  | .ifElse _ _ body orElse => 1 + max (blockNesting body) (blockNesting orElse)
  | .whileLoop _ _ body => 1 + blockNesting body
  | .forLoop _ _ _ body => 1 + blockNesting body
  | _ => 0

/-- The number of conditions and loops that are nested in each other in statements. -/
def blockNesting : List Stmt → Nat
  | [] => 0
  | s :: rest => max s.nesting (blockNesting rest)

end

end Script

/-! ### Nesting -/

/-- The labels in use and those that are left to the loop are bounded by a level of nesting. -/
structure Demand.Within (demand : Demand) (nesting : Nat) : Prop where
  count_le : ∀ marks, marks.count ≤ (demand.after marks).count
  peak_le : ∀ marks, demand.peak marks ≤ 2 * nesting + (2 - marks.count)

namespace Demand.Within

variable {body orElse first second : Demand} {n m : Nat}

theorem mono (h : body.Within n) (hle : n ≤ m) : body.Within m where
  count_le := h.count_le
  peak_le marks := by
    have := h.peak_le marks
    omega

theorem none : Demand.none.Within n where
  count_le _ := Nat.le_refl _
  peak_le _ := Nat.zero_le _

theorem andThen (hfirst : first.Within n) (hsecond : second.Within n) :
    (first.andThen second).Within n where
  count_le marks := Nat.le_trans (hfirst.count_le marks) (hsecond.count_le _)
  peak_le marks := by
    have hcount := hfirst.count_le marks
    have htwo := (first.after marks).count_le_two
    have hpeak := hsecond.peak_le (first.after marks)
    refine Nat.max_le.mpr ⟨hfirst.peak_le marks, ?_⟩
    rw [Demand.left]
    omega

theorem ifThen (h : body.Within n) : body.ifThen.Within (1 + n) where
  count_le := h.count_le
  peak_le marks := by
    have hpeak := h.peak_le marks
    show max 2 (1 + body.peak marks) ≤ _
    omega

theorem ifElse (hbody : body.Within n) (horElse : orElse.Within n) :
    (body.ifElse orElse).Within (1 + n) where
  count_le marks := Nat.le_trans (hbody.count_le marks) (horElse.count_le _)
  peak_le marks := by
    have hcount := hbody.count_le marks
    have htwo := (body.after marks).count_le_two
    have hpeak := horElse.peak_le (body.after marks)
    refine Nat.max_le.mpr ⟨hbody.ifThen.peak_le marks, ?_⟩
    rw [Demand.left]
    omega

theorem loop {taken : Nat} {marks : LoopMarks} (h : body.Within n) (htaken : taken ≤ marks.count) :
    (body.loop taken marks).Within (1 + n) where
  count_le _ := Nat.le_refl _
  peak_le outer := by
    have hpeak := h.peak_le marks
    have htwo := marks.count_le_two
    show taken + body.peak marks ≤ _
    omega

theorem whileLoop (test : Script.Expr) (h : body.Within n) :
    (body.whileLoop test).Within (1 + n) := by
  unfold Demand.whileLoop
  split
  · exact h.loop (by decide)
  · exact h.loop (by decide)

theorem forLoop (iterable : Script.Expr) (h : body.Within n) :
    (body.forLoop iterable).Within (1 + n) := by
  unfold Demand.forLoop
  split
  · exact h.loop (by decide)
  · exact h.loop (by decide)

theorem breaks : Demand.breaks.Within n where
  count_le marks := Nat.add_le_add_right (Bool.toNat_le _) _
  peak_le marks := by
    have := Bool.toNat_le marks.continues
    simp only [Demand.breaks, LoopMarks.count]
    omega

theorem continues : Demand.continues.Within n where
  count_le marks := Nat.add_le_add_left (Bool.toNat_le _) _
  peak_le marks := by
    have := Bool.toNat_le marks.exits
    simp only [Demand.continues, LoopMarks.count]
    omega

/-- Outside of loops, code in a row needs as many labels as the part that needs most. -/
theorem peak_andThen_outside (h : first.Within n) :
    (first.andThen second).peak .outside = max (first.peak .outside) (second.peak .outside) := by
  have hafter : first.after .outside = .outside := LoopMarks.eq_outside (h.count_le .outside)
  show max _ (first.left .outside + second.peak (first.after .outside)) = _
  rw [Demand.left, hafter, Nat.sub_self, Nat.zero_add]

end Demand.Within

namespace Script

mutual

theorem Stmt.within_demand : ∀ s : Stmt, s.demand.Within s.nesting
  | .ifElse _ _ body orElse => by
    have hbody := (within_blockDemand body).mono (Nat.le_max_left _ (blockNesting orElse))
    rw [Stmt.demand]
    split
    · exact hbody.ifThen
    · exact hbody.ifElse ((within_blockDemand orElse).mono (Nat.le_max_right _ _))
  | .whileLoop _ test body => (within_blockDemand body).whileLoop test
  | .forLoop _ _ iterable body => (within_blockDemand body).forLoop iterable
  | .breaks _ => .breaks
  | .continues _ => .continues
  | .pass _ | .expression _ _ | .returns _ _ | .assign _ _ _ _ | .augmented _ _ _ _
  | .assertion _ _ | .functionDef _ _ _ => .none

theorem within_blockDemand : ∀ statements : List Stmt,
    (blockDemand statements).Within (blockNesting statements)
  | [] => .none
  | s :: rest => by
    exact ((Stmt.within_demand s).mono (Nat.le_max_left _ _)).andThen
      ((within_blockDemand rest).mono (Nat.le_max_right _ _))

end

/-- What has been written before makes no difference to the code that follows it. -/
theorem peak_demand_append (before after : List Stmt) :
    (blockDemand (before ++ after)).peak .outside =
      max ((blockDemand before).peak .outside) ((blockDemand after).peak .outside) := by
  induction before with
  | nil => exact (Nat.zero_max _).symm
  | cons s rest ih =>
    rw [List.cons_append, blockDemand, blockDemand, s.within_demand.peak_andThen_outside, ih,
      s.within_demand.peak_andThen_outside, Nat.max_assoc]

end Script

end Keystroke
