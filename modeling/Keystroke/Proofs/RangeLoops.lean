import Keystroke.Proofs.DeviceExpressions
import Keystroke.Proofs.LabelAccounts
import Keystroke.Proofs.RangeCounts
import Keystroke.Proofs.RecycledLabels
import Keystroke.Proofs.ScalarLayout
import Keystroke.Proofs.VisitedStates

/-!
# Loops over ranges

The variable of a loop over a range is the packed counter itself, which is tested at the end of a
round. So a loop makes a round for each number that its counter goes through, and these need not be
the numbers of the range.
-/

namespace Keystroke

open Script (Expr Ident Stmt)
open Hardware

/-! ### Rounds -/

namespace Hardware

variable {h : Hardware} {program : List Instr} {callers : List Frame} {counter : Register}
  {entry top bottom : Nat} {continueLabel exitLabel : Option Nat} {d : Device} {value : ℚ}
  {p : Process}

def AtLine (program : List Instr) (callers : List Frame) (line : Nat) (p : Process) : Prop :=
  p.frames = ⟨program, line⟩ :: callers

/-- Whenever the run from a state comes to the label of a loop, it goes on through the lines below
the label, and these leave the counter alone. -/
def RunsThrough (h : Hardware) (program : List Instr) (callers : List Frame) (counter : Register)
    (top bottom : Nat) (p : Process) : Prop :=
  ∀ ps d, h.Passes (AtLine program callers top) ps p ⟨d, ⟨program, top⟩ :: callers⟩ →
    ∃ d', h.Path (fun q => ¬ AtLine program callers top q ∧
        q.device.registers counter = d.registers counter)
      ⟨d, ⟨program, top + 1⟩ :: callers⟩ ⟨d', ⟨program, bottom⟩ :: callers⟩ ∧
      d'.registers counter = d.registers counter

/-- The lines that close a loop with a counter. -/
def closingCode (counter : Register) (entry : Nat) (continueLabel exitLabel : Option Nat) :
    List Instr :=
  Emit.exitCode continueLabel ++ [.memory .stepCounter (.register counter), .gto entry] ++
    Emit.exitCode exitLabel

/-- A loop with a counter stands in a program, and its label nowhere else. -/
structure LoopAt (program : List Instr) (counter : Register) (entry top bottom : Nat)
    (continueLabel exitLabel : Option Nat) : Prop where
  label : LabelAt program top entry
  once : ∀ k, LabelAt program k entry → k = top
  below : top < bottom
  closing : CodeAt program bottom (closingCode counter entry continueLabel exitLabel)

/-- A label that is perhaps there is passed. -/
theorem between_exitCode {line : Nat} {label : Option Nat}
    (hcode : CodeAt program line (Emit.exitCode label)) :
    h.Path (Between program callers line (line + (Emit.exitCode label).length))
      ⟨d, ⟨program, line⟩ :: callers⟩
      ⟨d, ⟨program, line + (Emit.exitCode label).length⟩ :: callers⟩ := by
  cases label with
  | none => exact .refl
  | some n => exact between_of_advance (advance_label hcode.head)

/-- The end of a round: the counter goes on, and the run goes back to the label of the loop or
leaves the loop. -/
theorem LoopAt.path_closing
    (hloop : LoopAt program counter entry top bottom continueLabel exitLabel)
    (callers : List Frame) (hvalue : d.registers counter = some (.number value)) :
    h.Path (¬ AtLine program callers top ·) ⟨d, ⟨program, bottom⟩ :: callers⟩
      ⟨d.put counter (.number (value + (Counter.ofNumber value).stride)),
        ⟨program, if (Counter.ofNumber value).isLast then
          bottom + (closingCode counter entry continueLabel exitLabel).length else top⟩ ::
            callers⟩ := by
  obtain ⟨hbefore, hafter⟩ := codeAt_append.mp hloop.closing
  obtain ⟨hcontinue, hcount⟩ := codeAt_append.mp hbefore
  rw [List.length_append, ← Nat.add_assoc] at hafter
  have hpart : ∀ {first last : Nat} {p : Process}, bottom ≤ first →
      Between program callers first last p → ¬ AtLine program callers top p :=
    fun hle hp => hp.not_at (Or.inl (Nat.lt_of_lt_of_le hloop.below hle))
  refine .trans ((between_exitCode hcontinue).mono fun _ => hpart (Nat.le_refl _)) ?_
  have hstep := advance_count (h := h) hcount.head hvalue
  refine .trans ((between_of_advance hstep).mono fun _ => hpart (Nat.le_add_right _ _)) ?_
  cases (Counter.ofNumber value).isLast with
  | true =>
    -- the jump is skipped
    rw [if_pos rfl, if_pos rfl, closingCode, List.length_append, List.length_append,
      ← Nat.add_assoc, ← Nat.add_assoc]
    exact (between_exitCode hafter).mono fun _ =>
      hpart (Nat.le_trans (Nat.le_add_right _ _) (Nat.le_add_right _ _))
  | false =>
    have htarget : jumpTarget? program (bottom + (Emit.exitCode continueLabel).length + 1) entry =
        some top := jumpTarget?_of_unique hloop.label hloop.once
    exact (between_of_advance (advance_jump hcount.tail.head htarget)).mono fun _ =>
      hpart (Nat.le_trans (Nat.le_add_right _ _) (Nat.le_add_right _ _))

/-- The register of a counter holds a number with a given whole part. -/
def Shows (counter : Register) (p : Process) (n : ℤ) : Prop :=
  ∃ value, p.device.registers counter = some (.number value) ∧ whole value = n

/-- Inside a round, the lines that read the counter enter a number. -/
def Reads (h : Hardware) (counter : Register) (p : Process) (n : ℤ) : Prop :=
  ∀ registers : Register → Option Datum, registers counter = p.device.registers counter →
    h.Acts registers [.recallValue counter, .op .integerPart] fun levels =>
      some (levels.push (.number n))

/-- Of the number in the register, the lines that read it enter the whole part. -/
theorem Shows.reads {n : ℤ} (hshows : Shows counter p n) : h.Reads counter p n := by
  intro registers hregisters
  obtain ⟨value, hvalue, rfl⟩ := hshows
  exact acts_recallCounter (hregisters.trans hvalue) rfl

theorem LoopAt.passes (hloop : LoopAt program counter entry top bottom continueLabel exitLabel)
    (hbody : h.RunsThrough program callers counter top bottom p) (units : ℤ) (d : Device)
    (before : List Process)
    (hbefore : h.Passes (AtLine program callers top) before p ⟨d, ⟨program, top⟩ :: callers⟩)
    (hunits : d.registers counter = some (.number (ofUnits units))) :
    ∃ ps d', h.Passes (AtLine program callers top) ps ⟨d, ⟨program, top⟩ :: callers⟩
        ⟨d', ⟨program, bottom + (closingCode counter entry continueLabel exitLabel).length⟩ ::
          callers⟩ ∧
      List.Forall₂ (Shows counter) ps (counts units) := by
  have hmark : AtLine program callers top ⟨d, ⟨program, top⟩ :: callers⟩ := rfl
  have hlabel : h.step ⟨d, ⟨program, top⟩ :: callers⟩ = some ⟨d, ⟨program, top + 1⟩ :: callers⟩ :=
    step_of_advance (advance_label hloop.label)
  obtain ⟨d₁, hround, hkept⟩ := hbody before d hbefore
  have hclosing := hloop.path_closing (h := h) callers (hkept.trans hunits)
  rw [Counter.ofNumber_ofUnits, ← ofUnits_add] at hclosing
  -- one round, from the label to the line after the counter
  have hpasses := Passes.marked hmark hlabel
    ((Path.passes (hround.mono fun _ hq => hq.1)).trans hclosing.passes)
  have hshows : Shows counter ⟨d, ⟨program, top⟩ :: callers⟩ (Counter.ofUnits units).count :=
    ⟨ofUnits units, hunits, whole_ofUnits units⟩
  rw [counts]
  by_cases hlast : (Counter.ofUnits units).isLast = true
  · rw [dif_pos hlast]
    rw [if_pos hlast] at hpasses
    exact ⟨_, _, hpasses, .cons hshows .nil⟩
  · rw [dif_neg hlast]
    rw [if_neg hlast] at hpasses
    have hlt := Counter.units_lt_of_not_isLast hlast
    have hstride := Counter.stride_ofUnits_pos units
    obtain ⟨ps, d', hrest, hshown⟩ := hloop.passes hbody _ _ _ (hbefore.trans hpasses)
      (Device.registers_put_self _ _ _)
    exact ⟨_, d', hpasses.trans hrest, .cons hshows hshown⟩
termination_by (100000000 - units).toNat

end Hardware

/-! ### Bounds -/

/-- The number that a bound is, if it is a literal or left out. -/
def boundLiteral? (bound : Option Expr) (omitted : ℤ) : Option ℤ :=
  match bound with
  | some e => e.intLiteral?
  | none => some omitted

/-- The range that arguments give, if all of them are literals. -/
def literalRange? (args : List Expr) : Option IntRange := do
  let bounds ← Emit.rangeBounds? args
  let start ← boundLiteral? bounds.first 0
  let stop ← bounds.stop.intLiteral?
  let step ← boundLiteral? bounds.step 1
  return ⟨start, stop, step⟩

section Literals

variable {e : Expr} {n : ℤ}

theorem Script.Expr.isScalar_of_intLiteral? (hliteral : e.intLiteral? = some n) :
    e.isScalar [] = true := by
  fun_induction Expr.intLiteral? e generalizing n with
  | case1 | case2 => rw [isScalar]
  | case3 _ operand ih =>
    obtain ⟨m, hm, -⟩ := Option.map_eq_some_iff.mp hliteral
    exact ih hm
  | case4 => cases hliteral

/-- The code of a literal enters its number. -/
theorem Script.Expr.onLevels_of_intLiteral? (h : Hardware) (env : Env Datum)
    (hliteral : e.intLiteral? = some n) (levels : Levels Datum) :
    e.onLevels h.arithmetic env levels = some (levels.push (.number n)) := by
  fun_induction Expr.intLiteral? e generalizing n with
  | case1 _ value =>
    cases hliteral
    rfl
  | case2 _ value =>
    cases hliteral
    cases value <;> rfl
  | case3 _ operand ih =>
    obtain ⟨m, hm, rfl⟩ := Option.map_eq_some_iff.mp hliteral
    rw [onLevels, ih hm, Int.cast_neg]
    rfl
  | case4 => cases hliteral

end Literals

namespace Emit

variable {labels : FunctionLabels} {s s' : Emitter} {u : Unit} {bounds : RangeBounds}
  {start : Position} {h : Hardware} {registers : Register → Option Datum} {env : Env Datum} {n : ℤ}
  {counter : Register} {loop : Loop} {body : Emit Unit} {account : Account} {known : String → Prop}

def boundsCode (labels : FunctionLabels) (bounds : RangeBounds) : Emit Unit := do
  boundOr labels bounds.first 0
  expr labels bounds.stop
  boundOr labels bounds.step 1

theorem driving_literal {e : Expr} (hliteral : e.intLiteral? = some n) :
    Driving (h.Acts registers) env [] (fun levels => some (levels.push (.number n)))
      (expr labels e) := by
  have hdriving : Driving (h.Acts registers) env [] (e.onLevels h.arithmetic env) (expr labels e) :=
    driving_expr effects (e.scalar (Expr.isScalar_of_intLiteral? hliteral))
  rwa [funext (Expr.onLevels_of_intLiteral? h env hliteral)] at hdriving

theorem driving_boundOr {bound : Option Expr} {omitted : Nat}
    (hliteral : boundLiteral? bound omitted = some n) :
    Driving (h.Acts registers) env [] (fun levels => some (levels.push (.number n)))
      (boundOr labels bound omitted) := by
  cases bound with
  | some e => exact driving_literal hliteral
  | none =>
    cases hliteral
    exact .of_emitting (fun _ => .line _) (effects.int omitted)

theorem exists_boundsCode {range : IntRange} (h : Hardware) (registers : Register → Option Datum)
    (hstart : boundLiteral? bounds.first 0 = some range.start)
    (hstop : bounds.stop.intLiteral? = some range.stop)
    (hstep : boundLiteral? bounds.step 1 = some range.step)
    (hrun : (boundsCode labels bounds).run s = .ok (u, s')) :
    ∃ code, Emits code s s' ∧ h.Acts registers code fun levels =>
      some (((levels.push (.number range.start)).push (.number range.stop)).push
        (.number range.step)) := by
  have hdriving : Driving (h.Acts registers) (fun _ => .number 0) [] _ (boundsCode labels bounds) :=
    .bind effects (driving_boundOr hstart) fun _ =>
      .bind effects (driving_literal hstop) fun _ => driving_boundOr hstep
  exact hdriving s u s' (List.forall_mem_nil _) hrun

theorem run_checkStep {literal : Option ℤ}
    (hrun : (match literal with
      | some value => if value ≤ 0 then fail (.range .step) start else pure ()
      | _ => pure () : Emit Unit).run s = .ok (u, s')) :
    s' = s ∧ ∀ n, literal = some n → 1 ≤ n := by
  cases literal with
  | none =>
    cases hrun
    exact ⟨rfl, nofun⟩
  | some value =>
    dsimp only at hrun
    split at hrun
    · cases hrun
    · rename_i hpos
      cases hrun
      refine ⟨rfl, fun n hn => ?_⟩
      cases hn
      omega

/-- Bounds that are checked are not beyond what a counter can hold. -/
theorem run_checkBounds (hrun : (checkBounds bounds start).run s = .ok (u, s')) :
    s' = s ∧ (∀ n, bounds.stop.intLiteral? = some n → n ≤ 999) ∧
      ∀ n, boundLiteral? bounds.step 1 = some n → 1 ≤ n := by
  have hstep : (∀ n, bounds.step.bind (·.intLiteral?) = some n → 1 ≤ n) →
      ∀ n, boundLiteral? bounds.step 1 = some n → 1 ≤ n := by
    intro hliteral n hn
    cases hbound : bounds.step with
    | none =>
      rw [hbound] at hn
      cases hn
      decide
    | some e =>
      rw [hbound] at hn hliteral
      exact hliteral n hn
  -- the check of the step follows in each case of that of the end
  unfold checkBounds at hrun
  dsimp only at hrun
  split at hrun
  · rename_i value hvalue
    split at hrun
    · cases hrun
    · rename_i hle
      obtain ⟨rfl, hliteral⟩ := run_checkStep hrun
      refine ⟨rfl, fun n hn => ?_, hstep hliteral⟩
      rw [hvalue] at hn
      cases hn
      exact not_lt.mp hle
  · rename_i hnone
    obtain ⟨rfl, hliteral⟩ := run_checkStep hrun
    exact ⟨rfl, fun n hn => absurd hn (hnone n), hstep hliteral⟩

/-! ### Code -/

theorem emits_closeCounted (hrun : (closeCounted counter loop).run s = .ok (u, s')) :
    Emits (closingCode counter loop.entry loop.continueLabel loop.exitLabel) s s' := by
  obtain ⟨_, s₁, hcontinue, hrun⟩ := run_bind.mp hrun
  obtain ⟨_, s₂, hcount, hrun⟩ := run_bind.mp hrun
  obtain ⟨_, s₃, hjump, hexit⟩ := run_bind.mp hrun
  exact ((emits_placeSkip? hcontinue).trans ((emits_line hcount).trans (emits_line hjump))).trans
    (emits_placeSkip? hexit)

theorem run_loopBody {loop' : Loop} (hrun : (loopBody loop body).run s = .ok (loop', s')) :
    ∃ after, body.run { s with loops := loop :: s.loops } = .ok ((), after) ∧
      s'.listing = after.listing := by
  unfold loopBody at hrun
  rw [run_modify_bind] at hrun
  obtain ⟨u, after, hbody, hpop⟩ := run_bind.mp hrun
  refine ⟨after, hbody, ?_⟩
  rw [run_get_bind] at hpop
  split at hpop
  · cases hpop
    rfl
  · cases hpop
    rfl

theorem Idles.has {α : Type} {m : Emit α} {a : α} (hm : Idles m) (hs : s.Has account)
    (hrun : m.run s = .ok (a, s')) : s'.Has account := by
  obtain ⟨account', hs', rfl⟩ := (hm account s hs).1 a s' hrun
  exact hs'

theorem idles_boundsCode (hlabels : labels.Linkable) : Idles (boundsCode labels bounds) := by
  have hbound : ∀ bound omitted, Idles (boundOr labels bound omitted) := fun bound omitted =>
    .of_straight labels (straight_boundOr hlabels bound omitted)
  intro account
  exact (hbound _ _).bind fun _ => (Idles.expr hlabels _).bind fun _ => hbound _ _ account

/-- What a loop over a range is made of: the code of its bounds up to `first`, its opening, its body
from `inside` to `last`, and its closing. -/
structure WritesRange (labels : FunctionLabels) (target : Ident) (bounds : RangeBounds)
    (body : Emit Unit) (counter : Register) (entry : Nat) (continueLabel exitLabel : Option Nat)
    (s first inside last s' : Emitter) : Prop where
  bounds : (boundsCode labels bounds).run s = .ok ((), first)
  register : first.scopes.storeRegister target.name .rangeIndex = .ok (counter, inside.scopes)
  pooled : entry ≤ 29
  opening : inside.listing.instrs = first.listing.instrs ++
    [Routine.call .packCounter, .store counter, .lbl (.number entry)]
  body : body.run inside = .ok ((), last)
  closing : s'.listing.instrs = last.listing.instrs ++
    Hardware.closingCode counter entry continueLabel exitLabel

/-- What a loop over a range writes. -/
theorem run_forRange {target : Ident} {args : List Expr} {demand : Demand}
    (hlabels : labels.Linkable) (hs : s.Has account) (hbody : Balanced demand body)
    (hrun : (forRange labels target args start body).run s = .ok (u, s')) :
    ∃ bounds counter entry continueLabel exitLabel first inside last,
      rangeBounds? args = some bounds ∧ (checkBounds bounds start).run s = .ok ((), s) ∧
      WritesRange labels target bounds body counter entry continueLabel exitLabel
        s first inside last s' := by
  unfold forRange at hrun
  split at hrun
  · cases hrun
  · rename_i bounds hbounds
    obtain ⟨_, t₁, hcheck, hrest⟩ := run_bind.mp hrun
    have hsame : t₁ = s := (run_checkBounds hcheck).1
    rw [hsame] at hcheck hrest
    obtain ⟨_, t₂, hfirst, hrest⟩ := run_bind.mp hrest
    obtain ⟨_, t₃, hstop, hrest⟩ := run_bind.mp hrest
    obtain ⟨_, first, hstep, hrest⟩ := run_bind.mp hrest
    have hcode : (boundsCode labels bounds).run s = .ok ((), first) := by
      rw [boundsCode, run_bind_of_ok hfirst, run_bind_of_ok hstop]
      exact hstep
    have hs₁ := (idles_boundsCode hlabels).has hs hcode
    obtain ⟨_, t₄, hcall, hrest⟩ := run_bind.mp hrest
    obtain ⟨counter, t₅, hregister, hrest⟩ := run_bind.mp hrest
    obtain ⟨_, t₆, hstore, hrest⟩ := run_bind.mp hrest
    obtain ⟨entry, t₇, hlabel, hrest⟩ := run_bind.mp hrest
    obtain ⟨_, t₈, hplace, hrest⟩ := run_bind.mp hrest
    obtain ⟨loop, t₉, hloop, hclose⟩ := run_bind.mp hrest
    -- the opening takes no forward label, so the account is the same in front of the body
    have hs₄ := Idles.has (.listing _) hs₁ hcall
    have hs₅ := (Idles.of_straight labels (.storeRegister _ _ _)).has hs₄ hregister
    have hs₆ := Idles.has (.listing _) hs₅ hstore
    have hs₈ := Idles.has (.place _) (Idles.has (.loopLabel _) hs₆ hlabel) hplace
    cases hcall
    obtain ⟨scopes, hscopes, rfl⟩ := run_withScopes.mp hregister
    cases hstore
    obtain ⟨jumps, hjumps, rfl⟩ := run_withJumps.mp hlabel
    cases hplace
    have hpooled : entry ≤ 29 := by
      obtain ⟨⟨pools, hpools, -⟩, -⟩ := hs₆
      rw [hpools] at hjumps
      obtain ⟨_, htake, -⟩ := LabelSupply.takeLoop_pooled.mp hjumps
      exact loopLabels_contains.mp (JumpLabels.takeLoop_eq_ok.mp htake).1
    have hentry : loop.entry = entry := by
      obtain ⟨_, -, -, ⟨_, hrecords⟩, -⟩ :=
        (Runs.loopBody hbody (.refl account) _ hs₈).1 loop t₉ hloop
      exact hrecords.entry
    obtain ⟨last, hlast, hlisting⟩ := run_loopBody hloop
    have hclosing := (emits_closeCounted hclose).instrs
    rw [hlisting, hentry] at hclosing
    refine ⟨bounds, counter, entry, _, _, first, _, last, hbounds, hcheck, hcode, hscopes, hpooled,
      ?_, hlast, hclosing⟩
    show (((first.listing.callRoutine .packCounter).emit (.store counter) _).emit _).instrs = _
    rw [Listing.instrs_emit, Listing.instrs_emit, Listing.callRoutine_eq_write,
      Listing.instrs_write, List.append_assoc, List.append_assoc]
    rfl

namespace WritesRange

variable {target : Ident} {body : Emit Unit} {counter : Register} {entry : Nat}
  {continueLabel exitLabel : Option Nat} {first inside last : Emitter} {whole : List Instr}

section

variable {range : IntRange}
  (hwrites : WritesRange labels target bounds body counter entry continueLabel exitLabel s first
    inside last s')

include hwrites

theorem size_inside : inside.size = first.size + 2 + 1 := by
  rw [Emitter.size, hwrites.opening, List.length_append]
  rfl

/-- The code in front of the loop enters the packed counter. -/
theorem path_opening (hcode : inside.listing.instrs <+: whole)
    (hstart : boundLiteral? bounds.first 0 = some range.start)
    (hstop : bounds.stop.intLiteral? = some range.stop)
    (hstep : boundLiteral? bounds.step 1 = some range.step) (hle : range.stop ≤ 999)
    (h : Hardware) (d : Device) (callers : List Frame) :
    ∃ d', h.Path (Between whole callers s.size (first.size + 2))
        ⟨d, ⟨whole, s.size⟩ :: callers⟩ ⟨d', ⟨whole, first.size + 2⟩ :: callers⟩ ∧
      d'.registers counter =
        some (.number (ofUnits (packedUnits range.start range.stop range.step))) := by
  obtain ⟨code, hemits, hacts⟩ := exists_boundsCode h d.registers hstart hstop hstep hwrites.bounds
  have hopening : CodeAt whole first.size _ := codeAt_of_instrs hwrites.opening hcode
  have hbounds : CodeAt whole s.size code := hemits.codeAt
    ((hwrites.opening ▸ List.prefix_append _ _).trans hcode)
  obtain ⟨b, hentered⟩ := hacts whole s.size d _ callers hbounds rfl rfl
  rw [← hemits.size_eq] at hentered
  -- the three bounds are in X, Y and Z
  have hpacks := performs_packCounter (h := h) (d.flagged Reserved.scratchFlag b)
    range.start range.stop range.step d.levels.x (by exact_mod_cast hle)
  have hpacked : h.Path (Between whole callers first.size (first.size + 1)) _ _ :=
    between_of_call hopening.head hpacks
  have hstored : ∀ d : Device, h.Path (Between whole callers (first.size + 1) (first.size + 2))
      ⟨d, ⟨whole, first.size + 1⟩ :: callers⟩
      ⟨d.put counter d.levels.x, ⟨whole, first.size + 2⟩ :: callers⟩ :=
    fun d => between_of_advance (advance_store hopening.tail.head)
  have hle : s.size ≤ first.size := hemits.size_eq ▸ Nat.le_add_right _ _
  have hafter := Hardware.Between.path_trans hpacked (hstored _) (Nat.le_succ _) (Nat.le_succ _)
  refine ⟨_, Hardware.Between.path_trans hentered hafter hle (Nat.le_add_right _ _), ?_⟩
  rw [Device.registers_put_self, ← packed_intCast]
  rfl

theorem loopAt (hcode : s'.listing.instrs <+: whole)
    (hgrows : inside.listing.instrs <+: last.listing.instrs)
    (honce : ∀ line line' n, Reserved.loopLabels.contains n = true → LabelAt whole line n →
      LabelAt whole line' n → line = line') :
    LoopAt whole counter entry (first.size + 2) last.size continueLabel exitLabel := by
  have hlast : last.listing.instrs <+: whole :=
    (hwrites.closing ▸ List.prefix_append _ _).trans hcode
  have hopening : CodeAt whole first.size _ :=
    codeAt_of_instrs hwrites.opening (hgrows.trans hlast)
  have hlabel : LabelAt whole (first.size + 2) entry := hopening.tail.tail.head
  refine ⟨hlabel, fun k hk => ?_, ?_, codeAt_of_instrs hwrites.closing hcode⟩
  · exact honce k _ entry (loopLabels_contains.mpr hwrites.pooled) hk hlabel
  · have hle : inside.size ≤ last.size := hgrows.length_le
    rw [hwrites.size_inside] at hle
    exact hle

end

end WritesRange

/-! ### Reads -/

/-- Code is only appended. -/
theorem grows_block {body : List Stmt} (hsound : s.scopes.Sound known)
    (hrun : (block labels body).run s = .ok ((), s')) : s.listing.instrs <+: s'.listing.instrs := by
  have hpermitted : Permitted (.statements (· ∈ Script.storedNames body)) (block labels body) :=
    permitted_block trivial (Script.named_any_stmts body) fun _ hname => hname
  have hsteps := hpermitted.steps (hsound.mono fun _ _ => trivial) hrun
  exact hsteps.grows.map _

/-- A read of a counter writes lines that take the whole part of its register. -/
theorem emits_counter {scopes scopes' : Scopes} {id : Ident} (hsound : scopes.Sound known)
    (hstore : scopes.storeRegister id.name .rangeIndex = .ok (counter, scopes'))
    (hown : (scopes.dropAlias id.name).2.storesOwn id.name .rangeIndex = true)
    (huntouched : scopes'.Untouched id.name s.scopes)
    (hrun : (expr labels (.name id)).run s = .ok (u, s')) :
    Emits [.recallValue counter, .op .integerPart] s s' := by
  obtain ⟨halias, hlookup⟩ := Scopes.owned_storeRegister_iff hsound hstore
  have hnone := halias.mpr hown
  have hbound := hlookup hnone
  have hindex : s.scopes.isRangeIndex id.name = true := by
    rw [huntouched.isRangeIndex]
    exact Scopes.isRangeIndex_storeRegister hstore hbound
  obtain ⟨register, hget, hemits⟩ := emits_recallName hrun
  have hsame := huntouched.sameAt
  rw [Scopes.getRegister_of_no_alias (hsame.aliasTarget?.trans hnone), hsame.lookup, hbound] at hget
  cases hget
  rw [Scopes.recallCode, hindex] at hemits
  exact hemits

end Emit

/-! ### Loops over literal ranges -/

theorem literalRange?_eq_some {args : List Expr} {range : IntRange}
    (h : literalRange? args = some range) : ∃ bounds, Emit.rangeBounds? args = some bounds ∧
      boundLiteral? bounds.first 0 = some range.start ∧ bounds.stop.intLiteral? = some range.stop ∧
      boundLiteral? bounds.step 1 = some range.step := by
  obtain ⟨bounds, hbounds, h⟩ := Option.bind_eq_some_iff.mp h
  obtain ⟨start, hstart, h⟩ := Option.bind_eq_some_iff.mp h
  obtain ⟨stop, hstop, h⟩ := Option.bind_eq_some_iff.mp h
  obtain ⟨step, hstep, h⟩ := Option.bind_eq_some_iff.mp h
  cases h
  exact ⟨bounds, hbounds, hstart, hstop, hstep⟩

/-- In every state of every compilation, a loop over a literal range writes code that makes a round
for each number that the counter of the range goes through, in that order, and a read of the
variable in the body enters that number. It does so wherever the body runs through and leaves the
counter alone. These numbers are those of the range exactly if `IntRange.isCounted` says so: a range
without numbers still has a round, since the counter is only tested at the end of a round. -/
theorem range_loop_rounds {script body : List Stmt} {labels : FunctionLabels} {limit : Nat}
    {listing : Listing} {s s' : Emitter} {start callStart : Position}
    {target callee : Ident} {args : List Expr} {range : IntRange}
    (hlabels : FunctionLabels.assign script = .ok labels)
    (hlisting : Listing.ofScript labels script limit = .ok listing)
    (hs : Emit.Reaches labels script limit .pools s)
    (hargs : literalRange? args = some range)
    (hrun : (Emit.stmt labels (.forLoop start target (.call callStart callee args) body)).run s =
      .ok ((), s'))
    (hcode : s'.listing.instrs <+: listing.instrs) :
    ∃ counter top bottom inside last, (Emit.block labels body).run inside = .ok ((), last) ∧
      inside.size = top + 1 ∧ last.size = bottom ∧ last.listing.instrs <+: listing.instrs ∧
      (target.name ∉ Script.storedNames body →
        (s.scopes.dropAlias target.name).2.storesOwn target.name .rangeIndex = true →
        ∀ id : Ident, id.name = target.name → ∀ t u t',
          Emit.Visits (.statements (· ∈ Script.storedNames body))
            (Emit.block labels body) inside t →
          (Emit.expr labels (.name id)).run t = .ok (u, t') →
          Emits [.recallValue counter, .op .integerPart] t t') ∧
      (∀ (h : Hardware) (d : Device) (callers : List Frame),
        h.RunsThrough listing.instrs callers counter top bottom
          ⟨d, ⟨listing.instrs, s.size⟩ :: callers⟩ →
        ∃ rounds d', h.Passes (Hardware.AtLine listing.instrs callers top) rounds
            ⟨d, ⟨listing.instrs, s.size⟩ :: callers⟩ ⟨d', ⟨listing.instrs, s'.size⟩ :: callers⟩ ∧
          List.Forall₂ (h.Reads counter) rounds range.counted) ∧
      (range.counted = range.numbers ↔ range.isCounted = true) := by
  obtain ⟨bounds, hbounds, hstart, hstop, hstep⟩ := literalRange?_eq_some hargs
  have hlinkable := (FunctionLabels.assigned_of_assign hlabels).own
  obtain ⟨pools, hpools, hfree⟩ := hs.steps.isPool ⟨_, rfl, by decide⟩
  have haccount : s.Has ⟨pools.freeSkips, hfree, s.loops, s.scopes.depth⟩ :=
    ⟨⟨pools, hpools, rfl⟩, rfl, rfl⟩
  rw [Emit.stmt, Emit.forLoop] at hrun
  split at hrun
  · obtain ⟨bounds', counter, entry, continueLabel, exitLabel, first, inside, last,
        hbounds', hcheck,
      hwrites⟩ := Emit.run_forRange hlinkable haccount (Emit.balanced_block hlinkable body) hrun
    rw [hbounds] at hbounds'
    cases hbounds'
    obtain ⟨-, hlimit, hpositive⟩ := Emit.run_checkBounds hcheck
    -- the bounds leave the scopes alone, so those in front of the body are sound
    have hscopes : first.scopes = s.scopes := by
      obtain ⟨_, hemits, -⟩ :=
        Emit.exists_boundsCode .bare (fun _ => none) hstart hstop hstep hwrites.bounds
      exact hemits.scopes
    have hstore := hwrites.register
    rw [hscopes] at hstore
    have hsound : s.scopes.Sound fun _ => True := hs.sound.mono fun _ _ => trivial
    have hinside : inside.scopes.Sound fun _ => True :=
      hsound.storeRegister trivial (fun _ hforced => by cases hforced) hstore
    have hgrows := Emit.grows_block hinside hwrites.body
    obtain ⟨_, _, _, -, -, htracks, -⟩ := Listing.written_ofScript hlabels hlisting
    have hloop := hwrites.loopAt hcode hgrows htracks.loopOnce
    have hlast : last.listing.instrs <+: listing.instrs :=
      (hwrites.closing ▸ List.prefix_append _ _).trans hcode
    refine ⟨counter, first.size + 2, last.size, inside, last, hwrites.body,
      hwrites.size_inside, rfl, hlast, ?_, ?_, ?_⟩
    · intro hstored hown id hid t u t' hvisits hread
      have hsteps := hvisits.steps hinside
      rw [← hid] at hstore hown hstored
      exact Emit.emits_counter hsound hstore hown (hsteps.untouched not_false hstored) hread
    · intro h d callers hbody
      -- the lines in front of the loop come to its label once, with the packed counter
      obtain ⟨d₁, hpath, hcounter⟩ := hwrites.path_opening (hgrows.trans hlast) hstart hstop hstep
        (hlimit _ hstop) h d callers
      have hbefore : h.Passes (Hardware.AtLine listing.instrs callers (first.size + 2)) []
          ⟨d, ⟨listing.instrs, s.size⟩ :: callers⟩
          ⟨d₁, ⟨listing.instrs, first.size + 2⟩ :: callers⟩ :=
        (hpath.mono fun _ hp => hp.not_at (Or.inr (Nat.le_refl _))).passes
      obtain ⟨rounds, d', hpasses, hshown⟩ := hloop.passes hbody _ d₁ [] hbefore hcounter
      rw [show s'.size = s'.listing.instrs.length from rfl, hwrites.closing, List.length_append]
      exact ⟨rounds, d', hbefore.trans hpasses, hshown.imp fun _ _ hshows => hshows.reads⟩
    · exact range.counted_eq_numbers_iff (hlimit _ hstop) (hpositive _ hstep)
  · cases hrun

/-- A loop over the numbers below zero from zero on, of which there are none. Its body enters 5. -/
def emptyLoop : Stmt :=
  .forLoop {} ⟨{}, "i"⟩ (.call {} ⟨{}, Builtin.range.name⟩ [.int {} 0]) [.expression {} (.int {} 5)]

/-- A script that consists of this loop. -/
def emptyLoopScript : List Stmt :=
  [.expression {} (.call {} ⟨{}, Stmt.entryCallee⟩ [.string {} "M"]), emptyLoop]

/-- The state in front of the loop. -/
def emptyLoopStart : Emitter where
  listing := ({} : Listing).emit (.lbl (.global "M")) (some Emit.entryComment)
  scopes := .ofLimit 100

/-- The loop makes a round for zero. -/
theorem range_loop_rounds_empty : ∃ labels listing s' counter top bottom,
    FunctionLabels.assign emptyLoopScript = .ok labels ∧
    Listing.ofScript labels emptyLoopScript 100 = .ok listing ∧
    Emit.Reaches labels emptyLoopScript 100 .pools emptyLoopStart ∧
    (Emit.stmt labels emptyLoop).run emptyLoopStart = .ok ((), s') ∧
    s'.listing.instrs <+: listing.instrs ∧
    Hardware.bare.RunsThrough listing.instrs [] counter top bottom
      ⟨.blank, [⟨listing.instrs, emptyLoopStart.size⟩]⟩ ∧
    ∃ p d', Hardware.bare.Passes (Hardware.AtLine listing.instrs [] top) [p]
        ⟨.blank, [⟨listing.instrs, emptyLoopStart.size⟩]⟩ ⟨d', [⟨listing.instrs, s'.size⟩]⟩ ∧
      Hardware.bare.Reads counter p 0 ∧ (⟨0, 0, 1⟩ : IntRange).numbers = [] := by
  have hfacts : (FunctionLabels.assign emptyLoopScript).toOption.any (fun labels =>
      labels.entry = some (.global "M") ∧
        (Listing.ofScript labels emptyLoopScript 100).toOption.any (fun listing =>
          ((Emit.stmt labels emptyLoop).run emptyLoopStart).toOption.any (fun after =>
            after.2.listing.instrs <+: listing.instrs))) = true := by
    decide +kernel
  obtain ⟨labels, hlabels, hfacts⟩ := exists_ok_of_any hfacts
  obtain ⟨hentry, hfacts⟩ := of_decide_eq_true hfacts
  obtain ⟨listing, hlisting, hfacts⟩ := exists_ok_of_any hfacts
  obtain ⟨⟨_, s'⟩, hrun, hprefix⟩ := exists_ok_of_any hfacts
  have hcode : s'.listing.instrs <+: listing.instrs := of_decide_eq_true hprefix
  have hreaches : Emit.Reaches labels emptyLoopScript 100 .pools emptyLoopStart := by
    refine .first ?_
    unfold Emit.entryCode
    rw [hentry]
    exact .next (.emitted trivial) rfl (.start _ _)
  have hargs : literalRange? [.int {} 0] = some ⟨0, 0, 1⟩ := rfl
  obtain ⟨counter, top, bottom, inside, last, hbody, hinside, rfl, hlast, -, hrounds, -⟩ :=
    range_loop_rounds hlabels hlisting hreaches hargs hrun hcode
  -- the body is the one line that enters 5
  rw [Emit.block, Emit.stmt, Emit.expr] at hbody
  cases hbody
  have hline : CodeAt listing.instrs inside.size [.int 5] :=
    codeAt_of_instrs Listing.instrs_emit hlast
  have hsize : (inside.listing.emit (.int 5)).instrs.length = top + 1 + 1 := by
    rw [Listing.instrs_emit, List.length_append, ← hinside]
    rfl
  have hbody : Hardware.bare.RunsThrough listing.instrs [] counter top
      (inside.listing.emit (.int 5)).instrs.length
      ⟨.blank, [⟨listing.instrs, emptyLoopStart.size⟩]⟩ := by
    intro rounds d _
    rw [hsize]
    refine ⟨d.holding (d.levels.push (.number 5)), .single ⟨?_, rfl⟩ ?_, rfl⟩
    · rintro ⟨⟩
    · exact Hardware.step_of_advance (Hardware.advance_of_attempt (hinside ▸ hline.head) rfl rfl)
  obtain ⟨rounds, d', hpasses, hreads⟩ := hrounds .bare .blank [] hbody
  have hcounted : (⟨0, 0, 1⟩ : IntRange).counted = [0] := by decide +kernel
  rw [hcounted] at hreads
  obtain ⟨p, _, hread, hrest, rfl⟩ := List.forall₂_cons_right_iff.mp hreads
  cases hrest
  exact ⟨labels, listing, s', counter, top, _, hlabels, hlisting, hreaches, hrun,
    hcode, hbody, p, d', hpasses, hread, by decide +kernel⟩

end Keystroke
