import Keystroke.Proofs.LabelTracking
import Keystroke.Proofs.StraightCode

/-!
# Writing a program with two supplies of labels

The same script is written twice, once with labels from the pools and once with labels that are
never used twice. The two runs go in lockstep: if the first succeeds, so does the second, and their
programs stay as `Tracks` says.
-/

namespace Keystroke

variable {α β γ δ : Type}

/-! ### Actions in lockstep -/

namespace Emit

/-- Whenever the first of two actions succeeds, so does the second. What holds of their states
before makes something hold of their results and of their states after. -/
def Twin (P : Emitter → Emitter → Prop) (m : Emit α) (n : Emit β)
    (Q : α → β → Emitter → Emitter → Prop) : Prop :=
  ∀ s t a s', P s t → m.run s = .ok (a, s') → ∃ b t', n.run t = .ok (b, t') ∧ Q a b s' t'

namespace Twin

variable {P P' : Emitter → Emitter → Prop} {Q Q' : α → β → Emitter → Emitter → Prop}
  {R : γ → δ → Emitter → Emitter → Prop} {m : Emit α} {n : Emit β}

theorem pure {a : α} {b : β} (h : ∀ s t, P s t → Q a b s t) :
    Twin P (pure a : Emit α) (pure b : Emit β) Q := by
  intro s t a' s' hst hrun
  cases hrun
  exact ⟨b, t, rfl, h s t hst⟩

theorem fail {fault : Fault} {start : Position} : Twin P (Emit.fail fault start : Emit α) n Q := by
  intro s t a s' _ hrun
  cases hrun

theorem bind {f : α → Emit γ} {g : β → Emit δ} (h : Twin P m n Q)
    (hnext : ∀ a b, Twin (Q a b) (f a) (g b) R) : Twin P (m >>= f) (n >>= g) R := by
  intro s t c s' hst hrun
  obtain ⟨a, s₁, hm, hf⟩ := run_bind.mp hrun
  obtain ⟨b, t₁, hn, hst₁⟩ := h s t a s₁ hst hm
  obtain ⟨d, t', hg, hst'⟩ := hnext a b s₁ t₁ c s' hst₁ hf
  exact ⟨d, t', run_bind.mpr ⟨b, t₁, hn, hg⟩, hst'⟩

theorem imp (h : Twin P m n Q) (hpre : ∀ s t, P' s t → P s t)
    (hpost : ∀ a b s t, Q a b s t → Q' a b s t) : Twin P' m n Q' := by
  intro s t a s' hst hrun
  obtain ⟨b, t', hn, hst'⟩ := h s t a s' (hpre s t hst) hrun
  exact ⟨b, t', hn, hpost a b s' t' hst'⟩

/-- Both states are read before the actions go on. -/
theorem get_bind {f : Emitter → Emit α} {g : Emitter → Emit β}
    (h : ∀ s t, P s t → Twin P (f s) (g t) Q) : Twin P (get >>= f) (get >>= g) Q := by
  intro s t a s' hst hrun
  exact h s t hst s t a s' hst hrun

theorem modify {f g : Emitter → Emitter} {Q : Emitter → Emitter → Prop}
    (h : ∀ s t, P s t → Q (f s) (g t)) :
    Twin P (modify f : Emit Unit) (modify g) fun _ _ => Q := by
  intro s t a s' hst hrun
  cases hrun
  exact ⟨(), g t, rfl, h s t hst⟩

end Twin

end Emit

/-! ### Aligned states -/

/-- A loop with its labels from both supplies. -/
structure LoopPair where
  entry : Nat × Nat
  continuesAtEntry : Bool
  continueLabel : Option (Nat × Nat) := none
  exitLabel : Option (Nat × Nat) := none

namespace LoopPair

/-- The loop with labels from the pools. -/
def fst (loop : LoopPair) : Loop :=
  ⟨loop.entry.1, loop.continuesAtEntry, loop.continueLabel.map Prod.fst,
    loop.exitLabel.map Prod.fst⟩

/-- The loop with labels that are never used twice. -/
def snd (loop : LoopPair) : Loop :=
  ⟨loop.entry.2, loop.continuesAtEntry, loop.continueLabel.map Prod.snd,
    loop.exitLabel.map Prod.snd⟩

/-- The labels that a loop holds until its end. -/
def held (loop : LoopPair) : List (Nat × Nat) :=
  loop.continueLabel.toList ++ loop.exitLabel.toList

end LoopPair

/-- A loop holds the labels of its own and those that are held inside it. -/
theorem perm_held (loop : LoopPair) (held : List (Nat × Nat)) (loops : List LoopPair) :
    ((loop.held ++ held) ++ loops.flatMap LoopPair.held).Perm
      (held ++ (loop :: loops).flatMap LoopPair.held) := by
  rw [List.flatMap_cons, ← List.append_assoc]
  exact List.perm_append_comm.append_right _

/-- Two states at the same point. The construct that is being written holds the labels `held`;
`entries` are loops that have been placed, and `loops` are the loops around. -/
structure Aligned (held entries : List (Nat × Nat)) (loops : List LoopPair) (s t : Emitter) :
    Prop where
  scopes : t.scopes = s.scopes
  needed : t.listing.needed = s.listing.needed
  lastIsString : t.listing.lastIsString = s.listing.lastIsString
  loopsFst : s.loops = loops.map LoopPair.fst
  loopsSnd : t.loops = loops.map LoopPair.snd
  placed : ∀ p ∈ entries, PlacedLoop s.listing.instrs t.listing.instrs p.1 p.2
  loopsPlaced : ∀ loop ∈ loops,
    PlacedLoop s.listing.instrs t.listing.instrs loop.entry.1 loop.entry.2
  atEntry : ∀ loop ∈ loops, loop.continuesAtEntry = true → loop.continueLabel = none
  tracks : ∃ pools next, s.jumps = .pooled pools ∧ t.jumps = .unlimited next ∧
    Tracks s.listing.instrs t.listing.instrs pools next (held ++ loops.flatMap LoopPair.held)

/-- A statement changes no loop around it but the innermost, and of that only the labels for jumps
forward. -/
def SameLoops (loops loops' : List LoopPair) : Prop :=
  loops'.tail = loops.tail ∧
    loops'.map (fun loop => (loop.entry, loop.continuesAtEntry)) =
      loops.map fun loop => (loop.entry, loop.continuesAtEntry)

/-- Two states at the same point, inside loops that had the labels `loops` before. -/
def Within (held entries : List (Nat × Nat)) (loops : List LoopPair) (s t : Emitter) : Prop :=
  ∃ loops', SameLoops loops loops' ∧ Aligned held entries loops' s t

variable {held held' entries : List (Nat × Nat)} {loops : List LoopPair} {s t : Emitter}
  {instr : Instr} {code : List Line} {pools : JumpLabels} {next : Nat}

theorem Aligned.within (h : Aligned held entries loops s t) : Within held entries loops s t :=
  ⟨loops, ⟨rfl, rfl⟩, h⟩

/-- The order in which labels are held does not matter. -/
theorem Aligned.perm {loops' : List LoopPair} (h : Aligned held entries loops s t)
    (hperm : (held ++ loops.flatMap LoopPair.held).Perm (held' ++ loops'.flatMap LoopPair.held))
    (hfst : s.loops = loops'.map LoopPair.fst) (hsnd : t.loops = loops'.map LoopPair.snd)
    (hplaced : ∀ loop ∈ loops',
      PlacedLoop s.listing.instrs t.listing.instrs loop.entry.1 loop.entry.2)
    (hatEntry : ∀ loop ∈ loops', loop.continuesAtEntry = true → loop.continueLabel = none) :
    Aligned held' entries loops' s t := by
  obtain ⟨pools, next, hs, ht, htracks⟩ := h.tracks
  exact { h with
    loopsFst := hfst
    loopsSnd := hsnd
    loopsPlaced := hplaced
    atEntry := hatEntry
    tracks := ⟨pools, next, hs, ht, htracks.perm hperm⟩ }

namespace Emit

/-- A step that works for the actual labels of the loops around works inside these loops. -/
theorem Twin.within {m : Emit α} {n : Emit β} {held' entries' : α → β → List (Nat × Nat)}
    (h : ∀ loops, Twin (Aligned held entries loops) m n fun a b =>
      Within (held' a b) (entries' a b) loops) :
    Twin (Within held entries loops) m n fun a b => Within (held' a b) (entries' a b) loops := by
  rintro s t a s' ⟨loops₁, hsame, hal⟩ hrun
  obtain ⟨b, t', hn, loops₂, hsame', hal'⟩ := h loops₁ s t a s' hal hrun
  exact ⟨b, t', hn, loops₂, ⟨hsame'.1.trans hsame.1, hsame'.2.trans hsame.2⟩, hal'⟩

end Emit

/-! ### Steps -/

/-- Lines that make the same calls and are of the same kinds. -/
def SameCalls (code code' : List Line) : Prop :=
  List.Forall₂ (fun line line' => Routine.ofCall? line'.instr = Routine.ofCall? line.instr ∧
    line'.kind = line.kind) code code'

theorem SameCalls.refl (code : List Line) : SameCalls code code :=
  List.forall₂_same.mpr fun _ _ => ⟨rfl, rfl⟩

theorem SameCalls.single {instr' : Instr} (h : Routine.ofCall? instr' = Routine.ofCall? instr) :
    SameCalls [{ instr }] [{ instr := instr' }] :=
  .cons ⟨h, rfl⟩ .nil

/-- Such lines make listings need the same routines and end alike. -/
theorem SameCalls.writeAll {code' : List Line} (h : SameCalls code code')
    {listing listing' : Listing} (hneeded : listing'.needed = listing.needed)
    (hlast : listing'.lastIsString = listing.lastIsString) :
    (listing'.writeAll code').needed = (listing.writeAll code).needed ∧
      (listing'.writeAll code').lastIsString = (listing.writeAll code).lastIsString := by
  induction h generalizing listing listing' with
  | nil => exact ⟨hneeded, hlast⟩
  | cons hline _ ih =>
    refine ih ?_ ?_
    · unfold Listing.write
      rw [hline.1]
      split
      · show (listing'.need _).needed = (listing.need _).needed
        unfold Listing.need
        rw [hneeded]
        split
        · exact hneeded
        · rfl
      · exact hneeded
    · rw [Listing.lastIsString_write, Listing.lastIsString_write, hline.2]

/-- Both states grow by lines that make the same calls. -/
theorem Aligned.grow {s' t' : Emitter} (h : Aligned held entries loops s t)
    (code code' : List Line)
    (hs : s'.listing = s.listing.writeAll code) (ht : t'.listing = t.listing.writeAll code')
    (hcalls : SameCalls code code') (hscopes : t'.scopes = s'.scopes)
    (hloops : s'.loops = s.loops) (hloops' : t'.loops = t.loops)
    (htracks : ∃ pools next, s'.jumps = .pooled pools ∧ t'.jumps = .unlimited next ∧
      Tracks (s.listing.instrs ++ code.map (·.instr)) (t.listing.instrs ++ code'.map (·.instr))
        pools next (held' ++ loops.flatMap LoopPair.held)) :
    Aligned held' entries loops s' t' where
  scopes := hscopes
  needed := by
    rw [hs, ht]
    exact (hcalls.writeAll h.needed h.lastIsString).1
  lastIsString := by
    rw [hs, ht]
    exact (hcalls.writeAll h.needed h.lastIsString).2
  loopsFst := hloops.trans h.loopsFst
  loopsSnd := hloops'.trans h.loopsSnd
  placed p hp := by
    rw [hs, ht, Listing.instrs_writeAll, Listing.instrs_writeAll]
    exact (h.placed p hp).append _ _
  loopsPlaced loop hloop := by
    rw [hs, ht, Listing.instrs_writeAll, Listing.instrs_writeAll]
    exact (h.loopsPlaced loop hloop).append _ _
  atEntry := h.atEntry
  tracks := by
    rw [hs, ht, Listing.instrs_writeAll, Listing.instrs_writeAll]
    exact htracks

/-- Instructions that have nothing to do with numbered labels. -/
def Instr.IsPlain (instr : Instr) : Prop :=
  (∀ n, instr ≠ .lbl (.number n)) ∧ ∀ n, instr ≠ .gto n

theorem Instr.IsStraight.isPlain {labels : FunctionLabels} {p : Vocabulary}
    (h : instr.IsStraight labels p) : instr.IsPlain := by
  constructor <;>
  · rintro n rfl
    exact h

theorem Tracks.sameAll {xs ys code : List Instr} (h : Tracks xs ys pools next held)
    (hcode : ∀ instr ∈ code, instr.IsPlain) :
    Tracks (xs ++ code) (ys ++ code) pools next held := by
  induction code generalizing xs ys with
  | nil => simpa using h
  | cons instr code ih =>
    obtain ⟨hlabel, hjump⟩ := hcode instr List.mem_cons_self
    have hrest := ih (h.same hlabel hjump) fun i hi => hcode i (List.mem_cons_of_mem instr hi)
    simpa using hrest

variable {n : Nat}

/-- Both states place a new loop label. -/
theorem Aligned.openLoop {pools' : JumpLabels} (h : Aligned held entries loops s t)
    (hs : s.jumps = .pooled pools) (ht : t.jumps = .unlimited next)
    (htake : pools.takeLoop = .ok (n, pools')) :
    Aligned held ((n, next) :: entries) loops
      { s with jumps := .pooled pools', listing := s.listing.emit (.lbl (.number n)) }
      { t with jumps := .unlimited (next + 1), listing :=
        t.listing.emit (.lbl (.number next)) } := by
  obtain ⟨pools₁, next₁, hs₁, ht₁, htracks⟩ := h.tracks
  cases hs.symm.trans hs₁
  cases ht.symm.trans ht₁
  obtain ⟨htracks, hplaced⟩ := htracks.takeLoop htake
  have hgrown : Aligned held entries loops
      { s with jumps := .pooled pools', listing := s.listing.emit (.lbl (.number n)) }
      { t with jumps := .unlimited (next + 1), listing := t.listing.emit (.lbl (.number next)) } :=
    h.grow [{ instr := .lbl (.number n) }] [{ instr := .lbl (.number next) }]
      (Listing.emit_eq_write rfl) (Listing.emit_eq_write rfl) (.single rfl) h.scopes rfl rfl
      ⟨_, _, rfl, rfl, htracks⟩
  refine { hgrown with placed := List.forall_mem_cons.mpr ⟨?_, hgrown.placed⟩ }
  rw [Listing.emit_eq_write rfl, Listing.emit_eq_write rfl, Listing.instrs_write,
    Listing.instrs_write]
  exact hplaced

variable {m : Nat}

theorem Aligned.jump (h : Aligned held entries loops s t)
    (hto : (n, m) ∈ held ++ loops.flatMap LoopPair.held ∨
      PlacedLoop s.listing.instrs t.listing.instrs n m) :
    Aligned held entries loops { s with listing := s.listing.emit (.gto n) }
      { t with listing := t.listing.emit (.gto m) } := by
  obtain ⟨pools, next, hpools, hnext, htracks⟩ := h.tracks
  exact h.grow [{ instr := .gto n }] [{ instr := .gto m }] (Listing.emit_eq_write rfl)
    (Listing.emit_eq_write rfl) (.single rfl) h.scopes rfl rfl
    ⟨pools, next, hpools, hnext, htracks.jump hto⟩

variable {loop : LoopPair}

/-- A state that enters a loop, which takes over the labels that were held for it. -/
theorem Aligned.enterLoop
    (h : Aligned (loop.held ++ held) entries loops s t) (hentry : loop.entry ∈ entries)
    (hatEntry : loop.continuesAtEntry = true → loop.continueLabel = none) :
    Aligned held entries (loop :: loops) { s with loops := loop.fst :: s.loops }
      { t with loops := loop.snd :: t.loops } := by
  obtain ⟨pools, next, hs, ht, htracks⟩ := h.tracks
  exact { h with
    loopsFst := congrArg (loop.fst :: ·) h.loopsFst
    loopsSnd := congrArg (loop.snd :: ·) h.loopsSnd
    loopsPlaced := List.forall_mem_cons.mpr ⟨h.placed _ hentry, h.loopsPlaced⟩
    atEntry := List.forall_mem_cons.mpr ⟨hatEntry, h.atEntry⟩
    tracks := ⟨pools, next, hs, ht, htracks.perm (perm_held ..)⟩ }

/-- A state that leaves a loop, whose labels have to be placed then. -/
theorem Aligned.leaveLoop {outer outer' : List Loop} (h : Aligned held entries (loop :: loops) s t)
    (hs : s.loops = loop.fst :: outer) (ht : t.loops = loop.snd :: outer') :
    Aligned (loop.held ++ held) entries loops { s with loops := outer }
      { t with loops := outer' } := by
  obtain ⟨pools, next, hpools, hnext, htracks⟩ := h.tracks
  exact { h with
    loopsFst := List.tail_eq_of_cons_eq (hs.symm.trans h.loopsFst)
    loopsSnd := List.tail_eq_of_cons_eq (ht.symm.trans h.loopsSnd)
    loopsPlaced := (List.forall_mem_cons.mp h.loopsPlaced).2
    atEntry := (List.forall_mem_cons.mp h.atEntry).2
    tracks := ⟨pools, next, hpools, hnext, htracks.perm (perm_held ..).symm⟩ }

/-- The innermost loop takes over a label that was just taken. -/
theorem Aligned.keepForLoop {loop' : LoopPair}
    (h : Aligned ((n, m) :: held) entries (loop :: loops) s t) (hentry : loop'.entry = loop.entry)
    (hheld : loop'.held.Perm ((n, m) :: loop.held))
    (hatEntry : loop'.continuesAtEntry = true → loop'.continueLabel = none) :
    Aligned held entries (loop' :: loops) { s with loops := loop'.fst :: s.loops.drop 1 }
      { t with loops := loop'.snd :: t.loops.drop 1 } := by
  obtain ⟨pools, next, hs, ht, htracks⟩ := h.tracks
  obtain ⟨hplaced, houter⟩ := List.forall_mem_cons.mp h.loopsPlaced
  refine { h with
    loopsFst := by rw [h.loopsFst]; rfl
    loopsSnd := by rw [h.loopsSnd]; rfl
    loopsPlaced := List.forall_mem_cons.mpr ⟨hentry ▸ hplaced, houter⟩
    atEntry := List.forall_mem_cons.mpr ⟨hatEntry, (List.forall_mem_cons.mp h.atEntry).2⟩
    tracks := ⟨pools, next, hs, ht, htracks.perm ?_⟩ }
  calc (n, m) :: held ++ (loop :: loops).flatMap LoopPair.held
    _ = (n, m) :: (held ++ (loop.held ++ loops.flatMap LoopPair.held)) := rfl
    List.Perm _ (held ++ (n, m) :: (loop.held ++ loops.flatMap LoopPair.held)) :=
      List.perm_middle.symm
    List.Perm _ (held ++ (loop'.held ++ loops.flatMap LoopPair.held)) :=
      (hheld.symm.append_right _).append_left held

/-- Both programs end with a return or neither does. -/
theorem Aligned.lastReturns_iff (h : Aligned held entries loops s t) :
    s.listing.lines.back?.map (·.instr) = some (.op .returns) ↔
      t.listing.lines.back?.map (·.instr) = some (.op .returns) := by
  have hlast : ∀ listing : Listing,
      listing.lines.back?.map (·.instr) = listing.instrs.reverse.head? := by
    intro listing
    rw [Listing.instrs, List.head?_reverse, List.getLast?_map]
    simp
  obtain ⟨pools, next, -, -, htracks⟩ := h.tracks
  rw [hlast, hlast]
  have hlines := List.forall₂_reverse_iff.mpr htracks.lines
  cases hs : s.listing.instrs.reverse with
  | nil =>
    rw [hs, List.forall₂_nil_left_iff] at hlines
    rw [hlines]
  | cons x xs =>
    rw [hs] at hlines
    obtain ⟨y, ys, hxy, -, ht⟩ := List.forall₂_cons_left_iff.mp hlines
    rw [ht, List.head?_cons, List.head?_cons]
    cases hxy <;> simp

namespace Emit

variable {labels : FunctionLabels}

variable {m : Emit α}

/-- Straight code is written alike. -/
theorem Twin.straight (hm : Straight labels .any m) :
    Twin (Within held entries loops) m m fun a b s t => b = a ∧ Within held entries loops s t := by
  rintro s t a s' ⟨loops', hsame, hal⟩ hrun
  obtain ⟨code, scopes, hcode, -, hwrite⟩ := hm.repeats s a s' hrun
  have hs' := hwrite s rfl rfl
  rw [hrun] at hs'
  cases hs'
  obtain ⟨pools, next, hpools, hnext, htracks⟩ := hal.tracks
  refine ⟨a, _, hwrite t hal.scopes hal.lastIsString, rfl, loops', hsame,
    hal.grow code code rfl rfl (.refl code) rfl rfl rfl
      ⟨pools, next, hpools, hnext, htracks.sameAll fun instr hinstr => ?_⟩⟩
  obtain ⟨line, hline, rfl⟩ := List.mem_map.mp hinstr
  exact (hcode line hline).1.isPlain

/-- A single line that has nothing to do with numbered labels is written alike. -/
theorem Twin.same {instr : Instr} {comment : Option String} (hplain : instr.IsPlain)
    (hcall : Routine.ofCall? instr = none) :
    Twin (Within held entries loops) (modifyListing (·.emit instr comment))
      (modifyListing (·.emit instr comment)) fun _ _ => Within held entries loops := by
  refine Twin.within fun loops => Twin.modify fun s t hal => Aligned.within ?_
  refine hal.grow [{ instr, comment }] [{ instr, comment }] (Listing.emit_eq_write hcall)
    (Listing.emit_eq_write hcall) (.refl _) hal.scopes rfl rfl ?_
  obtain ⟨pools, next, hpools, hnext, htracks⟩ := hal.tracks
  exact ⟨pools, next, hpools, hnext, htracks.same hplain.1 hplain.2⟩

variable {start : Position} {Q : α → β → Emitter → Emitter → Prop} {label : Option (Nat × Nat)}
  {body : Emit Unit} {counter : Register}

theorem Twin.takeSkip :
    Twin (Aligned held entries loops) (Emit.skipLabel start) (Emit.skipLabel start)
      fun n m => Aligned ((n, m) :: held) entries loops := by
  intro s t n s' hal hrun
  obtain ⟨jumps, htake, rfl⟩ := run_withJumps.mp hrun
  obtain ⟨pools, next, hpools, hnext, htracks⟩ := hal.tracks
  rw [hpools] at htake
  obtain ⟨pools', hpool, rfl⟩ := LabelSupply.takeSkip_pooled.mp htake
  refine ⟨next, { t with jumps := .unlimited (next + 1) },
    run_withJumps.mpr ⟨_, by rw [hnext]; rfl, rfl⟩, ?_⟩
  exact { hal with tracks := ⟨_, _, rfl, rfl, htracks.takeSkip hpool⟩ }

theorem Twin.skipLabel :
    Twin (Within held entries loops) (Emit.skipLabel start) (Emit.skipLabel start)
      fun n m => Within ((n, m) :: held) entries loops :=
  Twin.within fun _ => Twin.takeSkip.imp (fun _ _ => id) fun _ _ _ _ => Aligned.within

/-- A loop label is taken and placed at once. -/
theorem Twin.openLoop {f : Nat → Emit α} {g : Nat → Emit β}
    (hnext : ∀ n m, Twin (Within held ((n, m) :: entries) loops) (f n) (g m)
      fun _ _ => Within held' ((n, m) :: entries) loops) :
    Twin (Within held entries loops)
      (do
        let entry ← loopLabel start
        place entry
        f entry)
      (do
        let entry ← loopLabel start
        place entry
        g entry) fun _ _ => Within held' entries loops := by
  rintro s t a s' ⟨loops', hsame, hal⟩ hrun
  obtain ⟨n, s₁, hloop, hrun⟩ := run_bind.mp hrun
  obtain ⟨u, s₂, hplace, hrun⟩ := run_bind.mp hrun
  obtain ⟨jumps, htake, rfl⟩ := run_withJumps.mp hloop
  cases hplace
  obtain ⟨pools, next, hpools, hlabel, -⟩ := hal.tracks
  rw [hpools] at htake
  obtain ⟨pools', hpool, rfl⟩ := LabelSupply.takeLoop_pooled.mp htake
  obtain ⟨b, t', hg, loops₂, hsame₂, hal₂⟩ :=
    hnext n next _ _ a s' ⟨loops', hsame, hal.openLoop hpools hlabel hpool⟩ hrun
  -- a loop label that has been placed may be forgotten
  exact ⟨b, t', run_bind.mpr ⟨next, _, run_withJumps.mpr ⟨_, by rw [hlabel]; rfl, rfl⟩,
    run_bind.mpr ⟨(), _, rfl, hg⟩⟩, loops₂, hsame₂,
    { hal₂ with placed := (List.forall_mem_cons.mp hal₂.placed).2 }⟩

/-- The order in which labels are held does not matter. -/
theorem Twin.perm {n : Emit β} (h : Twin (Within held entries loops) m n Q)
    (hperm : held'.Perm held) :
    Twin (Within held' entries loops) m n Q := by
  refine h.imp ?_ fun _ _ _ _ => id
  rintro s t ⟨loops', hsame, hal⟩
  exact ⟨loops', hsame, hal.perm (hperm.append_right _) hal.loopsFst hal.loopsSnd hal.loopsPlaced
    hal.atEntry⟩

variable {n : Nat}

theorem Twin.jump {m : Nat} (hto : (n, m) ∈ held ∨ (n, m) ∈ entries) :
    Twin (Within held entries loops) (Emit.jump n) (Emit.jump m)
      fun _ _ => Within held entries loops :=
  Twin.within fun _ => Twin.modify fun _ _ hal =>
    (hal.jump (hto.imp (List.mem_append_left _) (hal.placed (n, m)))).within

theorem Twin.placeSkip {m : Nat} :
    Twin (Within ((n, m) :: held) entries loops) (Emit.placeSkip n) (Emit.placeSkip m)
      fun _ _ => Within held entries loops := by
  refine Twin.within fun loops s t a s' hal hrun => ?_
  cases hrun
  obtain ⟨pools, next, hpools, hnext, htracks⟩ := hal.tracks
  refine ⟨(), _, rfl, Aligned.within ?_⟩
  exact hal.grow [{ instr := .lbl (.number n) }] [{ instr := .lbl (.number m) }]
    (Listing.emit_eq_write rfl) (Listing.emit_eq_write rfl) (.single rfl) hal.scopes rfl rfl
    ⟨pools.release n, next, congrArg (·.release n) hpools, congrArg (·.release m) hnext,
      htracks.place⟩

/-- The labels of forward jumps that a construct may have taken are placed. -/
theorem Twin.placeSkip? :
    Twin (Within (label.toList ++ held) entries loops) (Emit.placeSkip? (label.map Prod.fst))
      (Emit.placeSkip? (label.map Prod.snd)) fun _ _ => Within held entries loops := by
  cases label with
  | none => exact Twin.pure fun _ _ h => h
  | some p => exact Twin.placeSkip

/-! ### Statements -/

/-- An action that keeps the states aligned and leaves no label of its own behind. -/
def Steady (m : Emit α) : Prop :=
  ∀ held entries loops, Twin (Within held entries loops) m m fun a b s t =>
    b = a ∧ Within held entries loops s t

namespace Steady

theorem of_straight (labels : FunctionLabels) {m : Emit α} (hm : Straight labels .any m) :
    Steady m :=
  fun _ _ _ => Twin.straight hm

theorem twin {m : Emit Unit} (hm : Steady m) :
    Twin (Within held entries loops) m m fun _ _ => Within held entries loops :=
  (hm held entries loops).imp (fun _ _ => id) fun _ _ _ _ => And.right

theorem of_twin {m : Emit Unit} (hm : ∀ held entries loops,
    Twin (Within held entries loops) m m fun _ _ => Within held entries loops) : Steady m :=
  fun held entries loops => (hm held entries loops).imp (fun _ _ => id) fun _ _ _ _ h => ⟨rfl, h⟩

theorem pure (a : α) : Steady (Pure.pure a : Emit α) :=
  fun _ _ _ => Twin.pure fun _ _ h => ⟨rfl, h⟩

theorem fail {fault : Fault} {start : Position} : Steady (Emit.fail fault start : Emit α) :=
  fun _ _ _ => Twin.fail

theorem bind {m : Emit α} {f : α → Emit β} (hm : Steady m) (hf : ∀ a, Steady (f a)) :
    Steady (m >>= f) := by
  intro held entries loops
  refine (hm held entries loops).bind fun a b => ?_
  rintro s t c s' ⟨rfl, hwithin⟩ hrun
  exact hf b held entries loops s t c s' hwithin hrun

theorem same {instr : Instr} {comment : Option String} (hplain : instr.IsPlain)
    (hcall : Routine.ofCall? instr = none) :
    Steady (modifyListing (·.emit instr comment)) :=
  of_twin fun _ _ _ => Twin.same hplain hcall

theorem op (o : Op) : Steady (Emit.op o) :=
  same ⟨by simp, by simp⟩ rfl

theorem int (value : Nat) : Steady (line (.int value)) :=
  same ⟨by simp, by simp⟩ rfl

/-- Two branches. The labels of both are held while the first is written; that of the end is held
while the second is. -/
theorem ifElse {test body : Emit Unit} {start : Position} {orElse : Option (Emit Unit)}
    (htest : Steady test) (hbody : Steady body) (horElse : ∀ branch ∈ orElse, Steady branch) :
    Steady (Emit.ifElse test start body orElse) := by
  refine of_twin fun held entries loops => ?_
  refine htest.twin.bind fun _ _ => Twin.skipLabel.bind fun thenFst thenSnd =>
    Twin.skipLabel.bind fun elseFst elseSnd => ?_
  refine (op _).twin.bind fun _ _ => (Twin.jump (Or.inl (by simp))).bind fun _ _ =>
    (Twin.jump (Or.inl (by simp))).bind fun _ _ => ?_
  refine (Twin.placeSkip.perm (.swap _ _ _)).bind fun _ _ => hbody.twin.bind fun _ _ => ?_
  cases orElse with
  | none => exact Twin.placeSkip
  | some branch =>
    refine Twin.skipLabel.bind fun endFst endSnd =>
      (Twin.jump (Or.inl (by simp))).bind fun _ _ => ?_
    refine (Twin.placeSkip.perm (.swap _ _ _)).bind fun _ _ => ?_
    exact (horElse branch rfl).twin.bind fun _ _ => Twin.placeSkip

end Steady

variable {loop : LoopPair}

/-- The body of a loop is written with the loop around it. What follows has to place the labels
that the body turned out to need. -/
theorem Twin.loopBody {f : Loop → Emit α} {g : Loop → Emit β} (hbody : Steady body)
    (hentry : loop.entry ∈ entries)
    (hatEntry : loop.continuesAtEntry = true → loop.continueLabel = none)
    (hnext : ∀ loop' : LoopPair, loop'.entry = loop.entry →
      (loop.continuesAtEntry = true → loop'.continueLabel = none) →
        Twin (Within (loop'.held ++ held) entries loops) (f loop'.fst) (g loop'.snd) Q) :
    Twin (Within (loop.held ++ held) entries loops) (Emit.loopBody loop.fst body >>= f)
      (Emit.loopBody loop.snd body >>= g) Q := by
  rintro s t a s' ⟨loops₁, hsame, hal⟩ hrun
  obtain ⟨result, s₂, hloop, hrun⟩ := run_bind.mp hrun
  unfold Emit.loopBody at hloop
  rw [run_modify_bind] at hloop
  obtain ⟨u, s₁, hrunBody, hloop⟩ := run_bind.mp hloop
  obtain ⟨u', t₁, hrunBody', loops₂, ⟨htail, hkinds⟩, hal₁⟩ :=
    hbody.twin _ _ u s₁ (hal.enterLoop hentry hatEntry).within hrunBody
  cases loops₂ with
  | nil => cases hkinds
  | cons loop' rest =>
    obtain rfl : rest = loops₁ := htail
    have hs₁ : s₁.loops = loop'.fst :: rest.map LoopPair.fst := hal₁.loopsFst
    have ht₁ : t₁.loops = loop'.snd :: rest.map LoopPair.snd := hal₁.loopsSnd
    rw [run_get_bind, hs₁] at hloop
    cases hloop
    obtain ⟨hentry', hkind⟩ := Prod.mk.inj (List.cons.inj hkinds).1
    obtain ⟨b, t', hg, hq⟩ := hnext loop' hentry'
      (fun hcontinue => hal₁.atEntry _ List.mem_cons_self (hkind.trans hcontinue)) _ _ a s'
      ⟨rest, hsame, hal₁.leaveLoop hs₁ ht₁⟩ hrun
    refine ⟨b, t', run_bind.mpr ⟨loop'.snd, _, ?_, hg⟩, hq⟩
    refine run_bind.mpr ⟨(), _, rfl, run_bind.mpr ⟨(), t₁, hrunBody', ?_⟩⟩
    rw [run_get_bind, ht₁]
    rfl

theorem Twin.leaveUnless (hlabels : labels.Linkable) (test : Script.Expr) :
    Twin (Within held entries loops) (Emit.leaveUnless labels test) (Emit.leaveUnless labels test)
      fun n m => Within ((n, m) :: held) entries loops := by
  refine (Steady.of_straight labels
    (straight_expr hlabels test)).twin.bind fun _ _ =>
    Twin.skipLabel.bind fun n m => (Steady.op _).twin.bind fun _ _ => ?_
  exact (Twin.jump (Or.inl List.mem_cons_self)).bind fun _ _ => Twin.pure fun _ _ h => h

theorem Twin.jumpForward {f g : Nat → Loop} (pair : Nat → Nat → LoopPair)
    (hlabel : ∀ p ∈ label, p ∈ loop.held) (hfst : ∀ n m, f n = (pair n m).fst)
    (hsnd : ∀ n m, g m = (pair n m).snd)
    (hsame : ∀ n m, (pair n m).entry = loop.entry ∧
      (pair n m).continuesAtEntry = loop.continuesAtEntry)
    (hheld : label = none → ∀ n m, (pair n m).held.Perm ((n, m) :: loop.held))
    (hatEntry : ∀ n m, (pair n m).continuesAtEntry = true → (pair n m).continueLabel = none) :
    Twin (Aligned held entries (loop :: loops)) (Emit.jumpForward start (label.map Prod.fst) f)
      (Emit.jumpForward start (label.map Prod.snd) g) fun _ _ =>
        Within held entries (loop :: loops) := by
  cases label with
  | some p =>
    refine Twin.modify fun s t hal => (hal.jump (Or.inl ?_)).within
    exact List.mem_append_right _ (List.mem_append_left _ (hlabel p rfl))
  | none =>
    refine Twin.takeSkip.bind fun n m => ?_
    rw [hfst n m, hsnd n m]
    have hheld := hheld rfl n m
    refine (Twin.modify fun s t hal =>
      hal.keepForLoop (hsame n m).1 hheld (hatEntry n m)).bind fun _ _ => ?_
    refine Twin.modify fun s t hal => ⟨pair n m :: loops, ⟨rfl, ?_⟩, hal.jump (Or.inl ?_)⟩
    · rw [List.map_cons, List.map_cons, (hsame n m).1, (hsame n m).2]
    · exact List.mem_append_right _ (List.mem_append_left _ (hheld.mem_iff.mpr List.mem_cons_self))

theorem Twin.closeCounted (hentry : loop.entry ∈ entries) :
    Twin (Within (loop.held ++ held) entries loops) (Emit.closeCounted counter loop.fst)
      (Emit.closeCounted counter loop.snd) fun _ _ => Within held entries loops := by
  rw [LoopPair.held, List.append_assoc]
  refine Twin.placeSkip?.bind fun _ _ =>
    (Twin.same (by simp [Instr.IsPlain]) rfl).bind fun _ _ => ?_
  exact (Twin.jump (Or.inr hentry)).bind fun _ _ => Twin.placeSkip?

theorem Twin.countedBody {m : Nat} (label : Option (Nat × Nat)) (hbody : Steady body) :
    Twin (Within (label.toList ++ held) ((n, m) :: entries) loops)
      (do
        let loop ← Emit.loopBody ⟨n, false, none, label.map Prod.fst⟩ body
        Emit.closeCounted counter loop)
      (do
        let loop ← Emit.loopBody ⟨m, false, none, label.map Prod.snd⟩ body
        Emit.closeCounted counter loop)
      fun _ _ => Within held ((n, m) :: entries) loops := by
  let loop : LoopPair := ⟨(n, m), false, none, label⟩
  refine Twin.loopBody hbody (show loop.entry ∈ (n, m) :: entries from List.mem_cons_self)
    (fun _ => rfl) fun loop' hentry _ => ?_
  exact Twin.closeCounted (hentry ▸ List.mem_cons_self)

namespace Steady

theorem whileLoop (hlabels : labels.Linkable) {start : Position} {test : Script.Expr}
    {body : Emit Unit} (hbody : Steady body) : Steady (Emit.whileLoop labels start test body) := by
  refine of_twin fun held entries loops => Twin.openLoop fun n m => ?_
  -- the label of the way out is held already when there is a condition
  have hrest : ∀ label : Option (Nat × Nat),
      Twin (Within (label.toList ++ held) ((n, m) :: entries) loops)
        (do
          let loop ← Emit.loopBody ⟨n, true, none, label.map Prod.fst⟩ body
          jump n
          placeSkip? loop.exitLabel)
        (do
          let loop ← Emit.loopBody ⟨m, true, none, label.map Prod.snd⟩ body
          jump m
          placeSkip? loop.exitLabel)
        fun _ _ => Within held ((n, m) :: entries) loops := by
    intro label
    let loop : LoopPair := ⟨(n, m), true, none, label⟩
    refine Twin.loopBody (show Steady body from hbody) (show loop.entry ∈ _ from List.mem_cons_self)
      (fun _ => rfl) fun loop' _ hcontinue => ?_
    refine (Twin.jump (Or.inr List.mem_cons_self)).bind fun _ _ => ?_
    rw [LoopPair.held, hcontinue rfl]
    exact Twin.placeSkip?
  cases htest : test.isConstantTrue with
  | true => exact hrest none
  | false =>
    simp only [Bool.false_eq_true, if_false, bind_map_left]
    exact (Twin.leaveUnless hlabels test).bind fun a b => hrest (some (a, b))

variable {target : Script.Ident} {start : Position} {body : Emit Unit}

theorem forRange (hlabels : labels.Linkable) {args : List Script.Expr} (hbody : Steady body) :
    Steady (Emit.forRange labels target args start body) := by
  unfold Emit.forRange
  split
  · exact fail
  · rename_i bounds _
    refine bind (of_straight labels (straight_checkBounds hlabels bounds start)) fun _ =>
      bind (of_straight labels
        (straight_boundOr hlabels bounds.first 0)) fun _ =>
      bind (of_straight labels (straight_expr hlabels bounds.stop)) fun _ =>
      bind (of_straight labels
        (straight_boundOr hlabels bounds.step 1)) fun _ =>
      bind (of_straight labels (.call _)) fun _ =>
      bind (of_straight labels (.storeRegister _ _ _)) fun counter =>
      bind (of_straight labels (.store _ _ trivial)) fun _ => ?_
    exact of_twin fun _ _ _ => Twin.openLoop fun n m => Twin.countedBody none hbody

/-- A loop over a container holds the label of its way out from the start. -/
theorem forElements {container : Script.Ident}
    (hbody : Steady body) : Steady (Emit.forElements target container start body) := by
  rw [forElements_eq]
  refine bind (of_straight {} (.sourceOf _)) fun source =>
    bind (of_straight {} (.anonymous _)) fun counter => of_twin fun held entries loops => ?_
  refine Twin.skipLabel.bind fun exitFst exitSnd => (int 0).twin.bind fun _ _ =>
    (of_straight {} (.selectContainer _)).twin.bind fun _ _ =>
    (of_straight {} (.call _)).twin.bind fun _ _ => (op _).twin.bind fun _ _ =>
    (Twin.jump (Or.inl List.mem_cons_self)).bind fun _ _ => (int 1).twin.bind fun _ _ =>
    (of_straight {} (.call _)).twin.bind fun _ _ =>
    (of_straight {} (.store _ _ trivial)).twin.bind fun _ _ => Twin.openLoop fun n m => ?_
  refine (of_straight {} (straight_loadRow _ _)).twin.bind fun _ _ =>
    (of_straight {} (.storeRegister _ _ _) _ _ _).bind fun item item' => ?_
  rintro s t a s' ⟨rfl, hwithin⟩ hrun
  exact (of_straight {} (.store _ _ trivial)).twin.bind
    (fun _ _ => Twin.countedBody (some (exitFst, exitSnd)) hbody) s t a s' hwithin hrun

theorem forLoop (hlabels : labels.Linkable) {iterable : Script.Expr} (hbody : Steady body) :
    Steady (Emit.forLoop labels start target iterable body) := by
  unfold Emit.forLoop
  split
  · split
    · exact forRange hlabels hbody
    · exact fail
  · exact forElements hbody
  · exact fail

/-- A `break` jumps to the label after the loop, which it may be the first to need. -/
theorem breakLoop (start : Position) : Steady (Emit.breakLoop start) := by
  refine of_twin fun held entries loops => Twin.within fun loops => Twin.get_bind fun s t hal => ?_
  rw [hal.loopsFst, hal.loopsSnd]
  rcases loops with _ | ⟨loop, outer⟩
  · exact Twin.fail
  · refine Twin.jumpForward (fun n m => { loop with exitLabel := some (n, m) })
      (fun p hp => List.mem_append_right _ (Option.mem_toList.mpr hp)) (fun _ _ => rfl)
      (fun _ _ => rfl)
      (fun _ _ => ⟨rfl, rfl⟩) (fun hexit n m => ?_) fun _ _ => hal.atEntry loop List.mem_cons_self
    rw [LoopPair.held, LoopPair.held, hexit, Option.toList_none, List.append_nil]
    exact List.perm_append_singleton _ _

/-- A `continue` jumps to the top of the loop, or to the label before the counter, which it may be
the first to need. -/
theorem continueLoop (start : Position) : Steady (Emit.continueLoop start) := by
  refine of_twin fun held entries loops => Twin.within fun loops => Twin.get_bind fun s t hal => ?_
  rw [hal.loopsFst, hal.loopsSnd]
  rcases loops with _ | ⟨loop, outer⟩
  · exact Twin.fail
  · show Twin _ (if loop.continuesAtEntry then _ else _) (if loop.continuesAtEntry then _ else _) _
    by_cases hentry : loop.continuesAtEntry = true
    · rw [if_pos hentry, if_pos hentry]
      exact Twin.modify fun s t hal =>
        (hal.jump (Or.inr (hal.loopsPlaced loop List.mem_cons_self))).within
    · rw [if_neg hentry, if_neg hentry]
      refine Twin.jumpForward (fun n m => { loop with continueLabel := some (n, m) })
        (fun p hp => List.mem_append_left _ (Option.mem_toList.mpr hp)) (fun _ _ => rfl)
        (fun _ _ => rfl) (fun _ _ => ⟨rfl, rfl⟩) (fun hlabel n m => ?_) fun _ _ h => absurd h hentry
      rw [LoopPair.held, LoopPair.held, hlabel]
      exact .refl _

end Steady

mutual

theorem steady_stmt (hlabels : labels.Linkable) :
    (statement : Script.Stmt) → Steady (stmt labels statement)
  | .pass _ => .pure ()
  | .expression _ value =>
    .of_straight labels (straight_expr hlabels value)
  | .returns _ none => .op _
  | .returns _ (some value) =>
    .bind (.of_straight labels (straight_expr hlabels value)) fun _ =>
      .op _
  | .assign _ target others value =>
    .of_straight labels (straight_assign hlabels (Script.forall_named_any (target :: others))
      (Script.named_any value) (.of_declares fun _ => trivial))
  | .augmented _ target operator value =>
    .of_straight labels (straight_augment hlabels target operator value)
  | .ifElse _ test body orElse => by
    refine .ifElse (.of_straight labels (straight_expr hlabels test))
      (steady_block hlabels body) fun branch hbranch => ?_
    split at hbranch
    · cases hbranch
    · cases hbranch
      exact steady_block hlabels orElse
  | .whileLoop _ _ body => .whileLoop hlabels (steady_block hlabels body)
  | .forLoop _ _ _ body => .forLoop hlabels (steady_block hlabels body)
  | .breaks start => .breakLoop start
  | .continues start => .continueLoop start
  | .assertion _ test =>
    .bind (.of_straight labels (straight_expr hlabels test)) fun _ =>
      .of_straight labels (.call _)
  | .functionDef _ _ _ => .fail

theorem steady_block (hlabels : labels.Linkable) :
    (statements : List Script.Stmt) → Steady (block labels statements)
  | [] => .pure ()
  | statement :: rest => .bind (steady_stmt hlabels statement) fun _ => steady_block hlabels rest

end

/-! ### Code outside loops -/

/-- An action outside all loops that keeps the states aligned. -/
def Settles (m : Emit Unit) : Prop :=
  Twin (Aligned [] [] []) m m fun _ _ => Aligned [] [] []

theorem Steady.outside (hm : Steady m) :
    Twin (Aligned [] [] []) m m fun a b s t => b = a ∧ Aligned [] [] [] s t := by
  refine (hm [] [] []).imp (fun _ _ hal => hal.within) ?_
  rintro a b s t ⟨heq, loops, ⟨-, hsame⟩, hal⟩
  obtain rfl : loops = [] := List.map_eq_nil_iff.mp hsame
  exact ⟨heq, hal⟩

theorem Steady.settles {m : Emit Unit} (hm : Steady m) : Settles m :=
  hm.outside.imp (fun _ _ => id) fun _ _ _ _ => And.right

theorem settles_finishBody : Settles finishBody := by
  refine Twin.get_bind fun s t hal => ?_
  by_cases hlast : s.listing.lines.back?.map (·.instr) = some (.op .returns)
  · rw [if_pos hlast, if_pos (hal.lastReturns_iff.mp hlast)]
    exact Twin.pure fun _ _ => id
  · rw [if_neg hlast, if_neg (hal.lastReturns_iff.not.mp hlast)]
    exact (Steady.op _).settles

theorem settles_ownCode (hlabels : labels.Linkable) (statements : List Script.Stmt) :
    Settles (ownCode labels statements) := by
  induction statements using ownCode.induct with
  | case1 => exact (Steady.pure ()).settles
  | case2 _ _ _ rest ih => exact ih
  | case3 statement rest hnot ih =>
    rw [ownCode]
    · exact (steady_stmt hlabels statement).settles.bind fun _ _ => ih
    · exact hnot

end Emit

/-- Before anything is written, the two states are aligned. -/
theorem Aligned.init (scopes : Scopes) :
    Aligned [] [] [] { scopes, jumps := .pools } { scopes, jumps := .endless } where
  scopes := rfl
  needed := rfl
  lastIsString := rfl
  loopsFst := rfl
  loopsSnd := rfl
  placed := by simp
  loopsPlaced := by simp
  atEntry := by simp
  tracks := ⟨_, _, rfl, rfl, Tracks.init⟩

end Keystroke
