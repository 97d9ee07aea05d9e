import Keystroke.Proofs.JumpPools
import Keystroke.Proofs.JumpTarget

/-!
# Keeping track of two supplies of labels

A program written with labels from the pools is compared with the same program written with labels
that are never used twice. Both are kept side by side while they grow: line by line they differ only
in label numbers, and every label that is handed out and not yet placed is *held*, as a pair of its
two numbers.
-/

namespace Keystroke

/-! ### The invariant -/

/-- Two instructions are the same, or both are numbered labels, or both are jumps. -/
inductive SameButLabels : Instr → Instr → Prop where
  | same {instr : Instr} (hlabel : ∀ n, instr ≠ .lbl (.number n)) (hjump : ∀ n, instr ≠ .gto n) :
      SameButLabels instr instr
  | label (n m : Nat) : SameButLabels (.lbl (.number n)) (.lbl (.number m))
  | jump (n m : Nat) : SameButLabels (.gto n) (.gto m)

/-- A loop label has been placed, in the same line of both programs. -/
def PlacedLoop (xs ys : List Instr) (n m : Nat) : Prop :=
  Reserved.loopLabels.contains n = true ∧ ∃ place, LabelAt xs place n ∧ LabelAt ys place m

/-- A jump at `line` goes back to a loop, or forward to the next label of its number. -/
def Settled (xs ys : List Instr) (line n m : Nat) : Prop :=
  PlacedLoop xs ys n m ∨ ∃ place, line < place ∧ LabelAt xs place n ∧ LabelAt ys place m ∧
    ∀ k, line < k → k < place → ¬ LabelAt xs k n

def Waiting (xs : List Instr) (held : List (Nat × Nat)) (line n m : Nat) : Prop :=
  (n, m) ∈ held ∧ ∀ k, line < k → ¬ LabelAt xs k n

/-- Two programs, the first with labels from the pools and the second with labels that are never
used twice, after the same steps. -/
structure Tracks (xs ys : List Instr) (pools : JumpLabels) (next : Nat) (held : List (Nat × Nat)) :
    Prop where
  lines : List.Forall₂ SameButLabels xs ys
  free : ∀ n, n ∈ pools.freeSkips ↔
    Reserved.skipLabels.contains n = true ∧ n ∉ held.map Prod.fst
  ascending : pools.freeSkips.Pairwise (· < ·)
  heldSkip : ∀ p ∈ held, Reserved.skipLabels.contains p.1 = true
  heldFst : (held.map Prod.fst).Nodup
  /-- The labels of the first program come from the pools. -/
  placedFst : ∀ line n, LabelAt xs line n →
    Reserved.loopLabels.contains n = true ∧ n < pools.nextLoop ∨
      Reserved.skipLabels.contains n = true
  loopOnce : ∀ line line' n, Reserved.loopLabels.contains n = true → LabelAt xs line n →
    LabelAt xs line' n → line = line'
  heldNext : ∀ p ∈ held, 100 ≤ p.2 ∧ p.2 < next
  heldSnd : (held.map Prod.snd).Nodup
  unplaced : ∀ p ∈ held, ∀ line, ¬ LabelAt ys line p.2
  placedSnd : ∀ line m, LabelAt ys line m → 100 ≤ m ∧ m < next
  start : 100 ≤ next
  placedOnce : ∀ line line' m, LabelAt ys line m → LabelAt ys line' m → line = line'
  jumps : ∀ line n m, JumpAt xs line n → JumpAt ys line m →
    Settled xs ys line n m ∨ Waiting xs held line n m

variable {xs ys : List Instr} {pools pools' : JumpLabels} {next line n m : Nat}
  {held held' : List (Nat × Nat)}

/-- Before anything is written, all forward labels are free. -/
theorem Tracks.init : Tracks [] [] {} 100 [] where
  lines := .nil
  free := JumpLabels.Lends.init.free
  ascending := by decide
  heldSkip := by simp
  heldFst := by simp
  placedFst := by simp [InstrAt]
  loopOnce := by simp [InstrAt]
  heldNext := by simp
  heldSnd := by simp
  unplaced := by simp
  placedSnd := by simp [InstrAt]
  start := Nat.le_refl _
  placedOnce := by simp [InstrAt]
  jumps := by simp [InstrAt]

/-- The order in which labels are held does not matter. -/
theorem Tracks.perm (h : Tracks xs ys pools next held) (hperm : held.Perm held') :
    Tracks xs ys pools next held' where
  lines := h.lines
  free n := by rw [h.free, (hperm.map Prod.fst).mem_iff]
  ascending := h.ascending
  heldSkip p hp := h.heldSkip p (hperm.mem_iff.mpr hp)
  heldFst := (hperm.map Prod.fst).nodup_iff.mp h.heldFst
  placedFst := h.placedFst
  loopOnce := h.loopOnce
  heldNext p hp := h.heldNext p (hperm.mem_iff.mpr hp)
  heldSnd := (hperm.map Prod.snd).nodup_iff.mp h.heldSnd
  unplaced p hp := h.unplaced p (hperm.mem_iff.mpr hp)
  placedSnd := h.placedSnd
  start := h.start
  placedOnce := h.placedOnce
  jumps line n m hx hy := (h.jumps line n m hx hy).imp_right fun ⟨hmem, hlater⟩ =>
    ⟨hperm.mem_iff.mp hmem, hlater⟩

theorem Tracks.length_eq (h : Tracks xs ys pools next held) : xs.length = ys.length :=
  h.lines.length_eq

theorem Tracks.lends (h : Tracks xs ys pools next held) : pools.Lends (held.map Prod.fst) :=
  ⟨h.free, h.ascending, List.forall_mem_map.mpr h.heldSkip, h.heldFst⟩

/-! ### Lines with labels -/

theorem labelAt_append_other {instr : Instr} (hlabel : ∀ n, instr ≠ .lbl (.number n)) :
    LabelAt (xs ++ [instr]) line n ↔ LabelAt xs line n := by
  rw [LabelAt, instrAt_append_singleton]
  exact or_iff_left fun h => hlabel n h.2

theorem labelAt_append_label : LabelAt (xs ++ [.lbl (.number m)]) line n ↔
    LabelAt xs line n ∨ line = xs.length ∧ n = m := by
  rw [LabelAt, instrAt_append_singleton]
  simp [eq_comm]

/-- A label stands only once, also behind one that had not been placed. -/
theorem labelAt_append_once {line' : Nat}
    (honce : LabelAt xs line n → LabelAt xs line' n → line = line') (hne : ∀ k, ¬ LabelAt xs k m)
    (h : LabelAt (xs ++ [.lbl (.number m)]) line n)
    (h' : LabelAt (xs ++ [.lbl (.number m)]) line' n) : line = line' := by
  rcases labelAt_append_label.mp h with h | ⟨rfl, rfl⟩ <;>
    rcases labelAt_append_label.mp h' with h' | ⟨rfl, heq⟩
  · exact honce h h'
  · exact absurd (heq ▸ h) (hne line)
  · exact absurd h' (hne line')
  · rfl

theorem not_loopLabel (hskip : Reserved.skipLabels.contains n = true) :
    ¬ Reserved.loopLabels.contains n = true := by
  rw [skipLabels_contains] at hskip
  rw [loopLabels_contains]
  omega

/-! ### Steps -/

theorem PlacedLoop.append (h : PlacedLoop xs ys n m) (xs' ys' : List Instr) :
    PlacedLoop (xs ++ xs') (ys ++ ys') n m := by
  obtain ⟨hloop, place, hx, hy⟩ := h
  exact ⟨hloop, place, hx.append xs', hy.append ys'⟩

/-- A settled jump stays so, since its target comes before all later lines. -/
theorem Settled.append (h : Settled xs ys line n m) (xs' ys' : List Instr) :
    Settled (xs ++ xs') (ys ++ ys') line n m := by
  rcases h with hback | ⟨place, hafter, hx, hy, hfirst⟩
  · exact Or.inl (hback.append xs' ys')
  · refine Or.inr ⟨place, hafter, hx.append xs', hy.append ys', fun k hk hk' hlabel => ?_⟩
    rcases instrAt_append.mp hlabel with hlabel | ⟨hle, -⟩
    · exact hfirst k hk hk' hlabel
    · exact absurd (Nat.lt_trans hk' hx.lt) (Nat.not_lt_of_le hle)

section

variable (h : Tracks xs ys pools next held)

include h

/-- Both programs go on with a line that is no numbered label. Jumps go to labels that are held, or
back to a loop. -/
theorem Tracks.append {x y : Instr} (hline : SameButLabels x y)
    (hxlabel : ∀ n, x ≠ .lbl (.number n)) (hylabel : ∀ n, y ≠ .lbl (.number n))
    (hto : ∀ n m, x = .gto n → y = .gto m → (n, m) ∈ held ∨ PlacedLoop xs ys n m) :
    Tracks (xs ++ [x]) (ys ++ [y]) pools next held := by
  have hx : ∀ {line n}, LabelAt (xs ++ [x]) line n ↔ LabelAt xs line n :=
    labelAt_append_other hxlabel
  have hy : ∀ {line m}, LabelAt (ys ++ [y]) line m ↔ LabelAt ys line m :=
    labelAt_append_other hylabel
  refine { h with
    lines := List.rel_append h.lines (.cons hline .nil)
    placedFst := fun line n hn => h.placedFst line n (hx.mp hn)
    loopOnce := fun line line' n hn h₁ h₂ => h.loopOnce line line' n hn (hx.mp h₁) (hx.mp h₂)
    unplaced := fun p hp line hm => h.unplaced p hp line (hy.mp hm)
    placedSnd := fun line m hm => h.placedSnd line m (hy.mp hm)
    placedOnce := fun line line' m h₁ h₂ => h.placedOnce line line' m (hy.mp h₁) (hy.mp h₂)
    jumps := fun line n m h₁ h₂ => ?_ }
  rw [JumpAt, instrAt_append_singleton] at h₁ h₂
  rw [← h.length_eq] at h₂
  rcases h₁ with h₁ | ⟨rfl, hn⟩
  · have hold := h.jumps line n m h₁ (h₂.resolve_right fun h' => Nat.ne_of_lt h₁.lt h'.1)
    exact hold.imp (·.append _ _) (.imp_right fun hlater k hk hn => hlater k hk (hx.mp hn))
  · -- the new jump
    have hm := h₂.resolve_left fun h' => Nat.ne_of_lt h'.lt h.length_eq
    rcases hto n m hn hm.2 with hheld | hback
    · refine Or.inr ⟨hheld, fun k hk hlabel => ?_⟩
      exact absurd (hx.mp hlabel).lt (Nat.not_lt_of_lt hk)
    · exact Or.inl (Or.inl (hback.append _ _))

theorem Tracks.same {instr : Instr} (hlabel : ∀ n, instr ≠ .lbl (.number n))
    (hjump : ∀ n, instr ≠ .gto n) :
    Tracks (xs ++ [instr]) (ys ++ [instr]) pools next held :=
  h.append (.same hlabel hjump) hlabel hlabel fun n _ hn => absurd hn (hjump n)

theorem Tracks.jump (hto : (n, m) ∈ held ∨ PlacedLoop xs ys n m) :
    Tracks (xs ++ [.gto n]) (ys ++ [.gto m]) pools next held := by
  refine h.append (.jump n m) nofun nofun ?_
  rintro _ _ ⟨⟩ ⟨⟩
  exact hto

/-- Both programs take a label for a forward jump, which is held from then on. -/
theorem Tracks.takeSkip (htake : pools.takeSkip = .ok (n, pools')) :
    Tracks xs ys pools' (next + 1) ((n, next) :: held) := by
  have hlends := h.lends.takeSkip htake
  obtain ⟨rest, -, rfl⟩ := JumpLabels.takeSkip_eq_ok.mp htake
  refine { h with
    free := hlends.free
    ascending := hlends.ascending
    heldSkip := List.forall_mem_cons.mpr ⟨hlends.heldSkip n List.mem_cons_self, h.heldSkip⟩
    heldFst := hlends.nodup
    heldNext := List.forall_mem_cons.mpr ⟨⟨h.start, Nat.lt_succ_self next⟩, fun p hp =>
      ⟨(h.heldNext p hp).1, Nat.lt_succ_of_lt (h.heldNext p hp).2⟩⟩
    heldSnd := List.nodup_cons.mpr ⟨fun hmem => ?_, h.heldSnd⟩
    unplaced := List.forall_mem_cons.mpr ⟨fun line hlabel => ?_, h.unplaced⟩
    placedSnd := fun line m hm =>
      ⟨(h.placedSnd line m hm).1, Nat.lt_succ_of_lt (h.placedSnd line m hm).2⟩
    start := Nat.le_succ_of_le h.start
    jumps := fun line n m hx hy => (h.jumps line n m hx hy).imp_right fun ⟨hmem, hlater⟩ =>
      ⟨List.mem_cons_of_mem _ hmem, hlater⟩ }
  · obtain ⟨p, hp, hpn⟩ := List.mem_map.mp hmem
    exact absurd (h.heldNext p hp).2 (by omega)
  · exact absurd (h.placedSnd line next hlabel).2 (Nat.lt_irrefl next)

/-- Both programs take a loop label and place it. -/
theorem Tracks.takeLoop (htake : pools.takeLoop = .ok (n, pools')) :
    Tracks (xs ++ [.lbl (.number n)]) (ys ++ [.lbl (.number next)]) pools' (next + 1) held ∧
      PlacedLoop (xs ++ [.lbl (.number n)]) (ys ++ [.lbl (.number next)]) n next := by
  obtain ⟨hloop, rfl, rfl⟩ := JumpLabels.takeLoop_eq_ok.mp htake
  -- a label that was placed before is none of the two new ones
  have hxne : ∀ line, ¬ LabelAt xs line pools.nextLoop := by
    intro line hlabel
    rcases h.placedFst line _ hlabel with ⟨-, hlt⟩ | hskip
    · exact Nat.lt_irrefl _ hlt
    · exact not_loopLabel hskip hloop
  have hyne : ∀ line, ¬ LabelAt ys line next := fun line hlabel =>
    Nat.lt_irrefl _ (h.placedSnd line next hlabel).2
  refine ⟨{ h with
    lines := List.rel_append h.lines (.cons (.label _ _) .nil)
    placedFst := fun line k hk => ?_
    loopOnce := fun line line' k hk => labelAt_append_once (h.loopOnce line line' k hk) hxne
    heldNext := fun p hp => ⟨(h.heldNext p hp).1, Nat.lt_succ_of_lt (h.heldNext p hp).2⟩
    unplaced := fun p hp line hm => ?_
    placedSnd := fun line m hm => ?_
    start := Nat.le_succ_of_le h.start
    placedOnce := fun line line' m => labelAt_append_once (h.placedOnce line line' m) hyne
    jumps := fun line n m h₁ h₂ => ?_ }, hloop, xs.length, labelAt_append_label.mpr (Or.inr ⟨rfl,
      rfl⟩),
      labelAt_append_label.mpr (Or.inr ⟨h.length_eq, rfl⟩)⟩
  · rcases labelAt_append_label.mp hk with hk | ⟨-, rfl⟩
    · exact (h.placedFst line k hk).imp_left fun h' => ⟨h'.1, Nat.lt_succ_of_lt h'.2⟩
    · exact Or.inl ⟨hloop, Nat.lt_succ_self _⟩
  · rcases labelAt_append_label.mp hm with hm | ⟨-, hm⟩
    · exact h.unplaced p hp line hm
    · exact Nat.ne_of_lt (h.heldNext p hp).2 hm
  · rcases labelAt_append_label.mp hm with hm | ⟨-, rfl⟩
    · exact ⟨(h.placedSnd line m hm).1, Nat.lt_succ_of_lt (h.placedSnd line m hm).2⟩
    · exact ⟨h.start, Nat.lt_succ_self _⟩
  · rw [JumpAt, instrAt_append_singleton] at h₁ h₂
    have hold := h.jumps line n m (h₁.resolve_right (by simp)) (h₂.resolve_right (by simp))
    refine hold.imp (·.append _ _) fun hheld => ⟨hheld.1, fun k hk hn => ?_⟩
    rcases labelAt_append_label.mp hn with hn | ⟨-, rfl⟩
    · exact hheld.2 k hk hn
    · -- held labels are no loop labels
      exact not_loopLabel (h.heldSkip _ hheld.1) hloop

end

/-- Both programs place a label that is held, which is free from then on. -/
theorem Tracks.place (h : Tracks xs ys pools next ((n, m) :: held)) :
    Tracks (xs ++ [.lbl (.number n)]) (ys ++ [.lbl (.number m)]) (pools.release n) next held := by
  have hskip := h.heldSkip _ List.mem_cons_self
  have hfst : n ∉ held.map Prod.fst ∧ (held.map Prod.fst).Nodup := List.nodup_cons.mp h.heldFst
  have hsnd : m ∉ held.map Prod.snd ∧ (held.map Prod.snd).Nodup := List.nodup_cons.mp h.heldSnd
  have hlends := h.lends.release hskip
  rw [List.map_cons, List.erase_cons_head] at hlends
  have hold : ∀ p ∈ held, p ∈ (n, m) :: held := fun p hp => List.mem_cons_of_mem _ hp
  refine {
    lines := List.rel_append h.lines (.cons (.label _ _) .nil)
    free := hlends.free
    ascending := hlends.ascending
    heldSkip := fun p hp => h.heldSkip p (hold p hp)
    heldFst := hfst.2
    placedFst := fun line k hk => ?_
    loopOnce := fun line line' k hk h₁ h₂ => ?_
    heldNext := fun p hp => h.heldNext p (hold p hp)
    heldSnd := hsnd.2
    unplaced := fun p hp line hlabel => ?_
    placedSnd := fun line k hk => ?_
    start := h.start
    placedOnce := fun line line' k =>
      labelAt_append_once (h.placedOnce line line' k) (h.unplaced _ List.mem_cons_self)
    jumps := fun line k l h₁ h₂ => ?_ }
  · rcases labelAt_append_label.mp hk with hk | ⟨-, rfl⟩
    · rw [JumpLabels.nextLoop_release]
      exact h.placedFst line k hk
    · exact Or.inr hskip
  · -- the new label is no loop label
    have hkn : k ≠ n := by
      rintro rfl
      exact not_loopLabel hskip hk
    exact h.loopOnce line line' k hk ((labelAt_append_label.mp h₁).resolve_right fun h' => hkn h'.2)
      ((labelAt_append_label.mp h₂).resolve_right fun h' => hkn h'.2)
  · rcases labelAt_append_label.mp hlabel with hlabel | ⟨-, hpm⟩
    · exact h.unplaced p (hold p hp) line hlabel
    · exact hsnd.1 (hpm ▸ List.mem_map_of_mem hp)
  · rcases labelAt_append_label.mp hk with hk | ⟨-, rfl⟩
    · exact h.placedSnd line k hk
    · exact h.heldNext _ List.mem_cons_self
  · rw [JumpAt, instrAt_append_singleton] at h₁ h₂
    have h₁ := h₁.resolve_right (by simp)
    rcases h.jumps line k l h₁ (h₂.resolve_right (by simp)) with hsettled | ⟨hmem, hlater⟩
    · exact Or.inl (hsettled.append _ _)
    · rcases List.mem_cons.mp hmem with heq | hheld
      · -- the jumps that waited for this label are settled by it
        cases heq
        refine Or.inl (Or.inr ⟨xs.length, h₁.lt, labelAt_append_label.mpr (Or.inr ⟨rfl, rfl⟩),
          labelAt_append_label.mpr (Or.inr ⟨h.length_eq, rfl⟩), fun j hj hj' hlabel => ?_⟩)
        rcases labelAt_append_label.mp hlabel with hlabel | ⟨rfl, -⟩
        · exact hlater j hj hlabel
        · exact Nat.lt_irrefl _ hj'
      · refine Or.inr ⟨hheld, fun j hj hlabel => ?_⟩
        rcases labelAt_append_label.mp hlabel with hlabel | ⟨-, rfl⟩
        · exact hlater j hj hlabel
        · exact hfst.1 (List.mem_map.mpr ⟨_, hheld, rfl⟩)

/-! ### Targets -/

/-- A settled jump of the first program goes to the line that has the label of the second, and there
that label stands only once. This is so also when code with other labels follows. -/
theorem Tracks.target (h : Tracks xs ys pools next held) {rest : List Instr}
    (hrest : ∀ line k, LabelAt rest line k → 50 ≤ k ∧ k < 100) (hsettled : Settled xs ys line n m) :
    ∃ place, LabelAt xs place n ∧ LabelAt ys place m ∧
      (∀ k, LabelAt (ys ++ rest) k m ↔ k = place) ∧ jumpTarget? (xs ++ rest) line n =
        some place := by
  have honce : ∀ place, LabelAt ys place m → ∀ k, LabelAt (ys ++ rest) k m ↔ k = place := by
    intro place hplace k
    constructor
    · intro hk
      rcases instrAt_append.mp hk with hk | ⟨-, hk⟩
      · exact h.placedOnce k place m hk hplace
      · exact absurd (hrest _ _ hk).2 (Nat.not_lt_of_le (h.placedSnd place m hplace).1)
    · rintro rfl
      exact hplace.append rest
  rcases hsettled with ⟨hloop, place, hx, hy⟩ | ⟨place, hafter, hx, hy, hfirst⟩
  · refine ⟨place, hx, hy, honce place hy, jumpTarget?_of_unique (hx.append rest) fun k hk => ?_⟩
    rcases instrAt_append.mp hk with hk | ⟨-, hk⟩
    · exact h.loopOnce k place n hloop hk hx
    · have := (hrest _ _ hk).1
      rw [loopLabels_contains] at hloop
      omega
  · refine ⟨place, hx, hy, honce place hy,
      jumpTarget?_of_first hafter (hx.append rest) fun k hk hk' hlabel => ?_⟩
    rcases instrAt_append.mp hlabel with hlabel | ⟨hle, -⟩
    · exact hfirst k hk hk' hlabel
    · exact absurd (Nat.lt_trans hk' hx.lt) (Nat.not_lt_of_le hle)

/-- The labels of the first program are numbers below those of the library. -/
theorem Tracks.label_lt (h : Tracks xs ys pools next held)
    (hlabel : LabelAt xs line n) : n < 50 := by
  rcases h.placedFst line n hlabel with ⟨hloop, -⟩ | hskip
  · rw [loopLabels_contains] at hloop
    omega
  · rw [skipLabels_contains] at hskip
    omega

end Keystroke
