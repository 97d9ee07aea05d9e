import Mathlib.Data.List.Nodup
import Keystroke.Label.JumpLabels

/-!
# The pools of jump labels

Whoever takes labels from the pools sees two things: loop labels come in order and never again,
and the forward label that comes next is the lowest one that is not in use. Both hold after any
requests, also when labels are given back that were never handed out.
-/

namespace Keystroke

open Reserved

theorem loopLabels_contains {n : Nat} : loopLabels.contains n = true ↔ n ≤ 29 := by
  show (decide (0 ≤ n) && decide (n ≤ 29)) = true ↔ n ≤ 29
  simp

theorem skipLabels_contains {n : Nat} :
    skipLabels.contains n = true ↔ 30 ≤ n ∧ n ≤ 49 := by
  show (decide (30 ≤ n) && decide (n ≤ 49)) = true ↔ 30 ≤ n ∧ n ≤ 49
  simp

namespace JumpLabels

variable {jumps jumps' : JumpLabels} {held free : List Nat} {label n : Nat} {pool : JumpPool}

/-! ### What each request does -/

theorem takeLoop_eq_ok : jumps.takeLoop = .ok (n, jumps') ↔
    loopLabels.contains n = true ∧ jumps.nextLoop = n ∧
      jumps' = { jumps with nextLoop := n + 1 } := by
  unfold takeLoop
  split
  · rename_i hloop
    constructor
    · rintro ⟨⟩
      exact ⟨hloop, rfl, rfl⟩
    · rintro ⟨-, rfl, rfl⟩
      rfl
  · rename_i hloop
    constructor
    · rintro ⟨⟩
    · rintro ⟨hn, rfl, -⟩
      exact absurd hn hloop

theorem takeSkip_eq_ok : jumps.takeSkip = .ok (n, jumps') ↔
    ∃ rest, jumps.freeSkips = n :: rest ∧ jumps' = { jumps with freeSkips := rest } := by
  unfold takeSkip
  split
  · rename_i hfree
    simp [hfree]
  · rename_i first rest hfree
    rw [hfree]
    constructor
    · rintro ⟨⟩
      exact ⟨rest, rfl, rfl⟩
    · rintro ⟨_, ⟨⟩, rfl⟩
      rfl

theorem takeSkip_eq_error :
    jumps.takeSkip = .error pool ↔ jumps.freeSkips = [] ∧ pool = .skip := by
  unfold takeSkip
  split
  · rename_i hfree
    simp [hfree, eq_comm]
  · rename_i hfree
    simp [hfree]

theorem nextLoop_release (jumps : JumpLabels) (label : Nat) :
    (jumps.release label).nextLoop = jumps.nextLoop := by
  unfold release
  split <;> rfl

/-- A label that is put back is among the free ones, and nothing else changes. -/
theorem insertAscending_perm (label : Nat) (free : List Nat) :
    (insertAscending label free).Perm (label :: free) := by
  induction free with
  | nil => exact .refl _
  | cons first rest ih =>
    unfold insertAscending
    split
    · exact .refl _
    · exact (ih.cons first).trans (.swap label first rest)

theorem mem_insertAscending :
    n ∈ insertAscending label free ↔ n = label ∨ n ∈ free :=
  (insertAscending_perm label free).mem_iff.trans List.mem_cons

theorem sorted_insertAscending (hfree : free.Pairwise (· < ·)) (hlabel : label ∉ free) :
    (insertAscending label free).Pairwise (· < ·) := by
  induction free with
  | nil => simp [insertAscending]
  | cons first rest ih =>
    obtain ⟨hfirst, hrest⟩ := List.pairwise_cons.mp hfree
    have hne : label ≠ first ∧ label ∉ rest := by simpa using hlabel
    unfold insertAscending
    split
    · rename_i hlt
      refine List.pairwise_cons.mpr ⟨fun n hn => ?_, hfree⟩
      rcases List.mem_cons.mp hn with rfl | hn
      · exact hlt
      · exact Nat.lt_trans hlt (hfirst n hn)
    · refine List.pairwise_cons.mpr ⟨fun n hn => ?_, ih hrest hne.2⟩
      rcases mem_insertAscending.mp hn with rfl | hn
      · omega
      · exact hfirst n hn

/-! ### Labels in use -/

/-- The forward labels `held` are in use, and the pool has all others. -/
structure Lends (jumps : JumpLabels) (held : List Nat) : Prop where
  free : ∀ n, n ∈ jumps.freeSkips ↔ Reserved.skipLabels.contains n = true ∧ n ∉ held
  ascending : jumps.freeSkips.Pairwise (· < ·)
  heldSkip : ∀ n ∈ held, Reserved.skipLabels.contains n = true
  nodup : held.Nodup

namespace Lends

theorem init : Lends {} [] where
  free n := by
    rw [skipLabels_contains, and_iff_left List.not_mem_nil]
    show n ∈ List.range' 30 20 ↔ _
    rw [List.mem_range'_1]
    omega
  ascending := by decide
  heldSkip := by simp
  nodup := List.nodup_nil

theorem takeSkip (h : jumps.Lends held) (htake : jumps.takeSkip = .ok (n, jumps')) :
    jumps'.Lends (n :: held) := by
  obtain ⟨rest, hfree, rfl⟩ := takeSkip_eq_ok.mp htake
  have hn := (h.free n).mp (hfree ▸ List.mem_cons_self)
  have hsorted : (∀ k ∈ rest, n < k) ∧ rest.Pairwise (· < ·) := by
    simpa [hfree] using h.ascending
  refine ⟨fun k => ?_, hsorted.2, List.forall_mem_cons.mpr ⟨hn.1, h.heldSkip⟩,
    List.nodup_cons.mpr ⟨hn.2, h.nodup⟩⟩
  -- the rest of the list is what was free, without its first label
  have hk := h.free k
  rw [hfree, List.mem_cons] at hk
  rw [List.mem_cons, not_or, ← and_assoc, and_right_comm, ← hk]
  constructor
  · intro hrest
    exact ⟨Or.inr hrest, Nat.ne_of_gt (hsorted.1 k hrest)⟩
  · rintro ⟨hrest, hne⟩
    exact hrest.resolve_left hne

theorem release_eq_self (hlabel : label ∈ jumps.freeSkips) : jumps.release label = jumps :=
  if_pos (List.contains_iff_mem.mpr hlabel)

theorem release (h : jumps.Lends held) (hlabel : skipLabels.contains label = true) :
    (jumps.release label).Lends (held.erase label) := by
  by_cases hfree : label ∈ jumps.freeSkips
  · rw [release_eq_self hfree, List.erase_of_not_mem ((h.free label).mp hfree).2]
    exact h
  · rw [JumpLabels.release, if_neg (by simpa using hfree)]
    refine ⟨fun k => ?_, sorted_insertAscending h.ascending hfree,
      fun k hk => h.heldSkip k (List.mem_of_mem_erase hk), h.nodup.erase label⟩
    rw [mem_insertAscending, h.free k, h.nodup.mem_erase_iff]
    by_cases hk : k = label
    · subst hk
      simp [hlabel]
    · simp [hk]

/-- The label that comes next is the lowest that is not in use. -/
theorem takeSkip_iff (h : jumps.Lends held) :
    (∃ jumps', jumps.takeSkip = .ok (n, jumps')) ↔
      (skipLabels.contains n = true ∧ n ∉ held) ∧
        ∀ k, skipLabels.contains k = true → k ∉ held → n ≤ k := by
  constructor
  · rintro ⟨jumps', htake⟩
    obtain ⟨rest, hfree, -⟩ := takeSkip_eq_ok.mp htake
    have hascending := h.ascending
    rw [hfree, List.pairwise_cons] at hascending
    refine ⟨(h.free n).mp (hfree ▸ List.mem_cons_self), fun k hskip hheld => ?_⟩
    have hk := (h.free k).mpr ⟨hskip, hheld⟩
    rw [hfree, List.mem_cons] at hk
    rcases hk with rfl | hk
    · exact Nat.le_refl k
    · exact Nat.le_of_lt (hascending.1 k hk)
  · rintro ⟨hn, hleast⟩
    have hmem := (h.free n).mpr hn
    cases hfree : jumps.freeSkips with
    | nil => simp [hfree] at hmem
    | cons first rest =>
      have hascending := h.ascending
      rw [hfree, List.pairwise_cons] at hascending
      have hfirst := (h.free first).mp (hfree ▸ List.mem_cons_self)
      have hle := hleast first hfirst.1 hfirst.2
      rw [hfree, List.mem_cons] at hmem
      rcases hmem with rfl | hmem
      · exact ⟨_, takeSkip_eq_ok.mpr ⟨rest, hfree, rfl⟩⟩
      · exact absurd (hascending.1 n hmem) (Nat.not_lt_of_le hle)

theorem takeSkip_error_iff (h : jumps.Lends held) :
    jumps.takeSkip = .error .skip ↔
      ∀ n, skipLabels.contains n = true → n ∈ held := by
  rw [takeSkip_eq_error, and_iff_left rfl, List.eq_nil_iff_forall_not_mem]
  refine forall_congr' fun n => ?_
  rw [h.free n, not_and, not_not]

end Lends

/-! ### Requests -/

/-- A request to the pools. Only labels of forward jumps are given back. -/
inductive Request where
  | loop
  | skip
  | release (label : Nat) (h : Reserved.skipLabels.contains label = true)

/-- The pools, with the loop labels that were handed out, in order, and the forward labels that
are in use. -/
structure Served where
  jumps : JumpLabels := {}
  loops : List Nat := []
  held : List Nat := []

/-- Answers a request. One that fails leaves all as it is. -/
def Served.answer (s : Served) : Request → Served
  | .loop =>
    match s.jumps.takeLoop with
    | .ok (label, jumps) => { s with jumps, loops := s.loops ++ [label] }
    | .error _ => s
  | .skip =>
    match s.jumps.takeSkip with
    | .ok (label, jumps) => { s with jumps, held := label :: s.held }
    | .error _ => s
  | .release label _ =>
    { s with jumps := s.jumps.release label, held := s.held.erase label }

def serve (requests : List Request) : Served :=
  requests.foldl Served.answer {}

def Request.isLoop : Request → Bool
  | loop => true
  | _ => false

/-- What holds after requests, `asked` of which were for loop labels. -/
structure Served.Accounts (s : Served) (asked : Nat) : Prop where
  lends : s.jumps.Lends s.held
  next : s.jumps.nextLoop = s.loops.length
  loops : s.loops = List.range (min asked Reserved.loopLabels.size)

namespace Served.Accounts

variable {s : Served} {asked : Nat}

theorem takeLoop_eq (h : s.Accounts asked) : s.jumps.takeLoop =
    if asked < loopLabels.size then .ok (asked, { s.jumps with nextLoop := asked + 1 })
    else .error .loop := by
  have hnext : s.jumps.nextLoop = min asked 30 := by
    rw [h.next, h.loops, List.length_range]
    rfl
  show _ = if asked < 30 then _ else _
  unfold takeLoop
  by_cases hasked : asked < 30
  · rw [Nat.min_eq_left (Nat.le_of_lt hasked)] at hnext
    rw [hnext, if_pos (loopLabels_contains.mpr (Nat.le_of_lt_succ hasked)), if_pos hasked]
  · rw [Nat.min_eq_right (Nat.le_of_not_lt hasked)] at hnext
    rw [hnext, if_neg (by decide), if_neg hasked]

theorem loop (h : s.Accounts asked) : (s.answer .loop).Accounts (asked + 1) := by
  have hloops := h.loops
  unfold answer
  rw [h.takeLoop_eq]
  by_cases hasked : asked < loopLabels.size
  · rw [Nat.min_eq_left (Nat.le_of_lt hasked)] at hloops
    simp only [if_pos hasked]
    refine ⟨⟨h.lends.free, h.lends.ascending, h.lends.heldSkip, h.lends.nodup⟩, ?_, ?_⟩
    · simp [hloops]
    · rw [Nat.min_eq_left hasked, List.range_succ, hloops]
  · have hsize := Nat.le_of_not_lt hasked
    simp only [if_neg hasked]
    refine ⟨h.lends, h.next, ?_⟩
    rw [hloops, Nat.min_eq_right hsize, Nat.min_eq_right (Nat.le_succ_of_le hsize)]

theorem skip (h : s.Accounts asked) : (s.answer .skip).Accounts asked := by
  cases htake : s.jumps.takeSkip with
  | error pool =>
    rw [answer, htake]
    exact h
  | ok taken =>
    obtain ⟨label, jumps⟩ := taken
    obtain ⟨rest, -, rfl⟩ := takeSkip_eq_ok.mp htake
    rw [answer, htake]
    exact ⟨h.lends.takeSkip htake, h.next, h.loops⟩

theorem release {label : Nat} (h : s.Accounts asked)
    (hlabel : skipLabels.contains label = true) :
    (s.answer (.release label hlabel)).Accounts asked :=
  ⟨h.lends.release hlabel, (nextLoop_release _ _).trans h.next, h.loops⟩

theorem foldl (h : s.Accounts asked) (requests : List Request) :
    (requests.foldl answer s).Accounts (asked + requests.countP Request.isLoop) := by
  induction requests generalizing s asked with
  | nil => exact h
  | cons request rest ih =>
    rw [List.countP_cons]
    cases request with
    | loop => simpa [Request.isLoop, Nat.add_right_comm, Nat.add_assoc] using ih h.loop
    | skip => exact ih h.skip
    | release label hlabel => exact ih (h.release hlabel)

end Served.Accounts

theorem accounts_serve (requests : List Request) :
    (serve requests).Accounts (requests.countP Request.isLoop) := by
  have hinit : Served.Accounts {} 0 := ⟨Lends.init, rfl, rfl⟩
  simpa [serve] using hinit.foldl requests

/-- The labels that any requests are answered with. -/
theorem labels_of_requests (requests : List Request) :
    let s := serve requests
    let asked := requests.countP Request.isLoop
    s.jumps.freeSkips.reverse.Pairwise (· > ·) ∧
      (∀ n ∈ s.jumps.freeSkips, 30 ≤ n ∧ n ≤ 49) ∧
      (∀ n, (∃ jumps', s.jumps.takeSkip = .ok (n, jumps')) ↔
        (skipLabels.contains n = true ∧ n ∉ s.held) ∧
          ∀ k, skipLabels.contains k = true → k ∉ s.held → n ≤ k) ∧
      (s.jumps.takeSkip = .error .skip ↔
        ∀ n, skipLabels.contains n = true → n ∈ s.held) ∧
      s.held.Nodup ∧
      (∀ n ∈ s.jumps.freeSkips, s.jumps.release n = s.jumps) ∧
      s.loops = List.range (min asked 30) ∧
      (30 ≤ asked → s.jumps.takeLoop = .error .loop ∧ s.answer .loop = s) := by
  intro s asked
  have h : s.Accounts asked := accounts_serve requests
  refine ⟨List.pairwise_reverse.mpr h.lends.ascending,
    fun n hn => skipLabels_contains.mp ((h.lends.free n).mp hn).1,
    fun n => h.lends.takeSkip_iff, h.lends.takeSkip_error_iff, h.lends.nodup,
    fun n hn => Lends.release_eq_self hn, h.loops, fun hasked => ?_⟩
  have htake : s.jumps.takeLoop = .error .loop := by
    rw [h.takeLoop_eq]
    exact if_neg (Nat.not_lt_of_le hasked)
  refine ⟨htake, ?_⟩
  rw [Served.answer, htake]

end JumpLabels

namespace LabelSupply

variable {jumps : JumpLabels} {supply : LabelSupply} {n : Nat}

theorem takeLoop_pooled : (pooled jumps).takeLoop = .ok (n, supply) ↔
    ∃ jumps', jumps.takeLoop = .ok (n, jumps') ∧ supply = .pooled jumps' := by
  rw [takeLoop]
  cases jumps.takeLoop with
  | error pool => simp [bind, Except.bind]
  | ok taken => simp [bind, Except.bind, pure, Except.pure, Prod.ext_iff, eq_comm]

theorem takeSkip_pooled : (pooled jumps).takeSkip = .ok (n, supply) ↔
    ∃ jumps', jumps.takeSkip = .ok (n, jumps') ∧ supply = .pooled jumps' := by
  rw [takeSkip]
  cases jumps.takeSkip with
  | error pool => simp [bind, Except.bind]
  | ok taken => simp [bind, Except.bind, pure, Except.pure, Prod.ext_iff, eq_comm]

/-- A supply of the calculator's own labels, whose free forward labels are in ascending order. -/
def IsPool (supply : LabelSupply) : Prop :=
  ∃ jumps, supply = pooled jumps ∧ jumps.freeSkips.Pairwise (· < ·)

theorem IsPool.takeLoop {supply' : LabelSupply} (htake : supply.takeLoop = .ok (n, supply'))
    (h : supply.IsPool) : supply'.IsPool := by
  obtain ⟨jumps, rfl, hfree⟩ := h
  obtain ⟨_, hpool, rfl⟩ := takeLoop_pooled.mp htake
  obtain ⟨-, -, rfl⟩ := JumpLabels.takeLoop_eq_ok.mp hpool
  exact ⟨_, rfl, hfree⟩

theorem IsPool.takeSkip {supply' : LabelSupply} (htake : supply.takeSkip = .ok (n, supply'))
    (h : supply.IsPool) : supply'.IsPool := by
  obtain ⟨jumps, rfl, hfree⟩ := h
  obtain ⟨_, hpool, rfl⟩ := takeSkip_pooled.mp htake
  obtain ⟨rest, hskips, rfl⟩ := JumpLabels.takeSkip_eq_ok.mp hpool
  exact ⟨_, rfl, (List.pairwise_cons.mp (hskips ▸ hfree)).2⟩

theorem IsPool.release (h : supply.IsPool) (label : Nat) : (supply.release label).IsPool := by
  obtain ⟨jumps, rfl, hfree⟩ := h
  refine ⟨jumps.release label, rfl, ?_⟩
  unfold JumpLabels.release
  split
  · exact hfree
  · rename_i hlabel
    exact JumpLabels.sorted_insertAscending hfree (by simpa using hlabel)

end LabelSupply

end Keystroke
