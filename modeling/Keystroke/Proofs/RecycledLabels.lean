import Keystroke.Proofs.Procedures
import Keystroke.Proofs.SupportLibrary

/-!
# Recycled labels never capture a jump

A forward label is used again as soon as it has been placed, and the search for a label goes around
the end of the program. Nevertheless every jump goes where it would go if no label were used twice,
and the jumps inside support routines stay inside them.
-/

namespace Keystroke

open Listing

/-! ### Jumps of a program with its library -/

variable {xs ys : List Instr} {pools : JumpLabels} {next line n : Nat} {library : Bool}
  {needed : List Routine}

/-- Where one program has a jump, the other has one too. -/
theorem Tracks.exists_jumpAt (h : Tracks xs ys pools next []) (hjump : JumpAt xs line n) :
    ∃ m, JumpAt ys line m := by
  have hlt : line < ys.length := h.length_eq ▸ hjump.lt
  have hsame := h.lines.get hjump.lt hlt
  have hx : xs.get ⟨line, hjump.lt⟩ = .gto n := (List.getElem?_eq_some_iff.mp hjump).2
  rw [hx] at hsame
  generalize hy : ys.get ⟨line, hlt⟩ = instr at hsame
  cases hsame with
  | same _ hgto => exact absurd rfl (hgto n)
  | jump _ m => exact ⟨m, List.getElem?_eq_some_iff.mpr ⟨hlt, hy⟩⟩

/-- A jump of a listing goes to the same line in both programs, and in the second program its label
stands only there. -/
theorem Tracks.userJump (h : Tracks xs ys pools next []) (hline : line < xs.length)
    (hjump : JumpAt (xs ++ suffix library needed) line n) :
    ∃ m place, JumpAt (ys ++ suffix library needed) line m ∧ n < 50 ∧ 100 ≤ m ∧
      (∀ k, LabelAt (ys ++ suffix library needed) k m ↔ k = place) ∧
      jumpTarget? (xs ++ suffix library needed) line n = some place ∧
      jumpTarget? (ys ++ suffix library needed) line m = some place := by
  have hjump : JumpAt xs line n :=
    (instrAt_append.mp hjump).resolve_right fun h' => Nat.not_le_of_lt hline h'.1
  obtain ⟨m, hm⟩ := h.exists_jumpAt hjump
  have hsettled : Settled xs ys line n m :=
    (h.jumps line n m hjump hm).resolve_right fun h' => List.not_mem_nil h'.1
  obtain ⟨place, hx, hy, honce, htarget⟩ := h.target
    (fun k n hn => ⟨Nat.le_trans (by decide) (labelAt_suffix hn).1,
      Nat.lt_succ_of_le (labelAt_suffix hn).2⟩ :
      ∀ line k, LabelAt (suffix library needed) line k → 50 ≤ k ∧ k < 100) hsettled
  exact ⟨m, place, hm.append _, h.label_lt hx, (h.placedSnd place m hy).1, honce, htarget,
    jumpTarget?_of_unique ((honce place).mpr rfl) fun k => (honce k).mp⟩

theorem Routine.libraryJump (hxs : ∀ k n, LabelAt xs k n → n < 50) (hline : xs.length ≤ line)
    (hjump : JumpAt (xs ++ suffix library needed) line n) :
    (library && !needed.isEmpty) = true ∧ 90 ≤ n ∧ ∃ (routine : Routine) (start place : Nat),
      routine.BodyAt false (xs ++ suffix library needed) start ∧
      start ≤ line ∧ line < start + routine.body.length ∧
      start ≤ place ∧ place < start + routine.body.length ∧
      jumpTarget? (xs ++ suffix library needed) line n = some place := by
  replace hjump : JumpAt (suffix library needed) (line - xs.length) n := by
    rcases instrAt_append.mp hjump with h | ⟨-, h⟩
    · exact absurd h.lt (Nat.not_lt_of_le hline)
    · exact h
  unfold suffix at hjump ⊢
  split at hjump
  · rcases instrAt_append.mp hjump with h | ⟨hle, h⟩
    · have hmem := exists_instrAt.mp ⟨_, h⟩
      simp [headerCode] at hmem
    · rename_i hlibrary
      rw [if_pos hlibrary]
      -- the jump stands in the body of one routine
      obtain ⟨before, routine, after, offset, hsplit, hoffset, hbody⟩ := instrAt_flatMap h
      have hcode : xs ++ libraryCode (closure needed) =
          (xs ++ (headerCode ++ before.flatMap body)) ++
            (routine.body ++ after.flatMap body) := by
        rw [libraryCode, hsplit, List.flatMap_append, List.flatMap_cons]
        simp only [List.append_assoc]
      -- the one label that is jumped back to occurs once, as its routine does
      have hothers : routine = pointAtKey →
          (∀ k, ¬ LabelAt (xs ++ (headerCode ++ before.flatMap body)) k 99) ∧
            ∀ k, ¬ LabelAt (after.flatMap body) k 99 := by
        rintro rfl
        have hnodup := nodup_closure needed
        rw [hsplit] at hnodup
        obtain ⟨-, hrest, hdisjoint⟩ := List.nodup_append.mp hnodup
        have hbefore : pointAtKey ∉ before := fun hmem => hdisjoint _ hmem _ List.mem_cons_self rfl
        refine ⟨fun k hk => ?_, not_labelAt_search (List.nodup_cons.mp hrest).1⟩
        rcases instrAt_append.mp hk with hk | ⟨-, hk⟩
        · exact absurd (hxs k 99 hk) (by decide)
        · rcases instrAt_append.mp hk with hk | ⟨-, hk⟩
          · have hmem := exists_instrAt.mp ⟨_, hk⟩
            simp [headerCode] at hmem
          · exact not_labelAt_search hbefore _ hk
      obtain ⟨place, hplace, htarget⟩ := jumpTarget?_body hbody hothers
      have hline' : line = (xs ++ (headerCode ++ before.flatMap body)).length + offset := by
        simp only [List.length_append] at hle ⊢
        omega
      rw [hcode, hline']
      refine ⟨hlibrary, ?_, routine, _, _, bodyAt_append _ _, Nat.le_add_right _ _,
        Nat.add_lt_add_left hbody.lt _,
        Nat.le_add_right _ place, Nat.add_lt_add_left hplace.lt _, htarget⟩
      rcases label_of_mem_body (exists_instrAt.mp ⟨place, hplace⟩) with hname | ⟨n, hn, hbounds⟩
      · cases hname
      · cases hn
        exact hbounds.1
  · cases hjump

/-! ### Programs -/

/-- Where one program jumps in its first `count` lines, so does the other, and both go to the same
line. In the second program the label of the jump stands only there. -/
def SameTargets (count : Nat) (code reference : List Instr) : Prop :=
  ∀ line n, line < count → JumpAt code line n → ∃ m place, JumpAt reference line m ∧
    (∀ k, LabelAt reference k m ↔ k = place) ∧
    jumpTarget? code line n = some place ∧ jumpTarget? reference line m = some place

/-- From the line `count` on, every jump of a program stands in the body of a support routine and
goes to a line of that body. -/
def JumpsInsideRoutines (localLabels : Bool) (count : Nat) (code : List Instr) : Prop :=
  ∀ line n, count ≤ line → JumpAt code line n → ∃ (routine : Routine) (start place : Nat),
    routine.BodyAt localLabels code start ∧ start ≤ line ∧ line < start + routine.body.length ∧
    start ≤ place ∧ place < start + routine.body.length ∧ jumpTarget? code line n = some place

/-- Recycled labels never capture a jump: a program jumps to the same lines as the program with
labels that are never used twice, and the jumps of the library stay inside its routines. -/
theorem recycled_labels_keep_targets {text : String} {options : Options} {final : Listing}
    (h : compile text options = .ok final) :
    ∃ user reference : Listing,
      compile text { options with library := false } = .ok user ∧
      compile text options .endless = .ok reference ∧
      reference.instrs.length = final.instrs.length ∧
      SameTargets user.instrs.length final.instrs reference.instrs ∧
      JumpsInsideRoutines options.localLibraryLabels user.instrs.length final.instrs := by
  obtain ⟨body, labels, user, hbody, hlabels, huser, rfl⟩ := compile_eq_ok.mp h
  obtain ⟨twin, pools, next, htwin, hneeded, htracks, -⟩ := Listing.written_ofScript hlabels huser
  refine ⟨user, _, compile_eq_ok.mpr ⟨body, labels, user, hbody, hlabels, huser, rfl⟩,
    compile_eq_ok.mpr ⟨body, labels, twin, hbody, hlabels, htwin, rfl⟩, ?_⟩
  rw [Listing.instrs_final, Listing.instrs_final, hneeded]
  refine ⟨by simp [htracks.length_eq], fun line n hline hjump => ?_, fun line n hline hjump => ?_⟩
  · obtain ⟨m, place, hm, hn, hm', honce, htarget, htarget'⟩ :=
      htracks.userJump hline (Listing.jumpAt_map_finalInstr.mp hjump)
    refine ⟨m, place, Listing.jumpAt_map_finalInstr.mpr hm, fun k => ?_, ?_, ?_⟩
    · rw [Listing.labelAt_map_finalInstr (Or.inr (by omega))]
      exact honce k
    · rwa [Listing.jumpTarget?_map_finalInstr (Or.inl hn)]
    · rwa [Listing.jumpTarget?_map_finalInstr (Or.inr (by omega))]
  · obtain ⟨hlibrary, hn, routine, start, place, hat, hle, hlt, hle', hlt', htarget⟩ :=
      Routine.libraryJump (fun k n => htracks.label_lt) hline
      (Listing.jumpAt_map_finalInstr.mp hjump)
    refine ⟨routine, start, place, ?_, hle, hlt, hle', hlt', ?_⟩
    · rw [hlibrary, Bool.true_and]
      exact hat.final options.localLibraryLabels
    · rwa [Listing.jumpTarget?_map_finalInstr (Or.inr hn)]

/-- A loop whose body uses the same two forward labels again and again: for its conditions, for a
`break` and for a `continue`. -/
def recyclingText : String :=
  "def f(n):\n  for i in range(n):\n    if i > 3:\n      break\n    if n:\n      continue\n" ++
    "    n = 0\n  return n\n"

/-- The `continue` of that loop jumps to the third place of its label. -/
theorem recycled_labels_keep_targets_loop :
    ∃ final user reference : Listing,
      compile recyclingText {} = .ok final ∧ JumpAt final.instrs 24 31 ∧
      jumpTarget? final.instrs 24 31 = some 28 ∧
      compile recyclingText { library := false } = .ok user ∧
      compile recyclingText {} .endless = .ok reference ∧
      reference.instrs.length = final.instrs.length ∧
      SameTargets user.instrs.length final.instrs reference.instrs ∧
      JumpsInsideRoutines true user.instrs.length final.instrs := by
  have hcompiles : (compile recyclingText {}).toOption.any (fun final =>
      JumpAt final.instrs 24 31 ∧ jumpTarget? final.instrs 24 31 = some 28) = true := by
    decide +kernel
  obtain ⟨final, hfinal, hjump⟩ := exists_ok_of_any hcompiles
  obtain ⟨hjump, htarget⟩ := of_decide_eq_true hjump
  obtain ⟨user, reference, huser, hreference, hfacts⟩ := recycled_labels_keep_targets hfinal
  exact ⟨final, user, reference, hfinal, hjump, htarget, huser, hreference, hfacts⟩

end Keystroke
