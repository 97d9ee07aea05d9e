import Mathlib.Data.List.Count
import Mathlib.Logic.Relation
import Keystroke.Proofs.JumpTarget

/-!
# The support library

What the support routines are like as code, and which of them a listing gets.
-/

namespace Keystroke

namespace Instr

def label? : Instr → Option Label
  | .lbl label => some label
  | _ => none

def callee? : Instr → Option Label
  | .xeq label => some label
  | _ => none

end Instr

namespace Routine

variable {caller callee : Routine} {n : Nat} {code : List Instr} {label : Label}

/-- What is said of all routines can be checked for one after the other. -/
instance {p : Routine → Prop} [DecidablePred p] : Decidable (∀ routine, p routine) :=
  decidable_of_iff (∀ routine ∈ all, p routine) (by simp [mem_all])

theorem nodup_all : all.Nodup := by
  decide

/-! ### Calls between routines -/

def Calls (caller callee : Routine) : Prop :=
  call callee ∈ caller.body

/-- The calls in the bodies are those that are declared. -/
theorem calls_iff : Calls caller callee ↔ callee ∈ caller.prerequisites := by
  have hbodies : ∀ caller callee : Routine,
      callee ∈ caller.body.filterMap ofCall? ↔ callee ∈ caller.prerequisites := by
    decide +kernel
  rw [← hbodies, Calls, List.mem_filterMap]
  constructor
  · intro h
    exact ⟨_, h, ofCall?_call callee⟩
  · rintro ⟨instr, hinstr, hcall⟩
    rwa [← eq_call_of_ofCall? hcall]

variable {routines included pending : List Routine} {routine : Routine}

/-- The search only adds to what is included, and all that is pending. -/
theorem subset_visit : included ⊆ visit included pending ∧ pending ⊆ visit included pending := by
  fun_induction visit included pending with
  | case1 included => exact ⟨fun _ h => h, List.nil_subset _⟩
  | case2 included routine pending hmem ih => exact ⟨ih.1, List.cons_subset.mpr ⟨ih.1 hmem, ih.2⟩⟩
  | case3 included routine pending hmem ih =>
    have hadded := List.cons_subset.mp ih.1
    have hpending := List.append_subset.mp ih.2
    exact ⟨hadded.2, List.cons_subset.mpr ⟨hadded.1, hpending.2⟩⟩

/-- What the search adds can be reached from what was pending. -/
theorem reachable_of_mem_visit (h : routine ∈ visit included pending) :
    routine ∈ included ∨ ∃ first ∈ pending, Relation.ReflTransGen Calls first routine := by
  fun_induction visit included pending with
  | case1 included => exact Or.inl h
  | case2 included next pending hmem ih =>
    refine (ih h).imp_right ?_
    rintro ⟨first, hfirst, hreach⟩
    exact ⟨first, List.mem_cons_of_mem _ hfirst, hreach⟩
  | case3 included next pending hmem ih =>
    rcases ih h with hadded | ⟨first, hfirst, hreach⟩
    · rcases List.mem_cons.mp hadded with rfl | hadded
      · exact Or.inr ⟨routine, List.mem_cons_self, .refl⟩
      · exact Or.inl hadded
    · rcases List.mem_append.mp hfirst with hfirst | hfirst
      · have hcall := calls_iff.mpr (List.mem_reverse.mp hfirst)
        exact Or.inr ⟨next, List.mem_cons_self, hreach.head hcall⟩
      · exact Or.inr ⟨first, List.mem_cons_of_mem _ hfirst, hreach⟩

/-- The invariant of the search: what an included routine calls is included or pending. -/
def Covers (included pending : List Routine) : Prop :=
  ∀ caller ∈ included, ∀ callee, Calls caller callee → callee ∈ included ∨ callee ∈ pending

/-- A search that starts with the invariant keeps it, so that it ends with a closed set. -/
theorem Covers.visit (h : Covers included pending) : Covers (visit included pending) [] := by
  fun_induction Routine.visit included pending with
  | case1 included => exact h
  | case2 included routine pending hmem ih =>
    refine ih fun caller hcaller callee hcall => ?_
    rcases h caller hcaller callee hcall with hincluded | hpending
    · exact Or.inl hincluded
    · rcases List.mem_cons.mp hpending with rfl | hpending
      · exact Or.inl hmem
      · exact Or.inr hpending
  | case3 included routine pending hmem ih =>
    refine ih fun caller hcaller callee hcall => ?_
    simp only [List.mem_cons, List.mem_append, List.mem_reverse] at hcaller ⊢
    rcases hcaller with rfl | hcaller
    · exact Or.inr (Or.inl (calls_iff.mp hcall))
    · have hold := h caller hcaller callee hcall
      rw [List.mem_cons] at hold
      tauto

theorem mem_closure : routine ∈ closure routines ↔ routine ∈ visit [] routines.reverse := by
  simp [closure, mem_all]

/-- The closure has the routines that can be reached through calls. -/
theorem mem_closure_iff :
    routine ∈ closure routines ↔
      ∃ first ∈ routines, Relation.ReflTransGen Calls first routine := by
  rw [mem_closure]
  constructor
  · intro h
    obtain hnone | ⟨first, hfirst, hreach⟩ := reachable_of_mem_visit h
    · cases hnone
    · exact ⟨first, List.mem_reverse.mp hfirst, hreach⟩
  · rintro ⟨first, hfirst, hreach⟩
    have hclosed : Covers (visit [] routines.reverse) [] :=
      Covers.visit fun caller hcaller => by cases hcaller
    induction hreach with
    | refl => exact subset_visit.2 (List.mem_reverse.mpr hfirst)
    | tail _ hcall ih => exact (hclosed _ ih _ hcall).resolve_right List.not_mem_nil

theorem nodup_closure (routines : List Routine) : (closure routines).Nodup :=
  nodup_all.filter _

/-! ### Jumps inside routines -/

/-- The numbers to which code jumps back: those for which no label follows the jump. -/
def jumpsBack : List Instr → List Nat
  | [] => []
  | .gto n :: rest => if .lbl (.number n) ∈ rest then jumpsBack rest else n :: jumpsBack rest
  | _ :: rest => jumpsBack rest

theorem mem_jumpsBack_cons {instr : Instr} (h : n ∈ jumpsBack code) :
    n ∈ jumpsBack (instr :: code) := by
  unfold jumpsBack
  split
  · rename_i heq
    cases heq
  · rename_i heq
    cases heq
    split
    · exact h
    · exact List.mem_cons_of_mem _ h
  · rename_i heq
    cases heq
    exact h

theorem jump_forward_or_back {line : Nat} (h : JumpAt code line n) :
    (∃ place, line < place ∧ LabelAt code place n) ∨ n ∈ jumpsBack code := by
  induction code generalizing line with
  | nil => cases h
  | cons instr rest ih =>
    cases line with
    | zero =>
      obtain rfl := instrAt_zero.mp h
      by_cases hmem : Instr.lbl (.number n) ∈ rest
      · obtain ⟨place, hplace⟩ := exists_instrAt.mpr hmem
        exact Or.inl ⟨place + 1, Nat.succ_pos place, instrAt_succ.mpr hplace⟩
      · rw [jumpsBack, if_neg hmem]
        exact Or.inr List.mem_cons_self
    | succ line =>
      refine (ih (instrAt_succ.mp h)).imp ?_ mem_jumpsBack_cons
      rintro ⟨place, hlt, hplace⟩
      exact ⟨place + 1, Nat.succ_lt_succ hlt, instrAt_succ.mpr hplace⟩

theorem jumpsBack_body (routine : Routine) :
    jumpsBack routine.body = if routine = pointAtKey then [99] else [] := by
  revert routine
  decide

theorem count_searchLabel (routine : Routine) :
    routine.body.count (.lbl (.number 99)) = if routine = pointAtKey then 1 else 0 := by
  revert routine
  decide

theorem label_of_mem_body (h : .lbl label ∈ routine.body) :
    label = .global routine.name ∨ ∃ n, label = .number n ∧ 90 ≤ n ∧ n ≤ 99 := by
  have hall : ∀ routine : Routine, ∀ label ∈ routine.code.filterMap Instr.label?,
      label ∈ (List.range' 90 10).map .number := by decide
  rcases List.mem_cons.mp h with h | h
  · cases h
    exact Or.inl rfl
  · obtain ⟨n, hn, hlabel⟩ := List.mem_map.mp (hall routine label
      (List.mem_filterMap.mpr ⟨_, h, rfl⟩))
    rw [List.mem_range'_1] at hn
    exact Or.inr ⟨n, hlabel.symm, by omega, by omega⟩

theorem exists_call_of_mem_body (h : .xeq label ∈ routine.body) :
    ∃ callee : Routine, label = .global callee.name := by
  have hall : ∀ routine : Routine, ∀ label ∈ routine.body.filterMap Instr.callee?,
      label ∈ all.map fun callee => Label.global callee.name := by decide +kernel
  obtain ⟨callee, -, hcallee⟩ := List.mem_map.mp (hall routine label
    (List.mem_filterMap.mpr ⟨_, h, rfl⟩))
  exact ⟨callee, hcallee.symm⟩

end Routine

namespace Listing

/-- An instruction as it stands in a program whose library labels are local or not. -/
def finalInstr (localLabels : Bool) (instr : Instr) : Instr :=
  if localLabels then localisedInstr instr else instr

def headerCode : List Instr :=
  [.lbl (.global libraryHeader), .alpha libraryTitle, .op .returns]

def libraryCode (routines : List Routine) : List Instr :=
  headerCode ++ routines.flatMap Routine.body

/-- The header and some routines, as they are appended to a listing. -/
def libraryLines (routines : List Routine) : List Line :=
  headerLines ++ (routines.flatMap Routine.body).map Line.spliced

theorem map_libraryLines (routines : List Routine) :
    (libraryLines routines).map (·.instr) = libraryCode routines := by
  simp [libraryLines, libraryCode, headerLines, headerCode, Line.spliced, Function.comp_def]

variable {listing : Listing}

/-- A listing without calls of routines stays as it is. Any other is followed by the header and the
routines that it needs. -/
theorem lines_appendLibrary {localLabels : Bool} (h : listing.needed ≠ []) :
    (listing.appendLibrary localLabels).lines.toList =
      (listing.lines.toList ++ libraryLines (Routine.closure listing.needed)).map fun line =>
        { line with instr := finalInstr localLabels line.instr } := by
  unfold appendLibrary
  rw [if_neg (by simpa using h)]
  cases localLabels <;> simp [localiseLabels, libraryLines, finalInstr]

theorem instrs_appendLibrary {localLabels : Bool} (h : listing.needed ≠ []) :
    (listing.appendLibrary localLabels).instrs =
      (listing.instrs ++ libraryCode (Routine.closure listing.needed)).map
        (finalInstr localLabels) := by
  rw [← map_libraryLines, instrs, instrs, lines_appendLibrary h, ← List.map_append, List.map_map,
    List.map_map]
  rfl

theorem appendLibrary_of_needed_eq_nil {localLabels : Bool}
    (h : listing.needed = []) : listing.appendLibrary localLabels = listing := by
  simp [appendLibrary, h]

/-! ### Labels in final programs -/

variable {localLabels : Bool} {code : List Instr} {line n : Nat} {instr : Instr}

theorem finalInstr_eq_gto : finalInstr localLabels instr = .gto n ↔ instr = .gto n := by
  cases localLabels with
  | false => rfl
  | true =>
    show localisedInstr instr = .gto n ↔ _
    cases instr <;> simp [localisedInstr]

/-- The number of a routine lies in the interval that is set aside for routines. -/
theorem localLabel_bounds (routine : Routine) : 51 ≤ routine.localLabel ∧
    routine.localLabel ≤ 89 := by
  revert routine
  decide

theorem localised_eq_number {label : Label} (hn : n < 50 ∨ 90 ≤ n) :
    localised label = .number n ↔ label = .number n := by
  unfold localised
  split
  · split
    · simp only [Reserved.libraryLabel, Label.number.injEq, reduceCtorEq, iff_false]
      omega
    · split
      · rename_i routine _
        have := localLabel_bounds routine
        simp only [Label.number.injEq, reduceCtorEq, iff_false]
        omega
      · rfl
  · rfl
  · rfl

theorem finalInstr_eq_label (hn : n < 50 ∨ 90 ≤ n) :
    finalInstr localLabels instr = .lbl (.number n) ↔ instr = .lbl (.number n) := by
  cases localLabels with
  | false => rfl
  | true =>
    show localisedInstr instr = .lbl (.number n) ↔ _
    cases instr with
    | lbl label => simp [localisedInstr, localised_eq_number hn]
    | _ => simp [localisedInstr]

theorem jumpAt_map_finalInstr :
    JumpAt (code.map (finalInstr localLabels)) line n ↔ JumpAt code line n := by
  simp [InstrAt, finalInstr_eq_gto]

theorem labelAt_map_finalInstr (hn : n < 50 ∨ 90 ≤ n) :
    LabelAt (code.map (finalInstr localLabels)) line n ↔ LabelAt code line n := by
  simp [InstrAt, finalInstr_eq_label hn]

theorem jumpTarget?_map_finalInstr (hn : n < 50 ∨ 90 ≤ n) :
    jumpTarget? (code.map (finalInstr localLabels)) line n = jumpTarget? code line n := by
  have hfirst : ∀ part : List Instr,
      firstLabel? (part.map (finalInstr localLabels)) n = firstLabel? part n := by
    intro part
    unfold firstLabel?
    rw [List.findIdx?_map]
    congr 1
    funext instr
    simp [finalInstr_eq_label hn]
  simp only [jumpTarget?, ← List.map_drop, ← List.map_take, hfirst]

end Listing

/-! ### Routines in programs -/

namespace Routine

/-- The body of a routine stands in a program from a line on. -/
def BodyAt (localLabels : Bool) (code : List Instr) (start : Nat) (routine : Routine) : Prop :=
  ∀ offset instr, InstrAt routine.body offset instr →
    InstrAt code (start + offset) (Listing.finalInstr localLabels instr)

variable {routine : Routine} {routines : List Routine}

theorem bodyAt_append (before after : List Instr) :
    BodyAt false (before ++ (routine.body ++ after)) before.length routine := by
  intro offset instr h
  refine instrAt_append.mpr (Or.inr ⟨Nat.le_add_right _ _, ?_⟩)
  rw [Nat.add_sub_cancel_left]
  exact h.append after

theorem BodyAt.final {code : List Instr} {start : Nat}
    (h : BodyAt false code start routine) (localLabels : Bool) :
    BodyAt localLabels (code.map (Listing.finalInstr localLabels)) start routine := by
  intro offset instr hinstr
  have hat : code[start + offset]? = some instr := h offset instr hinstr
  rw [InstrAt, List.getElem?_map, hat]
  rfl

theorem instrAt_flatMap {line : Nat} {instr : Instr}
    (h : InstrAt (routines.flatMap body) line instr) :
    ∃ before routine after offset, routines = before ++ routine :: after ∧
      line = (before.flatMap body).length + offset ∧ InstrAt routine.body offset instr := by
  induction routines generalizing line with
  | nil => cases h
  | cons routine rest ih =>
    rcases instrAt_append.mp h with h | ⟨hle, h⟩
    · exact ⟨[], routine, rest, line, rfl, by simp, h⟩
    · obtain ⟨before, found, after, offset, rfl, hline, hfound⟩ := ih h
      refine ⟨routine :: before, found, after, offset, rfl, ?_, hfound⟩
      rw [List.flatMap_cons, List.length_append]
      omega

theorem not_labelAt_search (h : pointAtKey ∉ routines) (k : Nat) :
    ¬ LabelAt (routines.flatMap body) k 99 := by
  intro hlabel
  obtain ⟨routine, hroutine, hmem⟩ := List.mem_flatMap.mp (exists_instrAt.mp ⟨k, hlabel⟩)
  have hne : routine ≠ pointAtKey := fun heq => h (heq ▸ hroutine)
  have hcount := count_searchLabel routine
  rw [if_neg hne, List.count_eq_zero] at hcount
  exact hcount hmem

/-- A jump inside a routine goes to a label of the routine. A routine that jumps back needs its
label for itself. -/
theorem jumpTarget?_body {before after : List Instr} {offset n : Nat}
    (h : JumpAt routine.body offset n)
    (hothers : routine = pointAtKey →
      (∀ k, ¬ LabelAt before k 99) ∧ ∀ k, ¬ LabelAt after k 99) :
    ∃ place, LabelAt routine.body place n ∧
      jumpTarget? (before ++ (routine.body ++ after)) (before.length + offset) n =
        some (before.length + place) := by
  have hat : ∀ {k}, LabelAt routine.body k n →
      LabelAt (before ++ (routine.body ++ after)) (before.length + k) n :=
    fun hk => bodyAt_append before after _ _ hk
  rcases jump_forward_or_back h with ⟨place, hlt, hplace⟩ | hback
  · obtain ⟨first, hafter, hle, hfirst, htarget⟩ :=
      exists_jumpTarget?_of_later (Nat.add_lt_add_left hlt before.length) (hat hplace)
    -- the first label from the jump on comes no later than one in the body
    obtain ⟨k, rfl⟩ := Nat.exists_eq_add_of_lt hafter
    refine ⟨offset + k + 1, ?_, htarget.trans (congrArg some (by omega))⟩
    have hlength := hplace.lt
    rcases instrAt_append.mp hfirst with hfirst | ⟨-, hfirst⟩
    · have := hfirst.lt
      omega
    · rcases instrAt_append.mp hfirst with hfirst | ⟨hle', -⟩
      · have hsub : before.length + offset + k + 1 - before.length = offset + k + 1 := by omega
        rwa [hsub] at hfirst
      · omega
  · rw [jumpsBack_body] at hback
    split at hback
    · rename_i hroutine
      obtain rfl := List.mem_singleton.mp hback
      obtain ⟨hbefore, hafter⟩ := hothers hroutine
      have hcount := count_searchLabel routine
      rw [if_pos hroutine] at hcount
      obtain ⟨place, hplace, hunique⟩ := existsUnique_instrAt.mpr hcount
      refine ⟨place, hplace, jumpTarget?_of_unique (hat hplace) fun k hk => ?_⟩
      rcases instrAt_append.mp hk with hk | ⟨hle, hk⟩
      · exact absurd hk (hbefore k)
      · rcases instrAt_append.mp hk with hk | ⟨-, hk⟩
        · have := hunique _ hk
          omega
        · exact absurd hk (hafter _)
    · cases hback

end Routine

/-! ### The library behind a listing -/

namespace Listing

/-- The routines that follow the code of a listing, with their header. -/
def suffix (library : Bool) (needed : List Routine) : List Instr :=
  if library && !needed.isEmpty then libraryCode (Routine.closure needed) else []

theorem suffix_of_ne_nil {needed : List Routine} (h : needed ≠ []) :
    suffix true needed = libraryCode (Routine.closure needed) := by
  simp [suffix, h]

/-- A program is the code of its listing and what follows it, in one of the two forms of library
labels. -/
theorem instrs_final {listing : Listing} {library localLabels : Bool} :
    (if library then listing.appendLibrary localLabels else listing).instrs =
      (listing.instrs ++ suffix library listing.needed).map
        (finalInstr (library && !listing.needed.isEmpty && localLabels)) := by
  have hplain : listing.instrs = (listing.instrs ++ []).map (finalInstr false) := by
    rw [List.append_nil]
    exact (List.map_id _).symm
  cases library with
  | false => exact hplain
  | true =>
    by_cases hneeded : listing.needed = []
    · simp only [hneeded, if_true]
      rw [appendLibrary_of_needed_eq_nil hneeded]
      exact hplain
    · have hempty : listing.needed.isEmpty = false := by simpa using hneeded
      rw [if_pos rfl, instrs_appendLibrary hneeded, suffix_of_ne_nil hneeded, hempty]
      rfl

section

variable {library : Bool} {needed : List Routine}

/-- A line behind a listing is one of the header, or of a routine that is linked. -/
theorem mem_suffix {instr : Instr} (h : instr ∈ suffix library needed) :
    instr ∈ headerCode ∨ ∃ routine ∈ Routine.closure needed, instr ∈ routine.body := by
  unfold suffix at h
  split at h
  · exact (List.mem_append.mp h).imp_right List.mem_flatMap.mp
  · cases h

/-- What holds of the header and of all routines holds of what follows a listing. -/
theorem forall_mem_suffix (p : Instr → Prop) (hheader : ∀ instr ∈ headerCode, p instr)
    (hbodies : ∀ routine : Routine, ∀ instr ∈ routine.body, p instr) :
    ∀ instr ∈ suffix library needed, p instr := by
  intro instr h
  rcases mem_suffix h with h | ⟨routine, -, h⟩
  · exact hheader instr h
  · exact hbodies routine instr h

theorem labelAt_suffix {line n : Nat} (h : LabelAt (suffix library needed) line n) :
    90 ≤ n ∧ n ≤ 99 := by
  rcases mem_suffix (exists_instrAt.mp ⟨line, h⟩) with hmem | ⟨routine, -, hmem⟩
  · simp [headerCode] at hmem
  · rcases Routine.label_of_mem_body hmem with hname | ⟨n, hn, hbounds⟩
    · cases hname
    · cases hn
      exact hbounds

end

end Listing

end Keystroke
