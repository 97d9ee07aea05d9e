import Keystroke.Proofs.RecycledLabels
import Keystroke.Proofs.WrittenLines

/-!
# Every call has its label

A program with the support library is closed: whatever it calls stands in it exactly once. The
library has the routines that can be reached from the calls of the script, and no others.
-/

namespace Keystroke

open Routine

/-! ### Labels of the library -/

namespace Routine

/-- The routines that can be reached from the calls of some code. -/
inductive NeededBy (code : List Instr) : Routine → Prop where
  | called {routine : Routine} (h : call routine ∈ code) : NeededBy code routine
  | inside {caller routine : Routine} (h : NeededBy code caller)
      (hcall : call routine ∈ caller.body) : NeededBy code routine

/-- The routines that are appended are those that can be reached. -/
theorem mem_closure_iff_neededBy {code : List Instr} {needed : List Routine} {routine : Routine}
    (hneeded : ∀ routine, routine ∈ needed ↔ call routine ∈ code) :
    routine ∈ closure needed ↔ NeededBy code routine := by
  rw [mem_closure_iff]
  constructor
  · rintro ⟨first, hfirst, hreach⟩
    induction hreach with
    | refl => exact .called ((hneeded first).mp hfirst)
    | tail _ hcall ih => exact .inside ih hcall
  · intro h
    induction h with
    | called h => exact ⟨_, (hneeded _).mpr h, .refl⟩
    | inside _ hcall ih =>
      obtain ⟨first, hfirst, hreach⟩ := ih
      exact ⟨first, hfirst, hreach.tail hcall⟩

theorem name_injective {routine other : Routine} (h : routine.name = other.name) :
    routine = other := by
  have := ofName?_name routine
  rw [h, ofName?_name] at this
  exact (Option.some.inj this).symm

theorem count_name_body (routine other : Routine) :
    other.body.count (.lbl (.global routine.name)) = if other = routine then 1 else 0 := by
  have hcode : other.code.count (.lbl (.global routine.name)) = 0 := by
    have hall : ∀ other : Routine, ∀ label ∈ other.code.filterMap Instr.label?,
        label.isGlobal = false := by decide
    rw [List.count_eq_zero]
    intro hmem
    cases hall other _ (List.mem_filterMap.mpr ⟨_, hmem, rfl⟩)
  rw [body, List.count_cons, hcode]
  by_cases hother : other = routine
  · simp [hother]
  · have hname : other.name ≠ routine.name := fun h => hother (name_injective h)
    simp [hother, hname]

theorem count_name_bodies (routine : Routine) (routines : List Routine) :
    (routines.flatMap body).count (.lbl (.global routine.name)) = routines.count routine := by
  induction routines with
  | nil => rfl
  | cons other rest ih =>
    rw [List.flatMap_cons, List.count_append, ih, count_name_body]
    by_cases hother : other = routine
    · simp [hother, Nat.add_comm]
    · simp [hother]

end Routine

namespace Listing

theorem count_name_suffix (routine : Routine) (needed : List Routine) :
    (suffix true needed).count (.lbl (.global routine.name)) =
      (closure needed).count routine := by
  by_cases hneeded : needed = []
  · subst hneeded
    simp [suffix, Routine.closure, Routine.visit]
  · have hheader : ∀ routine : Routine, headerCode.count (.lbl (.global routine.name)) = 0 := by
      decide +kernel
    rw [suffix_of_ne_nil hneeded, libraryCode, List.count_append, hheader, Nat.zero_add,
      count_name_bodies]

/-- No label that a function can have stands behind a listing. -/
theorem count_own_suffix {label : Label} (hown : label.IsOwn) (library : Bool)
    (needed : List Routine) : (suffix library needed).count (.lbl label) = 0 := by
  rw [List.count_eq_zero]
  intro hmem
  rcases mem_suffix hmem with hmem | ⟨routine, -, hmem⟩
  · simp only [headerCode, List.mem_cons, Instr.lbl.injEq, reduceCtorEq, List.not_mem_nil,
      or_false] at hmem
    subst hmem
    exact hown.2 rfl
  · rcases label_of_mem_body hmem with rfl | ⟨n, rfl, -⟩
    · have hname := hown.1
      rw [ofName?_name] at hname
      cases hname
    · exact hown

/-! ### Labels in the two forms -/

/-- A label as it stands in a program whose library labels are local or not. -/
def finalLabel (localLabels : Bool) (label : Label) : Label :=
  if localLabels then localised label else label

variable {localLabels : Bool} {label other : Label} {code : List Instr}

theorem finalInstr_lbl : finalInstr localLabels (.lbl label) = .lbl (finalLabel localLabels label)
  := by
  cases localLabels <;> rfl

theorem finalInstr_eq_lbl {instr : Instr} : finalInstr localLabels instr = .lbl label ↔
    ∃ other, instr = .lbl other ∧ finalLabel localLabels other = label := by
  cases localLabels with
  | false => simp [finalInstr, finalLabel]
  | true => cases instr <;> simp [finalInstr, finalLabel, localisedInstr]

theorem finalInstr_eq_xeq {instr : Instr} : finalInstr localLabels instr = .xeq label ↔
    ∃ other, instr = .xeq other ∧ finalLabel localLabels other = label := by
  cases localLabels with
  | false => simp [finalInstr, finalLabel]
  | true => cases instr <;> simp [finalInstr, finalLabel, localisedInstr]

/-- What becomes of a quoted name: the library header and the routines get numbers. -/
theorem localised_global (name : String) :
    localised (.global name) = .number Reserved.libraryLabel ∨
      (∃ routine : Routine, name = routine.name ∧
        localised (.global name) = .number routine.localLabel) ∨
      localised (.global name) = .global name := by
  by_cases hheader : name = libraryHeader
  · simp [localised, hheader]
  · cases hroutine : ofName? name with
    | none => simp [localised, hheader, hroutine]
    | some routine =>
      refine Or.inr (Or.inl ⟨routine, (name_of_ofName? hroutine).symm, ?_⟩)
      simp [localised, hheader, hroutine]

theorem localised_name (routine : Routine) :
    localised (.global routine.name) = .number routine.localLabel := by
  have hheader : routine.name ≠ libraryHeader := by
    revert routine
    decide +kernel
  simp [localised, hheader]

theorem localised_of_isOwn (h : label.IsOwn) : localised label = label := by
  cases label with
  | global name => simp [localised, h.1, h.2]
  | letter c => rfl
  | number n => exact h.elim

/-- The label of a function stays as it is. -/
theorem finalInstr_lbl_of_isOwn (h : label.IsOwn) :
    finalInstr localLabels (.lbl label) = .lbl label := by
  rw [finalInstr_lbl, finalLabel, localised_of_isOwn h, ite_self]

theorem localLabel_injective {routine other : Routine} (h : routine.localLabel = other.localLabel) :
    routine = other := by
  revert routine other
  decide

end Listing

theorem Routine.BodyAt.label {localLabels : Bool} {code : List Instr} {start : Nat}
    {routine : Routine} (h : routine.BodyAt localLabels code start) :
    InstrAt code start (.lbl (Listing.finalLabel localLabels (.global routine.name))) := by
  have hfirst := h 0 _ (instrAt_zero.mpr rfl)
  rwa [Listing.finalInstr_lbl] at hfirst

/-- Labels that a call can have: those of support routines and of functions. -/
def Label.IsCallable (label : Label) : Prop :=
  (∃ routine : Routine, label = .global routine.name) ∨ label.IsOwn

namespace Listing

variable {localLabels : Bool} {label other : Label} {code : List Instr}

/-- No label but that of a call takes the local form of that label, unless it is one of the numbers
that are set aside for routines. -/
theorem eq_of_localised_eq (hlabel : label.IsCallable)
    (hother : ∀ n, other = .number n → n < 50 ∨ 90 ≤ n) (h : localised other = localised label) :
    other = label := by
  rcases hlabel with ⟨routine, rfl⟩ | hown
  · rw [localised_name] at h
    have hbounds := localLabel_bounds routine
    cases other with
    | letter c => cases h
    | number n =>
      have := hother n rfl
      cases h
      omega
    | global name =>
      rcases localised_global name with heq | ⟨found, rfl, heq⟩ | heq
      · have hlibrary := Label.number.inj (heq.symm.trans h)
        rw [← hlibrary] at hbounds
        exact absurd hbounds (by decide)
      · rw [localLabel_injective (Label.number.inj (heq.symm.trans h))]
      · cases heq.symm.trans h
  · rw [localised_of_isOwn hown] at h
    cases other with
    | letter c => exact h
    | number n => exact h
    | global name =>
      rcases localised_global name with heq | ⟨found, -, heq⟩ | heq
      · rw [← heq.symm.trans h] at hown
        exact hown.elim
      · rw [← heq.symm.trans h] at hown
        exact hown.elim
      · exact heq.symm.trans h

/-- Local library labels do not make two labels the same. -/
theorem count_label_final (hcode : ∀ n, .lbl (.number n) ∈ code → n < 50 ∨ 90 ≤ n)
    (hlabel : label.IsCallable) :
    (code.map (finalInstr localLabels)).count (.lbl (finalLabel localLabels label)) =
      code.count (.lbl label) := by
  rw [List.count, List.countP_map]
  refine List.countP_congr fun instr hinstr => ?_
  simp only [Function.comp_apply, beq_iff_eq]
  rw [finalInstr_eq_lbl]
  constructor
  · rintro ⟨other, rfl, hother⟩
    cases localLabels with
    | false => rw [show other = label from hother]
    | true => rw [eq_of_localised_eq hlabel (fun n hn => hcode n (hn ▸ hinstr)) hother]
  · intro h
    exact ⟨label, h, rfl⟩

/-! ### The code of a script -/

theorem count_ownLabel (hown : label.IsOwn) :
    code.count (.lbl label) = (code.filterMap Instr.ownLabel?).count label := by
  induction code with
  | nil => rfl
  | cons instr code ih =>
    have hinstr : instr.ownLabel? = some label ↔ instr = .lbl label := by
      constructor
      · intro h
        unfold Instr.ownLabel? at h
        split at h
        · cases h
        · rw [Option.some.inj h]
        · cases h
      · rintro rfl
        cases label with
        | number n => exact hown.elim
        | _ => rfl
    rw [List.count_cons, ih]
    cases hlabel : instr.ownLabel? with
    | none =>
      have hne : instr ≠ .lbl label := fun h => by
        rw [hinstr.mpr h] at hlabel
        cases hlabel
      rw [List.filterMap_cons_none hlabel, if_neg (by simpa using hne), Nat.add_zero]
    | some found =>
      rw [List.filterMap_cons_some hlabel, List.count_cons]
      rw [hlabel, Option.some.injEq] at hinstr
      simp [hinstr]

/-- The code of a script before the library is appended: every call is that of a routine or of a
function, every function has its label once, and there are no other labels but small numbers. -/
structure IsLinked (labels : FunctionLabels) (listing : Listing) : Prop where
  lines : ∀ instr ∈ listing.instrs, instr.IsLinked labels
  own : labels.Linkable
  once : ∀ name label, labels.get? name = some label → listing.instrs.count (.lbl label) = 1
  placed : ∀ label, .lbl label ∈ listing.instrs → label.IsOwn ∨ ∃ n, label = .number n ∧ n < 50
  needed_iff : ∀ routine, routine ∈ listing.needed ↔ Routine.call routine ∈ listing.instrs

theorem isLinked_ofScript {labels : FunctionLabels} {body : List Script.Stmt} {limit : Nat}
    {listing : Listing} (hlabels : FunctionLabels.assign body = .ok labels)
    (h : ofScript labels body limit = .ok listing) : listing.IsLinked labels := by
  have hassigned := FunctionLabels.assigned_of_assign hlabels
  obtain ⟨hlines, hown, hneeded⟩ := code_ofScript hassigned.own hassigned.entryOwn h
  obtain ⟨twin, pools, next, -, -, htracks, -⟩ := written_ofScript hlabels h
  refine ⟨hlines, hassigned.own, fun name label hlabel => ?_, fun label hlabel => ?_, hneeded⟩
  · rw [count_ownLabel (hassigned.own name label hlabel), hown]
    refine List.count_eq_one_of_mem hassigned.nodup_labels (List.mem_append_right _ ?_)
    exact List.mem_filterMap.mpr ⟨name, hassigned.mem_of_get? hlabel, hlabel⟩
  · cases label with
    | number n =>
      obtain ⟨line, hline⟩ := exists_instrAt.mpr hlabel
      exact Or.inr ⟨n, rfl, htracks.label_lt hline⟩
    | _ =>
      refine Or.inl (hassigned.isOwn_of_mem ?_)
      rw [← hown]
      exact List.mem_filterMap.mpr ⟨_, hlabel, rfl⟩

/-! ### Programs -/

variable {labels : FunctionLabels} {listing : Listing}

/-- The code of a script and of the library that follows it. -/
def linkedCode (listing : Listing) : List Instr :=
  listing.instrs ++ suffix true listing.needed

section

variable (h : listing.IsLinked labels)

include h

/-- A script that needs no routine has no label and no call that could become local. -/
theorem IsLinked.finalInstr_eq (hneeded : listing.needed = []) {instr : Instr}
    (hinstr : instr ∈ listing.instrs) : finalInstr localLabels instr = instr := by
  cases localLabels with
  | false => rfl
  | true =>
    cases instr with
    | lbl label =>
      rcases h.placed label hinstr with hown | ⟨n, rfl, -⟩
      · exact congrArg Instr.lbl (localised_of_isOwn hown)
      · rfl
    | xeq label =>
      rcases h.lines _ hinstr with ⟨routine, rfl⟩ | ⟨name, hname⟩
      · have hmem := (h.needed_iff routine).mpr hinstr
        rw [hneeded] at hmem
        cases hmem
      · exact congrArg Instr.xeq (localised_of_isOwn (h.own name label hname))
    | _ => rfl

theorem IsLinked.instrs_appendLibrary :
    (listing.appendLibrary localLabels).instrs =
      listing.linkedCode.map (finalInstr localLabels) := by
  unfold linkedCode
  by_cases hneeded : listing.needed = []
  · rw [appendLibrary_of_needed_eq_nil hneeded, hneeded]
    show _ = (listing.instrs ++ []).map _
    rw [List.append_nil]
    have hsame : listing.instrs.map (finalInstr localLabels) = listing.instrs.map id :=
      List.map_congr_left fun instr hinstr => h.finalInstr_eq hneeded hinstr
    rw [hsame, List.map_id]
  · rw [Listing.instrs_appendLibrary hneeded, suffix_of_ne_nil hneeded]

theorem IsLinked.number_of_mem {n : Nat} (hn : .lbl (.number n) ∈ listing.linkedCode) :
    n < 50 ∨ 90 ≤ n := by
  rcases List.mem_append.mp hn with hn | hn
  · rcases h.placed _ hn with hown | ⟨m, hm, hlt⟩
    · exact hown.elim
    · cases hm
      exact Or.inl hlt
  · obtain ⟨line, hline⟩ := exists_instrAt.mpr hn
    exact Or.inr (labelAt_suffix hline).1

theorem IsLinked.count_routine (routine : Routine) :
    listing.linkedCode.count (.lbl (.global routine.name)) =
      (closure listing.needed).count routine := by
  have huser : listing.instrs.count (.lbl (.global routine.name)) = 0 := by
    rw [List.count_eq_zero]
    intro hmem
    rcases h.placed _ hmem with hown | ⟨n, hn, -⟩
    · have := hown.1
      rw [ofName?_name] at this
      cases this
    · cases hn
  rw [linkedCode, List.count_append, huser, Nat.zero_add, count_name_suffix]

/-- Whatever a program calls stands in it once. -/
theorem IsLinked.count_callee (hcall : .xeq label ∈ listing.linkedCode) :
    label.IsCallable ∧ listing.linkedCode.count (.lbl label) = 1 := by
  have hroutine : ∀ routine : Routine, routine ∈ closure listing.needed →
      listing.linkedCode.count (.lbl (.global routine.name)) = 1 := by
    intro routine hmem
    rw [h.count_routine]
    exact List.count_eq_one_of_mem (nodup_closure _) hmem
  rcases List.mem_append.mp hcall with huser | hlibrary
  · rcases h.lines _ huser with ⟨routine, rfl⟩ | ⟨name, hname⟩
    · refine ⟨Or.inl ⟨routine, rfl⟩, hroutine routine (Routine.mem_closure_iff.mpr ⟨routine, ?_,
      .refl⟩)⟩
      exact (h.needed_iff routine).mpr huser
    · have hown := h.own name label hname
      refine ⟨Or.inr hown, ?_⟩
      rw [linkedCode, List.count_append, h.once name label hname, count_own_suffix hown]
  · -- a call in the library is one between two routines
    rcases mem_suffix hlibrary with hmem | ⟨caller, hcaller, hmem⟩
    · simp [headerCode] at hmem
    · obtain ⟨routine, rfl⟩ := exists_call_of_mem_body hmem
      obtain ⟨first, hfirst, hreach⟩ := Routine.mem_closure_iff.mp hcaller
      exact ⟨Or.inl ⟨routine, rfl⟩, hroutine routine
        (Routine.mem_closure_iff.mpr ⟨first, hfirst, hreach.tail hmem⟩)⟩

theorem IsLinked.count_routine_final (routine : Routine) :
    (listing.linkedCode.map (finalInstr localLabels)).count
      (.lbl (finalLabel localLabels (.global routine.name))) =
      (closure listing.needed).count routine := by
  rw [count_label_final (fun n => h.number_of_mem) (Or.inl ⟨routine, rfl⟩), h.count_routine]

theorem IsLinked.exists_bodyAt_iff (routine : Routine) :
    (∃ start, routine.BodyAt localLabels (listing.linkedCode.map (finalInstr localLabels)) start) ↔
      routine ∈ closure listing.needed := by
  constructor
  · rintro ⟨start, hbody⟩
    have hlabel := exists_instrAt.mp ⟨start, hbody.label⟩
    rw [← List.count_pos_iff, h.count_routine_final, List.count_pos_iff] at hlabel
    exact hlabel
  · intro hmem
    obtain ⟨before, after, hsplit⟩ := List.append_of_mem hmem
    obtain ⟨first, hfirst, -⟩ := Routine.mem_closure_iff.mp hmem
    have hcode : listing.linkedCode =
        (listing.instrs ++ (headerCode ++ before.flatMap body)) ++
          (routine.body ++ after.flatMap body) := by
      rw [linkedCode, suffix_of_ne_nil (List.ne_nil_of_mem hfirst), libraryCode, hsplit,
        List.flatMap_append, List.flatMap_cons]
      simp only [List.append_assoc]
    rw [hcode]
    exact ⟨_, (bodyAt_append _ _).final localLabels⟩

/-- The body of a routine stands in a program at most once. -/
theorem IsLinked.bodyAt_unique {routine : Routine} {start start' : Nat}
    (hstart : routine.BodyAt localLabels (listing.linkedCode.map (finalInstr localLabels)) start)
    (hstart' :
      routine.BodyAt localLabels (listing.linkedCode.map (finalInstr localLabels)) start') :
    start = start' := by
  have hmem := (h.exists_bodyAt_iff routine).mp ⟨start, hstart⟩
  have honce : (listing.linkedCode.map (finalInstr localLabels)).count
      (.lbl (finalLabel localLabels (.global routine.name))) = 1 := by
    rw [h.count_routine_final]
    exact List.count_eq_one_of_mem (nodup_closure _) hmem
  exact (existsUnique_instrAt.mpr honce).unique hstart.label hstart'.label

end

end Listing

/-- Every program that is compiled with its library is closed: each call has exactly one label to go
to, and the library has the routines that can be reached from the calls of the script, each of them
once. A program without such calls has no library at all. -/
theorem link_closure {text : String} {options : Options} {final : Listing}
    (hlibrary : options.library = true) (h : compile text options = .ok final) :
    ∃ user, compile text { options with library := false } = .ok user ∧
      (∀ line label, InstrAt final.instrs line (.xeq label) →
        ∃! place, InstrAt final.instrs place (.lbl label)) ∧
      (∀ routine : Routine,
        (∃ start, routine.BodyAt options.localLibraryLabels final.instrs start) ↔
        routine.NeededBy user.instrs) ∧
      (∀ (routine : Routine) start start',
        routine.BodyAt options.localLibraryLabels final.instrs start →
        routine.BodyAt options.localLibraryLabels final.instrs start' → start = start') ∧
      ((∀ routine, Routine.call routine ∉ user.instrs) → final = user) := by
  obtain ⟨body, labels, user, hbody, hlabels, huser, rfl⟩ := compile_eq_ok.mp h
  rw [hlibrary, if_pos rfl]
  have hlinked := Listing.isLinked_ofScript hlabels huser
  refine ⟨user, compile_eq_ok.mpr ⟨body, labels, user, hbody, hlabels, huser, rfl⟩, ?_, ?_, ?_, ?_⟩
  · intro line label hcall
    rw [hlinked.instrs_appendLibrary] at hcall ⊢
    obtain ⟨instr, hinstr, hfinal⟩ := List.mem_map.mp (exists_instrAt.mp ⟨line, hcall⟩)
    obtain ⟨callee, rfl, rfl⟩ := Listing.finalInstr_eq_xeq.mp hfinal
    obtain ⟨hcallable, honce⟩ := hlinked.count_callee hinstr
    rw [existsUnique_instrAt, Listing.count_label_final (fun n => hlinked.number_of_mem) hcallable]
    exact honce
  · intro routine
    rw [hlinked.instrs_appendLibrary, hlinked.exists_bodyAt_iff,
      Routine.mem_closure_iff_neededBy hlinked.needed_iff]
  · intro routine start start'
    rw [hlinked.instrs_appendLibrary]
    exact hlinked.bodyAt_unique
  · intro hnone
    refine Listing.appendLibrary_of_needed_eq_nil (List.eq_nil_iff_forall_not_mem.mpr ?_)
    exact fun routine hmem => hnone routine ((hlinked.needed_iff routine).mp hmem)

/-- Two functions, one of which calls the other, and a comparison that the library makes. -/
def linkingText : String :=
  "def f(a):\n  if a == g(a):\n    return 1\ndef g(a):\n  return a + 1\n"

/-- The comparison is called by its local number, and it brings along the routine that it ends
with. -/
theorem link_closure_comparison :
    ∃ final user : Listing, compile linkingText {} = .ok final ∧
      InstrAt final.instrs 5 (.xeq (.letter 'A')) ∧ InstrAt final.instrs 6 (.xeq (.number 53)) ∧
      InstrAt final.instrs 29 (.xeq (.number 59)) ∧
      compile linkingText { library := false } = .ok user ∧
      (∀ line label, InstrAt final.instrs line (.xeq label) →
        ∃! place, InstrAt final.instrs place (.lbl label)) ∧
      (∀ routine : Routine, (∃ start, routine.BodyAt true final.instrs start) ↔
        routine.NeededBy user.instrs) ∧
      (∀ (routine : Routine) start start', routine.BodyAt true final.instrs start →
        routine.BodyAt true final.instrs start' → start = start') ∧
      ((∀ routine, Routine.call routine ∉ user.instrs) → final = user) := by
  have hcompiles : (compile linkingText {}).toOption.any (fun final =>
      InstrAt final.instrs 5 (.xeq (.letter 'A')) ∧ InstrAt final.instrs 6 (.xeq (.number 53)) ∧
        InstrAt final.instrs 29 (.xeq (.number 59))) = true := by
    decide +kernel
  obtain ⟨final, hfinal, hcalls⟩ := exists_ok_of_any hcompiles
  obtain ⟨hown, hequal, htruth⟩ := of_decide_eq_true hcalls
  obtain ⟨user, huser, hfacts⟩ := link_closure rfl hfinal
  exact ⟨final, user, hfinal, hown, hequal, htruth, huser, hfacts⟩

end Keystroke
