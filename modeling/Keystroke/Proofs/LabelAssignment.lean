import Mathlib.Data.List.Nodup
import Keystroke.Proofs.StraightCode

/-!
# Making the labels of functions

Labels are kept in finite maps, and global labels are made from names by writing them in capitals.
So no name makes the header of the library. A function gets its label in one step, and a module one
label after the other.
-/

namespace Keystroke

/-! ### Finite maps -/

namespace NameMap

variable {α : Type} {m : NameMap α} {name other : String} {value : α}

theorem get?_erase_of_ne (h : other ≠ name) : (m.erase name).get? other = m.get? other := by
  show (m.entries.filter fun entry => name != entry.1).lookup other = m.entries.lookup other
  induction m.entries with
  | nil => rfl
  | cons entry rest ih =>
    rw [List.filter_cons]
    split
    · rw [List.lookup_cons, List.lookup_cons, ih]
    · rename_i hname
      have hkey : name = entry.1 := by simpa using hname
      rw [ih, List.lookup_cons, ← hkey, beq_false_of_ne h]

@[simp] theorem get?_erase_self : (m.erase name).get? name = none := by
  show (m.entries.filter fun entry => name != entry.1).lookup name = none
  rw [List.lookup_eq_none_iff]
  intro entry hentry
  simpa using (List.mem_filter.mp hentry).2

@[simp] theorem get?_insert_self : (m.insert name value).get? name = some value := by
  show ((name, value) :: (m.erase name).entries).lookup name = some value
  rw [List.lookup_cons, beq_self_eq_true]

theorem get?_insert_of_ne (h : other ≠ name) : (m.insert name value).get? other = m.get? other := by
  refine Eq.trans ?_ (get?_erase_of_ne h)
  show ((name, value) :: (m.erase name).entries).lookup other = (m.erase name).entries.lookup other
  rw [List.lookup_cons, beq_false_of_ne h]

end NameMap

/-! ### Capitals -/

/-- Only itself can make a character that no other one is mapped to. -/
theorem eq_of_mem_uppercaseChar {c d : Char} (hd : d.toNat ≠ 0)
    (hexpansions : ∀ entry ∈ uppercaseExpansions, d.toNat ∉ entry.2)
    (hruns : ∀ run ∈ uppercaseRuns,
      run.target + (run.last - run.first) < d.toNat ∨ d.toNat < run.target)
    (h : d ∈ uppercaseChar c) : c = d ∧ uppercaseRuns.find? (·.covers d.toNat) = none := by
  have hofNat : ∀ n, Char.ofNat n = d → n = d.toNat := by
    rintro n rfl
    by_cases hvalid : n.isValidChar
    · rw [Char.ofNat, dif_pos hvalid]
      rfl
    · rw [Char.ofNat, dif_neg hvalid] at hd
      exact absurd rfl hd
  unfold uppercaseChar at h
  split at h
  · rename_i points hpoints
    obtain ⟨before, after, hsplit, -⟩ := List.lookup_eq_some_iff.mp hpoints
    obtain ⟨n, hn, hchar⟩ := List.mem_map.mp h
    refine absurd (hofNat n hchar ▸ hn) (hexpansions (c.toNat, points) ?_)
    rw [hsplit]
    simp
  · split at h
    · rename_i run hrun
      have hpoint : run.target + (c.toNat - run.first) = d.toNat :=
        hofNat _ (List.mem_singleton.mp h).symm
      have hcovers : c.toNat ≤ run.last := by
        have := List.find?_some hrun
        simp only [CaseRun.covers, Bool.and_eq_true, decide_eq_true_eq] at this
        exact this.1.2
      have := hruns run (List.mem_of_find?_eq_some hrun)
      omega
    · rename_i hnone
      obtain rfl := List.mem_singleton.mp h
      exact ⟨rfl, hnone⟩

theorem labelName_ne_libraryHeader (name : String) : labelName name ≠ Listing.libraryHeader := by
  intro h
  have hy : 'y' ∈ (labelName name).toList := by
    rw [h]
    decide
  have huppercase : 'y' ∈ (uppercase name).toList := by
    simp only [labelName, String.toList_ofList] at hy
    exact List.mem_of_mem_take hy
  simp only [uppercase, String.toList_ofList, List.mem_flatMap] at huppercase
  obtain ⟨c, -, hc⟩ := huppercase
  obtain ⟨-, hnone⟩ := eq_of_mem_uppercaseChar (by decide) (by decide +kernel)
    (by decide +kernel) hc
  exact absurd hnone (by decide)

/-! ### Functions -/

namespace Script

mutual

/-- The names of the function that a statement defines and of those directly inside it. -/
def Stmt.definedNames : Stmt → List String
  | .functionDef _ header body => header.name.name :: Script.definedNames body
  | _ => []

/-- The names of the functions among some statements and of those directly inside them, a function
before those inside it. -/
def definedNames : List Stmt → List String
  | [] => []
  | stmt :: rest => stmt.definedNames ++ definedNames rest

end

mutual

/-- The function that a statement defines and those directly inside it. -/
def Stmt.definitions : Stmt → List FunctionHeader
  | .functionDef _ header body => header :: Script.definitions body
  | _ => []

/-- The functions among some statements and those directly inside them, a function before those
inside it. -/
def definitions : List Stmt → List FunctionHeader
  | [] => []
  | stmt :: rest => stmt.definitions ++ definitions rest

end

end Script

open Script

namespace FunctionLabels

variable {labels labels' : FunctionLabels} {header : FunctionHeader} {label : Label} {name : String}

/-! ### One function -/

def addGlobal (labels : FunctionLabels) (name : String) : FunctionLabels :=
  { labels with
    labels := labels.labels.insert name (.global (labelName name))
    globals := labels.globals.insert (labelName name) (.function name) }

def addLetter (labels : FunctionLabels) (name : String) (c : Char) : FunctionLabels :=
  { labels with
    labels := labels.labels.insert name (.letter c)
    lettersUsed := labels.lettersUsed + 1 }

theorem makeGlobal_eq_ok :
    labels.makeGlobal name = .ok (label, labels') ↔ labels.has name = false ∧
      labels.globals.get? (labelName name) = none ∧ label = .global (labelName name) ∧
        labels' = labels.addGlobal name := by
  unfold makeGlobal
  dsimp only
  cases hname : labels.has name with
  | true => simp
  | false =>
    cases hholder : labels.globals.get? (labelName name) with
    | some holder => simp
    | none => simp [addGlobal, eq_comm]

theorem makeLocal_eq_ok :
    labels.makeLocal name = .ok (label, labels') ↔ labels.has name = false ∧
      ∃ c, letterBank[labels.lettersUsed]? = some c ∧ label = .letter c ∧
        labels' = labels.addLetter name c := by
  unfold makeLocal
  cases hname : labels.has name with
  | true => simp
  | false =>
    cases hletter : letterBank[labels.lettersUsed]? with
    | none => simp
    | some c => simp [addLetter, eq_comm]

theorem rejectReserved_eq_ok {start : Position} {u : Unit} :
    rejectReserved label start = .ok u ↔ ∀ text, label = .global text →
      Routine.ofName? text = none := by
  unfold rejectReserved
  cases label with
  | global text => cases h : Routine.ofName? text <;> simp [h]
  | letter c => simp
  | number n => simp

theorem assignFunction_eq_ok : labels.assignFunction header = .ok labels' ↔ ∃ label,
    (if !labels.hasGlobal || header.isExported then labels.makeGlobal header.name.name
      else labels.makeLocal header.name.name) = .ok (label, labels') ∧
    ∀ text, label = .global text → Routine.ofName? text = none := by
  unfold assignFunction
  dsimp only
  generalize (if !labels.hasGlobal || header.isExported then labels.makeGlobal header.name.name
    else labels.makeLocal header.name.name) = made
  cases made with
  | error error => simp
  | ok result =>
    obtain ⟨label, labels₁⟩ := result
    constructor
    · intro h
      obtain ⟨u, hreject, h⟩ := bind_eq_ok.mp h
      cases h
      exact ⟨label, rfl, rejectReserved_eq_ok.mp hreject⟩
    · rintro ⟨label', h, hroutine⟩
      cases h
      exact bind_eq_ok.mpr ⟨(), rejectReserved_eq_ok.mpr hroutine, rfl⟩

theorem assignFunction_global (hglobal : (!labels.hasGlobal || header.isExported) = true) :
    labels.assignFunction header = .ok labels' ↔ labels.has header.name.name = false ∧
      labels.globals.get? (labelName header.name.name) = none ∧
      Routine.ofName? (labelName header.name.name) = none ∧
      labels' = labels.addGlobal header.name.name := by
  rw [assignFunction_eq_ok, if_pos hglobal]
  constructor
  · rintro ⟨label, hmade, hroutine⟩
    obtain ⟨hname, hnone, rfl, rfl⟩ := makeGlobal_eq_ok.mp hmade
    exact ⟨hname, hnone, hroutine _ rfl, rfl⟩
  · rintro ⟨hname, hnone, hroutine, rfl⟩
    refine ⟨_, makeGlobal_eq_ok.mpr ⟨hname, hnone, rfl, rfl⟩, ?_⟩
    intro text htext
    rw [← Label.global.inj htext]
    exact hroutine

theorem assignFunction_letter (hletter : ¬ (!labels.hasGlobal || header.isExported) = true) :
    labels.assignFunction header = .ok labels' ↔ labels.has header.name.name = false ∧
      ∃ c, letterBank[labels.lettersUsed]? = some c ∧
        labels' = labels.addLetter header.name.name c := by
  rw [assignFunction_eq_ok, if_neg hletter]
  constructor
  · rintro ⟨label, hmade, -⟩
    obtain ⟨hname, c, hc, rfl, rfl⟩ := makeLocal_eq_ok.mp hmade
    exact ⟨hname, c, hc, rfl⟩
  · rintro ⟨hname, c, hc, rfl⟩
    exact ⟨_, makeLocal_eq_ok.mpr ⟨hname, c, hc, rfl, rfl⟩, nofun⟩

/-! ### The functions of a module -/

/-- Functions get their labels in the order of their code. -/
theorem assignNested_eq_foldlM (statements : List Stmt) (labels : FunctionLabels) :
    assignNested statements labels = (definitions statements).foldlM assignFunction labels := by
  induction statements using functions_induction generalizing labels with
  | nil => rfl
  | other s rest hnot ih =>
    simp only [assignNested, assignDefined, definitions, Stmt.definitions, List.nil_append]
    exact ih labels
  | functionDef start header body rest hbody hrest =>
    simp only [assignNested, assignDefined, definitions, Stmt.definitions, List.cons_append,
      List.foldlM_cons, List.foldlM_append, bind_assoc, hbody, hrest]

end FunctionLabels

end Keystroke
