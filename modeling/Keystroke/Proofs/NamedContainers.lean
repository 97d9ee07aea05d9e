import Keystroke.Proofs.SupportLibrary
import Keystroke.Proofs.VisitedStates

/-!
# Containers have names

The routines for lists and dictionaries find their container through its name, and the calculator
gives names of one to seven characters. Whatever a script does with its variables, those that it has
declared as containers stand for such names, in every state of its compilation.
-/

namespace Keystroke

open Listing

/-- A register that is a variable with a name that fits the calculator. -/
def Register.HasName (register : Register) : Prop :=
  ∃ name, register = .named name ∧ 1 ≤ name.length ∧ name.length ≤ maxNameLength

/-- Variables with names that are not empty have names that fit. -/
theorem Register.IsVariable.hasName {known : String → Prop} {register : Register}
    (h : register.IsVariable known) (hknown : ∀ name, known name → name ≠ "") :
    register.HasName := by
  obtain ⟨name, hname, rfl⟩ := h
  exact ⟨variableName name, rfl, length_variableName (hknown name hname)⟩

/-! ### Lines that select a container -/

/-- A line that makes the text before it the name of the container that routines work on. A variable
of the script can have the same name as the one that it sets, but stores to it carry a comment. -/
def Line.Selects (line : Line) : Prop :=
  line.instr = selectionLine ∧ line.comment = none

/-- A line with a name that fits the calculator. -/
def Line.Names (line : Line) : Prop :=
  ∃ name, line.instr = .alpha name ∧ 1 ≤ name.length ∧ name.length ≤ maxNameLength

/-- Every line that selects a container stands right after one with a name that fits the
calculator. -/
def Announced (lines : List Line) : Prop :=
  ∀ i line, lines[i]? = some line → line.Selects →
    ∃ j before, i = j + 1 ∧ lines[j]? = some before ∧ before.Names

namespace Announced

variable {lines : List Line}

theorem nil : Announced [] := by
  intro i line hline
  cases hline

/-- A line can be added that selects nothing, or that follows a name. -/
theorem concat (h : Announced lines) {line : Line}
    (hline : line.Selects → ∃ before ∈ lines.getLast?, before.Names) :
    Announced (lines ++ [line]) := by
  intro i found hfound hselects
  by_cases hi : i < lines.length
  · rw [List.getElem?_append_left hi] at hfound
    obtain ⟨j, before, rfl, hbefore, hnames⟩ := h i found hfound hselects
    refine ⟨j, before, rfl, ?_, hnames⟩
    rw [List.getElem?_append_left (by omega)]
    exact hbefore
  · rw [List.getElem?_append_right (by omega), List.getElem?_singleton] at hfound
    split at hfound
    · cases hfound
      obtain ⟨before, hbefore, hnames⟩ := hline hselects
      rw [List.getLast?_eq_getElem?] at hbefore
      obtain ⟨hlt, -⟩ := List.getElem?_eq_some_iff.mp hbefore
      refine ⟨lines.length - 1, before, by omega, ?_, hnames⟩
      rw [List.getElem?_append_left hlt]
      exact hbefore
    · cases hfound

theorem append (h : Announced lines) {added : List Line} (hadded : ∀ line ∈ added, ¬ line.Selects) :
    Announced (lines ++ added) := by
  induction added generalizing lines with
  | nil => simpa using h
  | cons line rest ih =>
    rw [List.forall_mem_cons] at hadded
    have hline : Announced (lines ++ [line]) := h.concat fun hselects => (hadded.1 hselects).elim
    simpa using ih hline hadded.2

theorem select (h : Announced lines) {name : String} (hname : 1 ≤ name.length)
    (hlength : name.length ≤ maxNameLength) :
    Announced (lines ++ [⟨.alpha name, none, .string⟩, { instr := selectionLine }]) := by
  have halpha : Announced (lines ++ [⟨.alpha name, none, .string⟩]) :=
    h.concat fun hselects => by cases hselects.1
  have hselect :
      Announced (lines ++ [⟨.alpha name, none, .string⟩] ++ [{ instr := selectionLine }]) :=
    halpha.concat fun _ => ⟨_, List.getLast?_concat, name, rfl, hname, hlength⟩
  simpa using hselect

/-- Labels can be replaced. -/
theorem final (h : Announced lines) (localLabels : Bool) : Announced (lines.map fun line =>
    { line with instr := finalInstr localLabels line.instr }) := by
  cases localLabels with
  | false => simpa [finalInstr] using h
  | true =>
  intro i line hline hselects
  rw [List.getElem?_map] at hline
  obtain ⟨line', hline', rfl⟩ := Option.map_eq_some_iff.mp hline
  -- only labels and calls are replaced, and neither selects a container
  have hinstr : line'.instr = selectionLine := by
    have hlocal : localisedInstr line'.instr = selectionLine := hselects.1
    cases hinstr : line'.instr with
    | lbl => simp [hinstr, localisedInstr, selectionLine, Instr.storeAlpha] at hlocal
    | xeq => simp [hinstr, localisedInstr, selectionLine, Instr.storeAlpha] at hlocal
    | _ => simpa [hinstr, localisedInstr] using hlocal
  obtain ⟨j, before, rfl, hbefore, name, halpha, hname⟩ := h i line' hline' ⟨hinstr, hselects.2⟩
  refine ⟨j, _, rfl, by rw [List.getElem?_map, hbefore]; rfl, name, ?_, hname⟩
  show localisedInstr before.instr = .alpha name
  rw [halpha]
  rfl

end Announced

/-! ### States of a compilation -/

theorem Emit.Permit.Writes.not_selects {permit : Emit.Permit} {instr : Instr}
    {comment : Option String} (h : permit.Writes comment instr) :
    ¬ (Line.mk instr comment instr.kind).Selects := by
  rintro ⟨hinstr, hcomment⟩
  rw [show instr = selectionLine from hinstr] at h
  exact (h.2 (Or.inr rfl)).2 hcomment

namespace Emitter

variable {permit : Emit.Permit} {s s' : Emitter}

theorem Step.announced (h : Step permit s s') (hknown : ∀ name, permit.known name → name ≠ "")
    (hs : Announced s.listing.lines.toList) : Announced s'.listing.lines.toList := by
  cases h with
  | @write instr comment hinstr =>
    have hline := hs.append (List.forall_mem_singleton.mpr hinstr.not_selects)
    simpa [emit, append] using hline
  | call routine =>
    have hcall : ¬ Line.Selects { instr := Routine.call routine } := fun hselects => by
      cases hselects.1
    have hline := hs.append (List.forall_mem_singleton.mpr hcall)
    simpa [callRoutine, emit, append] using hline
  | @select register hregister =>
    obtain ⟨name, rfl, hname, hlength⟩ := hregister.hasName hknown
    simpa [emit, append, Register.nameOrEmpty, Register.name?] using
      hs.select hname hlength
  | control hlisting => exact hlisting ▸ hs
  | _ => exact hs

theorem Steps.announced (h : Steps permit s s') (hknown : ∀ name, permit.known name → name ≠ "")
    (hs : Announced s.listing.lines.toList) : Announced s'.listing.lines.toList := by
  induction h with
  | refl => exact hs
  | tail _ hstep ih => exact hstep.announced hknown ih

end Emitter

/-! ### Listings -/

theorem ne_selectionLine_of_mem_libraryCode {routines : List Routine} {instr : Instr}
    (h : instr ∈ libraryCode routines) : instr ≠ selectionLine := by
  have hall : ∀ routine : Routine, selectionLine ∉ routine.body := by decide +kernel
  rintro rfl
  rcases List.mem_append.mp h with h | h
  · simp [headerCode, selectionLine, Instr.storeAlpha] at h
  · obtain ⟨routine, -, h⟩ := List.mem_flatMap.mp h
    exact hall routine h

/-- The support routines do not matter. -/
theorem Announced.appendLibrary {listing : Listing} (h : Announced listing.lines.toList)
    (localLabels : Bool) : Announced (listing.appendLibrary localLabels).lines.toList := by
  by_cases hneeded : listing.needed = []
  · rw [appendLibrary_of_needed_eq_nil hneeded]
    exact h
  · rw [lines_appendLibrary hneeded]
    refine (h.append fun line hline hselects => ?_).final localLabels
    have hinstr := List.mem_map_of_mem (f := (·.instr)) hline
    rw [map_libraryLines] at hinstr
    exact ne_selectionLine_of_mem_libraryCode hinstr hselects.1

/-- In every state of the compilation of a source text, a name that is known as a container stands
for a variable whose name has one to seven characters, and so does every register that is used as a
container. Each line that selects a container, there and in the finished listing, follows a line
with such a name. -/
theorem containers_named (text : String) :
    (∀ body labels limit jumps s, Script.ofSource (SourceText.ofString text) = .ok body →
      Emit.Reaches labels body limit jumps s →
      (∀ name kind register, s.scopes.container? name = some kind →
        s.scopes.getRegister name = .ok register → register.HasName) ∧
      (∀ id register kind s', (Emit.containerOf id).run s = .ok ((register, kind), s') →
        register.HasName) ∧
      Announced s.listing.lines.toList) ∧
    ∀ options jumps final, compile text options jumps = .ok final →
      Announced final.lines.toList := by
  have hstates : ∀ body labels limit jumps s,
      Script.ofSource (SourceText.ofString text) = .ok body →
      Emit.Reaches labels body limit jumps s → Announced s.listing.lines.toList := by
    intro body labels limit jumps s hsource hs
    exact hs.steps.announced (Script.storedNames_ne_empty hsource) .nil
  refine ⟨fun body labels limit jumps s hsource hs =>
    ⟨?_, ?_, hstates body labels limit jumps s hsource hs⟩, fun options jumps final hcompile => ?_⟩
  · intro name kind register hkind hregister
    exact (hs.sound.isVariable_of_container hkind hregister).hasName
      (Script.storedNames_ne_empty hsource)
  · intro id register kind s' hrun
    exact (Emit.isVariable_of_containerOf hs.sound hrun).hasName
      (Script.storedNames_ne_empty hsource)
  · obtain ⟨body, labels, listing, hsource, -, hlisting, rfl⟩ := compile_eq_ok.mp hcompile
    obtain ⟨_, s, hrun, rfl⟩ := ofScript_eq_ok.mp hlisting
    have hs := hstates body labels _ jumps s hsource (Emit.reaches_of_run hrun)
    split
    · exact hs.appendLibrary _
    · exact hs

/-- A list whose name is too long for the calculator. -/
def longNameText : String :=
  "LBL(\"M\")\nreadings = [1]\n"

/-- The list is selected by the last seven characters of its name. -/
theorem containers_named_longName : ∃ body labels s final,
    Script.ofSource (SourceText.ofString longNameText) = .ok body ∧
    Emit.Reaches labels body 100 .pools s ∧ s.scopes.container? "readings" = some .list ∧
    s.scopes.getRegister "readings" = .ok (.named "eadings") ∧
    (Register.named "eadings").HasName ∧ compile longNameText {} = .ok final ∧
    Announced final.lines.toList ∧
    (final.lines.toList.map (·.instr))[3]? = some selectionLine := by
  have hcompiles : (compile longNameText {}).toOption.any (fun final =>
      (final.lines.toList.map (·.instr))[3]? = some selectionLine) = true := by decide +kernel
  have hstate : (Script.ofSource (SourceText.ofString longNameText)).toOption.any (fun body =>
      (FunctionLabels.assign body).toOption.any fun labels =>
        ((Emit.program labels body).run { scopes := .ofLimit 100, jumps := .pools }).toOption.any
          fun last => last.2.scopes.container? "readings" = some .list ∧
            (last.2.scopes.getRegister "readings").toOption.any (· = .named "eadings")) = true := by
    decide +kernel
  obtain ⟨final, hfinal, hline⟩ := exists_ok_of_any hcompiles
  obtain ⟨body, hsource, hstate⟩ := exists_ok_of_any hstate
  obtain ⟨labels, -, hstate⟩ := exists_ok_of_any hstate
  obtain ⟨⟨_, s⟩, hrun, hstate⟩ := exists_ok_of_any hstate
  obtain ⟨hkind, hregister⟩ := of_decide_eq_true hstate
  obtain ⟨register, hregister, hname⟩ := exists_ok_of_any hregister
  obtain rfl : register = .named "eadings" := of_decide_eq_true hname
  have hreaches : Emit.Reaches labels body 100 .pools s := Emit.reaches_of_run hrun
  obtain ⟨hstates, hlistings⟩ := containers_named longNameText
  exact ⟨body, labels, s, final, hsource, hreaches, hkind, hregister,
    (hstates body labels 100 .pools s hsource hreaches).1 "readings"
    .list _ hkind hregister, hfinal, hlistings {} .pools final hfinal, of_decide_eq_true hline⟩

end Keystroke
