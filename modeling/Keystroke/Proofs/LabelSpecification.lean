import Keystroke.Proofs.LabelAssignment

/-!
# Which labels functions get

The labels of the functions of a module are given here by rules of their own, without a word about
the order in which they are handed out: which modules have labels for all of their functions, which
functions get a global label, and which letter each of the others gets.
-/

namespace Keystroke

open Script (Expr FunctionHeader Stmt)
open NameMap Script

/-! ### Rules -/

namespace Script

/-- The declarations of the entry of a module: their positions and arguments. -/
def entryDeclarations (body : List Stmt) : List (Position × List Expr) :=
  body.filterMap Stmt.entryDeclaration?

/-- The text that is the only argument of a declaration. -/
def onlyText? : List Expr → Option String
  | [.string _ text] => some text
  | _ => none

/-- The name that is declared for the entry of a module. -/
def entryText? (body : List Stmt) : Option String :=
  (entryDeclarations body).findSome? fun declaration => onlyText? declaration.2

def Stmt.isDefinition : Stmt → Bool
  | .functionDef _ _ _ => true
  | _ => false

/-- Whether a function gets a global label, by its position among all functions: it asks for one, or
it is the first function of a module without an entry. -/
def getsGlobal (hasEntry : Bool) (function : FunctionHeader × Nat) : Bool :=
  function.1.isExported || (!hasEntry && function.2 == 0)

/-- The functions that get a global label. -/
def globalFunctions (hasEntry : Bool) (functions : List FunctionHeader) : List FunctionHeader :=
  (functions.zipIdx.filter (getsGlobal hasEntry)).map Prod.fst

/-- The functions that get a letter. -/
def localFunctions (hasEntry : Bool) (functions : List FunctionHeader) : List FunctionHeader :=
  (functions.zipIdx.filter (!getsGlobal hasEntry ·)).map Prod.fst

def functionNames (functions : List FunctionHeader) : List String :=
  functions.map (·.name.name)

def globalTexts (entry : Option String) (functions : List FunctionHeader) : List String :=
  (entry.toList ++ functionNames (globalFunctions entry.isSome functions)).map labelName

/-- Functions can be given labels beside the label of the entry: their names are distinct, so are
all global labels, none of which belongs to a support routine, and there are letters for the
others. -/
structure HaveLabels (entry : Option String) (functions : List FunctionHeader) : Prop where
  names : (functionNames functions).Nodup
  globals : (globalTexts entry functions).Nodup
  unreserved : ∀ text ∈ globalTexts entry functions, Routine.ofName? text = none
  letters : (localFunctions entry.isSome functions).length ≤ letterBank.length

/-- The entry of a module is declared once at most, before all functions, and by a text that is not
empty. -/
structure DeclaresEntry (body : List Stmt) : Prop where
  once : (entryDeclarations body).length ≤ 1
  first : body.Pairwise fun s t => s.isDefinition = true → t.entryDeclaration? = none
  named : ∀ declaration ∈ entryDeclarations body, ∃ text,
    onlyText? declaration.2 = some text ∧ text ≠ ""

/-- The functions of a module can be given labels. -/
structure Labelable (body : List Stmt) : Prop where
  entry : DeclaresEntry body
  functions : HaveLabels (entryText? body) (definitions body)

end Script

open Script

namespace FunctionLabels

/-- The labels of a module before its functions get theirs. -/
def withEntry : Option String → FunctionLabels
  | none => {}
  | some name => (setEntry {} name).2

/-- Labels are those that the rules give to functions and to the entry. -/
structure Describes (entry : Option String) (functions : List FunctionHeader)
    (labels : FunctionLabels) : Prop where
  entry_eq : labels.entry = entry.map fun name => .global (labelName name)
  has_iff : ∀ name, labels.has name = true ↔ name ∈ functionNames functions
  global : ∀ header ∈ globalFunctions entry.isSome functions,
    labels.get? header.name.name = some (.global (labelName header.name.name))
  letter : ∀ (i : Nat) (header : FunctionHeader), (localFunctions entry.isSome functions)[i]? =
    some header →
    ∃ c, letterBank[i]? = some c ∧ labels.get? header.name.name = some (.letter c)
  lettersUsed_eq : labels.lettersUsed = (localFunctions entry.isSome functions).length
  globals_iff : ∀ text, (labels.globals.get? text).isSome = true ↔
    text ∈ globalTexts entry functions

end FunctionLabels

/-! ### One more function -/

namespace Script

variable {entry : Option String} {functions : List FunctionHeader} {header : FunctionHeader}
  {hasEntry : Bool}

theorem globalFunctions_sublist : (globalFunctions hasEntry functions).Sublist functions := by
  have h := (List.filter_sublist (p := getsGlobal hasEntry) (l := functions.zipIdx)).map Prod.fst
  rwa [List.zipIdx_map_fst] at h

theorem localFunctions_sublist : (localFunctions hasEntry functions).Sublist functions := by
  have h :=
    (List.filter_sublist (p := (!getsGlobal hasEntry ·)) (l := functions.zipIdx)).map Prod.fst
  rwa [List.zipIdx_map_fst] at h

theorem globalFunctions_append : globalFunctions hasEntry (functions ++ [header]) =
    globalFunctions hasEntry functions ++
      if getsGlobal hasEntry (header, functions.length) then [header] else [] := by
  unfold globalFunctions
  rw [List.zipIdx_append, List.filter_append, List.map_append]
  congr 1
  split <;> simp_all

theorem localFunctions_append : localFunctions hasEntry (functions ++ [header]) =
    localFunctions hasEntry functions ++
      if getsGlobal hasEntry (header, functions.length) then [] else [header] := by
  unfold localFunctions
  rw [List.zipIdx_append, List.filter_append, List.map_append]
  congr 1
  split <;> simp_all

theorem functionNames_append : functionNames (functions ++ [header]) = functionNames functions ++
  [header.name.name] := by
  simp [functionNames]

theorem globalTexts_append : globalTexts entry (functions ++ [header]) =
    globalTexts entry functions ++
      if getsGlobal entry.isSome (header, functions.length) then [labelName header.name.name]
      else [] := by
  unfold globalTexts
  rw [globalFunctions_append]
  split <;> simp [functionNames]

/-- One more function can be given a label. -/
def Admits (entry : Option String) (functions : List FunctionHeader) (header : FunctionHeader) :
    Prop :=
  header.name.name ∉ functionNames functions ∧
    if getsGlobal entry.isSome (header, functions.length) then
      labelName header.name.name ∉ globalTexts entry functions ∧
        Routine.ofName? (labelName header.name.name) = none
    else (localFunctions entry.isSome functions).length < letterBank.length

theorem haveLabels_append : HaveLabels entry (functions ++ [header]) ↔
    HaveLabels entry functions ∧ Admits entry functions header := by
  have hcases : ∀ functions, HaveLabels entry functions ↔ (functionNames functions).Nodup ∧
      (globalTexts entry functions).Nodup ∧
      (∀ text ∈ globalTexts entry functions, Routine.ofName? text = none) ∧
      (localFunctions entry.isSome functions).length ≤ letterBank.length :=
    fun _ => ⟨fun h => ⟨h.names, h.globals, h.unreserved, h.letters⟩,
      fun ⟨hnames, hglobals, hunreserved, hletters⟩ => ⟨hnames, hglobals, hunreserved, hletters⟩⟩
  rw [hcases, hcases, functionNames_append, globalTexts_append, localFunctions_append, Admits,
    ← List.concat_eq_append, List.nodup_concat]
  split
  · rw [← List.concat_eq_append, List.nodup_concat, List.append_nil, List.concat_eq_append,
      List.forall_mem_append, List.forall_mem_singleton]
    constructor
    · rintro ⟨⟨hname, hnames⟩, ⟨htext, htexts⟩, ⟨hall, hlast⟩, hletters⟩
      exact ⟨⟨hnames, htexts, hall, hletters⟩, hname, htext, hlast⟩
    · rintro ⟨⟨hnames, htexts, hall, hletters⟩, hname, htext, hlast⟩
      exact ⟨⟨hname, hnames⟩, ⟨htext, htexts⟩, ⟨hall, hlast⟩, hletters⟩
  · rw [List.append_nil, List.length_append, List.length_singleton]
    constructor
    · rintro ⟨⟨hname, hnames⟩, htexts, hall, hletters⟩
      exact ⟨⟨hnames, htexts, hall, Nat.le_of_succ_le hletters⟩, hname, hletters⟩
    · rintro ⟨⟨hnames, htexts, hall, -⟩, hname, hletters⟩
      exact ⟨⟨hname, hnames⟩, htexts, hall, hletters⟩

theorem HaveLabels.of_append {rest : List FunctionHeader}
    (h : HaveLabels entry (functions ++ rest)) : HaveLabels entry functions := by
  induction rest generalizing functions with
  | nil => rwa [List.append_nil] at h
  | cons header rest ih =>
    rw [List.append_cons] at h
    exact (haveLabels_append.mp (ih h)).1

end Script

namespace FunctionLabels

variable {entry : Option String} {functions rest : List FunctionHeader} {header : FunctionHeader}
  {labels labels' : FunctionLabels} {body : List Stmt}

namespace Describes

/-- A module without functions so far. -/
theorem start (entry : Option String) : Describes entry [] (withEntry entry) := by
  refine ⟨by cases entry <;> rfl, fun name => ?_, List.forall_mem_nil _,
    fun _ _ hlocal => (by cases hlocal), by cases entry <;> rfl, fun text => ?_⟩
  · cases entry <;>
      simp [has, withEntry, setEntry, contains, NameMap.get?, functionNames]
  · cases entry with
    | none => simp [withEntry, NameMap.get?, globalTexts, globalFunctions, functionNames]
    | some name =>
      by_cases htext : text = labelName name
      · simp [withEntry, setEntry, htext, globalTexts]
      · have hnone : (withEntry (some name)).globals.get? text = none :=
          get?_insert_of_ne htext
        simp [hnone, htext, globalTexts, globalFunctions, functionNames]

section

variable (h : Describes entry functions labels)

include h

theorem hasGlobal_eq :
    labels.hasGlobal = (entry.isSome || !functions.isEmpty) := by
  rw [FunctionLabels.hasGlobal, h.entry_eq, Option.isSome_map]
  cases entry with
  | some name => rfl
  | none =>
    cases functions with
    | nil =>
      have hempty : labels.labels.entries = [] := by
        cases hentries : labels.labels.entries with
        | nil => rfl
        | cons entry rest =>
          have hhas : labels.has entry.1 = true := by
            simp [has, contains, NameMap.get?, hentries]
          cases (h.has_iff entry.1).mp hhas
      simp [any, hempty]
    | cons first rest =>
      have hfirst := h.global first (by simp [globalFunctions, getsGlobal])
      obtain ⟨before, after, hentries, -⟩ := List.lookup_eq_some_iff.mp hfirst
      simp [any, hentries, Label.isGlobal]

theorem getsGlobal_eq :
    (!labels.hasGlobal || header.isExported) =
      getsGlobal entry.isSome (header, functions.length) := by
  rw [h.hasGlobal_eq, getsGlobal, Bool.or_comm, Bool.not_or, Bool.not_not]
  cases functions <;> rfl

/-- A function has been given the label that the rules give it. -/
theorem insert {label : Label} (hname : header.name.name ∉ functionNames functions)
    (hlabels : labels'.labels = labels.labels.insert header.name.name label)
    (hentry : labels'.entry = labels.entry)
    (hglobal : getsGlobal entry.isSome (header, functions.length) = true → label = .global
      (labelName header.name.name))
    (hletter : getsGlobal entry.isSome (header, functions.length) = false → ∃ c,
      letterBank[labels.lettersUsed]? = some c ∧ label = .letter c)
    (hused : labels'.lettersUsed = (localFunctions entry.isSome (functions ++ [header])).length)
    (hglobals : ∀ text, (labels'.globals.get? text).isSome = true ↔ text ∈ globalTexts entry
      (functions ++ [header])) :
    Describes entry (functions ++ [header]) labels' := by
  have hself : labels'.get? header.name.name = some label := by
    rw [get?, hlabels, get?_insert_self]
  -- the name is new, so no function loses its label
  have hkept : ∀ other ∈ functions, labels'.get? other.name.name = labels.get? other.name.name := by
    intro other hother
    have hne : other.name.name ≠ header.name.name := fun heq =>
      hname (heq ▸ List.mem_map_of_mem hother)
    rw [get?, hlabels, get?_insert_of_ne hne, get?]
  refine ⟨hentry.trans h.entry_eq, fun name => ?_, fun other hother => ?_, fun i other hother => ?_,
    hused, hglobals⟩
  · rw [functionNames_append, List.mem_append, List.mem_singleton, ← h.has_iff]
    by_cases heq : name = header.name.name
    · simp [has, contains, hlabels, heq]
    · simp [has, contains, hlabels, get?_insert_of_ne heq, heq]
  · rw [globalFunctions_append, List.mem_append] at hother
    rcases hother with hother | hother
    · rw [hkept other (globalFunctions_sublist.subset hother)]
      exact h.global other hother
    · split at hother
      · rename_i hgets
        rw [List.mem_singleton.mp hother, hself, hglobal hgets]
      · cases hother
  · rw [localFunctions_append] at hother
    rcases Nat.lt_or_ge i (localFunctions entry.isSome functions).length with hlt | hge
    · rw [List.getElem?_append_left hlt] at hother
      rw [hkept other (localFunctions_sublist.subset (List.mem_of_getElem? hother))]
      exact h.letter i other hother
    · rw [List.getElem?_append_right hge] at hother
      split at hother
      · cases hother
      · rename_i hgets
        rw [List.getElem?_singleton] at hother
        split at hother
        · rename_i hi
          cases hother
          obtain ⟨c, hc, rfl⟩ := hletter (by simpa using hgets)
          have hlast : labels.lettersUsed = i := by
            rw [h.lettersUsed_eq]
            omega
          exact ⟨c, hlast ▸ hc, hself⟩
        · cases hother

theorem has_eq_false :
    labels.has header.name.name = false ↔ header.name.name ∉ functionNames functions := by
  rw [← h.has_iff, Bool.not_eq_true]

theorem globals_eq_none {text : String} :
    labels.globals.get? text = none ↔ text ∉ globalTexts entry functions := by
  rw [← h.globals_iff, Option.not_isSome_iff_eq_none]

/-- A function that gets a label can be given one, and gets the one that the rules give. -/
theorem of_assignFunction (hassign : labels.assignFunction header = .ok labels') :
    Admits entry functions header ∧ Describes entry (functions ++ [header]) labels' := by
  by_cases hgets : getsGlobal entry.isSome (header, functions.length) = true
  · obtain ⟨hname, hnone, hroutine, rfl⟩ :=
      (assignFunction_global (h.getsGlobal_eq.trans hgets)).mp hassign
    have hnew := h.has_eq_false.mp hname
    refine ⟨⟨hnew, ?_⟩, h.insert hnew rfl rfl (fun _ => rfl) (fun hnot => ?_) ?_ fun text => ?_⟩
    · rw [if_pos hgets]
      exact ⟨h.globals_eq_none.mp hnone, hroutine⟩
    · cases hgets.symm.trans hnot
    · rw [localFunctions_append, if_pos hgets, List.append_nil]
      exact h.lettersUsed_eq
    · rw [globalTexts_append, if_pos hgets, List.mem_append, List.mem_singleton, ← h.globals_iff,
        addGlobal]
      by_cases htext : text = labelName header.name.name
      · simp [htext]
      · simp [get?_insert_of_ne htext, htext]
  · obtain ⟨hname, c, hc, rfl⟩ :=
      (assignFunction_letter (h.getsGlobal_eq.symm ▸ hgets)).mp hassign
    have hnew := h.has_eq_false.mp hname
    refine ⟨⟨hnew, ?_⟩, h.insert hnew rfl rfl (fun hnot => absurd hnot hgets)
      (fun _ => ⟨c, hc, rfl⟩) ?_ fun text => ?_⟩
    · rw [if_neg hgets, ← h.lettersUsed_eq]
      exact (List.getElem?_eq_some_iff.mp hc).1
    · rw [localFunctions_append, if_neg hgets, List.length_append, ← h.lettersUsed_eq]
      rfl
    · rw [globalTexts_append, if_neg hgets, List.append_nil]
      exact h.globals_iff text

theorem exists_assignFunction (hadmits : Admits entry functions header) :
    ∃ labels', labels.assignFunction header = .ok labels' := by
  obtain ⟨hname, hleft⟩ := hadmits
  have hnew := h.has_eq_false.mpr hname
  split at hleft
  · rename_i hgets
    exact ⟨_, (assignFunction_global (h.getsGlobal_eq.trans hgets)).mpr
      ⟨hnew, h.globals_eq_none.mpr hleft.1, hleft.2, rfl⟩⟩
  · rename_i hgets
    rw [← h.lettersUsed_eq] at hleft
    exact ⟨_, (assignFunction_letter (h.getsGlobal_eq.symm ▸ hgets)).mpr
      ⟨hnew, _, List.getElem?_eq_getElem hleft, rfl⟩⟩

theorem of_foldlM (hassign : rest.foldlM assignFunction labels = .ok labels') :
    Describes entry (functions ++ rest) labels' := by
  induction rest generalizing functions labels with
  | nil =>
    cases hassign
    rwa [List.append_nil]
  | cons header rest ih =>
    obtain ⟨labels₁, hheader, hrest⟩ := bind_eq_ok.mp hassign
    rw [List.append_cons]
    exact ih (h.of_assignFunction hheader).2 hrest

/-- Functions get labels one after the other exactly when they can all be given one. -/
theorem foldlM_iff (hfunctions : HaveLabels entry functions) :
    (∃ labels', rest.foldlM assignFunction labels = .ok labels') ↔
      HaveLabels entry (functions ++ rest) := by
  induction rest generalizing functions labels with
  | nil =>
    rw [List.append_nil]
    exact ⟨fun _ => hfunctions, fun _ => ⟨labels, rfl⟩⟩
  | cons header rest ih =>
    rw [List.append_cons, List.foldlM_cons]
    constructor
    · rintro ⟨labels', hassign⟩
      obtain ⟨labels₁, hheader, hrest⟩ := bind_eq_ok.mp hassign
      obtain ⟨hadmits, h₁⟩ := h.of_assignFunction hheader
      exact (ih h₁ (haveLabels_append.mpr ⟨hfunctions, hadmits⟩)).mp ⟨labels', hrest⟩
    · intro hlabels
      have hheader := hlabels.of_append
      obtain ⟨labels₁, hassign⟩ := h.exists_assignFunction (haveLabels_append.mp hheader).2
      obtain ⟨labels', hrest⟩ := (ih (h.of_assignFunction hassign).2 hheader).mpr hlabels
      exact ⟨labels', bind_eq_ok.mpr ⟨labels₁, hassign, hrest⟩⟩

end

end Describes

/-! ### The entry of a module -/

section

variable {s : Stmt} {body : List Stmt} {declaration : Position × List Expr} {afterFunction : Bool}
  {args : List Expr}

theorem definitions_eq_nil (h : s.isDefinition = false) : s.definitions = [] := by
  cases s with
  | functionDef => cases h
  | _ => rfl

theorem isDefinition_eq_false (h : s.entryDeclaration? = some declaration) :
    s.isDefinition = false := by
  cases s with
  | functionDef => cases h
  | _ => rfl

theorem entryDeclaration?_eq_none (h : s.isDefinition = true) : s.entryDeclaration? = none := by
  cases s with
  | functionDef => rfl
  | _ => cases h

theorem assignFrom_declaration (h : s.entryDeclaration? = some declaration) :
    assignFrom afterFunction (s :: body) labels =
      (labels.assignEntry afterFunction declaration.1 declaration.2 >>=
        assignFrom afterFunction body) := by
  unfold assignFrom
  split
  · rename_i hdeclaration
    cases h.symm.trans hdeclaration
    rfl
  · rename_i hnone
    cases h
  · rename_i hnone
    cases h.symm.trans hnone

theorem assignFrom_definition (h : s.isDefinition = true) :
    assignFrom afterFunction (s :: body) labels =
      (s.definitions.foldlM assignFunction labels >>= assignFrom true body) := by
  cases s with
  | functionDef start header inner =>
    simp only [Stmt.definitions, List.foldlM_cons, ← assignNested_eq_foldlM, bind_assoc]
    rfl
  | _ => cases h

theorem assignFrom_other (h : s.entryDeclaration? = none) (hs : s.isDefinition = false) :
    assignFrom afterFunction (s :: body) labels = assignFrom afterFunction body labels := by
  conv_lhs => unfold assignFrom
  split
  · rename_i hdeclaration
    cases h.symm.trans hdeclaration
  · cases hs
  · rfl

theorem entryName?_eq_some {name : String} :
    entryName? args = some name ↔ onlyText? args = some name ∧ name ≠ "" := by
  unfold entryName? onlyText?
  split
  · rename_i start text
    split
    · rename_i hempty
      refine ⟨nofun, ?_⟩
      rintro ⟨⟨⟩, hne⟩
      exact absurd (String.isEmpty_iff.mp hempty) hne
    · rename_i hempty
      refine ⟨?_, And.left⟩
      rintro ⟨⟩
      exact ⟨rfl, fun htext => hempty (String.isEmpty_iff.mpr htext)⟩
  · simp

/-- The entry can be declared before all functions, once, and with a label that is not reserved. -/
theorem assignEntry_eq_ok {start : Position} :
    labels.assignEntry afterFunction start args = .ok labels' ↔
      afterFunction = false ∧ labels.entry = none ∧ ∃ name, onlyText? args = some name ∧
        name ≠ "" ∧ Routine.ofName? (labelName name) = none ∧
          labels' = (labels.setEntry name).2 := by
  unfold assignEntry
  cases afterFunction with
  | true => simp
  | false =>
    cases hentry : labels.entry with
    | some label => simp
    | none =>
      cases hname : entryName? args with
      | none =>
        refine ⟨nofun, ?_⟩
        rintro ⟨-, -, name, htext, hne, -⟩
        cases hname.symm.trans (entryName?_eq_some.mpr ⟨htext, hne⟩)
      | some name =>
        obtain ⟨htext, hne⟩ := entryName?_eq_some.mp hname
        constructor
        · intro h
          obtain ⟨u, hreject, h⟩ := bind_eq_ok.mp h
          cases h
          exact ⟨rfl, rfl, name, htext, hne, rejectReserved_eq_ok.mp hreject _ rfl, rfl⟩
        · rintro ⟨-, -, name', htext', -, hroutine, rfl⟩
          cases htext.symm.trans htext'
          refine bind_eq_ok.mpr ⟨(), rejectReserved_eq_ok.mpr fun text hlabel => ?_, rfl⟩
          rw [← Label.global.inj hlabel]
          exact hroutine

end

theorem assignFrom_eq_ok {afterFunction : Bool}
    (h : afterFunction = true ∨ labels.entry.isSome = true) :
    assignFrom afterFunction body labels = .ok labels' ↔
      entryDeclarations body = [] ∧ (definitions body).foldlM assignFunction labels =
        .ok labels' := by
  induction body generalizing afterFunction labels with
  | nil => exact ⟨fun hassign => ⟨rfl, hassign⟩, And.right⟩
  | cons s body ih =>
    cases hdeclaration : s.entryDeclaration? with
    | some declaration =>
      have hcons : entryDeclarations (s :: body) = declaration :: entryDeclarations body :=
        List.filterMap_cons_some hdeclaration
      rw [assignFrom_declaration hdeclaration, hcons, bind_eq_ok]
      constructor
      -- a declaration is refused here, for one of the two causes
      · rintro ⟨labels₁, hentry, -⟩
        obtain ⟨hbefore, hnone, -⟩ := assignEntry_eq_ok.mp hentry
        rcases h with h | h
        · cases hbefore.symm.trans h
        · rw [hnone] at h
          cases h
      · rintro ⟨hnil, -⟩
        cases hnil
    | none =>
      have hcons : entryDeclarations (s :: body) = entryDeclarations body :=
        List.filterMap_cons_none hdeclaration
      rw [hcons, definitions, List.foldlM_append]
      cases hs : s.isDefinition with
      | true =>
        rw [assignFrom_definition hs, bind_eq_ok, bind_eq_ok]
        constructor
        · rintro ⟨labels₁, hdefined, hrest⟩
          obtain ⟨hnil, hrest⟩ := (ih (Or.inl rfl)).mp hrest
          exact ⟨hnil, labels₁, hdefined, hrest⟩
        · rintro ⟨hnil, labels₁, hdefined, hrest⟩
          exact ⟨labels₁, hdefined, (ih (Or.inl rfl)).mpr ⟨hnil, hrest⟩⟩
      | false =>
        rw [assignFrom_other hdeclaration hs, definitions_eq_nil hs]
        exact ih h

section

variable {s : Stmt} {body : List Stmt} {declaration : Position × List Expr}

theorem declaresEntry_of_nil (h : entryDeclarations body = []) : DeclaresEntry body := by
  refine ⟨by simp [h], ?_, by simp [h]⟩
  refine List.pairwise_of_forall_mem_list fun s _ t ht _ => ?_
  exact List.filterMap_eq_nil_iff.mp h t ht

theorem declaresEntry_declaration (h : s.entryDeclaration? = some declaration) :
    DeclaresEntry (s :: body) ↔ entryDeclarations body = [] ∧
      ∃ text, onlyText? declaration.2 = some text ∧ text ≠ "" := by
  have hcons : entryDeclarations (s :: body) = declaration :: entryDeclarations body :=
    List.filterMap_cons_some h
  constructor
  · intro hentry
    have honce := hentry.once
    rw [hcons, List.length_cons] at honce
    exact ⟨List.length_eq_zero_iff.mp (by omega), hentry.named declaration (by simp [hcons])⟩
  · rintro ⟨hnil, hnamed⟩
    refine ⟨by simp [hcons, hnil], ?_, by simpa [hcons, hnil] using hnamed⟩
    refine List.pairwise_cons.mpr ⟨fun t _ hs => ?_, (declaresEntry_of_nil hnil).first⟩
    cases (isDefinition_eq_false h).symm.trans hs

theorem declaresEntry_definition (h : s.isDefinition = true) :
    DeclaresEntry (s :: body) ↔ entryDeclarations body = [] := by
  have hcons : entryDeclarations (s :: body) = entryDeclarations body :=
    List.filterMap_cons_none (entryDeclaration?_eq_none h)
  constructor
  · intro hentry
    exact List.filterMap_eq_nil_iff.mpr fun t ht => (List.pairwise_cons.mp hentry.first).1 t ht h
  · intro hnil
    exact declaresEntry_of_nil (hcons.trans hnil)

theorem declaresEntry_other (h : s.entryDeclaration? = none) (hs : s.isDefinition = false) :
    DeclaresEntry (s :: body) ↔ DeclaresEntry body := by
  have hcons : entryDeclarations (s :: body) = entryDeclarations body := List.filterMap_cons_none h
  constructor
  · intro hentry
    exact ⟨hcons ▸ hentry.once, (List.pairwise_cons.mp hentry.first).2, hcons ▸ hentry.named⟩
  · intro hentry
    refine ⟨hcons.symm ▸ hentry.once, ?_, hcons.symm ▸ hentry.named⟩
    refine List.pairwise_cons.mpr ⟨fun t _ hdefinition => ?_, hentry.first⟩
    cases hs.symm.trans hdefinition

theorem entryText?_eq_none (h : entryDeclarations body = []) : entryText? body = none := by
  rw [entryText?, h]
  rfl

end

theorem assign_eq_ok : assign body = .ok labels ↔
    DeclaresEntry body ∧ (∀ name ∈ entryText? body, Routine.ofName? (labelName name) = none) ∧
      (definitions body).foldlM assignFunction (withEntry (entryText? body)) = .ok labels := by
  unfold assign
  induction body with
  | nil => exact ⟨fun h => ⟨declaresEntry_of_nil rfl, by rintro _ ⟨⟩, h⟩, fun h => h.2.2⟩
  | cons s body ih =>
    cases hdeclaration : s.entryDeclaration? with
    | some declaration =>
      have hs := isDefinition_eq_false hdeclaration
      have hentry : ∀ {text}, onlyText? declaration.2 = some text →
          entryText? (s :: body) = some text := by
        intro text htext
        have hcons : entryDeclarations (s :: body) = declaration :: entryDeclarations body :=
          List.filterMap_cons_some hdeclaration
        rw [entryText?, hcons, List.findSome?_cons, htext]
      -- the first declaration gives the entry, and behind it there must be no other
      rw [assignFrom_declaration hdeclaration, declaresEntry_declaration hdeclaration, definitions,
        definitions_eq_nil hs, List.nil_append, bind_eq_ok]
      constructor
      · rintro ⟨labels₁, hassign, hrest⟩
        obtain ⟨-, -, text, htext, hne, hroutine, rfl⟩ := assignEntry_eq_ok.mp hassign
        obtain ⟨hnil, hrest⟩ := (assignFrom_eq_ok (Or.inr rfl)).mp hrest
        rw [hentry htext]
        exact ⟨⟨hnil, text, htext, hne⟩, fun name hname => Option.some.inj hname ▸ hroutine, hrest⟩
      · rintro ⟨⟨hnil, text, htext, hne⟩, hroutine, hrest⟩
        rw [hentry htext] at hroutine hrest
        exact ⟨_, assignEntry_eq_ok.mpr ⟨rfl, rfl, text, htext, hne, hroutine text rfl, rfl⟩,
          (assignFrom_eq_ok (Or.inr rfl)).mpr ⟨hnil, hrest⟩⟩
    | none =>
      have hcons : entryDeclarations (s :: body) = entryDeclarations body :=
        List.filterMap_cons_none hdeclaration
      cases hs : s.isDefinition with
      | true =>
        -- from the first function on, a declaration comes too late
        have hsame : assignFrom false (s :: body) {} = assignFrom true (s :: body) {} :=
          (assignFrom_definition hs).trans (assignFrom_definition hs).symm
        rw [declaresEntry_definition hs, hsame, assignFrom_eq_ok (Or.inl rfl), hcons]
        refine and_congr_right fun hnil => ?_
        rw [entryText?_eq_none (hcons.trans hnil)]
        exact ⟨fun h => ⟨by rintro _ ⟨⟩, h⟩, And.right⟩
      | false =>
        rw [assignFrom_other hdeclaration hs, declaresEntry_other hdeclaration hs, definitions,
          definitions_eq_nil hs, List.nil_append, entryText?, hcons]
        exact ih

/-- The label of the entry can be given on its own when it is not reserved. -/
theorem haveLabels_nil {entry : Option String} :
    HaveLabels entry [] ↔ ∀ name ∈ entry, Routine.ofName? (labelName name) = none := by
  have htexts : globalTexts entry [] = entry.toList.map labelName :=
    congrArg (List.map labelName) (List.append_nil entry.toList)
  constructor
  · intro h name hname
    refine h.unreserved _ ?_
    rw [htexts]
    exact List.mem_map_of_mem (Option.mem_toList.mpr hname)
  · intro h
    refine ⟨List.nodup_nil, ?_, ?_, Nat.zero_le _⟩
    · rw [htexts]
      cases entry <;> simp
    · rw [htexts]
      cases entry with
      | none => simp
      | some name => simpa using h

end FunctionLabels

/-! ### Distinct labels -/

namespace Script

theorem mem_globalFunctions_or_mem_localFunctions {hasEntry : Bool}
    {functions : List FunctionHeader} {header : FunctionHeader} (h : header ∈ functions) :
    header ∈ globalFunctions hasEntry functions ∨ header ∈ localFunctions hasEntry functions := by
  obtain ⟨i, hi⟩ := List.mem_iff_getElem?.mp h
  have hmem : (header, i) ∈ functions.zipIdx := List.mk_mem_zipIdx_iff_getElem?.mpr hi
  cases hgets : getsGlobal hasEntry (header, i) with
  | true => exact Or.inl (List.mem_map.mpr ⟨_, List.mem_filter.mpr ⟨hmem, hgets⟩, rfl⟩)
  | false => exact Or.inr (List.mem_map.mpr ⟨_, List.mem_filter.mpr ⟨hmem, by simp [hgets]⟩, rfl⟩)

theorem functionNames_definitions (statements : List Stmt) :
    functionNames (definitions statements) = definedNames statements := by
  induction statements using functions_induction with
  | nil => rfl
  | other s rest hnot ih => simpa [definitions, Stmt.definitions, definedNames, Stmt.definedNames]
  | functionDef start header body rest hbody hrest =>
    rw [definitions, Stmt.definitions, definedNames, Stmt.definedNames, ← hbody, ← hrest]
    exact List.map_append

end Script

namespace FunctionLabels

variable {labels : FunctionLabels} {names : List String} {name : String} {label : Label}

/-- Labels are well assigned to the functions `names`. -/
structure Assigned (labels : FunctionLabels) (names : List String) : Prop where
  has_iff : ∀ name, labels.has name = true ↔ name ∈ names
  nodup : names.Nodup
  own : labels.Linkable
  entryOwn : ∀ label ∈ labels.entry, label.IsOwn
  injective : ∀ {name other label}, labels.get? name = some label →
    labels.get? other = some label → name = other
  ne_entry : ∀ {name label}, labels.get? name = some label → labels.entry ≠ some label

namespace Assigned

theorem mem_of_get? (h : Assigned labels names) (hname : labels.get? name = some label) :
    name ∈ names :=
  (h.has_iff name).mp (by rw [has, contains, ← get?, hname]; rfl)

theorem nodup_labels (h : Assigned labels names) :
    (labels.entry.toList ++ names.filterMap labels.get?).Nodup := by
  refine List.nodup_append.mpr ⟨?_, h.nodup.filterMap fun name other label hname hother =>
    h.injective hname hother, ?_⟩
  · cases labels.entry <;> simp
  · rintro label hentry other hother rfl
    obtain ⟨name, -, hname⟩ := List.mem_filterMap.mp hother
    exact h.ne_entry hname (Option.mem_toList.mp hentry)

theorem isOwn_of_mem (h : Assigned labels names)
    (hlabel : label ∈ labels.entry.toList ++ names.filterMap labels.get?) : label.IsOwn := by
  rcases List.mem_append.mp hlabel with hentry | hname
  · exact h.entryOwn label (Option.mem_toList.mp hentry)
  · obtain ⟨name, -, hname⟩ := List.mem_filterMap.mp hname
    exact h.own name label hname

end Assigned

variable {entry : Option String} {functions : List FunctionHeader} {body : List Stmt}

theorem Describes.label_cases (h : Describes entry functions labels)
    (hname : labels.get? name = some label) :
    (label = .global (labelName name) ∧
      name ∈ functionNames (globalFunctions entry.isSome functions)) ∨
    ∃ (i : Nat) (c : Char),
      (functionNames (localFunctions entry.isSome functions))[i]? = some name ∧
      letterBank[i]? = some c ∧ label = .letter c := by
  have hhas : labels.has name = true := by
    rw [has, contains, ← get?, hname]
    rfl
  obtain ⟨header, hheader, rfl⟩ := List.mem_map.mp ((h.has_iff name).mp hhas)
  rcases mem_globalFunctions_or_mem_localFunctions hheader with hglobal | hlocal
  · exact Or.inl ⟨Option.some.inj (hname.symm.trans (h.global header hglobal)),
      List.mem_map_of_mem hglobal⟩
  · obtain ⟨i, hi⟩ := List.mem_iff_getElem?.mp hlocal
    obtain ⟨c, hc, hletter⟩ := h.letter i header hi
    exact Or.inr ⟨i, c, by simp [functionNames, hi], hc,
      Option.some.inj (hname.symm.trans hletter)⟩

theorem Describes.assigned (h : Describes entry functions labels)
    (hfunctions : HaveLabels entry functions) : Assigned labels (functionNames functions) := by
  have hown : ∀ name ∈ entry.toList ++ functionNames (globalFunctions entry.isSome functions),
      (Label.global (labelName name)).IsOwn := fun name hname =>
    ⟨hfunctions.unreserved _ (List.mem_map_of_mem hname), labelName_ne_libraryHeader name⟩
  have hglobals := hfunctions.globals
  rw [globalTexts, List.map_append, List.nodup_append] at hglobals
  refine ⟨h.has_iff, hfunctions.names, fun name label hname => ?_, fun label hlabel => ?_,
    fun {name other label} hname hother => ?_, fun {name label} hname hentry => ?_⟩
  · rcases h.label_cases hname with ⟨rfl, hmem⟩ | ⟨_, c, -, -, rfl⟩
    · exact hown name (List.mem_append_right _ hmem)
    · exact trivial
  · rw [h.entry_eq] at hlabel
    obtain ⟨name, hname, rfl⟩ := Option.map_eq_some_iff.mp hlabel
    exact hown name (List.mem_append_left _ (Option.mem_toList.mpr hname))
  · rcases h.label_cases hname with ⟨rfl, hmem⟩ | ⟨i, c, hi, hc, rfl⟩
    · rcases h.label_cases hother with ⟨htext, hmem'⟩ | ⟨_, _, -, -, hletter⟩
      · exact List.inj_on_of_nodup_map hglobals.2.1 hmem hmem' (Label.global.inj htext)
      · cases hletter
    · rcases h.label_cases hother with ⟨hglobal, -⟩ | ⟨j, d, hj, hd, hletter⟩
      · cases hglobal
      · cases hletter
        -- every letter stands in the bank once
        obtain rfl : i = j := (List.getElem?_inj (List.getElem?_eq_some_iff.mp hc).1
          (by decide)).mp (hc.trans hd.symm)
        exact Option.some.inj (hi.symm.trans hj)
  · rw [h.entry_eq] at hentry
    obtain ⟨text, htext, hlabel⟩ := Option.map_eq_some_iff.mp hentry
    rcases h.label_cases hname with ⟨rfl, hmem⟩ | ⟨_, c, -, -, rfl⟩
    · exact hglobals.2.2 _ (List.mem_map_of_mem (Option.mem_toList.mpr htext)) _
        (List.mem_map_of_mem hmem) (Label.global.inj hlabel)
    · cases hlabel

/-- An assignment that succeeds gives labels as the rules say. -/
theorem describes_of_assign (h : assign body = .ok labels) :
    Describes (entryText? body) (definitions body) labels ∧ Labelable body := by
  have hstart := Describes.start (entryText? body)
  obtain ⟨hentry, hunreserved, hfunctions⟩ := assign_eq_ok.mp h
  exact ⟨hstart.of_foldlM hfunctions, hentry,
    (hstart.foldlM_iff (haveLabels_nil.mpr hunreserved)).mp ⟨labels, hfunctions⟩⟩

/-- An assignment that succeeds gives every function of the module a label of its own. -/
theorem assigned_of_assign (h : assign body = .ok labels) :
    Assigned labels (definedNames body) := by
  obtain ⟨hdescribes, -, hfunctions⟩ := describes_of_assign h
  rw [← functionNames_definitions]
  exact hdescribes.assigned hfunctions

/-- Exactly the modules whose functions can be given labels are given labels. The entry then has the
label that is made from its name, and so has every function that gets a global label; the others get
the letters of the bank in order. No two of these labels are the same. -/
theorem assign_iff_labelable (body : List Stmt) :
    ((∃ labels, assign body = .ok labels) ↔ Labelable body) ∧
      ∀ labels, assign body = .ok labels →
        labels.entry = (Script.entryText? body).map (fun name => .global (labelName name)) ∧
        (∀ name, labels.has name = true ↔ name ∈ functionNames (definitions body)) ∧
        (∀ header ∈ globalFunctions (Script.entryText? body).isSome (definitions body),
          labels.get? header.name.name = some (.global (labelName header.name.name))) ∧
        (∀ (i : Nat) (header : FunctionHeader),
          (localFunctions (Script.entryText? body).isSome (definitions body))[i]? = some header →
            ∃ c, letterBank[i]? = some c ∧ labels.get? header.name.name = some (.letter c)) ∧
        (labels.entry.toList ++ (functionNames (definitions body)).filterMap labels.get?).Nodup :=
  by
  refine ⟨⟨?_, ?_⟩, fun labels hassign => ?_⟩
  · rintro ⟨labels, hassign⟩
    exact (describes_of_assign hassign).2
  · rintro ⟨hentry, hfunctions⟩
    have hnil : HaveLabels (Script.entryText? body) [] := HaveLabels.of_append hfunctions
    obtain ⟨labels, hassign⟩ :=
      ((Describes.start (Script.entryText? body)).foldlM_iff hnil).mpr hfunctions
    exact ⟨labels, assign_eq_ok.mpr ⟨hentry, haveLabels_nil.mp hnil, hassign⟩⟩
  · have h := (describes_of_assign hassign).1
    refine ⟨h.entry_eq, h.has_iff, h.global, h.letter, ?_⟩
    rw [functionNames_definitions]
    exact (assigned_of_assign hassign).nodup_labels

end FunctionLabels

end Keystroke
