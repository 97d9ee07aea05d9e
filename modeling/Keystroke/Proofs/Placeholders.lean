import Mathlib.Data.List.Infix
import Mathlib.Data.List.Nodup
import Keystroke.Library.Reserved

/-!
# Placeholders in any order

A template is expanded by one replacement of the whole text after the other. A value that has been
put in could complete a placeholder that comes later, and then the order would matter. It does not
for the reserved resources: no name and no value holds a brace, and no value occurs in the name of
another placeholder. So all of them can be replaced in one pass.
-/

namespace Keystroke.Reserved

/-- A placeholder stands at the start of a text. -/
def startsWith (cs : List Char) (hole : String × String) : Bool :=
  (bracedName hole.1).toList.isPrefixOf cs

/-- One pass from left to right, in which each placeholder of the table becomes its value. The first
`skip` characters belong to the last placeholder found. -/
def expandFrom (table : List (String × String)) : Nat → List Char → List Char
  | _, [] => []
  | skip + 1, _ :: rest => expandFrom table skip rest
  | 0, c :: rest =>
    match table.find? (startsWith (c :: rest)) with
    | some (name, value) => value.toList ++ expandFrom table (name.toList.length + 1) rest
    | none => c :: expandFrom table 0 rest

def expandOnce (table : List (String × String)) (template : String) : String :=
  String.ofList (expandFrom table 0 template.toList)

def expandInTurn (order : List (String × String)) (template : String) : String :=
  order.foldl (fun text (name, value) => replaceAll (bracedName name) value text) template

/-- A text without braces. -/
def Unbraced (text : String) : Prop :=
  '\x7b' ∉ text.toList ∧ '\x7d' ∉ text.toList

instance (text : String) : Decidable (Unbraced text) :=
  inferInstanceAs (Decidable (_ ∧ _))

/-- Placeholders none of which can arise when another one is replaced. -/
structure Independent (table : List (String × String)) : Prop where
  names : ∀ hole ∈ table, Unbraced hole.1
  values : ∀ hole ∈ table, Unbraced hole.2
  distinct : ∀ hole ∈ table, ∀ other ∈ table, hole.1 = other.1 → hole = other
  apart : ∀ hole ∈ table, ∀ other ∈ table, other ≠ hole → ¬ other.2.toList <:+: hole.1.toList

variable {table order : List (String × String)} {hole : String × String} {name value : String}
  {c : Char} {cs rest : List Char}

theorem toList_bracedName (name : String) :
    (bracedName name).toList = '\x7b' :: (name.toList ++ ['\x7d']) := by
  simp [bracedName]

theorem startsWith_cons : startsWith (c :: rest) hole = true ↔
    c = '\x7b' ∧ hole.1.toList ++ ['\x7d'] <+: rest := by
  rw [startsWith, toList_bracedName, List.isPrefixOf_iff_prefix, List.cons_prefix_cons, eq_comm]

theorem eq_takeWhile {name : List Char} (hname : '\x7d' ∉ name)
    (h : name ++ ['\x7d'] <+: cs) : name = cs.takeWhile (· != '\x7d') := by
  obtain ⟨after, rfl⟩ := h
  rw [List.append_assoc, List.takeWhile_append_of_pos]
  · simp
  · intro c hc
    simp only [bne_iff_ne]
    rintro rfl
    exact hname hc

/-- At most one placeholder starts at a place. -/
theorem Independent.find?_eq_some_iff (h : Independent table) :
    table.find? (startsWith (c :: rest)) = some hole ↔
      hole ∈ table ∧ startsWith (c :: rest) hole = true := by
  refine ⟨fun hfind => ⟨List.mem_of_find?_eq_some hfind, List.find?_some hfind⟩, ?_⟩
  rintro ⟨hmem, hstarts⟩
  cases hfind : table.find? (startsWith (c :: rest)) with
  | none => exact absurd hstarts (List.find?_eq_none.mp hfind hole hmem)
  | some other =>
    have hother := List.mem_of_find?_eq_some hfind
    have hname := eq_takeWhile (h.names hole hmem).2 (startsWith_cons.mp hstarts).2
    have hsame := eq_takeWhile (h.names other hother).2
      (startsWith_cons.mp (List.find?_some hfind)).2
    rw [← hsame, String.toList_inj] at hname
    rw [h.distinct hole hmem other hother hname]

/-! ### What a pass does -/

theorem expandFrom_nil (skip : Nat) : expandFrom table skip [] = [] := by
  cases skip <;> rfl

theorem expandFrom_drop (skip : Nat) (cs : List Char) :
    expandFrom table skip cs = expandFrom table 0 (cs.drop skip) := by
  induction cs generalizing skip with
  | nil => rw [List.drop_nil, expandFrom_nil, expandFrom_nil]
  | cons c rest ih =>
    cases skip with
    | zero => rfl
    | succ skip => exact ih skip

theorem expandFrom_of_none (h : table.find? (startsWith (c :: rest)) = none) :
    expandFrom table 0 (c :: rest) = c :: expandFrom table 0 rest := by
  rw [expandFrom, h]

theorem expandFrom_of_some {after : List Char}
    (h : table.find? (startsWith ('\x7b' :: (hole.1.toList ++ ['\x7d'] ++ after))) = some hole) :
    expandFrom table 0 ('\x7b' :: (hole.1.toList ++ ['\x7d'] ++ after)) =
      hole.2.toList ++ expandFrom table 0 after := by
  rw [expandFrom, h]
  show hole.2.toList ++ expandFrom table (hole.1.toList.length + 1) _ = _
  rw [expandFrom_drop, List.drop_left' (by simp)]

/-- Text in which no placeholder starts is kept. -/
theorem expandFrom_append (h : '\x7b' ∉ cs) :
    expandFrom table 0 (cs ++ rest) = cs ++ expandFrom table 0 rest := by
  induction cs with
  | nil => rfl
  | cons c cs ih =>
    rw [List.mem_cons, not_or] at h
    rw [List.cons_append, expandFrom_of_none, ih h.2, List.cons_append]
    rw [List.find?_eq_none]
    intro hole _ hstarts
    exact h.1 (startsWith_cons.mp hstarts).1.symm

theorem expandFrom_empty (cs : List Char) : expandFrom [] 0 cs = cs := by
  induction cs with
  | nil => rfl
  | cons c rest ih => rw [expandFrom_of_none rfl, ih]

theorem replaceFrom_eq_expandFrom (skip : Nat) :
    replaceFrom (bracedName hole.1).toList hole.2.toList skip cs = expandFrom [hole] skip cs := by
  induction cs generalizing skip with
  | nil => cases skip <;> rfl
  | cons c rest ih =>
    cases skip with
    | succ skip => exact ih skip
    | zero =>
      have hlength : (bracedName hole.1).toList.length - 1 = hole.1.toList.length + 1 := by
        simp [toList_bracedName]
      by_cases h : startsWith (c :: rest) hole = true
      · rw [replaceFrom, expandFrom, List.find?_cons_of_pos h, hlength, ih]
        exact if_pos h
      · rw [replaceFrom, expandFrom, List.find?_cons_of_neg h]
        exact (if_neg h).trans (congrArg _ (ih 0))

/-- What a pass leaves holds a name and a closing brace only where the text does. -/
theorem prefix_of_expandFrom {name : List Char} (hname : '\x7d' ∉ name)
    (hvalues : ∀ hole ∈ table, '\x7d' ∉ hole.2.toList ∧ ¬ hole.2.toList <:+: name)
    (h : name ++ ['\x7d'] <+: expandFrom table 0 cs) : name ++ ['\x7d'] <+: cs := by
  induction cs generalizing name with
  | nil => exact h
  | cons c rest ih =>
    unfold expandFrom at h
    split at h
    · rename_i other value hfind
      obtain ⟨hclose, hwithin⟩ := hvalues _ (List.mem_of_find?_eq_some hfind)
      exfalso
      rcases List.prefix_or_prefix_of_prefix h (List.prefix_append _ _) with hlong | hshort
      · exact hclose (hlong.subset (by simp))
      · rcases List.prefix_concat_iff.mp hshort with heq | hprefix
        · exact hclose (heq ▸ by simp)
        · exact hwithin hprefix.isInfix
    · cases name with
      | nil => simpa [List.cons_prefix_cons] using h
      | cons d name =>
        rw [List.cons_append, List.cons_prefix_cons] at h ⊢
        rw [List.mem_cons, not_or] at hname
        refine ⟨h.1, ih hname.2 (fun hole hhole => ?_) h.2⟩
        exact ⟨(hvalues hole hhole).1, fun hwithin => (hvalues hole hhole).2
          (hwithin.trans (List.infix_cons List.infix_rfl))⟩

/-! ### One replacement after the other -/

theorem Independent.mono (h : Independent table) (hsub : order ⊆ table) : Independent order where
  names hole hhole := h.names hole (hsub hhole)
  values hole hhole := h.values hole (hsub hhole)
  distinct hole hhole other hother := h.distinct hole (hsub hhole) other (hsub hother)
  apart hole hhole other hother := h.apart hole (hsub hhole) other (hsub hother)

/-- A pass does not depend on the order of its table. -/
theorem Independent.expandFrom_perm (h : Independent table) (hperm : order.Perm table)
    (skip : Nat) (cs : List Char) : expandFrom order skip cs = expandFrom table skip cs := by
  induction cs generalizing skip with
  | nil => rw [expandFrom_nil, expandFrom_nil]
  | cons c rest ih =>
    have hfind : order.find? (startsWith (c :: rest)) = table.find? (startsWith (c :: rest)) := by
      ext hole
      rw [(h.mono hperm.subset).find?_eq_some_iff, h.find?_eq_some_iff, hperm.mem_iff]
    cases skip with
    | succ skip => exact ih skip
    | zero =>
      rw [expandFrom, expandFrom, hfind]
      split
      · rw [ih]
      · rw [ih]

/-- Replacing one more placeholder in what a pass leaves is as good as one pass for all. -/
theorem Independent.expandFrom_cons (h : Independent (hole :: table)) (hnew : hole ∉ table)
    (skip : Nat) (cs : List Char) :
    expandFrom [hole] 0 (expandFrom table skip cs) = expandFrom (hole :: table) skip cs := by
  have hname := h.names hole List.mem_cons_self
  have hvalues : ∀ other ∈ table, '\x7d' ∉ other.2.toList ∧
      ¬ other.2.toList <:+: hole.1.toList := fun other hother =>
    have hmem := List.mem_cons_of_mem hole hother
    ⟨(h.values other hmem).2, h.apart hole List.mem_cons_self other hmem
      fun heq => hnew (heq ▸ hother)⟩
  induction cs generalizing skip with
  | nil => rw [expandFrom_nil, expandFrom_nil, expandFrom_nil]
  | cons c rest ih =>
    cases skip with
    | succ skip => exact ih skip
    | zero =>
      by_cases hstarts : startsWith (c :: rest) hole = true
      · -- the new placeholder goes through the pass unchanged and is then replaced
        have hnone : table.find? (startsWith (c :: rest)) = none := by
          rw [List.find?_eq_none]
          intro other hother hstarts'
          have hfirst := h.find?_eq_some_iff.mpr ⟨List.mem_cons_of_mem hole hother, hstarts'⟩
          rw [List.find?_cons_of_pos hstarts, Option.some_inj] at hfirst
          exact hnew (hfirst ▸ hother)
        obtain ⟨rfl, after, rfl⟩ := startsWith_cons.mp hstarts
        have hrest := ih (hole.1.toList.length + 1)
        rw [expandFrom_drop (hole.1.toList.length + 1), expandFrom_drop (hole.1.toList.length + 1),
          List.drop_left' (by simp)] at hrest
        rw [expandFrom_of_none hnone, expandFrom_append (by simp [hname.1]),
          expandFrom_of_some, expandFrom_of_some (List.find?_cons_of_pos hstarts), hrest]
        exact List.find?_cons_of_pos (startsWith_cons.mpr ⟨rfl, List.prefix_append _ _⟩)
      · rw [expandFrom.eq_3 (hole :: table), List.find?_cons_of_neg hstarts, expandFrom]
        -- another placeholder is replaced, and its value has none of the new one
        split
        · rename_i name value hfind
          have hvalue := h.values _ (List.mem_cons_of_mem hole (List.mem_of_find?_eq_some hfind))
          rw [expandFrom_append hvalue.1, ih]
        · rw [expandFrom_of_none, ih]
          -- what the pass leaves could only start a placeholder that was there before
          rw [List.find?_singleton, if_neg]
          intro hleft
          obtain ⟨hopen, hafter⟩ := startsWith_cons.mp hleft
          exact hstarts (startsWith_cons.mpr
            ⟨hopen, prefix_of_expandFrom hname.2 hvalues hafter⟩)

/-- Replaced one after the other, placeholders end as in one pass. -/
theorem Independent.expandInTurn_eq (h : Independent order) (hnodup : order.Nodup)
    (template : String) : expandInTurn order template = expandOnce order template := by
  induction order using List.reverseRecOn with
  | nil => rw [expandOnce, expandFrom_empty, String.ofList_toList, expandInTurn, List.foldl_nil]
  | append_singleton order hole ih =>
    have hperm : (hole :: order).Perm (order ++ [hole]) :=
      (List.perm_append_singleton hole order).symm
    obtain ⟨hnew, hrest⟩ := List.nodup_cons.mp (hperm.nodup_iff.mpr hnodup)
    rw [expandInTurn, List.foldl_append]
    show replaceAll _ _ (expandInTurn order template) = _
    rw [ih (h.mono (List.subset_append_left _ _)) hrest, replaceAll, replaceFrom_eq_expandFrom,
      expandOnce, String.toList_ofList, (h.mono hperm.subset).expandFrom_cons hnew,
      h.expandFrom_perm hperm, expandOnce]

/-! ### The reserved resources -/

theorem independent_placeholders : Independent placeholders where
  names := by decide +kernel
  values := by decide +kernel
  distinct := by decide +kernel
  apart := by decide +kernel

/-- Putting the values in one placeholder after the other gives the text with all of them put in at
once, in whatever order they come. -/
theorem expand_eq_expandOnce (template : String) :
    expand template = expandOnce placeholders template ∧
      ∀ order : List (String × String), order.Perm placeholders →
        expandInTurn order template = expand template := by
  have honce : ∀ order : List (String × String), order.Perm placeholders →
      expandInTurn order template = expandOnce placeholders template := by
    intro order hperm
    have hindependent := independent_placeholders.mono hperm.subset
    rw [hindependent.expandInTurn_eq (hperm.nodup_iff.mpr (by decide +kernel)), expandOnce,
      independent_placeholders.expandFrom_perm hperm, expandOnce]
  exact ⟨honce _ (.refl _), fun order hperm => (honce order hperm).trans (honce _ (.refl _)).symm⟩

/-- What is put in is not searched again, whatever comes first. -/
theorem expand_nested_placeholder :
    expandInTurn placeholders.reverse "\x7bR_\x7bR_ZLIST\x7d\x7d" =
        expand "\x7bR_\x7bR_ZLIST\x7d\x7d" ∧
      expand "\x7bR_\x7bR_ZLIST\x7d\x7d" = "\x7bR_ZLIST\x7d" :=
  ⟨(expand_eq_expandOnce _).2 _ (List.reverse_perm _), by decide +kernel⟩

end Keystroke.Reserved
