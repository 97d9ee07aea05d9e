import Mathlib.Data.List.Forall2
import Mathlib.Data.Nat.Find
import Keystroke.Proofs.Emission

/-!
# Where a jump goes

The calculator finds the target of a jump by searching forward from it, around the end of the
program if need be, and takes the first label with the right number.
-/

namespace Keystroke

def InstrAt (code : List Instr) (line : Nat) (instr : Instr) : Prop :=
  code[line]? = some instr

instance (code : List Instr) (line : Nat) (instr : Instr) : Decidable (InstrAt code line instr) :=
  inferInstanceAs (Decidable (code[line]? = some instr))

abbrev LabelAt (code : List Instr) (line n : Nat) : Prop :=
  InstrAt code line (.lbl (.number n))

/-- A line is a jump to the label of a number. -/
abbrev JumpAt (code : List Instr) (line n : Nat) : Prop :=
  InstrAt code line (.gto n)

/-- The first line that is the label of a number. -/
def firstLabel? (code : List Instr) (n : Nat) : Option Nat :=
  code.findIdx? fun instr => instr = .lbl (.number n)

/-- The line at which a program goes on after a jump to label `n` at `line`. -/
def jumpTarget? (code : List Instr) (line n : Nat) : Option Nat :=
  match firstLabel? (code.drop (line + 1)) n with
  | some distance => some (line + 1 + distance)
  | none => firstLabel? (code.take (line + 1)) n

variable {code rest : List Instr} {instr other : Instr} {line place n count : Nat}

theorem InstrAt.lt (h : InstrAt code line instr) : line < code.length :=
  (List.getElem?_eq_some_iff.mp h).1

theorem InstrAt.unique (h : InstrAt code line instr) (h' : InstrAt code line other) :
    instr = other :=
  Option.some.inj (h.symm.trans h')

theorem instrAt_zero : InstrAt (other :: code) 0 instr ↔ other = instr := by
  simp [InstrAt]

theorem instrAt_succ : InstrAt (other :: code) (line + 1) instr ↔ InstrAt code line instr := by
  simp [InstrAt]

theorem exists_instrAt : (∃ line, InstrAt code line instr) ↔ instr ∈ code :=
  List.mem_iff_getElem?.symm

theorem instrAt_map {f : Instr → Instr} :
    InstrAt (code.map f) line instr ↔ ∃ source, InstrAt code line source ∧ f source = instr := by
  rw [InstrAt, List.getElem?_map, Option.map_eq_some_iff]
  rfl

theorem existsUnique_instrAt : (∃! line, InstrAt code line instr) ↔ code.count instr = 1 := by
  induction code with
  | nil => simp [InstrAt, ExistsUnique]
  | cons first code ih =>
    rw [List.count_cons]
    by_cases hfirst : first = instr
    · subst hfirst
      rw [if_pos (beq_self_eq_true first), Nat.add_eq_right, List.count_eq_zero, ← exists_instrAt]
      constructor
      · rintro ⟨line, -, hunique⟩ ⟨line', hline'⟩
        have h₀ := hunique 0 (instrAt_zero.mpr rfl)
        have h₁ := hunique (line' + 1) (instrAt_succ.mpr hline')
        omega
      · intro hnone
        refine ⟨0, instrAt_zero.mpr rfl, fun line hline => ?_⟩
        cases line with
        | zero => rfl
        | succ line => exact absurd ⟨line, instrAt_succ.mp hline⟩ hnone
    · rw [if_neg (by simpa using hfirst), Nat.add_zero, ← ih]
      constructor
      · rintro ⟨line, hline, hunique⟩
        cases line with
        | zero => exact absurd (instrAt_zero.mp hline) hfirst
        | succ line =>
          refine ⟨line, instrAt_succ.mp hline, fun line' hline' => ?_⟩
          exact Nat.succ_injective (hunique (line' + 1) (instrAt_succ.mpr hline'))
      · rintro ⟨line, hline, hunique⟩
        refine ⟨line + 1, instrAt_succ.mpr hline, fun line' hline' => ?_⟩
        cases line' with
        | zero => exact absurd (instrAt_zero.mp hline') hfirst
        | succ line' => exact congrArg (· + 1) (hunique line' (instrAt_succ.mp hline'))

theorem firstLabel?_eq_some_iff :
    firstLabel? code n = some line ↔ LabelAt code line n ∧ ∀ k < line, ¬ LabelAt code k n := by
  unfold firstLabel?
  rw [List.findIdx?_eq_some_iff_getElem]
  constructor
  · rintro ⟨hlt, hat, hbefore⟩
    refine ⟨List.getElem?_eq_some_iff.mpr ⟨hlt, by simpa using hat⟩, fun k hk hlabel => ?_⟩
    obtain ⟨hk', hlabel⟩ := List.getElem?_eq_some_iff.mp hlabel
    exact absurd hlabel (by simpa using hbefore k hk)
  · rintro ⟨hat, hbefore⟩
    obtain ⟨hlt, hat⟩ := List.getElem?_eq_some_iff.mp hat
    refine ⟨hlt, by simpa using hat, fun k hk => ?_⟩
    have hno := hbefore k hk
    rw [LabelAt, InstrAt, List.getElem?_eq_getElem (Nat.lt_trans hk hlt)] at hno
    simpa using hno

theorem firstLabel?_eq_none_iff : firstLabel? code n = none ↔ ∀ k, ¬ LabelAt code k n := by
  unfold firstLabel?
  rw [List.findIdx?_eq_none_iff]
  constructor
  · intro h k hlabel
    simpa using h _ (List.mem_of_getElem? hlabel)
  · intro h instr hinstr
    obtain ⟨k, hk⟩ := List.mem_iff_getElem?.mp hinstr
    refine decide_eq_false fun hlabel => h k ?_
    rw [LabelAt, InstrAt, hk, hlabel]

theorem labelAt_drop :
    LabelAt (code.drop count) line n ↔ LabelAt code (count + line) n := by
  rw [LabelAt, InstrAt, List.getElem?_drop, LabelAt, InstrAt]

theorem labelAt_take :
    LabelAt (code.take count) line n ↔ line < count ∧ LabelAt code line n := by
  unfold LabelAt InstrAt
  rw [List.getElem?_take]
  split
  · rename_i hlt
    exact ⟨fun h => ⟨hlt, h⟩, And.right⟩
  · rename_i hge
    constructor
    · intro h
      cases h
    · rintro ⟨hlt, -⟩
      exact absurd hlt hge

theorem jumpTarget?_of_first (hafter : line < place) (hlabel : LabelAt code place n)
    (hfirst : ∀ k, line < k → k < place → ¬ LabelAt code k n) :
    jumpTarget? code line n = some place := by
  obtain ⟨distance, rfl⟩ := Nat.exists_eq_add_of_le (Nat.succ_le_of_lt hafter)
  have hfound : firstLabel? (code.drop (line + 1)) n = some distance := by
    rw [firstLabel?_eq_some_iff]
    refine ⟨labelAt_drop.mpr hlabel, fun k hk hk' => ?_⟩
    exact hfirst (line + 1 + k) (by omega) (by omega) (labelAt_drop.mp hk')
  simp only [jumpTarget?, hfound]

theorem exists_jumpTarget?_of_later (hafter : line < place) (hlabel : LabelAt code place n) :
    ∃ first, line < first ∧ first ≤ place ∧ LabelAt code first n ∧
      jumpTarget? code line n = some first := by
  have hfound : ∃ k, line < k ∧ LabelAt code k n := ⟨place, hafter, hlabel⟩
  classical
  refine ⟨Nat.find hfound, (Nat.find_spec hfound).1, Nat.find_min' hfound ⟨hafter, hlabel⟩,
    (Nat.find_spec hfound).2, jumpTarget?_of_first (Nat.find_spec hfound).1
      (Nat.find_spec hfound).2 fun k hk hlt hlabel => ?_⟩
  exact Nat.find_min hfound hlt ⟨hk, hlabel⟩

theorem jumpTarget?_of_unique (hlabel : LabelAt code place n)
    (hunique : ∀ k, LabelAt code k n → k = place) : jumpTarget? code line n = some place := by
  rcases Nat.lt_or_ge line place with hafter | hbefore
  · refine jumpTarget?_of_first hafter hlabel fun k _ hk hk' => ?_
    exact absurd (hunique k hk') (Nat.ne_of_lt hk)
  · have hnone : firstLabel? (code.drop (line + 1)) n = none := by
      rw [firstLabel?_eq_none_iff]
      intro k hk
      have := hunique _ (labelAt_drop.mp hk)
      omega
    have hfound : firstLabel? (code.take (line + 1)) n = some place := by
      rw [firstLabel?_eq_some_iff]
      refine ⟨labelAt_take.mpr ⟨by omega, hlabel⟩, fun k hk hk' => ?_⟩
      exact absurd (hunique k (labelAt_take.mp hk').2) (Nat.ne_of_lt hk)
    simp only [jumpTarget?, hnone, hfound]

/-! ### Longer programs -/

theorem InstrAt.append (h : InstrAt code line instr) (rest : List Instr) :
    InstrAt (code ++ rest) line instr := by
  rw [InstrAt, List.getElem?_append_left h.lt]
  exact h

/-- A line of a program in two parts stands in the first part or in the second. -/
theorem instrAt_append : InstrAt (code ++ rest) line instr ↔
    InstrAt code line instr ∨ code.length ≤ line ∧ InstrAt rest (line - code.length) instr := by
  rcases Nat.lt_or_ge line code.length with h | h
  · rw [InstrAt, List.getElem?_append_left h]
    exact ⟨Or.inl, fun h' => h'.resolve_right fun h'' => absurd h''.1 (Nat.not_le_of_lt h)⟩
  · rw [InstrAt, List.getElem?_append_right h]
    refine ⟨fun h' => Or.inr ⟨h, h'⟩, fun h' => ?_⟩
    rcases h' with h' | ⟨-, h'⟩
    · exact absurd h'.lt (Nat.not_lt_of_le h)
    · exact h'

theorem instrAt_append_singleton : InstrAt (code ++ [other]) line instr ↔
    InstrAt code line instr ∨ line = code.length ∧ other = instr := by
  rw [instrAt_append]
  refine or_congr_right ⟨fun ⟨hle, h⟩ => ?_, fun ⟨hline, h⟩ => ?_⟩
  · have hlt : line - code.length < 1 := h.lt
    obtain rfl : line = code.length := by omega
    rw [Nat.sub_self] at h
    exact ⟨rfl, Option.some.inj h⟩
  · subst hline h
    exact ⟨Nat.le_refl _, by simp [InstrAt]⟩

end Keystroke
