import Keystroke.Proofs.SupportLibrary

/-!
# The routines that a set of names stands for

A program gets the routines that it calls, those that these call, and so on. Names come in any order
and may be unknown or repeated, but the routines that they stand for are a set with a fixed order.
-/

namespace Keystroke.Routine

variable {routines : List Routine} {names : List String} {routine : Routine}

/-- A routine has another one as its prerequisite. -/
def Requires (routine other : Routine) : Prop :=
  other ∈ routine.prerequisites

/-- A set of routines has all prerequisites of its members. -/
def IsClosed (included : Routine → Prop) : Prop :=
  ∀ routine other, included routine → Requires routine other → included other

/-- Some names have a routine among those that they stand for. -/
def IsNamedIn (names : List String) (routine : Routine) : Prop :=
  ∃ name ∈ names, ofName? name = some routine

theorem IsClosed.of_reachable {included : Routine → Prop} (h : IsClosed included) {first : Routine}
    (hfirst : included first) (hreach : Relation.ReflTransGen Requires first routine) :
    included routine := by
  induction hreach with
  | refl => exact hfirst
  | tail _ hrequires ih => exact h _ _ ih hrequires

theorem calls_eq_requires : Calls = Requires := by
  funext caller callee
  exact propext calls_iff

theorem mem_closureOfNames : routine ∈ closureOfNames names ↔
    ∃ first, IsNamedIn names first ∧ Relation.ReflTransGen Requires first routine := by
  rw [closureOfNames, mem_closure_iff, calls_eq_requires]
  simp only [List.mem_filterMap, IsNamedIn]

theorem isClosed_closureOfNames : IsClosed (· ∈ closureOfNames names) := by
  intro routine other hroutine hrequires
  obtain ⟨first, hfirst, hreach⟩ := mem_closureOfNames.mp hroutine
  exact mem_closureOfNames.mpr ⟨first, hfirst, hreach.tail hrequires⟩

theorem isNamedIn_map_name : IsNamedIn (routines.map name) routine ↔ routine ∈ routines := by
  constructor
  · rintro ⟨text, htext, hfound⟩
    obtain ⟨other, hother, rfl⟩ := List.mem_map.mp htext
    rw [ofName?_name] at hfound
    exact Option.some.inj hfound ▸ hother
  · exact fun h => ⟨routine.name, List.mem_map_of_mem h, ofName?_name routine⟩

theorem isNamedIn_append {more : List String} :
    IsNamedIn (names ++ more) routine ↔ IsNamedIn names routine ∨ IsNamedIn more routine := by
  simp only [IsNamedIn, List.mem_append, or_and_right, exists_or]

/-- The closure of names has, in the order of the catalogue and each once, the routines that can be
reached through prerequisites from the routines with these names. It is the least closed set with
these, so that only the set of routines with these names counts, a closure is its own closure, more
names have a larger closure, and the closure of names together is that of each part together. -/
theorem least_closed_of_names (names : List String) :
    (closureOfNames names).Sublist all ∧ (closureOfNames names).Nodup ∧
    (∀ routine, routine ∈ closureOfNames names ↔
      ∃ first, IsNamedIn names first ∧ Relation.ReflTransGen Requires first routine) ∧
    IsClosed (· ∈ closureOfNames names) ∧
    (∀ included, IsClosed included → (∀ routine, IsNamedIn names routine → included routine) →
      ∀ routine ∈ closureOfNames names, included routine) ∧
    (∀ others, (∀ routine, IsNamedIn others routine ↔ IsNamedIn names routine) →
      closureOfNames others = closureOfNames names) ∧
    closureOfNames ((closureOfNames names).map name) = closureOfNames names ∧
    (∀ others, (∀ routine, IsNamedIn names routine → IsNamedIn others routine) →
      closureOfNames names ⊆ closureOfNames others) ∧
    ∀ others, closureOfNames (names ++ others) =
      all.filter fun routine => routine ∈ closureOfNames names ∨
        routine ∈ closureOfNames others := by
  -- a closure is known by its members
  have hfilter : ∀ {names : List String} {p : Routine → Bool},
      (∀ routine, routine ∈ closureOfNames names ↔ p routine) →
      closureOfNames names = all.filter p :=
    fun h => List.filter_congr fun routine _ =>
      Bool.eq_iff_iff.mpr (decide_eq_true_iff.trans (mem_closure.symm.trans (h routine)))
  have hself : closureOfNames names = all.filter (· ∈ closureOfNames names) :=
    hfilter fun routine => decide_eq_true_iff.symm
  have hleast : ∀ included, IsClosed included →
      (∀ routine, IsNamedIn names routine → included routine) →
      ∀ routine ∈ closureOfNames names, included routine := by
    intro included hclosed hnamed routine hroutine
    obtain ⟨first, hfirst, hreach⟩ := mem_closureOfNames.mp hroutine
    exact hclosed.of_reachable (hnamed first hfirst) hreach
  refine ⟨hself ▸ List.filter_sublist, nodup_closure _, fun _ => mem_closureOfNames,
    isClosed_closureOfNames, hleast, fun others h => ?_, ?_, fun others h => ?_, fun others => ?_⟩
  · rw [hself]
    exact hfilter fun routine => by simp only [mem_closureOfNames, h, decide_eq_true_eq]
  · rw [hself]
    refine hfilter fun routine => ?_
    rw [mem_closureOfNames, decide_eq_true_eq, ← hself]
    constructor
    · rintro ⟨first, hfirst, hreach⟩
      exact isClosed_closureOfNames.of_reachable (isNamedIn_map_name.mp hfirst) hreach
    · exact fun hroutine => ⟨routine, isNamedIn_map_name.mpr hroutine, .refl⟩
  · exact hleast _ isClosed_closureOfNames fun routine hroutine =>
      mem_closureOfNames.mpr ⟨routine, h routine hroutine, .refl⟩
  · refine hfilter fun routine => ?_
    simp only [mem_closureOfNames, isNamedIn_append, or_and_right, exists_or, decide_eq_true_eq]

end Keystroke.Routine
