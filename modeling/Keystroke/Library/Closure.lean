import Keystroke.Library.Routine

/-!
# Closure over prerequisites

A program that calls some routines needs these routines, the routines that they call, and so on.
The search keeps the routines that are included and those that are still to be visited.
-/

namespace Keystroke.Routine

theorem mem_all (routine : Routine) : routine ∈ all := by
  cases routine <;> decide

/-- A visit leaves fewer routines that are not included. -/
theorem length_excluded_lt {included : List Routine} {routine : Routine} (h : routine ∉ included) :
    (all.filter (· ∉ routine :: included)).length < (all.filter (· ∉ included)).length := by
  have hsplit : all.filter (· ∉ routine :: included) =
      (all.filter (· ∉ included)).filter (· ≠ routine) := by
    rw [List.filter_filter]
    congr 1
    funext other
    simp
  rw [hsplit, List.length_filter_lt_length_iff_exists]
  exact ⟨routine, List.mem_filter.mpr ⟨mem_all routine, by simpa using h⟩, by simp⟩

theorem length_prerequisites_le (routine : Routine) : routine.prerequisites.length ≤ 5 := by
  cases routine <;> decide

/-- Visits the pending routines, the last added one first, until none is left. A routine that is
not yet included is, and its prerequisites become pending. -/
def visit (included : List Routine) : List Routine → List Routine
  | [] => included
  | routine :: pending =>
    if routine ∈ included then visit included pending
    else visit (routine :: included) (routine.prerequisites.reverse ++ pending)
-- A routine becomes included once only, and then adds at most five pending ones.
termination_by pending => 6 * (all.filter (· ∉ included)).length + pending.length
decreasing_by
  · exact Nat.lt_succ_self _
  · have hexcluded := length_excluded_lt ‹routine ∉ included›
    have hadded := length_prerequisites_le routine
    simp only [List.length_append, List.length_reverse, List.length_cons]
    omega

/-- The routines reachable from `routines` through prerequisites, in catalogue order. -/
def closure (routines : List Routine) : List Routine :=
  all.filter (· ∈ visit [] routines.reverse)

/-- The closure of the routines with the given names. Unknown names are ignored. -/
def closureOfNames (names : List String) : List Routine :=
  closure (names.filterMap ofName?)

end Keystroke.Routine
