import Keystroke.Proofs.ScalarScopes

/-!
# Numbered registers are fresh

Whatever is done to scopes, a numbered register is handed out once. The operations on scopes are
given as data here, so that a run is a list of them, and what happened in it is a list of events.
-/

namespace Keystroke.Scopes

/-! ### Operations -/

/-- An operation that may change scopes. -/
inductive Operation where
  | push
  | pop
  | bind (name : String) (info : VarInfo)
  | bindAlias (name target : String)
  | anonymous
  | restamp (name : String) (info : VarInfo)
  | dropAlias (name : String)
deriving DecidableEq

/-- What an operation gives back when it succeeds. -/
inductive Answer where
  | done
  | register (register : Register)
  | dropped (wasAlias : Bool)
deriving DecidableEq

/-- The answer of an operation and the scopes after it, unless it fails. -/
def Operation.apply (scopes : Scopes) : Operation → Except ScopeError (Answer × Scopes)
  | push => return (.done, scopes.push)
  | pop => return (.done, scopes.pop)
  | bind name info => do
    let (register, scopes) ← scopes.bind name info
    return (.register register, scopes)
  | bindAlias name target => do
    let scopes ← scopes.bindAlias name target
    return (.done, scopes)
  | anonymous => do
    let (register, scopes) ← scopes.allocate
    return (.register register, scopes)
  | restamp name info => return (.done, scopes.restamp name info)
  | dropAlias name =>
    let (wasAlias, scopes) := scopes.dropAlias name
    return (.dropped wasAlias, scopes)

/-- Performs an operation. One that fails gives no scopes, and the scopes as they were are gone on
with. -/
def Operation.perform (scopes : Scopes) (operation : Operation) :
    Except ScopeError Answer × Scopes :=
  match operation.apply scopes with
  | .ok (answer, scopes) => (.ok answer, scopes)
  | .error error => (.error error, scopes)

/-- An operation that has been performed, with its answer. -/
structure Event where
  operation : Operation
  answer : Except ScopeError Answer
deriving DecidableEq

/-- Performs operations one after the other. -/
def run (scopes : Scopes) : List Operation → List Event × Scopes
  | [] => ([], scopes)
  | operation :: rest =>
    let (answer, scopes) := operation.perform scopes
    let (events, scopes) := run scopes rest
    (⟨operation, answer⟩ :: events, scopes)

namespace Event

/-- The number of the register that an operation has handed out. -/
def number? (event : Event) : Option Nat :=
  match event.answer with
  | .ok (.register register) => register.number?
  | _ => none

/-- The number of a register that has been handed out without a name. -/
def hidden? (event : Event) : Option Nat :=
  if event.operation = .anonymous then event.number? else none

/-- Whether an operation has not failed. -/
def succeeds (event : Event) : Bool :=
  event.answer.isOk

end Event

/-- The cause for which an operation fails. -/
def Operation.fault? (scopes : Scopes) : Operation → Option ScopeError
  | bind name info =>
    if (namedRegister? name info).isNone && scopes.next == scopes.limit then
      some (.registersExhausted scopes.limit)
    else none
  | anonymous =>
    if scopes.next == scopes.limit then some (.registersExhausted scopes.limit) else none
  | bindAlias _ target => if (scopes.container? target).isNone then some (.unbound target) else none
  | push | pop | restamp _ _ | dropAlias _ => none

/-! ### One operation -/

/-- What an operation that succeeds does to the numbered registers. -/
inductive Hands (scopes scopes' : Scopes) : Operation → Answer → Prop where
  | nothing {operation : Operation} {answer : Answer}
      (hnumber : (Event.mk operation (.ok answer)).number? = none) (hkeeps : scopes.Keeps scopes') :
      Hands scopes scopes' operation answer
  | toVariable {name : String} {info : VarInfo} (htakes : scopes.Takes scopes') :
      Hands scopes scopes' (.bind name info) (.register (.numbered scopes.next))
  | withoutName (htakes : scopes.Takes scopes') (hnumbers : scopes'.numbers = scopes.numbers) :
      Hands scopes scopes' .anonymous (.register (.numbered scopes.next))

section

variable {scopes scopes' : Scopes} {operation : Operation} {answer : Answer} {error : ScopeError}

/-- An operation hands out no numbered register, or the next one. -/
theorem Operation.hands (h : operation.apply scopes = .ok (answer, scopes')) :
    Hands scopes scopes' operation answer := by
  cases operation with
  | push =>
    cases h
    exact .nothing rfl keeps_push
  | pop =>
    cases h
    exact .nothing rfl keeps_pop
  | bind name info =>
    obtain ⟨⟨register, scopes₁⟩, hbind, h⟩ := bind_eq_ok.mp h
    cases h
    rcases bind_cases hbind with ⟨⟨other, rfl⟩, hkeeps⟩ | ⟨-, rfl, htakes⟩
    · exact .nothing rfl hkeeps
    · exact .toVariable htakes
  | bindAlias name target =>
    obtain ⟨scopes₁, hbind, h⟩ := bind_eq_ok.mp h
    cases h
    exact .nothing rfl (keeps_bindAlias hbind)
  | anonymous =>
    obtain ⟨⟨register, scopes₁⟩, hallocate, h⟩ := bind_eq_ok.mp h
    cases h
    obtain ⟨hlt, rfl, rfl⟩ := allocate_eq_ok.mp hallocate
    exact .withoutName (takes_allocate hlt) rfl
  | restamp name info =>
    cases h
    exact .nothing rfl (keeps_modifyHome fun _ => List.Sublist.refl _)
  | dropAlias name =>
    cases h
    exact .nothing rfl keeps_dropAlias

theorem allocate_eq_error (hnext : scopes.next ≤ scopes.limit) :
    scopes.allocate = .error error ↔
      scopes.next = scopes.limit ∧ .registersExhausted scopes.limit = error := by
  unfold allocate
  split
  · rename_i hlt
    simp [Nat.ne_of_lt hlt]
  · rename_i hle
    simp [Nat.le_antisymm hnext (Nat.le_of_not_lt hle)]

/-- An operation fails for the cause that the scopes give, if they give one. -/
theorem Operation.apply_eq_error (hnext : scopes.next ≤ scopes.limit) :
    operation.apply scopes = .error error ↔ operation.fault? scopes = some error := by
  have hallocate : scopes.allocate = .error error ↔ scopes.next = scopes.limit ∧
      .registersExhausted scopes.limit = error := allocate_eq_error hnext
  cases operation with
  | push | pop | restamp | dropAlias => simp [apply, fault?, pure, Except.pure]
  | bind name info =>
    simp only [apply, fault?, Scopes.bind, bind_eq_error]
    cases namedRegister? name info with
    | some register => simp [pure, Except.pure]
    | none => simp [bind_eq_error, hallocate, pure, Except.pure]
  | bindAlias name target =>
    simp only [apply, fault?, Scopes.bindAlias, bind_eq_error]
    cases scopes.container? target <;> simp [pure, Except.pure]
  | anonymous => simp [apply, fault?, bind_eq_error, hallocate, pure, Except.pure]

theorem Operation.perform_eq_error :
    (operation.perform scopes).1 = .error error ↔ operation.apply scopes = .error error := by
  unfold perform
  cases operation.apply scopes with
  | ok result => simp
  | error e => simp

theorem Operation.perform_of_error (h : (operation.perform scopes).1 = .error error) :
    (operation.perform scopes).2 = scopes := by
  have happly := perform_eq_error.mp h
  unfold perform
  rw [happly]

theorem Operation.apply_of_perform (h : operation.perform scopes = (.ok answer, scopes')) :
    operation.apply scopes = .ok (answer, scopes') := by
  unfold perform at h
  cases happly : operation.apply scopes with
  | ok result =>
    rw [happly] at h
    cases h
    rfl
  | error e =>
    rw [happly] at h
    cases h

/-- A variable that is given a numbered register holds it in the innermost scope. -/
theorem Operation.holds_of_perform {name : String} {info : VarInfo} {n : Nat}
    (h : (Operation.bind name info).perform scopes =
      (.ok (.register (.numbered n)), scopes')) : scopes'.Holds 0 name n := by
  obtain ⟨⟨register, scopes₁⟩, hbind, hresult⟩ := bind_eq_ok.mp (apply_of_perform h)
  cases hresult
  rcases bind_inv hbind with ⟨hnamed, -⟩ | ⟨-, -, -, rfl⟩
  · obtain ⟨other, hother⟩ := namedRegister?_isNamed hnamed
    cases hother
  · exact ⟨_, rfl, NameMap.get?_insert_self⟩

end

/-! ### Runs -/

/-- What the events of a run say about the scopes that it leaves. -/
structure History (limit : Nat) (events : List Event) (scopes : Scopes) : Prop where
  limit_eq : scopes.limit = limit
  issued : events.filterMap Event.number? = List.range scopes.next
  bounded : scopes.next ≤ limit
  distinct : scopes.Distinct
  hidden : ∀ n ∈ events.filterMap Event.hidden?, n ∉ scopes.numbers

namespace History

variable {limit : Nat} {events : List Event} {scopes : Scopes}

theorem ofLimit (limit : Nat) : History limit [] (ofLimit limit) where
  limit_eq := rfl
  issued := rfl
  bounded := Nat.zero_le limit
  distinct := distinct_ofLimit limit
  hidden := nofun

section

variable (h : History limit events scopes) {event : Event} {scopes' : Scopes}

include h

theorem hidden_lt {n : Nat} (hn : n ∈ events.filterMap Event.hidden?) : n < scopes.next := by
  obtain ⟨event, hevent, hhidden⟩ := List.mem_filterMap.mp hn
  have hnumber : event.number? = some n := by
    unfold Event.hidden? at hhidden
    split at hhidden
    · exact hhidden
    · cases hhidden
  rw [← List.mem_range, ← h.issued]
  exact List.mem_filterMap.mpr ⟨event, hevent, hnumber⟩

/-- An operation that hands out no numbered register. -/
theorem keeps (hnumber : event.number? = none) (hkeeps : scopes.Keeps scopes') :
    History limit (events ++ [event]) scopes' where
  limit_eq := hkeeps.limit.trans h.limit_eq
  issued := by
    rw [List.filterMap_append, h.issued, hkeeps.next]
    simp [hnumber]
  bounded := hkeeps.next ▸ h.bounded
  distinct := h.distinct.of_keeps hkeeps
  hidden n hn hmem := by
    rw [List.filterMap_append, List.mem_append] at hn
    rcases hn with hn | hn
    · exact h.hidden n hn (hkeeps.numbers.subset hmem)
    · simp [Event.hidden?, hnumber] at hn

/-- An operation that hands out the next numbered register. -/
theorem takes (hnumber : event.number? = some scopes.next) (htakes : scopes.Takes scopes')
    (hhidden : event.operation = .anonymous → scopes'.numbers = scopes.numbers) :
    History limit (events ++ [event]) scopes' where
  limit_eq := htakes.limit.trans h.limit_eq
  issued := by
    rw [List.filterMap_append, h.issued, htakes.next, List.range_succ]
    simp [hnumber]
  bounded := by
    rw [htakes.next, ← h.limit_eq]
    exact htakes.lt
  distinct := h.distinct.of_takes htakes
  hidden n hn hmem := by
    rw [List.filterMap_append, List.mem_append] at hn
    rcases hn with hn | hn
    · rcases List.mem_cons.mp (htakes.numbers.subset hmem) with rfl | hmem
      · exact Nat.lt_irrefl _ (h.hidden_lt hn)
      · exact h.hidden n hn hmem
    · obtain ⟨hanonymous, rfl⟩ : event.operation = .anonymous ∧ scopes.next = n := by
        simpa [Event.hidden?, hnumber] using hn
      rw [hhidden hanonymous] at hmem
      exact Nat.lt_irrefl _ (h.distinct.below _ hmem)

theorem perform (operation : Operation) :
    History limit (events ++ [⟨operation, (operation.perform scopes).1⟩])
      (operation.perform scopes).2 := by
  unfold Operation.perform
  cases happly : operation.apply scopes with
  | error error => exact h.keeps rfl (.refl scopes)
  | ok result =>
    obtain ⟨answer, scopes'⟩ := result
    cases operation.hands happly with
    | nothing hnumber hkeeps => exact h.keeps hnumber hkeeps
    | toVariable htakes => exact h.takes rfl htakes nofun
    | withoutName htakes hnumbers => exact h.takes rfl htakes fun _ => hnumbers

theorem run (operations : List Operation) :
    History limit (events ++ (scopes.run operations).1) (scopes.run operations).2 := by
  induction operations generalizing events scopes with
  | nil => simpa [Scopes.run] using h
  | cons operation rest ih =>
    have hrest := ih (h.perform operation)
    rwa [List.append_assoc] at hrest

end

end History

/-! ### Operations that fail -/

/-- A run goes as if the operations that fail had not been tried. -/
theorem run_succeeds (scopes : Scopes) (operations : List Operation) :
    scopes.run (((scopes.run operations).1.filter Event.succeeds).map Event.operation) =
      ((scopes.run operations).1.filter Event.succeeds, (scopes.run operations).2) := by
  induction operations generalizing scopes with
  | nil => rfl
  | cons operation rest ih =>
    rw [run]
    cases happly : operation.apply scopes with
    | error error =>
      rw [Operation.perform, happly]
      exact ih scopes
    | ok result =>
      have hperform : operation.perform scopes = (.ok result.1, result.2) := by
        rw [Operation.perform, happly]
      rw [hperform, List.filter_cons_of_pos rfl, List.map_cons, run, hperform]
      dsimp only
      rw [ih result.2]

/-- The numbered registers that a run hands out are 0, 1, 2, … in order, below the limit. A variable
that is given one holds it, no two variables hold the same one, and none holds one that was handed
out without a name. An operation fails exactly for the cause that the scopes give. As a run then
goes on with the scopes as they were, it goes as if the operations that fail had not been tried. -/
theorem numbered_registers_fresh (limit : Nat) (operations : List Operation) :
    ∃ events scopes, (ofLimit limit).run operations = (events, scopes) ∧
      events.filterMap Event.number? = List.range scopes.next ∧ scopes.next ≤ limit ∧
      (∀ name info n scopes', (Operation.bind name info).perform scopes =
        (.ok (.register (.numbered n)), scopes') → scopes'.Holds 0 name n) ∧
      (∀ n depth depth' name name', scopes.Holds depth name n → scopes.Holds depth' name' n →
        depth = depth' ∧ name = name') ∧
      (∀ n ∈ events.filterMap Event.hidden?, ∀ depth name, ¬ scopes.Holds depth name n) ∧
      (∀ (operation : Operation) (error : ScopeError), operation.fault? scopes = some error ↔
        (operation.perform scopes).1 = .error error) ∧
      (∀ (operation : Operation) (error : ScopeError), (operation.perform scopes).1 = .error error →
        (operation.perform scopes).2 = scopes) ∧
      (ofLimit limit).run ((events.filter Event.succeeds).map Event.operation) =
        (events.filter Event.succeeds, scopes) := by
  have h : History limit _ _ := (History.ofLimit limit).run operations
  have hnext := le_of_le_of_eq h.bounded h.limit_eq.symm
  exact ⟨_, _, rfl, h.issued, h.bounded, fun name info n scopes' => Operation.holds_of_perform,
    fun n depth depth' name name' => h.distinct.holds_inj,
    fun n hn depth name hholds => h.hidden n hn hholds.mem_numbers,
    fun operation error => (Operation.perform_eq_error.trans (Operation.apply_eq_error hnext)).symm,
    fun operation error => Operation.perform_of_error, run_succeeds _ operations⟩

end Keystroke.Scopes
