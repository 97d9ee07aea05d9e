import Keystroke.Proofs.ExpressionLevels

/-!
# Room for operands

The code of a scalar expression keeps operands on the stack for as long as others are computed. It
knows no bound for them, but the stack has four levels only. So the value is left in X when the
operands have room, and the levels for which there is no room besides are lost.
-/

namespace Keystroke

open Python (BinaryOp BoolOp CompareOp)
open Script (Expr)

/-! ### Room for operands -/

namespace Levels

variable {V : Type} {levels : Levels V} {a b : V} {rest : List V}

/-- Values are on the stack, from X on. -/
def Holds (levels : Levels V) (values : List V) : Prop :=
  values <+: levels.toList

theorem Holds.x_eq (h : levels.Holds (a :: rest)) : levels.x = a :=
  (List.cons_prefix_cons.mp h).1.symm

theorem Holds.y_eq (h : levels.Holds (b :: a :: rest)) : levels.y = a :=
  (List.cons_prefix_cons.mp (List.cons_prefix_cons.mp h).2).1.symm

/-- The values that are pushed up stay while there is room for them. -/
theorem Holds.push (h : levels.Holds rest) (hroom : rest.length < 4) (v : V) :
    (levels.push v).Holds (v :: rest) := by
  have hkept : [levels.x, levels.y, levels.z] <+: levels.toList := ⟨[levels.t], rfl⟩
  exact List.cons_prefix_cons.mpr
    ⟨rfl, List.prefix_of_prefix_length_le h hkept (Nat.le_of_lt_succ hroom)⟩

theorem Holds.replace (h : levels.Holds (a :: rest)) (v : V) :
    (levels.replace v).Holds (v :: rest) :=
  List.cons_prefix_cons.mpr ⟨rfl, (List.cons_prefix_cons.mp h).2⟩

/-- What comes down below a result are the values above Y and X. -/
theorem Holds.below (h : levels.Holds (b :: a :: rest)) (v w : V) :
    v :: rest <+: [v, levels.z, levels.t, w] := by
  have hrest : rest <+: [levels.z, levels.t] :=
    (List.cons_prefix_cons.mp (List.cons_prefix_cons.mp h).2).2
  exact List.cons_prefix_cons.mpr ⟨rfl, hrest.trans ⟨[w], rfl⟩⟩

end Levels

section Room

variable {V : Type} {A : Arithmetic V} {levels : Levels V} {rest : List V} {v w : V} {b : Bool}

theorem Python.BinaryOp.exists_onLevels {op : BinaryOp} {a b : V} (h : op.compute A a b = some v)
    (hlevels : levels.Holds (b :: a :: rest)) :
    ∃ levels', op.onLevels A levels = some levels' ∧ levels'.Holds (v :: rest) := by
  refine ⟨levels.combine v, ?_, hlevels.below v levels.t⟩
  rw [onLevels, hlevels.x_eq, hlevels.y_eq, h]
  rfl

theorem Python.BoolOp.exists_onLevels (op : BoolOp) {c : Bool} (hv : A.truth v = some b)
    (hw : A.truth w = some c) (hlevels : levels.Holds (w :: v :: rest)) :
    ∃ levels', op.onLevels A levels = some levels' ∧
      levels'.Holds (A.bit (op.combine [b, c]) :: rest) := by
  refine ⟨levels.combine (A.bit (op.combine [b, c])), ?_, hlevels.below _ levels.t⟩
  rw [onLevels, hlevels.x_eq, hlevels.y_eq, hv, hw]
  rfl

theorem Python.CompareOp.exists_onLevels {operator : CompareOp}
    (h : A.compare operator v w = some b) (hlevels : levels.Holds (w :: v :: rest)) :
    ∃ levels', operator.onLevels A levels = some levels' ∧ levels'.Holds (A.bit b :: rest) := by
  refine ⟨levels.rollDown.rollDown.push (A.bit b), ?_, hlevels.below _ levels.x⟩
  rw [onLevels, hlevels.x_eq, hlevels.y_eq, h]
  rfl

end Room

namespace Script

mutual

/-- How many levels the code of a scalar expression takes: the right operand is computed while the
left one waits. -/
def Expr.need : Expr → Nat
  | .binary _ left _ right => max left.need (right.need + 1)
  | .boolean _ _ first others => max first.need (needAll others + 1)
  | .not _ operand | .negate _ operand | .invert _ operand => operand.need
  | .compare _ left comparisons => chainNeed 0 left.need comparisons
  | _ => 1

/-- How many levels the code of each of some expressions takes at most. -/
def Expr.needAll : List Expr → Nat
  | [] => 0
  | e :: rest => max e.need (needAll rest)

/-- How many levels a chain of comparisons takes, where `waiting` values wait for it. An operand
between two comparisons is computed for both of them. -/
def Expr.chainNeed (waiting previous : Nat) : List (CompareOp × Expr) → Nat
  | [] => waiting
  | (_, right) :: rest =>
    max (waiting + previous) (max (waiting + 1 + right.need) (chainNeed 1 right.need rest))

end

variable {V : Type} {A : Arithmetic V} {env : Env V} {vars : List String} {v : V} {rest : List V}
  {levels : Levels V}

/-- Where there is room, code leaves a value on top of the values that were there. -/
def Leaves (effect : Levels V → Option (Levels V)) (room : Nat) (v : V) : Prop :=
  ∀ {rest : List V} {levels : Levels V}, levels.Holds rest → rest.length + room ≤ 4 →
    ∃ levels', effect levels = some levels' ∧ levels'.Holds (v :: rest)

/-- Where there is room, further operands are combined with the value so far. -/
theorem Expr.exists_booleansOnLevels (op : BoolOp) {others : List Expr}
    (h : ∀ e ∈ others, ∀ v, e.value A env = some v → Leaves (e.onLevels A env) e.need v)
    {b : Bool} {bs : List Bool} (hb : A.truth v = some b)
    (hbs : Expr.truths A env others = some bs) (hv : others = [] → v = A.bit b)
    (hlevels : levels.Holds (v :: rest)) (hroom : rest.length + (Expr.needAll others + 1) ≤ 4) :
    ∃ levels', Expr.booleansOnLevels A env op others levels = some levels' ∧
      levels'.Holds (A.bit (op.combine (b :: bs)) :: rest) := by
  induction others generalizing v b bs levels with
  | nil =>
    cases hbs
    have hcombine : op.combine [b] = b := by cases op <;> simp [BoolOp.combine]
    rw [hcombine, ← hv rfl]
    exact ⟨levels, rfl, hlevels⟩
  | cons e others ih =>
    rw [List.forall_mem_cons] at h
    obtain ⟨w, hw, hbs⟩ := Option.bind_eq_some_iff.mp hbs
    obtain ⟨c, hc, hbs⟩ := Option.bind_eq_some_iff.mp hbs
    obtain ⟨cs, hcs, hbs⟩ := Option.bind_eq_some_iff.mp hbs
    cases hbs
    rw [needAll] at hroom
    obtain ⟨levels₁, hcode₁, hlevels₁⟩ := h.1 w hw hlevels (by rw [List.length_cons]; omega)
    obtain ⟨levels₂, hcode₂, hlevels₂⟩ := BoolOp.exists_onLevels op hb hc hlevels₁
    rw [booleansOnLevels, hcode₁, Option.bind_some, hcode₂, Option.bind_some,
      BoolOp.combine_cons_cons]
    exact ih h.2 (A.truth_bit _) hcs (fun _ => rfl) hlevels₂ (by omega)

/-- Where there is room, comparisons are combined with those before them, if any. -/
theorem Expr.exists_chainOnLevels {comparisons : List (CompareOp × Expr)}
    (h : ∀ c ∈ comparisons, ∀ v, c.2.value A env = some v → Leaves (c.2.onLevels A env) c.2.need v)
    {previous : Levels V → Option (Levels V)} {room : Nat} (hprevious : Leaves previous room v)
    (before : Option Bool) (hbefore : comparisons = [] → before.isSome = true) {c : Bool}
    (hchain : Expr.chain A env v comparisons = some c)
    (hlevels : levels.Holds (before.toList.map A.bit ++ rest))
    (hroom : rest.length + Expr.chainNeed before.toList.length room comparisons ≤ 4) :
    ∃ levels', Expr.chainOnLevels A env before.isNone previous comparisons levels = some levels' ∧
      levels'.Holds (A.bit (before.getD true && c) :: rest) := by
  induction comparisons generalizing v previous room before c levels with
  | nil =>
    obtain ⟨b, rfl⟩ := Option.isSome_iff_exists.mp (hbefore rfl)
    cases hchain
    rw [Bool.and_true]
    exact ⟨levels, rfl, hlevels⟩
  | cons comparison comparisons ih =>
    obtain ⟨operator, right⟩ := comparison
    rw [List.forall_mem_cons] at h
    dsimp only at h
    obtain ⟨w, hw, hchain⟩ := Option.bind_eq_some_iff.mp hchain
    obtain ⟨d, hd, hchain⟩ := Option.bind_eq_some_iff.mp hchain
    obtain ⟨e, he, hchain⟩ := Option.bind_eq_some_iff.mp hchain
    cases hchain
    rw [chainNeed] at hroom
    have hlength : (before.toList.map A.bit ++ rest).length =
        before.toList.length + rest.length := by
      simp
    obtain ⟨levels₁, hcode₁, hlevels₁⟩ := hprevious hlevels (by omega)
    obtain ⟨levels₂, hcode₂, hlevels₂⟩ := h.1 w hw hlevels₁ (by rw [List.length_cons]; omega)
    obtain ⟨levels₃, hcode₃, hlevels₃⟩ := CompareOp.exists_onLevels hd hlevels₂
    -- the outcome joins that of the comparisons before
    obtain ⟨levels₄, hcode₄, hlevels₄⟩ : ∃ levels₄, (if before.isNone then some levels₃
        else BoolOp.and.onLevels A levels₃) = some levels₄ ∧
          levels₄.Holds (A.bit (before.getD true && d) :: rest) := by
      cases before with
      | none => exact ⟨levels₃, rfl, hlevels₃⟩
      | some b =>
        have hand : BoolOp.and.combine [b, d] = (b && d) := by simp [BoolOp.combine]
        rw [Option.getD_some, ← hand]
        exact BoolOp.exists_onLevels .and (A.truth_bit b) (A.truth_bit d) hlevels₃
    rw [chainOnLevels, hcode₁, Option.bind_some, hcode₂, Option.bind_some, hcode₃, Option.bind_some,
      hcode₄, Option.bind_some, ← Bool.and_assoc]
    -- the operand in the middle is computed once more, and has the same value
    exact ih h.2 (h.1 w hw) (some (before.getD true && d)) (fun _ => rfl) he hlevels₄
      (Nat.le_trans (by simp only [Option.toList_some, List.length_singleton]; omega) hroom)

theorem Expr.Scalar.exists_onLevels {e : Expr} (h : e.Scalar vars)
    (hvalue : e.value A env = some v) : Leaves (e.onLevels A env) e.need v := by
  induction h generalizing v with
  | int | float | bool | none | name =>
    intro rest levels hlevels hroom
    cases hvalue
    exact ⟨_, rfl, hlevels.push hroom _⟩
  | binary _ _ _ ihleft ihright =>
    intro rest levels hlevels hroom
    obtain ⟨a, ha, hvalue⟩ := Option.bind_eq_some_iff.mp hvalue
    obtain ⟨b, hb, hop⟩ := Option.bind_eq_some_iff.mp hvalue
    rw [need] at hroom
    obtain ⟨levels₁, hleft, hlevels₁⟩ := ihleft ha hlevels (by omega)
    -- the right operand has one level less, the one in which the left operand waits
    obtain ⟨levels₂, hright, hlevels₂⟩ := ihright hb hlevels₁ (by rw [List.length_cons]; omega)
    obtain ⟨levels₃, hcombined, hlevels₃⟩ := BinaryOp.exists_onLevels hop hlevels₂
    refine ⟨levels₃, ?_, hlevels₃⟩
    rw [onLevels, hleft, Option.bind_some, hright, Option.bind_some, hcombined]
  | boolean hsome _ _ ihfirst ihothers =>
    intro rest levels hlevels hroom
    obtain ⟨a, ha, hvalue⟩ := Option.bind_eq_some_iff.mp hvalue
    obtain ⟨b, hb, hvalue⟩ := Option.bind_eq_some_iff.mp hvalue
    obtain ⟨bs, hbs, hvalue⟩ := Option.bind_eq_some_iff.mp hvalue
    cases hvalue
    rw [need] at hroom
    obtain ⟨levels₁, hcode, hlevels₁⟩ := ihfirst ha hlevels (by omega)
    rw [onLevels, hcode, Option.bind_some]
    -- the first operand is no truth value yet, but there is another one to combine it with
    exact exists_booleansOnLevels _ (fun e he _ => ihothers e he) hb hbs (absurd · hsome) hlevels₁
      (by omega)
  | not _ ih =>
    intro rest levels hlevels hroom
    obtain ⟨a, ha, hvalue⟩ := Option.bind_eq_some_iff.mp hvalue
    obtain ⟨b, hb, hvalue⟩ := Option.bind_eq_some_iff.mp hvalue
    cases hvalue
    obtain ⟨levels₁, hcode, hlevels₁⟩ := ih ha hlevels hroom
    refine ⟨levels₁.replace (A.bit !b), ?_, hlevels₁.replace _⟩
    rw [onLevels, hcode, Option.bind_some, hlevels₁.x_eq, hb]
    rfl
  | negate _ ih | invert _ ih =>
    intro rest levels hlevels hroom
    obtain ⟨a, ha, hvalue⟩ := Option.bind_eq_some_iff.mp hvalue
    obtain ⟨levels₁, hcode, hlevels₁⟩ := ih ha hlevels hroom
    refine ⟨levels₁.replace v, ?_, hlevels₁.replace _⟩
    rw [onLevels, hcode, Option.bind_some, hlevels₁.x_eq, hvalue]
    rfl
  | compare hsome _ _ _ ihleft ih =>
    intro rest levels hlevels hroom
    obtain ⟨a, ha, hvalue⟩ := Option.bind_eq_some_iff.mp hvalue
    obtain ⟨b, hchain, hvalue⟩ := Option.bind_eq_some_iff.mp hvalue
    cases hvalue
    exact exists_chainOnLevels (fun c hc _ => ih c hc) (ihleft ha) Option.none
      (absurd · hsome) hchain hlevels hroom

end Script

/-! ### Levels that are lost -/

namespace Levels

variable {V : Type} {k m : Nat} {levels₁ levels₂ : Levels V} {o₁ o₂ : Option (Levels V)}

/-- Two stacks are the same in some levels from X on. -/
structure Agree (k : Nat) (levels₁ levels₂ : Levels V) : Prop where
  x : 0 < k → levels₁.x = levels₂.x
  y : 1 < k → levels₁.y = levels₂.y
  z : 2 < k → levels₁.z = levels₂.z
  t : 3 < k → levels₁.t = levels₂.t

theorem Agree.eq (h : Agree 4 levels₁ levels₂) : levels₁ = levels₂ := by
  obtain ⟨x₁, y₁, z₁, t₁⟩ := levels₁
  obtain ⟨x₂, y₂, z₂, t₂⟩ := levels₂
  obtain rfl : x₁ = x₂ := h.x (by decide)
  obtain rfl : y₁ = y₂ := h.y (by decide)
  obtain rfl : z₁ = z₂ := h.z (by decide)
  obtain rfl : t₁ = t₂ := h.t (by decide)
  rfl

theorem Agree.mono (h : Agree k levels₁ levels₂) (hle : m ≤ k) : Agree m levels₁ levels₂ :=
  ⟨fun hm => h.x (by omega), fun hm => h.y (by omega), fun hm => h.z (by omega),
    fun hm => h.t (by omega)⟩

/-- In how many levels two stacks are the same after a value has been computed in `n` levels, if
they were the same in `k`. -/
def known (k n : Nat) : Nat :=
  if 4 ≤ k + n then 4 else k + 1

/-- In how many levels two stacks are the same after Y and X have been combined, if they were the
same in `k`. -/
def joined (k : Nat) : Nat :=
  if 4 ≤ k then 4 else k - 1

theorem Agree.push (h : Agree k levels₁ levels₂) (v : V) :
    Agree (known k 1) (levels₁.push v) (levels₂.push v) := by
  have hlower : ∀ i, i + 1 < known k 1 → i < k := by
    intro i hi
    unfold known at hi
    split at hi <;> omega
  exact ⟨fun _ => rfl, fun hi => h.x (hlower 0 hi), fun hi => h.y (hlower 1 hi),
    fun hi => h.z (hlower 2 hi)⟩

theorem Agree.replace (h : Agree k levels₁ levels₂) (v : V) :
    Agree k (levels₁.replace v) (levels₂.replace v) :=
  ⟨fun _ => rfl, h.y, h.z, h.t⟩

/-- A value takes the place of Y and X, and something comes to T. -/
theorem Agree.join (h : Agree k levels₁ levels₂) (v : V) {t₁ t₂ : V} (ht : 3 < k → t₁ = t₂) :
    Agree (joined k) ⟨v, levels₁.z, levels₁.t, t₁⟩ ⟨v, levels₂.z, levels₂.t, t₂⟩ := by
  have hlower : ∀ i, i < 3 → i < joined k → i + 1 < k := by
    intro i hi hk
    unfold joined at hk
    split at hk <;> omega
  have hall : 2 < joined k → 3 < k := hlower 2 (by decide)
  exact ⟨fun _ => rfl, fun hk => h.z (hlower 1 (by decide) hk), fun hk => h.t (hall hk),
    fun hk => ht (hall (by omega))⟩

/-- Two stacks, if any, are the same in some levels after the same has been done to both. -/
theorem rel_bind {f : Levels V → Option (Levels V)} (h : Option.Rel (Agree k) o₁ o₂)
    (hf : ∀ levels₁ levels₂, Agree k levels₁ levels₂ →
      Option.Rel (Agree m) (f levels₁) (f levels₂)) :
    Option.Rel (Agree m) (o₁.bind f) (o₂.bind f) := by
  cases h with
  | none => exact .none
  | some h => exact hf _ _ h

theorem rel_mono (h : Option.Rel (Agree k) o₁ o₂) (hle : m ≤ k) :
    Option.Rel (Agree m) o₁ o₂ := by
  cases h with
  | none => exact .none
  | some h => exact .some (h.mono hle)

theorem eq_of_rel (h : Option.Rel (Agree 4) o₁ o₂) : o₁ = o₂ := by
  cases h with
  | none => rfl
  | some h => rw [h.eq]

theorem rel_map {α : Type} {o : Option α} {f₁ f₂ : α → Levels V}
    (h : ∀ a, Agree k (f₁ a) (f₂ a)) : Option.Rel (Agree k) (o.map f₁) (o.map f₂) := by
  cases o with
  | none => exact .none
  | some a => exact .some (h a)

end Levels

section Lost

open Levels (Agree known joined rel_bind rel_mono rel_map eq_of_rel)

variable {V : Type} {A : Arithmetic V} {k : Nat} {levels₁ levels₂ : Levels V}

theorem Python.BinaryOp.agree_onLevels (op : BinaryOp) (h : Agree k levels₁ levels₂) (hk : 2 ≤ k) :
    Option.Rel (Agree (joined k)) (op.onLevels A levels₁) (op.onLevels A levels₂) := by
  rw [onLevels, onLevels, h.x (by omega), h.y (by omega)]
  exact rel_map fun v => h.join v h.t

theorem Python.CompareOp.agree_onLevels (operator : CompareOp) (h : Agree k levels₁ levels₂)
    (hk : 2 ≤ k) :
    Option.Rel (Agree (joined k)) (operator.onLevels A levels₁) (operator.onLevels A levels₂) := by
  rw [onLevels, onLevels, h.x (by omega), h.y (by omega)]
  exact rel_map fun b => h.join (A.bit b) fun _ => h.x (by omega)

theorem Python.BoolOp.agree_onLevels (op : BoolOp) (h : Agree k levels₁ levels₂) (hk : 2 ≤ k) :
    Option.Rel (Agree (joined k)) (op.onLevels A levels₁) (op.onLevels A levels₂) := by
  rw [onLevels, onLevels, h.x (by omega), h.y (by omega)]
  cases A.truth levels₂.y with
  | none => exact .none
  | some b => exact rel_map fun c => h.join (A.bit (op.combine [b, c])) h.t

namespace Script

variable {env : Env V} {vars : List String}

/-- What code does to two stacks is the same as far as the stacks are, and altogether if it takes
the levels in which they are not. -/
def Keeps (effect : Levels V → Option (Levels V)) (room : Nat) : Prop :=
  ∀ {k : Nat} {levels₁ levels₂ : Levels V}, Agree k levels₁ levels₂ →
    Option.Rel (Agree (known k room)) (effect levels₁) (effect levels₂)

/-- The same of further operands, where the value so far is among the levels that are the same. -/
theorem Expr.agree_booleansOnLevels (op : BoolOp) {others : List Expr}
    (hothers : ∀ e ∈ others, Keeps (e.onLevels A env) e.need) (h : Agree k levels₁ levels₂)
    (hk : 1 ≤ k) :
    Option.Rel (Agree (known (k - 1) (Expr.needAll others + 1)))
      (Expr.booleansOnLevels A env op others levels₁)
      (Expr.booleansOnLevels A env op others levels₂) := by
  induction others generalizing k levels₁ levels₂ with
  | nil =>
    rw [booleansOnLevels, booleansOnLevels, needAll]
    refine .some (h.mono ?_)
    grind [known]
  | cons e others ih =>
    rw [List.forall_mem_cons] at hothers
    rw [booleansOnLevels, booleansOnLevels, needAll]
    refine rel_bind (hothers.1 h) fun _ _ h₁ => rel_bind (op.agree_onLevels h₁ ?_) fun _ _ h₂ =>
      rel_mono (ih hothers.2 h₂ ?_) ?_
    all_goals grind [known, joined]

/-- The same of comparisons, where `waiting` outcomes are among the levels that are the same. -/
theorem Expr.agree_chainOnLevels {comparisons : List (CompareOp × Expr)}
    (hcomparisons : ∀ c ∈ comparisons, Keeps (c.2.onLevels A env) c.2.need)
    {previous : Levels V → Option (Levels V)} {room : Nat} (hprevious : Keeps previous room)
    (isFirst : Bool) (hfirst : comparisons = [] → isFirst = false) (h : Agree k levels₁ levels₂)
    (hk : (if isFirst then 0 else 1) ≤ k) :
    Option.Rel (Agree (known (k - if isFirst then 0 else 1)
        (Expr.chainNeed (if isFirst then 0 else 1) room comparisons)))
      (Expr.chainOnLevels A env isFirst previous comparisons levels₁)
      (Expr.chainOnLevels A env isFirst previous comparisons levels₂) := by
  induction comparisons generalizing previous room isFirst k levels₁ levels₂ with
  | nil =>
    rw [chainOnLevels, chainOnLevels, chainNeed]
    refine .some (h.mono ?_)
    grind [known]
  | cons comparison comparisons ih =>
    obtain ⟨operator, right⟩ := comparison
    rw [List.forall_mem_cons] at hcomparisons
    rw [chainOnLevels, chainOnLevels, chainNeed]
    refine rel_bind (hprevious h) fun _ _ h₁ => rel_bind (hcomparisons.1 h₁) fun _ _ h₂ =>
      rel_bind (operator.agree_onLevels h₂ ?_) fun _ _ h₃ => ?_
    · grind [known]
    cases isFirst with
    | true =>
      refine rel_mono (ih hcomparisons.2 hcomparisons.1 false (fun _ => rfl) h₃ ?_) ?_
      all_goals grind [known, joined]
    | false =>
      refine rel_bind (BoolOp.and.agree_onLevels h₃ ?_) fun _ _ h₄ =>
        rel_mono (ih hcomparisons.2 hcomparisons.1 false (fun _ => rfl) h₄ ?_) ?_
      all_goals grind [known, joined]

theorem Expr.Scalar.agree_onLevels {e : Expr} (hscalar : e.Scalar vars) :
    Keeps (e.onLevels A env) e.need := by
  induction hscalar with
  | int | float | bool | none | name =>
    intro k levels₁ levels₂ h
    exact .some (h.push _)
  | binary _ _ _ ihleft ihright =>
    intro k levels₁ levels₂ h
    rw [onLevels, onLevels, need]
    -- each operand adds a level that is the same, so the operator finds the same Y and X
    refine rel_bind (ihleft h) fun _ _ h₁ => rel_bind (ihright h₁) fun _ _ h₂ =>
      rel_mono (BinaryOp.agree_onLevels _ h₂ ?_) ?_
    all_goals grind [known, joined]
  | boolean _ _ _ ihfirst ihothers =>
    intro k levels₁ levels₂ h
    rw [onLevels, onLevels, need]
    refine rel_bind (ihfirst h) fun _ _ h₁ => rel_mono (agree_booleansOnLevels _ ihothers h₁ ?_) ?_
    all_goals grind [known, joined]
  | not _ ih =>
    intro k levels₁ levels₂ h
    refine rel_bind (ih h) fun _ _ h₁ => ?_
    rw [h₁.x (by grind [known])]
    exact rel_map fun b => h₁.replace (A.bit !b)
  | negate _ ih | invert _ ih =>
    intro k levels₁ levels₂ h
    refine rel_bind (ih h) fun _ _ h₁ => ?_
    rw [h₁.x (by grind [known])]
    exact rel_map fun v => h₁.replace v
  | compare hsome _ _ _ ihleft ih =>
    intro k levels₁ levels₂ h
    exact agree_chainOnLevels ih ihleft true (absurd · hsome) h (Nat.zero_le k)

end Script

end Lost

/-- The code of a scalar expression does the same whatever the arithmetic. -/
theorem Emit.exists_acts_expr {labels : FunctionLabels} {vars : List String} {e : Expr}
    {s s' : Emitter} {u : Unit} (hscalar : e.isScalar vars = true)
    (hrun : (expr labels e).run s = .ok (u, s')) :
    ∃ code, Emits code s s' ∧ ∀ {V : Type} (A : Arithmetic V) (pending : Nat)
      (registers : Register → V) (env : Env V), Represents A vars s.scopes registers env →
        A.Acts (pending + 2) registers code (e.onLevels A env) := by
  -- the code does not depend on the arithmetic: it is that for integers, all of them zero
  have hzero : Represents Arithmetic.integers vars s.scopes (fun _ => 0) (fun _ => 0) := by
    intro name _ register _
    split <;> rfl
  obtain ⟨code, hemits, -⟩ := driving_expr (@Arithmetic.Acts.effects _ .integers 0 _)
    (e.scalar hscalar) s u s' (fun _ hname _ hget => .recallCode hzero hname hget) hrun
  refine ⟨code, hemits, fun A pending registers env hvars => ?_⟩
  obtain ⟨code', hemits', hacts⟩ := driving_expr Arithmetic.Acts.effects (e.scalar hscalar) s u s'
    (fun _ hname _ hget => .recallCode hvars hname hget) hrun
  obtain rfl : code' = code := List.append_cancel_left (hemits'.instrs.symm.trans hemits.instrs)
  exact hacts

/-- The code of a scalar expression does to the levels what the expression says. Where the operands
have room, the value is left in X, on top of the levels for which there is room besides. The levels
further up make no difference to what is left. Registers are kept, and all flags but the scratch
flag. -/
theorem expr_on_levels {labels : FunctionLabels} {vars : List String} {e : Expr} {s s' : Emitter}
    {u : Unit} (hscalar : e.isScalar vars = true)
    (hrun : (Emit.expr labels e).run s = .ok (u, s')) :
    ∃ code, s'.listing.instrs = s.listing.instrs ++ code ∧
      ∀ {V : Type} (A : Arithmetic V) (registers : Register → V) (env : Env V),
        Represents A vars s.scopes registers env →
        ∀ (pending : Nat) (levels : Levels V) (flags : Nat → Bool),
          (A.execute (pending + 2) code ⟨levels, flags, registers⟩).map Calculator.levels =
              e.onLevels A env levels ∧
            (∀ (v : V) (kept : Nat), e.value A env = some v → kept + e.need ≤ 4 →
              ∃ levels' flags', A.execute (pending + 2) code ⟨levels, flags, registers⟩ =
                  some ⟨levels', flags', registers⟩ ∧
                levels'.x = v ∧ levels'.Holds (v :: levels.toList.take kept) ∧
                ∀ n, n ≠ Reserved.scratchFlag → flags' n = flags n) ∧
            ∀ other, Levels.Agree (4 - e.need) levels other →
              e.onLevels A env levels = e.onLevels A env other := by
  obtain ⟨code, hemits, hacts⟩ := Emit.exists_acts_expr hscalar hrun
  refine ⟨code, hemits.instrs, fun A registers env hvars pending levels flags => ?_⟩
  obtain ⟨flags', hkept, hcode⟩ := hacts A pending registers env hvars levels flags
  have hexecute : A.execute (pending + 2) code ⟨levels, flags, registers⟩ =
      (e.onLevels A env levels).map fun levels' => ⟨levels', flags', registers⟩ := by
    rw [Option.map_eq_bind]
    exact (congrArg (A.execute _ · _) (List.append_nil code).symm).trans (hcode [])
  rw [hexecute]
  refine ⟨by simp [Function.comp_def], fun v kept hvalue hroom => ?_, fun other hother => ?_⟩
  · have htop : levels.Holds (levels.toList.take kept) := List.take_prefix _ _
    obtain ⟨levels', hlevels', hholds⟩ := (e.scalar hscalar).exists_onLevels hvalue htop
      (by rw [List.length_take]; omega)
    exact ⟨levels', flags', by rw [hlevels']; rfl, hholds.x_eq, hholds, hkept⟩
  · have hall : 4 ≤ Levels.known (4 - e.need) e.need := by
      rw [Levels.known, if_pos (by omega)]
    exact Levels.eq_of_rel (Levels.rel_mono ((e.scalar hscalar).agree_onLevels hother) hall)

def numberLess (n : Nat) (e : Expr) : Expr :=
  .binary {} (.int {} n) .sub e

/-- Comparisons that take all four levels: `1 < 2 - (3 - 4) < 5`. -/
def fullLevels : Expr :=
  .compare {} (.int {} 1) [(.lt, numberLess 2 (numberLess 3 (.int {} 4))), (.lt, .int {} 5)]

/-- Five operands, each waiting for the next: `1 - (2 - (3 - (4 - 5)))`. -/
def fiveOperands : Expr :=
  numberLess 1 (numberLess 2 (numberLess 3 (numberLess 4 (.int {} 5))))

/-- The comparisons leave their value in X. Of the five operands the first is lost: the value is 3,
but 4 is left, as it would be for any other number in its place. -/
theorem expr_on_levels_fiveOperands :
    (fullLevels.isScalar [] = true ∧ fullLevels.need = 4 ∧
      ∃ s' code, (Emit.expr {} fullLevels).run { scopes := .ofLimit 10 } = .ok ((), s') ∧
        s'.listing.instrs = code ∧ ∀ levels flags registers, ∃ c',
          Arithmetic.integers.execute 2 code ⟨levels, flags, registers⟩ = some c' ∧
            c'.levels.x = 1) ∧
    (fiveOperands.isScalar [] = true ∧ fiveOperands.need = 5 ∧
      fiveOperands.value Arithmetic.integers (fun _ => 0) = some 3 ∧
      ∃ s' code, (Emit.expr {} fiveOperands).run { scopes := .ofLimit 10 } = .ok ((), s') ∧
        s'.listing.instrs = code ∧ ∀ levels flags registers, ∃ c',
          Arithmetic.integers.execute 2 code ⟨levels, flags, registers⟩ = some c' ∧
            c'.levels.x = 4) := by
  refine ⟨⟨rfl, rfl, ?_⟩, rfl, rfl, rfl, ?_⟩
  · obtain ⟨s', hrun⟩ : ∃ s', (Emit.expr {} fullLevels).run { scopes := .ofLimit 10 } =
        .ok ((), s') := ⟨_, rfl⟩
    obtain ⟨code, hcode, hall⟩ := expr_on_levels (show fullLevels.isScalar [] = true from rfl) hrun
    refine ⟨s', code, hrun, hcode, fun levels flags registers => ?_⟩
    obtain ⟨-, hfits, -⟩ := hall .integers registers (fun _ => 0) nofun 0 levels flags
    obtain ⟨levels', flags', hexecute, hx, -⟩ := hfits 1 0 rfl (by decide)
    exact ⟨_, hexecute, hx⟩
  · obtain ⟨s', hrun⟩ : ∃ s', (Emit.expr {} fiveOperands).run { scopes := .ofLimit 10 } =
        .ok ((), s') := ⟨_, rfl⟩
    obtain ⟨code, hcode, hall⟩ :=
      expr_on_levels (show fiveOperands.isScalar [] = true from rfl) hrun
    refine ⟨s', code, hrun, hcode, fun levels flags registers => ?_⟩
    obtain ⟨hexact, -⟩ := hall .integers registers (fun _ => 0) nofun 0 levels flags
    have hlost : fiveOperands.onLevels .integers (fun _ => 0) levels = some ⟨4, 2, 2, 2⟩ := rfl
    obtain ⟨c', hexecute, hlevels⟩ := Option.map_eq_some_iff.mp (hexact.trans hlost)
    exact ⟨c', hexecute, by rw [hlevels]⟩

end Keystroke
