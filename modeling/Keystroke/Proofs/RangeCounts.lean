import Keystroke.Proofs.PackedCounters

/-!
# Ranges and the numbers that a counter goes through

A loop over a range packs the range into a counter and tests it at the end of each round. The
counter has room for a step of two digits, its fraction has the sign of the number itself, and the
first round is made before the first test. So it goes through the numbers of the range in some cases
only, and these are stated here exactly.
-/

namespace Keystroke

open Counter

/-! ### Ranges -/

/-- A range: its start, its end and its step. -/
structure IntRange where
  start : ℤ
  stop : ℤ
  step : ℤ
deriving DecidableEq

/-- The numbers from a start up to an end, which is not among them, in steps. -/
def numbersFrom (start stop step : ℤ) : List ℤ :=
  if start < stop ∧ 0 < step then start :: numbersFrom (start + step) stop step else []
termination_by (stop - start).toNat
decreasing_by omega

/-- The numbers of a range, for a step above zero. -/
def IntRange.numbers (range : IntRange) : List ℤ :=
  numbersFrom range.start range.stop range.step

theorem numbersFrom_of_lt {start stop step : ℤ} (hlt : start < stop) (hstep : 0 < step) :
    numbersFrom start stop step = start :: numbersFrom (start + step) stop step := by
  rw [numbersFrom, if_pos ⟨hlt, hstep⟩]

theorem numbersFrom_of_le {start stop step : ℤ} (hle : stop ≤ start) :
    numbersFrom start stop step = [] := by
  rw [numbersFrom, if_neg fun h => absurd h.1 (not_lt.mpr hle)]

/-! ### Counters -/

/-- A counter that goes on is below its final value, which has three digits. -/
theorem Counter.units_lt_of_not_isLast {units : ℤ} (h : ¬ (ofUnits units).isLast = true) :
    units < 100000000 := by
  have hstride := stride_ofUnits_pos units
  have hfinal : (ofUnits units).final < 1000 := by
    unfold ofUnits
    dsimp only
    omega
  have hcount : (ofUnits units).count < 1000 := by
    have hnext := mt decide_eq_true h
    omega
  unfold ofUnits wholeUnits at hcount
  dsimp only at hcount
  split at hcount
  · omega
  · omega

/-- The numbers that a counter goes through. It is tested at the end of a round, so there is a first
number always. -/
def counts (units : ℤ) : List ℤ :=
  (Counter.ofUnits units).count ::
    if h : (Counter.ofUnits units).isLast = true then []
    else counts (units + (Counter.ofUnits units).stride * 100000)
termination_by (100000000 - units).toNat
decreasing_by
  have hlt := Counter.units_lt_of_not_isLast h
  have hstride := Counter.stride_ofUnits_pos units
  omega

theorem counts_eq {units : ℤ} {counter : Counter} (h : Counter.ofUnits units = counter) :
    counts units = counter.count ::
      if counter.isLast then [] else counts (units + counter.stride * 100000) := by
  subst h
  rw [counts]
  split
  · rfl
  · rfl

section

variable {count stop step : ℤ}

/-- A counter with the fields of a range. -/
theorem counts_of_fields {units : ℤ} (hstep : 1 ≤ step)
    (h : Counter.ofUnits units = ⟨count, max (stop - 1) 0, step⟩) :
    counts units = count ::
      if max (stop - 1) 0 < count + step then [] else counts (units + step * 100000) := by
  have hstride : Counter.stride ⟨count, max (stop - 1) 0, step⟩ = step :=
    if_neg (show ¬ step = 0 by omega)
  rw [counts_eq h, Counter.isLast, hstride]
  simp only [decide_eq_true_eq]

variable (hstop : stop ≤ 999) (hstep : 1 ≤ step) (hdigits : step ≤ 99)

include hstop hstep hdigits

/-- A counter of a range, at a number that is not below zero. -/
theorem counts_add (hcount : 0 ≤ count) :
    counts (count * 100000 + packedFraction stop step) =
      count :: if stop ≤ count + step then []
        else counts ((count + step) * 100000 + packedFraction stop step) := by
  obtain ⟨hfinal, hincrement, hnonneg, hfraction⟩ := packedFraction_fields hstop hstep hdigits
  have hfields := Counter.ofUnits_add hcount hnonneg hfraction
  rw [hfinal, hincrement] at hfields
  have hlast : max (stop - 1) 0 < count + step ↔ stop ≤ count + step := by omega
  rw [counts_of_fields hstep hfields, if_congr hlast rfl rfl]
  ring_nf

/-- A counter of a range, at a number that is not above zero. -/
theorem counts_sub (hcount : count ≤ 0) :
    counts (count * 100000 - packedFraction stop step) =
      count :: if max (stop - 1) 0 < count + step then []
        else counts ((count + step) * 100000 - packedFraction stop step) := by
  obtain ⟨hfinal, hincrement, hnonneg, hfraction⟩ := packedFraction_fields hstop hstep hdigits
  have hfields := Counter.ofUnits_sub hcount hnonneg hfraction
  rw [hfinal, hincrement] at hfields
  rw [counts_of_fields hstep hfields]
  ring_nf

end

/-! ### Steps of two digits -/

theorem remainder_le {a b : ℤ} (ha : 0 ≤ a) (hb : 0 < b) : a % b ≤ a := by
  have hquotient : 0 ≤ b * (a / b) := mul_nonneg hb.le (Int.ediv_nonneg ha hb.le)
  have hdivision := Int.mul_ediv_add_emod a b
  omega

section

variable {stop step : ℤ} (hstop : stop ≤ 999) (hstep : 1 ≤ step) (hdigits : step ≤ 99)

include hstop hstep hdigits

/-- From a number that is not below zero, the counter goes through the numbers up to the end. -/
theorem counts_eq_numbersFrom {count : ℤ} (hcount : 0 ≤ count) (hlt : count < stop) :
    counts (count * 100000 + packedFraction stop step) = numbersFrom count stop step := by
  rw [counts_add hstop hstep hdigits hcount, numbersFrom_of_lt hlt (by omega)]
  by_cases hlast : stop ≤ count + step
  · rw [if_pos hlast, numbersFrom_of_le hlast]
  · rw [if_neg hlast]
    exact congrArg _ (counts_eq_numbersFrom (by omega) (not_le.mp hlast))
termination_by (stop - count).toNat

/-- A counter below zero takes its fraction away. Once it is above zero, the fraction is added, and
the number is not the one of the range any more. So the range has to end with the last number that
is not above zero. -/
theorem counts_sub_eq_numbersFrom_iff {count : ℤ} (hcount : count ≤ 0) :
    counts (count * 100000 - packedFraction stop step) = numbersFrom count stop step ↔
      -(-count % step) < stop ∧ stop ≤ step - -count % step := by
  rw [counts_sub hstop hstep hdigits hcount]
  by_cases hmore : count + step ≤ 0
  · -- the next number is not above zero either
    have hsame : -(count + step) % step = -count % step := by
      rw [show -(count + step) = -count - step by ring, Int.sub_emod_right]
    have hbound : -count % step ≤ -(count + step) := by
      rw [← hsame]
      exact remainder_le (by omega) (by omega)
    rw [if_neg (by omega)]
    have ih := counts_sub_eq_numbersFrom_iff hmore
    rw [hsame] at ih
    by_cases hlt : count < stop
    · rw [numbersFrom_of_lt hlt (by omega), List.cons_inj_right, ih]
    · rw [numbersFrom_of_le (not_lt.mp hlt)]
      constructor
      · exact nofun
      · omega
  · have hrest : -count % step = -count := Int.emod_eq_of_lt (by omega) (by omega)
    by_cases hlast : stop ≤ count + step
    · rw [if_pos (by omega)]
      by_cases hlt : count < stop
      · rw [numbersFrom_of_lt hlt (by omega), numbersFrom_of_le hlast]
        simp only [true_iff]
        omega
      · rw [numbersFrom_of_le (not_lt.mp hlt)]
        constructor
        · exact nofun
        · omega
    · -- the fraction has been added to a number above zero
      rw [if_neg (by omega), numbersFrom_of_lt (by omega) (by omega),
        numbersFrom_of_lt (by omega) (by omega), counts]
      have hfraction := packedFraction_fields hstop hstep hdigits
      have hcounted : (Counter.ofUnits ((count + step) * 100000 - packedFraction stop step)).count =
          count + step - 1 := by
        unfold Counter.ofUnits wholeUnits
        dsimp only
        omega
      simp only [List.cons.injEq]
      omega
termination_by (-count).toNat

end

/-! ### Longer steps -/

/-- The last two digits of a step, of which the counter makes its own. -/
def lastDigits (step : ℤ) : ℤ :=
  if step % 100 = 0 then 1 else step % 100

/-- A step of more than two digits runs over into the final value. The counter goes on by its last
two digits, so only a range of one number can come out right. -/
theorem counts_packedUnits_long_iff {start stop step : ℤ} (hstep : 100 ≤ step) :
    counts (packedUnits start stop step) = numbersFrom start stop step ↔
      start < stop ∧ packedFraction stop step < 100000 ∧ stop ≤ start + step ∧
        packedFraction stop step / 100 < start + lastDigits step := by
  have hpos : 0 < packedFraction stop step := by
    unfold packedFraction
    omega
  have hdigits : packedFraction stop step % 100 = step % 100 := by
    unfold packedFraction
    omega
  by_cases hlt : start < stop
  · rw [numbersFrom_of_lt hlt (by omega)]
    by_cases hfraction : packedFraction stop step < 100000
    · have hfields := ofUnits_packedFraction start hpos.le hfraction
      have hstride : stride ⟨start, packedFraction stop step / 100,
          packedFraction stop step % 100⟩ = lastDigits step := by
        rw [stride, hdigits, lastDigits]
      rw [counts_eq hfields, isLast, hstride, List.cons_inj_right]
      simp only [decide_eq_true_eq]
      by_cases hlast : packedFraction stop step / 100 < start + lastDigits step
      · rw [if_pos hlast]
        by_cases hsingle : stop ≤ start + step
        · simp only [numbersFrom_of_le hsingle, hlt, hfraction, hsingle, hlast, and_self]
        · rw [numbersFrom_of_lt (not_le.mp hsingle) (by omega)]
          exact ⟨fun h => (List.cons_ne_nil _ _ h.symm).elim, fun h => absurd h.2.2.1 hsingle⟩
      · rw [if_neg hlast, counts]
        refine ⟨fun h => ?_, fun h => absurd h.2.2.2 hlast⟩
        by_cases hsingle : stop ≤ start + step
        · rw [numbersFrom_of_le hsingle] at h
          cases h
        · -- the second number of the counter is at most 99 further on
          rw [numbersFrom_of_lt (not_le.mp hsingle) (by omega), List.cons.injEq] at h
          have hnear : lastDigits step < step := by
            unfold lastDigits
            split <;> omega
          have hcount := h.1
          unfold Counter.ofUnits wholeUnits packedUnits at hcount
          dsimp only at hcount
          split at hcount <;> split at hcount <;> omega
    · -- the step runs over into the number itself
      rw [counts]
      refine ⟨fun h => ?_, fun h => absurd h.2.1 hfraction⟩
      have hcount := (List.cons.inj h).1
      unfold Counter.ofUnits wholeUnits packedUnits at hcount
      dsimp only at hcount
      split at hcount <;> split at hcount <;> omega
  · rw [numbersFrom_of_le (not_lt.mp hlt), counts]
    exact ⟨fun h => (List.cons_ne_nil _ _ h).elim, fun h => absurd h.1 hlt⟩

/-! ### All ranges -/

namespace IntRange

/-- The numbers that the counter of a range goes through. -/
def counted (range : IntRange) : List ℤ :=
  counts (packedUnits range.start range.stop range.step)

/-- Whether the counter of a range goes through its numbers. The range has at least one number. With
a step of two digits, it does not start below zero, or it ends with its last number that is not
above zero. With a longer step it has one number, and the digits that run over leave the final value
below the next number of the counter. -/
def isCounted (range : IntRange) : Bool :=
  range.start < range.stop ∧
    if range.step < 100 then
      0 ≤ range.start ∨ -(-range.start % range.step) < range.stop ∧
        range.stop ≤ range.step - -range.start % range.step
    else
      packedFraction range.stop range.step < 100000 ∧ range.stop ≤ range.start + range.step ∧
        packedFraction range.stop range.step / 100 < range.start + lastDigits range.step

/-- The counter of a range goes through its numbers exactly if `isCounted` says so. -/
theorem counted_eq_numbers_iff (range : IntRange) (hstop : range.stop ≤ 999)
    (hstep : 1 ≤ range.step) : range.counted = range.numbers ↔ range.isCounted = true := by
  rw [counted, numbers, isCounted, decide_eq_true_iff]
  by_cases hdigits : range.step < 100
  · rw [if_pos hdigits, packedUnits]
    by_cases hstart : range.start < 0
    · rw [if_pos hstart, counts_sub_eq_numbersFrom_iff hstop hstep (by omega) hstart.le,
        or_iff_right (not_le.mpr hstart)]
      have hbound := remainder_le (neg_nonneg.mpr hstart.le) (by omega : 0 < range.step)
      exact ⟨fun h => ⟨by omega, h⟩, And.right⟩
    · rw [if_neg hstart, and_iff_left (Or.inl (not_lt.mp hstart))]
      refine ⟨fun h => ?_, fun hlt =>
        counts_eq_numbersFrom hstop hstep (by omega) (not_lt.mp hstart) hlt⟩
      by_contra hempty
      rw [numbersFrom_of_le (not_lt.mp hempty), counts] at h
      cases h
  · rw [if_neg hdigits, counts_packedUnits_long_iff (by omega)]

end IntRange

end Keystroke
