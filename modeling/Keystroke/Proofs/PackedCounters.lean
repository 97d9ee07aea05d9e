import Mathlib.Tactic.FieldSimp
import Mathlib.Tactic.Ring
import Keystroke.Proofs.Device

/-!
# Packed loop counters

A routine packs the start, the end and the step of a loop into one number, which the calculator then
counts up. The number has five digits after the point, so that in units of the last of them it is a
whole number, and its fields are quotients and remainders.
-/

namespace Keystroke

variable {stop step : ℤ}

/-! ### Numbers with five digits after the point -/

/-- The number with a given number of units in the fifth digit after the point. -/
def ofUnits (n : ℤ) : ℚ :=
  n / 100000

theorem ofUnits_add (n m : ℤ) : ofUnits (n + m * 100000) = ofUnits n + m := by
  unfold ofUnits
  push_cast
  ring

theorem abs_ofUnits (n : ℤ) : |ofUnits n| = ((n.natAbs : ℤ) : ℚ) / 100000 := by
  rw [ofUnits, abs_div, Int.natCast_natAbs, Int.cast_abs,
    abs_of_pos (by norm_num : (0 : ℚ) < 100000)]

/-- The whole part of a number, in units. -/
def wholeUnits (n : ℤ) : ℤ :=
  if 0 ≤ n then n / 100000 else -(-n / 100000)

theorem whole_ofUnits (n : ℤ) : whole (ofUnits n) = wholeUnits n := by
  have hfloor : ∀ m : ℤ, ⌊(m : ℚ) / 100000⌋ = m / 100000 := fun m => by
    exact_mod_cast Rat.floor_intCast_div_natCast m 100000
  have hsign : 0 ≤ ofUnits n ↔ 0 ≤ n := by
    rw [ofUnits, le_div_iff₀ (by norm_num), zero_mul]
    exact Int.cast_nonneg_iff
  unfold whole wholeUnits
  split
  · rename_i hn
    rw [if_pos (hsign.mp hn), ofUnits, hfloor]
  · rename_i hn
    rw [if_neg (fun h => hn (hsign.mpr h)), ← neg_inj, ← Int.floor_neg, ofUnits, ← neg_div, neg_neg,
      ← Int.cast_neg, hfloor]

namespace Counter

/-- The counter in a number of units. -/
def ofUnits (n : ℤ) : Counter where
  count := wholeUnits n
  final := n.natAbs / 100 % 1000
  increment := n.natAbs % 100

theorem ofNumber_ofUnits (n : ℤ) : ofNumber (Keystroke.ofUnits n) = ofUnits n := by
  have hfinal : |Keystroke.ofUnits n| * 1000 = ((n.natAbs : ℤ) : ℚ) / (100 : ℕ) := by
    rw [abs_ofUnits]
    ring
  have hincrement : |Keystroke.ofUnits n| * 100000 = ((n.natAbs : ℤ) : ℚ) := by
    rw [abs_ofUnits]
    ring
  unfold ofNumber ofUnits
  rw [whole_ofUnits, hfinal, Rat.floor_intCast_div_natCast, hincrement]
  rfl

/-- The fields of a counter that is not below zero. -/
theorem ofUnits_add {count fraction : ℤ} (hcount : 0 ≤ count) (hfraction : 0 ≤ fraction)
    (hdigits : fraction < 100000) :
    ofUnits (count * 100000 + fraction) = ⟨count, fraction / 100, fraction % 100⟩ := by
  unfold ofUnits wholeUnits
  rw [Counter.mk.injEq]
  omega

/-- The fields of a counter that is not above zero. -/
theorem ofUnits_sub {count fraction : ℤ} (hcount : count ≤ 0) (hfraction : 0 ≤ fraction)
    (hdigits : fraction < 100000) :
    ofUnits (count * 100000 - fraction) = ⟨count, fraction / 100, fraction % 100⟩ := by
  unfold ofUnits wholeUnits
  rw [Counter.mk.injEq]
  by_cases hzero : 0 ≤ count * 100000 - fraction
  · rw [if_pos hzero]
    omega
  · rw [if_neg hzero]
    omega

/-- A counter goes up by at least one. -/
theorem stride_ofUnits_pos (n : ℤ) : 0 < (ofUnits n).stride := by
  unfold stride ofUnits
  dsimp only
  split <;> omega

end Counter

/-! ### The routine -/

/-- The final value of a counter that ends in front of a number, as a fraction. It is not below
zero. -/
def packedLimit (stop : ℚ) : ℚ :=
  if (stop - 1) / 1000 < 0 then 0 else (stop - 1) / 1000

/-- The number that stands for a counter. Below zero the fraction is taken away. -/
def packed (start stop step : ℚ) : ℚ :=
  if start < 0 then start - (step / 100000 + packedLimit stop)
  else start + (step / 100000 + packedLimit stop)

namespace Hardware

open Routine (packCounter rangeError)

variable {h : Hardware} {d : Device} {start stop step : ℚ} {t : Datum}

/-- The calculator after a counter has been packed. -/
def afterPacking (d : Device) (start stop step : ℚ) (t : Datum) : Device :=
  (d.put (.named Reserved.counterSaveVariable) t).holding
    ⟨.number (packed start stop step), t, .number (packedLimit stop), .number start⟩

/-- The calculator in front of the test of the end. -/
def testingEnd (d : Device) (start stop step : ℚ) (t : Datum) : Device :=
  (d.put (.named Reserved.counterSaveVariable) t).holding
    ⟨.number 999, .number stop, .number start, .number step⟩

/-- The lines up to the test of the end, and the test. It skips the report exactly if the end is
within its limit. -/
theorem goes_packCounter_test (d : Device) (start stop step : ℚ) (t : Datum) :
    h.Goes packCounter.code (d.holding ⟨.number step, .number stop, .number start, t⟩, 0)
      (testingEnd d start stop step t, if 999 < stop then 5 else 6) := by
  have hstart : h.Goes packCounter.code
      (d.holding ⟨.number step, .number stop, .number start, t⟩, 0)
      (testingEnd d start stop step t, 4) := .advanceFor (n := 4) rfl
  exact hstart.trans (.test rfl rfl nofun rfl)

/-- The final value takes the place of the end. It is set to zero where it would be below. -/
theorem goes_packCounter_limit (d : Device) (start stop step : ℚ) :
    h.Goes packCounter.code
      (d.holding ⟨.number 999, .number stop, .number start, .number step⟩, 6)
      (d.holding ⟨.number (packedLimit stop), .number start, .number step, .number step⟩, 13) := by
  have hbefore : h.Goes packCounter.code
      (d.holding ⟨.number 999, .number stop, .number start, .number step⟩, 6)
      (d.holding ⟨.number ((stop - 1) / 1000), .number start, .number step, .number step⟩, 11) :=
    .advanceFor (n := 5) rfl
  refine (hbefore.trans (.test rfl rfl nofun rfl)).trans ?_
  rw [packedLimit]
  by_cases hnegative : (stop - 1) / 1000 < 0
  · rw [if_pos hnegative, if_pos hnegative]
    exact .advance rfl
  · rw [if_neg hnegative, if_neg hnegative]
    exact .refl

/-- The fraction is put together, and is added to the start or taken away from it. -/
theorem goes_packCounter_sum (d : Device) (start stop step : ℚ) :
    h.Goes packCounter.code
      (d.holding ⟨.number (packedLimit stop), .number start, .number step, .number step⟩, 13)
      (d.holding ⟨.number (packed start stop step), .number (packedLimit stop), .number start,
        .number start⟩, 26) := by
  rw [packed]
  generalize packedLimit stop = limit
  have hbefore : h.Goes packCounter.code
      (d.holding ⟨.number limit, .number start, .number step, .number step⟩, 13)
      (d.holding ⟨.number start, .number (step / 100000 + limit), .number start, .number limit⟩,
        18) := .advanceFor (n := 5) rfl
  refine (hbefore.trans (.test rfl rfl nofun rfl)).trans ?_
  by_cases hnegative : start < 0
  · rw [if_pos hnegative, if_pos hnegative]
    -- over the jump to the line that subtracts
    exact .advanceFor (n := 4) rfl
  · rw [if_neg hnegative, if_neg hnegative]
    exact .advanceFor (n := 3) rfl

/-- An end within the limit is packed, with no call on the way. -/
theorem goes_packCounter (d : Device) (start stop step : ℚ) (t : Datum) (hstop : stop ≤ 999) :
    h.Goes packCounter.code (d.holding ⟨.number step, .number stop, .number start, t⟩, 0)
      (afterPacking d start stop step t, 29) := by
  have htest := goes_packCounter_test (h := h) d start stop step t
  rw [if_neg (not_lt.mpr hstop)] at htest
  refine htest.trans ((goes_packCounter_limit _ start stop step).trans ?_)
  refine (goes_packCounter_sum _ start stop step).trans ?_
  -- the value that was below the three numbers comes back to the level under the counter
  have hsaved := Device.registers_put_self d (.named Reserved.counterSaveVariable) t
  refine Goes.trans (.advance rfl : h.Goes _ _ (_, 27)) ?_
  exact .trans (.recalls rfl (by rwa [Device.registers_holding])) (.advance rfl)

theorem performs_packCounter (d : Device) (start stop step : ℚ) (t : Datum) (hstop : stop ≤ 999) :
    h.Performs packCounter (d.holding ⟨.number step, .number stop, .number start, t⟩)
      (afterPacking d start stop step t) :=
  performs_of_goes (goes_packCounter d start stop step t hstop) rfl

end Hardware

/-! ### Whole numbers -/

/-- The fraction of a packed counter, in units. -/
def packedFraction (stop step : ℤ) : ℤ :=
  max (stop - 1) 0 * 100 + step

/-- A packed counter, in units: the fraction has the sign of the number. -/
def packedUnits (start stop step : ℤ) : ℤ :=
  if start < 0 then start * 100000 - packedFraction stop step
  else start * 100000 + packedFraction stop step

theorem packedLimit_intCast (stop : ℤ) :
    packedLimit stop = ((max (stop - 1) 0 : ℤ) : ℚ) / 1000 := by
  have hsign : ((stop : ℚ) - 1) / 1000 < 0 ↔ stop - 1 < 0 := by
    rw [div_lt_iff₀ (by norm_num)]
    exact_mod_cast Iff.rfl
  rw [packedLimit]
  by_cases hnegative : stop - 1 < 0
  · rw [if_pos (hsign.mpr hnegative), max_eq_right hnegative.le, Int.cast_zero, zero_div]
  · rw [if_neg (mt hsign.mp hnegative), max_eq_left (not_lt.mp hnegative)]
    push_cast
    rfl

theorem packed_intCast (start stop step : ℤ) :
    packed start stop step = ofUnits (packedUnits start stop step) := by
  have hfraction : (step : ℚ) / 100000 + packedLimit stop =
      (packedFraction stop step : ℚ) / 100000 := by
    rw [packedLimit_intCast, packedFraction]
    push_cast
    ring
  rw [packed, hfraction, packedUnits, ofUnits]
  by_cases hstart : start < 0
  · rw [if_pos (Int.cast_lt_zero.mpr hstart), if_pos hstart]
    push_cast
    ring
  · rw [if_neg (mt Int.cast_lt_zero.mp hstart), if_neg hstart]
    push_cast
    ring

/-- The digits of the final value and of the step, where none runs into the next field. -/
theorem packedFraction_fields (hstop : stop ≤ 999) (hstep : 1 ≤ step) (hdigits : step ≤ 99) :
    packedFraction stop step / 100 = max (stop - 1) 0 ∧ packedFraction stop step % 100 = step ∧
      0 ≤ packedFraction stop step ∧ packedFraction stop step < 100000 := by
  unfold packedFraction
  omega

/-- The fields of a packed counter, where its fraction does not run over into the number. -/
theorem Counter.ofUnits_packedFraction (start : ℤ) (hnonneg : 0 ≤ packedFraction stop step)
    (hfraction : packedFraction stop step < 100000) :
    Counter.ofUnits (packedUnits start stop step) =
      ⟨start, packedFraction stop step / 100, packedFraction stop step % 100⟩ := by
  rw [packedUnits]
  by_cases hstart : start < 0
  · rw [if_pos hstart, ofUnits_sub hstart.le hnonneg hfraction]
  · rw [if_neg hstart, ofUnits_add (not_lt.mp hstart) hnonneg hfraction]

theorem Counter.ofUnits_packedUnits {start : ℤ} (hstop : stop ≤ 999) (hstep : 1 ≤ step)
    (hdigits : step ≤ 99) :
    Counter.ofUnits (packedUnits start stop step) = ⟨start, max (stop - 1) 0, step⟩ := by
  obtain ⟨hfinal, hincrement, hnonneg, hfraction⟩ := packedFraction_fields hstop hstep hdigits
  rw [ofUnits_packedFraction start hnonneg hfraction, hfinal, hincrement]

/-! ### The contract of the routine -/

open Hardware

open Routine (packCounter rangeError)

/-- From a stack with the step, the end, the start and any value below them, the routine comes to
its return with no call on the way, if the end is within the limit and the step has two digits. The
value is then in Y, over it stands a number that reads as the counter, and outside of the stack only
the routine's own variable has changed. With an end beyond the limit it calls the routine that
reports it. -/
theorem pack_counter_exact (h : Hardware) (d : Device) (callers : List Frame) (start stop step : ℤ)
    (t : Datum) :
    (stop ≤ 999 → 1 ≤ step → step ≤ 99 → ∃ value z w line,
      h.Path (InFrame packCounter.code callers)
        ⟨d.holding ⟨.number step, .number stop, .number start, t⟩, ⟨packCounter.code, 0⟩ :: callers⟩
        ⟨(d.put (.named Reserved.counterSaveVariable) t).holding ⟨.number value, t, z, w⟩,
          ⟨packCounter.code, line⟩ :: callers⟩ ∧
      InstrAt packCounter.code line (.op .returns) ∧
      Counter.ofNumber value = ⟨start, max (stop - 1) 0, step⟩) ∧
    (999 < stop → ∃ d' line,
      h.Path (InFrame packCounter.code callers)
        ⟨d.holding ⟨.number step, .number stop, .number start, t⟩, ⟨packCounter.code, 0⟩ :: callers⟩
        ⟨d', ⟨packCounter.code, line⟩ :: callers⟩ ∧
      h.step ⟨d', ⟨packCounter.code, line⟩ :: callers⟩ =
        some ⟨d', ⟨rangeError.code, 0⟩ :: ⟨packCounter.code, line + 1⟩ :: callers⟩) := by
  refine ⟨fun hstop hstep hdigits => ?_, fun hstop => ?_⟩
  · have hlimit : (stop : ℚ) ≤ 999 := by exact_mod_cast hstop
    refine ⟨packed start stop step, .number (packedLimit stop), .number start, 29,
      (goes_packCounter d start stop step t hlimit).path, rfl, ?_⟩
    rw [packed_intCast, Counter.ofNumber_ofUnits, Counter.ofUnits_packedUnits hstop hstep hdigits]
  · have hlimit : (999 : ℚ) < stop := by exact_mod_cast hstop
    have htest := goes_packCounter_test (h := h) d start stop step t
    rw [if_pos hlimit] at htest
    exact ⟨_, 5, htest.path, step_of_call rfl⟩

/-- From −3 to 5 in steps of 2, over a text, and an end just beyond the limit. -/
theorem pack_counter_exact_below_zero :
    (∃ value z w line,
      bare.Path (InFrame packCounter.code [])
        ⟨Device.blank.holding ⟨.number (2 : ℤ), .number (5 : ℤ), .number (-3 : ℤ), .text "below"⟩,
          [⟨packCounter.code, 0⟩]⟩
        ⟨(Device.blank.put (.named Reserved.counterSaveVariable) (.text "below")).holding
          ⟨.number value, .text "below", z, w⟩, [⟨packCounter.code, line⟩]⟩ ∧
      InstrAt packCounter.code line (.op .returns) ∧
      Counter.ofNumber value = ⟨-3, 4, 2⟩) ∧
    (∃ d' line,
      bare.Path (InFrame packCounter.code [])
        ⟨Device.blank.holding ⟨.number (1 : ℤ), .number (1000 : ℤ), .number (0 : ℤ), .text "below"⟩,
          [⟨packCounter.code, 0⟩]⟩
        ⟨d', [⟨packCounter.code, line⟩]⟩ ∧
      bare.step ⟨d', [⟨packCounter.code, line⟩]⟩ =
        some ⟨d', [⟨rangeError.code, 0⟩, ⟨packCounter.code, line + 1⟩]⟩) :=
  ⟨(pack_counter_exact bare .blank [] (-3) 5 2 (.text "below")).1 (by decide)
    (by decide) (by decide),
    (pack_counter_exact bare .blank [] 0 1000 1 (.text "below")).2 (by decide)⟩

end Keystroke
