import Mathlib.MeasureTheory.Integral.IntervalIntegral.Basic

/-!
# The integral of a step function

A quantity that is written down, the latest first, each time it may have changed.

* `valueAt` — its value at a time: the latest one written down by then.
* `integral_valueAt_cons` — one more sample adds one rectangle to the integral.
-/

set_option autoImplicit false

namespace StepIntegral

open MeasureTheory

/-- The latest value written down by `t`, and zero before the first. -/
noncomputable def valueAt : List (ℝ × ℝ) → ℝ → ℝ
  | [], _ => 0
  | (time, value) :: older, t => if time ≤ t then value else valueAt older t

theorem valueAt_of_lt {time value t : ℝ} {older : List (ℝ × ℝ)} (h : t < time) :
    valueAt ((time, value) :: older) t = valueAt older t := if_neg (not_le.2 h)

theorem valueAt_of_le {time value t : ℝ} {older : List (ℝ × ℝ)} (h : time ≤ t) :
    valueAt ((time, value) :: older) t = value := if_pos h

variable {start time time' value value' : ℝ} {older : List (ℝ × ℝ)}

/-- Before the latest sample nothing is changed by one more. -/
theorem valueAt_cons_before (value' : ℝ) (htime : time ≤ time') (hstart : start ≤ time) :
    Set.EqOn (valueAt ((time, value) :: older)) (valueAt ((time', value') :: (time, value) :: older))
      (Set.uIoo start time) := by
  intro t ht
  rw [Set.uIoo_of_le hstart, Set.mem_Ioo] at ht
  exact (valueAt_of_lt (ht.2.trans_le htime)).symm

/-- Between the two latest samples the value is that of the first of them. -/
theorem valueAt_cons_between (value' : ℝ) (older : List (ℝ × ℝ)) (htime : time ≤ time') :
    Set.EqOn (fun _ => value) (valueAt ((time', value') :: (time, value) :: older))
      (Set.uIoo time time') := by
  intro t ht
  rw [Set.uIoo_of_le htime, Set.mem_Ioo] at ht
  rw [valueAt_of_lt ht.2, valueAt_of_le ht.1.le]

theorem intervalIntegrable_valueAt_cons (hstart : start ≤ time) (htime : time ≤ time')
    (h : IntervalIntegrable (valueAt ((time, value) :: older)) volume start time) :
    IntervalIntegrable (valueAt ((time', value') :: (time, value) :: older)) volume start time' := by
  have hbefore := h.congr_uIoo (valueAt_cons_before value' htime hstart)
  have hbetween : IntervalIntegrable (fun _ => value) volume time time' :=
    intervalIntegrable_const
  exact hbefore.trans (hbetween.congr_uIoo (valueAt_cons_between value' older htime))

/-- **One more sample** adds the rectangle from the sample before. -/
theorem integral_valueAt_cons (hstart : start ≤ time) (htime : time ≤ time')
    (h : IntervalIntegrable (valueAt ((time, value) :: older)) volume start time) :
    ∫ t in start..time', valueAt ((time', value') :: (time, value) :: older) t =
      (∫ t in start..time, valueAt ((time, value) :: older) t) + (time' - time) * value := by
  have hbefore := h.congr_uIoo (valueAt_cons_before value' htime hstart)
  have hconst : IntervalIntegrable (fun _ => value) volume time time' :=
    intervalIntegrable_const
  have hbetween := hconst.congr_uIoo (valueAt_cons_between value' older htime)
  rw [← intervalIntegral.integral_add_adjacent_intervals hbefore hbetween,
    ← intervalIntegral.integral_congr_uIoo (valueAt_cons_before value' htime hstart),
    ← intervalIntegral.integral_congr_uIoo (valueAt_cons_between value' older htime),
    intervalIntegral.integral_const, smul_eq_mul]

end StepIntegral
