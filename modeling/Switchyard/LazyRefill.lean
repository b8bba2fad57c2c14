import Mathlib.Algebra.Order.Field.Basic
import Mathlib.Tactic.Linarith
set_option autoImplicit false

/-!
A level that rises at a constant rate up to a ceiling and is computed only when
somebody looks at it.
-/

namespace LazyRefill

variable {K : Type} [Field K] [LinearOrder K]

def refill (cap rate level time : K) : K := min cap (level+time*rate)

variable {cap rate level time : K}

theorem refill_le : refill cap rate level time ≤ level+time*rate := min_le_right _ _

theorem refill_full (h : cap ≤ level+time*rate) : refill cap rate level time = cap := min_eq_left h

theorem refill_zero (h : level ≤ cap) : refill cap rate level 0 = level := by
  simp [refill,h]

theorem refill_refill [IsStrictOrderedRing K] (hrate : 0 ≤ rate) (htime : 0 ≤ time) (before : K) :
    refill cap rate (refill cap rate level before) time = refill cap rate level (before+time) := by
  unfold refill
  rw [add_mul,← add_assoc]
  have hgain : 0 ≤ time*rate := mul_nonneg htime hrate
  rcases le_total cap (level+before*rate) with h | h
  · rw [min_eq_left h,min_eq_left (by linarith),min_eq_left (by linarith)]
  · rw [min_eq_right h]

end LazyRefill
