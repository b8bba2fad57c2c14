import Mathlib.Algebra.Order.Group.Defs
import Mathlib.Tactic.GCongr
set_option autoImplicit false

/-!
How far a sequence of readings climbs in all, against how far its peak lies
above its start. The two agree exactly on the sequences that never rise again
once they have fallen.
-/

namespace Climb

section Shape

variable {K : Type} [LinearOrder K]

def peak : K → List K → K
  | x,[] => x
  | x,y :: ys => max x (peak y ys)

def Falls : K → List K → Prop
  | _,[] => True
  | x,y :: ys => y ≤ x ∧ Falls y ys

/-- Once the readings fall they never rise again. -/
def RisesThenFalls : K → List K → Prop
  | _,[] => True
  | x,y :: ys => x ≤ y ∧ RisesThenFalls y ys ∨ y ≤ x ∧ Falls y ys

variable {x : K} {ys : List K}

theorem Falls.risesThenFalls (h : Falls x ys) : RisesThenFalls x ys := by
  cases ys with
  | nil => trivial
  | cons y ys => exact .inr h

theorem le_peak (x : K) (ys : List K) : x ≤ peak x ys := by
  cases ys with
  | nil => exact le_refl x
  | cons y ys => exact le_max_left _ _

end Shape

variable {K : Type} [AddCommGroup K] [LinearOrder K]

def climb : K → List K → K
  | _,[] => 0
  | x,y :: ys => max 0 (y-x)+climb y ys

theorem climb_replicate (n : Nat) (x : K) (ys : List K) :
    climb x (List.replicate n x ++ ys) = climb x ys := by
  induction n with
  | zero => rfl
  | succ n ih => rw [List.replicate_succ,List.cons_append,climb,ih,sub_self,max_self,zero_add]

variable [IsOrderedAddMonoid K] {x y : K} {ys : List K}

theorem climb_nonneg (x : K) (ys : List K) : 0 ≤ climb x ys := by
  induction ys generalizing x with
  | nil => exact le_refl 0
  | cons y ys ih => exact add_nonneg (le_max_left _ _) (ih y)

theorem climb_eq_zero_iff : climb x ys = 0 ↔ Falls x ys := by
  induction ys generalizing x with
  | nil => simp [climb,Falls]
  | cons y ys ih =>
    rw [climb,add_eq_zero_iff_of_nonneg (le_max_left _ _) (climb_nonneg y ys),ih,
      max_eq_left_iff,sub_nonpos]
    rfl

theorem climb_rise (h : x ≤ y) (ys : List K) : climb x (y :: ys) = (y-x)+climb y ys := by
  rw [climb,max_eq_right (sub_nonneg.2 h)]

theorem climb_fall (h : y ≤ x) (ys : List K) : climb x (y :: ys) = climb y ys := by
  rw [climb,max_eq_left (sub_nonpos.2 h),zero_add]

theorem peak_le (x : K) (ys : List K) : peak x ys ≤ x+climb x ys := by
  induction ys generalizing x with
  | nil => simp [peak,climb]
  | cons y ys ih =>
    have hnonneg := climb_nonneg y ys
    have hpeak := ih y
    obtain h | h := le_total x y
    · rw [climb_rise h,peak,← add_assoc,add_sub_cancel]
      exact max_le (h.trans (le_add_of_nonneg_right hnonneg)) hpeak
    · rw [climb_fall h,peak]
      exact max_le (le_add_of_nonneg_right hnonneg) (hpeak.trans (by gcongr))

/-- After a fall the peak makes up for no climb at all. -/
theorem climb_le_peak_fall_iff (h : y < x) : x+climb y ys ≤ max x (peak y ys) ↔ Falls y ys := by
  have hpeak := peak_le y ys
  rw [← climb_eq_zero_iff]
  constructor
  · intro hle
    obtain hle | hle := le_max_iff.1 hle
    · exact le_antisymm (by simpa using hle) (climb_nonneg y ys)
    · have hlow : x+climb y ys ≤ y+climb y ys := hle.trans hpeak
      exact absurd (le_of_add_le_add_right hlow) (not_le.2 h)
  · intro hzero
    rw [hzero,add_zero]
    exact le_max_left _ _

theorem climb_le_peak_iff : x+climb x ys ≤ peak x ys ↔ RisesThenFalls x ys := by
  induction ys generalizing x with
  | nil => simp [climb,peak,RisesThenFalls]
  | cons y ys ih =>
    have hpeak := le_peak y ys
    rcases lt_trichotomy x y with h | rfl | h
    · rw [climb_rise h.le,peak,max_eq_right (h.le.trans hpeak),← add_assoc,add_sub_cancel,ih]
      simp [RisesThenFalls,h.le,not_le.2 h]
    · rw [climb_fall (le_refl x),peak,max_eq_right hpeak,ih]
      simpa [RisesThenFalls] using Falls.risesThenFalls
    · rw [climb_fall h.le,peak,climb_le_peak_fall_iff h]
      simp [RisesThenFalls,h.le,not_le.2 h]

end Climb
