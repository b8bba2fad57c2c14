import Mathlib.Tactic.Linarith
set_option autoImplicit false

/-!
Two's-complement arithmetic of a 64-bit signed integer type. A machine integer
is an `Int` together with the wrap onto [-2^63, 2^63).
-/

namespace MachineInt

def InRange (x : Int) : Prop := -9223372036854775808 ≤ x ∧ x ≤ 9223372036854775807

instance (x : Int) : Decidable (InRange x) := inferInstanceAs (Decidable (_ ∧ _))

/-- The value a 64-bit signed register holds after computing x. -/
def wrap (x : Int) : Int := (x+9223372036854775808) % 18446744073709551616 - 9223372036854775808

theorem wrap_inRange (x : Int) : InRange (wrap x) := by
  unfold InRange wrap; omega

theorem wrap_eq {x : Int} (h : InRange x) : wrap x = x := by
  unfold InRange at h
  unfold wrap; omega

def add (a b : Int) : Int := wrap (a+b)
def sub (a b : Int) : Int := wrap (a-b)
def mul (a b : Int) : Int := wrap (a*b)

def quo (a b : Int) : Int := wrap (a.tdiv b)

/-- A whole double converted to int64. Outside the range it becomes the least
int64, as on amd64. -/
def convert (x : Int) : Int := if InRange x then x else -9223372036854775808

theorem convert_inRange (x : Int) : InRange (convert x) := by
  unfold convert
  split
  · assumption
  · decide

theorem add_eq {a b : Int} (h : InRange (a+b)) : add a b = a+b := wrap_eq h

theorem sub_eq {a b : Int} (h : InRange (a-b)) : sub a b = a-b := wrap_eq h

theorem sub_nonneg_eq {a b : Int} (ha : 0 ≤ a) (hb : 0 ≤ b) (hra : InRange a) (hrb : InRange b) :
    sub a b = a-b := by
  unfold InRange at hra hrb
  exact sub_eq (by unfold InRange; omega)

/-- Dividing a machine integer by a constant above one never wraps and shrinks
the range by that constant. -/
theorem quo_bound {a b : Int} (ha : InRange a) (hb : 1 < b) :
    quo a b = a.tdiv b ∧ -9223372036854775808 ≤ b*quo a b ∧ b*quo a b ≤ 9223372036854775807 := by
  unfold InRange at ha
  have hlo : -9223372036854775808 ≤ b*a.tdiv b := by
    rcases Int.le_total 0 a with h | h
    · have := Int.mul_nonneg (by omega : 0 ≤ b) (Int.tdiv_nonneg h (by omega : 0 ≤ b))
      omega
    · have h1 := Int.tmod_add_mul_tdiv a b
      have h2 : a.tmod b ≤ 0 := by
        have := Int.tmod_nonneg b (by omega : 0 ≤ -a)
        rw [Int.neg_tmod] at this
        omega
      omega
  have hhi : b*a.tdiv b ≤ 9223372036854775807 := by
    rcases Int.le_total 0 a with h | h
    · have h1 := Int.tmod_add_mul_tdiv a b
      have h2 := Int.tmod_nonneg b h
      omega
    · have h1 : a.tdiv b ≤ 0 := by
        have := Int.tdiv_nonneg (by omega : 0 ≤ -a) (by omega : 0 ≤ b)
        rw [Int.neg_tdiv] at this
        omega
      have := Int.mul_nonneg (by omega : 0 ≤ b) (by omega : 0 ≤ -a.tdiv b)
      rw [Int.mul_neg] at this
      omega
  have hq : InRange (a.tdiv b) := by
    constructor
    · by_contra hc
      have : b*a.tdiv b ≤ 1*a.tdiv b := by
        apply Int.mul_le_mul_of_nonpos_right (by omega) (by omega)
      omega
    · by_contra hc
      have : 1*a.tdiv b ≤ b*a.tdiv b := by
        apply Int.mul_le_mul_of_nonneg_right (by omega) (by omega)
      omega
  rw [quo,wrap_eq hq]
  exact ⟨rfl,hlo,hhi⟩

end MachineInt
