import Mathlib.Data.Int.Log
import Mathlib.Data.Rat.Floor
import Mathlib.Tactic.Linarith
import Mathlib.Tactic.NormNum
set_option autoImplicit false

/-!
Rounding of exact rationals to IEEE binary64, to nearest with ties to even.
Overflow to an infinity is left out: every value handled here is far below
2^1024.
-/

namespace Binary64

/-- The integer nearest x, the even one at a midpoint. -/
def halfEven (x : ℚ) : Int :=
  if x-⌊x⌋ < 1/2 then ⌊x⌋ else if 1/2 < x-⌊x⌋ then ⌊x⌋+1 else ⌊x⌋+⌊x⌋%2

@[simp] theorem halfEven_intCast (n : Int) : halfEven (n : ℚ) = n := by
  simp [halfEven]

theorem halfEven_bounds (x : ℚ) : ⌊x⌋ ≤ halfEven x ∧ halfEven x ≤ ⌊x⌋+1 := by
  unfold halfEven
  split_ifs <;> omega

variable {x : ℚ}

theorem halfEven_mono {y : ℚ} (h : x ≤ y) : halfEven x ≤ halfEven y := by
  have hf := Int.floor_le_floor h
  have hx := halfEven_bounds x
  have hy := halfEven_bounds y
  rcases lt_or_eq_of_le hf with hlt | heq
  · omega
  · -- both lie above the same integer, so only the fractional parts differ
    have hd : x-⌊x⌋ ≤ y-⌊y⌋ := by rw [heq]; linarith
    unfold halfEven
    split_ifs <;> first | omega | (exfalso; linarith)

theorem halfEven_le_of_le {n : Int} (h : x ≤ n) : halfEven x ≤ n := by
  simpa using halfEven_mono h

theorem le_halfEven_of_le {n : Int} (h : (n : ℚ) ≤ x) : n ≤ halfEven x := by
  simpa using halfEven_mono h

/-- Exponent of the last of the 53 significant bits, with gradual underflow. -/
def exponent (x : ℚ) : Int := max (Int.log 2 |x| - 52) (-1074)

/-- The double nearest x, as an exact rational. -/
def round (x : ℚ) : ℚ := halfEven (x/2^exponent x)*2^exponent x

theorem unit_pos (x : ℚ) : (0 : ℚ) < 2^exponent x := zpow_pos (by norm_num) _

theorem exponent_mono {y : ℚ} (hx : 0 < x) (h : x ≤ y) : exponent x ≤ exponent y := by
  have hl : Int.log 2 |x| ≤ Int.log 2 |y| := by
    rw [abs_of_pos hx,abs_of_pos (lt_of_lt_of_le hx h)]
    exact Int.log_mono_right hx h
  unfold exponent; omega

theorem lt_zpow_exponent (hx : 0 < x) : x < 2^(exponent x+53) := by
  have h := Int.lt_zpow_succ_log_self (R := ℚ) Nat.one_lt_two x
  have he : Int.log 2 x+1 ≤ exponent x+53 := by
    unfold exponent; rw [abs_of_pos hx]; omega
  exact lt_of_lt_of_le h (zpow_le_zpow_right₀ (by norm_num) he)

theorem round_le_zpow (hx : 0 < x) : round x ≤ 2^(exponent x+53) := by
  have hp := unit_pos x
  have hs : x/2^exponent x ≤ ((2^53 : Int) : ℚ) := by
    rw [div_le_iff₀ hp]
    have h := (lt_zpow_exponent hx).le
    rw [zpow_add₀ (by norm_num : (2 : ℚ) ≠ 0)] at h
    push_cast
    linarith
  have hr : ((halfEven (x/2^exponent x) : Int) : ℚ) ≤ 2^53 := by
    exact_mod_cast halfEven_le_of_le hs
  rw [zpow_add₀ (by norm_num : (2 : ℚ) ≠ 0)]
  have := mul_le_mul_of_nonneg_right hr hp.le
  unfold round
  norm_num at this ⊢
  linarith

theorem zpow_le_round (hx : 0 < x) (he : -1074 < exponent x) : 2^(exponent x+52) ≤ round x := by
  have hp := unit_pos x
  have hl : exponent x+52 = Int.log 2 x := by
    unfold exponent at he ⊢; rw [abs_of_pos hx] at he ⊢; omega
  have h := Int.zpow_log_le_self (R := ℚ) Nat.one_lt_two hx
  rw [← hl] at h
  push_cast at h
  rw [zpow_add₀ (by norm_num : (2 : ℚ) ≠ 0)] at h ⊢
  have hs : ((2^52 : Int) : ℚ) ≤ x/2^exponent x := by
    rw [le_div_iff₀ hp]
    push_cast
    norm_num at h ⊢
    linarith
  have hr : (2^52 : ℚ) ≤ (halfEven (x/2^exponent x) : Int) := by
    exact_mod_cast le_halfEven_of_le hs
  have := mul_le_mul_of_nonneg_right hr hp.le
  unfold round
  norm_num at this ⊢
  linarith

theorem round_mono {y : ℚ} (hx : 0 < x) (h : x ≤ y) : round x ≤ round y := by
  have hy := lt_of_lt_of_le hx h
  have hp := unit_pos x
  rcases lt_or_eq_of_le (exponent_mono hx h) with hlt | heq
  · -- x rounds to at most the power of two that y has already passed
    have h1 := round_le_zpow hx
    have h2 : (2 : ℚ)^(exponent x+53) ≤ 2^(exponent y+52) :=
      zpow_le_zpow_right₀ (by norm_num) (by omega)
    have h3 := zpow_le_round hy (by unfold exponent at hlt ⊢; omega)
    exact h1.trans (h2.trans h3)
  · unfold round
    rw [← heq]
    have hd : x/2^exponent x ≤ y/2^exponent x := by
      rw [div_le_div_iff_of_pos_right hp]; exact h
    have hm : ((halfEven (x/2^exponent x) : Int) : ℚ) ≤ halfEven (y/2^exponent x) := by
      exact_mod_cast halfEven_mono hd
    exact mul_le_mul_of_nonneg_right hm hp.le

theorem round_nonpos (hx : x ≤ 0) : round x ≤ 0 := by
  have hp := unit_pos x
  have hs : x/2^exponent x ≤ ((0 : Int) : ℚ) := by
    rw [div_le_iff₀ hp]
    simpa using hx
  have hr : ((halfEven (x/2^exponent x) : Int) : ℚ) ≤ 0 := by
    exact_mod_cast halfEven_le_of_le hs
  exact mul_nonpos_of_nonpos_of_nonneg hr hp.le

theorem round_of_multiple {n : Int} (h : x = n*2^exponent x) : round x = x := by
  have hp := (unit_pos x).ne'
  have hs : x/2^exponent x = (n : ℚ) := by
    rw [div_eq_iff hp]; exact h
  rw [round,hs,halfEven_intCast]
  exact h.symm

/-- An integer below 2^53 in absolute value is a double, and so is each of its
halvings down to the last exponent. -/
theorem round_dyadic {n : Int} {k : Nat} (h : |n| < 2^53) (hk : k ≤ 1074) :
    round ((n : ℚ)/2^k) = n/2^k := by
  have hpow : (0 : ℚ) < 2^k := by positivity
  rcases eq_or_ne n 0 with rfl | hne
  · simp [round,halfEven]
  have he : exponent ((n : ℚ)/2^k) ≤ -k := by
    have hl : Int.log 2 |(n : ℚ)/2^k| ≤ 52-k := by
      have hlt : |(n : ℚ)/2^k| < ((2 : ℕ) : ℚ)^(53-k : Int) := by
        have hn : ((|n| : Int) : ℚ) < ((2^53 : Int) : ℚ) := by exact_mod_cast h
        rw [abs_div,abs_of_pos hpow,div_lt_iff₀ hpow]
        push_cast at hn ⊢
        rw [← zpow_natCast,← zpow_add₀ (by norm_num : (2 : ℚ) ≠ 0)]
        norm_num at hn ⊢
        exact hn
      have hpos : (0 : ℚ) < |(n : ℚ)/2^k| :=
        abs_pos.2 (div_ne_zero (by exact_mod_cast hne) hpow.ne')
      have := (Int.lt_zpow_iff_log_lt Nat.one_lt_two hpos).1 hlt
      omega
    unfold exponent
    omega
  -- scaling by an exponent below that multiplies by a whole power of two
  obtain ⟨j,hj⟩ : ∃ j : ℕ,exponent ((n : ℚ)/2^k) = -(k+j : Nat) :=
    ⟨(-k-exponent ((n : ℚ)/2^k)).toNat,by omega⟩
  apply round_of_multiple (n := n*2^j)
  rw [hj,zpow_neg,zpow_natCast,pow_add]
  push_cast
  field_simp

theorem round_intCast {n : Int} (h : |n| < 2^53) : round (n : ℚ) = n := by
  simpa using round_dyadic (k := 0) h (by omega)

example : round 9007199254740993 = 9007199254740992 := by decide +kernel

end Binary64
