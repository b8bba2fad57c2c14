import Switchyard.CircuitBreaker
set_option autoImplicit false

/-!
The cooldown of the n-th consecutive opening against the doubling rule over
unbounded integers. The shift is an int64 and the guard after it looks only at
the sign and the size of what is left.
-/

namespace Switchyard.Resilience
open MachineInt

namespace BreakerConfig

variable (cfg : BreakerConfig)

def exponent (n : Int) : Nat := (min (n-1) maxCooldownExponent).toNat

def doubled (n : Int) : Int := cfg.cooldownBase*2^exponent n

def idealCooldown (n : Int) : Int := min cfg.cooldownMax (cfg.doubled n)

/-- The shift leaves the range of int64 and what is left passes for a cooldown. -/
def WrapsShort (n : Int) : Prop :=
  9223372036854775807 < cfg.doubled n ∧ 0 < wrap (cfg.doubled n) ∧
    wrap (cfg.doubled n) < cfg.cooldownMax

instance (n : Int) : Decidable (cfg.WrapsShort n) := inferInstanceAs (Decidable (_ ∧ _))

variable {cfg} {n m : Int}

theorem exponent_le (n : Int) : exponent n ≤ 20 := by
  unfold exponent maxCooldownExponent
  omega

theorem exponent_mono (h : n ≤ m) : exponent n ≤ exponent m := by
  unfold exponent
  omega

theorem doubled_mono (h : n ≤ m) : cfg.doubled n ≤ cfg.doubled m := by
  have hpow : (2 : Int)^exponent n ≤ 2^exponent m := pow_le_pow_right₀ (by omega) (exponent_mono h)
  exact mul_le_mul_of_nonneg_left hpow cfg.cooldownBase_pos.le

theorem cooldownBase_le_doubled (n : Int) : cfg.cooldownBase ≤ cfg.doubled n := by
  have hpow : (1 : Int) ≤ 2^exponent n := one_le_pow₀ (by omega)
  exact le_mul_of_one_le_right cfg.cooldownBase_pos.le hpow

theorem idealCooldown_of_wide (h : 9223372036854775807 < cfg.doubled n) :
    cfg.idealCooldown n = cfg.cooldownMax := min_eq_left (cfg.cooldownMax_range.trans h.le)

theorem cooldownBase_le_ideal (n : Int) : cfg.cooldownBase ≤ cfg.idealCooldown n :=
  le_min cfg.cooldownBase_le (cooldownBase_le_doubled n)

theorem idealCooldown_mono (h : n ≤ m) : cfg.idealCooldown n ≤ cfg.idealCooldown m :=
  min_le_min_left _ (doubled_mono h)

/-- Up to 2^44 ns the shift loses at most its sign. -/
theorem not_wrapsShort_of_le (hbase : cfg.cooldownBase ≤ 2^44) (n : Int) : ¬cfg.WrapsShort n := by
  rintro ⟨hwide,hpos,-⟩
  have hpow : (2 : Int)^exponent n ≤ 2^20 := pow_le_pow_right₀ (by omega) (exponent_le n)
  have hdoubled : cfg.doubled n ≤ 2^44*2^20 := mul_le_mul hbase hpow (by positivity) (by positivity)
  unfold wrap at hpos
  omega

end BreakerConfig

variable {cfg : BreakerConfig} {n : Int}

theorem nextCooldown_eq (hn : 1 ≤ n) :
    nextCooldown cfg n =
      if wrap (cfg.doubled n) ≤ 0 ∨ cfg.cooldownMax < wrap (cfg.doubled n)
      then cfg.cooldownMax else wrap (cfg.doubled n) := by
  have hexp : (min maxCooldownExponent (max 0 (n-1))).toNat = BreakerConfig.exponent n := by
    unfold BreakerConfig.exponent
    omega
  simp only [nextCooldown,hexp]
  rfl

theorem nextCooldown_eq_ideal_iff (hn : 1 ≤ n) :
    nextCooldown cfg n = cfg.idealCooldown n ↔ ¬cfg.WrapsShort n := by
  have hbase := cfg.cooldownBase_pos
  have hdoubled : cfg.cooldownBase ≤ cfg.doubled n := BreakerConfig.cooldownBase_le_doubled n
  rw [nextCooldown_eq hn]
  by_cases hwide : 9223372036854775807 < cfg.doubled n
  · rw [BreakerConfig.idealCooldown_of_wide hwide]
    unfold BreakerConfig.WrapsShort
    split <;> omega
  · have hwrap : wrap (cfg.doubled n) = cfg.doubled n := wrap_eq (by unfold InRange; omega)
    unfold BreakerConfig.WrapsShort BreakerConfig.idealCooldown
    rw [hwrap]
    split <;> omega

/-- `nextCooldown` follows the doubling rule at an opening exactly where the
shift does not wrap to a shorter cooldown; where it never does, cooldowns lie
between base and cap and never shrink. Bases up to 2^44 ns never wrap so. -/
theorem nextCooldown_doubles (cfg : BreakerConfig) :
    (∀ n,1 ≤ n → (nextCooldown cfg n = cfg.idealCooldown n ↔ ¬cfg.WrapsShort n)) ∧
    ((∀ n,1 ≤ n → ¬cfg.WrapsShort n) → ∀ n,1 ≤ n →
      cfg.cooldownBase ≤ nextCooldown cfg n ∧ nextCooldown cfg n ≤ cfg.cooldownMax ∧
      ∀ m,n ≤ m → nextCooldown cfg n ≤ nextCooldown cfg m) ∧
    (cfg.cooldownBase ≤ 2^44 → ∀ n,¬cfg.WrapsShort n) := by
  refine ⟨fun n hn => nextCooldown_eq_ideal_iff hn,?_,BreakerConfig.not_wrapsShort_of_le⟩
  intro hnever n hn
  have hideal : ∀ m,1 ≤ m → nextCooldown cfg m = cfg.idealCooldown m :=
    fun m hm => (nextCooldown_eq_ideal_iff hm).2 (hnever m hm)
  refine ⟨?_,nextCooldown_le cfg n,fun m hm => ?_⟩
  · rw [hideal n hn]
    exact BreakerConfig.cooldownBase_le_ideal n
  · rw [hideal n hn,hideal m (hn.trans hm)]
    exact BreakerConfig.idealCooldown_mono hm

/-- One nanosecond more than 2^44, which is a little under five hours. -/
def fiveHours : BreakerConfig :=
  ⟨5,1,2^44+1,2^45,1,1,1,by decide,by decide,by decide,by decide,by decide,by decide,by decide,
    by decide⟩

/-- The 21st opening waits a millisecond, less than the first. -/
theorem nextCooldown_wraps :
    fiveHours.WrapsShort 21 ∧ nextCooldown fiveHours 21 = 2^20 ∧
      fiveHours.idealCooldown 21 = 2^45 ∧
      nextCooldown fiveHours 21 < fiveHours.cooldownBase ∧
      nextCooldown fiveHours 21 < nextCooldown fiveHours 20 := by
  decide +kernel

def defaultBreaker : BreakerConfig :=
  ⟨5,30000000000,10000000000,300000000000,2,150000000000,500000000,by decide,by decide,by decide,
    by decide,by decide,by decide,by decide,by decide⟩

theorem nextCooldown_doubles_default :
    nextCooldown defaultBreaker 3 = defaultBreaker.idealCooldown 3 ∧
      defaultBreaker.cooldownBase ≤ nextCooldown defaultBreaker 3 ∧
      nextCooldown defaultBreaker 3 ≤ nextCooldown defaultBreaker 7 := by
  obtain ⟨heq,hbounds,hshort⟩ := nextCooldown_doubles defaultBreaker
  have hnever : ∀ n,¬defaultBreaker.WrapsShort n := hshort (by decide)
  obtain ⟨hbase,-,hmono⟩ := hbounds (fun n _ => hnever n) 3 (by decide)
  exact ⟨(heq 3 (by decide)).2 (hnever 3),hbase,hmono 7 (by decide)⟩

end Switchyard.Resilience
