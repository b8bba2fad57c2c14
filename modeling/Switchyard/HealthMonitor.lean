import Switchyard.Binary64
import Switchyard.FallbackChain
import Mathlib.Data.List.Sort
set_option autoImplicit false

/-!
The health of one provider (internal/health: passive.go, status.go): the rolling
window of its real calls, and the status computed from pings, window and
breakers. A float64 is the rational it denotes.
-/

namespace Switchyard.Health
open Resilience

structure Sample where
  time : Int
  latency : Int
  failed : Bool
  timeout : Bool
  deriving DecidableEq, Repr

abbrev Window := List Sample

def windowCapacity : Nat := 100

def windowDuration : Int := 60000000000

def Window.record (w : Window) (s : Sample) : Window := (s :: w).take windowCapacity

def sampleOf (now latency : Int) (err : Option Fault) : Sample :=
  ⟨now,latency,err.isSome,(err.bind asProviderError).any (·.kind = .timeout)⟩

structure Stats where
  count : Nat
  errorRate : ℚ
  timeoutRate : ℚ
  p99Latency : Int
  deriving DecidableEq, Repr

def Window.live (w : Window) (now : Int) : List Sample :=
  w.filter fun s => now-s.time ≤ windowDuration

/-- `float64(k) / float64(n)`. -/
def rate (k n : Nat) : ℚ := Binary64.round (Binary64.round k/Binary64.round n)

/-- `int(float64(n) * 0.99)`, kept below n. -/
def p99Index (n : Nat) : Nat :=
  let i := ⌊Binary64.round (Binary64.round n*Binary64.round (99/100))⌋.toNat
  if n ≤ i then n-1 else i

def Window.stats (w : Window) (now : Int) : Stats :=
  let live := w.live now
  if live = [] then ⟨0,0,0,0⟩
  else
    let n := live.length
    let latencies := (live.map (·.latency)).insertionSort (· ≤ ·)
    ⟨n,rate (live.countP (·.failed)) n,rate (live.countP (·.timeout)) n,
      (latencies[p99Index n]?).getD 0⟩

/-- A `MonitorConfig` that `validate` accepted. -/
structure MonitorConfig where
  degradedErrorRate : ℚ
  downErrorRate : ℚ
  downConsecutiveFailures : Int
  recoveryStreak : Int
  degraded_pos : 0 < degradedErrorRate
  degraded_lt : degradedErrorRate < 1
  down_lt : downErrorRate < 1
  degraded_down : degradedErrorRate < downErrorRate
  failures_pos : 0 < downConsecutiveFailures
  streak_pos : 0 < recoveryStreak

abbrev MonitorConfig.of {degradedErrorRate downErrorRate : ℚ} {failures streak : Int}
    (h : (0 < degradedErrorRate ∧ degradedErrorRate < 1 ∧ downErrorRate < 1 ∧
      degradedErrorRate < downErrorRate) ∧ 0 < failures ∧ 0 < streak) : MonitorConfig :=
  ⟨degradedErrorRate,downErrorRate,failures,streak,h.1.1,h.1.2.1,h.1.2.2.1,h.1.2.2.2,h.2.1,h.2.2⟩

def MonitorConfig.validate (printFloat : ℚ → String) (degradedErrorRate downErrorRate : ℚ)
    (downConsecutiveFailures recoveryStreak : Int) : Except String MonitorConfig :=
  if h₁ : degradedErrorRate ≤ 0 ∨ 1 ≤ degradedErrorRate then
    .error s!"health monitor: degraded error rate must be in (0, 1), got {printFloat degradedErrorRate}"
  else if h₂ : downErrorRate ≤ 0 ∨ 1 ≤ downErrorRate then
    .error s!"health monitor: down error rate must be in (0, 1), got {printFloat downErrorRate}"
  else if h₃ : downErrorRate ≤ degradedErrorRate then
    .error (s!"health monitor: down error rate ({printFloat downErrorRate}) must exceed " ++
      s!"degraded error rate ({printFloat degradedErrorRate})")
  else if h₄ : downConsecutiveFailures ≤ 0 then
    .error s!"health monitor: down consecutive failures must be positive, got {downConsecutiveFailures}"
  else if h₅ : recoveryStreak ≤ 0 then
    .error s!"health monitor: recovery streak must be positive, got {recoveryStreak}"
  else
    .ok ⟨degradedErrorRate,downErrorRate,downConsecutiveFailures,recoveryStreak,
      not_le.1 fun h => h₁ (.inl h),not_le.1 fun h => h₁ (.inr h),not_le.1 fun h => h₂ (.inr h),
      not_le.1 h₃,not_le.1 h₄,not_le.1 h₅⟩

structure ProviderState where
  status : Status
  consecutiveFails : Int
  recoveryStreak : Int
  baselineP99 : Int
  haveBaseline : Bool
  deriving DecidableEq, Repr

def ProviderState.new : ProviderState := ⟨.healthy,0,0,0,false⟩

/-- `float64(latency) >= 3.0 * float64(baseline)`. -/
def aboveBaseline (baseline latency : Int) : Bool :=
  Binary64.round (3*Binary64.round baseline) ≤ Binary64.round latency

namespace ProviderState

variable (cfg : MonitorConfig) (st : ProviderState)

def classify (anyOpen : Bool) (stats : Stats) : Status × String :=
  if cfg.downConsecutiveFailures ≤ st.consecutiveFails then (.down,"consecutive_ping_failures")
  else if 0 < stats.count ∧ cfg.downErrorRate ≤ stats.errorRate then
    (.down,"error_rate_hard_threshold")
  else if anyOpen then (.degraded,"circuit_breaker_open")
  else if 0 < stats.count ∧ cfg.degradedErrorRate ≤ stats.errorRate then
    (.degraded,"error_rate_threshold")
  else if st.haveBaseline ∧ 0 < stats.count ∧ aboveBaseline st.baselineP99 stats.p99Latency then
    (.degraded,"p99_above_baseline")
  else (.healthy,"within_thresholds")

/-- Only the way back to healthy takes a streak. -/
def transition (raw : Status) (pingOK : Bool) : ProviderState :=
  if raw ≠ .healthy then { st with status := raw, recoveryStreak := 0 }
  else if st.status = .healthy then st
  else if !pingOK then { st with recoveryStreak := 0 }
  else if st.recoveryStreak+1 < cfg.recoveryStreak then
    { st with recoveryStreak := st.recoveryStreak+1 }
  else { st with status := .healthy, recoveryStreak := 0 }

/-- An EMA with factor 0.2, seeded by the first reading. -/
def updateBaseline (stats : Stats) : ProviderState :=
  if stats.count = 0 then st
  else if !st.haveBaseline then { st with baselineP99 := stats.p99Latency, haveBaseline := true }
  else
    let a := Binary64.round (Binary64.round (1/5)*Binary64.round stats.p99Latency)
    let b := Binary64.round (Binary64.round (4/5)*Binary64.round st.baselineP99)
    { st with baselineP99 := MachineInt.convert (Int.tdiv (Binary64.round (a+b)).num
        (Binary64.round (a+b)).den) }

def observe (anyOpen pingOK : Bool) (stats : Stats) : ProviderState :=
  let st := { st with consecutiveFails := if pingOK then 0 else st.consecutiveFails+1 }
  let raw := (st.classify cfg anyOpen stats).1
  (st.transition cfg raw pingOK).updateBaseline stats

end ProviderState

/-- The window holds no failure and no latency at the baseline limit. -/
def Clean (st : ProviderState) (w : Window) (now : Int) : Prop :=
  ∀ s ∈ w.live now,s.failed = false ∧
    (st.haveBaseline = true → aboveBaseline st.baselineP99 s.latency = false)

instance (st : ProviderState) (w : Window) (now : Int) : Decidable (Clean st w now) :=
  inferInstanceAs (Decidable (∀ s ∈ w.live now,_))

section Observing

variable {cfg : MonitorConfig} {st : ProviderState} {w : Window} {now : Int}

theorem p99Index_lt {n : Nat} (hn : 0 < n) : p99Index n < n := by
  unfold p99Index
  simp only []
  split <;> omega

theorem rate_zero (n : Nat) : rate 0 n = 0 := by
  have hzero : Binary64.round 0 = 0 := by decide +kernel
  simp [rate,hzero]

theorem stats_clean (h : Clean st w now) (hcount : 0 < (w.stats now).count) :
    (w.stats now).errorRate = 0 ∧
      (st.haveBaseline = true → aboveBaseline st.baselineP99 (w.stats now).p99Latency = false) := by
  unfold Window.stats at hcount ⊢
  by_cases hempty : w.live now = []
  · simp [hempty] at hcount
  simp only [hempty,if_false]
  have hfailed : (w.live now).countP (·.failed) = 0 :=
    List.countP_eq_zero.2 fun s hs => by simp [(h s hs).1]
  refine ⟨by rw [hfailed]; exact rate_zero _,fun hbase => ?_⟩
  have hlen : 0 < (w.live now).length := List.length_pos_iff.2 hempty
  have hindex : p99Index (w.live now).length <
      (((w.live now).map (·.latency)).insertionSort (· ≤ ·)).length := by
    simpa using p99Index_lt hlen
  have hmem := List.getElem_mem hindex
  rw [List.mem_insertionSort] at hmem
  obtain ⟨s,hs,hlatency⟩ := List.mem_map.1 hmem
  rw [List.getElem?_eq_getElem hindex,Option.getD_some,← hlatency]
  exact (h s hs).2 hbase

theorem classify_clean (h : Clean st w now) (hfails : st.consecutiveFails = 0) (anyOpen : Bool) :
    (st.classify cfg anyOpen (w.stats now)).1 = if anyOpen then .degraded else .healthy := by
  have hpos := cfg.failures_pos
  have hdegraded := not_le.2 cfg.degraded_pos
  have hdown := not_le.2 (cfg.degraded_pos.trans cfg.degraded_down)
  have hbelow : ¬cfg.downConsecutiveFailures ≤ st.consecutiveFails := by omega
  unfold ProviderState.classify
  rw [if_neg hbelow]
  by_cases hcount : 0 < (w.stats now).count
  · obtain ⟨hrate,hbase⟩ := stats_clean h hcount
    have hno : ¬(st.haveBaseline = true ∧ 0 < (w.stats now).count ∧
        aboveBaseline st.baselineP99 (w.stats now).p99Latency = true) := by
      rintro ⟨hhave,_,habove⟩
      simp [hbase hhave] at habove
    cases anyOpen <;> simp [hrate,hdegraded,hdown,hno]
  · cases anyOpen <;> simp [hcount]

@[simp] theorem updateBaseline_status (stats : Stats) :
    (st.updateBaseline stats).status = st.status := by
  unfold ProviderState.updateBaseline
  split
  · rfl
  split <;> rfl

@[simp] theorem updateBaseline_streak (stats : Stats) :
    (st.updateBaseline stats).recoveryStreak = st.recoveryStreak := by
  unfold ProviderState.updateBaseline
  split
  · rfl
  split <;> rfl

theorem observe_clean (h : Clean st w now) (anyOpen : Bool) :
    st.observe cfg anyOpen true (w.stats now) =
      (({ st with consecutiveFails := 0 } : ProviderState).transition cfg
        (if anyOpen then .degraded else .healthy) true).updateBaseline (w.stats now) := by
  have hclean : Clean { st with consecutiveFails := 0 } w now := h
  simp only [ProviderState.observe,if_true]
  rw [classify_clean hclean rfl]

theorem observe_open (h : Clean st w now) :
    (st.observe cfg true true (w.stats now)).status = .degraded ∧
      (st.observe cfg true true (w.stats now)).recoveryStreak = 0 := by
  simp [observe_clean h,ProviderState.transition]

theorem observe_shut (h : Clean st w now) :
    (st.status = .healthy ∧ (st.observe cfg false true (w.stats now)).status = .healthy ∧
        (st.observe cfg false true (w.stats now)).recoveryStreak = st.recoveryStreak) ∨
      (st.status ≠ .healthy ∧ st.recoveryStreak+1 < cfg.recoveryStreak ∧
        (st.observe cfg false true (w.stats now)).status = st.status ∧
        (st.observe cfg false true (w.stats now)).recoveryStreak = st.recoveryStreak+1) ∨
      (st.status ≠ .healthy ∧ cfg.recoveryStreak ≤ st.recoveryStreak+1 ∧
        (st.observe cfg false true (w.stats now)).status = .healthy ∧
        (st.observe cfg false true (w.stats now)).recoveryStreak = 0) := by
  rw [observe_clean h]
  by_cases hstatus : st.status = .healthy
  · exact .inl ⟨hstatus,by simp [ProviderState.transition,hstatus],
      by simp [ProviderState.transition,hstatus]⟩
  by_cases hstreak : st.recoveryStreak+1 < cfg.recoveryStreak
  · exact .inr (.inl ⟨hstatus,hstreak,by simp [ProviderState.transition,hstatus,hstreak],
      by simp [ProviderState.transition,hstatus,hstreak]⟩)
  · exact .inr (.inr ⟨hstatus,not_lt.1 hstreak,by simp [ProviderState.transition,hstatus,hstreak],
      by simp [ProviderState.transition,hstatus,hstreak]⟩)

theorem observe_streak (anyOpen pingOK : Bool) (stats : Stats) (hlow : 0 ≤ st.recoveryStreak)
    (hhigh : st.recoveryStreak < cfg.recoveryStreak) :
    0 ≤ (st.observe cfg anyOpen pingOK stats).recoveryStreak ∧
      (st.observe cfg anyOpen pingOK stats).recoveryStreak < cfg.recoveryStreak := by
  have hpos := cfg.streak_pos
  simp only [ProviderState.observe,updateBaseline_streak]
  generalize (ProviderState.classify cfg _ anyOpen stats).1 = raw
  unfold ProviderState.transition
  repeat' split
  all_goals constructor <;> simp only [] <;> omega

end Observing

end Switchyard.Health
