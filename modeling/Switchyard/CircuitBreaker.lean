import Switchyard.FallbackChain
set_option autoImplicit false

/-!
One provider and model's circuit breaker (internal/resilience/breaker.go): the
state that its mutex guards. Times and durations are nanoseconds; every function
is given the clock it would read.
-/

namespace Switchyard.Resilience
open MachineInt

/-- A `BreakerConfig` that `validate` accepted. -/
structure BreakerConfig where
  failureThreshold : Int
  window : Int
  cooldownBase : Int
  cooldownMax : Int
  successThreshold : Int
  probeTimeout : Int
  stateCacheTTL : Int
  failureThreshold_pos : 0 < failureThreshold
  window_pos : 0 < window
  cooldownBase_pos : 0 < cooldownBase
  cooldownBase_le : cooldownBase ≤ cooldownMax
  successThreshold_pos : 0 < successThreshold
  probeTimeout_pos : 0 < probeTimeout
  stateCacheTTL_pos : 0 < stateCacheTTL
  cooldownMax_range : cooldownMax ≤ 9223372036854775807

abbrev BreakerConfig.Valid (failureThreshold window cooldownBase cooldownMax successThreshold
    probeTimeout stateCacheTTL : Int) : Prop :=
  (0 < failureThreshold ∧ 0 < window ∧ 0 < cooldownBase ∧ cooldownBase ≤ cooldownMax) ∧
    0 < successThreshold ∧ 0 < probeTimeout ∧ 0 < stateCacheTTL ∧
    cooldownMax ≤ 9223372036854775807

abbrev BreakerConfig.of {failureThreshold window cooldownBase cooldownMax successThreshold
    probeTimeout stateCacheTTL : Int} (h : Valid failureThreshold window cooldownBase cooldownMax
      successThreshold probeTimeout stateCacheTTL) : BreakerConfig :=
  ⟨failureThreshold,window,cooldownBase,cooldownMax,successThreshold,probeTimeout,stateCacheTTL,
    h.1.1,h.1.2.1,h.1.2.2.1,h.1.2.2.2,h.2.1,h.2.2.1,h.2.2.2.1,h.2.2.2.2⟩

def BreakerConfig.validate (printDuration : Int → String) (failureThreshold window cooldownBase
    cooldownMax successThreshold probeTimeout stateCacheTTL : Int)
    (hrange : InRange cooldownMax) : Except String BreakerConfig :=
  if h₁ : failureThreshold ≤ 0 then
    .error s!"circuit breaker: failure threshold must be positive, got {failureThreshold}"
  else if h₂ : window ≤ 0 then
    .error s!"circuit breaker: window must be positive, got {printDuration window}"
  else if h₃ : cooldownBase ≤ 0 then
    .error s!"circuit breaker: cooldown base must be positive, got {printDuration cooldownBase}"
  else if h₄ : cooldownMax < cooldownBase then
    .error (s!"circuit breaker: cooldown max ({printDuration cooldownMax}) must be at least " ++
      s!"cooldown base ({printDuration cooldownBase})")
  else if h₅ : successThreshold ≤ 0 then
    .error s!"circuit breaker: success threshold must be positive, got {successThreshold}"
  else if h₆ : probeTimeout ≤ 0 then
    .error s!"circuit breaker: probe timeout must be positive, got {printDuration probeTimeout}"
  else if h₇ : stateCacheTTL ≤ 0 then
    .error s!"circuit breaker: state cache TTL must be positive, got {printDuration stateCacheTTL}"
  else
    .ok ⟨failureThreshold,window,cooldownBase,cooldownMax,successThreshold,probeTimeout,
      stateCacheTTL,by omega,by omega,by omega,by omega,by omega,by omega,by omega,hrange.2⟩

/-- The fields under `mu`; `store` says whether the breaker has one. -/
structure Breaker where
  state : BreakerState
  failures : List Int
  successStreak : Int
  probeInFlight : Bool
  probeStartedAt : Int
  openedAt : Int
  cooldown : Int
  reopens : Int
  store : Bool
  unpublished : Bool
  deriving DecidableEq, Repr

def newSharedBreaker (cfg : BreakerConfig) (store : Bool) : Breaker :=
  ⟨.closed,[],0,false,0,0,cfg.cooldownBase,0,store,false⟩

def newBreaker (cfg : BreakerConfig) : Breaker := newSharedBreaker cfg false

def maxCooldownExponent : Int := 20

/-- `CooldownBase << exponent` is an int64 and may overflow. -/
def nextCooldown (cfg : BreakerConfig) (reopens : Int) : Int :=
  let exponent := min maxCooldownExponent (max 0 (reopens-1))
  let d := wrap (cfg.cooldownBase*2^exponent.toNat)
  if d ≤ 0 ∨ cfg.cooldownMax < d then cfg.cooldownMax else d

def pruneBefore (ts : List Int) (cutoff : Int) : List Int := ts.dropWhile (· < cutoff)

namespace Breaker

variable (cfg : BreakerConfig) (now : Int) (b : Breaker)

def usesStore : Bool := b.store && !b.unpublished

/-- Every transition frees the probe slot. -/
def setState (next : BreakerState) : Breaker :=
  { b with
    state := next
    openedAt := if next = .open then now else b.openedAt
    probeInFlight := false }

def releaseProbe : Breaker := { b with probeInFlight := false }

/-- A slot held for `ProbeTimeout` is presumed abandoned. -/
def claimProbe : Bool × Breaker :=
  if b.probeInFlight ∧ now-b.probeStartedAt < cfg.probeTimeout then (false,b)
  else (true,{ b with probeInFlight := true, probeStartedAt := now })

def allowLocal : Bool × Breaker :=
  let b := if b.state = .open ∧ b.cooldown ≤ now-b.openedAt then b.setState now .halfOpen else b
  match b.state with
  | .closed => (true,b)
  | .halfOpen => b.claimProbe cfg now
  | .open => (false,b)

def «open» : Breaker :=
  let b := { b with
    reopens := b.reopens+1
    cooldown := nextCooldown cfg (b.reopens+1)
    successStreak := 0
    failures := [] }
  b.setState now .open

/-- Whether the success is still to be published. -/
def recordSuccessLocally : Bool × Breaker :=
  let b := b.releaseProbe
  if b.state ≠ .halfOpen then (false,b)
  else if b.usesStore then (true,b)
  else
    let b := { b with successStreak := b.successStreak+1 }
    if cfg.successThreshold ≤ b.successStreak then
      (false,{ b with reopens := 0, cooldown := cfg.cooldownBase }.setState now .closed)
    else (false,b)

def opened (b : Breaker) : Option (Int × Int) :=
  if b.usesStore then some (b.cooldown,b.reopens) else none

def recordFailureLocally : Option (Int × Int) × Breaker :=
  let b := b.releaseProbe
  match b.state with
  | .halfOpen =>
    let b := b.open cfg now
    (b.opened,b)
  | .closed =>
    let b := { b with failures := pruneBefore (b.failures ++ [now]) (now-cfg.window) }
    if b.failures.length < cfg.failureThreshold then (none,b)
    else
      let b := b.open cfg now
      (b.opened,b)
  | .open => (none,b)

def resetLocally : Breaker :=
  let b := { b with
    failures := []
    successStreak := 0
    reopens := 0
    cooldown := cfg.cooldownBase
    probeInFlight := false
    unpublished := false }
  if b.state ≠ .closed then b.setState now .closed else b

end Breaker

theorem nextCooldown_one (cfg : BreakerConfig) : nextCooldown cfg 1 = cfg.cooldownBase := by
  have hpos := cfg.cooldownBase_pos
  have hle := cfg.cooldownBase_le
  have hrange := cfg.cooldownMax_range
  have hwrap : wrap cfg.cooldownBase = cfg.cooldownBase := wrap_eq (by unfold InRange; omega)
  have hexp : (min maxCooldownExponent (max 0 ((1 : Int)-1))).toNat = 0 := by decide
  simp only [nextCooldown,hexp,pow_zero,mul_one,hwrap]
  rw [if_neg (by omega)]

theorem nextCooldown_pos (cfg : BreakerConfig) (reopens : Int) : 0 < nextCooldown cfg reopens := by
  have hpos := cfg.cooldownBase_pos
  have hle := cfg.cooldownBase_le
  unfold nextCooldown
  simp only []
  split <;> omega

theorem nextCooldown_le (cfg : BreakerConfig) (reopens : Int) :
    nextCooldown cfg reopens ≤ cfg.cooldownMax := by
  unfold nextCooldown
  simp only []
  split <;> omega

namespace Breaker

variable {cfg : BreakerConfig} {now : Int} {b : Breaker}

@[simp] theorem open_state : (b.open cfg now).state = .open := rfl

@[simp] theorem open_openedAt : (b.open cfg now).openedAt = now := rfl

@[simp] theorem open_cooldown : (b.open cfg now).cooldown = nextCooldown cfg (b.reopens+1) := rfl

@[simp] theorem open_store : (b.open cfg now).store = b.store := rfl

@[simp] theorem open_successStreak : (b.open cfg now).successStreak = 0 := rfl

@[simp] theorem resetLocally_state : (b.resetLocally cfg now).state = .closed := by
  cases hstate : b.state <;> simp [resetLocally,setState,hstate]

@[simp] theorem resetLocally_unpublished : (b.resetLocally cfg now).unpublished = false := by
  cases hstate : b.state <;> simp [resetLocally,setState,hstate]

@[simp] theorem resetLocally_store : (b.resetLocally cfg now).store = b.store := by
  cases hstate : b.state <;> simp [resetLocally,setState,hstate]

@[simp] theorem resetLocally_failures : (b.resetLocally cfg now).failures = [] := by
  cases hstate : b.state <;> simp [resetLocally,setState,hstate]

@[simp] theorem resetLocally_reopens : (b.resetLocally cfg now).reopens = 0 := by
  cases hstate : b.state <;> simp [resetLocally,setState,hstate]

@[simp] theorem resetLocally_probeInFlight : (b.resetLocally cfg now).probeInFlight = false := by
  cases hstate : b.state <;> simp [resetLocally,setState,hstate]

inductive Allowed (cfg : BreakerConfig) (now : Int) (b : Breaker) : Bool × Breaker → Prop where
  | closed : b.state = .closed → Allowed cfg now b (true,b)
  | cooling : b.state = .open → now-b.openedAt < b.cooldown → Allowed cfg now b (false,b)
  | elapsed : b.state = .open → b.cooldown ≤ now-b.openedAt →
      Allowed cfg now b (true,{ b with
        state := .halfOpen
        probeInFlight := true
        probeStartedAt := now })
  | taken : b.state = .halfOpen → b.probeInFlight = true →
      now-b.probeStartedAt < cfg.probeTimeout → Allowed cfg now b (false,b)
  | claimed : b.state = .halfOpen →
      (b.probeInFlight = true → cfg.probeTimeout ≤ now-b.probeStartedAt) →
      Allowed cfg now b (true,{ b with probeInFlight := true, probeStartedAt := now })

theorem allowLocal_allowed : Allowed cfg now b (b.allowLocal cfg now) := by
  obtain ⟨state,failures,streak,flight,started,openedAt,cooldown,reopens,store,unpublished⟩ := b
  unfold allowLocal claimProbe
  cases state with
  | closed => exact .closed rfl
  | halfOpen =>
    simp only [reduceCtorEq,false_and,if_false]
    by_cases htaken : flight = true ∧ now-started < cfg.probeTimeout
    · rw [if_pos htaken]
      exact .taken rfl htaken.1 htaken.2
    · rw [if_neg htaken]
      exact .claimed rfl fun hflight => not_lt.1 fun hlt => htaken ⟨hflight,hlt⟩
  | «open» =>
    by_cases hcool : cooldown ≤ now-openedAt
    · simp only [true_and,if_pos hcool]
      exact .elapsed rfl hcool
    · simp only [true_and,if_neg hcool]
      exact .cooling rfl (not_le.1 hcool)

inductive Succeeded (cfg : BreakerConfig) (now : Int) (b : Breaker) : Bool × Breaker → Prop where
  | idle : b.state ≠ .halfOpen → Succeeded cfg now b (false,b.releaseProbe)
  | publish : b.state = .halfOpen → b.usesStore = true → Succeeded cfg now b (true,b.releaseProbe)
  | counted : b.state = .halfOpen → b.usesStore = false →
      b.successStreak+1 < cfg.successThreshold →
      Succeeded cfg now b
        (false,{ b with probeInFlight := false, successStreak := b.successStreak+1 })
  | closes : b.state = .halfOpen → b.usesStore = false →
      cfg.successThreshold ≤ b.successStreak+1 →
      Succeeded cfg now b (false,{ b with
        state := .closed
        probeInFlight := false
        successStreak := b.successStreak+1
        reopens := 0
        cooldown := cfg.cooldownBase })

theorem recordSuccessLocally_succeeded : Succeeded cfg now b (b.recordSuccessLocally cfg now) := by
  unfold recordSuccessLocally
  simp only []
  by_cases hstate : b.state = .halfOpen
  · rw [if_neg (by simpa [releaseProbe] using hstate)]
    by_cases hstore : b.usesStore = true
    · rw [if_pos (by simpa [releaseProbe,usesStore] using hstore)]
      exact .publish hstate hstore
    · rw [if_neg (by simpa [releaseProbe,usesStore] using hstore)]
      by_cases hstreak : cfg.successThreshold ≤ b.releaseProbe.successStreak+1
      · rw [if_pos hstreak]
        exact .closes hstate (by simpa using hstore) hstreak
      · rw [if_neg hstreak]
        exact .counted hstate (by simpa using hstore) (not_le.1 hstreak)
  · rw [if_pos (by simpa [releaseProbe] using hstate)]
    exact .idle hstate

inductive Failed (cfg : BreakerConfig) (now : Int) (b : Breaker) :
    Option (Int × Int) × Breaker → Prop where
  | ignored : b.state = .open → Failed cfg now b (none,b.releaseProbe)
  | counted : b.state = .closed →
      (pruneBefore (b.failures ++ [now]) (now-cfg.window)).length < cfg.failureThreshold →
      Failed cfg now b (none,{ b with
        failures := pruneBefore (b.failures ++ [now]) (now-cfg.window)
        probeInFlight := false })
  | opens : b.state ≠ .open →
      (b.state = .closed → cfg.failureThreshold ≤
        (pruneBefore (b.failures ++ [now]) (now-cfg.window)).length) →
      Failed cfg now b ((b.open cfg now).opened,b.open cfg now)

theorem recordFailureLocally_failed : Failed cfg now b (b.recordFailureLocally cfg now) := by
  obtain ⟨state,failures,streak,flight,started,openedAt,cooldown,reopens,store,unpublished⟩ := b
  unfold recordFailureLocally
  cases state with
  | closed =>
    by_cases hbelow : (pruneBefore (failures ++ [now]) (now-cfg.window)).length <
      cfg.failureThreshold
    · simp only [releaseProbe,hbelow,if_true]
      exact .counted rfl hbelow
    · simp only [releaseProbe,hbelow,if_false]
      exact .opens (by simp) fun _ => not_lt.1 hbelow
  | halfOpen => exact .opens (by simp) (by simp)
  | «open» => exact .ignored rfl

theorem Failed.published {b' : Breaker} {episode : Int × Int}
    (h : Failed cfg now b (some episode,b')) :
    b.state ≠ .open ∧ b.usesStore = true ∧ b'.state = .open ∧ episode.2 = b.reopens+1 ∧
      episode.1 = nextCooldown cfg episode.2 := by
  generalize hsent : some episode = sent at h
  generalize hout : (sent,b') = out at h
  cases h with
  | ignored _ => cases hout; cases hsent
  | counted _ _ => cases hout; cases hsent
  | opens hstate _ =>
    cases hout
    have hstore : (b.open cfg now).usesStore = b.usesStore := rfl
    simp only [opened,hstore] at hsent
    by_cases huses : b.usesStore = true
    · simp only [huses,if_true,Option.some.injEq] at hsent
      subst hsent
      exact ⟨hstate,huses,rfl,rfl,rfl⟩
    · simp [huses] at hsent

end Breaker

end Switchyard.Resilience
