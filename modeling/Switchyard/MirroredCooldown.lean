import Switchyard.FailedPublish
set_option autoImplicit false

/-!
The cooldown of a replica's mirror. A state taken over from the store brings its
count of reopenings with it but not the cooldown that goes with the count, and
`allowLocal` and `Inspect` read the replica's own.
-/

namespace Switchyard.Resilience
open StepRuns

structure BreakerSnapshot where
  state : BreakerState
  failures : Nat
  failureThreshold : Int
  successStreak : Int
  successThreshold : Int
  reopens : Int
  probeInFlight : Bool
  cooldown : Int
  cooldownRemaining : Int
  deriving DecidableEq, Repr

namespace Breaker

/-- `Inspect` counts the window's failures without pruning them. -/
def inspect (cfg : BreakerConfig) (now : Int) (b : Breaker) : BreakerSnapshot where
  state := b.state
  failures := (b.failures.filter (now-cfg.window ≤ ·)).length
  failureThreshold := cfg.failureThreshold
  successStreak := b.successStreak
  successThreshold := cfg.successThreshold
  reopens := b.reopens
  probeInFlight := b.probeInFlight
  cooldown := b.cooldown
  cooldownRemaining :=
    if b.state = .open ∧ now-b.openedAt < b.cooldown then b.cooldown-(now-b.openedAt) else 0

def Waits (cfg : BreakerConfig) (b : Breaker) : Prop :=
  b.state = .open → b.cooldown = nextCooldown cfg b.reopens

instance (cfg : BreakerConfig) (b : Breaker) : Decidable (b.Waits cfg) :=
  inferInstanceAs (Decidable (_ → _))

variable {cfg : BreakerConfig} {now : Int} {b : Breaker} {shared : SharedState}

theorem Waits.allowLocal (h : b.Waits cfg) : (b.allowLocal cfg now).2.Waits cfg := by
  have hallowed : b.Allowed cfg now (b.allowLocal cfg now) := allowLocal_allowed
  generalize b.allowLocal cfg now = out at hallowed
  cases hallowed with
  | closed _ => exact h
  | cooling _ _ => exact h
  | elapsed _ _ => exact fun hopen => by cases hopen
  | taken _ _ _ => exact h
  | claimed hhalf _ => exact fun hopen => by simp [hhalf] at hopen

theorem Waits.recordSuccessLocally (h : b.Waits cfg) :
    (b.recordSuccessLocally cfg now).2.Waits cfg := by
  have hsucceeded : b.Succeeded cfg now (b.recordSuccessLocally cfg now) :=
    recordSuccessLocally_succeeded
  generalize b.recordSuccessLocally cfg now = out at hsucceeded
  cases hsucceeded with
  | idle _ => exact h
  | publish _ _ => exact h
  | counted _ _ _ => exact h
  | closes _ _ _ => exact fun hopen => by cases hopen

theorem recordSuccessLocally_publish (h : (b.recordSuccessLocally cfg now).1 = true) :
    (b.recordSuccessLocally cfg now).2 = b.releaseProbe := by
  have hsucceeded : b.Succeeded cfg now (b.recordSuccessLocally cfg now) :=
    recordSuccessLocally_succeeded
  generalize b.recordSuccessLocally cfg now = out at h hsucceeded
  cases hsucceeded with
  | publish _ _ => rfl
  | idle _ => cases h
  | counted _ _ _ => cases h
  | closes _ _ _ => cases h

theorem Waits.recordFailureLocally (h : b.Waits cfg) :
    (b.recordFailureLocally cfg now).2.Waits cfg := by
  have hfailed : b.Failed cfg now (b.recordFailureLocally cfg now) := recordFailureLocally_failed
  generalize b.recordFailureLocally cfg now = out at hfailed
  cases hfailed with
  | ignored _ => exact h
  | counted _ _ => exact h
  | opens _ _ => exact fun _ => rfl

@[simp] theorem mirror_cooldown : (b.mirror now shared).cooldown = b.cooldown := by
  unfold mirror setState
  by_cases h : shared.state = b.state <;> simp [h]

theorem mirror_waits_iff : (b.mirror now shared).Waits cfg ↔
    (shared.state = .open → b.cooldown = nextCooldown cfg shared.reopens) := by
  simp [Waits]

theorem adopt_waits_iff : (b.adopt cfg now shared).Waits cfg ↔
    (shared.state = .open → b.cooldown = nextCooldown cfg b.reopens) := by
  unfold Waits
  rw [adopt_state]
  refine imp_congr_right fun hopen => ?_
  cases hstate : b.state <;> simp [adopt,setState,hopen,hstate]

/-- Once the store is out of reach such a breaker waits out the cooldown of its
count, and `Inspect` shows that one. -/
theorem Waits.locally (h : b.Waits cfg) (hopen : b.state = .open) (now : Int) :
    ((b.allowLocal cfg now).1 = true ↔ b.openedAt+nextCooldown cfg b.reopens ≤ now) ∧
    (b.inspect cfg now).cooldown = nextCooldown cfg b.reopens ∧
    (b.inspect cfg now).cooldownRemaining = max 0 (b.openedAt+nextCooldown cfg b.reopens-now) := by
  have hcooldown := h hopen
  refine ⟨?_,hcooldown,?_⟩
  · by_cases hdone : nextCooldown cfg b.reopens ≤ now-b.openedAt
    · simp [Breaker.allowLocal,claimProbe,setState,hopen,hcooldown,hdone]
      omega
    · simp [Breaker.allowLocal,hopen,hcooldown,hdone]
      omega
  · simp only [inspect,hopen,hcooldown,true_and]
    split <;> omega

end Breaker

namespace SharedBreaker

variable (cfg : BreakerConfig) (r : SharedBreaker)

/-- The count with which a call takes an open state over from the store. A probe
success leaves the replica's own count. -/
def takenOver : Tracked.Call → Option Int
  | .allow now later load _ =>
    if r.breaker.usesStore then
      ((r.cache.sharedState cfg.stateCacheTTL now later load.toOption).1.filter
        (·.state = .open)).map SharedState.reopens
    else none
  | .recordSuccess now _ (.ok shared) =>
    if (r.breaker.recordSuccessLocally cfg now).1 ∧ shared.state = .open then some r.breaker.reopens
    else none
  | _ => none

/-- Where a call takes an open state over, the cooldown at hand is the one of
its count. -/
def Matched (c : Tracked.Call) : Prop :=
  ∀ n ∈ r.takenOver cfg c,r.breaker.cooldown = nextCooldown cfg n

instance (c : Tracked.Call) : Decidable (r.Matched cfg c) :=
  decidable_of_iff (∀ n ∈ (r.takenOver cfg c).toList,r.breaker.cooldown = nextCooldown cfg n)
    (by simp [Matched])

def step (c : Tracked.Call) : Option SharedBreaker := some (c.run cfg r).2

/-- The count of the replica's own last opening, if none of its own closings came
after it. -/
def ownOpening (last : Option Int) (c : Tracked.Call) : Option Int :=
  let b := (c.run cfg r).2.breaker
  match c with
  | .allow _ _ _ _ => last
  | .recordSuccess _ _ _ => if r.breaker.state = .halfOpen ∧ b.state = .closed then none else last
  | .recordFailure _ _ _ =>
    if r.breaker.state ≠ .open ∧ b.state = .open then some b.reopens else last
  | .reset _ _ _ => none

def lastOpening (r : SharedBreaker) (last : Option Int) : List Tracked.Call → Option Int
  | [] => last
  | c :: cs => lastOpening (c.run cfg r).2 (r.ownOpening cfg last c) cs

def owed (last : Option Int) : Int := (last.map (nextCooldown cfg)).getD cfg.cooldownBase

variable {cfg r}

theorem publishOpen_waits_iff {now reopens : Int} {answer : Except String Unit} :
    (r.publishOpen now reopens answer).breaker.Waits cfg ↔ r.breaker.Waits cfg := by
  cases answer <;> rfl

theorem allow_waits_iff (h : r.breaker.Waits cfg) {now later : Int}
    {load : Except String SharedState} {claim : Except String Bool} :
    (r.allow cfg now later load claim).2.breaker.Waits cfg ↔
      r.Matched cfg (.allow now later load claim) := by
  unfold allow Matched takenOver
  by_cases huses : r.breaker.usesStore = true
  · simp only [huses,if_true]
    cases (r.cache.sharedState cfg.stateCacheTTL now later load.toOption).1 with
    | none =>
      have hwaits : (r.breaker.allowLocal cfg later).2.Waits cfg := h.allowLocal
      simpa [allowLocal] using hwaits
    | some shared =>
      simp only [allowShared_breaker,Breaker.mirror_waits_iff]
      by_cases hopen : shared.state = .open <;> simp [hopen]
  · have hwaits : (r.breaker.allowLocal cfg later).2.Waits cfg := h.allowLocal
    simpa [huses,allowLocal] using hwaits

theorem recordSuccess_waits_iff (h : r.breaker.Waits cfg) {now later : Int}
    {reply : Except String SharedState} :
    (r.recordSuccess cfg now later reply).breaker.Waits cfg ↔
      r.Matched cfg (.recordSuccess now later reply) := by
  have hwaits : (r.breaker.recordSuccessLocally cfg now).2.Waits cfg := h.recordSuccessLocally
  unfold recordSuccess
  by_cases hpublish : (r.breaker.recordSuccessLocally cfg now).1 = true
  · simp only [hpublish,if_true]
    cases reply with
    | error e => simpa [publishProbeSuccess,Matched,takenOver] using hwaits
    | ok shared =>
      simp only [publishProbeSuccess,Breaker.adopt_waits_iff,
        Breaker.recordSuccessLocally_publish hpublish,Breaker.releaseProbe]
      by_cases hopen : shared.state = .open <;> simp [Matched,takenOver,hpublish,hopen]
  · simp only [hpublish,Bool.false_eq_true,if_false]
    cases reply with
    | error e => simpa [Matched,takenOver] using hwaits
    | ok shared => simpa [Matched,takenOver,hpublish] using hwaits

theorem recordFailure_waits (h : r.breaker.Waits cfg) {now later : Int}
    {answer : Except String Unit} : (r.recordFailure cfg now later answer).2.breaker.Waits cfg := by
  have hwaits : (r.breaker.recordFailureLocally cfg now).2.Waits cfg := h.recordFailureLocally
  unfold recordFailure
  cases hepisode : (r.breaker.recordFailureLocally cfg now).1 with
  | none => simpa [hepisode] using hwaits
  | some episode =>
    simp only [hepisode,publishOpen_waits_iff]
    exact hwaits

/-- A call keeps the rule exactly where what it takes over matches. -/
theorem run_waits_iff (h : r.breaker.Waits cfg) (c : Tracked.Call) :
    (c.run cfg r).2.breaker.Waits cfg ↔ r.Matched cfg c := by
  cases c with
  | allow now later load claim => exact allow_waits_iff h
  | recordSuccess now later reply => exact recordSuccess_waits_iff h
  | recordFailure now later answer =>
    exact iff_of_true (recordFailure_waits h) (by simp [Matched,takenOver])
  | reset now later answer =>
    refine iff_of_true (fun hopen => ?_) (by simp [Matched,takenOver])
    simp [Tracked.Call.run,reset] at hopen

theorem allow_cooldown {now later : Int} {load : Except String SharedState}
    {claim : Except String Bool} :
    (r.allow cfg now later load claim).2.breaker.cooldown = r.breaker.cooldown := by
  have hlocal : (r.breaker.allowLocal cfg later).2.cooldown = r.breaker.cooldown := by
    have hallowed : r.breaker.Allowed cfg later (r.breaker.allowLocal cfg later) :=
      Breaker.allowLocal_allowed
    generalize r.breaker.allowLocal cfg later = out at hallowed
    cases hallowed <;> rfl
  simp only [allow]
  split
  · cases (r.cache.sharedState cfg.stateCacheTTL now later load.toOption).1 with
    | none => exact hlocal
    | some shared => simp
  · exact hlocal

section Owed

variable {last : Option Int} (h : r.breaker.cooldown = owed cfg last)
include h

theorem recordSuccess_cooldown (now later : Int) (reply : Except String SharedState) :
    (r.recordSuccess cfg now later reply).breaker.cooldown =
      owed cfg (r.ownOpening cfg last (.recordSuccess now later reply)) := by
  have hsucceeded : r.breaker.Succeeded cfg now (r.breaker.recordSuccessLocally cfg now) :=
    Breaker.recordSuccessLocally_succeeded
  simp only [ownOpening,Tracked.Call.run,recordSuccess]
  obtain ⟨out,hout⟩ : ∃ out,r.breaker.recordSuccessLocally cfg now = out := ⟨_,rfl⟩
  rw [hout] at hsucceeded
  cases hsucceeded with
  | idle hstate => simpa [hout,hstate,Breaker.releaseProbe] using h
  | counted hstate _ _ => simpa [hout,hstate] using h
  | closes hstate _ _ => simp [hout,hstate,owed]
  | publish hstate _ =>
    cases reply with
    | error e => simpa [hout,publishProbeSuccess,Breaker.releaseProbe,hstate] using h
    | ok shared =>
      cases hshared : shared.state <;>
        simp [hout,publishProbeSuccess,Breaker.adopt,Breaker.releaseProbe,Breaker.setState,hstate,
          hshared,owed,h]

theorem recordFailure_cooldown (now later : Int) (answer : Except String Unit) :
    (r.recordFailure cfg now later answer).2.breaker.cooldown =
      owed cfg (r.ownOpening cfg last (.recordFailure now later answer)) := by
  have hfailed : r.breaker.Failed cfg now (r.breaker.recordFailureLocally cfg now) :=
    Breaker.recordFailureLocally_failed
  simp only [ownOpening,Tracked.Call.run,recordFailure]
  obtain ⟨out,hout⟩ : ∃ out,r.breaker.recordFailureLocally cfg now = out := ⟨_,rfl⟩
  rw [hout] at hfailed
  cases hfailed with
  | ignored hstate => simpa [hout,hstate,Breaker.releaseProbe] using h
  | counted hstate _ => simpa [hout,hstate] using h
  | opens hstate _ =>
    cases hsent : (r.breaker.open cfg now).opened with
    | none =>
      simp only [hout,hsent]
      rw [if_pos ⟨hstate,rfl⟩]
      rfl
    | some episode =>
      cases answer <;>
      · simp only [hout,hsent,publishOpen]
        rw [if_pos ⟨hstate,rfl⟩]
        rfl

/-- The cooldown at hand is always that of the replica's own last opening. -/
theorem run_cooldown (c : Tracked.Call) :
    (c.run cfg r).2.breaker.cooldown = owed cfg (r.ownOpening cfg last c) := by
  cases c with
  | allow now later load claim => exact allow_cooldown.trans h
  | recordSuccess now later reply => exact recordSuccess_cooldown h now later reply
  | recordFailure now later answer => exact recordFailure_cooldown h now later answer
  | reset now later answer =>
    simp only [Tracked.Call.run,reset,Breaker.resetLocally,ownOpening,owed]
    split <;> rfl

theorem reaches_cooldown {ok : SharedBreaker → Tracked.Call → Prop} {r' : SharedBreaker}
    {calls : List Tracked.Call} (hrun : Reaches (step cfg) ok r calls r') :
    r'.breaker.cooldown = owed cfg (lastOpening cfg r last calls) := by
  induction hrun generalizing last with
  | stop _ => exact h
  | next _ hst _ ih =>
    cases hst
    exact ih (run_cooldown h _)

end Owed

theorem new_waits (cfg : BreakerConfig) : (new cfg).breaker.Waits cfg := fun hopen => by cases hopen

/-- In a run the open mirror has the cooldown of its count after every call
exactly if every open state that is taken over from the store matches the
cooldown at hand, which is the one of the replica's own last opening; a replica
that loses its store then waits out that cooldown. -/
theorem cooldown_of_reopens_iff (cfg : BreakerConfig) (calls : List Tracked.Call)
    (r : SharedBreaker) :
    (Reaches (step cfg) (fun r c => (c.run cfg r).2.breaker.Waits cfg) (new cfg) calls r ↔
      Reaches (step cfg) (Matched cfg) (new cfg) calls r) ∧
    (Reaches (step cfg) (Matched cfg) (new cfg) calls r → r.breaker.state = .open →
      r.breaker.cooldown = nextCooldown cfg r.breaker.reopens ∧
      ∀ now,((r.breaker.allowLocal cfg now).1 = true ↔
          r.breaker.openedAt+nextCooldown cfg r.breaker.reopens ≤ now) ∧
        (r.breaker.inspect cfg now).cooldown = nextCooldown cfg r.breaker.reopens ∧
        (r.breaker.inspect cfg now).cooldownRemaining =
          max 0 (r.breaker.openedAt+nextCooldown cfg r.breaker.reopens-now)) ∧
    (Reaches (step cfg) (fun _ _ => True) (new cfg) calls r →
      r.breaker.cooldown = owed cfg (lastOpening cfg (new cfg) none calls)) := by
  have hkept : ∀ (r : SharedBreaker) (c : Tracked.Call) (r' : SharedBreaker),r.breaker.Waits cfg →
      r.Matched cfg c → step cfg r c = some r' → r'.breaker.Waits cfg := by
    intro r c r' hwaits hmatched hst
    cases hst
    exact (run_waits_iff hwaits c).2 hmatched
  refine ⟨⟨fun hrun => ?_,fun hrun => ?_⟩,fun hrun hopen => ?_,
    fun hrun => reaches_cooldown rfl hrun⟩
  · refine hrun.mono_invariant (I := fun r => r.breaker.Waits cfg) (fun r c r' _ hok hst => ?_)
      (fun r c hwaits hok => (run_waits_iff hwaits c).1 hok) (new_waits cfg)
    cases hst
    exact hok
  · exact hrun.mono_invariant (I := fun r => r.breaker.Waits cfg) hkept
      (fun r c hwaits hmatched => (run_waits_iff hwaits c).2 hmatched) (new_waits cfg)
  · have hwaits : r.breaker.Waits cfg :=
      hrun.invariant (I := fun r => r.breaker.Waits cfg) hkept (new_waits cfg)
    exact ⟨hwaits hopen,hwaits.locally hopen⟩

/-- The fleet's third opening in a row should last 40. The replica that takes it
over keeps its first cooldown of 10, shows it, and without the store admits a
call after it. -/
theorem mirror_keeps_first_cooldown :
    ∃ r,Reaches (step Tracked.quick) (fun _ _ => True) (new Tracked.quick)
        [.allow 0 0 (.ok ⟨.open,3,0⟩) (.ok false)] r ∧
      r.breaker.state = .open ∧ r.breaker.reopens = 3 ∧ nextCooldown Tracked.quick 3 = 40 ∧
      (r.breaker.inspect Tracked.quick 0).cooldown = 10 ∧
      ¬r.breaker.cooldown = nextCooldown Tracked.quick r.breaker.reopens ∧
      (r.allow Tracked.quick 10 10 (.error "down") (.ok false)).1 = true :=
  ⟨_,Reaches.of_run rfl,rfl,rfl,by decide +kernel,rfl,by decide +kernel,rfl⟩

theorem cooldown_of_reopens_own :
    ∃ r,Reaches (step Tracked.quick) (Matched Tracked.quick) (new Tracked.quick)
        [.recordFailure 0 0 (.ok ()),.allow 6 6 (.ok ⟨.open,1,0⟩) (.ok false)] r ∧
      r.breaker.state = .open ∧ r.breaker.cooldown = nextCooldown Tracked.quick r.breaker.reopens ∧
      (r.breaker.inspect Tracked.quick 6).cooldown =
        nextCooldown Tracked.quick r.breaker.reopens := by
  obtain ⟨r,hrun,hopen⟩ :
      ∃ r,Reaches (step Tracked.quick) (Matched Tracked.quick) (new Tracked.quick)
          [.recordFailure 0 0 (.ok ()),.allow 6 6 (.ok ⟨.open,1,0⟩) (.ok false)] r ∧
        r.breaker.state = .open := Reaches.exists_of_run (by decide +kernel)
  obtain ⟨hcooldown,hlocal⟩ := (cooldown_of_reopens_iff Tracked.quick _ r).2.1 hrun hopen
  exact ⟨r,hrun,hopen,hcooldown,(hlocal 6).2.1⟩

end SharedBreaker

end Switchyard.Resilience
