import Switchyard.CircuitBreaker
import Switchyard.StepRuns
set_option autoImplicit false

/-!
The probe slot of a local breaker under any interleaving of its callers. A local
breaker does everything under its mutex, so a run is the order in which the
calls took it.
-/

namespace Switchyard.Resilience
open StepRuns

/-- A call that was allowed and has not reported; `period` counts the half-open
periods up to the one it probes. -/
structure Admission where
  caller : Nat
  time : Int
  period : Option Nat
  deriving DecidableEq, Repr

structure Guarded where
  breaker : Breaker
  clock : Int
  period : Nat
  pending : List Admission
  deriving DecidableEq, Repr

inductive Guarded.Action where
  | allow (caller : Nat) (now : Int)
  | report (caller : Nat) (success : Bool) (now : Int)
  deriving DecidableEq, Repr

namespace Guarded

def Action.now : Action → Int
  | .allow _ now => now
  | .report _ _ now => now

def start (cfg : BreakerConfig) : Guarded := ⟨newBreaker cfg,0,0,[]⟩

def isPending (s : Guarded) (caller : Nat) : Bool := s.pending.any (·.caller = caller)

variable (cfg : BreakerConfig)

def step (s : Guarded) : Action → Option Guarded
  | .allow caller now =>
    if s.isPending caller then none
    else
      let (allowed,b) := s.breaker.allowLocal cfg now
      let period :=
        if b.state = .halfOpen ∧ s.breaker.state ≠ .halfOpen then s.period+1 else s.period
      let admission := ⟨caller,now,if b.state = .halfOpen then some period else none⟩
      some ⟨b,now,period,if allowed then admission :: s.pending else s.pending⟩
  | .report caller success now =>
    if s.isPending caller then
      let b := if success then (s.breaker.recordSuccessLocally cfg now).2
        else (s.breaker.recordFailureLocally cfg now).2
      some ⟨b,now,s.period,s.pending.filter (·.caller ≠ caller)⟩
    else none

def probes (s : Guarded) : List Admission := s.pending.filter (·.period = some s.period)

def Single (s : Guarded) : Prop := s.breaker.state = .halfOpen → s.probes.length ≤ 1

instance (s : Guarded) : Decidable s.Single := inferInstanceAs (Decidable (_ → _))

/-- The clock does not run backwards and every report comes within
`ProbeTimeout`. -/
def Timely (s : Guarded) (a : Action) : Prop :=
  s.clock ≤ a.now ∧ ∀ p ∈ s.pending,a.now ≤ p.time+cfg.probeTimeout

def Prompt (s : Guarded) (a : Action) : Prop :=
  s.clock ≤ a.now ∧ ∀ p ∈ s.pending,a.now < p.time+cfg.probeTimeout

instance (s : Guarded) (a : Action) : Decidable (Timely cfg s a) :=
  inferInstanceAs (Decidable (_ ∧ _))

instance (s : Guarded) (a : Action) : Decidable (Prompt cfg s a) :=
  inferInstanceAs (Decidable (_ ∧ _))

variable {cfg} {s t : Guarded} {a : Action}

inductive Moved (cfg : BreakerConfig) (s : Guarded) : Action → Guarded → Prop where
  | admitted {caller : Nat} {now : Int} : s.breaker.state = .closed →
      Moved cfg s (.allow caller now)
        { s with clock := now, pending := ⟨caller,now,none⟩ :: s.pending }
  | refused {caller : Nat} {now : Int} : Moved cfg s (.allow caller now) { s with clock := now }
  | entered {caller : Nat} {now : Int} : s.breaker.state = .open →
      s.breaker.cooldown ≤ now-s.breaker.openedAt →
      Moved cfg s (.allow caller now)
        ⟨{ s.breaker with state := .halfOpen, probeInFlight := true, probeStartedAt := now },now,
          s.period+1,⟨caller,now,some (s.period+1)⟩ :: s.pending⟩
  | claimed {caller : Nat} {now : Int} : s.breaker.state = .halfOpen →
      (s.breaker.probeInFlight = true → cfg.probeTimeout ≤ now-s.breaker.probeStartedAt) →
      Moved cfg s (.allow caller now)
        ⟨{ s.breaker with state := .halfOpen, probeInFlight := true, probeStartedAt := now },now,
          s.period,⟨caller,now,some s.period⟩ :: s.pending⟩
  | succeeded {caller : Nat} {now : Int} {publish : Bool} {b : Breaker} :
      s.isPending caller = true → s.breaker.Succeeded cfg now (publish,b) →
      Moved cfg s (.report caller true now) ⟨b,now,s.period,s.pending.filter (·.caller ≠ caller)⟩
  | failed {caller : Nat} {now : Int} {publish : Option (Int × Int)} {b : Breaker} :
      s.isPending caller = true → s.breaker.Failed cfg now (publish,b) →
      Moved cfg s (.report caller false now) ⟨b,now,s.period,s.pending.filter (·.caller ≠ caller)⟩

theorem moved (h : step cfg s a = some t) : Moved cfg s a t := by
  cases a with
  | allow caller now =>
    simp only [step] at h
    split at h
    · cases h
    · have hallowed : s.breaker.Allowed cfg now (s.breaker.allowLocal cfg now) :=
        Breaker.allowLocal_allowed
      generalize s.breaker.allowLocal cfg now = out at h hallowed
      cases hallowed with
      | closed hstate =>
        simp [hstate] at h
        exact h ▸ .admitted hstate
      | cooling hstate _ =>
        simp [hstate] at h
        exact h ▸ .refused
      | elapsed hstate hcool =>
        simp [hstate] at h
        exact h ▸ .entered hstate hcool
      | taken hstate _ _ =>
        simp [hstate] at h
        exact h ▸ .refused
      | claimed hstate hfree =>
        simp [hstate] at h
        exact h ▸ .claimed hstate hfree
  | report caller success now =>
    simp only [step] at h
    split at h
    · rename_i hpending
      cases h
      cases success with
      | true => exact .succeeded hpending Breaker.recordSuccessLocally_succeeded
      | false => exact .failed hpending Breaker.recordFailureLocally_failed
    · cases h

theorem mem_probes {p : Admission} : p ∈ s.probes ↔ p ∈ s.pending ∧ p.period = some s.period := by
  simp [probes]

/-- Whoever probes in the current period holds the slot since it was admitted. -/
structure Held (s : Guarded) : Prop where
  stays : s.breaker.store = false
  streak : 0 ≤ s.breaker.successStreak
  periods : ∀ p ∈ s.pending,∀ k ∈ p.period,k ≤ s.period
  single : s.breaker.state = .halfOpen → s.probes.length ≤ 1
  slot : s.breaker.state = .halfOpen → ∀ p ∈ s.probes,
    s.breaker.probeInFlight = true ∧ p.time = s.breaker.probeStartedAt

/-- In a half-open period every pending call is one of its probes. -/
def Current (s : Guarded) : Prop :=
  s.breaker.state = .halfOpen → ∀ p ∈ s.pending,p.period = some s.period

theorem Held.free (h : s.Held) {caller : Nat} {now : Int}
    (hprompt : Prompt cfg s (.allow caller now)) (hstate : s.breaker.state = .halfOpen)
    (hfree : s.breaker.probeInFlight = true → cfg.probeTimeout ≤ now-s.breaker.probeStartedAt) :
    s.probes = [] := by
  cases hprobes : s.probes with
  | nil => rfl
  | cons p ps =>
    have hmem : p ∈ s.probes := by simp [hprobes]
    obtain ⟨hflight,htime⟩ := h.slot hstate p hmem
    have hold := hfree hflight
    have hnew : now < p.time+cfg.probeTimeout := hprompt.2 p (mem_probes.1 hmem).1
    omega

theorem held_of_ne {b : Breaker} {clock : Int} {k : Nat} {ps : List Admission}
    (hstore : b.store = false) (hstreak : 0 ≤ b.successStreak)
    (hperiods : ∀ p ∈ ps,∀ j ∈ p.period,j ≤ k) (hne : b.state ≠ .halfOpen) :
    (Guarded.mk b clock k ps).Held :=
  ⟨hstore,hstreak,hperiods,fun hstate => absurd hstate hne,fun hstate => absurd hstate hne⟩

theorem held_of_new {b : Breaker} {now : Int} {k caller : Nat} {ps : List Admission}
    (hstore : b.store = false) (hstreak : 0 ≤ b.successStreak)
    (hperiods : ∀ p ∈ ps,∀ j ∈ p.period,j ≤ k) (hnone : ∀ p ∈ ps,p.period ≠ some k) :
    (Guarded.mk { b with state := .halfOpen, probeInFlight := true, probeStartedAt := now } now k
      (⟨caller,now,some k⟩ :: ps)).Held := by
  have hprobes : (Guarded.mk { b with
      state := .halfOpen
      probeInFlight := true
      probeStartedAt := now } now k (⟨caller,now,some k⟩ :: ps)).probes =
        [⟨caller,now,some k⟩] := by
    have hrest : ps.filter (·.period = some k) = [] := by simpa using hnone
    simp [probes,hrest]
  refine ⟨hstore,hstreak,?_,fun _ => by simp [hprobes],fun _ p hp => ?_⟩
  · intro p hp j hj
    obtain rfl | hp := List.mem_cons.1 hp
    · exact (Option.some.inj hj).ge
    · exact hperiods p hp j hj
  · rw [hprobes] at hp
    obtain rfl := List.mem_singleton.1 hp
    exact ⟨rfl,rfl⟩

theorem Held.alone (h : s.Held) (hcurrent : s.Current) (hstate : s.breaker.state = .halfOpen)
    {caller : Nat} (hpending : s.isPending caller = true) :
    s.pending.filter (·.caller ≠ caller) = [] := by
  have hprobes : s.probes = s.pending := by simpa [probes] using hcurrent hstate
  have hsingle := h.single hstate
  rw [hprobes] at hsingle
  simp only [isPending,List.any_eq_true,decide_eq_true_eq] at hpending
  obtain ⟨p,hp,rfl⟩ := hpending
  obtain ⟨q,hq⟩ := List.length_eq_one_iff.1
    (le_antisymm hsingle (List.length_pos_of_mem hp))
  rw [hq] at hp ⊢
  simp [List.mem_singleton.1 hp]

theorem Held.step (h : s.Held) (hmoved : Moved cfg s a t) (hprompt : Prompt cfg s a)
    (hone : cfg.successThreshold = 1 ∨ s.Current) : t.Held := by
  have hkept : ∀ caller,∀ p ∈ s.pending.filter (·.caller ≠ caller),∀ j ∈ p.period,j ≤ s.period :=
    fun caller p hp => h.periods p (List.mem_filter.1 hp).1
  cases hmoved with
  | admitted hstate =>
    refine held_of_ne h.stays h.streak (fun p hp => ?_) (by simp [hstate])
    obtain rfl | hp := List.mem_cons.1 hp
    · simp
    · exact h.periods p hp
  | refused => exact ⟨h.stays,h.streak,h.periods,h.single,h.slot⟩
  | entered hstate _ =>
    refine held_of_new h.stays h.streak (fun p hp j hj => ?_) fun p hp hnew => ?_
    · exact (h.periods p hp j hj).trans (by omega)
    · have hle := h.periods p hp _ hnew
      omega
  | claimed hstate hfree =>
    refine held_of_new h.stays h.streak h.periods fun p hp hcurrent => ?_
    have hmem : p ∈ s.probes := mem_probes.2 ⟨hp,hcurrent⟩
    simp [h.free hprompt hstate hfree] at hmem
  | @succeeded caller now publish b hpending hout =>
    cases hout with
    | idle hne => exact held_of_ne h.stays h.streak (hkept caller) hne
    | publish _ hstore => simp [Breaker.usesStore,h.stays] at hstore
    | closes _ _ _ =>
      have hstreak := h.streak
      exact held_of_ne h.stays (by simp only []; omega) (hkept caller) (by simp)
    | counted hstate _ hbelow =>
      have hstreak := h.streak
      -- The slot is free again, so nobody may be left who probes.
      obtain hthreshold | hcurrent := hone
      · omega
      · rw [h.alone hcurrent hstate hpending]
        exact ⟨h.stays,by simp only []; omega,by simp,by simp [probes],by simp [probes]⟩
  | @failed caller now publish b hpending hout =>
    cases hout with
    | ignored hstate =>
      exact held_of_ne h.stays h.streak (hkept caller) (by simp [Breaker.releaseProbe,hstate])
    | counted hstate _ => exact held_of_ne h.stays h.streak (hkept caller) (by simp [hstate])
    | opens _ _ => exact held_of_ne h.stays (by simp) (hkept caller) (by simp)

/-- When a cooldown lasts as long as a call may take, no call survives it. -/
structure Drained (cfg : BreakerConfig) (s : Guarded) : Prop where
  past : ∀ p ∈ s.pending,p.time ≤ s.clock
  fresh : s.breaker.state = .closed → s.breaker.reopens = 0
  cooling : s.breaker.state = .open → ∀ p ∈ s.pending,
    cfg.probeTimeout ≤ s.breaker.cooldown ∧ p.time ≤ s.breaker.openedAt
  current : s.Current

theorem Drained.step (h : Drained cfg s) (hheld : s.Held) (hmoved : Moved cfg s a t)
    (hprompt : Prompt cfg s a) (hbase : cfg.probeTimeout ≤ cfg.cooldownBase) : Drained cfg t := by
  have hpast : ∀ p ∈ s.pending,p.time ≤ a.now := fun p hp => (h.past p hp).trans hprompt.1
  have hmem : ∀ caller,∀ p ∈ s.pending.filter (·.caller ≠ caller),p ∈ s.pending :=
    fun caller p hp => (List.mem_filter.1 hp).1
  cases hmoved with
  | admitted hstate =>
    refine ⟨fun p hp => ?_,h.fresh,by simp [hstate],fun hhalf => by simp [hstate] at hhalf⟩
    obtain rfl | hp := List.mem_cons.1 hp
    · exact le_refl _
    · exact hpast p hp
  | refused => exact ⟨hpast,h.fresh,h.cooling,h.current⟩
  | entered hstate hcool =>
    have hnone : s.pending = [] := List.eq_nil_iff_forall_not_mem.2 fun p hp => by
      have hlong := h.cooling hstate p hp
      have hshort := hprompt.2 p hp
      simp only [Action.now] at hshort
      omega
    rw [hnone]
    exact ⟨by simp,by simp,by simp,by simp [Current]⟩
  | claimed hstate _ =>
    refine ⟨fun p hp => ?_,by simp,by simp,fun _ p hp => ?_⟩
    · obtain rfl | hp := List.mem_cons.1 hp
      · exact le_refl _
      · exact hpast p hp
    · obtain rfl | hp := List.mem_cons.1 hp
      · rfl
      · exact h.current hstate p hp
  | @succeeded caller now publish b hpending hout =>
    cases hout with
    | idle hne =>
      exact ⟨fun p hp => hpast p (hmem caller p hp),h.fresh,
        fun hopen p hp => h.cooling hopen p (hmem caller p hp),fun hhalf => absurd hhalf hne⟩
    | publish _ hstore => simp [Breaker.usesStore,hheld.stays] at hstore
    | counted hstate _ _ =>
      rw [hheld.alone h.current hstate hpending]
      exact ⟨by simp,by simp [hstate],by simp,by simp [Current]⟩
    | closes _ _ _ =>
      exact ⟨fun p hp => hpast p (hmem caller p hp),by simp,by simp,by simp [Current]⟩
  | @failed caller now publish b hpending hout =>
    cases hout with
    | ignored hstate =>
      exact ⟨fun p hp => hpast p (hmem caller p hp),h.fresh,
        fun hopen p hp => h.cooling hopen p (hmem caller p hp),
        fun hhalf => by simp [Breaker.releaseProbe,hstate] at hhalf⟩
    | counted hstate _ =>
      exact ⟨fun p hp => hpast p (hmem caller p hp),h.fresh,by simp [hstate],
        by simp [Current,hstate]⟩
    | opens hne _ =>
      refine ⟨fun p hp => hpast p (hmem caller p hp),by simp,fun _ p hp => ?_,by simp [Current]⟩
      cases hstate : s.breaker.state with
      | «open» => exact absurd hstate hne
      | halfOpen =>
        replace hp : p ∈ s.pending.filter (·.caller ≠ caller) := hp
        rw [hheld.alone h.current hstate hpending] at hp
        cases hp
      | closed =>
        have hfirst : nextCooldown cfg (s.breaker.reopens+1) = cfg.cooldownBase := by
          rw [h.fresh hstate]
          exact nextCooldown_one cfg
        simp only [Breaker.open_cooldown,Breaker.open_openedAt,hfirst]
        exact ⟨hbase,hpast p (hmem caller p hp)⟩

theorem start_held (cfg : BreakerConfig) : (start cfg).Held :=
  held_of_ne rfl (le_refl _) (by simp) (by simp [newBreaker,newSharedBreaker])

theorem start_drained (cfg : BreakerConfig) : Drained cfg (start cfg) :=
  ⟨by simp [start],fun _ => rfl,by simp [start],by simp [start,Current]⟩

theorem single_of_config {actions : List Action}
    (hcfg : cfg.successThreshold = 1 ∨ cfg.probeTimeout ≤ cfg.cooldownBase)
    (hrun : Reaches (step cfg) (Prompt cfg) (start cfg) actions s) : s.Single := by
  obtain hone | hbase := hcfg
  · have hheld : s.Held := hrun.invariant (fun _ _ _ h hprompt hst =>
      h.step (moved hst) hprompt (.inl hone)) (start_held cfg)
    exact hheld.single
  · have hboth : s.Held ∧ Drained cfg s :=
      hrun.invariant (I := fun s => s.Held ∧ Drained cfg s) (fun _ _ _ h hprompt hst =>
        ⟨h.1.step (moved hst) hprompt (.inr h.2.current),h.2.step h.1 (moved hst) hprompt hbase⟩)
        ⟨start_held cfg,start_drained cfg⟩
    exact hboth.1.single

def failing (cfg : BreakerConfig) (n : Nat) : Guarded :=
  ⟨{ newBreaker cfg with failures := List.replicate n 0 },0,0,[⟨0,0,none⟩]⟩

def tripped (cfg : BreakerConfig) : Guarded := ⟨(newBreaker cfg).open cfg 0,0,0,[⟨0,0,none⟩]⟩

theorem failing_prune (cfg : BreakerConfig) (n : Nat) :
    pruneBefore (List.replicate n 0 ++ [0]) (-cfg.window) = List.replicate (n+1) 0 := by
  have hwindow := cfg.window_pos
  have hkeep : ¬(0 : Int) < -cfg.window := by omega
  rw [← List.replicate_succ',pruneBefore,List.replicate_succ,List.dropWhile_cons]
  exact if_neg (by simpa using hkeep)

def AtOnce (s : Guarded) (a : Action) : Prop :=
  s.clock = 0 ∧ a.now = 0 ∧ ∀ p ∈ s.pending,p.time = 0

theorem AtOnce.prompt (h : AtOnce s a) : Prompt cfg s a := by
  have hpt := cfg.probeTimeout_pos
  refine ⟨by rw [h.1,h.2.1],fun p hp => ?_⟩
  rw [h.2.1,h.2.2 p hp]
  omega

theorem failing_next (cfg : BreakerConfig) (n : Nat) :
    Reaches (step cfg) AtOnce (failing cfg n) [.allow 1 0,.report 1 false 0]
      (if (n+1 : Int) < cfg.failureThreshold then failing cfg (n+1) else tripped cfg) := by
  have hprune := failing_prune cfg n
  have hallow : step cfg (failing cfg n) (.allow 1 0) =
      some ⟨(failing cfg n).breaker,0,0,[⟨1,0,none⟩,⟨0,0,none⟩]⟩ := by
    simp [step,failing,isPending,Breaker.allowLocal,newBreaker,newSharedBreaker]
  have hreport : step cfg ⟨(failing cfg n).breaker,0,0,[⟨1,0,none⟩,⟨0,0,none⟩]⟩
      (.report 1 false 0) =
      some (if (n+1 : Int) < cfg.failureThreshold then failing cfg (n+1) else tripped cfg) := by
    by_cases hbelow : (n+1 : Int) < cfg.failureThreshold
    · simp [step,isPending,failing,newBreaker,newSharedBreaker,Breaker.recordFailureLocally,
        Breaker.releaseProbe,hprune,hbelow]
    · simp [step,isPending,failing,tripped,newBreaker,newSharedBreaker,Breaker.recordFailureLocally,
        Breaker.releaseProbe,Breaker.open,Breaker.setState,hprune,hbelow]
  exact .next ⟨rfl,rfl,by simp [failing]⟩ hallow (.next ⟨rfl,rfl,by simp⟩ hreport (.stop _))

theorem reaches_failing (cfg : BreakerConfig) {n : Nat} (hn : (n : Int) < cfg.failureThreshold) :
    ∃ actions,Reaches (step cfg) AtOnce (start cfg) actions (failing cfg n) := by
  induction n with
  | zero =>
    have hallow : step cfg (start cfg) (.allow 0 0) = some (failing cfg 0) := by
      simp [step,start,failing,isPending,Breaker.allowLocal,newBreaker,newSharedBreaker]
    exact ⟨_,.next ⟨rfl,rfl,by simp [start]⟩ hallow (.stop _)⟩
  | succ n ih =>
    obtain ⟨actions,hrun⟩ := ih (by omega)
    have hnext := failing_next cfg n
    rw [if_pos (by exact_mod_cast hn)] at hnext
    exact ⟨_,hrun.append hnext⟩

theorem reaches_tripped (cfg : BreakerConfig) :
    ∃ actions,Reaches (step cfg) AtOnce (start cfg) actions (tripped cfg) := by
  have hpos := cfg.failureThreshold_pos
  obtain ⟨actions,hrun⟩ := reaches_failing cfg
    (show ((cfg.failureThreshold-1).toNat : Int) < cfg.failureThreshold by omega)
  have hnext := failing_next cfg (cfg.failureThreshold-1).toNat
  rw [if_neg (by omega)] at hnext
  exact ⟨_,hrun.append hnext⟩

/-- Half-open since the first cooldown ended, with caller 1 as the probe. -/
def probing (cfg : BreakerConfig) (pending : List Admission) : Guarded :=
  ⟨{ (newBreaker cfg).open cfg 0 with
      state := .halfOpen
      probeInFlight := true
      probeStartedAt := cfg.cooldownBase },
    cfg.cooldownBase,1,⟨1,cfg.cooldownBase,some 1⟩ :: pending⟩

theorem step_probing (cfg : BreakerConfig) {pending : List Admission}
    (hfresh : pending.any (·.caller = 1) = false) :
    step cfg ⟨(newBreaker cfg).open cfg 0,0,0,pending⟩ (.allow 1 cfg.cooldownBase) =
      some (probing cfg pending) := by
  have hcool : ((newBreaker cfg).open cfg 0).cooldown = cfg.cooldownBase := nextCooldown_one cfg
  simp only [step,isPending,hfresh,Bool.false_eq_true,if_false,Breaker.allowLocal,
    Breaker.open_state,hcool,Breaker.open_openedAt,sub_zero,le_refl,and_self,if_true]
  rfl

theorem reaches_two (cfg : BreakerConfig) (hthreshold : ¬cfg.successThreshold ≤ 1)
    (hbase : cfg.cooldownBase < cfg.probeTimeout) :
    ∃ actions s,Reaches (step cfg) (Prompt cfg) (start cfg) actions s ∧ ¬s.Single := by
  have hbase_pos := cfg.cooldownBase_pos
  have hpt := cfg.probeTimeout_pos
  obtain ⟨actions,hrun⟩ := reaches_tripped cfg
  have hrun : Reaches (step cfg) (Prompt cfg) (start cfg) actions (tripped cfg) :=
    hrun.mono fun _ _ h => h.prompt
  -- caller 0 was admitted before the breaker opened; its success frees the slot caller 1 holds
  have hlate : step cfg (probing cfg [⟨0,0,none⟩]) (.report 0 true cfg.cooldownBase) =
      some ⟨{ (probing cfg []).breaker with probeInFlight := false, successStreak := 1 },
        cfg.cooldownBase,1,[⟨1,cfg.cooldownBase,some 1⟩]⟩ := by
    simp [step,isPending,probing,Breaker.recordSuccessLocally,Breaker.releaseProbe,
      Breaker.usesStore,newBreaker,newSharedBreaker,Breaker.open,Breaker.setState,hthreshold]
  have hagain : step cfg
        ⟨{ (probing cfg []).breaker with probeInFlight := false, successStreak := 1 },
          cfg.cooldownBase,1,[⟨1,cfg.cooldownBase,some 1⟩]⟩ (.allow 2 cfg.cooldownBase) =
      some ⟨{ (probing cfg []).breaker with successStreak := 1 },cfg.cooldownBase,1,
        [⟨2,cfg.cooldownBase,some 1⟩,⟨1,cfg.cooldownBase,some 1⟩]⟩ := by
    simp [step,isPending,probing,Breaker.allowLocal,Breaker.claimProbe]
  refine ⟨_,_,hrun.append (.next ⟨?_,?_⟩ (step_probing cfg rfl)
    (.next ⟨?_,?_⟩ hlate (.next ⟨?_,?_⟩ hagain (.stop _)))),?_⟩
  · simpa [tripped,Action.now] using hbase_pos.le
  · simpa [tripped,Action.now] using hbase
  · simp [probing,Action.now]
  · simp [probing,Action.now,hpt,hbase]
  · simp [Action.now]
  · simp [Action.now,hpt]
  · simp [Single,probes,probing]

/-- At the last moment itself `claimProbe` already takes the slot for leaked. -/
theorem reaches_reclaimed (cfg : BreakerConfig) :
    ∃ actions s,Reaches (step cfg) (Timely cfg) (start cfg) actions s ∧ ¬s.Single := by
  have hbase_pos := cfg.cooldownBase_pos
  have hpt := cfg.probeTimeout_pos
  obtain ⟨actions,hrun⟩ := reaches_tripped cfg
  have hrun : Reaches (step cfg) (Timely cfg) (start cfg) actions (tripped cfg) :=
    hrun.mono fun s a h =>
      have hprompt : Prompt cfg s a := h.prompt
      ⟨hprompt.1,fun p hp => (hprompt.2 p hp).le⟩
  have hidle : step cfg (tripped cfg) (.report 0 true 0) =
      some ⟨(newBreaker cfg).open cfg 0,0,0,[]⟩ := by
    simp [step,isPending,tripped,Breaker.recordSuccessLocally,Breaker.releaseProbe,
      newBreaker,newSharedBreaker,Breaker.open,Breaker.setState]
  have hagain : step cfg (probing cfg []) (.allow 2 (cfg.cooldownBase+cfg.probeTimeout)) =
      some ⟨{ (probing cfg []).breaker with probeStartedAt := cfg.cooldownBase+cfg.probeTimeout },
        cfg.cooldownBase+cfg.probeTimeout,1,
        [⟨2,cfg.cooldownBase+cfg.probeTimeout,some 1⟩,⟨1,cfg.cooldownBase,some 1⟩]⟩ := by
    simp [step,isPending,probing,Breaker.allowLocal,Breaker.claimProbe]
  refine ⟨_,_,hrun.append (.next ⟨?_,?_⟩ hidle (.next ⟨?_,?_⟩ (step_probing cfg rfl)
    (.next ⟨?_,?_⟩ hagain (.stop _)))),?_⟩
  · simp [tripped,Action.now]
  · simpa [tripped,Action.now] using hpt.le
  · simpa [Action.now] using hbase_pos.le
  · simp
  · simpa [probing,Action.now] using hpt.le
  · simp [probing,Action.now]
  · simp [Single,probes,probing]

/-- One probe at a time, for callers that report before `ProbeTimeout` has
passed, exactly where the first success closes the breaker or no call outlasts
a cooldown; for callers that may take all of `ProbeTimeout`, nowhere. -/
theorem one_probe_per_half_open_iff (cfg : BreakerConfig) :
    ((∀ actions s,Reaches (step cfg) (Prompt cfg) (start cfg) actions s → s.Single) ↔
      cfg.successThreshold = 1 ∨ cfg.probeTimeout ≤ cfg.cooldownBase) ∧
    ∃ actions s,Reaches (step cfg) (Timely cfg) (start cfg) actions s ∧ ¬s.Single := by
  refine ⟨⟨?_,fun hcfg actions s hrun => single_of_config hcfg hrun⟩,reaches_reclaimed cfg⟩
  intro hsingle
  by_contra hcfg
  have hpos := cfg.successThreshold_pos
  obtain ⟨actions,s,hrun,htwo⟩ := reaches_two cfg (by omega) (by omega)
  exact htwo (hsingle actions s hrun)

theorem slowCalls_valid : BreakerConfig.Valid 1 100 1 8 2 10 1 := by decide

def slowCalls : BreakerConfig := .of slowCalls_valid

/-- Caller 0 was admitted while closed and succeeds during the half-open
period; that frees the slot of caller 1, which has not reported. -/
theorem late_success_frees_slot :
    ∃ s,Reaches (step slowCalls) (Prompt slowCalls) (start slowCalls)
        [.allow 0 0,.allow 1 0,.report 1 false 0,.allow 1 1,.report 0 true 2,.allow 2 2] s ∧
      s.breaker.state = .halfOpen ∧ s.probes.map (·.caller) = [2,1] ∧ ¬s.Single :=
  ⟨_,Reaches.of_run rfl,by decide,by decide,by decide⟩

end Guarded

end Switchyard.Resilience
