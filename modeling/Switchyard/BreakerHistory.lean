import Switchyard.CircuitBreaker
import Switchyard.StepRuns
set_option autoImplicit false

/-!
What a local breaker does, told by the history of its calls alone: when it opens
by the failures since it was last closed, and how long it stays open by the
openings since then. Every call runs under the breaker's mutex, so a run is the
order in which the calls took it.
-/

namespace Switchyard.Resilience
open StepRuns

inductive LocalCall where
  | allow
  | success
  | failure
  | reset
  deriving DecidableEq, Repr

def Breaker.after (cfg : BreakerConfig) (b : Breaker) (now : Int) : LocalCall → Breaker
  | .allow => (b.allowLocal cfg now).2
  | .success => (b.recordSuccessLocally cfg now).2
  | .failure => (b.recordFailureLocally cfg now).2
  | .reset => b.resetLocally cfg now

structure LocalEvent where
  call : LocalCall
  time : Int
  before : BreakerState
  after : BreakerState
  deriving DecidableEq, Repr

namespace LocalEvent

variable (e : LocalEvent)

def clears : Bool := e.after = .closed ∧ (e.before ≠ .closed ∨ e.call = .reset)

def counts : Bool := e.call = .failure ∧ e.before = .closed

def opens : Bool := e.before ≠ .open ∧ e.after = .open

def idles : Bool := e.call = .success ∧ e.before = .closed

end LocalEvent

/-- The part of a history, newest first, since the breaker was created, reset or
last became closed. -/
def episode (log : List LocalEvent) : List LocalEvent := log.takeWhile fun e => !e.clears

def failureTimes (log : List LocalEvent) : List Int :=
  (((episode log).filter LocalEvent.counts).map LocalEvent.time).reverse

def openings (log : List LocalEvent) : List LocalEvent := (episode log).filter LocalEvent.opens

structure Logged where
  breaker : Breaker
  clock : Int
  log : List LocalEvent
  deriving DecidableEq, Repr

namespace Logged

structure Action where
  call : LocalCall
  now : Int
  deriving DecidableEq, Repr

def start (cfg : BreakerConfig) (clock : Int) : Logged := ⟨newBreaker cfg,clock,[]⟩

variable (cfg : BreakerConfig)

def step (s : Logged) (a : Action) : Option Logged :=
  let b := s.breaker.after cfg a.now a.call
  some ⟨b,a.now,⟨a.call,a.now,s.breaker.state,b.state⟩ :: s.log⟩

def Ordered (s : Logged) (a : Action) : Prop := s.clock ≤ a.now

def Steady (s : Logged) (a : Action) : Prop := s.clock ≤ a.now ∧ a.call ≠ .reset

instance (s : Logged) (a : Action) : Decidable (Ordered s a) := inferInstanceAs (Decidable (_ ≤ _))

instance (s : Logged) (a : Action) : Decidable (Steady s a) := inferInstanceAs (Decidable (_ ∧ _))

end Logged

theorem pruneBefore_sorted {ts : List Int} (h : ts.Pairwise (· ≤ ·)) (cutoff : Int) :
    pruneBefore ts cutoff = ts.filter (cutoff ≤ ·) := by
  induction ts with
  | nil => rfl
  | cons t ts ih =>
    rw [List.pairwise_cons] at h
    unfold pruneBefore at ih ⊢
    by_cases ht : t < cutoff
    · rw [List.dropWhile_cons_of_pos (by simpa using ht),ih h.2,
        List.filter_cons_of_neg (by simpa using ht)]
    · have hall : (t :: ts).filter (cutoff ≤ ·) = t :: ts := by
        rw [List.filter_eq_self]
        intro u hu
        obtain rfl | hu := List.mem_cons.1 hu
        · simpa using ht
        · have hle := h.1 u hu
          simp only [decide_eq_true_eq]
          omega
      rw [List.dropWhile_cons_of_neg (by simpa using ht),hall]

theorem episode_cons (e : LocalEvent) (log : List LocalEvent) :
    episode (e :: log) = if e.clears then [] else e :: episode log := by
  unfold episode
  cases h : e.clears <;> simp [h]

variable {e : LocalEvent}

theorem failureTimes_clears (h : e.clears = true) (log : List LocalEvent) :
    failureTimes (e :: log) = [] := by
  simp [failureTimes,episode_cons,h]

theorem failureTimes_counts (h : e.clears = false) (hcounts : e.counts = true)
    (log : List LocalEvent) : failureTimes (e :: log) = failureTimes log ++ [e.time] := by
  simp [failureTimes,episode_cons,h,hcounts]

theorem failureTimes_other (h : e.clears = false) (hcounts : e.counts = false)
    (log : List LocalEvent) : failureTimes (e :: log) = failureTimes log := by
  simp [failureTimes,episode_cons,h,hcounts]

theorem openings_clears (h : e.clears = true) (log : List LocalEvent) :
    openings (e :: log) = [] := by
  simp [openings,episode_cons,h]

theorem openings_opens (h : e.opens = true) (log : List LocalEvent) :
    openings (e :: log) = e :: openings log := by
  have hclears : e.clears = false := by
    simp only [LocalEvent.opens,decide_eq_true_eq] at h
    simp [LocalEvent.clears,h.2]
  simp [openings,episode_cons,h,hclears]

theorem openings_other (h : e.clears = false) (hopens : e.opens = false) (log : List LocalEvent) :
    openings (e :: log) = openings log := by
  simp [openings,episode_cons,h,hopens]

/-- The breaker changed in its probe slot and its streak alone. -/
structure Breaker.Kept (b b' : Breaker) : Prop where
  store : b'.store = b.store
  state : b'.state = b.state
  failures : b'.failures = b.failures
  openedAt : b'.openedAt = b.openedAt
  cooldown : b'.cooldown = b.cooldown
  reopens : b'.reopens = b.reopens
  idle : b.state = .closed → b.probeInFlight = false → b' = b

inductive Turned (cfg : BreakerConfig) (now : Int) (b : Breaker) : LocalCall → Breaker → Prop where
  | kept {call : LocalCall} {b' : Breaker} : call ≠ .reset →
      (call = .failure → b.state = .open) →
      (call = .allow → b.state = .open → now-b.openedAt < b.cooldown) →
      b.Kept b' → Turned cfg now b call b'
  | probes : b.state = .open → b.cooldown ≤ now-b.openedAt →
      Turned cfg now b .allow { b with
        state := .halfOpen
        probeInFlight := true
        probeStartedAt := now }
  | counted : b.state = .closed →
      (pruneBefore (b.failures ++ [now]) (now-cfg.window)).length < cfg.failureThreshold →
      Turned cfg now b .failure { b with
        failures := pruneBefore (b.failures ++ [now]) (now-cfg.window)
        probeInFlight := false }
  | opens : b.state ≠ .open →
      (b.state = .closed → cfg.failureThreshold ≤
        (pruneBefore (b.failures ++ [now]) (now-cfg.window)).length) →
      Turned cfg now b .failure (b.open cfg now)
  | closes : b.state = .halfOpen →
      Turned cfg now b .success { b with
        state := .closed
        probeInFlight := false
        successStreak := b.successStreak+1
        reopens := 0
        cooldown := cfg.cooldownBase }
  | reset : Turned cfg now b .reset (b.resetLocally cfg now)

theorem Breaker.kept_self (b : Breaker) : b.Kept b := ⟨rfl,rfl,rfl,rfl,rfl,rfl,fun _ _ => rfl⟩

theorem Breaker.after_turned {cfg : BreakerConfig} {b : Breaker} (hstore : b.store = false)
    (now : Int) (call : LocalCall) : Turned cfg now b call (b.after cfg now call) := by
  cases call with
  | allow =>
    have hallowed : b.Allowed cfg now (b.allowLocal cfg now) := Breaker.allowLocal_allowed
    unfold Breaker.after
    generalize b.allowLocal cfg now = out at hallowed
    cases hallowed with
    | closed hstate => exact .kept (by simp) (by simp) (by simp [hstate]) b.kept_self
    | cooling hstate hcool => exact .kept (by simp) (by simp) (fun _ _ => hcool) b.kept_self
    | elapsed hstate hcool => exact .probes hstate hcool
    | taken hstate _ _ => exact .kept (by simp) (by simp) (by simp [hstate]) b.kept_self
    | claimed hstate _ =>
      exact .kept (by simp) (by simp) (by simp [hstate]) ⟨rfl,rfl,rfl,rfl,rfl,rfl,by simp [hstate]⟩
  | success =>
    have hsucceeded : b.Succeeded cfg now (b.recordSuccessLocally cfg now) :=
      Breaker.recordSuccessLocally_succeeded
    unfold Breaker.after
    generalize b.recordSuccessLocally cfg now = out at hsucceeded
    cases hsucceeded with
    | idle hstate =>
      refine .kept (by simp) (by simp) (by simp) ⟨rfl,rfl,rfl,rfl,rfl,rfl,fun _ hslot => ?_⟩
      rw [Breaker.releaseProbe,← hslot]
    | publish _ huses => simp [Breaker.usesStore,hstore] at huses
    | counted hstate _ _ =>
      exact .kept (by simp) (by simp) (by simp) ⟨rfl,rfl,rfl,rfl,rfl,rfl,by simp [hstate]⟩
    | closes hstate _ _ => exact .closes hstate
  | failure =>
    have hfailed : b.Failed cfg now (b.recordFailureLocally cfg now) :=
      Breaker.recordFailureLocally_failed
    unfold Breaker.after
    generalize b.recordFailureLocally cfg now = out at hfailed
    cases hfailed with
    | ignored hstate =>
      exact .kept (by simp) (fun _ => hstate) (by simp) ⟨rfl,rfl,rfl,rfl,rfl,rfl,by simp [hstate]⟩
    | counted hstate hbelow => exact .counted hstate hbelow
    | opens hstate hreached => exact .opens hstate hreached
  | reset => exact .reset

namespace Logged

variable {cfg : BreakerConfig} {s t : Logged} {a : Action}

theorem stepped (hstore : s.breaker.store = false) (h : step cfg s a = some t) :
    ∃ b,Turned cfg a.now s.breaker a.call b ∧
      t = ⟨b,a.now,⟨a.call,a.now,s.breaker.state,b.state⟩ :: s.log⟩ := by
  cases h
  exact ⟨_,Breaker.after_turned hstore a.now a.call,rfl⟩

structure Dated (s : Logged) : Prop where
  sorted : s.log.Pairwise fun e f => f.time ≤ e.time
  past : ∀ e ∈ s.log,e.time ≤ s.clock

theorem Dated.cons (h : s.Dated) {b : Breaker} {e : LocalEvent} (he : s.clock ≤ e.time) :
    (Logged.mk b e.time (e :: s.log)).Dated := by
  have hpast : ∀ f ∈ s.log,f.time ≤ e.time := fun f hf => (h.past f hf).trans he
  refine ⟨List.pairwise_cons.2 ⟨hpast,h.sorted⟩,fun f hf => ?_⟩
  obtain rfl | hf := List.mem_cons.1 hf
  · exact le_refl _
  · exact hpast f hf

theorem Dated.failureTimes (h : s.Dated) :
    (failureTimes s.log).Pairwise (· ≤ ·) ∧ ∀ t ∈ failureTimes s.log,t ≤ s.clock := by
  have hsub : ((episode s.log).filter LocalEvent.counts).Sublist s.log :=
    List.filter_sublist.trans (List.takeWhile_sublist _)
  constructor
  · unfold Resilience.failureTimes
    rw [List.pairwise_reverse,List.pairwise_map]
    exact h.sorted.sublist hsub
  · intro t ht
    simp only [Resilience.failureTimes,List.mem_reverse,List.mem_map] at ht
    obtain ⟨e,he,rfl⟩ := ht
    exact h.past e (hsub.subset he)

/-- The failure window holds those of the episode's failures that were in it at
the last of them. -/
structure Windowed (cfg : BreakerConfig) (s : Logged) : Prop where
  dated : s.Dated
  stays : s.breaker.store = false
  free : s.breaker.state = .closed → s.breaker.probeInFlight = false
  closed : s.breaker.state = .closed → ∃ cutoff ≤ s.clock-cfg.window,
    s.breaker.failures = (failureTimes s.log).filter (cutoff ≤ ·)
  emptied : s.breaker.state ≠ .closed → s.breaker.failures = []

theorem start_windowed (cfg : BreakerConfig) (clock : Int) : Windowed cfg (start cfg clock) where
  dated := ⟨.nil,by simp [start]⟩
  stays := rfl
  free _ := rfl
  closed _ := ⟨_,le_refl _,rfl⟩
  emptied h := absurd rfl h

theorem Windowed.prune (h : Windowed cfg s) (hclosed : s.breaker.state = .closed) {now : Int}
    (hnow : s.clock ≤ now) :
    pruneBefore (s.breaker.failures ++ [now]) (now-cfg.window) =
      (failureTimes s.log ++ [now]).filter (now-cfg.window ≤ ·) := by
  obtain ⟨cutoff,hcutoff,hfailures⟩ := h.closed hclosed
  obtain ⟨hsorted,hpast⟩ := h.dated.failureTimes
  have hascending : (s.breaker.failures ++ [now]).Pairwise (· ≤ ·) := by
    rw [hfailures,List.pairwise_append]
    refine ⟨hsorted.filter _,List.pairwise_singleton _ _,fun t ht u hu => ?_⟩
    rw [List.mem_singleton.1 hu]
    exact (hpast t (List.mem_filter.1 ht).1).trans hnow
  have hboth : ∀ t : Int,(decide (now-cfg.window ≤ t) && decide (cutoff ≤ t)) =
      decide (now-cfg.window ≤ t) := by
    intro t
    by_cases ht : now-cfg.window ≤ t
    · have hkept : cutoff ≤ t := by omega
      simp [ht,hkept]
    · simp [ht]
  rw [pruneBefore_sorted hascending,hfailures,List.filter_append,List.filter_append,
    List.filter_filter]
  simp only [hboth]

theorem Windowed.step (h : Windowed cfg s) (hnow : s.clock ≤ a.now) (hst : step cfg s a = some t) :
    Windowed cfg t := by
  obtain ⟨b,hturned,rfl⟩ := stepped h.stays hst
  obtain ⟨call,now⟩ := a
  refine ⟨h.dated.cons (e := ⟨call,now,_,_⟩) hnow,?_,?_,?_,?_⟩
  · cases hturned with
    | kept _ _ _ hkept => exact hkept.store.trans h.stays
    | reset => exact Breaker.resetLocally_store.trans h.stays
    | _ => exact h.stays
  · intro hstate
    cases hturned with
    | kept _ _ _ hkept =>
      rw [hkept.state] at hstate
      rw [hkept.idle hstate (h.free hstate)]
      exact h.free hstate
    | reset => exact Breaker.resetLocally_probeInFlight
    | probes _ _ => cases hstate
    | opens _ _ => cases hstate
    | _ => rfl
  · intro hstate
    cases hturned with
    | kept hreset hfailure _ hkept =>
      rw [hkept.state] at hstate
      obtain ⟨cutoff,hcutoff,hfailures⟩ := h.closed hstate
      refine ⟨cutoff,by simp only [] at hnow ⊢; omega,?_⟩
      rw [hkept.failures,hfailures,failureTimes_other]
      · simp [LocalEvent.clears,hkept.state,hreset]
      · simp only [LocalEvent.counts,decide_eq_false_iff_not,not_and]
        intro hcall
        simp [hfailure hcall]
    | counted hclosed _ =>
      refine ⟨_,le_refl _,?_⟩
      rw [failureTimes_counts (by simp [LocalEvent.clears]) (by simp [LocalEvent.counts,hclosed])]
      exact h.prune hclosed hnow
    | closes hhalf =>
      refine ⟨_,le_refl _,?_⟩
      rw [failureTimes_clears (by simp [LocalEvent.clears,hhalf])]
      exact h.emptied (by simp [hhalf])
    | reset =>
      refine ⟨_,le_refl _,?_⟩
      rw [failureTimes_clears (by simp [LocalEvent.clears])]
      exact Breaker.resetLocally_failures
    | probes _ _ => cases hstate
    | opens _ _ => cases hstate
  · intro hstate
    cases hturned with
    | kept _ _ _ hkept =>
      rw [hkept.state] at hstate
      exact hkept.failures.trans (h.emptied hstate)
    | probes hopen _ => exact h.emptied (by simp [hopen])
    | counted hclosed _ => exact absurd hclosed hstate
    | opens _ _ => rfl
    | closes _ => exact absurd rfl hstate
    | reset => exact Breaker.resetLocally_failures

theorem reaches_windowed {clock : Int} {actions : List Action}
    (h : Reaches (step cfg) Ordered (start cfg clock) actions s) : Windowed cfg s :=
  h.invariant (fun _ _ _ hs hnow hst => hs.step hnow hst) (start_windowed cfg clock)

/-- A closed breaker opens at a failure exactly when the episode's failures in
the window, with this one, reach the threshold. -/
theorem Windowed.opens_iff (h : Windowed cfg s) (hclosed : s.breaker.state = .closed) {now : Int}
    (hnow : s.clock ≤ now) :
    (s.breaker.recordFailureLocally cfg now).2.state = .open ↔
      cfg.failureThreshold ≤ ((failureTimes s.log).filter (now-cfg.window ≤ ·)).length+1 := by
  have hwindow := cfg.window_pos
  have hlength : (pruneBefore (s.breaker.failures ++ [now]) (now-cfg.window)).length =
      ((failureTimes s.log).filter (now-cfg.window ≤ ·)).length+1 := by
    rw [h.prune hclosed hnow,List.filter_append,List.length_append]
    simp [hwindow.le]
  have hfailed : s.breaker.Failed cfg now (s.breaker.recordFailureLocally cfg now) :=
    Breaker.recordFailureLocally_failed
  generalize s.breaker.recordFailureLocally cfg now = out at hfailed ⊢
  cases hfailed with
  | ignored hopen => simp [hclosed] at hopen
  | counted _ hbelow =>
    simp only [hclosed,reduceCtorEq,false_iff]
    omega
  | opens _ hreached =>
    have hle := hreached hclosed
    simp only [Breaker.open_state,true_iff]
    omega

/-- The same run without the successes reported while closed. -/
def Quieted (cfg : BreakerConfig) (clock : Int) (s : Logged) : Prop :=
  ∃ actions u,Reaches (step cfg) Ordered (start cfg clock) actions u ∧ u.clock ≤ s.clock ∧
    u.breaker = s.breaker ∧ u.log = s.log.filter fun e => !e.idles

theorem Quieted.step {clock : Int} (h : Quieted cfg clock s) (hwindowed : Windowed cfg s)
    (hnow : s.clock ≤ a.now) (hst : step cfg s a = some t) : Quieted cfg clock t := by
  obtain ⟨actions,u,hrun,hclock,hbreaker,hlog⟩ := h
  cases hst
  obtain ⟨call,now⟩ := a
  by_cases hidles : call = .success ∧ s.breaker.state = .closed
  · obtain ⟨rfl,hclosed⟩ := hidles
    have hsame : s.breaker.after cfg now .success = s.breaker := by
      have hturned : Turned cfg now s.breaker .success (s.breaker.after cfg now .success) :=
        Breaker.after_turned hwindowed.stays now .success
      generalize s.breaker.after cfg now .success = b at hturned ⊢
      cases hturned with
      | kept _ _ _ hkept => exact hkept.idle hclosed (hwindowed.free hclosed)
      | closes hhalf => simp [hclosed] at hhalf
    refine ⟨actions,u,hrun,hclock.trans hnow,hbreaker.trans hsame.symm,?_⟩
    rw [hlog,List.filter_cons_of_neg (by simp [LocalEvent.idles,hclosed])]
  · refine ⟨_,_,hrun.append (.next (hclock.trans hnow) rfl (.stop _)),le_refl _,?_,?_⟩
    · simp only [hbreaker]
    · simp only [hbreaker,hlog]
      rw [List.filter_cons_of_pos (by simpa [LocalEvent.idles,← imp_iff_not_or] using hidles)]

/-- A failure reported at `now` while closed opens the breaker exactly when the
failures reported while closed since it last became closed, at times not earlier
than now - Window and this one included, reach the threshold. Without the
successes reported while closed the run goes on as it did. -/
theorem opens_at_threshold {clock : Int} {actions : List Action}
    (h : Reaches (step cfg) Ordered (start cfg clock) actions s) :
    (s.breaker.state = .closed → ∀ now,s.clock ≤ now →
      ((s.breaker.recordFailureLocally cfg now).2.state = .open ↔
        cfg.failureThreshold ≤ ((failureTimes s.log).filter (now-cfg.window ≤ ·)).length+1)) ∧
    ∃ actions' u,Reaches (step cfg) Ordered (start cfg clock) actions' u ∧
      u.breaker = s.breaker ∧ u.log = s.log.filter fun e => !e.idles := by
  refine ⟨fun hclosed now hnow => (reaches_windowed h).opens_iff hclosed hnow,?_⟩
  have hquieted : Windowed cfg s ∧ Quieted cfg clock s :=
    h.invariant (I := fun s => Windowed cfg s ∧ Quieted cfg clock s)
      (fun _ _ _ hs hnow hst => ⟨hs.1.step hnow hst,hs.2.step hs.1 hnow hst⟩)
      ⟨start_windowed cfg clock,[],_,.stop _,le_refl _,rfl,rfl⟩
  obtain ⟨actions',u,hrun,-,hbreaker,hlog⟩ := hquieted.2
  exact ⟨actions',u,hrun,hbreaker,hlog⟩

theorem pairOfFailures_valid : BreakerConfig.Valid 2 10 4 32 1 5 1 := by decide

def pairOfFailures : BreakerConfig := .of pairOfFailures_valid

/-- Ten later the first failure still counts, eleven later no more. -/
theorem opens_at_threshold_pair :
    ∃ s,Reaches (step pairOfFailures) Ordered (start pairOfFailures 0)
        [⟨.failure,0⟩,⟨.success,5⟩] s ∧
      (s.breaker.recordFailureLocally pairOfFailures 10).2.state = .open ∧
      ¬(s.breaker.recordFailureLocally pairOfFailures 11).2.state = .open := by
  obtain ⟨s,hrun,hclosed,hclock,htimes⟩ :
      ∃ s,Reaches (step pairOfFailures) Ordered (start pairOfFailures 0)
          [⟨.failure,0⟩,⟨.success,5⟩] s ∧
        s.breaker.state = .closed ∧ s.clock = 5 ∧ failureTimes s.log = [0] :=
    Reaches.exists_of_run (by decide +kernel)
  have hopens := (opens_at_threshold hrun).1 hclosed
  refine ⟨s,hrun,?_,?_⟩
  · rw [hopens 10 (by omega),htimes]
    decide
  · rw [hopens 11 (by omega),htimes]
    decide

/-- `reopens` counts the openings of the episode, and an open breaker waits from
the latest of them. -/
structure Counted (cfg : BreakerConfig) (s : Logged) : Prop where
  stays : s.breaker.store = false
  reopens : s.breaker.reopens = (openings s.log).length
  closed : s.breaker.state = .closed → openings s.log = []
  cooling : s.breaker.state = .open →
    s.breaker.cooldown = nextCooldown cfg s.breaker.reopens ∧
    ∃ e ∈ (openings s.log).head?,e.time = s.breaker.openedAt

theorem start_counted (cfg : BreakerConfig) (clock : Int) : Counted cfg (start cfg clock) :=
  ⟨rfl,rfl,fun _ => rfl,fun h => by cases h⟩

theorem Counted.step (h : Counted cfg s) (hst : step cfg s a = some t) : Counted cfg t := by
  obtain ⟨b,hturned,rfl⟩ := stepped h.stays hst
  obtain ⟨call,now⟩ := a
  cases hturned with
  | kept hreset hfailure _ hkept =>
    have hsame := openings_other (e := ⟨call,now,s.breaker.state,b.state⟩)
      (by simp [LocalEvent.clears,hkept.state,hreset])
      (by simp [LocalEvent.opens,hkept.state]) s.log
    refine ⟨hkept.store.trans h.stays,?_,fun hstate => ?_,fun hstate => ?_⟩
    · rw [hsame]
      exact hkept.reopens.trans h.reopens
    · rw [hsame]
      exact h.closed (hkept.state ▸ hstate)
    · rw [hsame,hkept.cooldown,hkept.reopens,hkept.openedAt]
      exact h.cooling (hkept.state ▸ hstate)
  | probes hopen _ =>
    have hsame := openings_other (e := ⟨.allow,now,s.breaker.state,.halfOpen⟩)
      (by simp [LocalEvent.clears]) (by simp [LocalEvent.opens]) s.log
    refine ⟨h.stays,?_,by simp,by simp⟩
    rw [hsame]
    exact h.reopens
  | counted hclosed _ =>
    have hsame := openings_other (e := ⟨.failure,now,s.breaker.state,s.breaker.state⟩)
      (by simp [LocalEvent.clears]) (by simp [LocalEvent.opens]) s.log
    refine ⟨h.stays,?_,fun _ => ?_,by simp [hclosed]⟩
    · rw [hsame]
      exact h.reopens
    · rw [hsame]
      exact h.closed hclosed
  | opens hstate _ =>
    have hnew := openings_opens (e := ⟨.failure,now,s.breaker.state,.open⟩)
      (by simpa [LocalEvent.opens] using hstate) s.log
    refine ⟨h.stays,?_,by simp,fun _ => ⟨rfl,⟨.failure,now,s.breaker.state,.open⟩,?_,rfl⟩⟩
    · have hreopens := h.reopens
      simp only [hnew,List.length_cons,Breaker.open,Breaker.setState]
      omega
    · simp [hnew]
  | closes hhalf =>
    have hnone := openings_clears (e := ⟨.success,now,s.breaker.state,.closed⟩)
      (by simp [LocalEvent.clears,hhalf]) s.log
    exact ⟨h.stays,by simp [hnone],fun _ => hnone,by simp⟩
  | reset =>
    have hnone := openings_clears (e := ⟨.reset,now,s.breaker.state,.closed⟩)
      (by simp [LocalEvent.clears]) s.log
    exact ⟨by simp [h.stays],by simp [hnone],fun _ => by simp [hnone],by simp⟩

structure Cooling (opened cooldown reopens : Int) (s : Logged) : Prop where
  stays : s.breaker.store = false
  state : s.breaker.state = .open
  openedAt : s.breaker.openedAt = opened
  cooldown : s.breaker.cooldown = cooldown
  reopens : s.breaker.reopens = reopens

variable {opened cooldown reopens : Int}

theorem Cooling.step (h : Cooling opened cooldown reopens s) (hst : step cfg s a = some t)
    (hreset : a.call ≠ .reset) (hearly : a.call = .allow → a.now < opened+cooldown) :
    Cooling opened cooldown reopens t := by
  obtain ⟨b,hturned,rfl⟩ := stepped h.stays hst
  have hopen := h.state
  obtain ⟨call,now⟩ := a
  cases hturned with
  | kept _ _ _ hkept =>
    exact ⟨hkept.store.trans h.stays,hkept.state.trans h.state,hkept.openedAt.trans h.openedAt,
      hkept.cooldown.trans h.cooldown,hkept.reopens.trans h.reopens⟩
  | probes _ hcool =>
    have hlate : now < opened+cooldown := hearly rfl
    have hdone : cooldown ≤ now-opened := by
      rw [← h.openedAt,← h.cooldown]
      exact hcool
    omega
  | counted hclosed _ => simp [hopen] at hclosed
  | opens hne _ => exact absurd hopen hne
  | closes hhalf => simp [hopen] at hhalf
  | reset => exact absurd rfl hreset

theorem Cooling.refuses (h : Cooling opened cooldown reopens s) {now : Int}
    (hnow : now < opened+cooldown) : (s.breaker.allowLocal cfg now).1 = false := by
  have hwait : ¬cooldown ≤ now-opened := by omega
  simp [Breaker.allowLocal,h.state,h.openedAt,h.cooldown,hwait]

theorem Cooling.admits (h : Cooling opened cooldown reopens s) {now : Int}
    (hnow : opened+cooldown ≤ now) :
    (s.breaker.allowLocal cfg now).1 = true ∧
      (s.breaker.allowLocal cfg now).2.state = .halfOpen := by
  have hdone : cooldown ≤ now-opened := by omega
  simp [Breaker.allowLocal,Breaker.claimProbe,Breaker.setState,h.state,h.openedAt,h.cooldown,hdone]

/-- Until the cooldown is over the breaker is open, whatever is reported. -/
theorem Cooling.holds (h : Cooling opened cooldown reopens s) {actions : List Action}
    (hrun : Reaches (Logged.step cfg) Steady s actions t) :
    Cooling opened cooldown reopens t ∨ opened+cooldown ≤ t.clock := by
  refine hrun.invariant
    (I := fun t => Cooling opened cooldown reopens t ∨ opened+cooldown ≤ t.clock)
    (fun s a t hs hok hst => ?_) (.inl h)
  obtain hs | hover := hs
  · by_cases hearly : a.call = .allow → a.now < opened+cooldown
    · exact .inl (hs.step hst hok.2 hearly)
    · cases hst
      simp only [Classical.not_imp,not_lt] at hearly
      exact .inr hearly.2
  · cases hst
    exact .inr (hover.trans hok.1)

theorem Cooling.lasts (h : Cooling opened cooldown reopens s) {actions : List Action}
    (hrun : Reaches (Logged.step cfg) Steady s actions t)
    (hearly : ∀ a ∈ actions,a.call = .allow → a.now < opened+cooldown) :
    Cooling opened cooldown reopens t := by
  induction hrun with
  | stop s => exact h
  | next hok hst _ ih =>
    rw [List.forall_mem_cons] at hearly
    exact ih (h.step hst hok.2 hearly.1) hearly.2

/-- An open breaker entered its state at the latest opening of the episode, the
k-th: `reopens` is k; no `Allow` before that time plus the k-th cooldown is
admitted; until the first `Allow` from then on the breaker stays open; and that
one is admitted as a probe. -/
theorem open_for_cooldown {clock : Int} {actions : List Action}
    (h : Reaches (step cfg) Steady (start cfg clock) actions s) (hopen : s.breaker.state = .open) :
    ∃ e ∈ (openings s.log).head?,
      s.breaker.reopens = (openings s.log).length ∧
      ∀ actions' u,Reaches (step cfg) Steady s actions' u →
        (∀ now,u.clock ≤ now → now < e.time+nextCooldown cfg (openings s.log).length →
          (u.breaker.allowLocal cfg now).1 = false) ∧
        ((∀ a ∈ actions',a.call = .allow →
            a.now < e.time+nextCooldown cfg (openings s.log).length) →
          u.breaker.state = .open ∧ u.breaker.reopens = (openings s.log).length ∧
          ∀ now,u.clock ≤ now → e.time+nextCooldown cfg (openings s.log).length ≤ now →
            (u.breaker.allowLocal cfg now).1 = true ∧
            (u.breaker.allowLocal cfg now).2.state = .halfOpen) := by
  have hcounted : Counted cfg s :=
    h.invariant (fun _ _ _ hs _ hst => hs.step hst) (start_counted cfg clock)
  obtain ⟨hcooldown,e,he,htime⟩ := hcounted.cooling hopen
  rw [hcounted.reopens] at hcooldown
  have hcooling : Cooling e.time (nextCooldown cfg (openings s.log).length)
      (openings s.log).length s := ⟨hcounted.stays,hopen,htime.symm,hcooldown,hcounted.reopens⟩
  refine ⟨e,he,hcounted.reopens,fun actions' u hrun =>
    ⟨fun now hnow hbefore => ?_,fun hearly => ?_⟩⟩
  · obtain hstill | hover := hcooling.holds hrun
    · exact hstill.refuses hbefore
    · omega
  · have hstill := hcooling.lasts hrun hearly
    exact ⟨hstill.state,hstill.reopens,fun now _ hafter => hstill.admits hafter⟩

/-- The second opening in a row waits twice as long. -/
theorem open_for_cooldown_twice :
    ∃ s,Reaches (step pairOfFailures) Steady (start pairOfFailures 0)
        [⟨.failure,0⟩,⟨.failure,0⟩,⟨.allow,4⟩,⟨.failure,5⟩] s ∧
      s.breaker.reopens = 2 ∧ (s.breaker.allowLocal pairOfFailures 12).1 = false ∧
      (s.breaker.allowLocal pairOfFailures 13).1 = true := by
  obtain ⟨s,hrun,hopen,hclock,hopenings⟩ :
      ∃ s,Reaches (step pairOfFailures) Steady (start pairOfFailures 0)
          [⟨.failure,0⟩,⟨.failure,0⟩,⟨.allow,4⟩,⟨.failure,5⟩] s ∧
        s.breaker.state = .open ∧ s.clock = 5 ∧
        openings s.log = [⟨.failure,5,.halfOpen,.open⟩,⟨.failure,0,.closed,.open⟩] :=
    Reaches.exists_of_run (by decide +kernel)
  obtain ⟨e,he,hreopens,hlater⟩ := open_for_cooldown hrun hopen
  have hcooldown : nextCooldown pairOfFailures 2 = 8 := by decide +kernel
  simp only [hopenings,List.head?_cons,Option.mem_some_iff] at he
  subst he
  obtain ⟨hrefused,hadmitted⟩ := hlater [] s (.stop s)
  simp only [hopenings] at hrefused hadmitted hreopens
  refine ⟨s,hrun,hreopens,hrefused 12 (by omega) ?_,((hadmitted (by simp)).2.2 13 (by omega) ?_).1⟩
  · simp [hcooldown]
  · simp [hcooldown]

end Logged

end Switchyard.Resilience
