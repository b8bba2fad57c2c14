import Switchyard.SharedBreaker
import Switchyard.StepRuns
set_option autoImplicit false

/-!
A replica whose publish failed. It runs on its own state until `unpublished` is
cleared, and that flag also keeps it from every call of the store that would
clear it.
-/

namespace Switchyard.Resilience
open StepRuns

/-- A shared breaker, and whether it has been closed since its last publish
that failed. -/
structure Tracked where
  replica : SharedBreaker
  closed : Bool
  deriving DecidableEq, Repr

inductive Tracked.Call where
  | allow (now later : Int) (load : Except String SharedState) (claim : Except String Bool)
  | recordSuccess (now later : Int) (reply : Except String SharedState)
  | recordFailure (now later : Int) (answer : Except String Unit)
  | reset (now later : Int) (answer : Except String Unit)

namespace Tracked

def Call.isReset : Call → Bool
  | .reset _ _ _ => true
  | _ => false

def Call.fails : Call → Bool
  | .recordFailure _ _ (.error _) => true
  | _ => false

variable (cfg : BreakerConfig)

def Call.run (r : SharedBreaker) : Call → Option (Int × Int) × SharedBreaker
  | .allow now later load claim => (none,(r.allow cfg now later load claim).2)
  | .recordSuccess now later reply => (none,r.recordSuccess cfg now later reply)
  | .recordFailure now later answer => r.recordFailure cfg now later answer
  | .reset now later answer => (none,(r.reset cfg now later answer).2)

def next (s : Tracked) (c : Call) : Tracked :=
  let (sent,r) := c.run cfg s.replica
  ⟨r,r.breaker.state = .closed || (s.closed && !(sent.isSome && c.fails))⟩

def step (s : Tracked) (c : Call) : Option Tracked := some (next cfg s c)

def start : Tracked := ⟨SharedBreaker.new cfg,true⟩

def unpublished (s : Tracked) : Bool := s.replica.breaker.unpublished

def state (s : Tracked) : BreakerState := s.replica.breaker.state

/-- The flag does not outlive a close, and while it is set the breaker does not
open without an attempt to publish. -/
def Rejoining (s : Tracked) (c : Call) : Prop :=
  ((next cfg s c).unpublished = true → (next cfg s c).closed = false) ∧
    (s.unpublished = true → s.state ≠ .open → (next cfg s c).state = .open →
      (c.run cfg s.replica).1.isSome = true)

/-- Up to a reset, an unpublished breaker goes to half-open at most. -/
def Quiet (s : Tracked) (c : Call) : Prop :=
  s.unpublished = true → c.isReset = false → (next cfg s c).state ≠ s.state →
    (next cfg s c).state = .halfOpen

instance (s : Tracked) (c : Call) : Decidable (Rejoining cfg s c) :=
  inferInstanceAs (Decidable (_ ∧ _))

instance (s : Tracked) (c : Call) : Decidable (Quiet cfg s c) :=
  inferInstanceAs (Decidable (_ → _))

end Tracked

namespace Breaker

variable {cfg : BreakerConfig} {now : Int} {b : Breaker}

@[simp] theorem allowLocal_unpublished : (b.allowLocal cfg now).2.unpublished = b.unpublished := by
  have h : b.Allowed cfg now (b.allowLocal cfg now) := allowLocal_allowed
  generalize b.allowLocal cfg now = out at h
  cases h <;> rfl

@[simp] theorem mirror_unpublished {shared : SharedState} :
    (b.mirror now shared).unpublished = b.unpublished := by
  unfold mirror setState
  by_cases h : shared.state = b.state <;> simp [h]

@[simp] theorem recordSuccessLocally_unpublished :
    (b.recordSuccessLocally cfg now).2.unpublished = b.unpublished := by
  have h : b.Succeeded cfg now (b.recordSuccessLocally cfg now) := recordSuccessLocally_succeeded
  generalize b.recordSuccessLocally cfg now = out at h
  cases h <;> rfl

@[simp] theorem recordFailureLocally_unpublished :
    (b.recordFailureLocally cfg now).2.unpublished = b.unpublished := by
  have h : b.Failed cfg now (b.recordFailureLocally cfg now) := recordFailureLocally_failed
  generalize b.recordFailureLocally cfg now = out at h
  cases h <;> rfl

theorem recordFailureLocally_some {episode : Int × Int}
    (h : (b.recordFailureLocally cfg now).1 = some episode) :
    b.usesStore = true ∧ (b.recordFailureLocally cfg now).2.state = .open := by
  have hfailed : b.Failed cfg now (b.recordFailureLocally cfg now) := recordFailureLocally_failed
  generalize b.recordFailureLocally cfg now = out at h hfailed
  obtain ⟨sent,b'⟩ := out
  subst h
  exact ⟨hfailed.published.2.1,hfailed.published.2.2.1⟩

end Breaker

namespace SharedBreaker

variable {cfg : BreakerConfig} {now later : Int} {r : SharedBreaker}

theorem allow_unpublished {load : Except String SharedState} {claim : Except String Bool} :
    (r.allow cfg now later load claim).2.breaker.unpublished = r.breaker.unpublished := by
  unfold allow
  by_cases huses : r.breaker.usesStore = true
  · simp only [huses,if_true]
    cases (r.cache.sharedState cfg.stateCacheTTL now later load.toOption).1 with
    | none => exact Breaker.allowLocal_unpublished
    | some shared =>
      simp only [allowShared_breaker]
      exact Breaker.mirror_unpublished
  · simp only [huses,Bool.false_eq_true,if_false]
    exact Breaker.allowLocal_unpublished

theorem recordSuccess_unpublished {reply : Except String SharedState}
    (h : r.breaker.unpublished = true) :
    (r.recordSuccess cfg now later reply).breaker.unpublished = true := by
  have huses : r.breaker.usesStore = false := by simp [Breaker.usesStore,h]
  have hsame : (r.breaker.recordSuccessLocally cfg now).2.unpublished = true := by simpa using h
  have hsucceeded : r.breaker.Succeeded cfg now (r.breaker.recordSuccessLocally cfg now) :=
    Breaker.recordSuccessLocally_succeeded
  unfold recordSuccess
  generalize r.breaker.recordSuccessLocally cfg now = out at hsucceeded hsame
  cases hsucceeded with
  | publish _ hstore => simp [huses] at hstore
  | idle _ => exact hsame
  | counted _ _ _ => exact hsame
  | closes _ _ _ => exact hsame

theorem recordSuccess_published {reply : Except String SharedState}
    (h : r.breaker.unpublished = false) :
    (r.recordSuccess cfg now later reply).breaker.unpublished = false := by
  have hsame : (r.breaker.recordSuccessLocally cfg now).2.unpublished = false := by simpa using h
  unfold recordSuccess
  generalize r.breaker.recordSuccessLocally cfg now = out at hsame
  obtain ⟨publish,b⟩ := out
  cases publish with
  | false => exact hsame
  | true =>
    cases reply with
    | error e => exact hsame
    | ok shared => exact Breaker.adopt_unpublished hsame

theorem recordFailure_unpublished {answer : Except String Unit} (h : r.breaker.unpublished = true) :
    (r.recordFailure cfg now later answer).1 = none ∧
      (r.recordFailure cfg now later answer).2.breaker.unpublished = true := by
  have hsame : (r.breaker.recordFailureLocally cfg now).2.unpublished = true := by simpa using h
  have huses : ∀ episode,(r.breaker.recordFailureLocally cfg now).1 = some episode → False := by
    intro episode hsent
    have huses := (Breaker.recordFailureLocally_some hsent).1
    simp [Breaker.usesStore,h] at huses
  unfold recordFailure
  generalize r.breaker.recordFailureLocally cfg now = out at hsame huses
  obtain ⟨sent,b⟩ := out
  cases sent with
  | none => exact ⟨rfl,hsame⟩
  | some episode => exact (huses episode rfl).elim

theorem recordFailure_published {answer : Except String Unit} (h : r.breaker.unpublished = false)
    (hfailed : (r.recordFailure cfg now later answer).2.breaker.unpublished = true) :
    (r.recordFailure cfg now later answer).1.isSome = true ∧ (∃ e,answer = .error e) ∧
      (r.recordFailure cfg now later answer).2.breaker.state = .open := by
  have hsame : (r.breaker.recordFailureLocally cfg now).2.unpublished = false := by simpa using h
  have hopen : ∀ episode,(r.breaker.recordFailureLocally cfg now).1 = some episode →
      (r.breaker.recordFailureLocally cfg now).2.state = .open :=
    fun episode hsent => (Breaker.recordFailureLocally_some hsent).2
  unfold recordFailure at hfailed ⊢
  generalize r.breaker.recordFailureLocally cfg now = out at hsame hopen hfailed
  obtain ⟨sent,b⟩ := out
  cases sent with
  | none => exact absurd (hsame.symm.trans hfailed) (by decide)
  | some episode =>
    cases answer with
    | ok u => cases hfailed
    | error e => exact ⟨rfl,⟨e,rfl⟩,hopen episode rfl⟩

@[simp] theorem reset_breaker (answer : Except String Unit) :
    (r.reset cfg now later answer).2.breaker = r.breaker.resetLocally cfg later := rfl

end SharedBreaker

namespace Tracked

variable {cfg : BreakerConfig} {s : Tracked} {c : Call}

theorem run_unpublished (h : s.unpublished = true) (hreset : c.isReset = false) :
    (c.run cfg s.replica).1 = none ∧ (next cfg s c).unpublished = true := by
  cases c with
  | allow now later load claim => exact ⟨rfl,SharedBreaker.allow_unpublished.trans h⟩
  | recordSuccess now later reply => exact ⟨rfl,SharedBreaker.recordSuccess_unpublished h⟩
  | recordFailure now later answer => exact SharedBreaker.recordFailure_unpublished h
  | reset now later answer => cases hreset

theorem run_published (h : s.unpublished = false) (hset : (next cfg s c).unpublished = true) :
    (next cfg s c).closed = false ∧ (next cfg s c).state = .open := by
  cases c with
  | allow now later load claim =>
    have hsame : (next cfg s (.allow now later load claim)).unpublished = false :=
      SharedBreaker.allow_unpublished.trans h
    simp [hsame] at hset
  | recordSuccess now later reply =>
    have hsame : (next cfg s (.recordSuccess now later reply)).unpublished = false :=
      SharedBreaker.recordSuccess_published h
    simp [hsame] at hset
  | recordFailure now later answer =>
    obtain ⟨hsent,⟨e,herror⟩,hopen⟩ := SharedBreaker.recordFailure_published h hset
    subst herror
    exact ⟨by simp [next,Call.run,Call.fails,hsent,hopen],hopen⟩
  | reset now later answer => simp [unpublished,next,Call.run] at hset

/-- A breaker with the flag set has not been closed since. -/
def Apart (s : Tracked) : Prop := s.unpublished = true → s.closed = false ∧ s.state ≠ .closed

theorem start_apart (cfg : BreakerConfig) : (start cfg).Apart := by
  simp [Apart,unpublished,start,SharedBreaker.new,newSharedBreaker]

theorem state_ne_of_closed (h : (next cfg s c).closed = false) :
    (next cfg s c).state ≠ .closed := by
  simp only [next,Bool.or_eq_false_iff,decide_eq_false_iff_not] at h
  exact h.1

theorem rejoining_iff (hs : s.Apart) : Rejoining cfg s c ↔ Quiet cfg s c := by
  cases hflag : s.unpublished with
  | false =>
    have hset : (next cfg s c).unpublished = true → (next cfg s c).closed = false :=
      fun hset => (run_published hflag hset).1
    simpa [Rejoining,Quiet,hflag] using hset
  | true =>
    obtain ⟨hclosed,hstate⟩ := hs hflag
    cases hreset : c.isReset with
    | true =>
      have hafter : (next cfg s c).unpublished = false ∧ (next cfg s c).state = .closed := by
        cases c with
        | reset now later answer => simp [unpublished,state,next,Call.run]
        | _ => cases hreset
      simp [Rejoining,Quiet,hreset,hafter]
    | false =>
      obtain ⟨hsent,hafter⟩ : (c.run cfg s.replica).1 = none ∧ (next cfg s c).unpublished = true :=
        run_unpublished hflag hreset
      have htrack : (next cfg s c).closed = decide ((next cfg s c).state = .closed) := by
        simp [next,hclosed,state]
      simp only [Rejoining,Quiet,hafter,hflag,hreset,hsent,htrack,forall_const,
        decide_eq_false_iff_not,Option.isSome_none,Bool.false_eq_true,imp_false]
      cases hbefore : s.state with
      | closed => exact absurd hbefore hstate
      | halfOpen => cases (next cfg s c).state <;> simp
      | «open» => cases (next cfg s c).state <;> simp

theorem Apart.next (hlaw : Rejoining cfg s c) : (next cfg s c).Apart :=
  fun hflag => ⟨hlaw.1 hflag,state_ne_of_closed (hlaw.1 hflag)⟩

/-- The flag is lawful in exactly those runs in which every failed publish is
followed by a reset before the breaker next closes or opens; and nothing but a
reset clears it. -/
theorem rejoining_run_iff (cfg : BreakerConfig) (calls : List Call) (s : Tracked) :
    (Reaches (step cfg) (Rejoining cfg) (start cfg) calls s ↔
      Reaches (step cfg) (Quiet cfg) (start cfg) calls s) ∧
    ∀ c t,s.unpublished = true → step cfg s c = some t → t.unpublished = false →
      c.isReset = true := by
  refine ⟨⟨fun hrun => ?_,fun hrun => ?_⟩,?_⟩
  · exact hrun.mono_invariant (I := Apart)
      (fun _ _ _ _ hlaw hst => Option.some.inj hst ▸ Apart.next hlaw)
      (fun _ _ hapart hlaw => (rejoining_iff hapart).1 hlaw) (start_apart cfg)
  · exact hrun.mono_invariant (I := Apart)
      (fun _ _ _ hapart hquiet hst =>
        Option.some.inj hst ▸ Apart.next ((rejoining_iff hapart).2 hquiet))
      (fun _ _ hapart hquiet => (rejoining_iff hapart).2 hquiet) (start_apart cfg)
  · intro c t hflag hst hclear
    cases hst
    by_contra hreset
    have hkept : (next cfg s c).unpublished = true :=
      (run_unpublished hflag (by simpa using hreset)).2
    simp [hkept] at hclear

theorem quick_valid : BreakerConfig.Valid 1 100 10 80 1 50 5 := by decide

def quick : BreakerConfig := .of quick_valid

/-- Redis is down when the breaker opens and is back by the time it closes.
The flag is still set then, and the next outage is not published either. -/
theorem closed_but_unpublished :
    ∃ s t,Reaches (step quick) (fun _ _ => True) (start quick)
        [.allow 1 1 (.ok ⟨.closed,0,0⟩) (.ok true),.recordFailure 2 2 (.error "down"),
          .allow 12 12 (.ok ⟨.closed,0,0⟩) (.ok true),.recordSuccess 13 13 (.ok ⟨.closed,0,0⟩)] s ∧
      s.unpublished = true ∧ s.state = .closed ∧ s.closed = true ∧
      step quick s (.recordFailure 14 14 (.ok ())) = some t ∧ t.state = .open ∧
      ((Call.recordFailure 14 14 (.ok ())).run quick s.replica).1 = none :=
  ⟨_,_,Reaches.of_run rfl,rfl,rfl,rfl,rfl,rfl,rfl⟩

end Tracked

end Switchyard.Resilience
