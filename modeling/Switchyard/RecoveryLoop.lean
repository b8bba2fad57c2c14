import Switchyard.HealthMonitor
import Switchyard.SharedBreaker
import Switchyard.StepRuns
import Mathlib.Data.List.AList
set_option autoImplicit false

/-!
Breakers, recorder and monitor of one gateway, and the requests, pings and
resets that drive them. An open breaker moves on only when a request asks it,
and the monitor's verdict on the provider decides which requests do.
-/

namespace Switchyard.Health
open Resilience StepRuns CallTree

/-- The registry's breakers, created at first use, and the windows and states of
the providers known at boot. -/
structure Gateway where
  breakers : AList fun _ : Candidate => SharedBreaker
  windows : AList fun _ : String => Window
  states : AList fun _ : String => ProviderState

/-- `shared` says whether breakers are built with a store. -/
structure Setup where
  breaker : BreakerConfig
  monitor : MonitorConfig
  shared : Bool

namespace Gateway

/-- Calls on a breaker carry the clock readings and the store's answers. -/
inductive Action where
  | allow (c : Candidate) (now later : Int) (load : Except String SharedState)
      (claim : Except String Bool)
  | recordSuccess (c : Candidate) (now later : Int) (reply : Except String SharedState)
  | recordFailure (c : Candidate) (now later : Int) (answer : Except String Unit)
  | reset (c : Candidate) (now later : Int) (answer : Except String Unit)
  | record (provider : String) (latency : Int) (err : Option Fault) (now : Int)
  | observe (provider : String) (pingErr : Option String) (now : Int)

variable (cfg : Setup) (s : Gateway)

def start (providers : List (String × Status)) : Gateway :=
  ⟨∅,providers.foldl (fun m p => m.insert p.1 []) ∅,
    providers.foldl (fun m p => m.insert p.1 { ProviderState.new with status := p.2 }) ∅⟩

def breakerFor (c : Candidate) : SharedBreaker :=
  (s.breakers.lookup c).getD ⟨newSharedBreaker cfg.breaker cfg.shared,⟨none,none⟩⟩

def anyOpen (provider : String) : Bool :=
  s.breakers.entries.any fun e => e.1.provider = provider && e.2.breaker.state = .open

def window (provider : String) : Window := (s.windows.lookup provider).getD []

def status (provider : String) : Status :=
  ((s.states.lookup provider).map (·.status)).getD .healthy

def step : Action → Option Gateway
  | .allow c now later load claim =>
    let b := ((s.breakerFor cfg c).allow cfg.breaker now later load claim).2
    some { s with breakers := s.breakers.insert c b }
  | .recordSuccess c now later reply =>
    let b := (s.breakerFor cfg c).recordSuccess cfg.breaker now later reply
    some { s with breakers := s.breakers.insert c b }
  | .recordFailure c now later answer =>
    let b := ((s.breakerFor cfg c).recordFailure cfg.breaker now later answer).2
    some { s with breakers := s.breakers.insert c b }
  | .reset c now later answer =>
    match s.breakers.lookup c with
    | none => some s
    | some b =>
      some { s with breakers := s.breakers.insert c (b.reset cfg.breaker now later answer).2 }
  | .record provider latency err now =>
    match s.windows.lookup provider with
    | none => some s
    | some w =>
      some { s with windows := s.windows.insert provider (w.record (sampleOf now latency err)) }
  | .observe provider pingErr now =>
    match s.states.lookup provider with
    | none => some s
    | some st =>
      let st := st.observe cfg.monitor (s.anyOpen provider) pingErr.isNone
        ((s.window provider).stats now)
      some { s with states := s.states.insert provider st }

def Action.observes (provider : String) : Action → Bool
  | .observe q _ _ => q = provider
  | _ => false

variable (p : String)

/-- Pings of p succeed, and p's window is clean when it is looked at. -/
def Recovering (s : Gateway) : Action → Prop
  | .observe q pingErr now => q = p → pingErr = none ∧
      ∀ st,s.states.lookup p = some st → Clean st (s.window p) now
  | _ => True

def Shut (s : Gateway) (a : Action) : Prop := a.observes p = true → s.anyOpen p = false

instance (s : Gateway) (now : Int) :
    Decidable (∀ st,s.states.lookup p = some st → Clean st (s.window p) now) :=
  match h : s.states.lookup p with
  | none => isTrue (by simp)
  | some st => decidable_of_iff (Clean st (s.window p) now) (by simp)

instance (s : Gateway) (a : Action) : Decidable (Recovering p s a) :=
  match a with
  | .observe _ _ _ => inferInstanceAs (Decidable (_ → _ ∧ _))
  | .allow _ _ _ _ _ => isTrue trivial
  | .recordSuccess _ _ _ _ => isTrue trivial
  | .recordFailure _ _ _ _ => isTrue trivial
  | .reset _ _ _ _ => isTrue trivial
  | .record _ _ _ _ => isTrue trivial

instance (s : Gateway) (a : Action) : Decidable (Shut p s a) :=
  inferInstanceAs (Decidable (_ → _))

variable {cfg s p} {t : Gateway} {a : Action} {actions : List Action}

theorem step_states (h : step cfg s a = some t) (hother : a.observes p = false) :
    t.states.lookup p = s.states.lookup p := by
  cases a with
  | observe q pingErr now =>
    simp only [step] at h
    have hne : p ≠ q := by simpa [Action.observes,eq_comm] using hother
    cases hst : s.states.lookup q with
    | none =>
      simp only [hst,Option.some.injEq] at h
      rw [h]
    | some st =>
      simp only [hst,Option.some.injEq] at h
      subst h
      exact AList.lookup_insert_ne hne
  | reset c now later answer =>
    simp only [step] at h
    cases hb : s.breakers.lookup c with
    | none =>
      simp only [hb,Option.some.injEq] at h
      rw [h]
    | some b =>
      simp only [hb,Option.some.injEq] at h
      subst h
      rfl
  | record q latency err now =>
    simp only [step] at h
    cases hw : s.windows.lookup q with
    | none =>
      simp only [hw,Option.some.injEq] at h
      rw [h]
    | some w =>
      simp only [hw,Option.some.injEq] at h
      subst h
      rfl
  | allow c now later load claim =>
    cases h
    rfl
  | recordSuccess c now later reply =>
    cases h
    rfl
  | recordFailure c now later answer =>
    cases h
    rfl

variable {st : ProviderState}

theorem step_observes (h : step cfg s a = some t) (hown : a.observes p = true)
    (hst : s.states.lookup p = some st) :
    ∃ pingErr now,a = .observe p pingErr now ∧ t.states.lookup p =
      some (st.observe cfg.monitor (s.anyOpen p) pingErr.isNone ((s.window p).stats now)) := by
  cases a with
  | observe q pingErr now =>
    obtain rfl : q = p := by simpa [Action.observes] using hown
    simp only [step,hst,Option.some.injEq] at h
    subst h
    exact ⟨pingErr,now,rfl,AList.lookup_insert _⟩
  | _ => cases hown

def Tracked (cfg : Setup) (p : String) (s : Gateway) : Prop :=
  ∃ st,s.states.lookup p = some st ∧ 0 ≤ st.recoveryStreak ∧
    st.recoveryStreak < cfg.monitor.recoveryStreak

theorem Tracked.step (h : s.Tracked cfg p) (hst : step cfg s a = some t) : t.Tracked cfg p := by
  obtain ⟨st,hlookup,hlow,hhigh⟩ := h
  cases hown : a.observes p with
  | false => exact ⟨st,(step_states hst hown).trans hlookup,hlow,hhigh⟩
  | true =>
    obtain ⟨pingErr,now,_,hafter⟩ := step_observes hst hown hlookup
    exact ⟨_,hafter,observe_streak _ _ _ hlow hhigh⟩

theorem status_eq (h : s.states.lookup p = some st) : s.status p = st.status := by
  simp [status,h]

/-- What one action does to a recovering provider: an observation with an open
breaker sets it back to the start, one without takes it a step further. -/
theorem recovering_step (hst : step cfg s a = some t)
    (hok : Recovering p s a) (h : s.states.lookup p = some st) :
    ∃ st',t.states.lookup p = some st' ∧
      (a.observes p = false ∧ st' = st ∨
        a.observes p = true ∧ s.anyOpen p = true ∧ st'.status = .degraded ∧
          st'.recoveryStreak = 0 ∨
        a.observes p = true ∧ s.anyOpen p = false ∧
          (st.status = .healthy ∧ st'.status = .healthy ∧
              st'.recoveryStreak = st.recoveryStreak ∨
            st.status ≠ .healthy ∧ st.recoveryStreak+1 < cfg.monitor.recoveryStreak ∧
              st'.status = st.status ∧ st'.recoveryStreak = st.recoveryStreak+1 ∨
            st.status ≠ .healthy ∧ cfg.monitor.recoveryStreak ≤ st.recoveryStreak+1 ∧
              st'.status = .healthy ∧ st'.recoveryStreak = 0)) := by
  cases hown : a.observes p with
  | false => exact ⟨st,(step_states hst hown).trans h,.inl ⟨rfl,rfl⟩⟩
  | true =>
    obtain ⟨pingErr,now,rfl,hafter⟩ := step_observes hst hown h
    obtain ⟨rfl,hclean⟩ := hok rfl
    have hclean := hclean st h
    refine ⟨_,hafter,.inr ?_⟩
    cases hopen : s.anyOpen p with
    | true => exact .inl ⟨rfl,rfl,observe_open hclean⟩
    | false => exact .inr ⟨rfl,rfl,observe_shut hclean⟩

theorem not_healthy (hrun : Reaches (step cfg) (Recovering p) s actions t)
    (h : s.states.lookup p = some st) (hlow : 0 ≤ st.recoveryStreak)
    (hstatus : st.status ≠ .healthy)
    (hfew : st.recoveryStreak+actions.countP (·.observes p) < cfg.monitor.recoveryStreak) :
    t.status p ≠ .healthy := by
  induction hrun generalizing st with
  | stop s => rwa [status_eq h]
  | @next s t u a actions hok hst _ ih =>
    obtain ⟨st',h',hcase⟩ := recovering_step hst hok h
    obtain ⟨hown,rfl⟩ | ⟨hown,_,hst',hzero⟩ | ⟨hown,_,hcase⟩ := hcase
    · exact ih h' hlow hstatus (by simpa [List.countP_cons,hown] using hfew)
    · simp only [List.countP_cons,hown,if_true] at hfew
      exact ih h' hzero.ge (by simp [hst']) (by omega)
    · simp only [List.countP_cons,hown,if_true] at hfew
      obtain ⟨hhealthy,_⟩ | ⟨_,_,hst',hstreak⟩ | ⟨_,hgoal,_⟩ := hcase
      · exact (hstatus hhealthy).elim
      · exact ih h' (by omega) (by rwa [hst']) (by omega)
      · omega

theorem healthy_of_shut
    (hrun : Reaches (step cfg) (fun s a => Recovering p s a ∧ Shut p s a) s actions t)
    (h : s.states.lookup p = some st) (hhigh : st.recoveryStreak < cfg.monitor.recoveryStreak)
    (hmany : st.status = .healthy ∨
      cfg.monitor.recoveryStreak ≤ st.recoveryStreak+actions.countP (·.observes p)) :
    t.status p = .healthy := by
  induction hrun generalizing st with
  | stop s =>
    rw [status_eq h]
    obtain hhealthy | hmany := hmany
    · exact hhealthy
    · simp only [List.countP_nil] at hmany
      omega
  | @next s t u a actions hok hst _ ih =>
    obtain ⟨st',h',hcase⟩ := recovering_step hst hok.1 h
    obtain ⟨hown,rfl⟩ | ⟨hown,hopen,_⟩ | ⟨hown,_,hcase⟩ := hcase
    · exact ih h' hhigh (by simpa [List.countP_cons,hown] using hmany)
    · simp [hok.2 hown] at hopen
    · have hpos := cfg.monitor.streak_pos
      simp only [List.countP_cons,hown,if_true] at hmany
      obtain ⟨_,hst',hstreak⟩ | ⟨hst,hgoal,_,hstreak⟩ | ⟨_,_,hst',hstreak⟩ := hcase
      · exact ih h' (by omega) (.inl hst')
      · obtain hhealthy | hmany := hmany
        · exact (hst hhealthy).elim
        · exact ih h' (by omega) (.inr (by omega))
      · exact ih h' (by omega) (.inl hst')

theorem shut_of_healthy (hrun : Reaches (step cfg) (Recovering p) s actions t)
    (h : s.states.lookup p = some st)
    (hfew : (actions.countP (·.observes p) : Int) ≤ cfg.monitor.recoveryStreak)
    (hhealthy : t.status p = .healthy) :
    Reaches (step cfg) (fun s a => Recovering p s a ∧ Shut p s a) s actions t := by
  induction hrun generalizing st with
  | stop s => exact .stop s
  | @next s t u a actions hok hst hrest ih =>
    obtain ⟨st',h',hcase⟩ := recovering_step hst hok h
    have hcount : (actions.countP (·.observes p) : Int) ≤ (a :: actions).countP (·.observes p) := by
      exact_mod_cast List.Sublist.countP_le (List.sublist_cons_self a actions)
    obtain ⟨hown,_⟩ | ⟨hown,_,hst',hzero⟩ | ⟨_,hshut,_⟩ := hcase
    · exact .next ⟨hok,by simp [Shut,hown]⟩ hst (ih h' (hcount.trans hfew) hhealthy)
    · -- set back with too few observations left
      simp only [List.countP_cons,hown,if_true] at hfew
      exact (not_healthy hrest h' hzero.ge (by simp [hst']) (by omega) hhealthy).elim
    · exact .next ⟨hok,fun _ => hshut⟩ hst (ih h' (hcount.trans hfew) hhealthy)

theorem foldl_insert_tracked {providers : List (String × Status)}
    {m : AList fun _ : String => ProviderState}
    (h : (∃ st,m.lookup p = some st ∧ st.recoveryStreak = 0) ∨ p ∈ providers.map (·.1)) :
    ∃ st,(providers.foldl (fun m q => m.insert q.1 { ProviderState.new with status := q.2 })
      m).lookup p = some st ∧ st.recoveryStreak = 0 := by
  induction providers generalizing m with
  | nil => simpa using h
  | cons q providers ih =>
    apply ih
    by_cases hq : p = q.1
    · subst hq
      exact .inl ⟨_,AList.lookup_insert m,rfl⟩
    · rw [AList.lookup_insert_ne hq]
      simpa [hq] using h

theorem start_tracked {providers : List (String × Status)} (hp : p ∈ providers.map (·.1)) :
    (start providers).Tracked cfg p := by
  obtain ⟨st,hlookup,hzero⟩ := foldl_insert_tracked (m := ∅) (.inr hp)
  have hpos := cfg.monitor.streak_pos
  exact ⟨st,hlookup,by omega,by omega⟩

end Gateway

section Chain

variable {Op : Type} {Ans : Op → Type}

theorem inBand_pure (f : String → Status) (band : Status) (cs : List Candidate) :
    inBand (fun q => (pure (f q) : Prog Op Ans Status)) band cs =
      pure (cs.filter fun c => f c.provider = band) := by
  induction cs with
  | nil => rfl
  | cons c cs ih =>
    have hstep : inBand (fun q => (pure (f q) : Prog Op Ans Status)) band (c :: cs) =
        pure (if f c.provider = band then c :: cs.filter fun c => f c.provider = band
          else cs.filter fun c => f c.provider = band) := by
      simp only [inBand,ih]
      rfl
    simp only [hstep,List.filter_cons,decide_eq_true_eq]

theorem addCandidate_head {requested c : Candidate} {cs : List Candidate} :
    ∃ rest,addCandidate (requested :: cs) c = requested :: rest := by
  unfold addCandidate
  split
  · exact ⟨cs,rfl⟩
  split
  · exact ⟨cs,rfl⟩
  · exact ⟨cs ++ [c],rfl⟩

theorem orderedCandidates_head {requested : Candidate} {tier : List Candidate}
    (hprovider : requested.provider ≠ "") (hmodel : requested.model ≠ "") :
    ∃ rest,orderedCandidates requested tier = requested :: rest := by
  have hfold : ∀ cs,∃ rest,tier.foldl addCandidate (requested :: cs) = requested :: rest := by
    induction tier with
    | nil => exact fun cs => ⟨cs,rfl⟩
    | cons c tier ih =>
      intro cs
      obtain ⟨rest,hadd⟩ := @addCandidate_head requested c cs
      rw [List.foldl_cons,hadd]
      exact ih rest
  have hfirst : addCandidate [] requested = [requested] := by
    simp [addCandidate,hprovider,hmodel]
  rw [orderedCandidates,hfirst]
  exact hfold []

theorem buildChain_head {requested : Candidate} {tier : List Candidate}
    {allowed : String → String → Bool} {f : String → Status} (hprovider : requested.provider ≠ "")
    (hmodel : requested.model ≠ "") (hallowed : allowed requested.provider requested.model = true)
    (hhealthy : f requested.provider = .healthy) :
    ∃ rest,buildChain requested tier (fun q => (pure (f q) : Prog Op Ans Status)) allowed =
      pure (requested :: rest) := by
  obtain ⟨rest,hordered⟩ := @orderedCandidates_head requested tier hprovider hmodel
  have hpermitted : permittedCandidates requested tier allowed =
      requested :: rest.filter fun c => allowed c.provider c.model := by
    simp [permittedCandidates,hordered,hallowed]
  refine ⟨(rest.filter fun c => allowed c.provider c.model).filter
    (fun c => f c.provider = .healthy) ++
    (permittedCandidates requested tier allowed).filter (fun c => f c.provider = .degraded),?_⟩
  unfold buildChain
  simp only [hpermitted,reduceCtorEq,if_false,inBand_pure,List.filter_cons,hhealthy,decide_true,
    if_true]
  rfl

end Chain

theorem touchy_monitor : ((0 : ℚ) < 1/10 ∧ (1/10 : ℚ) < 1 ∧ (1/2 : ℚ) < 1 ∧ (1/10 : ℚ) < 1/2) ∧
    (0 : Int) < 3 ∧ (0 : Int) < 2 := by
  norm_num

theorem touchy_valid : BreakerConfig.Valid 1 100 10 80 1 50 5 := by decide

def touchy : Setup :=
  ⟨.of touchy_valid,.of touchy_monitor,false⟩

def outage : List Gateway.Action :=
  [.allow ⟨"p","m"⟩ 1 1 (.error "") (.error ""),
    .record "p" 1 (some (.other "connection refused")) 2,
    .recordFailure ⟨"p","m"⟩ 2 2 (.error "")]

end Switchyard.Health
