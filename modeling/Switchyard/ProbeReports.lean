import Switchyard.ProbeSlot
set_option autoImplicit false

/-!
Whose reports close a half-open breaker. `RecordSuccess` carries no identity, so
beside the breaker and its callers every report is kept with the admission it
answers and the half-open period it arrived in.
-/

namespace Switchyard.Resilience
open StepRuns

structure Report where
  admission : Admission
  success : Bool
  received : Option Nat
  deriving DecidableEq, Repr

structure Reported where
  guarded : Guarded
  reports : List Report
  deriving DecidableEq, Repr

namespace Reported

def received (s : Guarded) : Guarded.Action → List Report
  | .allow _ _ => []
  | .report caller success _ =>
    ((s.pending.find? (·.caller = caller)).map fun p =>
      ⟨p,success,if s.breaker.state = .halfOpen then some s.period else none⟩).toList

def start (cfg : BreakerConfig) (clock : Int) : Reported :=
  ⟨{ Guarded.start cfg with clock := clock },[]⟩

variable (cfg : BreakerConfig)

def step (s : Reported) (a : Guarded.Action) : Option Reported :=
  (s.guarded.step cfg a).map fun g => ⟨g,received s.guarded a ++ s.reports⟩

def Ordered (s : Reported) (a : Guarded.Action) : Prop := s.guarded.clock ≤ a.now

def Quick (limit : Int) (s : Reported) (a : Guarded.Action) : Prop :=
  s.guarded.clock ≤ a.now ∧ ∀ r ∈ received s.guarded a,a.now < r.admission.time+limit

instance (s : Reported) (a : Guarded.Action) : Decidable (Ordered s a) :=
  inferInstanceAs (Decidable (_ ≤ _))

instance (limit : Int) (s : Reported) (a : Guarded.Action) : Decidable (Quick limit s a) :=
  inferInstanceAs (Decidable (_ ∧ _))

structure Closes (s : Reported) (a : Guarded.Action) (t : Reported) : Prop where
  step : step cfg s a = some t
  before : s.guarded.breaker.state = .halfOpen
  after : t.guarded.breaker.state = .closed

def deciding (t : Reported) : List Report := t.reports.take cfg.successThreshold.toNat

variable {cfg} {s t : Reported} {a : Guarded.Action}

theorem stepped (h : step cfg s a = some t) :
    Guarded.Moved cfg s.guarded a t.guarded ∧ t.reports = received s.guarded a ++ s.reports := by
  unfold step at h
  cases hg : s.guarded.step cfg a with
  | none => simp [hg] at h
  | some g =>
    simp only [hg,Option.map_some,Option.some.injEq] at h
    subst h
    exact ⟨Guarded.moved hg,rfl⟩

theorem received_report {g : Guarded} {caller : Nat} (hpending : g.isPending caller = true)
    (success : Bool) (now : Int) :
    ∃ p ∈ g.pending,received g (.report caller success now) =
      [⟨p,success,if g.breaker.state = .halfOpen then some g.period else none⟩] := by
  simp only [Guarded.isPending,List.any_eq_true,decide_eq_true_eq] at hpending
  obtain ⟨q,hq,hcaller⟩ := hpending
  cases hfind : g.pending.find? (·.caller = caller) with
  | none =>
    rw [List.find?_eq_none] at hfind
    exact absurd (by simpa using hcaller) (hfind q hq)
  | some p =>
    refine ⟨p,List.mem_of_find?_eq_some hfind,?_⟩
    simp [received,hfind]

/-- In a half-open period the streak counts the reports that arrived in it, all
of them successes. -/
structure Attributed (cfg : BreakerConfig) (s : Reported) : Prop where
  stays : s.guarded.breaker.store = false
  past : ∀ r ∈ s.reports,∀ k ∈ r.received,k ≤ s.guarded.period
  cleared : s.guarded.breaker.state = .open → s.guarded.breaker.successStreak = 0
  below : s.guarded.breaker.state = .halfOpen →
    s.guarded.breaker.successStreak < cfg.successThreshold
  split : s.guarded.breaker.state = .halfOpen → ∃ mine older,s.reports = mine ++ older ∧
    (mine.length : Int) = s.guarded.breaker.successStreak ∧
    (∀ r ∈ mine,r.success = true ∧ r.received = some s.guarded.period) ∧
    ∀ r ∈ older,r.received ≠ some s.guarded.period

theorem start_attributed (cfg : BreakerConfig) (clock : Int) : Attributed cfg (start cfg clock) :=
  ⟨rfl,by simp [start],by simp [start,Guarded.start,newBreaker,newSharedBreaker],
    by simp [start,Guarded.start,newBreaker,newSharedBreaker],
    by simp [start,Guarded.start,newBreaker,newSharedBreaker]⟩

theorem attributed_of_ne {g : Guarded} {reports : List Report} (hstore : g.breaker.store = false)
    (hpast : ∀ r ∈ reports,∀ k ∈ r.received,k ≤ g.period)
    (hcleared : g.breaker.state = .open → g.breaker.successStreak = 0)
    (hne : g.breaker.state ≠ .halfOpen) : Attributed cfg ⟨g,reports⟩ :=
  ⟨hstore,hpast,hcleared,fun h => absurd h hne,fun h => absurd h hne⟩

theorem Attributed.step (h : Attributed cfg s) (hst : step cfg s a = some t) :
    Attributed cfg t := by
  obtain ⟨hmoved,hreports⟩ := stepped hst
  obtain ⟨g,reports⟩ := t
  simp only at hmoved hreports
  subst hreports
  have hpast : ∀ r ∈ received s.guarded a ++ s.reports,∀ k ∈ r.received,k ≤ s.guarded.period := by
    intro r hr k hk
    obtain hr | hr := List.mem_append.1 hr
    · cases a with
      | allow _ _ => simp [received] at hr
      | report caller success now =>
        simp only [received,Option.mem_toList,Option.map_eq_some_iff] at hr
        obtain ⟨p,-,rfl⟩ := hr
        split at hk
        · exact (Option.some.inj hk).ge
        · cases hk
    · exact h.past r hr k hk
  cases hmoved with
  | admitted hstate => exact attributed_of_ne h.stays hpast (by simp [hstate]) (by simp [hstate])
  | refused => exact ⟨h.stays,hpast,h.cleared,h.below,h.split⟩
  | entered hstate _ =>
    have hstreak := h.cleared hstate
    have hpos := cfg.successThreshold_pos
    refine ⟨h.stays,fun r hr k hk => (hpast r hr k hk).trans (by simp),by simp,
      fun _ => by simp only [hstreak]; omega,
      fun _ => ⟨[],s.reports,rfl,?_,by simp,fun r hr hnew => ?_⟩⟩
    · simp [hstreak]
    · have hle := h.past r hr _ hnew
      simp only [] at hle
      omega
  | claimed hstate _ =>
    exact ⟨h.stays,hpast,by simp,fun _ => h.below hstate,fun _ => h.split hstate⟩
  | @succeeded caller now publish b hpending hout =>
    cases hout with
    | idle hne => exact attributed_of_ne h.stays hpast h.cleared hne
    | publish _ hstore => simp [Breaker.usesStore,h.stays] at hstore
    | closes _ _ _ => exact attributed_of_ne h.stays hpast (by simp) (by simp)
    | counted hstate _ hbelow =>
      obtain ⟨mine,older,hsplit,hlength,hmine,holder⟩ := h.split hstate
      obtain ⟨p,-,hnew⟩ := received_report hpending true now
      rw [if_pos hstate] at hnew
      refine ⟨h.stays,hpast,by simp [hstate],fun _ => hbelow,fun _ =>
        ⟨⟨p,true,some s.guarded.period⟩ :: mine,older,?_,?_,?_,holder⟩⟩
      · simp only [hnew,hsplit]
        rfl
      · simp only [List.length_cons]
        omega
      · exact List.forall_mem_cons.2 ⟨⟨rfl,rfl⟩,hmine⟩
  | @failed caller now publish b hpending hout =>
    cases hout with
    | ignored hstate =>
      exact attributed_of_ne h.stays hpast h.cleared (by simp [Breaker.releaseProbe,hstate])
    | counted hstate _ => exact attributed_of_ne h.stays hpast (by simp [hstate]) (by simp [hstate])
    | opens _ _ => exact attributed_of_ne h.stays hpast (by simp) (by simp)

/-- At the transition the deciding reports are those of the period. -/
theorem Attributed.closes (h : Attributed cfg s) (hcloses : Closes cfg s a t) :
    (deciding cfg t).length = cfg.successThreshold ∧
    (∀ r ∈ deciding cfg t,r.success = true ∧ r.received = some s.guarded.period) ∧
    ∀ r ∈ t.reports,r.received = some s.guarded.period → r ∈ deciding cfg t := by
  have hhalf := hcloses.before
  have hclosed := hcloses.after
  obtain ⟨hmoved,hreports⟩ := stepped hcloses.step
  obtain ⟨mine,older,hsplit,hlength,hmine,holder⟩ := h.split hhalf
  have hbelow := h.below hhalf
  generalize t.guarded = g at hmoved hclosed
  cases hmoved with
  | admitted hstate => simp [hhalf] at hstate
  | refused => simp [hhalf] at hclosed
  | entered _ _ => simp at hclosed
  | claimed _ _ => simp at hclosed
  | @succeeded caller now publish b hpending hout =>
    cases hout with
    | idle hne => exact absurd hhalf hne
    | publish _ hstore => simp [Breaker.usesStore,h.stays] at hstore
    | counted hstate _ _ => simp [hstate] at hclosed
    | closes _ _ hreached =>
      obtain ⟨p,-,hnew⟩ := received_report hpending true now
      rw [if_pos hhalf] at hnew
      have htake : deciding cfg t = ⟨p,true,some s.guarded.period⟩ :: mine := by
        rw [deciding,hreports,hnew,hsplit,List.singleton_append,← List.cons_append]
        exact List.take_left' (by simp only [List.length_cons]; omega)
      rw [htake,hreports,hnew,hsplit]
      refine ⟨by simp only [List.length_cons]; omega,List.forall_mem_cons.2 ⟨⟨rfl,rfl⟩,hmine⟩,?_⟩
      intro r hr hin
      simp only [List.singleton_append,← List.cons_append] at hr
      obtain hr | hr := List.mem_append.1 hr
      · exact hr
      · exact absurd hin (holder r hr)
  | @failed caller now publish b hpending hout =>
    cases hout with
    | ignored hstate => simp [hhalf] at hstate
    | counted hstate _ => simp [hhalf] at hstate
    | opens _ _ => simp at hclosed

/-- Whatever is still out from before a half-open period is older than `limit`,
if every cooldown lasts that long. -/
structure Aged (limit : Int) (s : Reported) : Prop where
  counts : 0 ≤ s.guarded.breaker.reopens
  past : ∀ p ∈ s.guarded.pending,p.time ≤ s.guarded.clock
  cooling : s.guarded.breaker.state = .open →
    limit ≤ s.guarded.breaker.cooldown ∧ ∀ p ∈ s.guarded.pending,p.time ≤ s.guarded.breaker.openedAt
  stray : s.guarded.breaker.state = .halfOpen → ∀ p ∈ s.guarded.pending,
    p.period = some s.guarded.period ∨ p.time+limit ≤ s.guarded.clock

variable {limit : Int}

theorem start_aged (cfg : BreakerConfig) (limit clock : Int) : Aged limit (start cfg clock) :=
  ⟨le_refl _,by simp [start,Guarded.start],
    by simp [start,Guarded.start,newBreaker,newSharedBreaker],by simp [start,Guarded.start]⟩

theorem Aged.step (h : Aged limit s) (hstore : s.guarded.breaker.store = false)
    (hlimit : ∀ n,1 ≤ n → limit ≤ nextCooldown cfg n) (hnow : s.guarded.clock ≤ a.now)
    (hst : step cfg s a = some t) : Aged limit t := by
  have hcounts := h.counts
  have hpast : ∀ p ∈ s.guarded.pending,p.time ≤ a.now := fun p hp => (h.past p hp).trans hnow
  have hmem : ∀ caller,∀ p ∈ s.guarded.pending.filter (·.caller ≠ caller),p ∈ s.guarded.pending :=
    fun caller p hp => (List.mem_filter.1 hp).1
  have hstray : s.guarded.breaker.state = .halfOpen → ∀ p ∈ s.guarded.pending,
      p.period = some s.guarded.period ∨ p.time+limit ≤ a.now :=
    fun hstate p hp => (h.stray hstate p hp).imp_right fun hold => hold.trans hnow
  obtain ⟨hmoved,-⟩ := stepped hst
  obtain ⟨g,reports⟩ := t
  simp only at hmoved
  cases hmoved with
  | admitted hstate =>
    exact ⟨h.counts,List.forall_mem_cons.2 ⟨le_refl _,hpast⟩,by simp [hstate],by simp [hstate]⟩
  | refused => exact ⟨h.counts,hpast,h.cooling,hstray⟩
  | @entered caller now hstate hcool =>
    obtain ⟨hlong,hbefore⟩ := h.cooling hstate
    refine ⟨h.counts,List.forall_mem_cons.2 ⟨le_refl _,hpast⟩,by simp,fun _ =>
      List.forall_mem_cons.2 ⟨.inl rfl,fun p hp => .inr ?_⟩⟩
    have hp := hbefore p hp
    simp only
    omega
  | claimed hstate _ =>
    exact ⟨h.counts,List.forall_mem_cons.2 ⟨le_refl _,hpast⟩,by simp,fun _ =>
      List.forall_mem_cons.2 ⟨.inl rfl,hstray hstate⟩⟩
  | @succeeded caller now publish b hpending hout =>
    have hkept : ∀ p ∈ s.guarded.pending.filter (·.caller ≠ caller),p.time ≤ now :=
      fun p hp => hpast p (hmem caller p hp)
    cases hout with
    | idle hne =>
      exact ⟨h.counts,hkept,fun hopen =>
        ⟨(h.cooling hopen).1,fun p hp => (h.cooling hopen).2 p (hmem caller p hp)⟩,
        fun hhalf => absurd hhalf hne⟩
    | publish _ huses => simp [Breaker.usesStore,hstore] at huses
    | closes _ _ _ => exact ⟨le_refl _,hkept,by simp,by simp⟩
    | counted hstate _ _ =>
      exact ⟨h.counts,hkept,by simp [hstate],fun _ p hp => hstray hstate p (hmem caller p hp)⟩
  | @failed caller now publish b hpending hout =>
    have hkept : ∀ p ∈ s.guarded.pending.filter (·.caller ≠ caller),p.time ≤ now :=
      fun p hp => hpast p (hmem caller p hp)
    cases hout with
    | ignored hstate =>
      exact ⟨h.counts,hkept,fun _ =>
        ⟨(h.cooling hstate).1,fun p hp => (h.cooling hstate).2 p (hmem caller p hp)⟩,
        by simp [Breaker.releaseProbe,hstate]⟩
    | counted hstate _ => exact ⟨h.counts,hkept,by simp [hstate],by simp [hstate]⟩
    | opens _ _ =>
      refine ⟨?_,hkept,fun _ => ⟨hlimit _ (by omega),hkept⟩,by simp⟩
      simp only [Breaker.open,Breaker.setState]
      omega

/-- Every report that arrived in a half-open period answers one of its probes. -/
def Own (s : Reported) : Prop :=
  ∀ r ∈ s.reports,∀ k ∈ r.received,r.admission.period = some k

theorem Aged.own_received (h : Aged limit s) (hquick : Quick limit s a) {r : Report}
    (hr : r ∈ received s.guarded a) {k : Nat} (hk : k ∈ r.received) :
    r.admission.period = some k := by
  cases a with
  | allow _ _ => simp [received] at hr
  | report caller success now =>
    have hyoung := hquick.2 r hr
    have hnow := hquick.1
    simp only [received,Option.mem_toList,Option.map_eq_some_iff] at hr
    obtain ⟨p,hfind,rfl⟩ := hr
    by_cases hhalf : s.guarded.breaker.state = .halfOpen
    · simp only [if_pos hhalf,Option.mem_some_iff] at hk
      subst hk
      obtain hown | hold := h.stray hhalf p (List.mem_of_find?_eq_some hfind)
      · exact hown
      · simp only [Guarded.Action.now] at hyoung hnow
        omega
    · simp [hhalf] at hk

theorem own_of_quick {clock : Int} {actions : List Guarded.Action}
    (hlimit : ∀ n,1 ≤ n → limit ≤ nextCooldown cfg n)
    (hrun : Reaches (step cfg) (Quick limit) (start cfg clock) actions s) : Own s := by
  have hall : Attributed cfg s ∧ Aged limit s ∧ Own s := by
    refine hrun.invariant (I := fun s => Attributed cfg s ∧ Aged limit s ∧ Own s)
      (fun s a t hs hquick hst => ⟨hs.1.step hst,
        hs.2.1.step hs.1.stays hlimit hquick.1 hst,fun r hr k hk => ?_⟩)
      ⟨start_attributed cfg clock,start_aged cfg limit clock,by simp [Own,start]⟩
    rw [(stepped hst).2] at hr
    obtain hr | hr := List.mem_append.1 hr
    · exact hs.2.1.own_received hquick hr hk
    · exact hs.2.2 r hr k hk
  exact hall.2.2

def Young (limit : Int) (g : Guarded) (a : Guarded.Action) : Prop :=
  g.clock ≤ a.now ∧ ∀ p ∈ g.pending,a.now < p.time+limit

theorem reaches_of_guarded {g g' : Guarded} {actions : List Guarded.Action}
    (hrun : Reaches (Guarded.step cfg) (Young limit) g actions g') (reports : List Report) :
    ∃ reports',Reaches (step cfg) (Quick limit) ⟨g,reports⟩ actions ⟨g',reports'⟩ := by
  induction hrun generalizing reports with
  | stop g => exact ⟨reports,.stop _⟩
  | @next g g₁ g₂ a actions hok hst _ ih =>
    obtain ⟨reports',hrest⟩ := ih (received g a ++ reports)
    refine ⟨reports',.next ⟨hok.1,fun r hr => ?_⟩ (by simp [step,hst]) hrest⟩
    cases a with
    | allow _ _ => simp [received] at hr
    | report caller success now =>
      simp only [received,Option.mem_toList,Option.map_eq_some_iff] at hr
      obtain ⟨p,hfind,rfl⟩ := hr
      exact hok.2 p (List.mem_of_find?_eq_some hfind)

/-- Half-open after `streak` successes, with probe 1 and the late caller 0 out. -/
def late (cfg : BreakerConfig) (streak : Nat) : Guarded :=
  ⟨{ (newBreaker cfg).open cfg 0 with
      state := .halfOpen
      probeInFlight := true
      probeStartedAt := cfg.cooldownBase
      successStreak := streak },cfg.cooldownBase,1,[⟨1,cfg.cooldownBase,some 1⟩,⟨0,0,none⟩]⟩

theorem reaches_late (hlimit : cfg.cooldownBase < limit) {n : Nat}
    (hn : (n : Int) < cfg.successThreshold) :
    ∃ actions,Reaches (Guarded.step cfg) (Young limit) (Guarded.start cfg) actions
      (late cfg n) := by
  have hbase := cfg.cooldownBase_pos
  induction n with
  | zero =>
    obtain ⟨actions,hrun⟩ := Guarded.reaches_tripped cfg
    have hrun : Reaches (Guarded.step cfg) (Young limit) (Guarded.start cfg) actions
        (Guarded.tripped cfg) := by
      refine hrun.mono fun g a h => ⟨by rw [h.1,h.2.1],fun p hp => ?_⟩
      rw [h.2.1,h.2.2 p hp]
      omega
    have hprobe : Guarded.step cfg (Guarded.tripped cfg) (.allow 1 cfg.cooldownBase) =
        some (late cfg 0) := Guarded.step_probing cfg rfl
    have hyoung : Young limit (Guarded.tripped cfg) (.allow 1 cfg.cooldownBase) :=
      ⟨hbase.le,by simpa [Guarded.tripped,Guarded.Action.now] using hlimit⟩
    exact ⟨_,hrun.append (.next hyoung hprobe (.stop _))⟩
  | succ n ih =>
    obtain ⟨actions,hrun⟩ := ih (by omega)
    have hbelow : ¬cfg.successThreshold ≤ (n : Int)+1 := by omega
    -- probe 1 succeeds and asks again
    have hreport : Guarded.step cfg (late cfg n) (.report 1 true cfg.cooldownBase) =
        some ⟨{ (late cfg (n+1)).breaker with probeInFlight := false },cfg.cooldownBase,1,
          [⟨0,0,none⟩]⟩ := by
      simp [Guarded.step,Guarded.isPending,late,Breaker.recordSuccessLocally,Breaker.releaseProbe,
        Breaker.usesStore,newBreaker,newSharedBreaker,Breaker.open,Breaker.setState,hbelow]
    have hagain : Guarded.step cfg ⟨{ (late cfg (n+1)).breaker with probeInFlight := false },
        cfg.cooldownBase,1,[⟨0,0,none⟩]⟩ (.allow 1 cfg.cooldownBase) = some (late cfg (n+1)) := by
      simp [Guarded.step,Guarded.isPending,late,Breaker.allowLocal,Breaker.claimProbe]
    refine ⟨_,hrun.append (.next ⟨le_refl _,?_⟩ hreport (.next ⟨le_refl _,?_⟩ hagain (.stop _)))⟩
    · simp [late,Guarded.Action.now]
      omega
    · simpa [Guarded.Action.now] using hlimit

/-- In every configuration the last success may come from a call that was
admitted before the breaker opened. -/
theorem closes_on_stray (hlimit : cfg.cooldownBase < limit) :
    ∃ actions s a t,Reaches (step cfg) (Quick limit) (start cfg 0) actions s ∧ Quick limit s a ∧
      Closes cfg s a t ∧ ∃ r ∈ deciding cfg t,r.admission.period ≠ some s.guarded.period := by
  have hpos := cfg.successThreshold_pos
  obtain ⟨n,hn⟩ : ∃ n : Nat,cfg.successThreshold = n+1 := ⟨(cfg.successThreshold-1).toNat,by omega⟩
  obtain ⟨actions,hrun⟩ := reaches_late (n := n) hlimit (by omega)
  obtain ⟨reports,hrun⟩ := reaches_of_guarded hrun []
  refine ⟨actions,_,.report 0 true cfg.cooldownBase,_,hrun,⟨le_refl _,?_⟩,⟨rfl,rfl,?_⟩,
    ⟨⟨0,0,none⟩,true,some 1⟩,?_,by simp⟩
  · simpa [received,late,Guarded.Action.now] using hlimit
  · simp [late,Breaker.recordSuccessLocally,Breaker.releaseProbe,Breaker.usesStore,newBreaker,
      newSharedBreaker,Breaker.open,Breaker.setState,hn]
  · have hthreshold : cfg.successThreshold.toNat = n+1 := by omega
    simp [deciding,received,late,hthreshold]

/-- When a half-open breaker closes, the last SuccessThreshold reports arrived in
that half-open period and are successes. They are all of its own probes exactly
if no call admitted outside it reported in it; so it is where every call reports
before the shortest cooldown is over, and in no configuration where a call may
take longer than CooldownBase. -/
theorem closes_on_reports_of_period (cfg : BreakerConfig) :
    (∀ clock actions s a t,Reaches (step cfg) Ordered (start cfg clock) actions s →
      Ordered s a → Closes cfg s a t →
      (deciding cfg t).length = cfg.successThreshold ∧
      (∀ r ∈ deciding cfg t,r.success = true ∧ r.received = some s.guarded.period) ∧
      ((∀ r ∈ deciding cfg t,r.admission.period = some s.guarded.period) ↔
        ∀ r ∈ t.reports,r.received = some s.guarded.period →
          r.admission.period = some s.guarded.period)) ∧
    (∀ limit,(∀ n,1 ≤ n → limit ≤ nextCooldown cfg n) →
      ∀ clock actions s a t,Reaches (step cfg) (Quick limit) (start cfg clock) actions s →
        Quick limit s a → Closes cfg s a t →
        ∀ r ∈ deciding cfg t,r.admission.period = some s.guarded.period) ∧
    ∀ limit,cfg.cooldownBase < limit →
      ∃ actions s a t,Reaches (step cfg) (Quick limit) (start cfg 0) actions s ∧ Quick limit s a ∧
        Closes cfg s a t ∧ ∃ r ∈ deciding cfg t,r.admission.period ≠ some s.guarded.period := by
  refine ⟨fun clock actions s a t hrun _ hcloses => ?_,fun limit hlimit clock actions s a t hrun
    hquick hcloses r hr => ?_,fun limit => closes_on_stray⟩
  · have hattributed : Attributed cfg s :=
      hrun.invariant (fun _ _ _ hs _ hst => hs.step hst) (start_attributed cfg clock)
    obtain ⟨hlength,hperiod,hall⟩ := hattributed.closes hcloses
    exact ⟨hlength,hperiod,fun hown r hr hin => hown r (hall r hr hin),
      fun hown r hr => hown r (List.mem_of_mem_take hr) (hperiod r hr).2⟩
  · have hattributed : Attributed cfg s :=
      hrun.invariant (fun _ _ _ hs _ hst => hs.step hst) (start_attributed cfg clock)
    have hown : Own t := own_of_quick hlimit (hrun.append (.next hquick hcloses.step (.stop _)))
    exact hown r (List.mem_of_mem_take hr) _ ((hattributed.closes hcloses).2.1 r hr).2

/-- Callers 0 and 1 were admitted while closed. Caller 1 fails, and after the
cooldown it probes and succeeds; then the late success of caller 0 closes the
breaker on one probe where two are asked for. -/
theorem late_success_closes :
    ∃ s t,Reaches (step Guarded.slowCalls) Ordered (start Guarded.slowCalls 0)
        [.allow 0 0,.allow 1 0,.report 1 false 0,.allow 1 1,.report 1 true 1] s ∧
      Closes Guarded.slowCalls s (.report 0 true 2) t ∧
      (deciding Guarded.slowCalls t).map (·.admission) = [⟨0,0,none⟩,⟨1,1,some 1⟩] ∧
      ¬∀ r ∈ deciding Guarded.slowCalls t,r.admission.period = some s.guarded.period :=
  ⟨_,_,Reaches.of_run rfl,⟨rfl,rfl,rfl⟩,by decide,by decide⟩

theorem closes_on_reports_of_period_quick :
    ∃ s t,Reaches (step Guarded.slowCalls) (Quick 1) (start Guarded.slowCalls 0)
        [.allow 1 0,.report 1 false 0,.allow 1 1,.report 1 true 1,.allow 1 1] s ∧
      Closes Guarded.slowCalls s (.report 1 true 1) t ∧
      (deciding Guarded.slowCalls t).length = Guarded.slowCalls.successThreshold ∧
      ∀ r ∈ deciding Guarded.slowCalls t,r.admission.period = some s.guarded.period := by
  obtain ⟨hdecided,hquick,-⟩ := closes_on_reports_of_period Guarded.slowCalls
  obtain ⟨s,t,hrun,hlast,hcloses⟩ :
      ∃ s t,Reaches (step Guarded.slowCalls) (Quick 1) (start Guarded.slowCalls 0)
          [.allow 1 0,.report 1 false 0,.allow 1 1,.report 1 true 1,.allow 1 1] s ∧
        Quick 1 s (.report 1 true 1) ∧ Closes Guarded.slowCalls s (.report 1 true 1) t :=
    ⟨_,_,Reaches.of_run rfl,by decide,⟨rfl,rfl,rfl⟩⟩
  exact ⟨s,t,hrun,hcloses,
    (hdecided 0 _ s _ t (hrun.mono fun _ _ h => h.1) hlast.1 hcloses).1,
    hquick 1 (fun n _ => nextCooldown_pos Guarded.slowCalls n) 0 _ s _ t hrun hlast hcloses⟩

end Reported

end Switchyard.Resilience
