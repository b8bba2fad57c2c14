import Switchyard.HealthMonitor
import Switchyard.RingLog
import Switchyard.StepRuns
set_option autoImplicit false

/-!
The monitor of all providers (internal/health/status.go) over whole histories of
`Observe` calls: how a status changes, told by the record of a provider's checks
alone, and what its transition log keeps of them.
-/

namespace Switchyard.Health
open Resilience StepRuns

structure Transition where
  time : Int
  fromStatus : Status
  toStatus : Status
  reason : String
  deriving DecidableEq, Repr

def transitionHistoryCapacity : Nat := 100

/-- A provider's state with the time of its last check and its transition log. -/
structure Tracked extends ProviderState where
  lastCheckAt : Option Int
  history : RingLog Transition transitionHistoryCapacity

/-- What one `Observe` is told and reads: the ping, the passive window, the
breakers, and the clock at its start and in `setStatus`. -/
structure Observation where
  pingOK : Bool
  stats : Stats
  anyOpen : Bool
  checkedAt : Int
  changedAt : Int
  deriving DecidableEq, Repr

namespace Tracked

def new : Tracked :=
  ⟨.new,none,.empty ⟨0,.healthy,.healthy,""⟩ (by decide)⟩

variable (cfg : MonitorConfig) (t : Tracked)

def setStatus (newStatus : Status) (reason : String) (now : Int) : Tracked :=
  { t with status := newStatus, history := t.history.append ⟨now,t.status,newStatus,reason⟩ }

def transition (raw : Status) (reason : String) (pingOK : Bool) (now : Int) : Tracked :=
  if raw ≠ .healthy then
    let t : Tracked := { t with recoveryStreak := 0 }
    if raw ≠ t.status then t.setStatus raw reason now else t
  else if t.status = .healthy then t
  else if !pingOK then { t with recoveryStreak := 0 }
  else
    let t : Tracked := { t with recoveryStreak := t.recoveryStreak+1 }
    if t.recoveryStreak < cfg.recoveryStreak then t
    else { t.setStatus .healthy "recovered" now with recoveryStreak := 0 }

def checked (o : Observation) : Tracked :=
  { t with lastCheckAt := some o.checkedAt,
           consecutiveFails := if o.pingOK then 0 else t.consecutiveFails+1 }

/-- The raw classification of an `Observe` and its reason. -/
def raw (o : Observation) : Status × String := (t.checked o).classify cfg o.anyOpen o.stats

def observe (o : Observation) : Tracked :=
  let t' := (t.checked o).transition cfg (t.raw cfg o).1 (t.raw cfg o).2 o.pingOK o.changedAt
  { t' with toProviderState := t'.toProviderState.updateBaseline o.stats }

end Tracked

def parseStatus (s : String) : Option Status :=
  if s = "healthy" then some .healthy
  else if s = "degraded" then some .degraded
  else if s = "down" then some .down
  else none

abbrev Monitor := String → Option Tracked

/-- What MGET of the status keys gives; without a client nothing is read. -/
inductive Persisted where
  | noClient
  | failed
  | values (vals : List (Option String))

namespace Monitor

def set (m : Monitor) (name : String) (t : Tracked) : Monitor :=
  fun n => if n = name then some t else m n

/-- One value of the answer; what does not parse leaves the provider as it is. -/
def restore (m : Monitor) (pair : String × Option String) : Monitor :=
  match pair.2.bind parseStatus,m pair.1 with
  | some status,some t => m.set pair.1 { t with status := status }
  | _,_ => m

def restoreFromRedis (m : Monitor) (providers : List String) : Persisted → Monitor
  | .noClient => m
  | .failed => m
  | .values vals => (providers.zip vals).foldl restore m

def new (providers : List String) (redis : Persisted) : Monitor :=
  restoreFromRedis (fun n => if n ∈ providers then some .new else none) providers redis

/-- `Observe`; a provider that is not tracked is ignored. -/
def observe (cfg : MonitorConfig) (m : Monitor) (name : String) (o : Observation) : Monitor :=
  match m name with
  | none => m
  | some t => m.set name (t.observe cfg o)

end Monitor

structure Check where
  pingOK : Bool
  raw : Status
  reason : String
  before : Status
  after : Status
  changedAt : Int
  deriving DecidableEq, Repr

namespace Check

variable (e : Check)

/-- The ping succeeded, everything looked healthy, and the status was not. -/
def good : Bool := e.pingOK ∧ e.raw = .healthy ∧ e.before ≠ .healthy

def changes : Bool := e.before ≠ e.after

def entry : Transition :=
  ⟨e.changedAt,e.before,e.after,if e.after = .healthy then "recovered" else e.reason⟩

variable {e}

theorem good_iff : e.good = true ↔ e.pingOK = true ∧ e.raw = .healthy ∧ e.before ≠ .healthy := by
  simp [good]

theorem changes_iff : e.changes = true ↔ e.before ≠ e.after := by simp [changes]

end Check

def Tracked.check (cfg : MonitorConfig) (t : Tracked) (o : Observation) : Check :=
  ⟨o.pingOK,(t.raw cfg o).1,(t.raw cfg o).2,t.status,(t.observe cfg o).status,o.changedAt⟩

/-- The monitor with the record of every provider's checks, the latest first. -/
structure Surveyed where
  monitor : Monitor
  log : String → List Check

namespace Surveyed

def start (providers : List String) (redis : Persisted) : Surveyed :=
  ⟨.new providers redis,fun _ => []⟩

variable (cfg : MonitorConfig)

def observe (s : Surveyed) (name : String) (o : Observation) : Surveyed where
  monitor := s.monitor.observe cfg name o
  log n :=
    if n = name then (s.monitor n).elim (s.log n) (·.check cfg o :: s.log n) else s.log n

def step (s : Surveyed) (call : String × Observation) : Option Surveyed :=
  some (s.observe cfg call.1 call.2)

end Surveyed

section Observing

variable {cfg : MonitorConfig} {t : Tracked} {o : Observation}

theorem transition_state (raw : Status) (reason : String) (pingOK : Bool) (now : Int) :
    (t.transition cfg raw reason pingOK now).toProviderState =
      t.toProviderState.transition cfg raw pingOK := by
  unfold Tracked.transition ProviderState.transition
  by_cases hraw : raw = .healthy
  · simp only [hraw,ne_eq,not_true_eq_false,if_false,Tracked.setStatus]
    repeat' split
    all_goals rfl
  · simp only [ne_eq,hraw,not_false_eq_true,if_true,Tracked.setStatus]
    split
    · rfl
    · rename_i hsame
      rw [not_not.1 hsame]

theorem observe_state : (t.observe cfg o).toProviderState =
    t.toProviderState.observe cfg o.anyOpen o.pingOK o.stats := by
  simp only [Tracked.observe,transition_state]
  rfl

inductive Judged (cfg : MonitorConfig) (t : Tracked) (o : Observation) (t' : Tracked) : Prop where
  | bad (hraw : (t.raw cfg o).1 ≠ .healthy) (hstatus : t'.status = (t.raw cfg o).1)
      (hstreak : t'.recoveryStreak = 0)
  | idle (hraw : (t.raw cfg o).1 = .healthy) (hbefore : t.status = .healthy)
      (hstatus : t'.status = .healthy)
  | broken (hraw : (t.raw cfg o).1 = .healthy) (hbefore : t.status ≠ .healthy)
      (hping : o.pingOK = false) (hstatus : t'.status = t.status) (hstreak : t'.recoveryStreak = 0)
  | climbs (hraw : (t.raw cfg o).1 = .healthy) (hbefore : t.status ≠ .healthy)
      (hping : o.pingOK = true) (hlow : t.recoveryStreak+1 < cfg.recoveryStreak)
      (hstatus : t'.status = t.status) (hstreak : t'.recoveryStreak = t.recoveryStreak+1)
  | recovers (hraw : (t.raw cfg o).1 = .healthy) (hbefore : t.status ≠ .healthy)
      (hping : o.pingOK = true) (hhigh : cfg.recoveryStreak ≤ t.recoveryStreak+1)
      (hstatus : t'.status = .healthy)

theorem observe_judged (cfg : MonitorConfig) (t : Tracked) (o : Observation) :
    Judged cfg t o (t.observe cfg o) := by
  have hstate : (t.observe cfg o).toProviderState =
      ((t.checked o).toProviderState.transition cfg (t.raw cfg o).1 o.pingOK).updateBaseline
        o.stats := by
    simp only [Tracked.observe,transition_state]
  have hstatus : (t.observe cfg o).status =
      ((t.checked o).toProviderState.transition cfg (t.raw cfg o).1 o.pingOK).status := by
    rw [hstate,updateBaseline_status]
  have hstreak : (t.observe cfg o).recoveryStreak =
      ((t.checked o).toProviderState.transition cfg (t.raw cfg o).1 o.pingOK).recoveryStreak := by
    rw [hstate,updateBaseline_streak]
  unfold ProviderState.transition at hstatus hstreak
  by_cases hraw : (t.raw cfg o).1 = .healthy
  · by_cases hbefore : t.status = .healthy
    · have hbefore' : (t.checked o).status = .healthy := hbefore
      simp only [hraw,hbefore',ne_eq,not_true_eq_false,if_false,if_true] at hstatus
      exact .idle hraw hbefore hstatus
    · have hbefore' : (t.checked o).status ≠ .healthy := hbefore
      simp only [hraw,hbefore',ne_eq,not_true_eq_false,if_false] at hstatus hstreak
      cases hping : o.pingOK with
      | false =>
        simp only [hping,Bool.not_false,if_true] at hstatus hstreak
        exact .broken hraw hbefore hping hstatus hstreak
      | true =>
        simp only [hping,Bool.not_true,Bool.false_eq_true,if_false] at hstatus hstreak
        by_cases hlow : t.recoveryStreak+1 < cfg.recoveryStreak
        · have hlow' : (t.checked o).recoveryStreak+1 < cfg.recoveryStreak := hlow
          rw [if_pos hlow'] at hstatus hstreak
          exact .climbs hraw hbefore hping hlow hstatus hstreak
        · have hlow' : ¬(t.checked o).recoveryStreak+1 < cfg.recoveryStreak := hlow
          rw [if_neg hlow'] at hstatus
          exact .recovers hraw hbefore hping (not_lt.1 hlow) hstatus
  · simp only [ne_eq,hraw,not_false_eq_true,if_true] at hstatus hstreak
    exact .bad hraw hstatus hstreak

theorem transition_history (raw : Status) (reason : String) (pingOK : Bool) (now : Int) :
    (t.transition cfg raw reason pingOK now).history =
      if t.status = (t.transition cfg raw reason pingOK now).status then t.history
      else t.history.append ⟨now,t.status,(t.transition cfg raw reason pingOK now).status,
        if (t.transition cfg raw reason pingOK now).status = .healthy then "recovered"
        else reason⟩ := by
  unfold Tracked.transition
  by_cases hraw : raw = .healthy
  · by_cases hbefore : t.status = .healthy
    · simp [hraw,hbefore]
    · cases pingOK
      · simp [hraw,hbefore]
      · by_cases hlow : t.recoveryStreak+1 < cfg.recoveryStreak
        · simp [hraw,hbefore,hlow]
        · simp [hraw,hbefore,hlow,Tracked.setStatus]
  · by_cases hsame : raw = t.status
    · subst hsame
      simp [hraw]
    · simp [hraw,hsame,Ne.symm hsame,Tracked.setStatus]

theorem observe_history (cfg : MonitorConfig) (t : Tracked) (o : Observation) :
    (t.observe cfg o).history = if (t.check cfg o).changes then
      t.history.append (t.check cfg o).entry else t.history := by
  have hstatus : (t.observe cfg o).status = ((t.checked o).transition cfg (t.raw cfg o).1
      (t.raw cfg o).2 o.pingOK o.changedAt).status := updateBaseline_status o.stats
  have hhistory : (t.observe cfg o).history = ((t.checked o).transition cfg (t.raw cfg o).1
      (t.raw cfg o).2 o.pingOK o.changedAt).history := rfl
  rw [hhistory,transition_history,← hstatus]
  by_cases hchanges : (t.check cfg o).changes = true
  · have hchecked : (t.checked o).status ≠ (t.observe cfg o).status := Check.changes_iff.1 hchanges
    rw [if_neg hchecked]
    simp only [hchanges,if_true]
    rfl
  · have hchecked : (t.checked o).status = (t.observe cfg o).status :=
      not_not.1 fun hne => hchanges (Check.changes_iff.2 hne)
    rw [if_pos hchecked,if_neg hchanges]
    rfl

/-- What a provider's state tells of the record of its checks. -/
structure Told (cfg : MonitorConfig) (t : Tracked) (log : List Check) : Prop where
  streak : t.status ≠ .healthy → t.recoveryStreak = (log.takeWhile Check.good).length ∧
    t.recoveryStreak < cfg.recoveryStreak
  history : t.history.recent =
    ((log.filter Check.changes).map Check.entry).take transitionHistoryCapacity

theorem check_good_iff : (t.check cfg o).good = true ↔
    o.pingOK = true ∧ (t.raw cfg o).1 = .healthy ∧ t.status ≠ .healthy := Check.good_iff

theorem takeWhile_good_cons {e : Check} (log : List Check) :
    ((e :: log).takeWhile Check.good).length =
      if e.good then (log.takeWhile Check.good).length+1 else 0 := by
  cases h : e.good <;> simp [h]

theorem Told.observe {log : List Check} (h : Told cfg t log) (o : Observation) :
    Told cfg (t.observe cfg o) (t.check cfg o :: log) := by
  constructor
  · intro hafter
    have hpos := cfg.streak_pos
    rw [takeWhile_good_cons]
    cases observe_judged cfg t o with
    | bad hraw hstatus hstreak =>
      have hnot : ¬(t.check cfg o).good = true := by simp [check_good_iff,hraw]
      rw [if_neg hnot,hstreak]
      exact ⟨rfl,hpos⟩
    | idle hraw hbefore hstatus => exact absurd hstatus hafter
    | broken hraw hbefore hping hstatus hstreak =>
      have hnot : ¬(t.check cfg o).good = true := by simp [check_good_iff,hping]
      rw [if_neg hnot,hstreak]
      exact ⟨rfl,hpos⟩
    | climbs hraw hbefore hping hlow hstatus hstreak =>
      have hgood : (t.check cfg o).good = true := check_good_iff.2 ⟨hping,hraw,hbefore⟩
      have hcount := (h.streak hbefore).1
      rw [if_pos hgood,hstreak]
      exact ⟨by omega,hlow⟩
    | recovers hraw hbefore hping hhigh hstatus => exact absurd hstatus hafter
  · rw [observe_history]
    cases hchanges : (t.check cfg o).changes with
    | false => simpa [hchanges] using h.history
    | true =>
      simp only [if_true,List.filter_cons,hchanges,List.map_cons]
      exact t.history.recent_append_of h.history _

theorem le_takeWhile_iff {α : Type} {p : α → Bool} {n : Nat} {l : List α} :
    n ≤ (l.takeWhile p).length ↔ n ≤ l.length ∧ ∀ x ∈ l.take n,p x = true := by
  induction l generalizing n with
  | nil => simp
  | cons x l ih =>
    cases n with
    | zero => simp
    | succ n =>
      cases h : p x with
      | false => simp [h]
      | true => simp [h,ih]

theorem Told.recovers_iff {log : List Check} (h : Told cfg t log) :
    (t.status ≠ .healthy ∧ (t.observe cfg o).status = .healthy) ↔
      cfg.recoveryStreak ≤ (t.check cfg o :: log).length ∧
      ∀ e ∈ (t.check cfg o :: log).take cfg.recoveryStreak.toNat,
        e.pingOK = true ∧ e.raw = .healthy ∧ e.before ≠ .healthy := by
  have hpos := cfg.streak_pos
  have hrule : (cfg.recoveryStreak ≤ (t.check cfg o :: log).length ∧
      ∀ e ∈ (t.check cfg o :: log).take cfg.recoveryStreak.toNat,
        e.pingOK = true ∧ e.raw = .healthy ∧ e.before ≠ .healthy) ↔
      cfg.recoveryStreak.toNat ≤ ((t.check cfg o :: log).takeWhile Check.good).length := by
    rw [le_takeWhile_iff,Int.toNat_le]
    simp only [Check.good_iff]
  rw [hrule,takeWhile_good_cons]
  cases observe_judged cfg t o with
  | bad hraw hstatus hstreak =>
    have hnot : ¬(t.check cfg o).good = true := by simp [check_good_iff,hraw]
    rw [if_neg hnot,hstatus]
    exact iff_of_false (fun hboth => hraw hboth.2) (by omega)
  | idle hraw hbefore hstatus =>
    have hnot : ¬(t.check cfg o).good = true := by simp [check_good_iff,hbefore]
    rw [if_neg hnot]
    exact iff_of_false (fun hboth => hboth.1 hbefore) (by omega)
  | broken hraw hbefore hping hstatus hstreak =>
    have hnot : ¬(t.check cfg o).good = true := by simp [check_good_iff,hping]
    rw [if_neg hnot,hstatus]
    exact iff_of_false (fun hboth => hboth.1 hboth.2) (by omega)
  | climbs hraw hbefore hping hlow hstatus hstreak =>
    have hgood : (t.check cfg o).good = true := check_good_iff.2 ⟨hping,hraw,hbefore⟩
    have hcount := (h.streak hbefore).1
    rw [if_pos hgood,hstatus]
    exact iff_of_false (fun hboth => hboth.1 hboth.2) (by omega)
  | recovers hraw hbefore hping hhigh hstatus =>
    have hgood : (t.check cfg o).good = true := check_good_iff.2 ⟨hping,hraw,hbefore⟩
    have hcount := (h.streak hbefore).1
    rw [if_pos hgood]
    exact iff_of_true ⟨hbefore,hstatus⟩ (by omega)

end Observing

structure Unchecked (t : Tracked) : Prop where
  streak : t.recoveryStreak = 0
  history : t.history.recent = []

theorem restore_unchecked (pairs : List (String × Option String)) {m : Monitor}
    (h : ∀ name,∀ t ∈ m name,Unchecked t) :
    ∀ name,∀ t ∈ pairs.foldl Monitor.restore m name,Unchecked t := by
  induction pairs generalizing m with
  | nil => exact h
  | cons pair pairs ih =>
    refine ih fun name t ht => ?_
    cases hvalue : pair.2.bind parseStatus with
    | none => exact h name t (by simpa [Monitor.restore,hvalue] using ht)
    | some status =>
      cases hold : m pair.1 with
      | none => exact h name t (by simpa [Monitor.restore,hvalue,hold] using ht)
      | some old =>
        simp only [Monitor.restore,hvalue,hold,Monitor.set] at ht
        split at ht
        · obtain rfl := Option.some.inj ht
          exact ⟨(h _ old hold).streak,(h _ old hold).history⟩
        · exact h name t ht

theorem new_unchecked (providers : List String) (redis : Persisted) :
    ∀ name,∀ t ∈ Monitor.new providers redis name,Unchecked t := by
  have hnew : ∀ name,∀ t ∈ (if name ∈ providers then some Tracked.new else none),Unchecked t := by
    intro name t ht
    split at ht
    · obtain rfl := Option.some.inj ht
      exact ⟨rfl,rfl⟩
    · cases ht
  cases redis with
  | noClient => exact hnew
  | failed => exact hnew
  | values vals => exact restore_unchecked _ hnew

namespace Surveyed

variable {cfg : MonitorConfig} {s : Surveyed} {name : String} {t : Tracked} {o : Observation}

theorem start_told (cfg : MonitorConfig) (providers : List String) (redis : Persisted) :
    ∀ name,∀ t ∈ (start providers redis).monitor name,
      Told cfg t ((start providers redis).log name) := by
  intro name t ht
  have hunchecked := new_unchecked providers redis name t ht
  exact ⟨fun _ => ⟨hunchecked.streak,by rw [hunchecked.streak]; exact cfg.streak_pos⟩,
    hunchecked.history⟩

theorem observe_monitor (s : Surveyed) (name other : String) (o : Observation) :
    (s.observe cfg name o).monitor other =
      if other = name then (s.monitor other).map (·.observe cfg o) else s.monitor other := by
  simp only [observe,Monitor.observe]
  cases hname : s.monitor name with
  | none =>
    split
    · rename_i hsame
      simp [hsame,hname]
    · rfl
  | some t =>
    simp only [Monitor.set]
    split
    · rename_i hsame
      simp [hsame,hname]
    · rfl

theorem reaches_told {providers : List String} {redis : Persisted}
    {calls : List (String × Observation)}
    (h : Reaches (step cfg) (fun _ _ => True) (start providers redis) calls s) :
    ∀ name,∀ t ∈ s.monitor name,Told cfg t (s.log name) := by
  refine h.invariant (I := fun s => ∀ name,∀ t ∈ s.monitor name,Told cfg t (s.log name)) ?_
    (start_told cfg providers redis)
  rintro s ⟨name,o⟩ s' hs - hstep other t ht
  obtain rfl := Option.some.inj hstep
  rw [observe_monitor] at ht
  by_cases hsame : other = name
  · rw [if_pos hsame] at ht
    obtain ⟨old,hold,rfl⟩ := Option.map_eq_some_iff.1 ht
    simp only [observe,if_pos hsame,hold,Option.elim]
    exact (hs other old hold).observe o
  · rw [if_neg hsame] at ht
    simp only [observe,if_neg hsame]
    exact hs other t ht

/-- From any restored statuses and in any order of `Observe` calls of all
providers, one more `Observe` of a provider: it becomes healthy exactly with the
last of RecoveryStreak good checks in a row; a raw classification other than
healthy is taken over at once; else the status stays. A change, and nothing else,
puts one entry into the transition log, which thus holds the latest changes of
the whole history. -/
theorem status_changes {providers : List String} {redis : Persisted}
    {calls : List (String × Observation)}
    (hrun : Reaches (step cfg) (fun _ _ => True) (start providers redis) calls s)
    (ht : s.monitor name = some t) (o : Observation) :
    (s.observe cfg name o).monitor name = some (t.observe cfg o) ∧
    (s.observe cfg name o).log name = t.check cfg o :: s.log name ∧
    (t.status ≠ .healthy ∧ (t.observe cfg o).status = .healthy ↔
      cfg.recoveryStreak ≤ (t.check cfg o :: s.log name).length ∧
      ∀ e ∈ (t.check cfg o :: s.log name).take cfg.recoveryStreak.toNat,
        e.pingOK = true ∧ e.raw = .healthy ∧ e.before ≠ .healthy) ∧
    ((t.raw cfg o).1 ≠ .healthy → (t.observe cfg o).status = (t.raw cfg o).1) ∧
    ((t.raw cfg o).1 = .healthy → ¬(t.status ≠ .healthy ∧ (t.observe cfg o).status = .healthy) →
      (t.observe cfg o).status = t.status) ∧
    (t.observe cfg o).history = (if (t.observe cfg o).status = t.status then t.history
      else t.history.append (t.check cfg o).entry) ∧
    t.history.recent =
      (((s.log name).filter Check.changes).map Check.entry).take transitionHistoryCapacity := by
  have htold := reaches_told hrun name t ht
  refine ⟨by simp [observe_monitor,ht],by simp [observe,ht],htold.recovers_iff,?_,?_,?_,
    htold.history⟩
  · intro hraw
    cases observe_judged cfg t o with
    | bad _ hstatus _ => exact hstatus
    | idle hhealthy _ _ => exact absurd hhealthy hraw
    | broken hhealthy _ _ _ _ => exact absurd hhealthy hraw
    | climbs hhealthy _ _ _ _ _ => exact absurd hhealthy hraw
    | recovers hhealthy _ _ _ _ => exact absurd hhealthy hraw
  · intro hraw hnot
    cases observe_judged cfg t o with
    | bad hbad _ _ => exact absurd hraw hbad
    | idle _ hbefore hstatus => rw [hstatus,hbefore]
    | broken _ _ _ hstatus _ => exact hstatus
    | climbs _ _ _ _ hstatus _ => exact hstatus
    | recovers _ hbefore _ _ hstatus => exact absurd ⟨hbefore,hstatus⟩ hnot
  · rw [observe_history]
    by_cases hsame : (t.observe cfg o).status = t.status
    · have hchanges : ¬(t.check cfg o).changes = true := fun h => Check.changes_iff.1 h hsame.symm
      rw [if_neg hchanges,if_pos hsame]
    · rw [if_pos (Check.changes_iff.2 (Ne.symm hsame)),if_neg hsame]

def twoChecks : MonitorConfig :=
  ⟨1/10,1/2,3,2,by norm_num,by norm_num,by norm_num,by norm_num,by norm_num,by norm_num⟩

def quiet : Observation := ⟨true,⟨0,0,0,0⟩,false,0,0⟩

/-- Restored as degraded, healthy with the second quiet check. -/
theorem status_changes_restored :
    let s := (start ["a"] (.values [some "degraded"])).observe twoChecks "a" quiet
    ∃ t,s.monitor "a" = some t ∧ t.status = .degraded ∧
      (t.observe twoChecks quiet).status = .healthy := by
  intro s
  have hrun : Reaches (step twoChecks) (fun _ _ => True) (start ["a"] (.values [some "degraded"]))
      [("a",quiet)] s := .next trivial rfl (.stop s)
  have htracked : s.monitor "a" =
      some (Tracked.observe twoChecks { Tracked.new with status := .degraded } quiet) := by rfl
  refine ⟨_,htracked,by decide +kernel,?_⟩
  exact ((status_changes hrun htracked quiet).2.2.1.2 (by decide +kernel)).2

end Surveyed

end Switchyard.Health
