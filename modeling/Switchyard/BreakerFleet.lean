import Switchyard.SharedBreaker
import Switchyard.Interleaving
import Switchyard.StepRuns
set_option autoImplicit false

/-!
Any number of replicas whose breakers share one store, with any number of calls
under way on each. A call of the breaker stops between any two of its critical
sections and store calls. No store call fails here, and the replicas' clocks
need not agree with each other or with Redis.
-/

namespace Switchyard.Resilience
open Interleaving StepRuns

/-- An `Open` as Redis executed it. -/
structure Opening where
  deadlineMs : Int
  reopens : Int
  cooldown : Int
  deriving DecidableEq, Repr

/-- Redis. Its clock is in nanoseconds; `opened` lists the Opens it has
executed, the latest first. -/
structure Server where
  now : Int
  store : RedisStore
  opened : List Opening
  deriving DecidableEq, Repr

def Server.ms (v : Server) : Int := v.now/1000000

inductive Source where
  | load
  | reply
  | own
  deriving DecidableEq, Repr

/-- A shared state, with the Opens that Redis had executed when it was
obtained. -/
structure Reading where
  shared : SharedState
  source : Source
  opened : List Opening
  deriving DecidableEq, Repr

/-- `mirrored` is the reading that the breaker's `reopens` was copied from. -/
structure Replica where
  breaker : Breaker
  cache : StateCache Reading
  mirrored : Option Reading
  deriving DecidableEq, Repr

/-- The breaker changes by itself; if its count does, that is no longer the one
it copied. -/
def Replica.update (r : Replica) (b : Breaker) : Replica :=
  { r with
    breaker := b
    mirrored := if b.reopens = r.breaker.reopens then r.mirrored else none }

inductive Grant where
  | locally (time : Int)
  | byState (basis : Reading) (time : Int)
  | byProbe (basis : Reading) (time : Int) (opened : List Opening)
  deriving DecidableEq, Repr

def Grant.time : Grant → Int
  | .locally time => time
  | .byState _ time => time
  | .byProbe _ time _ => time

inductive Point where
  | sharedState
  | allowShared (reading : Reading)
  | claimSharedProbe (reading : Reading)
  | allowLocal
  | waiting (grant : Grant)
  | publishProbeSuccess
  | installReply (reading : Reading)
  | adoptReply (reading : Reading)
  | publishOpen (cooldown reopens : Int)
  | installOpen (reopens : Int)
  | published
  | storeReset
  | installReset
  | resetLocally
  deriving DecidableEq, Repr

abbrev Fleet := System Server Replica Point

namespace Fleet

abbrev Outcome := Interleaving.Outcome Server Replica Point

inductive Action where
  | tick (now : Int)
  | allow (call replica : Nat)
  | reset (call replica : Nat)
  | report (call : Nat) (success : Bool) (now : Int)
  | run (call : Nat) (now later : Int)
  deriving DecidableEq, Repr

def Action.resets : Action → Bool
  | .reset _ _ => true
  | _ => false

variable (cfg : BreakerConfig)

def start : Fleet := ⟨⟨0,⟨none,none⟩,[]⟩,fun _ => ⟨newSharedBreaker cfg true,⟨none,none⟩,none⟩,[]⟩

/-- The first look of `Allow` at its breaker. -/
def allow (v : Server) (r : Replica) : Outcome :=
  ⟨v,r,some (if r.breaker.usesStore then .sharedState else .allowLocal)⟩

/-- The part of `RecordSuccess` and `RecordFailure` under the mutex. -/
def report (v : Server) (r : Replica) (success : Bool) (now : Int) : Outcome :=
  if success then
    let (publish,b) := r.breaker.recordSuccessLocally cfg now
    ⟨v,r.update b,if publish then some .publishProbeSuccess else none⟩
  else
    let (episode,b) := r.breaker.recordFailureLocally cfg now
    ⟨v,r.update b,episode.map fun e => .publishOpen e.1 e.2⟩

def advance (v : Server) (r : Replica) (now later : Int) : Point → Option Outcome
  | .sharedState =>
    match v.store.load v.ms with
    | .error _ => none
    | .ok shared =>
      let (reading,cache) :=
        r.cache.sharedState cfg.stateCacheTTL now later (some ⟨shared,.load,v.opened⟩)
      match reading with
      | some reading => some ⟨v,{ r with cache := cache },some (.allowShared reading)⟩
      | none => some ⟨v,{ r with cache := cache },some .allowLocal⟩
  | .allowShared reading =>
    let r := { r with breaker := r.breaker.mirror now reading.shared, mirrored := some reading }
    match reading.shared.state with
    | .closed => some ⟨v,r,some (.waiting (.byState reading v.now))⟩
    | .halfOpen => some ⟨v,r,some (.claimSharedProbe reading)⟩
    | .open => some ⟨v,r,none⟩
  | .claimSharedProbe reading =>
    let (won,store) := v.store.claimProbe v.ms cfg.probeTimeout
    some ⟨{ v with store := store },r,
      if won then some (.waiting (.byProbe reading v.now v.opened)) else none⟩
  | .allowLocal =>
    let (allowed,b) := r.breaker.allowLocal cfg now
    some ⟨v,r.update b,if allowed then some (.waiting (.locally v.now)) else none⟩
  | .waiting _ => none
  | .publishProbeSuccess =>
    match v.store.recordProbeSuccess v.ms cfg.successThreshold with
    | (.error _,_) => none
    | (.ok shared,store) =>
      some ⟨{ v with store := store },r,some (.installReply ⟨shared,.reply,v.opened⟩)⟩
  | .installReply reading =>
    some ⟨v,{ r with cache := .installShared now reading },some (.adoptReply reading)⟩
  | .adoptReply reading =>
    some ⟨v,r.update (r.breaker.adopt cfg now reading.shared),none⟩
  | .publishOpen cooldown reopens =>
    some ⟨{ v with
      store := .open v.ms cooldown reopens
      opened := ⟨v.ms+milliseconds cooldown,reopens,cooldown⟩ :: v.opened },r,
      some (.installOpen reopens)⟩
  | .installOpen reopens =>
    some ⟨v,{ r with cache := .installShared now ⟨⟨.open,reopens,0⟩,.own,v.opened⟩ },
      some .published⟩
  | .published => some ⟨v,r.update { r.breaker with unpublished := false },none⟩
  | .storeReset => some ⟨{ v with store := .reset },r,some .installReset⟩
  | .installReset =>
    some ⟨v,{ r with cache := .installShared now ⟨⟨.closed,0,0⟩,.own,v.opened⟩ },some .resetLocally⟩
  | .resetLocally =>
    some ⟨v,r.update (r.breaker.resetLocally cfg now),none⟩

/-- Redis's clock does not run backwards, a call is made once, and its outcome
is reported once. -/
def step (s : Fleet) : Action → Option Fleet
  | .tick now =>
    if s.server.now ≤ now then some { s with server := { s.server with now := now } } else none
  | .allow call replica =>
    if (s.thread call).isSome then none
    else some (s.settle call replica (allow s.server (s.nodes replica)))
  | .reset call replica =>
    if (s.thread call).isSome then none
    else some (s.settle call replica ⟨s.server,s.nodes replica,some .storeReset⟩)
  | .report call success now =>
    match s.thread call with
    | some ⟨_,replica,.waiting _⟩ =>
      some (s.settle call replica (report cfg s.server (s.nodes replica) success now))
    | _ => none
  | .run call now later =>
    match s.thread call with
    | some ⟨_,replica,point⟩ =>
      (advance cfg s.server (s.nodes replica) now later point).map (s.settle call replica)
    | none => none

variable {cfg} {v : Server} {r : Replica}

/-- All that one step of a call can do to Redis, to its replica and to itself. -/
inductive Moved (cfg : BreakerConfig) (v : Server) (r : Replica) : Point → Outcome → Prop where
  | succeeded {a : Grant} {now : Int} {publish : Bool} {b : Breaker} :
      r.breaker.Succeeded cfg now (publish,b) →
      Moved cfg v r (.waiting a)
        ⟨v,r.update b,if publish then some .publishProbeSuccess else none⟩
  | failed {a : Grant} {now : Int} {episode : Option (Int × Int)} {b : Breaker} :
      r.breaker.Failed cfg now (episode,b) →
      Moved cfg v r (.waiting a) ⟨v,r.update b,episode.map fun e => .publishOpen e.1 e.2⟩
  | cached {reading : Reading} : r.cache.cached = some reading →
      Moved cfg v r .sharedState ⟨v,r,some (.allowShared reading)⟩
  | uncached : Moved cfg v r .sharedState ⟨v,r,some .allowLocal⟩
  | loaded {stamp : Int} :
      Moved cfg v r .sharedState
        ⟨v,{ r with cache := .installShared stamp ⟨v.store.view v.ms,.load,v.opened⟩ },
          some (.allowShared ⟨v.store.view v.ms,.load,v.opened⟩)⟩
  | mirrored {reading : Reading} {now : Int} {next : Option Point} :
      next = none ∨
        reading.shared.state = .closed ∧ next = some (.waiting (.byState reading v.now)) ∨
        reading.shared.state = .halfOpen ∧ next = some (.claimSharedProbe reading) →
      Moved cfg v r (.allowShared reading)
        ⟨v,{ r with
          breaker := r.breaker.mirror now reading.shared
          mirrored := some reading },next⟩
  | won {reading : Reading} : v.store.probeKey v.ms = none →
      Moved cfg v r (.claimSharedProbe reading)
        ⟨{ v with store := { v.store with
            probe := some (v.ms+RedisStore.slotMillis cfg.probeTimeout) } },r,
          some (.waiting (.byProbe reading v.now v.opened))⟩
  | lost {reading : Reading} : Moved cfg v r (.claimSharedProbe reading) ⟨v,r,none⟩
  | allowed {now : Int} {next : Option Point} {b : Breaker} {allowed : Bool} :
      r.breaker.Allowed cfg now (allowed,b) →
      next = none ∨ next = some (.waiting (.locally v.now)) →
      Moved cfg v r .allowLocal ⟨v,r.update b,next⟩
  | counted {shared : SharedState} {store : RedisStore} :
      v.store.Counted v.ms cfg.successThreshold (.ok shared,store) →
      Moved cfg v r .publishProbeSuccess
        ⟨{ v with store := store },r,some (.installReply ⟨shared,.reply,v.opened⟩)⟩
  | installed {reading : Reading} {stamp : Int} :
      Moved cfg v r (.installReply reading)
        ⟨v,{ r with cache := .installShared stamp reading },some (.adoptReply reading)⟩
  | wrote {p next : Point} {reading : Reading} {stamp : Int} : reading.source = .own →
      (∃ reopens,p = .installOpen reopens ∧ reading.shared.reopens = reopens ∧ next = .published) ∨
        p = .installReset ∧ reading.shared.reopens = 0 ∧ next = .resetLocally →
      Moved cfg v r p ⟨v,{ r with cache := .installShared stamp reading },some next⟩
  | adopted {reading : Reading} {now : Int} :
      Moved cfg v r (.adoptReply reading)
        ⟨v,r.update (r.breaker.adopt cfg now reading.shared),none⟩
  | opened {cooldown reopens : Int} :
      Moved cfg v r (.publishOpen cooldown reopens)
        ⟨{ v with
          store := .open v.ms cooldown reopens
          opened := ⟨v.ms+milliseconds cooldown,reopens,cooldown⟩ :: v.opened },r,
          some (.installOpen reopens)⟩
  | published : Moved cfg v r .published ⟨v,r.update { r.breaker with unpublished := false },none⟩
  | cleared : Moved cfg v r .storeReset ⟨{ v with store := .reset },r,some .installReset⟩
  | reset {now : Int} :
      Moved cfg v r .resetLocally ⟨v,r.update (r.breaker.resetLocally cfg now),none⟩

theorem advance_moved {now later : Int} {p : Point} {o : Outcome}
    (h : advance cfg v r now later p = some o) : Moved cfg v r p o := by
  cases p with
  | sharedState =>
    simp only [advance,RedisStore.load_eq] at h
    obtain hcached | hloaded := r.cache.sharedState_cases cfg.stateCacheTTL now later
      (some ⟨v.store.view v.ms,.load,v.opened⟩)
    · simp only [hcached] at h
      cases hreading : r.cache.cached with
      | none =>
        simp only [hreading,Option.some.injEq] at h
        exact h ▸ .uncached
      | some reading =>
        simp only [hreading,Option.some.injEq] at h
        exact h ▸ .cached hreading
    · simp only [hloaded,Option.some.injEq] at h
      exact h ▸ .loaded
  | allowShared reading =>
    simp only [advance] at h
    cases hstate : reading.shared.state with
    | closed =>
      simp only [hstate,Option.some.injEq] at h
      exact h ▸ .mirrored (.inr (.inl ⟨hstate,rfl⟩))
    | halfOpen =>
      simp only [hstate,Option.some.injEq] at h
      exact h ▸ .mirrored (.inr (.inr ⟨hstate,rfl⟩))
    | «open» =>
      simp only [hstate,Option.some.injEq] at h
      exact h ▸ .mirrored (.inl rfl)
  | claimSharedProbe reading =>
    simp only [advance,RedisStore.claimProbe] at h
    cases hslot : v.store.probeKey v.ms with
    | none =>
      simp only [hslot,if_true,Option.some.injEq] at h
      exact h ▸ .won hslot
    | some expires =>
      simp only [hslot,Bool.false_eq_true,if_false,Option.some.injEq] at h
      exact h ▸ .lost
  | allowLocal =>
    simp only [advance,Option.some.injEq] at h
    refine h ▸ .allowed Breaker.allowLocal_allowed ?_
    cases (r.breaker.allowLocal cfg now).1 with
    | false => exact .inl rfl
    | true => exact .inr rfl
  | waiting a => cases h
  | publishProbeSuccess =>
    have hcounted : v.store.Counted v.ms cfg.successThreshold
        (v.store.recordProbeSuccess v.ms cfg.successThreshold) :=
      RedisStore.recordProbeSuccess_counted cfg.successThreshold
    simp only [advance] at h
    generalize v.store.recordProbeSuccess v.ms cfg.successThreshold = out at h hcounted
    obtain ⟨reply,store⟩ := out
    cases reply with
    | error e => cases hcounted
    | ok shared =>
      simp only [Option.some.injEq] at h
      exact h ▸ .counted hcounted
  | installReply reading =>
    cases h
    exact .installed
  | adoptReply reading =>
    cases h
    exact .adopted
  | publishOpen cooldown reopens =>
    cases h
    exact .opened
  | installOpen reopens =>
    cases h
    exact .wrote rfl (.inl ⟨reopens,rfl,rfl,rfl⟩)
  | published =>
    cases h
    exact .published
  | storeReset =>
    cases h
    exact .cleared
  | installReset =>
    cases h
    exact .wrote rfl (.inr ⟨rfl,rfl,rfl⟩)
  | resetLocally =>
    cases h
    exact .reset

theorem report_moved {a : Grant} {success : Bool} {now : Int} :
    Moved cfg v r (.waiting a) (report cfg v r success now) := by
  cases success with
  | true => exact .succeeded Breaker.recordSuccessLocally_succeeded
  | false => exact .failed Breaker.recordFailureLocally_failed

inductive Stepped (cfg : BreakerConfig) (s : Fleet) : Action → Fleet → Prop where
  | ticked {now : Int} : s.server.now ≤ now →
      Stepped cfg s (.tick now) { s with server := { s.server with now := now } }
  | called {call replica : Nat} {p : Point} : s.thread call = none →
      p = .sharedState ∨ p = .allowLocal →
      Stepped cfg s (.allow call replica) (s.settle call replica ⟨s.server,s.nodes replica,some p⟩)
  | resetting {call replica : Nat} : s.thread call = none →
      Stepped cfg s (.reset call replica)
        (s.settle call replica ⟨s.server,s.nodes replica,some .storeReset⟩)
  | moved {a : Action} {call : Nat} {t : Thread Point} {o : Outcome} : s.thread call = some t →
      (∃ g,t.point = .waiting g) ∨ (∃ now later,a = .run call now later) →
      Moved cfg s.server (s.nodes t.node) t.point o → Stepped cfg s a (s.settle call t.node o)

theorem step_stepped {s t : Fleet} {a : Action} (h : step cfg s a = some t) :
    Stepped cfg s a t := by
  cases a with
  | tick now =>
    simp only [step] at h
    by_cases hnow : s.server.now ≤ now
    · simp only [hnow,if_true,Option.some.injEq] at h
      exact h ▸ .ticked hnow
    · simp [hnow] at h
  | allow call replica =>
    simp only [step] at h
    cases hthread : s.thread call with
    | some t => simp [hthread] at h
    | none =>
      simp only [hthread,Option.isSome_none,Bool.false_eq_true,if_false,Option.some.injEq] at h
      refine h ▸ .called hthread ?_
      by_cases huses : (s.nodes replica).breaker.usesStore = true
      · exact .inl (if_pos huses)
      · exact .inr (if_neg huses)
  | reset call replica =>
    simp only [step] at h
    cases hthread : s.thread call with
    | some t => simp [hthread] at h
    | none =>
      simp only [hthread,Option.isSome_none,Bool.false_eq_true,if_false,Option.some.injEq] at h
      exact h ▸ .resetting hthread
  | report call success now =>
    simp only [step] at h
    split at h
    · rename_i id replica grant hthread
      cases h
      exact .moved hthread (.inl ⟨grant,rfl⟩) report_moved
    · cases h
  | run call now later =>
    simp only [step] at h
    split at h
    · rename_i id replica point hthread
      obtain ⟨o,hadvance,ht⟩ := Option.map_eq_some_iff.1 h
      exact ht ▸ .moved hthread (.inr ⟨now,later,rfl⟩) (advance_moved hadvance)
    · cases h

theorem shortCooldown_valid {n : Int} (h : 0 < n) :
    BreakerConfig.Valid 1 1000000000 1000000 8000000 n 1000000000 5 := ⟨by decide,h,by decide⟩

def shortCooldown (successThreshold : Int) (h : 0 < successThreshold) : BreakerConfig :=
  .of (shortCooldown_valid h)

/-- Call 1 fails and opens the breaker of replica 0; after the cooldown it comes
back as the probe. -/
def tripThenProbe : List Action :=
  [.allow 0 0,.run 0 1 1,.run 0 1 1,.allow 1 0,.run 1 1 1,.run 1 1 1,
    .report 1 false 2,.run 1 2 2,.run 1 2 2,.run 1 2 2,.tick 2000000,
    .allow 1 0,.run 1 20 20,.run 1 20 20,.run 1 20 20]

end Fleet

end Switchyard.Resilience
