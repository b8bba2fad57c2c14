import Switchyard.BreakerStore
set_option autoImplicit false

/-!
A breaker with a store: its mirror of the fleet's state, the cache of what it
last read, and its methods as one caller at a time sees them. What the store
answers is an argument. Each method is given the clock as it starts and as it
reads it later.
-/

namespace Switchyard.Resilience

/-- The fields under `cacheMu`. Nothing is cached where `cachedOK` is false; a
`cachedAt` of none is the zero time. -/
structure StateCache (α : Type) where
  cached : Option α
  cachedAt : Option Int
  deriving DecidableEq, Repr

namespace StateCache

variable {α : Type} (c : StateCache α)

/-- A read that failed is remembered as well. -/
def sharedState (ttl now later : Int) (load : Option α) : Option α × StateCache α :=
  match c.cachedAt with
  | none => (load,⟨load,some later⟩)
  | some stamp => if now-stamp < ttl then (c.cached,c) else (load,⟨load,some later⟩)

def installShared (now : Int) (shared : α) : StateCache α := ⟨some shared,some now⟩

def invalidateShared : StateCache α := { c with cachedAt := none }

theorem sharedState_cases (ttl now later : Int) (load : Option α) :
    c.sharedState ttl now later load = (c.cached,c) ∨
      c.sharedState ttl now later load = (load,⟨load,some later⟩) := by
  unfold sharedState
  cases c.cachedAt with
  | none => exact .inr rfl
  | some stamp =>
    by_cases hfresh : now-stamp < ttl
    · exact .inl (if_pos hfresh)
    · exact .inr (if_neg hfresh)

end StateCache

namespace Breaker

variable (cfg : BreakerConfig) (now : Int) (b : Breaker)

/-- The part of `allowShared` under the mutex. -/
def mirror (shared : SharedState) : Breaker :=
  let b := if shared.state ≠ b.state then b.setState now shared.state else b
  { b with reopens := shared.reopens, successStreak := shared.successes }

/-- The part of `publishProbeSuccess` under the mutex. The count is left alone
unless the breaker closed. -/
def adopt (shared : SharedState) : Breaker :=
  let b := { b with successStreak := shared.successes }
  let b := if shared.state ≠ b.state then b.setState now shared.state else b
  if shared.state = .closed then
    { b with reopens := 0, cooldown := cfg.cooldownBase, unpublished := false }
  else b

variable {cfg now b} {shared : SharedState}

@[simp] theorem mirror_state : (b.mirror now shared).state = shared.state := by
  unfold mirror
  by_cases h : shared.state = b.state
  · simp [h]
  · simp [h,setState]

@[simp] theorem mirror_reopens : (b.mirror now shared).reopens = shared.reopens := rfl

@[simp] theorem adopt_state : (b.adopt cfg now shared).state = shared.state := by
  cases hshared : shared.state <;> cases hb : b.state <;> simp [adopt,setState,hshared,hb]

theorem adopt_unpublished (h : b.unpublished = false) :
    (b.adopt cfg now shared).unpublished = false := by
  cases hshared : shared.state <;> cases hb : b.state <;> simp [adopt,setState,hshared,hb,h]

end Breaker

/-- One replica's breaker and its cache of the shared state. -/
structure SharedBreaker where
  breaker : Breaker
  cache : StateCache SharedState
  deriving DecidableEq, Repr

namespace SharedBreaker

variable (cfg : BreakerConfig) (now later : Int) (r : SharedBreaker)

def new : SharedBreaker := ⟨newSharedBreaker cfg true,⟨none,none⟩⟩

def allowShared (claim : Except String Bool) (shared : SharedState) : Bool × SharedBreaker :=
  let r := { r with breaker := r.breaker.mirror now shared }
  match shared.state with
  | .closed => (true,r)
  | .halfOpen =>
    match claim with
    | .ok won => (won,r)
    | .error _ => (false,r)
  | .open => (false,r)

@[simp] theorem allowShared_breaker (claim : Except String Bool) (shared : SharedState) :
    (r.allowShared now claim shared).2.breaker = r.breaker.mirror now shared := by
  unfold allowShared
  cases shared.state with
  | closed => rfl
  | «open» => rfl
  | halfOpen => cases claim <;> rfl

def allowLocal : Bool × SharedBreaker :=
  let (allowed,b) := r.breaker.allowLocal cfg now
  (allowed,{ r with breaker := b })

def allow (load : Except String SharedState) (claim : Except String Bool) : Bool × SharedBreaker :=
  if r.breaker.usesStore then
    let (shared,cache) := r.cache.sharedState cfg.stateCacheTTL now later load.toOption
    let r := { r with cache := cache }
    match shared with
    | some shared => r.allowShared later claim shared
    | none => r.allowLocal cfg later
  else r.allowLocal cfg later

def publishProbeSuccess (reply : Except String SharedState) : SharedBreaker :=
  match reply with
  | .error _ => { r with cache := r.cache.invalidateShared }
  | .ok shared => ⟨r.breaker.adopt cfg now shared,.installShared now shared⟩

def recordSuccess (reply : Except String SharedState) : SharedBreaker :=
  let (publish,b) := r.breaker.recordSuccessLocally cfg now
  let r := { r with breaker := b }
  if publish then r.publishProbeSuccess cfg later reply else r

def publishOpen (reopens : Int) (answer : Except String Unit) : SharedBreaker :=
  match answer with
  | .error _ => ⟨{ r.breaker with unpublished := true },r.cache.invalidateShared⟩
  | .ok _ =>
    ⟨{ r.breaker with unpublished := false },.installShared now ⟨.open,reopens,0⟩⟩

def recordFailure (answer : Except String Unit) : Option (Int × Int) × SharedBreaker :=
  let (episode,b) := r.breaker.recordFailureLocally cfg now
  let r := { r with breaker := b }
  match episode with
  | some (cooldown,reopens) => (some (cooldown,reopens),r.publishOpen later reopens answer)
  | none => (none,r)

def reset (answer : Except String Unit) : Except String Unit × SharedBreaker :=
  let cache := if r.breaker.store then .installShared now ⟨.closed,0,0⟩ else r.cache
  (if r.breaker.store then answer else .ok (),⟨r.breaker.resetLocally cfg later,cache⟩)

end SharedBreaker

end Switchyard.Resilience
