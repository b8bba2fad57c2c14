import Switchyard.CircuitBreaker
import Switchyard.GoText
set_option autoImplicit false

/-!
The Redis keys that the breakers of one provider and model share
(internal/resilience/breaker_store.go). Redis decides everything by its own
clock in whole milliseconds, which is the `now` of this module. A key is gone once
the clock is past its expiry.
-/

namespace Switchyard.Resilience
open GoText

structure SharedState where
  state : BreakerState
  reopens : Int
  successes : Int
  deriving DecidableEq, Repr

inductive ScriptValue where
  | text (s : String)
  | number (n : Int)
  deriving DecidableEq, Repr

def ScriptValue.print : ScriptValue → String
  | .text s => s
  | .number n => toString n

def ScriptValue.typeName : ScriptValue → String
  | .text _ => "string"
  | .number _ => "int64"

def parseState (s : String) : Option BreakerState :=
  if s = "closed" then some .closed
  else if s = "open" then some .open
  else if s = "half_open" then some .halfOpen
  else none

def parseScriptInt : ScriptValue → Except String Int
  | .number n => .ok n
  | v => .error s!"expected an integer, got {v.typeName}"

/-- A reply of two elements is {state, successes} and leaves `Reopens` zero;
a longer one is {state, reopens, successes}. -/
def parseSharedState (raw : List ScriptValue) : Except String SharedState :=
  match raw with
  | first :: second :: rest =>
    match first with
    | .number _ => .error s!"resilience: unexpected breaker state type {first.typeName}"
    | .text name =>
      match parseState name with
      | none => .error s!"resilience: unrecognised breaker state {quote name}"
      | some state =>
        match rest with
        | [] =>
          match parseScriptInt second with
          | .error e => .error s!"resilience: parsing probe successes: {e}"
          | .ok n => .ok ⟨state,0,n⟩
        | third :: _ =>
          match parseScriptInt second with
          | .error e => .error s!"resilience: parsing reopen count: {e}"
          | .ok reopens =>
            match parseScriptInt third with
            | .error e => .error s!"resilience: parsing probe successes: {e}"
            | .ok successes => .ok ⟨state,reopens,successes⟩
  | short => .error ("resilience: unexpected breaker script result shape [" ++
      " ".intercalate (short.map ScriptValue.print) ++ "]")

/-- The hash under the state key, with the key's expiry. -/
structure Episode where
  untilMs : Int
  reopens : Int
  successes : Int
  expiresMs : Int
  deriving DecidableEq, Repr

/-- The state key and the probe key; of the latter only the expiry matters. -/
structure RedisStore where
  state : Option Episode
  probe : Option Int
  deriving DecidableEq, Repr

def milliseconds (d : Int) : Int := d.tdiv 1000000

def stateTTLSlack : Int := 600000000000

namespace RedisStore

variable (now : Int) (s : RedisStore)

def stateKey : Option Episode := s.state.filter (now ≤ ·.expiresMs)

def probeKey : Option Int := s.probe.filter (now ≤ ·)

def loadScript : List ScriptValue :=
  match s.stateKey now with
  | none => [.text "closed",.number 0,.number 0]
  | some e =>
    if now < e.untilMs then [.text "open",.number e.reopens,.number e.successes]
    else [.text "half_open",.number e.reopens,.number e.successes]

/-- `PEXPIRE` with a time that is not positive deletes the key. -/
def openScript (cooldownMs reopens ttlMs : Int) : RedisStore :=
  ⟨if 0 < ttlMs then some ⟨now+cooldownMs,reopens,0,now+ttlMs⟩ else none,none⟩

def probeSuccessScript (threshold : Int) : List ScriptValue × RedisStore :=
  match s.stateKey now with
  | none => ([.text "closed",.number 0],{ s with probe := none })
  | some e =>
    let successes := e.successes+1
    if threshold ≤ successes then ([.text "closed",.number successes],⟨none,none⟩)
    else ([.text "half_open",.number successes],⟨some { e with successes := successes },none⟩)

def load : Except String SharedState := parseSharedState (s.loadScript now)

/-- The sum of the cooldown and the slack is an int64. -/
def «open» (cooldown reopens : Int) : RedisStore :=
  openScript now (milliseconds cooldown) reopens
    (milliseconds (MachineInt.add cooldown stateTTLSlack))

def recordProbeSuccess (threshold : Int) : Except String SharedState × RedisStore :=
  let (raw,s') := s.probeSuccessScript now threshold
  (parseSharedState raw,s')

/-- `SetNX` sends whole milliseconds, at least one. -/
def slotMillis (ttl : Int) : Int := if ttl < 1000000 then 1 else milliseconds ttl

def claimProbe (ttl : Int) : Bool × RedisStore :=
  match s.probeKey now with
  | some _ => (false,s)
  | none => (true,{ s with probe := some (now+slotMillis ttl) })

def reset : RedisStore := ⟨none,none⟩

def view : SharedState :=
  match s.stateKey now with
  | none => ⟨.closed,0,0⟩
  | some e => ⟨if now < e.untilMs then .open else .halfOpen,e.reopens,e.successes⟩

variable {now s}

theorem load_eq : s.load now = .ok (s.view now) := by
  unfold load loadScript view
  cases s.stateKey now with
  | none => rfl
  | some e =>
    by_cases hcool : now < e.untilMs
    · simp only [if_pos hcool]
      rfl
    · simp only [if_neg hcool]
      rfl

inductive Counted (now : Int) (s : RedisStore) (threshold : Int) :
    Except String SharedState × RedisStore → Prop where
  | gone : s.stateKey now = none →
      Counted now s threshold (.ok ⟨.closed,0,0⟩,{ s with probe := none })
  | closes {e : Episode} : s.stateKey now = some e → threshold ≤ e.successes+1 →
      Counted now s threshold (.ok ⟨.closed,0,e.successes+1⟩,⟨none,none⟩)
  | counted {e : Episode} : s.stateKey now = some e → e.successes+1 < threshold →
      Counted now s threshold (.ok ⟨.halfOpen,0,e.successes+1⟩,
        ⟨some { e with successes := e.successes+1 },none⟩)

theorem recordProbeSuccess_counted (threshold : Int) :
    Counted now s threshold (s.recordProbeSuccess now threshold) := by
  unfold recordProbeSuccess probeSuccessScript
  cases hkey : s.stateKey now with
  | none => exact .gone hkey
  | some e =>
    by_cases hclose : threshold ≤ e.successes+1
    · simp only [if_pos hclose]
      exact .closes hkey hclose
    · simp only [if_neg hclose]
      exact .counted hkey (not_le.1 hclose)

theorem stateKey_some {e : Episode} (h : s.stateKey now = some e) :
    s.state = some e ∧ now ≤ e.expiresMs := by
  simpa [stateKey,Option.filter_eq_some_iff] using h

/-- The reply carries no count of reopens, and an episode that is left differs from
the one before in its successes only. -/
theorem Counted.left {threshold : Int} {shared : SharedState} {store : RedisStore}
    (h : Counted now s threshold (.ok shared,store)) :
    shared.reopens = 0 ∧ ∀ e,store.state = some e →
      ∃ e₀,s.state = some e₀ ∧ e = { e₀ with successes := e.successes } := by
  generalize hout : (Except.ok shared,store) = out at h
  cases h with
  | gone _ =>
    cases hout
    exact ⟨rfl,fun e he => ⟨e,he,rfl⟩⟩
  | closes _ _ =>
    cases hout
    exact ⟨rfl,by simp⟩
  | @counted e₀ hkey _ =>
    cases hout
    refine ⟨rfl,fun e he => ⟨e₀,(stateKey_some hkey).1,?_⟩⟩
    cases he
    rfl

theorem probeKey_none {expires : Int} (h : s.probeKey now = none)
    (hprobe : s.probe = some expires) : expires < now := by
  simpa [probeKey,hprobe] using h

end RedisStore

end Switchyard.Resilience
