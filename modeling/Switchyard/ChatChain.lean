import Switchyard.ChatCalls
set_option autoImplicit false

/-!
Routing, the candidate chain and the walk over it (internal/proxy: route.go,
fallback.go, budget.go; internal/router/policy.go).
-/

namespace Switchyard.Routing
open Provider

inductive Complexity where
  | simple
  | complex
  deriving DecidableEq, Repr

structure Policy where
  simple : String
  complex : String
  deriving DecidableEq, Repr

def Policy.tier (p : Policy) : Complexity → String
  | .complex => p.complex
  | .simple => p.simple

def Policy.escalate (p : Policy) (tier : String) : Option String :=
  if tier = p.simple ∧ p.complex ≠ "" ∧ p.complex ≠ p.simple then some p.complex else none

structure Decision where
  level : Complexity
  reason : String
  deriving DecidableEq, Repr

structure Plan where
  tier : String
  level : Complexity
  pinned : Bool
  reason : String
  deriving DecidableEq, Repr

/-- The classifier is any function of the request. -/
structure Router where
  classify : Request → Decision
  policy : Policy

def autoModel : String := "auto"

def Router.routes (r : Router) (model : String) : Bool :=
  model = autoModel ∨ (model ≠ "" ∧ (model = r.policy.simple ∨ model = r.policy.complex))

def Router.levelOf (r : Router) (tier : String) : Complexity :=
  if tier = r.policy.complex then .complex else .simple

def Router.plan (r : Router) (model : String) (req : Request) : Option Plan :=
  if !r.routes model then none
  else if model ≠ autoModel then
    some ⟨model,r.levelOf model,true,"tier=" ++ model ++ " pinned"⟩
  else
    let d := r.classify req
    some ⟨r.policy.tier d.level,d.level,false,d.reason⟩

end Switchyard.Routing

namespace Switchyard.Proxy
open GoText CallTree Provider Resilience

structure TTLRule where
  ttl : Int
  patterns : List String
  deriving DecidableEq, Repr

/-- `lower` is `strings.ToLower`. -/
structure TTLPolicy where
  default : Int
  max : Int
  rules : List TTLRule
  lower : String → String

structure CacheSetup where
  unit : Cache.Float32Unit
  store : Cache.StoreConfig
  lookup : Cache.LookupConfig
  embedder : Bool
  ttl : TTLPolicy

/-- A handler's dependencies; health and breakers say whether it has them. -/
structure Handler where
  retryConfig : Resilience.Config
  health : Bool
  breakers : Bool
  cache : Option CacheSetup
  routing : Option Routing.Router
  printFloat : UInt32 → String

structure Metrics where
  requestedModel : String
  stream : Bool
  routedModel : String
  routedTier : String
  routeReason : String
  routeBaselineModel : String
  cacheHit : Option Bool
  cacheTier : String
  providerName : String
  servedModel : String
  fellBack : Bool
  usage : Usage
  costMicros : Int
  fallbackCostDeltaMicros : Option Int
  routingSavingsMicros : Option Int
  deriving DecidableEq, Repr

def Metrics.zero : Metrics := ⟨"",false,"","","","",none,"","","",false,⟨0,0⟩,0,none,none⟩

def Metrics.baselineModel (m : Metrics) : String :=
  if m.routedModel ≠ "" then m.routedModel else m.requestedModel

/-- The variables of one request: its metrics, the token count to settle with,
and the budget top-ups of its chain walk. -/
structure Vars where
  metrics : Metrics
  actual : Int
  extra : List (Option Budget.Reservation)
  deriving DecidableEq, Repr

def Vars.zero : Vars := ⟨.zero,0,[]⟩

def Vars.charge (v : Vars) (costMicros : Int) : Vars :=
  { v with metrics := { v.metrics with costMicros } }

abbrev Action := Act Op Ans Vars

def call (op : Op) : Action (Ans op) := Act.call op

def setMetrics (f : Metrics → Metrics) : Action Unit :=
  Act.modify fun v => { v with metrics := f v.metrics }

def Handler.statusOf (h : Handler) (provider : String) : Program Status :=
  if h.health then ask (.status provider) else pure .healthy

def teamAllows (team : Auth.Team) (provider model : String) : Bool :=
  team.allowsProvider provider && team.allowsModel model

def Handler.buildChain (h : Handler) (team : Auth.Team) (requested : Candidate)
    (tier : List Candidate) : Program (List Candidate) :=
  Resilience.buildChain requested tier h.statusOf (teamAllows team)

def Handler.chainFor (h : Handler) (team : Auth.Team) (requested : Candidate) :
    Program (List Candidate) := do
  let tier ← ask (.tierFor requested.model)
  h.buildChain team requested tier

inductive TierError where
  | unknown
  | empty
  deriving DecidableEq, Repr

def Handler.firstNotOpen (h : Handler) (head : Candidate) : List Candidate → Program Candidate
  | [] => pure head
  | c :: cs =>
    if h.breakers then do
      if (← ask (.breakerState c)) = BreakerState.open then h.firstNotOpen head cs else pure c
    else pure c

def Handler.selectCandidate (h : Handler) (team : Auth.Team) (tier : String) :
    Program (Except TierError Candidate) := do
  let candidates ← ask (.tierNamed tier)
  if candidates = [] then pure (.error .unknown)
  else do
    match ← h.buildChain team ⟨"",""⟩ candidates with
    | [] => pure (.error .empty)
    | head :: rest => do
      let c ← h.firstNotOpen head (head :: rest)
      pure (.ok c)

def topTierModel (r : Routing.Router) : Program String := do
  match ← ask (.tierNamed r.policy.complex) with
  | [] => pure ""
  | c :: _ => pure c.model

structure Routed where
  model : String
  tier : String
  reason : String
  baselineModel : String
  deriving DecidableEq, Repr

/-- Only an inferred tier may move up. -/
def Handler.selectPlanned (h : Handler) (team : Auth.Team) (r : Routing.Router)
    (plan : Routing.Plan) : Program (Except TierError Candidate × Routing.Plan) := do
  match ← h.selectCandidate team plan.tier with
  | .ok c => pure (.ok c,plan)
  | .error e =>
    match if plan.pinned then none else r.policy.escalate plan.tier with
    | none => pure (.error e,plan)
    | some up => do
      match ← h.selectCandidate team up with
      | .error _ => pure (.error e,plan)
      | .ok c => pure (.ok c,{ plan with tier := up, reason := plan.reason ++ " escalated=" ++ up })

/-- `route`: none when it answered the request itself, else how the request was
routed, if it was. -/
def Handler.route (h : Handler) (team : Auth.Team) (req : ChatRequest) :
    Program (Option (Option Routed)) :=
  match h.routing with
  | none => pure (some none)
  | some r =>
    match r.plan req.model req.toProviderRequest with
    | none => pure (some none)
    | some plan => do
      match ← h.selectPlanned team r plan with
      | (.error .unknown,_) => do
        internalError "the gateway could not resolve a routing tier"
        pure none
      | (.error .empty,plan) => do
        writeError 403 "model_not_allowed"
          s!"team {quote team.id} is not permitted to use any model in tier {quote plan.tier}"
        pure none
      | (.ok c,plan) => do
        let baseline ← topTierModel r
        pure (some (some ⟨c.model,plan.tier,plan.reason,baseline⟩))

structure ChainBudget where
  team : Auth.Team
  req : ChatRequest
  baseMicros : Int

def ChainBudget.estimateFor (cb : ChainBudget) (model : String) : Program (Except String Int) := do
  match ← ask (.defaultMaxTokensFor model) with
  | none => pure (.error s!"no default max tokens configured for model {quote model}")
  | some d => ask (.cost model cb.req.estimateInputTokens (cb.req.estimateOutputCeiling d))

/-- `admit`: the estimated cost beyond the requested model's, or why the
candidate cannot be used. -/
def ChainBudget.admitCandidate (cb : ChainBudget) (model : String) : Action (Except Failure Int) :=
  if model = cb.req.model then pure (.ok 0)
  else do
    match ← Act.lift (cb.estimateFor model) with
    | .error e => pure (.error (.fault (.other s!"pricing fallback candidate {quote model}: {e}")))
    | .ok estimate =>
      let delta := MachineInt.sub estimate cb.baseMicros
      if delta ≤ 0 then pure (.ok delta)
      else do
        match ← call (.reserveSpend cb.team.id cb.team.monthlyBudgetMicros delta) with
        | .error e => pure (.error (.fault (.other
            s!"re-checking budget for fallback candidate {quote model}: {e}")))
        | .ok (reservation,res) =>
          if !res.allowed then
            pure (.error (.budgetDenied cb.team.id model res.spentMicros
              cb.team.monthlyBudgetMicros))
          else do
            Act.modify fun v => { v with extra := v.extra ++ [reservation] }
            pure (.ok delta)

def pauses : Pauses Op Ans Vars := ⟨fun n => call (.int64N n),fun d => call (.wait d)⟩

def Handler.breakerAllows (h : Handler) (cand : Candidate) : Action Bool :=
  if h.breakers then call (.breakerAllow cand) else pure true

def Handler.breakerReport (h : Handler) (cand : Candidate) (success : Bool) : Action Unit :=
  if h.breakers then call (.breakerReport cand success) else pure ()

inductive Tried (α : Type) where
  | skipped (err : Failure)
  | called (result : Except Fault α) (attempts : Nat)

variable {α : Type}

def succeeded : Except Fault α → Bool
  | .ok _ => true
  | .error _ => false

/-- `logFallback` reads the last failure, none for the first candidate. Of the log
line only the index into an empty list is left, which panics. -/
def logFallback : Option (List ChainFailure) → Action Unit
  | none => pure ()
  | some failures =>
    match failures.getLast? with
    | none => Act.panic "runtime error: index out of range [-1]"
    | some _ => pure ()

/-- A round on one candidate; `left` are the failures it is a fallback for. -/
def Handler.tryCandidate (h : Handler) (cb : ChainBudget)
    (attempt : Adapter → Candidate → Action (Except Fault α)) (remaining : Nat)
    (left : Option (List ChainFailure)) (cand : Candidate) : Action (Tried α) := do
  if !(← h.breakerAllows cand) then pure (.skipped .breakerOpen)
  else do
    match ← cb.admitCandidate cand.model with
    | .error e => pure (.skipped e)
    | .ok _ => do
      logFallback left
      match ← call (.forModel cand.model) with
      | .error e => pure (.skipped (.fault (.other e.text)))
      | .ok prov => do
        let (result,attempts) ← retry pauses h.retryConfig.baseDelay
          (min h.retryConfig.maxAttempts remaining) fun _ => attempt prov cand
        h.breakerReport cand (succeeded result)
        pure (.called result attempts)

/-- Whether the walk stops before the next candidate because the request is over;
the first candidate is tried in any case. -/
def requestOver (first : Bool) : Action Bool := if first then pure false else call .ctxErr

/-- `runChain`, with the attempts spent and the failures so far: the value and
the candidate that served it, or every failure. -/
def Handler.runChain (h : Handler) (cb : ChainBudget)
    (attempt : Adapter → Candidate → Action (Except Fault α)) (first : Bool) (spent : Nat)
    (failures : List ChainFailure) :
    List Candidate → Action (Except (List ChainFailure) (α × Candidate))
  | [] => pure (.error failures)
  | cand :: rest =>
    let remaining := h.retryConfig.maxTotalAttempts-spent
    if remaining = 0 then pure (.error failures)
    else do
      if ← requestOver first then pure (.error failures)
      else do
        match ← h.tryCandidate cb attempt remaining
            (if first then none else some failures) cand with
        | .skipped e => h.runChain cb attempt false spent (failures ++ [⟨cand,0,e⟩]) rest
        | .called (.ok a) _ => pure (.ok (a,cand))
        | .called (.error f) attempts =>
          let failures := failures ++ [⟨cand,attempts,.fault f⟩]
          if shouldFallback f then h.runChain cb attempt false (spent+attempts) failures rest
          else pure (.error failures)

end Switchyard.Proxy
