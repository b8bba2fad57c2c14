import Switchyard.CacheLookup
import Switchyard.ChatWire
import Switchyard.LiveConfig
import Switchyard.TeamRegistry
import Switchyard.TokenBucket
set_option autoImplicit false

/-!
The calls a chat request makes on everything outside the handler, and the error
responses it writes (internal/proxy: errors.go, ratelimit.go, budget.go). Logs,
spans, prometheus counters and durations are left out.
-/

namespace Switchyard.Proxy
open GoText CallTree Provider Resilience

inductive Failure where
  | fault (f : Fault)
  | breakerOpen
  | budgetDenied (teamID model : String) (spentMicros capMicros : Int)
  deriving DecidableEq, Repr

structure ChainFailure where
  candidate : Candidate
  attempts : Nat
  err : Failure
  deriving DecidableEq, Repr

structure AttemptDetail where
  provider : String
  model : String
  attempts : Nat
  type : String
  message : String
  deriving DecidableEq, Repr

structure ErrorDetail where
  message : String
  type : String
  attempts : List AttemptDetail
  deriving DecidableEq, Repr

inductive ReplyBody where
  | error (detail : ErrorDetail)
  | completion (response : ChatResponse)
  deriving DecidableEq, Repr

inductive SseEvent where
  | chunk (c : ChatChunk)
  | error (detail : ErrorDetail)
  | done
  deriving DecidableEq, Repr

/-- How a non-streaming provider call ends; a body is still untranslated. -/
inductive Completion (d : Dialect) where
  | body (raw : Except String (Body d))
  | failed (f : Fault)
  | panicked (p : String)

inductive StreamEnd where
  | eof
  | failed (f : Fault)
  | panicked (p : String)
  deriving DecidableEq, Repr

/-- Everything an open stream will deliver. -/
structure StreamReader where
  chunks : List Chunk
  ending : StreamEnd
  deriving DecidableEq, Repr

inductive Connection where
  | opened (stream : StreamReader)
  | failed (f : Fault)
  | panicked (p : String)
  deriving DecidableEq, Repr

inductive Injection where
  | nothing
  | failed (e : Provider.Error)
  | panicked (p : String)
  deriving DecidableEq, Repr

inductive Op where
  | forModel (model : String)
  | defaultMaxTokensFor (model : String)
  | tierFor (model : String)
  | tierNamed (name : String)
  | cost (model : String) (inputTokens outputTokens : Int)
  | status (provider : String)
  | breakerState (c : Candidate)
  | breakerAllow (c : Candidate)
  | breakerReport (c : Candidate) (success : Bool)
  | ctxErr
  | int64N (n : Int)
  | wait (delay : Int)
  | chaos (c : Candidate)
  | complete (p : Adapter) (req : Request)
  | stream (p : Adapter) (req : Request)
  | recordHealth (provider : String) (err : Option Fault)
  | reserveTokens (teamID : String) (capacity amount ttl : Int)
  | reconcileTokens (r : Option RateLimit.Reservation) (actual : Int)
  | reserveSpend (teamID : String) (capMicros estimatedMicros : Int)
  | reconcileSpend (r : Option Budget.Reservation) (actualMicros : Int)
  | cache (op : Cache.Op)
  | now
  | header (name value : String)
  | reply (status : Nat) (body : ReplyBody)
  | event (e : SseEvent)

/-- A clock reading is in nanoseconds; `ctxErr` answers whether the request is
over, `wait` whether it outlived the delay, `event` whether it was written. -/
abbrev Ans : Op → Type
  | .forModel _ => Except ResolveError Adapter
  | .defaultMaxTokensFor _ => Option Int
  | .tierFor _ => List Candidate
  | .tierNamed _ => List Candidate
  | .cost _ _ _ => Except String Int
  | .status _ => Status
  | .breakerState _ => BreakerState
  | .breakerAllow _ => Bool
  | .breakerReport _ _ => Unit
  | .ctxErr => Bool
  | .int64N _ => Int
  | .wait _ => Bool
  | .chaos _ => Injection
  | .complete p _ => Completion p.dialect
  | .stream _ _ => Connection
  | .recordHealth _ _ => Unit
  | .reserveTokens _ _ _ _ => Except String (Option RateLimit.Reservation × RateLimit.Result)
  | .reconcileTokens _ _ => Except String Unit
  | .reserveSpend _ _ _ => Except String (Option Budget.Reservation × Budget.Result)
  | .reconcileSpend _ _ => Except String Unit
  | .cache op => Cache.Ans op
  | .now => Int
  | .header _ _ => Unit
  | .reply _ _ => Unit
  | .event _ => Bool

abbrev Program := Prog Op Ans

abbrev History := List (Event Op Ans)

def ask (op : Op) : Program (Ans op) := perform op

def unix (now : Int) : Int := now/1000000000

/-- `fmt.Sprintf("$%.2f", float64(micros)/1e6)`. -/
def formatUSD (micros : Int) : String :=
  let dollars := Binary64.round (Binary64.round micros/1000000)
  let cents := (Binary64.halfEven (abs dollars*100)).toNat
  let sign := if dollars < 0 then "-" else ""
  s!"${sign}{cents/100}.{cents%100/10}{cents%10}"

def Failure.text : Failure → String
  | .fault f => f.text
  | .breakerOpen => "circuit breaker is open for this provider and model"
  | .budgetDenied teamID model spentMicros capMicros =>
    s!"team {teamID} cannot afford model {model}: {formatUSD spentMicros} spent of " ++
      s!"{formatUSD capMicros} cap"

def writeError (status : Nat) (errType message : String) : Program Unit := do
  ask (.header "Content-Type" "application/json")
  ask (.reply status (.error ⟨message,errType,[]⟩))

def internalError (message : String) : Program Unit := writeError 500 "internal_error" message

def statusForKind : Kind → Nat
  | .rateLimited => 429
  | .timeout => 504
  | .invalidRequest => 400
  | .contentPolicy => 400
  | .authFailed => 502
  | .serverError => 502
  | .networkError => 502

def seconds (d : Int) : ℚ :=
  Binary64.round (Binary64.round (d.tdiv 1000000000)+
    Binary64.round (Binary64.round (d.tmod 1000000000)/1000000000))

def upstreamMessage (e : Provider.Error) : String :=
  if e.message = "" then "the upstream provider returned an error" else e.message

def writeProviderError (f : Fault) : Program Unit :=
  match asProviderError f with
  | none => internalError "the gateway encountered an unexpected error"
  | some e => do
    if 0 < e.retryAfter then
      ask (.header "Retry-After" (formatInt (max 1 ⌊seconds e.retryAfter⌋)))
    writeError (statusForKind e.kind) e.kind.text (upstreamMessage e)

def sseErrorDetail (f : Fault) : ErrorDetail :=
  match asProviderError f with
  | none => ⟨"the gateway encountered an unexpected error","internal_error",[]⟩
  | some e => ⟨upstreamMessage e,e.kind.text,[]⟩

def attemptDetail (f : ChainFailure) : AttemptDetail :=
  let detail := ⟨f.candidate.provider,f.candidate.model,f.attempts,"unknown",f.err.text⟩
  match f.err with
  | .breakerOpen => { detail with type := "circuit_breaker_open" }
  | .fault (.provider e) => { detail with
      type := e.kind.text
      message := if e.message = "" then detail.message else e.message }
  | _ => detail

def writeChainExhaustedError (requestedModel : String) (failures : List ChainFailure) :
    Program Unit := do
  ask (.header "Content-Type" "application/json")
  ask (.reply 503 (.error ⟨s!"every provider able to serve model {quote requestedModel} " ++
    s!"failed; {failures.length} were tried","chain_exhausted",failures.map attemptDetail⟩))

def writeBudgetExceededError (teamID : String) (spentMicros capMicros : Int) : Program Unit :=
  writeError 402 "budget_exceeded" (s!"team {quote teamID} has spent {formatUSD spentMicros} of " ++
    s!"its {formatUSD capMicros} monthly budget; this request was not made")

def writeBudgetUnavailableError : Program Unit :=
  writeError 503 "budget_check_unavailable" ("the gateway could not verify this team's budget " ++
    "and is failing closed; try again shortly")

def lastChainError (failures : List ChainFailure) : Failure :=
  match failures.getLast? with
  | none => .fault (.other "fallback chain was empty")
  | some f => f.err

def lastAttempted (failures : List ChainFailure) : Candidate :=
  match failures.getLast? with
  | none => ⟨"",""⟩
  | some f => f.candidate

def writeChainError (requestedModel : String) (failures : List ChainFailure) (err : Failure) :
    Program Unit :=
  match err with
  | .budgetDenied teamID _ spentMicros capMicros =>
    writeBudgetExceededError teamID spentMicros capMicros
  | .breakerOpen =>
    if 1 < failures.length then writeChainExhaustedError requestedModel failures
    else writeError 503 "circuit_breaker_open"
      (s!"the circuit breaker for model {quote requestedModel} is open after repeated upstream " ++
        "failures; no request was sent")
  | .fault f =>
    if 1 < failures.length ∧ Resilience.shouldFallback f then
      writeChainExhaustedError requestedModel failures
    else writeProviderError f

/-- The headers of a rate-limit rejection, and the seconds it tells the caller to
wait. -/
def writeRateLimitHeaders (limit : Int) (res : RateLimit.Result) : Program Int := do
  let retryAfter := max res.retryAfter 1000000000
  let retryAfterSeconds := ⌈seconds retryAfter⌉
  let refillPerSecond := Binary64.round (Binary64.round limit/60)
  let reset := Binary64.round (Binary64.round (Binary64.round limit-res.remaining)/refillPerSecond)
  ask (.header "Retry-After" (formatInt retryAfterSeconds))
  ask (.header "X-RateLimit-Limit" (formatInt limit))
  ask (.header "X-RateLimit-Remaining" (formatInt ⌊max res.remaining 0⌋))
  ask (.header "X-RateLimit-Reset" (formatInt ⌈max reset 0⌉))
  pure retryAfterSeconds

def writeRateLimitError (limit : Int) (res : RateLimit.Result) : Program Unit := do
  let retryAfterSeconds ← writeRateLimitHeaders limit res
  writeError 429 "rate_limit_exceeded"
    s!"TPM rate limit exceeded; retry after {retryAfterSeconds} seconds"

def writePriorityShedError (limit : Int) (res : RateLimit.Result) : Program Unit := do
  let retryAfterSeconds ← writeRateLimitHeaders limit res
  writeError 429 "priority_shed" ("TPM batch-priority traffic is shed once the bucket drops " ++
    s!"below 20% remaining; retry after {retryAfterSeconds} seconds or from a realtime-priority team")

/-- Less than a fifth of the bucket is left to a batch team. -/
def shouldShedForPriority (team : Auth.Team) (capacity : Int) (res : RateLimit.Result) : Bool :=
  if team.priority ≠ Auth.priorityBatch ∨ capacity ≤ 0 then false
  else res.remaining < Binary64.round (Binary64.round (1/5)*Binary64.round capacity)

end Switchyard.Proxy
