import Mathlib.Data.List.Infix
import Switchyard.ChatChain
set_option autoImplicit false

/-!
`ChatCompletions` from the decoded body to the settled reservations
(internal/proxy: handler.go, cache.go). The handler stands behind the timing and
the authentication middleware, so the metrics and the team are there. Quality
sampling runs on its own goroutine and is left out.
-/

namespace Switchyard.Proxy
open MachineInt GoText CallTree Provider Resilience

inductive DecodeError where
  | tooLarge
  | invalid (text : String)
  deriving DecidableEq, Repr

/-- A request as the handler gets it; the body is what the JSON decoder makes of
at most `maxRequestBytes`. -/
structure Inbound where
  team : Auth.Team
  requestID : String
  contentType : String
  cacheTTL : String
  flusher : Bool
  body : Except DecodeError ChatRequest

def decode (h : Handler) (r : Inbound) : Program (Option ChatRequest) :=
  if r.contentType ≠ "" ∧ ¬"application/json".toList <+: r.contentType.toList then do
    writeError 415 "invalid_request_error" "Content-Type must be application/json"
    pure none
  else
    match r.body with
    | .error .tooLarge => do
      writeError 413 "invalid_request_error" "request body exceeds the 1 MiB limit"
      pure none
    | .error (.invalid text) => do
      writeError 400 "invalid_request_error" ("request body is not valid JSON: " ++ text)
      pure none
    | .ok req =>
      match req.validate h.printFloat with
      | .error e => do
        writeError 400 "invalid_request_error" e
        pure none
      | .ok () => pure (some req)

def authorizeModel (team : Auth.Team) (model : String) : Program Bool :=
  if team.allowsModel model then pure true
  else do
    writeError 403 "model_not_allowed" (s!"team {quote team.id} is not permitted to use model " ++
      s!"{quote model}; allowed models: " ++ String.intercalate ", " team.allowedModels)
    pure false

def resolve (model : String) : Program (Option Adapter) := do
  match ← ask (.forModel model) with
  | .ok prov => pure (some prov)
  | .error (.modelNotSupported _) => do
    writeError 404 "model_not_found" ("no provider is configured to serve model " ++ quote model)
    pure none
  | .error (.other _) => do
    internalError "the gateway could not resolve a provider for this model"
    pure none

def bucketTTL : Int := 120000000000

/-- `reserveTokens`: none when the request was answered, else the handle, which
is nil when the check failed open. -/
def reserveTokens (team : Auth.Team) (req : ChatRequest) :
    Program (Option (Option RateLimit.Reservation)) := do
  match ← ask (.defaultMaxTokensFor req.model) with
  | none => do
    internalError "the gateway could not size this request's token reservation"
    pure none
  | some d => do
    match ← ask (.reserveTokens team.id team.rateLimits.tpm (req.estimateTokens d) bucketTTL) with
    | .error _ => pure (some none)
    | .ok (reservation,res) =>
      if !res.allowed then do
        writeRateLimitError team.rateLimits.tpm res
        pure none
      else if shouldShedForPriority team team.rateLimits.tpm res then do
        let _ ← ask (.reconcileTokens reservation 0)
        writePriorityShedError team.rateLimits.tpm res
        pure none
      else pure (some reservation)

/-- `float64(spent)/float64(cap) >= 0.8`. -/
def budgetWarned (spentMicros capMicros : Int) : Bool :=
  let ratio := if capMicros ≤ 0 then 0
    else Binary64.round (Binary64.round spentMicros/Binary64.round capMicros)
  Binary64.round (4/5) ≤ ratio

/-- `reserveBudget`: none when the request was answered, else the handle and the
estimate it was taken for. -/
def reserveBudget (team : Auth.Team) (req : ChatRequest) :
    Program (Option (Option Budget.Reservation × Int)) := do
  match ← ask (.defaultMaxTokensFor req.model) with
  | none => do
    internalError "the gateway could not size this request's budget reservation"
    pure none
  | some d => do
    match ← ask (.cost req.model req.estimateInputTokens (req.estimateOutputCeiling d)) with
    | .error _ => do
      internalError "the gateway could not price this request"
      pure none
    | .ok estimatedMicros => do
      match ← ask (.reserveSpend team.id team.monthlyBudgetMicros estimatedMicros) with
      | .error _ => do
        writeBudgetUnavailableError
        pure none
      | .ok (reservation,res) =>
        if !res.allowed then do
          writeBudgetExceededError team.id res.spentMicros team.monthlyBudgetMicros
          pure none
        else do
          if budgetWarned res.spentMicros team.monthlyBudgetMicros then
            ask (.header "X-Switchyard-Budget-Warning" "true")
          pure (some (reservation,estimatedMicros))

def cacheScope (team : Auth.Team) : Cache.Scope :=
  ⟨team.organizationID,team.id,team.cacheIsolated⟩

def cacheProgram {α : Type} (p : Cache.Program α) : Program α := p.embed .cache fun _ ans => ans

def consultCache (c : CacheSetup) (team : Auth.Team) (req : ChatRequest) :
    Program (Cache.Key × Cache.Result) := do
  let key := Cache.newKey (cacheScope team) req.toProviderRequest
  let result ← cacheProgram (Cache.lookup c.unit c.store c.lookup c.embedder key)
  pure (key,result)

def cacheTierText (result : Cache.Result) : String :=
  if !result.hit then "miss"
  else match result.tier with
    | .none => ""
    | .exact => "exact"
    | .semantic => "semantic"

def writeSuccess (requestID : String) (resp : Response) : Program Unit := do
  let now ← ask .now
  ask (.header "Content-Type" "application/json")
  ask (.reply 200 (.completion (toChatResponse requestID (unix now) resp)))

def entryResponse (e : Cache.Entry) : Response :=
  ⟨e.response,e.finishReason,⟨e.inputTokens,e.outputTokens⟩,e.model,e.provider⟩

def Metrics.fromEntry (m : Metrics) (e : Cache.Entry) : Metrics :=
  { m with
    providerName := e.provider
    servedModel := e.model
    usage := ⟨e.inputTokens,e.outputTokens⟩ }

def serveFromCache (r : Inbound) (e : Cache.Entry) : Action Unit := do
  setMetrics fun m => m.fromEntry e
  Act.lift (writeSuccess r.requestID (entryResponse e))

def replayChunkRunes : Nat := 24

/-- `splitForReplay` on the text's runes. -/
def splitRunes : (rounds : Nat) → List Char → List String
  | 0,_ => []
  | _,[] => []
  | rounds+1,c :: cs =>
    String.ofList ((c :: cs).take replayChunkRunes) ::
      splitRunes rounds ((c :: cs).drop replayChunkRunes)

def splitForReplay (content : String) : List String :=
  splitRunes content.length content.toList

/-- The content chunks of a replay: whether each was written, and whether the
next chunk is still the first. -/
def replayParts (id : String) (created : Int) (model : String) :
    Bool → List String → Program (Bool × Bool)
  | first,[] => pure (true,first)
  | first,part :: parts => do
    if ← ask (.event (.chunk (toChatChunk id created model ⟨part,⟨""⟩,none⟩ first))) then
      replayParts id created model false parts
    else pure (false,false)

def streamHeaders : Program Unit := do
  ask (.header "Content-Type" "text/event-stream")
  ask (.header "Cache-Control" "no-cache")
  ask (.header "Connection" "keep-alive")

def serveStreamFromCache (r : Inbound) (e : Cache.Entry) : Action Unit :=
  if !r.flusher then Act.lift (internalError "the gateway cannot stream a response")
  else do
    setMetrics fun m => m.fromEntry e
    Act.lift do
      streamHeaders
      let now ← ask .now
      let id := chatCompletionID r.requestID
      match ← replayParts id (unix now) e.model true (splitForReplay e.response) with
      | (false,_) => pure ()
      | (true,first) => do
        let last := toChatChunk id (unix now) e.model ⟨"",e.finishReason,none⟩ first
        if ← ask (.event (.chunk last)) then
          let _ ← ask (.event .done)
          pure ()
        else pure ()

def clampTTL (d max : Int) : Option Int :=
  if d ≤ 0 then none else if 0 < max ∧ max < d then some max else some d

def TTLPolicy.ttlFor (p : TTLPolicy) (query : String) (override : Option Int) : Option Int :=
  match override with
  | some d => clampTTL d p.max
  | none =>
    let lowered := p.lower query
    match p.rules.find? fun rule => rule.patterns.any fun s => s.toList <:+: lowered.toList with
    | some rule => clampTTL rule.ttl p.max
    | none => clampTTL p.default p.max

def maxCacheTTLSeconds : Int := 31536000

def parseCacheTTLHeader (raw : String) : Option Int :=
  if raw = "" then none
  else
    match parseInt raw with
    | (secs,none) => if secs < 0 ∨ maxCacheTTLSeconds < secs then none else some (secs*1000000000)
    | (_,some _) => none

def cacheable (resp : Response) : Bool := resp.content ≠ "" ∧ resp.finishReason = .stop

/-- The entry `storeInCache` writes; its embedding is the lookup's. -/
def responseEntry (resp : Response) (now : Int) : Cache.Entry :=
  ⟨resp.content,resp.finishReason,resp.usage.inputTokens,resp.usage.outputTokens,resp.model,
    resp.provider,some now,0,[]⟩

def storeInCache (c : CacheSetup) (r : Inbound) (consulted : Cache.Key × Cache.Result)
    (resp : Response) : Program Unit :=
  if !cacheable resp then pure ()
  else
    match c.ttl.ttlFor consulted.1.query (parseCacheTTLHeader r.cacheTTL) with
    | none => pure ()
    | some ttl => do
      let now ← ask .now
      cacheProgram (Cache.store c.store consulted.1 consulted.2.embedding (responseEntry resp now)
        ttl now)

/-- What the request knows of the cache: its setup, the key and the lookup. -/
abbrev Consulted := Option (CacheSetup × Cache.Key × Cache.Result)

def storeConsulted (r : Inbound) (consulted : Consulted) (resp : Response) : Program Unit :=
  match consulted with
  | none => pure ()
  | some (c,k) => storeInCache c r k resp

def recordRoutingSavings (usage : Usage) : Action Unit := do
  let v ← Act.get
  if v.metrics.routedTier = "" ∨ v.metrics.routeBaselineModel = "" then pure ()
  else do
    match ← call (.cost v.metrics.routeBaselineModel usage.inputTokens usage.outputTokens) with
    | .error _ => pure ()
    | .ok baseline => setMetrics fun m => { m with
        routingSavingsMicros := some (sub baseline m.costMicros) }

/-- The counterfactual of a fallback: what the requested model would have cost. -/
def recordFallbackDelta (model : String) (usage : Usage) (cost : Int) : Action Unit := do
  let v ← Act.get
  let baseline := v.metrics.baselineModel
  if v.metrics.fellBack ∧ baseline ≠ "" ∧ baseline ≠ model then do
    match ← call (.cost baseline usage.inputTokens usage.outputTokens) with
    | .error _ => pure ()
    | .ok want => setMetrics fun m => { m with
        fallbackCostDeltaMicros := some (sub cost want) }
  else pure ()

def recordCost (model : String) (usage : Usage) : Action Unit := do
  match ← call (.cost model usage.inputTokens usage.outputTokens) with
  | .error _ => pure ()
  | .ok cost => do
    Act.modify fun v => v.charge cost
    recordRoutingSavings usage
    recordFallbackDelta model usage cost

def failAttempt {α : Type} (cand : Candidate) (f : Fault) : Action (Except Fault α) := do
  call (.recordHealth cand.provider (some f))
  pure (.error f)

/-- An attempt whose provider call is `body`, unless a fault is injected. -/
def injecting {α : Type} (cand : Candidate) (body : Action (Except Fault α)) :
    Action (Except Fault α) := do
  match ← call (.chaos cand) with
  | .panicked p => Act.panic p
  | .failed e => failAttempt cand (.provider e)
  | .nothing => body

def completeAttempt (baseReq : Request) (prov : Adapter) (cand : Candidate) :
    Action (Except Fault Response) :=
  injecting cand do
    match ← call (.complete prov { baseReq with model := cand.model }) with
    | .panicked p => Act.panic p
    | .failed f => failAttempt cand f
    | .body raw =>
      match translateResponse prov cand.model raw with
      | .error e => failAttempt cand (.provider e)
      | .ok resp => do
        call (.recordHealth resp.provider none)
        pure (.ok resp)

def streamAttempt (baseReq : Request) (prov : Adapter) (cand : Candidate) :
    Action (Except Fault StreamReader) :=
  injecting cand do
    match ← call (.stream prov { baseReq with model := cand.model }) with
    | .panicked p => Act.panic p
    | .failed f => failAttempt cand f
    | .opened s => pure (.ok s)

def chainFailed (req : ChatRequest) (failures : List ChainFailure) : Action Unit := do
  setMetrics fun m => { m with providerName := (lastAttempted failures).provider }
  Act.lift (writeChainError req.model failures (lastChainError failures))

/-- The non-streaming half of `ChatCompletions` once a provider has answered. -/
def finishChat (r : Inbound) (requested : Candidate) (consulted : Consulted)
    (answer : Response × Candidate) : Action Unit := do
  let resp := answer.1
  setMetrics fun m => { m with
    providerName := resp.provider
    servedModel := resp.model
    fellBack := answer.2 ≠ requested
    usage := resp.usage }
  recordCost resp.model resp.usage
  Act.modify fun v => { v with
    actual := add resp.usage.inputTokens resp.usage.outputTokens }
  Act.lift (writeSuccess r.requestID resp)
  Act.lift (storeConsulted r consulted resp)

/-- The non-streaming half of `ChatCompletions`, once both reservations stand. -/
def Handler.completeChat (h : Handler) (r : Inbound) (req : ChatRequest) (requested : Candidate)
    (chain : List Candidate) (cb : ChainBudget) (consulted : Consulted) : Action Unit := do
  match ← h.runChain cb (completeAttempt req.toProviderRequest) true 0 [] chain with
  | .error failures => chainFailed req failures
  | .ok answer => finishChat r requested consulted answer

structure Relay where
  content : String
  finish : FinishReason
  usage : Usage
  sentAny : Bool
  deriving DecidableEq, Repr

def Relay.start : Relay := ⟨"",⟨""⟩,⟨0,0⟩,false⟩

def Relay.receive (s : Relay) (c : Chunk) : Relay :=
  { s with
    content := s.content ++ c.content
    finish := if c.finishReason.text = "" then s.finish else c.finishReason
    usage := c.usage.getD s.usage }

/-- The loop up to the stream's end, or to a chunk that could not be written
(false). -/
def relayChunks (id : String) (created : Int) (model : String) :
    Relay → List Chunk → Program (Relay × Bool)
  | s,[] => pure (s,true)
  | s,c :: cs =>
    let s := s.receive c
    if c.content = "" ∧ c.finishReason.text = "" then relayChunks id created model s cs
    else do
      if ← ask (.event (.chunk (toChatChunk id created model c (!s.sentAny)))) then
        relayChunks id created model { s with sentAny := true } cs
      else pure (s,false)

def Relay.actualTokens (s : Relay) (req : ChatRequest) : Int :=
  let reported := add s.usage.inputTokens s.usage.outputTokens
  let length := (bytes s.content).length
  if reported = 0 ∧ 0 < length then
    add req.estimateInputTokens (quo (length+charsPerToken-1) charsPerToken)
  else reported

def streamBroken (served : Candidate) (s : Relay) (f : Fault) : Program Unit := do
  if ← ask .ctxErr then pure ()
  else do
    ask (.recordHealth served.provider (some f))
    if !s.sentAny then writeProviderError f
    else
      let _ ← ask (.event (.error (sseErrorDetail f)))
      pure ()

def streamDone (r : Inbound) (served : Candidate) (consulted : Consulted) (s : Relay) :
    Action Unit := do
  call (.recordHealth served.provider none)
  setMetrics fun m => { m with usage := s.usage }
  recordCost served.model s.usage
  if ← call (.event .done) then
    Act.lift (storeConsulted r consulted
      ⟨s.content,s.finish,s.usage,served.model,served.provider⟩)
  else pure ()

/-- An open stream, relayed to its end; the result is the token count to settle
with. -/
def relayStream (r : Inbound) (req : ChatRequest) (requested : Candidate) (consulted : Consulted)
    (answer : StreamReader × Candidate) : Action Int := do
  let served := answer.2
  setMetrics fun m => { m with
    providerName := served.provider
    servedModel := served.model
    fellBack := served ≠ requested }
  Act.lift streamHeaders
  let now ← call .now
  let (s,written) ← Act.lift (relayChunks (chatCompletionID r.requestID) (unix now)
    served.model .start answer.1.chunks)
  if !written then pure (s.actualTokens req)
  else do
    match answer.1.ending with
    | .panicked p => Act.panic p
    | .failed f => do
      Act.lift (streamBroken served s f)
      pure (s.actualTokens req)
    | .eof => do
      streamDone r served consulted s
      pure (s.actualTokens req)

def Handler.streamChatCompletions (h : Handler) (r : Inbound) (req : ChatRequest)
    (requested : Candidate) (chain : List Candidate) (cb : ChainBudget) (consulted : Consulted) :
    Action Int :=
  if !r.flusher then do
    Act.lift (internalError "the gateway cannot stream a response")
    pure 0
  else do
    match ← h.runChain cb (streamAttempt req.toProviderRequest) true 0 [] chain with
    | .error failures => do
      chainFailed req failures
      pure 0
    | .ok answer => relayStream r req requested consulted answer

def settleTokens (reservation : Option RateLimit.Reservation) : Action Unit := do
  let v ← Act.get
  let _ ← call (.reconcileTokens reservation v.actual)
  pure ()

def reconcileExtras : List (Option Budget.Reservation) → Action Unit
  | [] => pure ()
  | reservation :: rest => do
    let _ ← call (.reconcileSpend reservation 0)
    reconcileExtras rest

def settleSpend (reservation : Option Budget.Reservation) : Action Unit := do
  let v ← Act.get
  let _ ← call (.reconcileSpend reservation v.metrics.costMicros)
  reconcileExtras v.extra

/-- A request under both reservations, each with its deferred settlement. -/
def Handler.serveReserved (h : Handler) (r : Inbound) (req : ChatRequest) (requested : Candidate)
    (chain : List Candidate) (consulted : Consulted) : Action Unit := do
  match ← Act.lift (reserveTokens r.team req) with
  | none => pure ()
  | some tokens => Act.defer (settleTokens tokens) do
    match ← Act.lift (reserveBudget r.team req) with
    | none => pure ()
    | some (spend,estimatedMicros) => Act.defer (settleSpend spend) do
      let cb : ChainBudget := ⟨r.team,req,estimatedMicros⟩
      if req.stream then do
        let tokens ← h.streamChatCompletions r req requested chain cb consulted
        Act.modify fun v => { v with actual := tokens }
      else h.completeChat r req requested chain cb consulted

def Handler.serveChain (h : Handler) (r : Inbound) (req : ChatRequest) (requested : Candidate)
    (chain : List Candidate) : Action Unit :=
  match h.cache with
  | none => h.serveReserved r req requested chain none
  | some c => do
    let (key,result) ← Act.lift (consultCache c r.team req)
    setMetrics fun m => { m with cacheHit := some result.hit, cacheTier := cacheTierText result }
    match result.hit,result.entry with
    | true,some e => if req.stream then serveStreamFromCache r e else serveFromCache r e
    | _,_ => h.serveReserved r req requested chain (some (c,key,result))

def Handler.serveModel (h : Handler) (r : Inbound) (req : ChatRequest) : Action Unit := do
  if ← Act.lift (authorizeModel r.team req.model) then do
    match ← Act.lift (resolve req.model) with
    | none => pure ()
    | some prov => do
      let requested : Candidate := ⟨prov.name,req.model⟩
      let chain ← Act.lift (h.chainFor r.team requested)
      if chain = [] then
        Act.lift (writeError 403 "provider_not_allowed" (s!"team {quote r.team.id} is not " ++
          s!"permitted to use any provider that serves model {quote req.model}"))
      else h.serveChain r req requested chain
  else pure ()

def Handler.chatCompletions (h : Handler) (r : Inbound) : Action Unit := do
  match ← Act.lift (decode h r) with
  | none => pure ()
  | some req => do
    setMetrics fun m => { m with requestedModel := req.model, stream := req.stream }
    match ← Act.lift (h.route r.team req) with
    | none => pure ()
    | some none => h.serveModel r req
    | some (some routed) => do
      setMetrics fun m => { m with
        routedModel := routed.model
        routedTier := routed.tier
        routeReason := routed.reason
        routeBaselineModel := routed.baselineModel }
      h.serveModel r { req with model := routed.model }

end Switchyard.Proxy
