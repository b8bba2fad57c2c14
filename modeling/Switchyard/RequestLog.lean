import Switchyard.ChatChain
import Switchyard.GoText
import Switchyard.StepRuns
set_option autoImplicit false

/-!
The request log: the ID and record of a request (internal/proxy/middleware.go,
requestlog.go), the buffered writer (internal/logstore/writer.go), the score
updates (query.go) and the retention sweep (retention.go). Latencies are left out.
-/

namespace Switchyard.Logstore
open GoText StepRuns

def maxRequestIDLen : Nat := 64

def idByte (c : UInt8) : Bool :=
  (97 ≤ c && c ≤ 122) || (65 ≤ c && c ≤ 90) || (48 ≤ c && c ≤ 57) || c == 45 || c == 95

def sanitizeRequestID (id : String) : String :=
  if id = "" ∨ maxRequestIDLen < (bytes id).length then ""
  else if (bytes id).all idByte then id else ""

/-- `RequestID`: the caller's ID if it is well formed, else the generated one. -/
def requestID (header generated : String) : String :=
  let id := sanitizeRequestID header
  if id = "" then generated else id

/-- A record, and the row it becomes. The empty string of a nullable column is
NULL; scores are hundredths. -/
structure Record where
  id : String
  timestamp : Int
  teamID : String
  requestedModel : String
  servedModel : String
  provider : String
  statusCode : Int
  inputTokens : Int
  outputTokens : Int
  costMicros : Int
  fallback : Bool
  cacheHit : Option Bool
  qualityScore : Option Int
  traceID : String
  fallbackCostDeltaMicros : Option Int
  routingTier : String
  routingReason : String
  routingSavingsMicros : Option Int
  qualitySampleReason : String
  deriving DecidableEq, Repr

/-- What the middleware knows of a request once its response is delivered. -/
structure Served where
  header : String
  generated : String
  teamID : String
  start : Int
  status : Int
  traceID : String
  metrics : Proxy.Metrics
  deriving DecidableEq, Repr

def Served.requestID (q : Served) : String := Logstore.requestID q.header q.generated

/-- `RequestLog`; a request without a team writes nothing. -/
def Served.record (q : Served) : Option Record :=
  if q.teamID = "" then none
  else some ⟨q.requestID,q.start,q.teamID,q.metrics.requestedModel,q.metrics.servedModel,
    q.metrics.providerName,if q.status = 0 then 200 else q.status,q.metrics.usage.inputTokens,
    q.metrics.usage.outputTokens,q.metrics.costMicros,q.metrics.fellBack,q.metrics.cacheHit,none,
    q.traceID,q.metrics.fallbackCostDeltaMicros,q.metrics.routedTier,q.metrics.routeReason,
    q.metrics.routingSavingsMicros,""⟩

def storableText (s : String) : Bool := s.toList.all fun c => c.toNat ≠ 0

def fitsInt (bits : Nat) (x : Int) : Bool := decide (-(2^(bits-1)) ≤ x ∧ x < 2^(bits-1))

/-- Whether Postgres takes the row when it is inserted alone. -/
def Record.storable (r : Record) : Bool :=
  [r.id,r.teamID,r.requestedModel,r.servedModel,r.provider,r.traceID,r.routingTier,
      r.routingReason].all storableText &&
    fitsInt 16 r.statusCode && fitsInt 32 r.inputTokens && fitsInt 32 r.outputTokens

/-- The columns that `insertSQL` names; the sample's reason is not among them. -/
def Record.stored (r : Record) : Record := { r with qualitySampleReason := "" }

/-- `insertSQL`, ON CONFLICT (id) DO NOTHING. -/
def insertRow (rows : List Record) (r : Record) : List Record :=
  if rows.any fun row => decide (row.id = r.id) then rows
  else rows ++ [r.stored]

/-- A batch is one implicit transaction: a row that is refused takes the others
with it. -/
def insertBatch (rows batch : List Record) : Option (List Record) :=
  if batch.all Record.storable then some (batch.foldl insertRow rows) else none

def setQualityScore (rows : List Record) (id : String) (score : Int) (reason : String) :
    List Record :=
  rows.map fun row => if row.id = id then
    { row with qualityScore := some score, qualitySampleReason := reason } else row

/-- The primary key of `requests_daily`; day counts days of 86400000000 µs. -/
structure DayKey where
  day : Int
  teamID : String
  provider : String
  servedModel : String
  deriving DecidableEq, Repr

@[ext] structure Totals where
  requests : Int
  errors : Int
  inputTokens : Int
  outputTokens : Int
  costMicros : Int
  fallbackCostDeltaMicros : Int
  routingSavingsMicros : Int
  deriving DecidableEq, Repr

instance : Zero Totals := ⟨⟨0,0,0,0,0,0,0⟩⟩

instance : Add Totals := ⟨fun a b => ⟨a.requests + b.requests,a.errors + b.errors,
  a.inputTokens + b.inputTokens,a.outputTokens + b.outputTokens,a.costMicros + b.costMicros,
  a.fallbackCostDeltaMicros + b.fallbackCostDeltaMicros,
  a.routingSavingsMicros + b.routingSavingsMicros⟩⟩

def Record.dayKey (r : Record) :
    DayKey := ⟨r.timestamp / 86400000000,r.teamID,r.provider,r.servedModel⟩

def Record.totals (r : Record) : Totals :=
  ⟨1,if 400 ≤ r.statusCode then 1 else 0,r.inputTokens,r.outputTokens,r.costMicros,
    r.fallbackCostDeltaMicros.getD 0,r.routingSavingsMicros.getD 0⟩

def totalsOf (rows : List Record) : Totals := (rows.map Record.totals).sum

abbrev Summary := List (DayKey × Totals)

/-- ON CONFLICT (day, team_id, provider, served_model) DO UPDATE adds. -/
def upsert (daily : Summary) (key : DayKey) (t : Totals) : Summary :=
  match daily with
  | [] => [(key,t)]
  | (key',t') :: rest =>
    if key' = key then (key',t' + t) :: rest else (key',t') :: upsert rest key t

/-- GROUP BY 1, 2, 3, 4, then one upsert for a group. -/
def rollUp (daily : Summary) (doomed : List Record) : Summary :=
  (doomed.map Record.dayKey).dedup.foldl
    (fun daily key => upsert daily key (totalsOf (doomed.filter fun r => decide (r.dayKey = key))))
      daily

/-- The rows `sweepSQL` may choose: expired, oldest first, as many as the limit. -/
def sweepable (rows : List Record) (cutoff : Int) (limit : Nat) (doomed : List Record) : Bool :=
  let expired := rows.filter fun r => decide (r.timestamp < cutoff)
  decide doomed.Nodup && doomed.all (fun r => decide (r ∈ expired)) &&
    decide (doomed.length = min limit expired.length) &&
    expired.all fun r => decide (r ∈ doomed) ||
      doomed.all fun d => decide (d.timestamp ≤ r.timestamp)

structure Config where
  queueSize : Nat
  batchSize : Nat
  deriving DecidableEq, Repr

def Config.withDefaults (c : Config) : Config :=
  ⟨if c.queueSize = 0 then 4096 else c.queueSize,if c.batchSize = 0 then 100 else c.batchSize⟩

/-- The writer, its channel and its tables. `settled` are the records whose batch was sent; it
records history and no step reads it. -/
structure Log where
  queue : List Record
  batch : List Record
  stopped : Bool
  rows : List Record
  daily : Summary
  settled : List Record
  deriving DecidableEq, Repr

/-- `down` when the batch that the step sends, if any, finds no database. -/
inductive LogAction where
  | serve (q : Served)
  | take (down : Bool)
  | tick (down : Bool)
  | stop (down : Bool)
  | score (id : String) (score : Int) (reason : String)
  | sweep (cutoff : Int) (limit : Nat) (doomed : List Record)
  deriving DecidableEq, Repr

def Log.write (cfg : Config) (s : Log) (r : Record) : Log :=
  if s.queue.length < cfg.queueSize then { s with queue := s.queue ++ [r] } else s

/-- `flush`; a failed batch is given up. -/
def Log.flush (s : Log) (batch : List Record) (down : Bool) : Log :=
  let s := { s with batch := [], settled := s.settled ++ batch }
  if down then s
  else
    match insertBatch s.rows batch with
    | none => s
    | some rows => { s with rows := rows }

def Log.step (cfg : Config) (s : Log) : LogAction → Option Log
  | .serve q =>
    match q.record with
    | none => some s
    | some r => some (s.write cfg r)
  | .take down =>
    match s.stopped,s.queue with
    | false,r :: queue =>
      let s := { s with queue, batch := s.batch ++ [r] }
      some (if cfg.batchSize ≤ s.batch.length then s.flush s.batch down else s)
    | _,_ => none
  | .tick down => if s.stopped then none else some (s.flush s.batch down)
  | .stop down =>
    if s.stopped then none
    else some (({ s with queue := [], stopped := true } : Log).flush (s.batch ++ s.queue) down)
  | .score id score reason => some { s with rows := setQualityScore s.rows id score reason }
  | .sweep cutoff limit doomed =>
    if sweepable s.rows cutoff limit doomed then
      some { s with
        rows := s.rows.filter fun r => decide (r.id ∉ doomed.map Record.id)
        daily := rollUp s.daily doomed }
    else none

def Log.start : Log := ⟨[],[],false,[],[],[]⟩

def Log.sends (cfg : Config) (s : Log) : LogAction → List Record
  | .take _ =>
    match s.queue with
    | r :: _ => if cfg.batchSize ≤ (s.batch ++ [r]).length then s.batch ++ [r] else []
    | [] => []
  | .tick _ => s.batch
  | .stop _ => s.batch ++ s.queue
  | _ => []

end Switchyard.Logstore
