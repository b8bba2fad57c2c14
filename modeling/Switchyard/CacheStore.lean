import Mathlib.Logic.Function.Basic
import Switchyard.Binary64
import Switchyard.CacheKey
import Switchyard.CallTree
import Switchyard.RedisData
set_option autoImplicit false

/-!
The Redis layer of the response cache (internal/cache/store.go and purge.go). A
method is a program over single Redis commands: go-redis pipelines here are not
transactions, so another client may come between any two of them.
-/

namespace Switchyard.Cache
open MachineInt GoText ByteFields RedisData CallTree Provider

/-- One cached completion. Its creation time is in Unix nanoseconds, none being
the zero time; its vector holds float32 bit patterns. -/
structure Entry where
  response : String
  finishReason : FinishReason
  inputTokens : Int
  outputTokens : Int
  model : String
  provider : String
  createdAt : Option Int
  hits : Int
  embedding : List UInt32
  deriving DecidableEq, Repr

def packVector (v : List UInt32) : List UInt8 :=
  v.flatMap fun f => (bigEndian 4 f.toNat).reverse

def unpackVector : List UInt8 → List UInt32
  | p :: q :: r :: s :: rest => UInt32.ofNat (bigEndianValue [s,r,q,p]) :: unpackVector rest
  | _ => []

def putFields (e : Entry) (now : Int) : List (String × List UInt8) := [
  ("response",bytes e.response),
  ("finish_reason",bytes e.finishReason.text),
  ("input_tokens",bytes (formatInt e.inputTokens)),
  ("output_tokens",bytes (formatInt e.outputTokens)),
  ("model",bytes e.model),
  ("provider",bytes e.provider),
  ("created_at",bytes (formatInt now)),
  ("hits",bytes (formatInt 0)),
  ("embedding",packVector e.embedding)]

/-- A field of the map `decodeEntry` is given; an absent one reads as empty. -/
def fieldBytes (f : Hash) (name : String) : List UInt8 := (f.get? name).getD []

def fieldText (f : Hash) (name : String) : String := textOf (fieldBytes f name)

def decodeEntry (f : Hash) : Except String Entry :=
  match parseInt (fieldText f "created_at") with
  | (_,some err) => .error ("decoding cache entry timestamp: " ++ err)
  | (created,none) => .ok {
      response := fieldText f "response"
      finishReason := ⟨fieldText f "finish_reason"⟩
      inputTokens := (parseInt (fieldText f "input_tokens")).1
      outputTokens := (parseInt (fieldText f "output_tokens")).1
      model := fieldText f "model"
      provider := fieldText f "provider"
      createdAt := some created
      hits := (parseInt (fieldText f "hits")).1
      embedding := unpackVector (fieldBytes f "embedding") }

inductive ZKey where
  | index (fingerprint : String)
  | team (id : String)
  | scope (id : String)
  deriving DecidableEq, Repr

inductive RKey where
  | entry (id : String)
  | zset (key : ZKey)
  deriving DecidableEq, Repr

def RKey.text : RKey → String
  | .entry id => "switchyard:cache:entry:" ++ id
  | .zset (.index fingerprint) => "switchyard:cache:index:" ++ fingerprint
  | .zset (.team id) => "switchyard:cache:team:" ++ id
  | .zset (.scope id) => "switchyard:cache:scope:" ++ id

abbrev ZSet := List (ℚ × String)

/-- The part of Redis this package owns; its clock is in milliseconds. -/
structure Redis where
  now : Int
  entries : String → Option (Timed Hash)
  zsets : ZKey → Option (Timed ZSet)

inductive Pattern where
  | entries (idPrefix : String)
  | indexes
  | teams
  | scopes
  deriving DecidableEq, Repr

def Pattern.matches : Pattern → RKey → Bool
  | .entries p,.entry id => p.isPrefixOf id
  | .indexes,.zset (.index _) => true
  | .teams,.zset (.team _) => true
  | .scopes,.zset (.scope _) => true
  | _,_ => false

inductive Op where
  | hGetAll (id : String)
  | hmGetEmbedding (id : String)
  | hSet (id : String) (fields : List (String × List UInt8))
  | hIncrBy (id field : String) (n : Int)
  | expire (key : RKey) (ttl : Int)
  | zAdd (key : ZKey) (score : ℚ) (member : String)
  | zRange (key : ZKey) (start stop : Int)
  | zRevRange (key : ZKey) (start stop : Int)
  | zRemRangeByRank (key : ZKey) (start stop : Int)
  | zRem (key : ZKey) (members : List String)
  | zCard (key : ZKey)
  | del (keys : List RKey)
  | scan (cursor : Nat) (pattern : Pattern)
  | embed (query : String)

abbrev Reply : Op → Type
  | .hGetAll _ => Hash
  | .hmGetEmbedding _ => Option (List UInt8)
  | .hSet _ _ => Unit
  | .hIncrBy _ _ _ => Int
  | .expire _ _ => Unit
  | .zAdd _ _ _ => Unit
  | .zRange _ _ _ => List String
  | .zRevRange _ _ _ => List String
  | .zRemRangeByRank _ _ _ => Unit
  | .zRem _ _ => Unit
  | .zCard _ => Int
  | .del _ => Int
  | .scan _ _ => List RKey × Nat
  | .embed _ => List UInt32

/-- An error a command ended in. The program sees the text; Redis may have
executed the command all the same. -/
structure Fault where
  text : String
  executed : Bool
  deriving DecidableEq, Repr

abbrev Ans (op : Op) : Type := Except Fault (Reply op)

abbrev Program := Prog Op Ans

def Redis.empty : Redis := ⟨0,fun _ => none,fun _ => none⟩

def Redis.hash (s : Redis) (id : String) : Hash :=
  ((s.entries id).map Timed.value).getD Hash.empty

def Redis.members (s : Redis) (key : ZKey) : ZSet := ((s.zsets key).map Timed.value).getD []

def Redis.setHash (s : Redis) (id : String) (h : Hash) : Redis :=
  let t : Timed Hash := ⟨h,(s.entries id).bind Timed.deadline⟩
  { s with entries := Function.update s.entries id (some t) }

/-- Replace a sorted set, keeping its deadline; an empty one is gone. -/
def Redis.setMembers (s : Redis) (key : ZKey) (z : ZSet) : Redis :=
  let t : Timed ZSet := ⟨z,(s.zsets key).bind Timed.deadline⟩
  { s with zsets := Function.update s.zsets key (if z = [] then none else some t) }

def Redis.delete (s : Redis) : RKey → Redis
  | .entry id => { s with entries := Function.update s.entries id none }
  | .zset key => { s with zsets := Function.update s.zsets key none }

def Redis.has (s : Redis) : RKey → Bool
  | .entry id => (s.entries id).isSome
  | .zset key => (s.zsets key).isSome

/-- The whole seconds go-redis puts into EXPIRE. -/
def formatSec (ttl : Int) : Int :=
  if 0 < ttl ∧ ttl < 1000000000 then 1 else ttl.tdiv 1000000000

def Redis.setDeadline (s : Redis) (key : RKey) (deadline : Int) : Redis :=
  match key with
  | .entry id =>
    let t := (s.entries id).map fun t => ⟨t.value,some deadline⟩
    { s with entries := Function.update s.entries id t }
  | .zset key =>
    let t := (s.zsets key).map fun t => ⟨t.value,some deadline⟩
    { s with zsets := Function.update s.zsets key t }

def Redis.expire (s : Redis) (key : RKey) (ttl : Int) : Redis :=
  if formatSec ttl ≤ 0 then s.delete key else s.setDeadline key (s.now+1000*formatSec ttl)

/-- The sum HINCRBY would store, none when the field is no integer or the sum
does not fit. -/
def incremented (h : Hash) (field : String) (n : Int) : Option Int :=
  match h.get? field with
  | none => some n
  | some v =>
    match parseInt (textOf v) with
    | (m,none) => if InRange (m+n) then some (m+n) else none
    | (_,some _) => none

def Redis.after (s : Redis) : Op → Redis
  | .hSet id fields => s.setHash id ((s.hash id).putAll fields)
  | .hIncrBy id field n =>
    match incremented (s.hash id) field n with
    | none => s
    | some m => s.setHash id ((s.hash id).put field (bytes (formatInt m)))
  | .expire key ttl => s.expire key ttl
  | .zAdd key score member => s.setMembers key (zAdd (s.members key) score member)
  | .zRemRangeByRank key start stop => s.setMembers key (sliceOut (s.members key) start stop)
  | .zRem key members => s.setMembers key (zRem (s.members key) members)
  | .del keys => keys.foldl Redis.delete s
  | _ => s

/-- The replies Redis and the embedding API may give. SCAN lists some
of the keys that exist and match. -/
def Redis.Replies (s : Redis) : (op : Op) → Reply op → Prop
  | .hGetAll id,r => r = s.hash id
  | .hmGetEmbedding id,r => r = (s.hash id).get? "embedding"
  | .hIncrBy id field n,r => incremented (s.hash id) field n = some r
  | .zRange key start stop,r => r = (slice (s.members key) start stop).map Prod.snd
  | .zRevRange key start stop,r => r = (slice (s.members key).reverse start stop).map Prod.snd
  | .zCard key,r => r = ((s.members key).length : Int)
  | .del keys,r => r = ((keys.dedup.filter fun k => s.has k).length : Int)
  | .scan _ pattern,r => ∀ k ∈ r.1,s.has k ∧ pattern.matches k
  | .hSet _ _,_ => True
  | .expire _ _,_ => True
  | .zAdd _ _ _,_ => True
  | .zRemRangeByRank _ _ _,_ => True
  | .zRem _ _,_ => True
  | .embed _,_ => True

def executed (e : Event Op Ans) : Bool :=
  match e.ans with
  | .ok _ => true
  | .error f => f.executed

def Exec (s : Redis) (e : Event Op Ans) (t : Redis) : Prop :=
  (∀ r,e.ans = .ok r → s.Replies e.op r) ∧ t = if executed e then s.after e.op else s

theorem exec_ok {s : Redis} {op : Op} {r : Reply op} (h : s.Replies op r) :
    Exec s ⟨op,.ok r⟩ (s.after op) := by
  refine ⟨fun r' hr => ?_,(if_pos rfl).symm⟩
  rwa [← Except.ok.inj hr]

/-- Time passes, and keys past their deadline are gone. -/
def Redis.at (s : Redis) (now : Int) : Redis where
  now := now
  entries id := (s.entries id).filter (Timed.aliveAt now)
  zsets key := (s.zsets key).filter (Timed.aliveAt now)

def Tick (s t : Redis) : Prop := ∃ now,s.now ≤ now ∧ t = s.at now

structure StoreConfig where
  maxCandidates : Int
  maxScopeEntries : Int
  deriving DecidableEq, Repr

def newStore (cfg : StoreConfig) : StoreConfig where
  maxCandidates := if cfg.maxCandidates ≤ 0 then 100 else cfg.maxCandidates
  maxScopeEntries := if cfg.maxScopeEntries ≤ 0 then 1000 else cfg.maxScopeEntries

def wrapped (message : String) (f : Fault) : String := message ++ f.text

def fetch (id : String) : Program (Except String (Option Entry)) :=
  orFail (perform (.hGetAll id)) (wrapped "reading cache entry: ") fun fields =>
    if fields = Hash.empty then pure (.ok none) else pure ((decodeEntry fields).map some)

/-- The pipelined HMGETs: each ID with its packed vector, if it has one. -/
def readEmbeddings : List String → Program (Except Fault (List (String × Option (List UInt8))))
  | [] => pure (.ok [])
  | id :: ids => do
    let r ← perform (.hmGetEmbedding id)
    let rest ← readEmbeddings ids
    match r,rest with
    | .error e,_ => pure (.error e)
    | .ok _,.error e => pure (.error e)
    | .ok v,.ok vs => pure (.ok ((id,v) :: vs))

def candidates (cfg : StoreConfig) (k : Key) :
    Program (Except String (List (String × List UInt32))) :=
  orFail (perform (.zRevRange (.index k.fingerprint) 0 (cfg.maxCandidates-1)))
      (wrapped "reading cache index: ") fun ids =>
  orFail (readEmbeddings ids) (wrapped "reading candidate embeddings: ") fun found => do
    let stale := (found.filter fun p => p.2.isNone).map Prod.fst
    if stale ≠ [] then
      let _ ← perform (.zRem (.index k.fingerprint) stale)
    pure (.ok (found.filterMap fun p => p.2.map fun v => (p.1,unpackVector v)))

/-- Sends every command and reports the first error. -/
def pipeline : List Op → Program (Except Fault Unit)
  | [] => pure (.ok ())
  | op :: ops => do
    let r ← perform op
    let rest ← pipeline ops
    match r with
    | .error e => pure (.error e)
    | .ok _ => pure rest

/-- Deletes in batches of `purgeBatch`; rounds bounds their number. -/
def deleteKeys : Nat → List RKey → Int → Program (Except String Int)
  | 0,_,total => pure (.ok total)
  | rounds+1,keys,total =>
    if keys = [] then pure (.ok total)
    else
      orFail (perform (.del (keys.take 200))) (wrapped "deleting cache keys: ") fun n =>
        deleteKeys rounds (keys.drop 200) (total+n)

def deleteEntries (ids : List String) : Program (Except String Int) :=
  deleteKeys ids.length (ids.map RKey.entry) 0

/-- The trim gives up at the first error; nobody reads its result. -/
def trimScope (cfg : StoreConfig) (k : Key) : Program (Except String Unit) :=
  orFail (perform (.zCard (.scope k.scopeID))) Fault.text fun count =>
    if count ≤ cfg.maxScopeEntries then pure (.ok ())
    else
      orFail (perform (.zRange (.scope k.scopeID) 0 (count-cfg.maxScopeEntries-1))) Fault.text
          fun victims =>
        if victims = [] then pure (.ok ())
        else
          orFail (deleteEntries victims) id fun _ =>
          orFail (perform (.zRem (.scope k.scopeID) victims)) Fault.text fun _ => pure (.ok ())

def putCommands (cfg : StoreConfig) (k : Key) (e : Entry) (now ttl : Int) : List Op :=
  let score := Binary64.round now
  [.hSet k.entryID (putFields e now),
    .expire (.entry k.entryID) ttl,
    .zAdd (.index k.fingerprint) score k.entryID,
    .zRemRangeByRank (.index k.fingerprint) 0 (-cfg.maxCandidates-1),
    .expire (.zset (.index k.fingerprint)) ttl] ++
  (if k.teamID ≠ "" then
    [.zAdd (.team k.teamID) score k.entryID,.expire (.zset (.team k.teamID)) ttl] else []) ++
  (if k.scopeID ≠ "" then [.zAdd (.scope k.scopeID) score k.entryID] else [])

/-- Put; clock is the time an entry without a creation time is given. -/
def put (cfg : StoreConfig) (k : Key) (e : Entry) (ttl clock : Int) :
    Program (Except String Unit) :=
  orFail (pipeline (putCommands cfg k e (e.createdAt.getD clock) ttl))
      (wrapped "writing cache entry: ") fun _ => do
    if k.scopeID ≠ "" then
      let _ ← trimScope cfg k
    pure (.ok ())

def recordHit (id : String) : Program (Except String Unit) :=
  orFail (perform (.hIncrBy id "hits" 1)) (wrapped "recording cache hit: ") fun _ => pure (.ok ())

structure PurgeResult where
  scope : String
  target : String
  entries : Int
  indexes : Int
  deriving DecidableEq, Repr

/-- One SCAN loop; rounds bounds its length. -/
def scanKeys : Nat → Pattern → Nat → List RKey → Program (Except String (List RKey))
  | 0,_,_,keys => pure (.ok keys)
  | rounds+1,pattern,cursor,keys =>
    orFail (perform (.scan cursor pattern)) (wrapped "scanning cache keys: ")
        fun (r : List RKey × Nat) =>
      if r.2 = 0 then pure (.ok (keys ++ r.1))
      else scanKeys rounds pattern r.2 (keys ++ r.1)

def purgeTeam (teamID : String) : Program (Except String PurgeResult) :=
  if (fields teamID).isEmpty then pure (.error "purging cache: team id is required")
  else
    orFail (perform (.zRange (.team teamID) 0 (-1))) (wrapped "reading team cache index: ")
        fun ids =>
    orFail (deleteEntries ids) id fun removed =>
    orFail (perform (.del [.zset (.team teamID)])) (wrapped "deleting team cache index: ")
        fun _ =>
    pure (.ok ⟨"team",teamID,removed,0⟩)

def isHex (s : String) : Bool :=
  s.toList.all fun c => (48 ≤ c.toNat && c.toNat ≤ 57) || (97 ≤ c.toNat && c.toNat ≤ 102)

def purgePrefix (rounds : Nat) (idPrefix : String) : Program (Except String PurgeResult) :=
  if !isHex idPrefix || idPrefix == "" then
    pure (.error "purging cache: prefix must be a non-empty hex string")
  else
    orFail (scanKeys rounds (.entries idPrefix) 0 []) id fun keys =>
    orFail (deleteKeys keys.length keys 0) id fun removed =>
    pure (.ok ⟨"prefix",idPrefix,removed,0⟩)

def purgeAll (rounds : Nat) : Program (Except String PurgeResult) :=
  orFail (scanKeys rounds (.entries "") 0 []) id fun entries =>
  orFail (scanKeys rounds .indexes 0 []) id fun indexes =>
  orFail (scanKeys rounds .teams 0 []) id fun teams =>
  orFail (scanKeys rounds .scopes 0 []) id fun scopes =>
  orFail (deleteKeys entries.length entries 0) id fun entryCount =>
  let rest := indexes ++ teams ++ scopes
  orFail (deleteKeys rest.length rest 0) id fun indexCount =>
  pure (.ok ⟨"all","",entryCount,indexCount⟩)

theorem unpackVector_packVector (v : List UInt32) : unpackVector (packVector v) = v := by
  induction v with
  | nil => rfl
  | cons f v ih =>
    have hf := bigEndianValue_bigEndian (n := 4) (x := f.toNat) f.toNat_lt
    simp only [packVector,List.flatMap_cons,bigEndian,List.nil_append,List.cons_append,
      List.reverse_cons,List.reverse_nil,unpackVector] at hf ih ⊢
    rw [hf,ih,UInt32.ofNat_toNat]

def Holds (h : Hash) (e : Entry) (now : Int) : Prop :=
  ∀ p ∈ putFields e now,p.1 ≠ "hits" → h.get? p.1 = some p.2

structure Entry.Fits (e : Entry) (now : Int) : Prop where
  input : InRange e.inputTokens
  output : InRange e.outputTokens
  created : InRange now

theorem decodeEntry_holds {h : Hash} {e : Entry} {now : Int} (hh : Holds h e now)
    (hfit : e.Fits now) :
    decodeEntry h = .ok { e with
      createdAt := some now
      hits := (parseInt (fieldText h "hits")).1 } := by
  have get : ∀ name v,(name,v) ∈ putFields e now → name ≠ "hits" → fieldBytes h name = v := by
    intro name v hm hne
    rw [fieldBytes,hh _ hm hne]
    rfl
  have hcreated := get "created_at" _ (by simp [putFields]; rfl) (by decide)
  have hinput := get "input_tokens" _ (by simp [putFields]; rfl) (by decide)
  have houtput := get "output_tokens" _ (by simp [putFields]; rfl) (by decide)
  have hresponse := get "response" _ (by simp [putFields]; rfl) (by decide)
  have hfinish := get "finish_reason" _ (by simp [putFields]; rfl) (by decide)
  have hmodel := get "model" _ (by simp [putFields]; rfl) (by decide)
  have hprovider := get "provider" _ (by simp [putFields]; rfl) (by decide)
  have hembedding := get "embedding" _ (by simp [putFields]; rfl) (by decide)
  simp only [decodeEntry,fieldText,hcreated,hinput,houtput,hresponse,hfinish,hmodel,hprovider,
    hembedding,textOf_bytes,unpackVector_packVector,
    parseInt_formatInt hfit.created.1 hfit.created.2,
    parseInt_formatInt hfit.input.1 hfit.input.2,
    parseInt_formatInt hfit.output.1 hfit.output.2]

theorem holds_putAll (h : Hash) (e : Entry) (now : Int) :
    Holds (h.putAll (putFields e now)) e now := by
  intro p hp _
  exact Hash.get?_putAll h (by simp [putFields]) hp

theorem holds_put_hits {h : Hash} {e : Entry} {now : Int} (hh : Holds h e now) (v : List UInt8) :
    Holds (h.put "hits" v) e now := by
  intro p hp hne
  rw [Hash.get?_put,if_neg hne]
  exact hh p hp hne

theorem decodeEntry_no_created {h : Hash} {e : Entry} (hno : h.get? "created_at" = none) :
    decodeEntry h ≠ .ok e := by
  have hempty : parseInt (textOf []) = (0,some (parseError "" "invalid syntax")) := by
    decide +kernel
  simp [decodeEntry,fieldText,fieldBytes,hno,hempty]

end Switchyard.Cache
