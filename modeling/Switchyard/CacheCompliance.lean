import Switchyard.CompletionSources
set_option autoImplicit false

/-!
Concurrent chat requests over one cache: every completion is traced back to the
candidate whose walk produced it, through the entries that the teams of an
organisation share.
-/

namespace Switchyard.Proxy
open MachineInt GoText CallTree Provider Resilience

def Caches (s : Cache.Redis) : Event Op Ans → Cache.Redis → Prop
  | ⟨.cache op,ans⟩,t => Cache.Exec s ⟨op,ans⟩ t
  | _,t => t = s

def cacheStep : Step Op Ans → Option (Step Cache.Op Cache.Ans)
  | ⟨i,⟨.cache op,ans⟩⟩ => some ⟨i,⟨op,ans⟩⟩
  | _ => none

def cacheSteps (h : List (Step Op Ans)) : List (Step Cache.Op Cache.Ans) := h.filterMap cacheStep

theorem cacheStep_eq_some {x : Step Op Ans} {y : Step Cache.Op Cache.Ans} :
    cacheStep x = some y ↔ x = ⟨y.thread,⟨.cache y.event.op,y.event.ans⟩⟩ := by
  obtain ⟨i,op,ans⟩ := x
  obtain ⟨j,op',ans'⟩ := y
  constructor
  · intro h
    cases op with
    | cache op =>
      obtain ⟨rfl,hev⟩ := Step.mk.inj (Option.some.inj h)
      obtain ⟨rfl,hans⟩ := Event.mk.inj hev
      rw [eq_of_heq hans]
    | _ => cases h
  · intro h
    rw [h]
    rfl

variable {h : List (Step Op Ans)}

theorem mem_cacheSteps {y : Step Cache.Op Cache.Ans} :
    y ∈ cacheSteps h ↔ ⟨y.thread,⟨.cache y.event.op,y.event.ans⟩⟩ ∈ h := by
  simp [cacheSteps,List.mem_filterMap,cacheStep_eq_some]

theorem served_cacheSteps {s t : Cache.Redis} (hrun : Served Caches Cache.Tick s h t) :
    Served Cache.Exec Cache.Tick s (cacheSteps h) t := by
  refine hrun.filterMap (fun s x y t hx hexec => ?_) fun s x t hx hexec => ?_
  · rw [cacheStep_eq_some.1 hx] at hexec
    exact hexec
  · obtain ⟨i,op,ans⟩ := x
    cases op with
    | cache op => cases hx
    | _ => exact hexec

/-- The answers are Go values: int and int64 numbers, strings that fit in memory. -/
def goValued : Event Op Ans → Bool
  | ⟨.forModel m,_⟩ => (bytes m).length < 2^63
  | ⟨.now,now⟩ => InRange now
  | ⟨.complete p req,.body raw⟩ =>
    match translateResponse p req.model raw with
    | .ok resp => InRange resp.usage.inputTokens ∧ InRange resp.usage.outputTokens
    | .error _ => true
  | ⟨.stream _ _,.opened s⟩ =>
    InRange s.relay.usage.inputTokens ∧ InRange s.relay.usage.outputTokens
  | _ => true

theorem Produced.usage {team : Auth.Team} {h : History} {resp : Response}
    (hp : Produced team h resp) (hgo : ∀ e ∈ h,goValued e = true) :
    InRange resp.usage.inputTokens ∧ InRange resp.usage.outputTokens := by
  obtain ⟨c,⟨-,prov,-,⟨req,raw,hm,hmodel,htr⟩ | ⟨req,s,hm,-,rfl⟩⟩,-⟩ := hp
  · have hev := hgo _ hm
    simp only [goValued,hmodel,htr,decide_eq_true_eq] at hev
    exact hev
  · exact of_decide_eq_true (hgo _ hm)

/-- One chat request. Its texts fit in memory under any model it is routed to. -/
structure Chat where
  handler : Handler
  inbound : Inbound
  sized : ∀ body,inbound.body = .ok body → ∀ m,(bytes m).length < 2^63 →
    ∃ src : Cache.KeySource,src.scope = cacheScope inbound.team ∧
      src.req = { body with model := m }.toProviderRequest

def Chat.program (c : Chat) : Program (Except String Unit × Vars) :=
  c.handler.chatCompletions c.inbound .zero

def Keyed (chats : List Chat) (h : List (Step Op Ans)) (src : Cache.KeySource) : Prop :=
  ∃ i c req,chats[i]? = some c ∧ Asked c.inbound (traceOf i h) req ∧
    src.scope = cacheScope c.inbound.team ∧ src.req = req.toProviderRequest

/-- A history of chat requests over one Redis. Configuration, providers, budgets
and clocks answer anything; no two of the keys collide in SHA-256. -/
structure ChatHistory (chats : List Chat) (h : List (Step Op Ans)) : Prop where
  interleaved : Interleaves (chats.map Chat.program) h
  served : ∃ s,Served Caches Cache.Tick .empty h s
  values : ∀ x ∈ h,goValued x.event = true
  distinct : ∀ a b,Keyed chats h a → Keyed chats h b → a.CollisionFree b

theorem Keyed.append {chats : List Chat} {src : Cache.KeySource}
    (hk : Keyed chats h src) (tail : List (Step Op Ans)) : Keyed chats (h ++ tail) src := by
  obtain ⟨i,c,req,hc,hasked,hsrc⟩ := hk
  exact ⟨i,c,req,hc,traceOf_append i h tail ▸ hasked.append _,hsrc⟩

section Histories

variable {chats : List Chat} {h a b : List (Step Op Ans)} {x : Step Op Ans}

theorem Asked.source {c : Chat} {i : Nat} {req : ChatRequest} (hc : chats[i]? = some c)
    (hasked : Asked c.inbound (traceOf i h) req) (hgo : ∀ x ∈ h,goValued x.event = true) :
    ∃ src,Keyed chats h src ∧ src.scope = cacheScope c.inbound.team ∧
      src.req = req.toProviderRequest := by
  have hasked' := hasked
  obtain ⟨⟨body,hbody,hreq⟩,prov,hprov⟩ := hasked
  have hmodel : (bytes req.model).length < 2^63 := of_decide_eq_true (hgo _ (mem_traceOf.1 hprov))
  obtain ⟨src,hscope,hsrc⟩ := c.sized body hbody req.model hmodel
  rw [← hreq] at hsrc
  exact ⟨src,⟨i,c,req,hc,hasked',hscope,hsrc⟩,hscope,hsrc⟩

/-- Who stores what: a request, an answer of its own walk under its own key. -/
def ChatOwner (chats : List Chat) (h : List (Step Op Ans)) (i : Nat) (src : Cache.KeySource)
    (e : Cache.Entry) (now : Int) : Prop :=
  Keyed chats h src ∧ ∃ c resp embedding,chats[i]? = some c ∧
    src.scope = cacheScope c.inbound.team ∧
    Produced c.inbound.team (traceOf i h) resp ∧ e = { responseEntry resp now with embedding }

theorem Interleaves.traced (hint : Interleaves (chats.map Chat.program) (a ++ x :: b)) :
    ∃ c,chats[x.thread]? = some c ∧ traces c.inbound (traceOf x.thread a) x.event.op := by
  obtain ⟨p,hp,-⟩ := hint x (by simp)
  rw [List.getElem?_map] at hp
  obtain ⟨c,hc,rfl⟩ := Option.map_eq_some_iff.1 hp
  refine ⟨c,hc,Prog.Spec.interleaved hint (by rw [List.getElem?_map,hc]; rfl)
    (chatCompletions_traced c.handler c.inbound)⟩

theorem ChatHistory.permitted (hh : ChatHistory chats (a ++ b)) :
    ∀ y ∈ cacheSteps a,Cache.Permitted (ChatOwner chats a) y := by
  intro y hy
  obtain ⟨a₁,a₂,rfl⟩ := List.append_of_mem (mem_cacheSteps.1 hy)
  have hint := hh.interleaved
  rw [List.append_assoc,List.cons_append] at hint
  obtain ⟨c,hc,hharm | ⟨req,resp,embedding,now,hasked,hproduced,hnow,hput⟩⟩ :=
    Interleaves.traced hint
  · exact .inl hharm
  obtain hharm | hput := hput
  · exact .inl hharm
  have hgo : ∀ x ∈ a₁ ++ ⟨y.thread,⟨.cache y.event.op,y.event.ans⟩⟩ :: a₂,goValued x.event = true :=
    fun x hx => hh.values x (List.mem_append_left b hx)
  have hfront : ∀ e ∈ traceOf y.thread a₁,goValued e = true :=
    fun e he => hgo _ (List.mem_append_left _ (mem_traceOf.1 he))
  obtain ⟨src,hkeyed,hscope,hreq⟩ := Asked.source hc
    (traceOf_append y.thread a₁ _ ▸ hasked.append _) hgo
  have hkey : src.key = Cache.newKey (cacheScope c.inbound.team) req.toProviderRequest := by
    rw [Cache.KeySource.key,hscope,hreq]
  rw [← hkey] at hput
  have husage := hproduced.usage hfront
  exact .inr ⟨src,{ responseEntry resp now with embedding },now,
    ⟨hkeyed,c,resp,embedding,hc,hscope,traceOf_append y.thread a₁ _ ▸ hproduced.append _,rfl⟩,
    ⟨husage.1,husage.2,of_decide_eq_true (hfront _ hnow)⟩,hput⟩

/-- An entry a lookup found was produced for a team of the same cache scope. -/
theorem ChatHistory.hit (hh : ChatHistory chats (a ++ x :: b)) {i : Nat} {c : Chat}
    {e : Cache.Entry} (hc : chats[i]? = some c) (hhit : Hit c.inbound (traceOf i a) e) :
    ∃ j storer,chats[j]? = some storer ∧
      Produced storer.inbound.team (traceOf j a) (entryResponse e) ∧
      (cacheScope storer.inbound.team).id = (cacheScope c.inbound.team).id := by
  obtain ⟨req,setup,k,hasked,⟨hkey,tr,hret,hmem⟩,hit,hentry⟩ := hhit
  obtain ⟨id,fields,e',hread,hd,he',hid⟩ := Cache.lookup_hit hret hit
  obtain rfl : e' = e := Option.some.inj (he'.symm.trans hentry)
  have hgo : ∀ x ∈ a,goValued x.event = true := fun y hy => hh.values y (by simp [hy])
  obtain ⟨src,hkeyed,hscope,hreq⟩ := Asked.source hc hasked hgo
  have hsrc : k.1 = src.key := by rw [hkey,Cache.KeySource.key,hscope,hreq]
  have hstep : ∀ op (ans : Cache.Ans op),⟨op,ans⟩ ∈ tr → ⟨i,⟨op,ans⟩⟩ ∈ cacheSteps a :=
    fun op ans hm => mem_cacheSteps.2 (mem_traceOf.1 (hmem op ans hm))
  obtain ⟨s,hserved⟩ := hh.served
  obtain ⟨t,-,hbefore,-⟩ := hserved.split
  have hfree : ∀ src₁ src₂,Keyed chats a src₁ → Keyed chats a src₂ → src₁.CollisionFree src₂ :=
    fun src₁ src₂ h₁ h₂ => hh.distinct src₁ src₂ (h₁.append _) (h₂.append _)
  obtain ⟨-,-,j,src',e₁,now,-,⟨hkeyed',storer,resp,embedding,hstorer,hscope',hproduced,rfl⟩,-,
    hsame,-,he⟩ := Cache.hit_provenance (served_cacheSteps hbefore) hh.permitted
    (fun j src' e now hown => ⟨hfree _ _ hown.1 hkeyed,
      fun k src₂ e₂ now₂ hown₂ => hfree _ _ hown.1 hown₂.1⟩) (hstep _ _ hread) hd (by
      obtain hid | ⟨start,stop,ids,hidx,hin⟩ := hid
      · exact .inl (hsrc ▸ hid)
      · exact .inr ⟨start,stop,ids,hstep _ _ (hsrc ▸ hidx),hin⟩)
  refine ⟨j,storer,hstorer,?_,?_⟩
  · rw [he]
    exact hproduced
  · rw [← hscope,← hscope']
    exact hsame

theorem ChatHistory.delivered (hh : ChatHistory chats (a ++ x :: b))
    (hout : x.event.op.kind = .output) :
    ∃ reader resp,chats[x.thread]? = some reader ∧ Delivers resp x.event.op ∧
      (Produced reader.inbound.team (traceOf x.thread a) resp ∨
        ∃ e,Hit reader.inbound (traceOf x.thread a) e ∧ resp = entryResponse e) := by
  obtain ⟨reader,hreader,htraces⟩ := Interleaves.traced hh.interleaved
  generalize x.event.op = op at htraces hout ⊢
  cases op with
  | cache op => cases hout
  | _ =>
    obtain ⟨resp,hdelivers,hsource⟩ := htraces hout
    exact ⟨reader,resp,hreader,hdelivers,hsource⟩

/-- Every completion the gateway writes was produced by a candidate within the
allowlists of the team that asked for it, or it was read from an entry of the
team's cache scope and produced by a candidate within the allowlists of the team
that stored it. -/
theorem completions_accounted (hh : ChatHistory chats (a ++ x :: b))
    (hout : x.event.op.kind = .output) :
    ∃ reader resp,chats[x.thread]? = some reader ∧ Delivers resp x.event.op ∧
      (Produced reader.inbound.team (traceOf x.thread a) resp ∨
        ∃ e j storer,Hit reader.inbound (traceOf x.thread a) e ∧ resp = entryResponse e ∧
          chats[j]? = some storer ∧ Produced storer.inbound.team (traceOf j a) resp ∧
          (cacheScope storer.inbound.team).id = (cacheScope reader.inbound.team).id) := by
  obtain ⟨reader,resp,hreader,hdelivers,hproduced | ⟨e,hhit,rfl⟩⟩ := hh.delivered hout
  · exact ⟨reader,resp,hreader,hdelivers,.inl hproduced⟩
  · obtain ⟨j,storer,hstorer,hproduced,hscope⟩ := hh.hit hreader hhit
    exact ⟨reader,_,hreader,hdelivers,.inr ⟨e,j,storer,hhit,rfl,hstorer,hproduced,hscope⟩⟩

end Histories

def redisAnswer (s : Cache.Redis) : (op : Cache.Op) → Cache.Ans op × Cache.Redis
  | .hGetAll id => (.ok (s.hash id),s)
  | .hSet id fields => (.ok (),s.after (.hSet id fields))
  | .expire key ttl => (.ok (),s.after (.expire key ttl))
  | .zAdd key score member => (.ok (),s.after (.zAdd key score member))
  | _ => (.error ⟨"",false⟩,s)

def cachedWorld (s : Cache.Redis) (op : Op) : Ans op × Cache.Redis :=
  match op with
  | .cache op => redisAnswer s op
  | op => (fallbackWorld id op,s)

theorem cachedWorld_caches (s : Cache.Redis) (op : Op) :
    Caches s ⟨op,(cachedWorld s op).1⟩ (cachedWorld s op).2 := by
  cases op with
  | cache op =>
    cases op with
    | hGetAll id => exact ⟨fun _ hr => (Except.ok.inj hr).symm,rfl⟩
    | hSet id fields => exact ⟨fun _ _ => trivial,rfl⟩
    | expire key ttl => exact ⟨fun _ _ => trivial,rfl⟩
    | zAdd key score member => exact ⟨fun _ _ => trivial,rfl⟩
    | _ => exact ⟨fun _ hr => (by cases hr),rfl⟩
  | _ => rfl

def cachingHandler : Handler :=
  { plainHandler with cache := some ⟨⟨fun _ _ => 0,fun _ _ => 0,fun _ _ => false⟩,
    Cache.newStore ⟨0,0⟩,⟨false,0⟩,false,⟨60000000000,0,[],id⟩⟩ }

def greetingBy (team : Auth.Team) (hteam : (bytes (cacheScope team).id).length < 2^63) : Chat where
  handler := cachingHandler
  inbound := { greeting false with team }
  sized := by
    intro body hbody m hm
    obtain rfl := Except.ok.inj hbody
    refine ⟨⟨cacheScope team,ChatRequest.toProviderRequest ⟨m,[⟨"user","hi"⟩],none,0,false,[]⟩,?_,
      Cache.query_hi_sized⟩,rfl,rfl⟩
    intro f hf
    simp only [Cache.fingerprintFields,ChatRequest.toProviderRequest,List.map_cons,List.map_nil,
      List.dropLast_singleton,List.flatMap_nil,List.append_nil,List.mem_cons,List.not_mem_nil,
      or_false] at hf
    obtain rfl | rfl | rfl | rfl := hf
    · exact hteam
    · exact hm
    · show (bytes (Cache.itoa 0)).length < 2^63
      decide +kernel
    · show (bytes (Cache.temperatureText none)).length < 2^63
      decide +kernel

def narrowTeam : Auth.Team := { narrowRequest.team with id := "u" }

def sharedChats : List Chat :=
  [greetingBy memberTeam (by decide +kernel),greetingBy narrowTeam (by decide +kernel)]

def firstRun : History × (Except String Unit × Vars) × Cache.Redis :=
  (cachingHandler.chatCompletions { greeting false with team := memberTeam } .zero).exec cachedWorld
    .empty

def secondRun : History × (Except String Unit × Vars) × Cache.Redis :=
  (cachingHandler.chatCompletions { greeting false with team := narrowTeam } .zero).exec cachedWorld
    firstRun.2.2

def sharedHistory : List (Step Op Ans) :=
  firstRun.1.map (Step.mk 0) ++ secondRun.1.map (Step.mk 1)

theorem sharedHistory_interleaves : Interleaves (sharedChats.map Chat.program) sharedHistory :=
  interleaves_inTurn (returns_exec _ _ _) (returns_exec _ _ _)

theorem sharedHistory_served : ∃ s,Served Caches Cache.Tick .empty sharedHistory s := by
  have hworld : ∀ s op,True → True ∧ ∃ t,Caches s ⟨op,(cachedWorld s op).1⟩ t ∧
      ((cachedWorld s op).2 = t ∨ Cache.Tick t (cachedWorld s op).2) :=
    fun s op _ => ⟨trivial,_,cachedWorld_caches s op,.inl rfl⟩
  exact ⟨_,(served_exec 0 hworld _ trivial).append (served_exec 1 hworld _ trivial)⟩

theorem sharedHistory_answers {x : Step Op Ans} (hx : x ∈ sharedHistory) :
    ∃ s,x.event = ⟨x.event.op,(cachedWorld s x.event.op).1⟩ := by
  obtain hx | hx := List.mem_append.1 hx
  · obtain ⟨e,he,rfl⟩ := List.mem_map.1 hx
    exact mem_exec he
  · obtain ⟨e,he,rfl⟩ := List.mem_map.1 hx
    exact mem_exec he

def ofTwoModels (x : Step Op Ans) : Bool :=
  match x.event.op with
  | .forModel m => m = "m1" ∨ m = "m2"
  | _ => true

def answersSecond (x : Step Op Ans) : Bool :=
  x.thread = 1 && match x.event.op with
    | .reply status (.completion _) => status = 200
    | _ => false

theorem sharedHistory_checked : (sharedHistory.all fun x => goValued x.event && ofTwoModels x) &&
    sharedHistory.any answersSecond := by decide +kernel

theorem sharedHistory_models {i : Nat} {m : String} {ans : Except ResolveError Adapter}
    (hm : ⟨.forModel m,ans⟩ ∈ traceOf i sharedHistory) : m = "m1" ∨ m = "m2" := by
  have hall := List.all_eq_true.1 (Bool.and_eq_true_iff.1 sharedHistory_checked).1
  exact of_decide_eq_true (Bool.and_eq_true_iff.1 (hall _ (mem_traceOf.1 hm))).2

def greetingBytes (m : String) : List UInt8 :=
  ByteFields.encode (Cache.fingerprintFields ⟨"o","",false⟩ ⟨m,[],none,0,false,[]⟩)

def greetingEntryBytes (m : String) : List UInt8 :=
  ByteFields.encode (Cache.entryFields (hexEncode (Sha256.sha256 (greetingBytes m))) "hi")

theorem sharedChats_member {c : Chat} (hc : c ∈ sharedChats) :
    c.inbound.body = .ok ⟨"m1",[⟨"user","hi"⟩],none,0,false,[]⟩ ∧
      (cacheScope c.inbound.team).id = "org:o" := by
  simp only [sharedChats,List.mem_cons,List.not_mem_nil,or_false] at hc
  obtain rfl | rfl := hc
  · exact ⟨rfl,by decide +kernel⟩
  · exact ⟨rfl,by decide +kernel⟩

theorem sharedHistory_keyed {src : Cache.KeySource} (hk : Keyed sharedChats sharedHistory src) :
    ∃ m,(m = "m1" ∨ m = "m2") ∧ src.preimage = greetingBytes m ∧
      src.entryPreimage = greetingEntryBytes m := by
  obtain ⟨i,c,req,hc,⟨⟨body,hbody,hreq⟩,prov,hprov⟩,hscope,hsrc⟩ := hk
  obtain ⟨hgreeting,horg⟩ := sharedChats_member (List.mem_of_getElem? hc)
  obtain rfl := Except.ok.inj (hbody.symm.trans hgreeting)
  have hpre : src.preimage = greetingBytes req.model := by
    have horg' : Cache.Scope.id ⟨"o","",false⟩ = "org:o" := by decide +kernel
    rw [Cache.KeySource.preimage,greetingBytes,hsrc,hreq]
    simp only [Cache.fingerprintFields,hscope,horg,horg',ChatRequest.toProviderRequest,
      List.map_cons,List.map_nil,List.dropLast_singleton,List.dropLast_nil]
  refine ⟨req.model,sharedHistory_models hprov,hpre,?_⟩
  have hquery : src.key.query = "hi" := by
    have hnormal : Cache.normalizeQuery "hi" = "hi" := by decide +kernel
    rw [Cache.KeySource.key,Cache.newKey_query,hsrc,hreq]
    exact hnormal
  rw [Cache.KeySource.entryPreimage,hquery,Cache.KeySource.key,Cache.newKey_fingerprint,
    ← Cache.KeySource.preimage,hpre,greetingEntryBytes]

theorem sha256_greeting_inj {f : String → List UInt8}
    (hne : Sha256.sha256 (f "m1") ≠ Sha256.sha256 (f "m2")) {m n : String}
    (hm : m = "m1" ∨ m = "m2") (hn : n = "m1" ∨ n = "m2")
    (h : Sha256.sha256 (f m) = Sha256.sha256 (f n)) : f m = f n := by
  obtain rfl | rfl := hm <;> obtain rfl | rfl := hn
  · rfl
  · exact absurd h hne
  · exact absurd h.symm hne
  · rfl

theorem sharedHistory_distinct {a b : Cache.KeySource} (ha : Keyed sharedChats sharedHistory a)
    (hb : Keyed sharedChats sharedHistory b) : a.CollisionFree b := by
  obtain ⟨m,hm,hpre,hentry⟩ := sharedHistory_keyed ha
  obtain ⟨n,hn,hpre',hentry'⟩ := sharedHistory_keyed hb
  constructor
  · rw [hpre,hpre']
    exact sha256_greeting_inj (by decide +kernel) hm hn
  · rw [hentry,hentry']
    exact sha256_greeting_inj (by decide +kernel) hm hn

theorem sharedHistory_valid : ChatHistory sharedChats sharedHistory := by
  have hall := List.all_eq_true.1 (Bool.and_eq_true_iff.1 sharedHistory_checked).1
  exact ⟨sharedHistory_interleaves,sharedHistory_served,
    fun x hx => (Bool.and_eq_true_iff.1 (hall x hx)).1,fun _ _ => sharedHistory_distinct⟩

theorem sharedHistory_reply : ∃ a x b,sharedHistory = a ++ x :: b ∧ x.thread = 1 ∧
    ∃ reply,x.event.op = .reply 200 (.completion reply) := by
  obtain ⟨x,hx,hreply⟩ := List.any_eq_true.1 (Bool.and_eq_true_iff.1 sharedHistory_checked).2
  obtain ⟨a,b,hsplit⟩ := List.append_of_mem hx
  obtain ⟨hthread,hop⟩ := Bool.and_eq_true_iff.1 hreply
  refine ⟨a,x,b,hsplit,of_decide_eq_true hthread,?_⟩
  split at hop
  · obtain rfl := of_decide_eq_true hop
    exact ⟨_,by assumption⟩
  · cases hop

theorem completions_accounted_shared :
    ∃ a x b,ChatHistory sharedChats (a ++ x :: b) ∧ x.event.op.kind = .output ∧
    ∃ reader resp,sharedChats[x.thread]? = some reader ∧ Delivers resp x.event.op ∧
      (Produced reader.inbound.team (traceOf x.thread a) resp ∨
        ∃ e j storer,Hit reader.inbound (traceOf x.thread a) e ∧ resp = entryResponse e ∧
          sharedChats[j]? = some storer ∧ Produced storer.inbound.team (traceOf j a) resp ∧
          (cacheScope storer.inbound.team).id = (cacheScope reader.inbound.team).id) := by
  obtain ⟨a,x,b,hsplit,-,reply,hreply⟩ := sharedHistory_reply
  have hvalid := sharedHistory_valid
  rw [hsplit] at hvalid
  have hout : x.event.op.kind = .output := by rw [hreply]; rfl
  exact ⟨a,x,b,hvalid,hout,completions_accounted hvalid hout⟩

theorem sharedHistory_supplied {i : Nat} {c : Candidate} {resp : Response}
    (hs : Supplied (traceOf i sharedHistory) c resp) : c = dearModel := by
  obtain ⟨hsource,prov,hprov,hcall⟩ := hs
  have hanswer : ∀ op ans,⟨op,ans⟩ ∈ traceOf i sharedHistory → op.kind ≠ .cache →
      ans = fallbackWorld id op := by
    intro op ans hm hop
    obtain ⟨s,heq⟩ := sharedHistory_answers (mem_traceOf.1 hm)
    have hans := eq_of_heq (Event.mk.inj heq).2
    rw [hans]
    cases op with
    | cache op => exact absurd rfl hop
    | _ => rfl
  have hmodel : c.model = "m2" := by
    obtain hm | hm := sharedHistory_models hprov
    · obtain ⟨req,raw,hmem,hreq,-⟩ | ⟨req,s,hmem,hreq,-⟩ := hcall
      · have hans := hanswer _ _ hmem (by simp [Op.kind])
        simp [fallbackWorld,hreq.trans hm] at hans
      · have hans := hanswer _ _ hmem (by simp [Op.kind])
        simp [fallbackWorld,hreq.trans hm] at hans
    · exact hm
  have hprovider : c.provider = "p2" := by
    obtain ⟨prov',hprov',hname⟩ | ⟨m,tier,htier,hc⟩ := hsource
    · have hans := hanswer _ _ hprov' (by simp [Op.kind])
      simp only [fallbackWorld,hmodel,if_true,Except.ok.injEq] at hans
      rw [hname,hans]
      rfl
    · rw [hanswer _ _ htier (by simp [Op.kind])] at hc
      simp only [fallbackWorld,List.mem_cons,List.not_mem_nil,or_false] at hc
      obtain rfl | rfl := hc
      · exact absurd hmodel (by decide)
      · rfl
  cases c
  simp only at hmodel hprovider
  rw [hmodel,hprovider]
  rfl

/-- A hit is served whoever produced the entry: the second team gets an answer of
a provider and a model that are both closed to it. -/
theorem hit_ignores_allowlists :
    ∃ a x b reader resp,ChatHistory sharedChats (a ++ x :: b) ∧
      sharedChats[x.thread]? = some reader ∧ Delivers resp x.event.op ∧
      (∃ reply,x.event.op = .reply 200 (.completion reply)) ∧
      (∃ i c,Supplied (traceOf i a) c resp) ∧
      ∀ i c,Supplied (traceOf i a) c resp → reader.inbound.team.allowsProvider c.provider = false ∧
        reader.inbound.team.allowsModel c.model = false := by
  obtain ⟨a,x,b,hsplit,hthread,reply,hreply⟩ := sharedHistory_reply
  have hvalid := sharedHistory_valid
  rw [hsplit] at hvalid
  obtain ⟨reader,resp,hreader,hdelivers,hsource⟩ := hvalid.delivered (by rw [hreply]; rfl)
  have hdenied : ∀ i c,Supplied (traceOf i a) c resp →
      reader.inbound.team.allowsProvider c.provider = false ∧
        reader.inbound.team.allowsModel c.model = false := by
    intro i c hs
    have hall : Supplied (traceOf i sharedHistory) c resp := by
      rw [hsplit,traceOf_append]
      exact hs.append _
    rw [hthread] at hreader
    obtain rfl := Option.some.inj hreader
    rw [sharedHistory_supplied hall]
    decide +kernel
  refine ⟨a,x,b,reader,resp,hvalid,hreader,hdelivers,⟨reply,hreply⟩,?_,hdenied⟩
  obtain ⟨c,hs,-⟩ | ⟨e,hhit,rfl⟩ := hsource
  · exact ⟨_,c,hs⟩
  · obtain ⟨j,storer,-,⟨c,hs,-⟩,-⟩ := hvalid.hit hreader hhit
    exact ⟨j,c,hs⟩

end Switchyard.Proxy
