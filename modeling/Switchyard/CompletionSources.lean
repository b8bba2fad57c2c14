import Switchyard.CacheHistory
import Switchyard.ProviderCompliance
set_option autoImplicit false

/-!
Where the completions of one chat request come from: its own chain walk, or the
entry its cache lookup found; and what it may store under which key.
-/

namespace Switchyard.Proxy
open GoText CallTree Act Provider Resilience

/-- The walk served c: this is what the provider its model was resolved to gave. -/
def Supplied (h : History) (c : Candidate) (resp : Response) : Prop :=
  Sourced h c ∧ ∃ prov,⟨.forModel c.model,.ok prov⟩ ∈ h ∧
    ((∃ req raw,⟨.complete prov req,.body raw⟩ ∈ h ∧ req.model = c.model ∧
        translateResponse prov c.model raw = .ok resp) ∨
      ∃ req s,⟨.stream prov req,.opened s⟩ ∈ h ∧ req.model = c.model ∧ resp = s.response c)

def Produced (team : Auth.Team) (h : History) (resp : Response) : Prop :=
  ∃ c,Supplied h c resp ∧ team.allowsProvider c.provider = true ∧ team.allowsModel c.model = true

variable {h : History}

theorem Sourced.append {c : Candidate} (hs : Sourced h c) (tr : History) : Sourced (h ++ tr) c := by
  obtain ⟨prov,hp,hname⟩ | ⟨m,tier,ht,hc⟩ := hs
  · exact .inl ⟨prov,by simp [hp],hname⟩
  · exact .inr ⟨m,tier,by simp [ht],hc⟩

variable {resp : Response}

theorem Supplied.append {c : Candidate} (hs : Supplied h c resp)
    (tr : History) : Supplied (h ++ tr) c resp := by
  obtain ⟨hsource,prov,hprov,hcall⟩ := hs
  refine ⟨hsource.append tr,prov,by simp [hprov],?_⟩
  obtain ⟨req,raw,hm,hrest⟩ | ⟨req,s,hm,hrest⟩ := hcall
  · exact .inl ⟨req,raw,by simp [hm],hrest⟩
  · exact .inr ⟨req,s,by simp [hm],hrest⟩

theorem Produced.append {team : Auth.Team}
    (hp : Produced team h resp) (tr : History) : Produced team (h ++ tr) resp := by
  obtain ⟨c,hs,hallowed⟩ := hp
  exact ⟨c,hs.append tr,hallowed⟩

theorem LookedUp.append {team : Auth.Team} {req : ChatRequest} {c : CacheSetup}
    {k : Cache.Key × Cache.Result} (hl : LookedUp h team req c k) (tr : History) :
    LookedUp (h ++ tr) team req c k := by
  obtain ⟨hkey,trc,hret,hmem⟩ := hl
  exact ⟨hkey,trc,hret,fun op ans hm => List.mem_append_left tr (hmem op ans hm)⟩

def Hit (r : Inbound) (h : History) (e : Cache.Entry) : Prop :=
  ∃ req c k,Asked r h req ∧ LookedUp h r.team req c k ∧ k.2.hit = true ∧ k.2.entry = some e

theorem Hit.append {r : Inbound} {e : Cache.Entry} (hh : Hit r h e) (tr : History) :
    Hit r (h ++ tr) e := by
  obtain ⟨req,c,k,hasked,hl,hhit⟩ := hh
  exact ⟨req,c,k,hasked.append tr,hl.append tr,hhit⟩

/-- Which calls a request may make on the cache and to its caller: it stores what
its own walk produced under the key of the request, and writes out what its walk
produced or its lookup found. -/
def traces (r : Inbound) (h : History) : Op → Prop
  | .cache op => Cache.Harmless op ∨ ∃ req resp embedding now,Asked r h req ∧
      Produced r.team h resp ∧ ⟨.now,now⟩ ∈ h ∧
      Cache.PutOp (Cache.newKey (cacheScope r.team) req.toProviderRequest)
        { responseEntry resp now with embedding } now op
  | op => op.kind = .output → ∃ resp,Delivers resp op ∧
      (Produced r.team h resp ∨ ∃ e,Hit r h e ∧ resp = entryResponse e)

theorem traces_of_kind {r : Inbound} {op : Op} (hcache : op.kind ≠ .cache)
    (houtput : op.kind ≠ .output) : traces r h op := by
  cases op with
  | cache op => exact absurd rfl hcache
  | _ => exact fun hop => absurd hop houtput

theorem traces_delivers {r : Inbound} {op : Op} (hd : Delivers resp op)
    (hsource : Produced r.team h resp ∨ ∃ e,Hit r h e ∧ resp = entryResponse e) :
    traces r h op := by
  cases hd with
  | whole id created => exact fun _ => ⟨resp,.whole id created,hsource⟩
  | part id created first hpart => exact fun _ => ⟨resp,.part id created first hpart,hsource⟩
  | done => exact fun _ => ⟨resp,.done,hsource⟩

def tracing (r : Inbound) (K : History → Prop) : Contract Op Ans Vars :=
  .onHistory Vars (traces r) K

section Tracing

variable {r : Inbound} {K : History → Prop} (hK : ∀ h e,K h → K (h ++ [e]))
include hK

theorem tracing_step {op : Op} (hop : ∀ h,K h → traces r h op) : (tracing r K).Step op :=
  onHistory_step fun h hi => ⟨hop h hi,fun _ => hK h _ hi⟩

theorem tracing_of_kind {op : Op} (hcache : op.kind ≠ .cache) (houtput : op.kind ≠ .output) :
    (tracing r K).Step op := tracing_step hK fun _ _ => traces_of_kind hcache houtput

theorem tracing_plain (op : Op) (hop : op.kind = .plain) : (tracing r K).Step op :=
  tracing_of_kind hK (by simp [hop]) (by simp [hop])

omit hK in
theorem tracing_metrics (f : Metrics → Metrics) (_ : ∀ m,(f m).costMicros = m.costMicros) :
    Honours (tracing r K) (setMetrics f) := onHistory_modify _

theorem tracing_recordCost (model : String) (usage : Usage) :
    Honours (tracing r K) (recordCost model usage) :=
  recordCost_honours (fun _ _ _ => tracing_plain hK _ rfl) tracing_metrics
    (fun _ _ _ _ _ _ hi _ => ⟨hi,trivial⟩) model usage

theorem consultCache_tracing (c : CacheSetup) (team : Auth.Team) (req : ChatRequest) :
    (consultCache c team req).Calls (tracing r K).Step :=
  calls_bind (calls_embed ((Cache.lookup_calls _ _ _ _ _).mono fun _ hop =>
    tracing_step hK fun _ _ => .inl hop)) fun _ => calls_pure _

theorem storeConsulted_tracing {req : ChatRequest} {consulted : Consulted}
    (hasked : ∀ h,K h → Asked r h req) (hproduced : ∀ h,K h → Produced r.team h resp)
    (hkey : ∀ c k,consulted = some (c,k) →
      k.1 = Cache.newKey (cacheScope r.team) req.toProviderRequest) :
    Honours (tracing r K) (Act.lift (storeConsulted r consulted resp)) := by
  unfold storeConsulted storeInCache
  split
  · exact honours_pure _
  rename_i c k
  split
  · exact honours_pure _
  split
  · exact honours_pure _
  rename_i ttl _
  show Honours (tracing r K) (call .now >>= fun now => Act.lift (cacheProgram
    (Cache.store c.store k.1 k.2.embedding (responseEntry resp now) ttl now)))
  have hnow : Until (Ending.gain (tracing r K) fun now h => ⟨.now,now⟩ ∈ h) some
      (call .now) := by
    refine until_call_gain (tracing_plain hK _ rfl) fun h _ now now' _ heq => ?_
    obtain rfl := Option.some.inj heq
    simp
  refine hnow.bind_honours (fun now now' heq => ?_) fun now heq => by cases heq
  · obtain rfl := Option.some.inj heq
    refine honours_lift (calls_embed (calls_bind ((Cache.put_calls _ _ _ _ _).mono
      fun op hop => ?_) fun _ => calls_pure _))
    rw [hkey c k rfl] at hop
    have hput : ∀ h,K h ∧ ⟨.now,now⟩ ∈ h → traces r h (.cache op) := fun h hi =>
      .inr ⟨req,resp,k.2.embedding,now,hasked h hi.1,hproduced h hi.1,hi.2,hop⟩
    exact tracing_step (fun h e hi => ⟨hK h e hi.1,by simp [hi.2]⟩) hput

end Tracing

/-- What a request knows once its chain stands and its lookup missed. -/
structure Serving (r : Inbound) (req : ChatRequest) (requested : Candidate)
    (chain : List Candidate) (h : History) : Prop where
  asked : Asked r h req
  built : ChainBuilt h r.team requested chain

section Walk

variable {r : Inbound} {req : ChatRequest} {requested : Candidate} {chain : List Candidate}

theorem Serving.snoc (h : History) (e : Event Op Ans) (hs : Serving r req requested chain h) :
    Serving r req requested chain (h ++ [e]) := ⟨hs.asked.append [e],hs.built.append [e]⟩

theorem runChain_produces {α : Type} {hd : Handler} {cb : ChainBudget}
    {attempt : Adapter → Candidate → Action (Except Fault α)} (answer : α × Candidate → Response)
    (hattempt : ∀ cand prov,Until (Ending.gain ((tracing r (Serving r req requested chain)).assume
      fun h => cand ∈ chain ∧ ⟨.forModel cand.model,.ok prov⟩ ∈ h)
      fun a h => Produced r.team h (answer (a,cand))) Except.toOption (attempt prov cand)) :
    Until (Ending.gain (tracing r (Serving r req requested chain))
      fun a h => Produced r.team h (answer a)) Except.toOption
      (hd.runChain cb attempt true 0 [] chain) := by
  have hstep : ∀ op : Op,op.kind ≠ .cache → op.kind ≠ .output →
      (tracing r (Serving r req requested chain)).Step op := fun op => tracing_of_kind Serving.snoc
  refine runChain_gains (L := fun cand prov h => cand ∈ chain ∧ ⟨.forModel cand.model,.ok prov⟩ ∈ h)
    (tracing_plain Serving.snoc) (fun a h e hp => hp.append [e])
    (fun cand prov h e hl => ⟨hl.1,by simp [hl.2]⟩) (fun cand hc v h hi => ?_)
    (fun cand _ prov => hattempt cand prov) true 0 []
  have hwalk : ∀ op,WalkOp chain op → (tracing r (Serving r req requested chain)).Step op :=
    fun op hop => tracing_plain Serving.snoc op hop.plain
  refine (admitCandidate_keeps hwalk
    (fun op hop => hstep op (by simp [hop]) (by simp [hop])) (fun t => onHistory_modify _) cb
    hc v h hi).mono fun h' x v' hq => ⟨hq.1,hq.2,fun d prov _ => ⟨hc,by simp⟩⟩

theorem produced_of_call {h : History} {cand : Candidate} {prov : Adapter} {e : Event Op Ans}
    (hs : Serving r req requested chain h) (hc : cand ∈ chain)
    (hprov : ⟨.forModel cand.model,.ok prov⟩ ∈ h)
    (hcall : (∃ req raw,e = ⟨.complete prov req,.body raw⟩ ∧ req.model = cand.model ∧
        translateResponse prov cand.model raw = .ok resp) ∨
      ∃ req s,e = ⟨.stream prov req,.opened s⟩ ∧ req.model = cand.model ∧ resp = s.response cand) :
    Produced r.team (h ++ [e]) resp := by
  have hallowed := Bool.and_eq_true_iff.1 (hs.built.allowed cand hc)
  refine ⟨cand,⟨(hs.built.sourced hc).append [e],prov,by simp [hprov],?_⟩,hallowed⟩
  obtain ⟨req,raw,rfl,hrest⟩ | ⟨req,s,rfl,hrest⟩ := hcall
  · exact .inl ⟨req,raw,by simp,hrest⟩
  · exact .inr ⟨req,s,by simp,hrest⟩

/-- Once the walk has an answer, the rest may rely on where it came from. -/
theorem Serving.produced_snoc (h : History) (e : Event Op Ans)
    (hi : Serving r req requested chain h ∧ Produced r.team h resp) :
    Serving r req requested chain (h ++ [e]) ∧ Produced r.team (h ++ [e]) resp :=
  ⟨hi.1.snoc h e,hi.2.append [e]⟩

theorem attempting_snoc {cand : Candidate} {prov : Adapter} (h : History) (e : Event Op Ans)
    (hi : Serving r req requested chain h ∧ cand ∈ chain ∧ ⟨.forModel cand.model,.ok prov⟩ ∈ h) :
    Serving r req requested chain (h ++ [e]) ∧ cand ∈ chain ∧
      ⟨.forModel cand.model,.ok prov⟩ ∈ h ++ [e] := ⟨hi.1.snoc h e,hi.2.1,by simp [hi.2.2]⟩

variable {consulted : Consulted} (hkey : ∀ c k,consulted = some (c,k) →
  k.1 = Cache.newKey (cacheScope r.team) req.toProviderRequest)
include hkey

theorem completeChat_tracing (hd : Handler) (cb : ChainBudget) :
    Honours (tracing r (Serving r req requested chain))
      (hd.completeChat r req requested chain cb consulted) := by
  refine completeChat_honours (tracing_plain Serving.snoc) tracing_metrics
    (runChain_produces Prod.fst fun cand prov => ?_) fun answer => ?_
  · have hplain : ∀ op : Op,op.kind = .plain → (tracing r fun h => Serving r req requested chain h ∧
        cand ∈ chain ∧ ⟨.forModel cand.model,.ok prov⟩ ∈ h).Step op := tracing_plain attempting_snoc
    refine completeAttempt_until (fun op hop => hplain op hop.plain) (until_call_gain
      (tracing_of_kind attempting_snoc (by simp [Op.kind]) (by simp [Op.kind]))
      fun h _ ans resp hi hans => ?_) fun _ =>
        gain_step (hplain _ rfl) fun resp h e hp => hp.append [e]
    obtain ⟨raw,rfl,htr⟩ := Completion.response_some hans
    exact produced_of_call hi.1 hi.2.1 hi.2.2 (.inl ⟨_,raw,rfl,rfl,htr⟩)
  · exact finishChat_honours (tracing_plain Serving.produced_snoc) tracing_metrics
      (tracing_recordCost Serving.produced_snoc) (fun n _ => onHistory_modify _)
      (fun op hop => tracing_step Serving.produced_snoc fun h hi => traces_delivers hop (.inl hi.2))
      (storeConsulted_tracing Serving.produced_snoc (fun h hi => hi.1.asked)
        (fun h hi => hi.2) hkey)
      requested

theorem streamChatCompletions_tracing (hd : Handler) (cb : ChainBudget) :
    Honours (tracing r (Serving r req requested chain))
      (hd.streamChatCompletions r req requested chain cb consulted) := by
  refine streamChatCompletions_honours (tracing_plain Serving.snoc) tracing_metrics
    (runChain_produces (fun a => a.1.response a.2) fun cand prov => ?_) fun answer => ?_
  · refine streamAttempt_until (fun op hop => tracing_plain attempting_snoc op hop.plain)
      (until_call_gain
      (tracing_of_kind attempting_snoc (by simp [Op.kind]) (by simp [Op.kind]))
      fun h _ ans s hi hans => ?_)
    cases ans with
    | opened s' =>
      obtain rfl := Option.some.inj hans
      exact produced_of_call hi.1 hi.2.1 hi.2.2 (.inr ⟨_,s',rfl,rfl,rfl⟩)
    | failed f => cases hans
    | panicked p => cases hans
  · exact relayStream_honours (tracing_plain Serving.produced_snoc) tracing_metrics
      (tracing_recordCost Serving.produced_snoc)
      (fun op hop => tracing_step Serving.produced_snoc fun h hi => traces_delivers hop (.inl hi.2))
      (storeConsulted_tracing Serving.produced_snoc (fun h hi => hi.1.asked)
        (fun h hi => hi.2) hkey)
      req requested

theorem serveReserved_tracing (hd : Handler) :
    Honours (tracing r (Serving r req requested chain))
      (hd.serveReserved r req requested chain consulted) := by
  have hstep : ∀ op : Op,op.kind ≠ .cache → op.kind ≠ .output →
      (tracing r (Serving r req requested chain)).Step op := fun op => tracing_of_kind Serving.snoc
  exact serveReserved_honours (tracing_plain Serving.snoc)
    (fun op hop => hstep op (by simp [hop]) (by simp [hop]))
    (fun op hop => hstep op (by simp [hop]) (by simp [hop])) (fun n => onHistory_modify _)
    (fun base => streamChatCompletions_tracing hkey hd _) fun base => completeChat_tracing hkey hd _

end Walk

theorem chatCompletions_traced (hd : Handler) (r : Inbound) :
    Spec (traces r) (hd.chatCompletions r) (fun _ _ _ => True) .zero [] := by
  refine chatCompletions_leads (C := tracing r fun _ => True) (tracing_plain fun _ _ _ => trivial)
    (consultCache_tracing fun _ _ _ => trivial) (fun _ _ _ _ _ => trivial) (fun _ _ _ _ => trivial)
    (fun req c k e hit hentry v h hi hasked hlooked => ?_)
    (fun req requested chain consulted v h _ _ hasked hbuilt hlooked => ?_) .zero [] trivial
  · have hsnoc : ∀ h e',Hit r h e → Hit r (h ++ [e']) e := fun h e' hh => hh.append [e']
    exact (serveHit_honours (tracing_plain hsnoc) tracing_metrics (fun op hop => tracing_step hsnoc
      fun h hh => traces_delivers hop (.inr ⟨e,hh,rfl⟩)) req.stream r v h
      ⟨req,c,k,hasked,hlooked,hit,hentry⟩).mono fun _ _ _ _ => trivial
  · exact (serveReserved_tracing (fun c k hk => (hlooked c k hk).1) hd v h ⟨hasked,hbuilt⟩).mono
      fun _ _ _ _ => trivial

end Switchyard.Proxy
