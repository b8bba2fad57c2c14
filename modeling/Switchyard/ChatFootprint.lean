import Switchyard.ChatHandler
set_option autoImplicit false

/-!
Which kinds of call each part of the handler makes, and the rules for the chain
walk that every result about it starts from.
-/

namespace Switchyard.Proxy
open CallTree Act Provider Resilience

inductive CallKind where
  | plain
  | tokens
  | spend
  | upstream
  | cache
  | output
  deriving DecidableEq, Repr

/-- Output is what carries a completion to the caller, and its end. -/
def Op.kind : Op → CallKind
  | .complete _ _ | .stream _ _ => .upstream
  | .reserveTokens _ _ _ _ | .reconcileTokens _ _ => .tokens
  | .reserveSpend _ _ _ | .reconcileSpend _ _ => .spend
  | .cache _ => .cache
  | .reply _ (.completion _) => .output
  | .event (.chunk _) | .event .done => .output
  | _ => .plain

def sent : Op → Option (Adapter × Request)
  | .complete p req => some (p,req)
  | .stream p req => some (p,req)
  | _ => none

theorem sent_of_kind {op : Op} (hop : op.kind ≠ .upstream) : sent op = none := by
  cases op <;> first | rfl | exact absurd rfl hop

@[simp] theorem calls_ask {P : Op → Prop} {op : Op} : (ask op).Calls P ↔ P op := calls_perform

theorem calls_ask_bind {α : Type} {P : Op → Prop} {op : Op} {f : Ans op → Program α} (hop : P op)
    (hf : ∀ a,(f a).Calls P) : (ask op >>= f).Calls P := calls_bind (calls_ask.2 hop) hf

theorem answered_calls {α : Type} {P : Op → Prop} {p : Program Unit} (hp : p.Calls P) (a : α) :
    (p >>= fun _ => pure a).Calls P := calls_bind hp fun _ => calls_pure a

/-- The call carries resp, or a part of it, to the caller. -/
inductive Delivers (resp : Response) : Op → Prop where
  | whole (id : String) (created : Int) :
      Delivers resp (.reply 200 (.completion (toChatResponse id created resp)))
  | part {chunk : Chunk} (id : String) (created : Int) (first : Bool) :
      chunk.content.toList <:+: resp.content.toList →
      Delivers resp (.event (.chunk (toChatChunk id created resp.model chunk first)))
  | done : Delivers resp (.event .done)

variable {resp : Response}

theorem Delivers.kind {op : Op} (h : Delivers resp op) : op.kind = .output := by
  cases h <;> rfl

theorem mem_splitRunes {rounds : Nat} {cs : List Char} {part : String}
    (h : part ∈ splitRunes rounds cs) : part.toList <:+: cs := by
  induction rounds generalizing cs with
  | zero => simp [splitRunes] at h
  | succ rounds ih =>
    cases cs with
    | nil => simp [splitRunes] at h
    | cons c cs =>
      obtain rfl | h := List.mem_cons.1 h
      · rw [String.toList_ofList]
        exact (List.take_prefix _ _).isInfix
      · exact (ih h).trans (List.drop_suffix _ _).isInfix

def StreamReader.relay (s : StreamReader) : Relay := s.chunks.foldl Relay.receive .start

/-- The response a fully relayed stream of the candidate amounts to. -/
def StreamReader.response (s : StreamReader) (c : Candidate) : Response :=
  ⟨s.relay.content,s.relay.finish,s.relay.usage,c.model,c.provider⟩

theorem foldl_receive_content (s : Relay) (chunks : List Chunk) :
    (chunks.foldl Relay.receive s).content.toList =
      s.content.toList ++ chunks.flatMap fun c => c.content.toList := by
  induction chunks generalizing s with
  | nil => simp
  | cons c cs ih =>
    rw [List.foldl_cons,ih]
    simp [Relay.receive]

theorem StreamReader.chunk_infix {s : StreamReader} {c : Chunk} (hc : c ∈ s.chunks)
    (cand : Candidate) : c.content.toList <:+: (s.response cand).content.toList := by
  have hcontent := foldl_receive_content .start s.chunks
  obtain ⟨a,b,hsplit⟩ := List.append_of_mem hc
  rw [hsplit] at hcontent
  refine ⟨a.flatMap fun c => c.content.toList,b.flatMap fun c => c.content.toList,?_⟩
  rw [StreamReader.response,StreamReader.relay,hsplit,hcontent]
  simp [Relay.start]

theorem foldl_receive_sent (s : Relay) (sent : Bool) (chunks : List Chunk) :
    chunks.foldl Relay.receive { s with sentAny := sent } =
      { chunks.foldl Relay.receive s with sentAny := sent } := by
  induction chunks generalizing s with
  | nil => rfl
  | cons c cs ih => exact ih (s.receive c)

variable {tr : History}

theorem relayChunks_returns {id model : String} {created : Int} {s s' : Relay} {chunks : List Chunk}
    (hret : (relayChunks id created model s chunks).Returns tr (s',true)) :
    ∃ sent,s' = { chunks.foldl Relay.receive s with sentAny := sent } := by
  induction chunks generalizing s tr with
  | nil =>
    obtain ⟨-,heq⟩ := returns_pure.1 hret
    exact ⟨s.sentAny,(Prod.mk.inj heq).1.symm⟩
  | cons c cs ih =>
    unfold relayChunks at hret
    simp only [] at hret
    split at hret
    · exact ih hret
    · obtain ⟨tr₁,written,tr₂,-,-,hrest⟩ := returns_bind.1 hret
      cases written with
      | true =>
        obtain ⟨sent,hs⟩ := ih hrest
        exact ⟨sent,by rw [hs,foldl_receive_sent]; rfl⟩
      | false =>
        obtain ⟨-,heq⟩ := returns_pure.1 hrest
        cases (Prod.mk.inj heq).2

section Footprints

variable {P : Op → Prop} (hplain : ∀ op,op.kind = .plain → P op)
include hplain

theorem writeError_calls (status : Nat) (errType message : String) :
    (writeError status errType message).Calls P :=
  calls_ask_bind (hplain _ rfl) fun _ => calls_ask.2 (hplain _ rfl)

theorem refused_calls {α : Type} {status : Nat} {errType message : String} (a : α) :
    (writeError status errType message >>= fun _ => pure a).Calls P :=
  answered_calls (writeError_calls hplain _ _ _) a

theorem writeProviderError_calls (f : Fault) : (writeProviderError f).Calls P := by
  unfold writeProviderError
  split
  · exact writeError_calls hplain _ _ _
  · split
    · exact calls_ask_bind (hplain _ rfl) fun _ => writeError_calls hplain _ _ _
    · exact writeError_calls hplain _ _ _

theorem writeChainExhaustedError_calls (model : String) (failures : List ChainFailure) :
    (writeChainExhaustedError model failures).Calls P :=
  calls_ask_bind (hplain _ rfl) fun _ => calls_ask.2 (hplain _ rfl)

theorem writeChainError_calls (model : String) (failures : List ChainFailure) (err : Failure) :
    (writeChainError model failures err).Calls P := by
  unfold writeChainError
  split
  · exact writeError_calls hplain _ _ _
  · split
    · exact writeChainExhaustedError_calls hplain _ _
    · exact writeError_calls hplain _ _ _
  · split
    · exact writeChainExhaustedError_calls hplain _ _
    · exact writeProviderError_calls hplain _

theorem writeRateLimitHeaders_calls (limit : Int) (res : RateLimit.Result) :
    (writeRateLimitHeaders limit res).Calls P := by
  unfold writeRateLimitHeaders
  iterate 4 refine calls_ask_bind (hplain _ rfl) fun _ => ?_
  exact calls_pure _

theorem decode_calls (hd : Handler) (r : Inbound) : (decode hd r).Calls P := by
  unfold decode
  split
  · exact refused_calls hplain _
  split
  · exact refused_calls hplain _
  · exact refused_calls hplain _
  · split
    · exact refused_calls hplain _
    · exact calls_pure _

theorem authorizeModel_calls (team : Auth.Team) (model : String) :
    (authorizeModel team model).Calls P := by
  unfold authorizeModel
  split
  · exact calls_pure _
  · exact refused_calls hplain _

theorem resolve_calls (model : String) : (resolve model).Calls P := by
  refine calls_ask_bind (hplain _ rfl) fun r => ?_
  split
  · exact calls_pure _
  · exact refused_calls hplain _
  · exact refused_calls hplain _

theorem statusOf_calls (hd : Handler) (provider : String) : (hd.statusOf provider).Calls P := by
  unfold Handler.statusOf
  split
  · exact calls_ask.2 (hplain _ rfl)
  · exact calls_pure _

theorem chainFor_calls (hd : Handler) (team : Auth.Team) (requested : Candidate) :
    (hd.chainFor team requested).Calls P :=
  calls_ask_bind (hplain _ rfl) fun _ =>
    buildChain_calls (statusOf_calls hplain hd) _ _ _

theorem firstNotOpen_calls (hd : Handler) (head : Candidate) (cs : List Candidate) :
    (hd.firstNotOpen head cs).Calls P := by
  induction cs with
  | nil => exact calls_pure _
  | cons c cs ih =>
    unfold Handler.firstNotOpen
    split
    · refine calls_ask_bind (hplain _ rfl) fun s => ?_
      split
      · exact ih
      · exact calls_pure _
    · exact calls_pure _

theorem selectCandidate_calls (hd : Handler) (team : Auth.Team) (tier : String) :
    (hd.selectCandidate team tier).Calls P := by
  refine calls_ask_bind (hplain _ rfl) fun cs => ?_
  split
  · exact calls_pure _
  refine calls_bind (buildChain_calls (statusOf_calls hplain hd) _ _ _) fun chain => ?_
  split
  · exact calls_pure _
  · exact calls_bind (firstNotOpen_calls hplain hd _ _) fun _ => calls_pure _

theorem selectPlanned_calls (hd : Handler) (team : Auth.Team) (r : Routing.Router)
    (plan : Routing.Plan) : (hd.selectPlanned team r plan).Calls P := by
  refine calls_bind (selectCandidate_calls hplain hd team _) fun first => ?_
  split
  · exact calls_pure _
  split
  · exact calls_pure _
  refine calls_bind (selectCandidate_calls hplain hd team _) fun second => ?_
  split <;> exact calls_pure _

theorem topTierModel_calls (r : Routing.Router) : (topTierModel r).Calls P := by
  refine calls_ask_bind (hplain _ rfl) fun tier => ?_
  split <;> exact calls_pure _

theorem route_calls (hd : Handler) (team : Auth.Team) (req : ChatRequest) :
    (hd.route team req).Calls P := by
  unfold Handler.route
  split
  · exact calls_pure _
  split
  · exact calls_pure _
  refine calls_bind (selectPlanned_calls hplain hd team _ _) fun chosen => ?_
  split
  · exact refused_calls hplain _
  · exact refused_calls hplain _
  · exact calls_bind (topTierModel_calls hplain _) fun _ => calls_pure _

omit hplain in
theorem estimateFor_calls {model : String} (hlimit : P (.defaultMaxTokensFor model))
    (hcost : ∀ i o,P (.cost model i o)) (cb : ChainBudget) : (cb.estimateFor model).Calls P := by
  refine calls_ask_bind hlimit fun d => ?_
  split
  · exact calls_pure _
  · exact calls_ask.2 (hcost _ _)

theorem streamHeaders_calls : streamHeaders.Calls P :=
  calls_ask_bind (hplain _ rfl) fun _ => calls_ask_bind (hplain _ rfl) fun _ =>
    calls_ask.2 (hplain _ rfl)

theorem streamBroken_calls (served : Candidate) (s : Relay) (f : Fault) :
    (streamBroken served s f).Calls P := by
  refine calls_ask_bind (hplain _ rfl) fun ended => ?_
  split
  · exact calls_pure _
  refine calls_ask_bind (hplain _ rfl) fun _ => ?_
  split
  · exact writeProviderError_calls hplain _
  · exact calls_ask_bind (hplain _ rfl) fun _ => calls_pure _

theorem reserveTokens_calls (htokens : ∀ op,op.kind = .tokens → P op) (team : Auth.Team)
    (req : ChatRequest) : (reserveTokens team req).Calls P := by
  refine calls_ask_bind (hplain _ rfl) fun d => ?_
  split
  · exact refused_calls hplain _
  refine calls_ask_bind (htokens _ rfl) fun r => ?_
  split
  · exact calls_pure _
  split
  · exact answered_calls (calls_bind (writeRateLimitHeaders_calls hplain _ _) fun _ =>
      writeError_calls hplain _ _ _) _
  split
  · refine calls_ask_bind (htokens _ rfl) fun _ => ?_
    exact answered_calls (calls_bind (writeRateLimitHeaders_calls hplain _ _) fun _ =>
      writeError_calls hplain _ _ _) _
  · exact calls_pure _

theorem reserveBudget_calls (hspend : ∀ op,op.kind = .spend → P op) (team : Auth.Team)
    (req : ChatRequest) : (reserveBudget team req).Calls P := by
  refine calls_ask_bind (hplain _ rfl) fun d => ?_
  split
  · exact refused_calls hplain _
  refine calls_ask_bind (hplain _ rfl) fun cost => ?_
  split
  · exact refused_calls hplain _
  refine calls_ask_bind (hspend _ rfl) fun r => ?_
  split
  · exact refused_calls hplain _
  split
  · exact refused_calls hplain _
  split
  · exact calls_ask_bind (hplain _ rfl) fun _ => calls_pure _
  · exact calls_pure _

theorem writeSuccess_calls (houtput : ∀ op,Delivers resp op → P op)
    (id : String) : (writeSuccess id resp).Calls P :=
  calls_ask_bind (hplain _ rfl) fun _ => calls_ask_bind (hplain _ rfl) fun _ =>
    calls_ask.2 (houtput _ (.whole id _))

omit hplain in
theorem relayChunks_calls {id : String} {created : Int} {model : String} {chunks : List Chunk}
    (hchunk : ∀ c ∈ chunks,∀ first,P (.event (.chunk (toChatChunk id created model c first))))
    (s : Relay) : (relayChunks id created model s chunks).Calls P := by
  induction chunks generalizing s with
  | nil => exact calls_pure _
  | cons c cs ih =>
    have hrest := ih fun c hc => hchunk c (by simp [hc])
    unfold relayChunks
    simp only []
    split
    · exact hrest _
    refine calls_ask_bind (hchunk c (by simp) _) fun written => ?_
    split
    · exact hrest _
    · exact calls_pure _

omit hplain in
theorem replayParts_calls (houtput : ∀ op,Delivers resp op → P op) (id : String)
    (created : Int) (first : Bool) {parts : List String}
    (hpart : ∀ part ∈ parts,part.toList <:+: resp.content.toList) :
    (replayParts id created resp.model first parts).Calls P := by
  induction parts generalizing first with
  | nil => exact calls_pure _
  | cons part parts ih =>
    refine calls_ask_bind (houtput _ (.part _ _ _ (hpart part (by simp)))) fun written => ?_
    split
    · exact ih _ fun part hp => hpart part (by simp [hp])
    · exact calls_pure _

theorem storeConsulted_calls (hcache : ∀ op,op.kind = .cache → P op) (r : Inbound)
    (consulted : Consulted) (resp : Response) : (storeConsulted r consulted resp).Calls P := by
  unfold storeConsulted storeInCache
  split
  · exact calls_pure _
  split
  · exact calls_pure _
  split
  · exact calls_pure _
  · refine calls_ask_bind (hplain _ rfl) fun _ => calls_embed ?_
    exact calls_any fun op => hcache _ rfl

end Footprints

def Tried.value {α : Type} : Tried α → Option α
  | .called (.ok a) _ => some a
  | _ => none

def Completion.response (prov : Adapter) (model : String) :
    Completion prov.dialect → Option Response
  | .body raw => (translateResponse prov model raw).toOption
  | _ => none

theorem Completion.response_some {prov : Adapter} {model : String} {ans : Completion prov.dialect}
    (hans : ans.response prov model = some resp) :
    ∃ raw,ans = .body raw ∧ translateResponse prov model raw = .ok resp := by
  cases ans with
  | panicked p => cases hans
  | failed f => cases hans
  | body raw =>
    refine ⟨raw,rfl,?_⟩
    unfold Completion.response at hans
    cases htr : translateResponse prov model raw with
    | error e => simp [htr,Except.toOption] at hans
    | ok resp' => simpa [htr,Except.toOption] using hans

def Connection.stream? : Connection → Option StreamReader
  | .opened s => some s
  | _ => none

/-- The calls of a walk over cs, its attempts and reservations left out. -/
def WalkOp (cs : List Candidate) : Op → Prop
  | .breakerAllow c => c ∈ cs
  | .breakerReport c _ => c ∈ cs
  | .forModel m => ∃ c ∈ cs,c.model = m
  | .defaultMaxTokensFor m => ∃ c ∈ cs,c.model = m
  | .cost m _ _ => ∃ c ∈ cs,c.model = m
  | .ctxErr => True
  | .int64N _ => True
  | .wait _ => True
  | _ => False

theorem WalkOp.plain {cs : List Candidate} {op : Op} (hop : WalkOp cs op) : op.kind = .plain := by
  cases op <;> first | rfl | exact hop.elim

/-- The calls of an attempt on a candidate besides the provider's. A success is
recorded under the name in the response. -/
def AttemptOp (cand : Candidate) : Op → Prop
  | .chaos c => c = cand
  | .recordHealth q err => err = none ∨ q = cand.provider
  | _ => False

theorem AttemptOp.plain {cand : Candidate} {op : Op} (hop : AttemptOp cand op) :
    op.kind = .plain := by
  cases op <;> first | rfl | exact hop.elim

section Walk

variable {α : Type} {C : Contract Op Ans Vars} {cs : List Candidate}
  (hwalk : ∀ op,WalkOp cs op → C.Step op)
include hwalk

theorem breakerAllows_honours (hd : Handler) {cand : Candidate} (hcand : cand ∈ cs) :
    Honours C (hd.breakerAllows cand) := by
  unfold Handler.breakerAllows
  split
  · exact honours_call (hwalk _ hcand)
  · exact honours_pure _

theorem breakerReport_honours (hd : Handler) {cand : Candidate} (hcand : cand ∈ cs)
    (success : Bool) : Honours C (hd.breakerReport cand success) := by
  unfold Handler.breakerReport
  split
  · exact honours_call (hwalk _ hcand)
  · exact honours_pure _

theorem requestOver_honours (first : Bool) : Honours C (requestOver first) := by
  unfold requestOver
  split
  · exact honours_pure _
  · exact honours_call (hwalk _ trivial)

theorem admitCandidate_keeps (hspend : ∀ op,op.kind = .spend → C.Step op)
    (hextra : ∀ t,Honours C (Act.modify fun v : Vars => { v with extra := v.extra ++ [t] }))
    (cb : ChainBudget) {cand : Candidate} (hcand : cand ∈ cs) :
    Honours C (cb.admitCandidate cand.model) := by
  unfold ChainBudget.admitCandidate
  split
  · exact honours_pure _
  have hpriced := estimateFor_calls (hwalk (.defaultMaxTokensFor cand.model) ⟨cand,hcand,rfl⟩)
    (fun i o => hwalk (.cost cand.model i o) ⟨cand,hcand,rfl⟩) cb
  refine (honours_lift hpriced).bind fun est => ?_
  cases est with
  | error e => exact honours_pure _
  | ok est =>
    simp only []
    split
    · exact honours_pure _
    refine (honours_call (hspend _ rfl)).bind fun answer => ?_
    cases answer with
    | error e => exact honours_pure _
    | ok answer =>
      simp only []
      split
      · exact honours_pure _
      · exact (hextra _).bind fun _ => honours_pure _

omit hwalk in
theorem logFallback_bind {β : Type} {G : History → Op → Prop} {left : Option (List ChainFailure)}
    {f : Unit → Action β} {Q : History → Except String β → Vars → Prop} {v : Vars} {h : History}
    (hpanic : ∀ p,Q h (.error p) v) (hf : Spec G (f ()) Q v h) :
    Spec G (logFallback left >>= f) Q v h := by
  cases left with
  | none => exact hf
  | some failures =>
    unfold logFallback
    simp only []
    split
    · exact hpanic _
    · exact hf

variable {attempt : Adapter → Candidate → Action (Except Fault α)} {cb : ChainBudget}

/-- A candidate's round. K is what the attempts may rely on once the candidate
was admitted and its provider resolved. -/
theorem tryCandidate_until {E : Ending C α} {K : Adapter → History → Prop}
    {hd : Handler}
    {cand : Candidate} (hcand : cand ∈ cs) (hK : ∀ prov h e,K prov h → K prov (h ++ [e]))
    (hentry : ∀ v h,C.inv h v → Spec C.allows (cb.admitCandidate cand.model)
      (fun h' r v' => C.inv h' v' ∧ C.rel h v h' v' ∧ ∀ d prov,r = .ok (.ok d) →
        K prov (h' ++ [⟨.forModel cand.model,.ok prov⟩])) v h)
    (hattempt : ∀ prov,Until (E.assume (K prov)) Except.toOption (attempt prov cand))
    (hrest : ∀ success,E.Step (.breakerReport cand success)) (remaining : Nat)
    (left : Option (List ChainFailure)) :
    Until E Tried.value (hd.tryCandidate cb attempt remaining left cand) := by
  refine (breakerAllows_honours hwalk hd hcand).bind_until fun allowed => ?_
  split
  · exact until_pure rfl
  intro v h hi
  refine (hentry v h hi).bind (fun h₁ r v₁ hq => ?_) fun h₁ p v₁ hq => ⟨hq.1,hq.2.1⟩
  obtain ⟨hi₁,hrel₁,hK₁⟩ := hq
  refine Spec.mono ?_ fun h₂ r₂ v₂ hq => Ending.post_after hrel₁ hq
  cases r with
  | error e => exact until_pure rfl v₁ h₁ hi₁
  | ok d =>
    refine logFallback_bind (fun _ => ⟨hi₁,C.refl h₁ v₁⟩) ?_
    obtain ⟨hallow,hans⟩ := hwalk (.forModel cand.model) ⟨cand,hcand,rfl⟩ h₁ v₁ hi₁
    refine spec_call_bind.2 ⟨hallow,fun ans => ?_⟩
    obtain ⟨hi₂,hrel₂⟩ := hans ans
    refine Spec.mono ?_ fun h₃ r₃ v₃ hq => Ending.post_after hrel₂ hq
    cases ans with
    | error e => exact until_pure rfl _ _ hi₂
    | ok prov =>
      have hstep : ∀ op,WalkOp cs op → (C.assume (K prov)).Step op :=
        fun op hop => (hwalk op hop).assume (hK prov)
      have hretry := retry_until (E := E.assume (K prov)) pauses (fun _ _ h => by cases h)
        (fun n => honours_call (hstep (.int64N n) trivial))
        (fun d => honours_call (hstep (.wait d) trivial))
        (fun _ => hattempt prov) hd.retryConfig.baseDelay (min hd.retryConfig.maxAttempts remaining)
      have hround : Until (E.assume (K prov)) Tried.value _ := hretry.bind
        (f := fun r => do hd.breakerReport cand (succeeded r.1); pure (.called r.1 r.2))
        (fun r a h v h' v' hr hdone => ?_) fun r hr => ?_
      · exact (hround _ _ ⟨hi₂,hK₁ _ _ rfl⟩).mono fun _ _ _ => Ending.post_of_assume
      · have hvalue : Tried.value (.called r.1 r.2) = some a := by
          obtain ⟨r,n⟩ := r
          cases r <;> simp_all [Tried.value,Except.toOption]
        unfold Handler.breakerReport
        split
        · obtain ⟨hallow,hans⟩ := hrest (succeeded r.1) _ _ _ _ _ hdone
          exact spec_call_bind.2 ⟨hallow,fun ans => (Ending.post_some hvalue).2 (hans ans)⟩
        · exact (Ending.post_some hvalue).2 hdone
      · refine (breakerReport_honours hstep hd hcand _).bind_until fun _ => until_pure ?_
        obtain ⟨r,n⟩ := r
        cases r <;> simp_all [Tried.value,Except.toOption]

theorem runChain_until {E : Ending C (α × Candidate)} {hd : Handler} {chain : List Candidate}
    (htry : ∀ cand ∈ chain,∀ remaining left,Until (E.comap fun a => (a,cand)) Tried.value
      (hd.tryCandidate cb attempt remaining left cand)) (first : Bool) (spent : Nat)
    (failures : List ChainFailure) :
    Until E Except.toOption (hd.runChain cb attempt first spent failures chain) := by
  induction chain generalizing first spent failures with
  | nil => exact until_pure rfl
  | cons cand rest ih =>
    have hrest := ih fun c hc => htry c (by simp [hc])
    unfold Handler.runChain
    simp only []
    split
    · exact until_pure rfl
    refine (requestOver_honours hwalk first).bind_until fun ended => ?_
    split
    · exact until_pure rfl
    intro v h hi
    refine (htry cand (by simp) _ _ v h hi).bind (fun h₁ r v₁ hq => ?_) fun h₁ p v₁ hq => hq
    have hnone : Tried.value r = none → ∀ {x : Action (Except (List ChainFailure) (α × Candidate))},
        Until E Except.toOption x → Spec C.allows x (E.post Except.toOption h v) v₁ h₁ := by
      intro hr x hx
      obtain ⟨hi₁,hrel₁⟩ := (Ending.post_none hr).1 hq
      exact (hx v₁ h₁ hi₁).mono fun _ _ _ hq => Ending.post_after hrel₁ hq
    cases r with
    | skipped e => exact hnone rfl (hrest _ _ _)
    | called r n =>
      cases r with
      | ok a => exact (Ending.post_some rfl).2 ((Ending.post_some rfl).1 hq)
      | error f =>
        simp only []
        split
        · exact hnone rfl (hrest _ _ _)
        · exact hnone rfl (until_pure rfl)

theorem runChain_honours (hentry : ∀ cand ∈ cs,Honours C (cb.admitCandidate cand.model))
    (hattempt : ∀ cand ∈ cs,∀ prov,Honours C (attempt prov cand)) (hd : Handler) (first : Bool)
    (spent : Nat) (failures : List ChainFailure) :
    Honours C (hd.runChain cb attempt first spent failures cs) := by
  refine (honours_iff_until _).2 (runChain_until hwalk (fun cand hc remaining left => ?_) first
    spent failures)
  refine tryCandidate_until (K := fun _ _ => True) hwalk hc (fun _ _ _ _ => trivial)
    (fun v h hi => ?_) (fun prov v h hi => ?_) (fun _ => keep_step (hwalk _ hc)) remaining
    left
  · exact (hentry cand hc v h hi).mono fun _ _ _ hq => ⟨hq.1,hq.2,fun _ _ _ => trivial⟩
  · refine (hattempt cand hc prov v h hi.1).mono fun h' r v' hq => ?_
    unfold Ending.post
    generalize r.toOption.bind Except.toOption = a
    cases a with
    | none => exact ⟨⟨hq.1,trivial⟩,hq.2⟩
    | some a => exact hq

theorem runChain_keeps (hspend : ∀ op,op.kind = .spend → C.Step op)
    (hextra : ∀ t,Honours C (Act.modify fun v : Vars => { v with extra := v.extra ++ [t] }))
    (hattempt : ∀ cand ∈ cs,∀ prov,Honours C (attempt prov cand)) (hd : Handler)
    (cb : ChainBudget) (first : Bool) (spent : Nat) (failures : List ChainFailure) :
    Honours C (hd.runChain cb attempt first spent failures cs) :=
  runChain_honours hwalk (fun _ hc => admitCandidate_keeps hwalk hspend hextra cb hc) hattempt hd
    first spent failures

omit hwalk in
/-- A walk that gains with its answer what each round gains. L is what the
attempts on a candidate may rely on. -/
theorem runChain_gains (hplain : ∀ op,op.kind = .plain → C.Step op)
    {K : α × Candidate → History → Prop} {L : Candidate → Adapter → History → Prop} {hd : Handler}
      {chain : List Candidate}
    (hK : ∀ answer h e,K answer h → K answer (h ++ [e]))
    (hL : ∀ cand prov h e,L cand prov h → L cand prov (h ++ [e]))
    (hentry : ∀ cand ∈ chain,∀ v h,C.inv h v → Spec C.allows (cb.admitCandidate cand.model)
      (fun h' r v' => C.inv h' v' ∧ C.rel h v h' v' ∧ ∀ d prov,r = .ok (.ok d) →
        L cand prov (h' ++ [⟨.forModel cand.model,.ok prov⟩])) v h)
    (hattempt : ∀ cand ∈ chain,∀ prov,Until (Ending.gain (C.assume (L cand prov))
      fun a => K (a,cand)) Except.toOption (attempt prov cand)) (first : Bool) (spent : Nat)
    (failures : List ChainFailure) :
    Until (Ending.gain C K) Except.toOption
      (hd.runChain cb attempt first spent failures chain) := by
  have hwalk : ∀ op,WalkOp chain op → C.Step op := fun op hop => hplain op hop.plain
  refine runChain_until hwalk (fun cand hc remaining left => ?_) first spent failures
  refine tryCandidate_until hwalk hc (hL cand) (hentry cand hc) (fun prov v h hi => ?_)
    (fun _ => gain_step (hwalk _ hc) fun a => hK (a,cand)) remaining left
  refine (hattempt cand hc prov v h hi).mono fun h' r v' hq => ?_
  unfold Ending.post at hq ⊢
  generalize r.toOption.bind Except.toOption = a at hq ⊢
  cases a with
  | none => exact hq
  | some a => exact ⟨⟨hq.1.1.1,hq.1.2⟩,hq.2⟩

end Walk

section Attempts

variable {α : Type} {C : Contract Op Ans Vars} {cand : Candidate}
  (hown : ∀ op,AttemptOp cand op → C.Step op)
include hown

theorem failAttempt_until {E : Ending C α} (f : Fault) :
    Until E Except.toOption (failAttempt cand f) :=
  (honours_call (hown (.recordHealth cand.provider (some f)) (.inr rfl))).bind_until
    fun _ => until_pure rfl

theorem injecting_until {E : Ending C α} {body : Action (Except Fault α)}
    (hbody : Until E Except.toOption body) : Until E Except.toOption (injecting cand body) := by
  refine (honours_call (hown (.chaos cand) rfl)).bind_until fun injected => ?_
  cases injected with
  | nothing => exact hbody
  | failed e => exact failAttempt_until hown _
  | panicked p => exact until_panic p

variable {prov : Adapter}

theorem completeAttempt_until {E : Ending C Response} {baseReq : Request}
    (hcall : Until E (Completion.response prov cand.model)
      (call (.complete prov { baseReq with model := cand.model })))
    (hsuccess : ∀ q,E.Step (.recordHealth q none)) :
    Until E Except.toOption (completeAttempt baseReq prov cand) := by
  refine injecting_until hown (hcall.bind (fun ans resp h v h' v' hans hdone => ?_)
    fun ans hans => ?_)
  · obtain ⟨raw,rfl,htr⟩ := Completion.response_some hans
    obtain ⟨hallow,hafter⟩ := hsuccess resp.provider _ _ _ _ _ hdone
    simp only [htr]
    exact spec_call_bind.2 ⟨hallow,fun ans => (Ending.post_some rfl).2 (hafter ans)⟩
  · cases ans with
    | panicked p => exact until_panic p
    | failed f => exact failAttempt_until hown f
    | body raw =>
      cases htr : translateResponse prov cand.model raw with
      | error e =>
        simp only [htr]
        exact failAttempt_until hown _
      | ok resp => simp [Completion.response,htr,Except.toOption] at hans

theorem streamAttempt_until {E : Ending C StreamReader} {baseReq : Request}
    (hcall : Until E Connection.stream?
      (call (.stream prov { baseReq with model := cand.model }))) :
    Until E Except.toOption (streamAttempt baseReq prov cand) := by
  refine injecting_until hown (hcall.bind (fun ans s h v h' v' hans hdone => ?_)
    fun ans hans => ?_)
  · cases ans with
    | panicked p => cases hans
    | failed f => cases hans
    | opened s' =>
      obtain rfl := Option.some.inj hans
      exact (Ending.post_some rfl).2 hdone
  · cases ans with
    | panicked p => exact until_panic p
    | failed f => exact failAttempt_until hown f
    | opened s => cases hans

theorem completeAttempt_keeps (hcomplete : ∀ req,C.Step (.complete prov req))
    (req : Request) : Honours C (completeAttempt req prov cand) :=
  (honours_iff_until _).2 (completeAttempt_until hown
    ((honours_iff_until _).1 (honours_call (hcomplete _)))
    fun q => keep_step (hown (.recordHealth q none) (.inl rfl)))

theorem streamAttempt_keeps (hstream : ∀ req,C.Step (.stream prov req))
    (req : Request) : Honours C (streamAttempt req prov cand) :=
  (honours_iff_until _).2 (streamAttempt_until hown
    ((honours_iff_until _).1 (honours_call (hstream _))))

end Attempts

section Costs

variable {C : Contract Op Ans Vars} (hcost : ∀ m i o,C.Step (.cost m i o))
include hcost

variable (hmetrics : ∀ f : Metrics → Metrics,(∀ m,(f m).costMicros = m.costMicros) →
  Honours C (setMetrics f))
include hmetrics

theorem recordRoutingSavings_honours (usage : Usage) : Honours C (recordRoutingSavings usage) := by
  refine honours_get.bind fun v => ?_
  split
  · exact honours_pure _
  refine (honours_call (hcost _ _ _)).bind fun cost => ?_
  split
  · exact honours_pure _
  · exact hmetrics _ (by intro; rfl)

theorem recordFallbackDelta_honours (model : String) (usage : Usage) (cost : Int) :
    Honours C (recordFallbackDelta model usage cost) := by
  refine honours_get.bind fun v => ?_
  simp only []
  split
  · refine (honours_call (hcost _ _ _)).bind fun cost => ?_
    split
    · exact honours_pure _
    · exact hmetrics _ (by intro; rfl)
  · exact honours_pure _

theorem recordCost_honours (hset : ∀ m i o c h v,C.inv h v → ⟨.cost m i o,.ok c⟩ ∈ h →
    C.inv h (v.charge c) ∧ C.rel h v h (v.charge c)) (model : String) (usage : Usage) :
    Honours C (recordCost model usage) := by
  intro v h hi
  obtain ⟨hallow,hans⟩ := hcost model usage.inputTokens usage.outputTokens h v hi
  refine spec_call_bind.2 ⟨hallow,fun ans => ?_⟩
  obtain ⟨hi₁,hrel₁⟩ := hans ans
  cases ans with
  | error e => exact ⟨hi₁,hrel₁⟩
  | ok cost =>
    obtain ⟨hi₂,hrel₂⟩ := hset model usage.inputTokens usage.outputTokens cost _ v hi₁
      (List.mem_append_right h (List.mem_singleton_self _))
    refine spec_modify_bind.2 (((recordRoutingSavings_honours hcost hmetrics usage).bind
      fun _ => recordFallbackDelta_honours hcost hmetrics model usage cost) _ _ hi₂ |>.mono ?_)
    exact fun _ _ _ hq => ⟨hq.1,C.trans hrel₁ (C.trans hrel₂ hq.2)⟩

end Costs

section Recording

variable {α : Type} {C : Contract Op Ans Vars} (hplain : ∀ op,op.kind = .plain → C.Step op)
include hplain

variable (hmetrics : ∀ f : Metrics → Metrics,(∀ m,(f m).costMicros = m.costMicros) →
  Honours C (setMetrics f))
include hmetrics

theorem chainFailed_honours (req : ChatRequest) (failures : List ChainFailure) :
    Honours C (chainFailed req failures) :=
  (hmetrics _ (by intro; rfl)).bind fun _ => honours_lift (writeChainError_calls hplain _ _ _)

theorem serveHit_honours {e : Cache.Entry}
    (houtput : ∀ op,Delivers (entryResponse e) op → C.Step op) (stream : Bool) (r : Inbound) :
    Honours C (if stream then serveStreamFromCache r e else serveFromCache r e) := by
  split
  · unfold serveStreamFromCache
    split
    · exact honours_lift (writeError_calls hplain _ _ _)
    refine (hmetrics _ (by intro; rfl)).bind fun _ => honours_lift ?_
    refine calls_bind (streamHeaders_calls hplain) fun _ =>
      calls_ask_bind (hplain _ rfl) fun now =>
      calls_bind (replayParts_calls houtput _ _ _ fun part => mem_splitRunes) fun replayed => ?_
    split
    · exact calls_pure _
    refine calls_ask_bind (houtput _ (.part _ _ _ List.nil_infix)) fun written => ?_
    split
    · exact calls_ask_bind (houtput _ .done) fun _ => calls_pure _
    · exact calls_pure _
  · exact (hmetrics _ (by intro; rfl)).bind fun _ =>
      honours_lift (writeSuccess_calls hplain houtput _)

variable (hrecord : ∀ model usage,Honours C (recordCost model usage))
include hrecord

variable {consulted : Consulted} {r : Inbound}

theorem finishChat_honours (hactual : ∀ n,MachineInt.InRange n → Honours C
    (Act.modify fun v : Vars => { v with actual := n }))
    {answer : Response × Candidate} (houtput : ∀ op,Delivers answer.1 op → C.Step op)
    (hstore : Honours C (Act.lift (storeConsulted r consulted answer.1)))
    (requested : Candidate) : Honours C (finishChat r requested consulted answer) :=
  (hmetrics _ (by intro; rfl)).bind fun _ => (hrecord _ _).bind fun _ =>
    (hactual _ (MachineInt.wrap_inRange _)).bind fun _ =>
    (honours_lift (writeSuccess_calls hplain houtput _)).bind fun _ => hstore

theorem streamDone_honours (hdone : C.Step (.event .done)) {served : Candidate} {s : Relay}
    (hstore : Honours C (Act.lift (storeConsulted r consulted
      ⟨s.content,s.finish,s.usage,served.model,served.provider⟩))) :
    Honours C (streamDone r served consulted s) := by
  refine (honours_call (hplain _ rfl)).bind fun _ => (hmetrics _ (by intro; rfl)).bind fun _ =>
    (hrecord _ _).bind fun _ => (honours_call hdone).bind fun written => ?_
  split
  · exact hstore
  · exact honours_pure _

theorem relayStream_honours {answer : StreamReader × Candidate}
    (houtput : ∀ op,Delivers (answer.1.response answer.2) op → C.Step op)
    (hstore : Honours C (Act.lift (storeConsulted r consulted (answer.1.response answer.2))))
    (req : ChatRequest) (requested : Candidate) :
    Honours C (relayStream r req requested consulted answer) := by
  refine (hmetrics _ (by intro; rfl)).bind fun _ =>
    (honours_lift (streamHeaders_calls hplain)).bind fun _ =>
    (honours_call (hplain _ rfl)).bind fun now => ?_
  intro v h hi
  refine (spec_lift_of_calls (relayChunks_calls (fun c hc first => houtput _
    (.part _ _ first (StreamReader.chunk_infix hc _))) _) hi).bind ?_ fun h' p v' hq =>
      hq.1 ▸ hq.2.1
  intro h₁ relayed v₁ hq
  obtain ⟨rfl,⟨hi₁,hrel₁⟩,tr,a,rfl,ha,hret⟩ := hq
  obtain rfl := Except.ok.inj ha
  obtain ⟨s,written⟩ := relayed
  refine Spec.mono (Q := fun h' _ v' => C.inv h' v' ∧ C.rel (h ++ tr) v₁ h' v') ?_
    fun h' x v' hq => ⟨hq.1,C.trans hrel₁ hq.2⟩
  cases written with
  | false => exact honours_pure _ _ _ hi₁
  | true =>
    simp only [Bool.not_true,Bool.false_eq_true,if_false]
    split
    · exact honours_panic _ _ _ hi₁
    · exact ((honours_lift (streamBroken_calls hplain _ _ _)).bind
        fun _ => honours_pure _) _ _ hi₁
    · obtain ⟨sent,rfl⟩ := relayChunks_returns hret
      exact ((streamDone_honours hplain hmetrics hrecord (houtput _ .done) hstore).bind
        fun _ => honours_pure _) _ _ hi₁

omit hrecord in
theorem completeChat_honours {K : Response × Candidate → History → Prop} {hd : Handler}
    {req : ChatRequest} {requested : Candidate} {chain : List Candidate} {cb : ChainBudget}
    (hwalk : Until (Ending.gain C K) Except.toOption
      (hd.runChain cb (completeAttempt req.toProviderRequest) true 0 [] chain))
    (hfinish : ∀ answer,Honours (C.assume (K answer)) (finishChat r requested consulted answer)) :
    Honours C (hd.completeChat r req requested chain cb consulted) := by
  refine hwalk.bind_honours (fun result answer hr => ?_) fun result hr => ?_
  · cases result with
    | error failures => cases hr
    | ok answer' =>
      obtain rfl := Option.some.inj hr
      exact hfinish answer'
  · cases result with
    | error failures => exact chainFailed_honours hplain hmetrics _ _
    | ok answer => cases hr

omit hrecord in
theorem streamChatCompletions_honours {K : StreamReader × Candidate → History → Prop}
    {hd : Handler} {req : ChatRequest} {requested : Candidate}
    {chain : List Candidate} {cb : ChainBudget}
    (hwalk : Until (Ending.gain C K) Except.toOption
      (hd.runChain cb (streamAttempt req.toProviderRequest) true 0 [] chain))
    (hrelay : ∀ answer,Honours (C.assume (K answer))
      (relayStream r req requested consulted answer)) :
    Honours C (hd.streamChatCompletions r req requested chain cb consulted) := by
  unfold Handler.streamChatCompletions
  split
  · exact (honours_lift (writeError_calls hplain _ _ _)).bind fun _ => honours_pure _
  refine hwalk.bind_honours (fun result answer hr => ?_) fun result hr => ?_
  · cases result with
    | error failures => cases hr
    | ok answer' =>
      obtain rfl := Option.some.inj hr
      exact hrelay answer'
  · cases result with
    | error failures =>
      exact (chainFailed_honours hplain hmetrics _ _).bind fun _ => honours_pure _
    | ok answer => cases hr

end Recording

section Settling

variable {C : Contract Op Ans Vars}

theorem settleTokens_honours (htokens : ∀ op,op.kind = .tokens → C.Step op)
    (t : Option RateLimit.Reservation) : Honours C (settleTokens t) :=
  honours_get.bind fun _ => (honours_call (htokens _ rfl)).bind fun _ => honours_pure _

theorem settleSpend_honours (hspend : ∀ op,op.kind = .spend → C.Step op)
    (t : Option Budget.Reservation) : Honours C (settleSpend t) := by
  have hextras : ∀ extra,Honours C (reconcileExtras extra) := by
    intro extra
    induction extra with
    | nil => exact honours_pure _
    | cons t rest ih => exact (honours_call (hspend _ rfl)).bind fun _ => ih
  exact honours_get.bind fun v => (honours_call (hspend _ rfl)).bind fun _ => hextras v.extra

theorem serveReserved_honours {hd : Handler} {r : Inbound} {req : ChatRequest}
    {requested : Candidate} {chain : List Candidate} {consulted : Consulted}
    (hplain : ∀ op,op.kind = .plain → C.Step op) (htokens : ∀ op,op.kind = .tokens → C.Step op)
    (hspend : ∀ op,op.kind = .spend → C.Step op)
    (hactual : ∀ n,Honours C (Act.modify fun v : Vars => { v with actual := n }))
    (hstream : ∀ base,Honours C
      (hd.streamChatCompletions r req requested chain ⟨r.team,req,base⟩ consulted))
    (hcomplete : ∀ base,Honours C
      (hd.completeChat r req requested chain ⟨r.team,req,base⟩ consulted)) :
    Honours C (hd.serveReserved r req requested chain consulted) := by
  refine (honours_lift (reserveTokens_calls hplain htokens r.team req)).bind fun t => ?_
  cases t with
  | none => exact honours_pure _
  | some t =>
    refine Honours.defer (settleTokens_honours htokens t) ?_
    refine (honours_lift (reserveBudget_calls hplain hspend r.team req)).bind fun spend => ?_
    cases spend with
    | none => exact honours_pure _
    | some held =>
      refine Honours.defer (settleSpend_honours hspend held.1) ?_
      simp only []
      split
      · exact (hstream held.2).bind fun n => hactual n
      · exact hcomplete held.2

end Settling

/-- How a chain came about: from the resolved model and the tiers that were read,
all of it within the team's allowlists. -/
structure ChainBuilt (h : History) (team : Auth.Team) (requested : Candidate)
    (chain : List Candidate) : Prop where
  resolved : ∃ prov,⟨.forModel requested.model,.ok prov⟩ ∈ h ∧ requested.provider = prov.name
  allowed : ∀ c ∈ chain,teamAllows team c.provider c.model = true
  source : ∀ c ∈ chain,c = requested ∨ ∃ tier,⟨.tierFor requested.model,tier⟩ ∈ h ∧ c ∈ tier

theorem ChainBuilt.append {h : History} {team : Auth.Team} {requested : Candidate}
    {chain : List Candidate} (hbuilt : ChainBuilt h team requested chain) (tr : History) :
    ChainBuilt (h ++ tr) team requested chain := by
  obtain ⟨⟨prov,hp,hname⟩,hallowed,hsource⟩ := hbuilt
  refine ⟨⟨prov,by simp [hp],hname⟩,hallowed,fun c hc => ?_⟩
  obtain hc | ⟨tier,ht,hc⟩ := hsource c hc
  · exact .inl hc
  · exact .inr ⟨tier,by simp [ht],hc⟩

/-- How a lookup's result came about: a run of `Lookup` whose calls are in h. -/
def LookedUp (h : History) (team : Auth.Team) (req : ChatRequest) (c : CacheSetup)
    (consulted : Cache.Key × Cache.Result) : Prop :=
  consulted.1 = Cache.newKey (cacheScope team) req.toProviderRequest ∧
    ∃ tr,(Cache.lookup c.unit c.store c.lookup c.embedder consulted.1).Returns tr consulted.2 ∧
      ∀ op (ans : Cache.Ans op),⟨op,ans⟩ ∈ tr → ⟨.cache op,ans⟩ ∈ h

theorem consultCache_calls {P : Op → Prop} (hcache : ∀ op,op.kind = .cache → P op) (c : CacheSetup)
    (team : Auth.Team) (req : ChatRequest) : (consultCache c team req).Calls P :=
  calls_bind (calls_embed (calls_any fun op => hcache (.cache op) rfl)) fun _ => calls_pure _

theorem consultCache_returns {c : CacheSetup} {team : Auth.Team} {req : ChatRequest}
    {consulted : Cache.Key × Cache.Result} (hret : (consultCache c team req).Returns tr consulted)
    (h : History) : LookedUp (h ++ tr) team req c consulted := by
  obtain ⟨tr₁,result,tr₂,rfl,hlook,hpure⟩ := returns_bind.1 hret
  obtain ⟨rfl,rfl⟩ := returns_pure.1 hpure
  obtain ⟨trc,hl,hr⟩ := returns_embed hlook
  refine ⟨rfl,trc,hr,fun op ans hm => ?_⟩
  obtain ⟨ans',heq,hm⟩ := hl.mem hm
  have hans : ans' = ans := heq
  rw [hans] at hm
  exact List.mem_append_right h (List.mem_append_left [] hm)

theorem resolve_returns {model : String} {prov : Adapter}
    (hret : (resolve model).Returns tr (some prov)) : ⟨.forModel model,.ok prov⟩ ∈ tr := by
  obtain ⟨ans,tr₂,rfl,hrest⟩ := returns_perform_bind.1 hret
  cases ans with
  | ok p =>
    obtain ⟨-,hp⟩ := returns_pure.1 hrest
    obtain rfl := Option.some.inj hp
    simp
  | error e =>
    cases e <;> simp [returns_bind] at hrest

theorem chainFor_returns {hd : Handler} {team : Auth.Team} {requested : Candidate}
    {chain : List Candidate} (hret : (hd.chainFor team requested).Returns tr chain) :
    (∀ c ∈ chain,teamAllows team c.provider c.model = true) ∧
      ∀ c ∈ chain,c = requested ∨ ∃ tier,⟨.tierFor requested.model,tier⟩ ∈ tr ∧ c ∈ tier := by
  obtain ⟨tier,tr₂,rfl,hrest⟩ := returns_perform_bind.1 hret
  refine ⟨fun c hc => (buildChain_returns hrest hc).2,fun c hc => ?_⟩
  obtain hc | hc := (buildChain_returns hrest hc).1
  · exact .inl hc
  · exact .inr ⟨tier,by simp,hc⟩

/-- The request that is served: the caller's, under a model that was resolved. -/
def Asked (r : Inbound) (h : History) (req : ChatRequest) : Prop :=
  (∃ body,r.body = .ok body ∧ req = { body with model := req.model }) ∧
    ∃ prov,⟨.forModel req.model,.ok prov⟩ ∈ h

theorem Asked.append {r : Inbound} {h : History} {req : ChatRequest} (ha : Asked r h req)
    (tr : History) : Asked r (h ++ tr) req := by
  obtain ⟨hbody,prov,hp⟩ := ha
  exact ⟨hbody,prov,by simp [hp]⟩

theorem decode_returns {hd : Handler} {r : Inbound} {req : ChatRequest}
    (hret : (decode hd r).Returns tr (some req)) : r.body = .ok req := by
  unfold decode at hret
  split at hret
  · simp [returns_bind] at hret
  split at hret
  · simp [returns_bind] at hret
  · simp [returns_bind] at hret
  · split at hret
    · simp [returns_bind] at hret
    · obtain ⟨-,heq⟩ := returns_pure.1 hret
      rw [← Option.some.inj heq]
      assumption

section Shell

variable {C : Contract Op Ans Vars} {Q : History → Except String Unit → Vars → Prop}
  {hd : Handler} {r : Inbound} (hplain : ∀ op,op.kind = .plain → C.Step op)
  (hlookup : ∀ c team req,(consultCache c team req).Calls C.Step)
  (hmetrics : ∀ f : Metrics → Metrics,(∀ m,(f m).costMicros = m.costMicros) → ∀ h v,C.inv h v →
    C.inv h { v with metrics := f v.metrics })
  (hexit : ∀ h x v,C.inv h v → Q h x v)
include hplain hlookup hmetrics hexit

section Request
variable {req : ChatRequest}
  (hhit : ∀ c consulted e,consulted.2.hit = true → consulted.2.entry = some e →
    ∀ v h,C.inv h v → Asked r h req → LookedUp h r.team req c consulted → Spec C.allows
      (if req.stream then serveStreamFromCache r e else serveFromCache r e) Q v h)
  (hserve : ∀ requested chain consulted v h,C.inv h v → requested.model = req.model →
    Asked r h req → ChainBuilt h r.team requested chain →
    (∀ c k,consulted = some (c,k) → LookedUp h r.team req c k) →
    Spec C.allows (hd.serveReserved r req requested chain consulted) Q v h)
include hhit hserve

omit hplain in
theorem serveChain_spec {requested : Candidate} {chain : List Candidate}
    {v : Vars} {h : History} (hi : C.inv h v) (hmodel : requested.model = req.model)
    (hasked : Asked r h req) (hbuilt : ChainBuilt h r.team requested chain) :
    Spec C.allows (hd.serveChain r req requested chain) Q v h := by
  unfold Handler.serveChain
  split
  · exact hserve _ _ _ _ _ hi hmodel hasked hbuilt (by simp)
  rename_i c _
  refine (spec_lift_of_calls (hlookup c r.team req) hi).bind ?_
    (by rintro h' p v' ⟨rfl,hq,-⟩; exact hexit _ _ _ hq.1)
  rintro h₁ ⟨key,result⟩ v₁ ⟨rfl,hq,tr,a,rfl,hr,hret⟩
  obtain rfl := Except.ok.inj hr
  have hlooked := consultCache_returns hret h
  have hi₁ := hmetrics (fun m => { m with
    cacheHit := some result.hit,cacheTier := cacheTierText result }) (fun _ => rfl) _ _ hq.1
  refine spec_modify_bind.2 ?_
  split
  · exact hhit c (key,result) _ ‹_› ‹_› _ _ hi₁ (hasked.append tr) hlooked
  · refine hserve _ _ _ _ _ hi₁ hmodel (hasked.append tr) (hbuilt.append tr) fun c' k hk => ?_
    obtain ⟨rfl,rfl⟩ := Prod.mk.inj (Option.some.inj hk)
    exact hlooked

theorem serveModel_leads
    (hbody : ∃ body,r.body = .ok body ∧ req = { body with model := req.model }) :
    Leads C Q (hd.serveModel r req) := by
  refine (honours_lift (authorizeModel_calls hplain r.team req.model)).bind_leads
    (fun authorized => ?_) hexit
  split
  · intro v h hi
    refine (spec_lift_of_calls (resolve_calls hplain req.model) hi).bind ?_
      (by rintro h' p v' ⟨rfl,hq,-⟩; exact hexit _ _ _ hq.1)
    rintro h₁ prov v₁ ⟨rfl,hq,tr,a,rfl,hr,hret⟩
    obtain rfl := Except.ok.inj hr
    cases prov with
    | none => exact hexit _ _ _ hq.1
    | some prov =>
      have hprov := resolve_returns hret
      refine (spec_lift_of_calls (chainFor_calls hplain hd r.team ⟨prov.name,req.model⟩)
        hq.1).bind ?_ (by rintro h' p v' ⟨rfl,hq,-⟩; exact hexit _ _ _ hq.1)
      rintro h₂ chain v₂ ⟨rfl,hq₂,tr₂,a,rfl,hr,hret₂⟩
      obtain rfl := Except.ok.inj hr
      split
      · refine (honours_lift (writeError_calls hplain _ _ _) _ _ hq₂.1).mono ?_
        exact fun h' x v' hq => hexit _ _ _ hq.1
      · obtain ⟨hallowed,hsource⟩ := chainFor_returns hret₂
        refine serveChain_spec hlookup hmetrics hexit hhit hserve hq₂.1 rfl
          ⟨hbody,prov,by simp [hprov]⟩ ⟨⟨prov,by simp [hprov],rfl⟩,hallowed,fun c hc => ?_⟩
        obtain hc | ⟨tier,ht,hc⟩ := hsource c hc
        · exact .inl hc
        · exact .inr ⟨tier,by simp [ht],hc⟩
  · exact fun v h hi => hexit _ _ _ hi

end Request

variable
  (hhit : ∀ req c consulted e,consulted.2.hit = true → consulted.2.entry = some e →
    ∀ v h,C.inv h v → Asked r h req → LookedUp h r.team req c consulted → Spec C.allows
      (if req.stream then serveStreamFromCache r e else serveFromCache r e) Q v h)
  (hserve : ∀ req requested chain consulted v h,C.inv h v → requested.model = req.model →
    Asked r h req → ChainBuilt h r.team requested chain →
    (∀ c k,consulted = some (c,k) → LookedUp h r.team req c k) →
    Spec C.allows (hd.serveReserved r req requested chain consulted) Q v h)
include hhit hserve

/-- The handler around its two ways of serving: what holds at every exit, at
every hit and after every served request holds at the end. -/
theorem chatCompletions_leads : Leads C Q (hd.chatCompletions r) := by
  intro v h hi
  refine (spec_lift_of_calls (decode_calls hplain hd r) hi).bind (fun h₁ req v₁ hq => ?_)
    fun h₁ p v₁ hq => hexit _ _ _ (hq.1 ▸ hq.2.1.1)
  obtain ⟨rfl,⟨hi₁,-⟩,tr,a,rfl,ha,hret⟩ := hq
  obtain rfl := Except.ok.inj ha
  cases req with
  | none => exact hexit _ _ _ hi₁
  | some req =>
    have hbody := decode_returns hret
    refine spec_modify_bind.2 ?_
    refine (honours_lift (route_calls hplain hd r.team req)).bind_leads (fun routed => ?_) hexit
      _ _ (hmetrics (fun m => { m with requestedModel := req.model,stream := req.stream })
        (fun _ => rfl) _ v₁ hi₁)
    cases routed with
    | none => exact fun v h hi => hexit _ _ _ hi
    | some routed =>
      cases routed with
      | none =>
        exact serveModel_leads hplain hlookup hmetrics hexit (hhit _) (hserve _) ⟨req,hbody,rfl⟩
      | some routed =>
        intro v h hi
        exact spec_modify_bind.2 (serveModel_leads hplain hlookup hmetrics hexit (hhit _)
          (hserve _) ⟨req,hbody,rfl⟩ _ _ (hmetrics (fun m => { m with
          routedModel := routed.model
          routedTier := routed.tier
          routeReason := routed.reason
          routeBaselineModel := routed.baselineModel }) (fun _ => rfl) h v hi))

end Shell

end Switchyard.Proxy
