import Switchyard.CacheHistory
import Switchyard.RequestAccounts
import Switchyard.StreamCharges
set_option autoImplicit false

/-!
What the client of a live stream is shown (`streamChatCompletions` in
internal/proxy/handler.go), call by call of a run, and what the run leaves in the
cache.
-/

namespace Switchyard.Proxy
open CallTree Act Provider Resilience

inductive Output where
  | event (e : SseEvent)
  | reply (status : Nat) (body : ReplyBody)
  deriving DecidableEq, Repr

def output : Op → Option Output
  | .event e => some (.event e)
  | .reply status body => some (.reply status body)
  | _ => none

def shown (h : History) : List Output := h.filterMap fun e => output e.op

def Reached (h : History) : Prop := ∀ x ans,(⟨.event x,ans⟩ : Event Op Ans) ∈ h → ans = true

/-- A call that neither shows the client anything nor reaches the cache. -/
def Inward (op : Op) : Prop := output op = none ∧ op.kind ≠ .cache

@[simp] theorem shown_nil : shown [] = [] := rfl

@[simp] theorem shown_append (g h : History) : shown (g ++ h) = shown g ++ shown h :=
  List.filterMap_append

theorem shown_cons (e : Event Op Ans) (h : History) : shown (e :: h) = shown [e] ++ shown h :=
  shown_append [e] h

theorem Reached.sub {g h : History} (hr : Reached g) (hsub : h ⊆ g) : Reached h :=
  fun x ans hm => hr x ans (hsub hm)

theorem shown_of_none {h : History} (hh : ∀ e ∈ h,output e.op = none) : shown h = [] := by
  rw [shown,List.filterMap_eq_nil_iff]
  exact hh

def visible (c : Chunk) : Bool := decide ¬(c.content = "" ∧ c.finishReason.text = "")

/-- The chunks as they are written; the first may carry the role. -/
def chatChunks (id : String) (created : Int) (model : String) : Bool → List Chunk → List ChatChunk
  | _,[] => []
  | first,c :: cs => toChatChunk id created model c first :: chatChunks id created model false cs

def Output.chunk (c : ChatChunk) : Output := .event (.chunk c)

variable {tr : History}

theorem relayChunks_shown {id model : String} {created : Int} {s s' : Relay} {written : Bool}
    {chunks : List Chunk}
    (hret : (relayChunks id created model s chunks).Returns tr (s',written)) (hr : Reached tr) :
    written = true ∧
      s' = { chunks.foldl Relay.receive s with sentAny := s.sentAny || chunks.any visible } ∧
      shown tr = (chatChunks id created model (!s.sentAny) (chunks.filter visible)).map .chunk := by
  induction chunks generalizing s tr with
  | nil =>
    obtain ⟨rfl,heq⟩ := returns_pure.1 hret
    obtain ⟨rfl,rfl⟩ := Prod.mk.inj heq
    simp [chatChunks]
  | cons c cs ih =>
    unfold relayChunks at hret
    simp only [] at hret
    by_cases hempty : c.content = "" ∧ c.finishReason.text = ""
    · have hc : visible c = false := decide_eq_false (not_not.2 hempty)
      rw [if_pos hempty] at hret
      have hrest := ih hret hr
      rw [List.filter_cons_of_neg (by simp [hc]),List.any_cons,hc]
      exact hrest
    · have hc : visible c = true := decide_eq_true hempty
      rw [if_neg hempty] at hret
      obtain ⟨ans,tr₂,rfl,hrest⟩ := returns_perform_bind.1 hret
      obtain rfl := hr _ ans List.mem_cons_self
      obtain ⟨hwritten,hs,hshown⟩ := ih hrest (hr.sub (List.subset_append_right _ _))
      refine ⟨hwritten,?_,?_⟩
      · rw [hs,foldl_receive_sent,List.any_cons,hc]
        simp
      · rw [shown_append,hshown,List.filter_cons_of_pos hc]
        simp [shown,output,chatChunks,Relay.receive,Output.chunk]

/-- The reply that tells of a failed stream before anything was written. -/
def errorReply (f : Fault) : Output :=
  .reply ((asProviderError f).elim 500 fun e => statusForKind e.kind) (.error (sseErrorDetail f))

def closing (stream : StreamReader) (gone : Bool) : List Output :=
  match stream.ending with
  | .eof => [.event .done]
  | .failed f =>
    if gone then []
    else if stream.chunks.any visible then [.event (.error (sseErrorDetail f))]
    else [errorReply f]
  | .panicked _ => []

theorem writeError_returns {status : Nat} {errType message : String}
    (hret : (writeError status errType message).Returns tr ()) :
    tr = [⟨.header "Content-Type" "application/json",()⟩,
      ⟨.reply status (.error ⟨message,errType,[]⟩),()⟩] := by
  obtain ⟨u,tr₂,rfl,h₂⟩ := returns_perform_bind.1 hret
  obtain rfl := returns_perform.1 h₂
  rfl

theorem writeProviderError_returns {f : Fault} (hret : (writeProviderError f).Returns tr ()) :
    shown tr = [errorReply f] ∧ ∀ e ∈ tr,e.op.kind = .plain ∧ e.op ≠ .ctxErr := by
  unfold writeProviderError at hret
  cases hf : asProviderError f with
  | none =>
    simp only [hf] at hret
    rw [writeError_returns hret]
    simp [shown,output,errorReply,sseErrorDetail,hf,Op.kind]
  | some err =>
    simp only [hf] at hret
    by_cases hafter : 0 < err.retryAfter
    · rw [if_pos hafter] at hret
      obtain ⟨u,tr₂,rfl,h₂⟩ := returns_perform_bind.1 hret
      rw [writeError_returns h₂]
      simp [shown,output,errorReply,sseErrorDetail,hf,Op.kind]
    · rw [if_neg hafter] at hret
      rw [writeError_returns hret]
      simp [shown,output,errorReply,sseErrorDetail,hf,Op.kind]

theorem streamBroken_returns {served : Candidate} {s : Relay} {f : Fault}
    (hret : (streamBroken served s f).Returns tr ()) :
    ∃ gone rest,tr = ⟨.ctxErr,gone⟩ :: rest ∧
      (∀ e ∈ rest,e.op.kind = .plain ∧ e.op ≠ .ctxErr) ∧
      shown rest = if gone then []
        else if s.sentAny then [.event (.error (sseErrorDetail f))] else [errorReply f] := by
  obtain ⟨gone,tr₂,rfl,h₂⟩ := returns_perform_bind.1 hret
  refine ⟨gone,tr₂,rfl,?_⟩
  cases gone with
  | true =>
    obtain ⟨rfl,-⟩ := returns_pure.1 h₂
    simp
  | false =>
    obtain ⟨u,tr₄,rfl,h₄⟩ := returns_perform_bind.1 h₂
    cases hsent : s.sentAny with
    | false =>
      simp only [hsent] at h₄
      obtain ⟨hshown,hplain⟩ := writeProviderError_returns h₄
      constructor
      · intro e he
        obtain rfl | he := List.mem_cons.1 he
        · exact ⟨rfl,by simp⟩
        · exact hplain e he
      · rw [shown_append,hshown]
        rfl
    | true =>
      simp only [hsent] at h₄
      obtain ⟨ans,tr₆,rfl,h₆⟩ := returns_perform_bind.1 h₄
      obtain ⟨rfl,-⟩ := returns_pure.1 h₆
      simp [shown,output,Op.kind]

def confined (P : Op → Prop) : Contract Op Ans Vars :=
  .onHistory Vars (fun _ _ => True) fun h => ∀ e ∈ h,P e.op

theorem confined_step {P : Op → Prop} {op : Op} (hop : P op) : (confined P).Step op := by
  refine onHistory_step fun h hh => ⟨trivial,fun ans e he => ?_⟩
  obtain he | he := List.mem_append.1 he
  · exact hh e he
  · rw [List.mem_singleton.1 he]
    exact hop

theorem confined_run {P : Op → Prop} {α : Type} {x : Action α} (hx : Honours (confined P) x)
    {v : Vars} {out : Except String α × Vars} (hrun : (x v).Returns tr out) : ∀ e ∈ tr,P e.op :=
  ((hx v [] fun _ he => nomatch he).returns hrun).1

theorem recordCost_confined {P : Op → Prop} (hcost : ∀ m i o,P (.cost m i o)) (model : String)
    (usage : Usage) : Honours (confined P) (recordCost model usage) :=
  recordCost_honours (fun _ _ _ => confined_step (hcost _ _ _)) (fun _ _ => onHistory_modify _)
    (fun _ _ _ _ _ _ hi _ => ⟨hi,trivial⟩) model usage

/-- A call that shows nothing, and writes only an entry that holds resp. -/
def Stores (resp : Response) : Op → Prop
  | .cache (.hSet _ fields) => cacheable resp = true ∧ ∃ e now,fields = Cache.putFields e now ∧
      e.response = resp.content ∧ e.finishReason = resp.finishReason
  | op => output op = none

theorem Stores.output {resp : Response} {op : Op} (h : Stores resp op) : output op = none := by
  cases op with
  | cache op => rfl
  | _ => exact h

theorem stores_of_inward {resp : Response} {op : Op} (h : Inward op) : Stores resp op := by
  cases op with
  | cache op => exact absurd rfl h.2
  | _ => exact h.1

theorem storeConsulted_stores (r : Inbound) (consulted : Consulted) (resp : Response) :
    (storeConsulted r consulted resp).Calls (Stores resp) := by
  unfold storeConsulted storeInCache
  split
  · exact calls_pure _
  rename_i c k
  by_cases hc : cacheable resp = true
  · simp only [hc,Bool.not_true,Bool.false_eq_true,if_false]
    split
    · exact calls_pure _
    rename_i ttl _
    refine calls_ask_bind rfl fun now => calls_embed ?_
    refine calls_bind ((Cache.put_calls _ _ _ _ _).mono fun op hop => ?_) fun _ => calls_pure _
    obtain hop | rfl | ⟨score,rfl⟩ := hop
    · cases op with
      | hSet id fields => exact hop.elim
      | _ => rfl
    · exact ⟨hc,_,_,rfl,rfl,rfl⟩
    · rfl
  · simp only [hc,Bool.not_false,if_true]
    exact calls_pure _

variable {consulted : Consulted}

theorem streamDone_returns {r : Inbound} {served : Candidate} {s : Relay} {v v' : Vars}
    {out : Except String Unit} (hrun : (streamDone r served consulted s v).Returns tr (out,v')) :
    shown tr = [.event .done] ∧ ∀ e ∈ tr,e.op = .event .done ∨
      Stores ⟨s.content,s.finish,s.usage,served.model,served.provider⟩ e.op := by
  obtain ⟨u,tr₁,rfl,hrun₁⟩ := returns_call_seq hrun
  replace hrun₁ := returns_modify_seq hrun₁
  obtain ⟨tr₂,u₂,v₂,tr₃,rfl,hcost,hrun₂⟩ := (recordCost_calm _ _).returns_seq hrun₁
  have hinward := confined_run (recordCost_confined (P := Inward) (fun _ _ _ => ⟨rfl,nofun⟩) _ _)
    hcost
  obtain ⟨ans,tr₄,rfl,hrun₃⟩ := returns_call_seq hrun₂
  have hstore : ∀ e ∈ tr₄,Stores ⟨s.content,s.finish,s.usage,served.model,served.provider⟩
    e.op := by
    split at hrun₃
    · obtain ⟨a,-,-,hstore⟩ := returns_lift hrun₃
      exact hstore.calls (storeConsulted_stores r consulted _)
    · obtain ⟨rfl,-⟩ := returns_pure.1 hrun₃
      simp
  constructor
  · have h₂ := shown_of_none fun e he => (hinward e he).1
    have h₄ := shown_of_none fun e he => (hstore e he).output
    rw [shown_cons,shown_append,shown_cons ⟨.event .done,ans⟩,h₂,h₄]
    rfl
  · intro e he
    simp only [List.mem_cons,List.mem_append] at he
    obtain rfl | he | rfl | he := he
    · exact .inr rfl
    · exact .inr (stores_of_inward (hinward e he))
    · exact .inl rfl
    · exact .inr (hstore e he)

def StreamReader.written (s : StreamReader) (r : Inbound) (c : Candidate) (created : Int) :
    List ChatChunk :=
  chatChunks (chatCompletionID r.requestID) created c.model true (s.chunks.filter visible)

def Relaying : Op → Prop
  | .header _ _ | .now | .event _ => True
  | _ => False

theorem Relaying.not {op : Op} (h : Relaying op) : op ≠ .ctxErr ∧ ∀ c,op ≠ .cache c := by
  constructor
  · rintro rfl
    exact h
  · rintro c rfl
    exact h

theorem streamHeaders_returns (hret : streamHeaders.Returns tr ()) :
    shown tr = [] ∧ ∀ e ∈ tr,Relaying e.op := by
  have hops : streamHeaders.Calls fun op => output op = none ∧ Relaying op :=
    calls_ask_bind ⟨rfl,trivial⟩ fun _ => calls_ask_bind ⟨rfl,trivial⟩ fun _ =>
      calls_ask.2 ⟨rfl,trivial⟩
  have hcalls := Prog.After.calls hret hops
  exact ⟨shown_of_none fun e he => (hcalls e he).1,fun e he => (hcalls e he).2⟩

/-- Up to the end of the stream: everything visible is shown, and nothing else is
done. -/
theorem relayStream_relays {r : Inbound} {req : ChatRequest} {requested served : Candidate}
    {stream : StreamReader} {v v' : Vars} {out : Except String Int}
    (hrun : (relayStream r req requested consulted (stream,served) v).Returns tr (out,v'))
    (hr : Reached tr) :
    ∃ created pre post v₁,tr = pre ++ post ∧
      shown pre = (stream.written r served created).map .chunk ∧ (∀ e ∈ pre,Relaying e.op) ∧
      let s := { stream.relay with sentAny := stream.chunks.any visible }
      ((match stream.ending with
        | .panicked p => Act.panic p
        | .failed f => do
          Act.lift (streamBroken served s f)
          pure (s.actualTokens req)
        | .eof => do
          streamDone r served consulted s
          pure (s.actualTokens req) : Action Int) v₁).Returns post (out,v') := by
  replace hrun := returns_modify_seq hrun
  obtain ⟨tr₁,u,tr₂,rfl,hheaders,hrun₁⟩ := returns_lift_seq hrun
  obtain ⟨now,tr₃,rfl,hrun₂⟩ := returns_call_seq hrun₁
  obtain ⟨tr₄,⟨s,written⟩,tr₅,rfl,hrelay,hrun₃⟩ := returns_lift_seq hrun₂
  obtain ⟨rfl,rfl,hchunks⟩ := relayChunks_shown hrelay (hr.sub fun e he => by simp [he])
  obtain ⟨hshown,hhead⟩ := streamHeaders_returns hheaders
  have hevents : ∀ e ∈ tr₄,Relaying e.op :=
    Prog.After.calls hrelay (relayChunks_calls (fun _ _ _ => trivial) _)
  refine ⟨unix now,tr₁ ++ ⟨.now,now⟩ :: tr₄,tr₅,_,by simp,?_,?_,hrun₃⟩
  · rw [shown_append,hshown,shown_cons,hchunks]
    rfl
  · intro e he
    simp only [List.mem_append,List.mem_cons] at he
    obtain he | rfl | he := he
    · exact hhead e he
    · exact trivial
    · exact hevents e he

theorem relayStream_shown {r : Inbound} {req : ChatRequest} {requested served : Candidate}
    {stream : StreamReader} {v v' : Vars} {out : Except String Int}
    (hrun : (relayStream r req requested consulted (stream,served) v).Returns tr (out,v'))
    (hr : Reached tr) :
    ∃ created gone,(gone = true ↔ (⟨.ctxErr,true⟩ : Event Op Ans) ∈ tr) ∧
      shown tr = (stream.written r served created).map .chunk ++ closing stream gone ∧
      ∀ c ans,(⟨.cache c,ans⟩ : Event Op Ans) ∈ tr → stream.ending = .eof ∧
        Stores (stream.response served) (.cache c) := by
  obtain ⟨created,pre,post,v₁,rfl,hshown,hpre,hpost⟩ := relayStream_relays hrun hr
  have hnocache : ∀ c ans,(⟨.cache c,ans⟩ : Event Op Ans) ∉ pre :=
    fun c ans hm => (hpre _ hm).not.2 c rfl
  have hnoctx : ∀ ans,(⟨.ctxErr,ans⟩ : Event Op Ans) ∉ pre := fun ans hm => (hpre _ hm).not.1 rfl
  refine ⟨created,?_⟩
  cases hend : stream.ending with
  | panicked p =>
    simp only [hend] at hpost
    obtain ⟨rfl,-⟩ := returns_pure.1 hpost
    refine ⟨false,by simp [hnoctx],?_,?_⟩
    · simp [hshown,closing,hend]
    · intro c ans hm
      rw [List.append_nil] at hm
      exact absurd hm (hnocache c ans)
  | failed f =>
    simp only [hend] at hpost
    obtain ⟨tr₁,u,tr₂,rfl,hbroken,hrest⟩ := returns_lift_seq hpost
    obtain ⟨rfl,-⟩ := returns_pure.1 hrest
    obtain ⟨gone,rest,rfl,hplain,hrestShown⟩ := streamBroken_returns hbroken
    have hnone : (⟨.ctxErr,true⟩ : Event Op Ans) ∉ rest := fun hm => (hplain _ hm).2 rfl
    refine ⟨gone,?_,?_,?_⟩
    · simp [hnoctx,hnone,eq_comm]
    · rw [shown_append,hshown,List.append_nil,shown_cons,hrestShown]
      simp [closing,hend,shown,output]
    · intro c ans hm
      simp only [List.append_nil,List.mem_append,List.mem_cons] at hm
      obtain hm | hm | hm := hm
      · exact absurd hm (hnocache c ans)
      · cases hm
      · cases (hplain _ hm).1
  | eof =>
    simp only [hend] at hpost
    obtain ⟨tr₁,u,v₂,tr₂,rfl,hdone,hrest⟩ := (streamDone_calm _ _ _ _).returns_seq hpost
    obtain ⟨rfl,-⟩ := returns_pure.1 hrest
    obtain ⟨hdoneShown,hstores⟩ := streamDone_returns hdone
    have hall : shown (pre ++ (tr₁ ++ [])) =
        (stream.written r served created).map .chunk ++ [.event .done] := by
      rw [List.append_nil,shown_append,hshown,hdoneShown]
    have hcache : ∀ c ans,(⟨.cache c,ans⟩ : Event Op Ans) ∈ pre ++ (tr₁ ++ []) →
        StreamEnd.eof = .eof ∧ Stores (stream.response served) (.cache c) := by
      intro c ans hm
      simp only [List.append_nil,List.mem_append] at hm
      obtain hm | hm := hm
      · exact absurd hm (hnocache c ans)
      · obtain he | he := hstores _ hm
        · cases he
        · exact ⟨rfl,he⟩
    by_cases hgone : (⟨.ctxErr,true⟩ : Event Op Ans) ∈ pre ++ (tr₁ ++ [])
    · exact ⟨true,by simp only [hgone],by rw [hall,closing,hend],hcache⟩
    · exact ⟨false,by simp only [hgone,Bool.false_eq_true],by rw [hall,closing,hend],hcache⟩

theorem streamWalk_inward {hd : Handler} {req : ChatRequest} {chain : List Candidate}
    {cb : ChainBudget} {v : Vars}
    {out : Except String (Except (List ChainFailure) (StreamReader × Candidate)) × Vars}
    (hwalk : (hd.runChain cb (streamAttempt req.toProviderRequest) true 0 [] chain v).Returns tr
      out) : ∀ e ∈ tr,Inward e.op := by
  have hown : ∀ {cand : Candidate} (op : Op),AttemptOp cand op → (confined Inward).Step op := by
    intro cand op hop
    refine confined_step ⟨?_,by simp [hop.plain]⟩
    cases op <;> first | rfl | exact hop.elim
  have hsteps : ∀ op,WalkOp chain op → (confined Inward).Step op := by
    intro op hop
    refine confined_step ⟨?_,by simp [hop.plain]⟩
    cases op <;> first | rfl | exact hop.elim
  have hspend : ∀ op : Op,op.kind = .spend → (confined Inward).Step op := by
    intro op hop
    refine confined_step ⟨?_,by simp [hop]⟩
    cases op with
    | event x => cases x <;> cases hop
    | reply status body => cases body <;> cases hop
    | _ => rfl
  have hstream : ∀ prov req,(confined Inward).Step (.stream prov req) :=
    fun _ _ => confined_step ⟨rfl,by simp [Op.kind]⟩
  have hkept : Honours (confined Inward)
      (hd.runChain cb (streamAttempt req.toProviderRequest) true 0 [] chain) :=
    runChain_keeps hsteps hspend (fun _ => onHistory_modify _)
      (fun _ _ _ => streamAttempt_keeps hown (hstream _) _) hd cb true 0 []
  exact confined_run hkept hwalk

def lastFinish (chunks : List Chunk) : Option FinishReason :=
  ((chunks.map (·.finishReason)).filter fun f => f.text ≠ "").getLast?

theorem lastFinish_cons (c : Chunk) (cs : List Chunk) :
    lastFinish (c :: cs) =
      (lastFinish cs <|> if c.finishReason.text = "" then none else some c.finishReason) := by
  unfold lastFinish
  by_cases hc : c.finishReason.text = ""
  · rw [List.map_cons,List.filter_cons_of_neg (by simpa using hc),if_pos hc]
    simp
  · rw [List.map_cons,List.filter_cons_of_pos (by simpa using hc),List.getLast?_cons,if_neg hc]
    generalize (((cs.map (·.finishReason)).filter fun f => decide (f.text ≠ "")).getLast?) = last
    cases last <;> rfl

theorem foldl_receive_finish (s : Relay) (chunks : List Chunk) :
    (chunks.foldl Relay.receive s).finish = (lastFinish chunks).getD s.finish := by
  induction chunks generalizing s with
  | nil => rfl
  | cons c cs ih =>
    rw [List.foldl_cons,ih,lastFinish_cons]
    cases lastFinish cs with
    | some f => rfl
    | none => by_cases hc : c.finishReason.text = "" <;> simp [Relay.receive,hc]

theorem StreamReader.lastFinish_of_stop {stream : StreamReader}
    (hstop : stream.relay.finish = .stop) : lastFinish stream.chunks = some .stop := by
  rw [StreamReader.relay,foldl_receive_finish] at hstop
  cases hlast : lastFinish stream.chunks with
  | none =>
    rw [hlast] at hstop
    exact absurd hstop (by decide)
  | some f =>
    rw [hlast] at hstop
    exact congrArg some hstop

theorem StreamReader.relay_content (s : StreamReader) :
    s.relay.content = String.join (s.chunks.map (·.content)) := by
  apply String.toList_injective
  rw [StreamReader.relay,foldl_receive_content]
  simp [Relay.start,String.toList_join,List.flatMap_map]

theorem chatChunks_content (id : String) (created : Int) (model : String) (first : Bool)
    (cs : List Chunk) :
    (chatChunks id created model first cs).map (·.content) = cs.map (·.content) := by
  induction cs generalizing first with
  | nil => rfl
  | cons c cs ih =>
    rw [chatChunks,List.map_cons,ih]
    rfl

theorem chatChunks_role {id model : String} {created : Int} {first : Bool} {cs : List Chunk}
    {i : Nat} {c : ChatChunk} (h : (chatChunks id created model first cs)[i]? = some c) :
    c.role = if i = 0 ∧ first = true then "assistant" else "" := by
  induction cs generalizing first i with
  | nil => simp [chatChunks] at h
  | cons d cs ih =>
    cases i with
    | zero =>
      simp only [chatChunks,List.getElem?_cons_zero,Option.some.injEq] at h
      simp [← h,toChatChunk]
    | succ i =>
      simp only [chatChunks,List.getElem?_cons_succ] at h
      simpa using ih h

theorem join_visible (cs : List Chunk) :
    String.join ((cs.filter visible).map (·.content)) = String.join (cs.map (·.content)) := by
  induction cs with
  | nil => rfl
  | cons c cs ih =>
    cases hc : visible c with
    | true => simp [List.filter_cons_of_pos hc,ih]
    | false =>
      have hempty : c.content = "" := (not_not.1 (of_decide_eq_false hc)).1
      simp [List.filter_cons_of_neg,hc,ih,hempty]

/-- A served stream, relayed to a client that every event reaches: one event for
each visible chunk, the role in the first, and then what its ending calls for. An
entry is stored only after a clean end, with the text the client was shown. -/
theorem stream_shown {hd : Handler} {r : Inbound} {req : ChatRequest}
    {requested served : Candidate} {chain : List Candidate} {cb : ChainBudget}
    {consulted : Consulted} {stream : StreamReader} {v v₁ v' : Vars} {tr₁ tr₂ : History}
    {out : Except String Int} (hflusher : r.flusher = true)
    (hserved : (hd.runChain cb (streamAttempt req.toProviderRequest) true 0 [] chain v).Returns tr₁
      (.ok (.ok (stream,served)),v₁))
    (hrun : (hd.streamChatCompletions r req requested chain cb consulted v).Returns (tr₁ ++ tr₂)
      (out,v')) (hr : Reached (tr₁ ++ tr₂)) :
    ∃ created gone cs,(gone = true ↔ (⟨.ctxErr,true⟩ : Event Op Ans) ∈ tr₂) ∧
      cs = chatChunks (chatCompletionID r.requestID) created served.model true
        (stream.chunks.filter visible) ∧
      shown (tr₁ ++ tr₂) = cs.map .chunk ++ closing stream gone ∧
      String.join (cs.map (·.content)) = String.join (stream.chunks.map (·.content)) ∧
      (∀ i c,cs[i]? = some c → c.role = if i = 0 then "assistant" else "") ∧
      ∀ id fields ans,(⟨.cache (.hSet id fields),ans⟩ : Event Op Ans) ∈ tr₁ ++ tr₂ →
        stream.ending = .eof ∧ String.join (cs.map (·.content)) ≠ "" ∧
        lastFinish stream.chunks = some .stop ∧ ∃ e now,fields = Cache.putFields e now ∧
          e.response = String.join (cs.map (·.content)) := by
  have hwalk := streamWalk_inward hserved
  rw [Handler.streamChatCompletions,hflusher] at hrun
  have hrelay := hserved.rest hrun
  obtain ⟨created,gone,hgone,hshown,hstored⟩ :=
    relayStream_shown hrelay (hr.sub (List.subset_append_right _ _))
  have htext : String.join ((stream.written r served created).map (·.content)) =
      String.join (stream.chunks.map (·.content)) := by
    rw [StreamReader.written,chatChunks_content,join_visible]
  refine ⟨created,gone,stream.written r served created,hgone,rfl,?_,htext,?_,?_⟩
  · rw [shown_append,shown_of_none fun e he => (hwalk e he).1,hshown]
    rfl
  · intro i c hc
    simpa using chatChunks_role hc
  · intro id fields ans hm
    obtain hm | hm := List.mem_append.1 hm
    · exact absurd rfl (hwalk _ hm).2
    · obtain ⟨hend,hcacheable,e,now,hfields,hresponse,-⟩ := hstored _ _ hm
      obtain ⟨hne,hstop⟩ : stream.relay.content ≠ "" ∧ stream.relay.finish = .stop := by
        exact of_decide_eq_true hcacheable
      rw [htext,← StreamReader.relay_content]
      exact ⟨hend,hne,StreamReader.lastFinish_of_stop hstop,e,now,hfields,hresponse⟩

theorem openingWorld_reached {α : Type} (s : StreamReader) (p : Program α) :
    Reached (p.exec (answering (openingWorld s)) ()).1 := by
  intro x ans hm
  obtain ⟨_,heq⟩ := mem_exec hm
  exact eq_of_heq (Event.mk.inj heq).2

def helloStream : StreamReader :=
  ⟨[⟨"hel",⟨""⟩,none⟩,⟨"",⟨""⟩,none⟩,⟨"lo",.stop,some ⟨10,20⟩⟩],.eof⟩

def helloRequest : ChatRequest := ⟨"m2",[⟨"user","hi"⟩],none,0,true,[]⟩

def helloConsulted : Consulted :=
  some (⟨⟨fun _ _ => 0,fun _ _ => 0,fun _ _ => false⟩,Cache.newStore ⟨0,0⟩,⟨true,0⟩,true,
    ⟨60000000000,60000000000,[],id⟩⟩,⟨"f","hi","a","t",""⟩,⟨false,.none,none,0,[],0⟩)

def helloWalk : Action (Except (List ChainFailure) (StreamReader × Candidate)) :=
  plainHandler.runChain ⟨memberTeam,helloRequest,0⟩ (streamAttempt helloRequest.toProviderRequest)
    true 0 [] [dearModel]

def helloVars : Vars := ((helloWalk .zero).exec (answering (openingWorld helloStream)) ()).2.1.2

def helloRelay : Action Int :=
  relayStream (greeting true) helloRequest dearModel helloConsulted (helloStream,dearModel)

theorem helloWalk_opens : ((helloWalk .zero).exec (answering (openingWorld helloStream)) ()).2.1 =
    (.ok (.ok (helloStream,dearModel)),helloVars) := rfl

def puts : Op → Bool
  | .cache (.hSet _ _) => true
  | _ => false

theorem helloRelay_puts : ∃ id fields ans,(⟨.cache (.hSet id fields),ans⟩ : Event Op Ans) ∈
    ((helloRelay helloVars).exec (answering (openingWorld helloStream)) ()).1 := by
  have hany : ((helloRelay helloVars).exec (answering (openingWorld helloStream)) ()).1.any
      (puts ·.op) = true := by decide +kernel
  obtain ⟨⟨op,ans⟩,hm,hop⟩ := List.any_eq_true.1 hany
  cases op with
  | cache c =>
    cases c with
    | hSet id fields => exact ⟨id,fields,ans,hm⟩
    | _ => cases hop
  | _ => cases hop

/-- Two of three chunks are written, and the text is put into the cache. -/
theorem stream_shown_hello :
    ∃ tr,∃ cs : List ChatChunk,∃ out v',
      (plainHandler.streamChatCompletions (greeting true) helloRequest dearModel [dearModel]
        ⟨memberTeam,helloRequest,0⟩ helloConsulted .zero).Returns tr (out,v') ∧
      shown tr = cs.map .chunk ++ [.event .done] ∧ cs.length = 2 ∧
      String.join (cs.map (·.content)) = "hello" ∧
      ∃ id fields ans e now,(⟨.cache (.hSet id fields),ans⟩ : Event Op Ans) ∈ tr ∧
        fields = Cache.putFields e now ∧ e.response = "hello" := by
  have hwalk := returns_exec (answering (openingWorld helloStream)) (helloWalk .zero) ()
  rw [helloWalk_opens] at hwalk
  have hrelay := returns_exec (answering (openingWorld helloStream)) (helloRelay helloVars) ()
  have hrun : (plainHandler.streamChatCompletions (greeting true) helloRequest dearModel [dearModel]
      ⟨memberTeam,helloRequest,0⟩ helloConsulted .zero).Returns _ _ :=
    returns_bind.2 ⟨_,_,_,rfl,hwalk,hrelay⟩
  obtain ⟨created,gone,cs,-,hcs,hshown,htext,-,hstored⟩ := stream_shown rfl hwalk hrun
    fun x ans hm => (List.mem_append.1 hm).elim (openingWorld_reached _ _ x ans)
      (openingWorld_reached _ _ x ans)
  obtain ⟨id,fields,ans,hm⟩ := helloRelay_puts
  have hhello : String.join (cs.map (·.content)) = "hello" := htext.trans (by decide)
  obtain ⟨-,-,-,e,now,hfields,hresponse⟩ := hstored id fields ans (List.mem_append_right _ hm)
  exact ⟨_,cs,_,_,hrun,hshown,by rw [hcs]; rfl,hhello,id,fields,ans,e,now,
    List.mem_append_right _ hm,hfields,hresponse.trans hhello⟩

end Switchyard.Proxy
