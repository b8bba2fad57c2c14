import Switchyard.RecordedCost
set_option autoImplicit false

/-!
What a streamed request is charged and settled with, at whatever point the stream
or the client stops (`streamChatCompletions`).
-/

namespace Switchyard.Proxy
open MachineInt GoText CallTree Act Provider Resilience

def chunkWrite : Event Op Ans → Option Bool
  | ⟨.event (.chunk _),ok⟩ => some ok
  | _ => none

def writes (h : History) : List Bool := h.filterMap chunkWrite

/-- The chunks taken off the stream: after a write that fails no more are. A chunk
without content and finish reason is not written. -/
def received : List Chunk → List Bool → List Chunk
  | [],_ => []
  | c :: cs,ws =>
    if c.content = "" ∧ c.finishReason.text = "" then c :: received cs ws
    else
      match ws with
      | true :: ws => c :: received cs ws
      | _ => [c]

def lastUsage (chunks : List Chunk) : Option Usage := (chunks.filterMap Chunk.usage).getLast?

def usageOf (chunks : List Chunk) : Usage := (lastUsage chunks).getD ⟨0,0⟩

theorem foldl_receive_lastUsage (chunks : List Chunk) (s : Relay) :
    (chunks.foldl Relay.receive s).usage = (lastUsage chunks).getD s.usage := by
  induction chunks generalizing s with
  | nil => rfl
  | cons c cs ih =>
    rw [List.foldl_cons,ih]
    cases hc : c.usage with
    | none => simp [lastUsage,Relay.receive,hc]
    | some u =>
      cases hl : (cs.filterMap Chunk.usage).getLast? with
      | none => simp [lastUsage,Relay.receive,hc,hl,List.getLast?_cons]
      | some w => simp [lastUsage,hc,hl,List.getLast?_cons]

theorem usage_of_received (chunks : List Chunk) :
    (chunks.foldl Relay.receive .start).usage = usageOf chunks :=
  foldl_receive_lastUsage chunks .start

theorem writes_append (g h : History) : writes (g ++ h) = writes g ++ writes h :=
  List.filterMap_append

theorem relayChunks_received {id model : String} {created : Int} {s s' : Relay}
    {chunks : List Chunk} {tr : History} {written : Bool}
    (hret : (relayChunks id created model s chunks).Returns tr (s',written)) :
    (∃ sent,s' = { (received chunks (writes tr)).foldl Relay.receive s with sentAny := sent }) ∧
      (written = true ↔ false ∉ writes tr) := by
  induction chunks generalizing s tr with
  | nil =>
    obtain ⟨rfl,heq⟩ := returns_pure.1 hret
    obtain ⟨rfl,rfl⟩ := Prod.mk.inj heq
    exact ⟨⟨s.sentAny,rfl⟩,by simp [writes]⟩
  | cons c cs ih =>
    unfold relayChunks at hret
    simp only [] at hret
    split at hret
    · rename_i hquiet
      simp only [received,if_pos hquiet,List.foldl_cons]
      exact ih hret
    · rename_i hloud
      obtain ⟨ok,tr₂,rfl,hrest⟩ := returns_perform_bind.1 hret
      have hws : writes ([⟨.event (.chunk (toChatChunk id created model c
          (!(s.receive c).sentAny))),ok⟩] ++ tr₂) = ok :: writes tr₂ := rfl
      rw [hws]
      simp only [received,if_neg hloud]
      cases ok with
      | true =>
        obtain ⟨⟨sent,rfl⟩,hw⟩ := ih hrest
        refine ⟨⟨sent,?_⟩,by simpa using hw⟩
        rw [List.foldl_cons,foldl_receive_sent]
      | false =>
        obtain ⟨rfl,heq⟩ := returns_pure.1 hrest
        obtain ⟨rfl,rfl⟩ := Prod.mk.inj heq
        exact ⟨⟨(s.receive c).sentAny,rfl⟩,by simp⟩

/-- The stream was served to its end: the provider ended it and every chunk was
written. -/
def RanOut (s : StreamReader) (ws : List Bool) : Prop := s.ending = .eof ∧ false ∉ ws

instance (s : StreamReader) (ws : List Bool) : Decidable (RanOut s ws) :=
  inferInstanceAs (Decidable (_ ∧ _))

def Paid (m : String) (paid : Option Usage) (h : History) (v : Vars) : Prop :=
  match paid with
  | none => v.metrics.costMicros = 0
  | some u => ∃ quote,⟨.cost m u.inputTokens u.outputTokens,quote⟩ ∈ h ∧
      v.metrics.costMicros = charged quote

variable {m : String}

variable {h : History}

variable {v : Vars}

theorem Paid.append {paid : Option Usage}
    (hp : Paid m paid h v) (tr : History) : Paid m paid (h ++ tr) v := by
  cases paid with
  | none => exact hp
  | some u =>
    obtain ⟨quote,hm,hq⟩ := hp
    exact ⟨quote,List.mem_append_left tr hm,hq⟩

theorem Paid.of_cost {paid : Option Usage} {w : Vars}
    (hp : Paid m paid h v) (hw : w.metrics.costMicros = v.metrics.costMicros) :
    Paid m paid h w := by
  cases paid with
  | none => exact hw.trans hp
  | some u =>
    obtain ⟨quote,hm,hq⟩ := hp
    exact ⟨quote,hm,hw.trans hq⟩

/-- After a stream of model m, with the answers ws to its writes: its usage is
charged if it ran out, and nothing otherwise; n is the token count of what was
received. -/
structure StreamAccount (req : ChatRequest) (m : String) (s : StreamReader) (ws : List Bool)
    (h : History) (v : Vars) (n : Int) : Prop where
  paid : Paid m (if RanOut s ws then some (usageOf (received s.chunks ws)) else none) h v
  tokens : n = ((received s.chunks ws).foldl Relay.receive .start).actualTokens req

/-- One stream was opened in h, for a model that was quoted; ws are the answers to
the writes since. -/
structure Opened (m : String) (s : StreamReader) (ws : List Bool) (h : History) : Prop where
  split : ∃ a p req b,h = a ++ ⟨.stream p req,.opened s⟩ :: b ∧ req.model = m ∧ Unanswered a ∧
    (∀ e ∈ b,delivers e = false) ∧ writes b = ws
  quoted : Quoted m h

variable {s : StreamReader}

theorem Opened.append {ws : List Bool}
    (ho : Opened m s ws h) (tr : History) (htr : ∀ e ∈ tr,delivers e = false) :
    Opened m s (ws ++ writes tr) (h ++ tr) := by
  obtain ⟨⟨a,p,req,b,rfl,hm,ha,hb,hws⟩,hq⟩ := ho
  refine ⟨⟨a,p,req,b ++ tr,by simp,hm,ha,fun e he => ?_,by rw [writes_append,hws]⟩,hq.append tr⟩
  obtain he | he := List.mem_append.1 he
  · exact hb e he
  · exact htr e he

theorem split_unique {α : Type} {p : α → Bool} {a b a' b' : List α} {e e' : α}
    (h : a ++ e :: b = a' ++ e' :: b') (ha : ∀ x ∈ a,p x = false) (hb : ∀ x ∈ b,p x = false)
    (he : p e' = true) : a = a' ∧ e = e' ∧ b = b' := by
  induction a generalizing a' with
  | nil =>
    cases a' with
    | nil =>
      obtain ⟨rfl,rfl⟩ := List.cons.inj h
      exact ⟨rfl,rfl,rfl⟩
    | cons x a' =>
      obtain ⟨rfl,rfl⟩ := List.cons.inj h
      have hx := hb e' (by simp)
      rw [he] at hx
      cases hx
  | cons y a ih =>
    cases a' with
    | nil =>
      obtain ⟨rfl,-⟩ := List.cons.inj h
      have hy := ha y (by simp)
      rw [he] at hy
      cases hy
    | cons x a' =>
      obtain ⟨rfl,hrest⟩ := List.cons.inj h
      obtain ⟨rfl,rfl,rfl⟩ := ih hrest fun z hz => ha z (by simp [hz])
      exact ⟨rfl,rfl,rfl⟩

theorem Opened.found {s' : StreamReader} {ws : List Bool} {a b : History} {p : Adapter}
    {req : Request} (ho : Opened m s ws h) (hh : h = a ++ ⟨.stream p req,.opened s'⟩ :: b) :
    req.model = m ∧ s' = s ∧ writes b = ws := by
  obtain ⟨⟨a₀,p₀,req₀,b₀,heq,hm,ha,hb,hws⟩,-⟩ := ho
  obtain ⟨-,he,rfl⟩ := split_unique (heq.symm.trans hh) (fun x hx => (ha x hx).1) hb rfl
  obtain ⟨hop,hans⟩ := Event.mk.inj he
  obtain ⟨rfl,rfl⟩ := Op.stream.inj hop
  exact ⟨hm,(Connection.opened.inj (eq_of_heq hans)).symm,hws⟩

def streaming (m : String) (s : StreamReader) (ws : List Bool) (paid : Option Usage) :
    Contract Op Ans Vars :=
  .keeping (fun _ _ => True) fun h v => Opened m s ws h ∧ Paid m paid h v

theorem chunkWrite_of_kind {op : Op} (hop : op.kind ≠ .output) (ans : Ans op) :
    chunkWrite ⟨op,ans⟩ = none := by
  cases op with
  | event e =>
    cases e with
    | chunk c => exact absurd rfl hop
    | _ => rfl
  | _ => rfl

variable {r : Inbound}

section Streaming
variable {m : String} {s : StreamReader} {ws : List Bool} {paid : Option Usage}

theorem streaming_step {op : Op} (hup : op.kind ≠ .upstream)
    (hquiet : ∀ ans,chunkWrite ⟨op,ans⟩ = none) : (streaming m s ws paid).Step op := by
  intro h v hi
  refine ⟨trivial,fun ans => ⟨⟨?_,hi.2.append _⟩,trivial⟩⟩
  have ho := hi.1.append [⟨op,ans⟩] (by simp [delivers_of_kind hup ans])
  simpa [writes,hquiet ans] using ho

theorem streaming_of_kind {op : Op} (hup : op.kind ≠ .upstream) (hout : op.kind ≠ .output) :
    (streaming m s ws paid).Step op := streaming_step hup (chunkWrite_of_kind hout)

theorem streaming_plain (op : Op) (hop : op.kind = .plain) : (streaming m s ws paid).Step op :=
  streaming_of_kind (by simp [hop]) (by simp [hop])

theorem streaming_metrics (f : Metrics → Metrics) (hf : ∀ m,(f m).costMicros = m.costMicros) :
    Honours (streaming m s ws paid) (setMetrics f) :=
  honours_modify fun _ v hi => ⟨⟨hi.1,hi.2.of_cost (hf v.metrics)⟩,trivial⟩

theorem streamDone_pays {served : Candidate} {consulted : Consulted} {t : Relay} {h : History}
    (hmodel : served.model = m) (hi : (streaming m s ws none).inv h v) :
    Spec (fun _ _ => True) (streamDone r served consulted t)
      (fun h' _ v' => (streaming m s ws (some t.usage)).inv h' v') v h := by
  unfold streamDone
  rw [hmodel]
  refine spec_call_bind.2 ⟨trivial,fun ans => spec_modify_bind.2 ?_⟩
  have hi₁ := ((streaming_plain (.recordHealth served.provider none) rfl h v hi).2 ans).1
  refine Spec.bind (recordCost_charges (C := streaming m s ws (some t.usage)) streaming_plain
    streaming_metrics trivial (fun quote => ?_) (by exact hi₁.2)) (fun h₁ _ v₁ hq => ?_)
    fun h₁ p v₁ hq => hq
  · have hquote :=
      (streaming_plain (.cost m t.usage.inputTokens t.usage.outputTokens) rfl _ v hi₁).2
    exact ⟨(hquote quote).1.1,quote,by simp,rfl⟩
  · refine Spec.mono (((honours_call (streaming_step (by simp [Op.kind]) fun _ => rfl)).bind
      fun written => ?_) v₁ h₁ hq) fun _ _ _ hq => hq.1
    split
    · exact honours_lift (storeConsulted_calls streaming_plain
        (fun op hop => streaming_of_kind (by simp [hop]) (by simp [hop])) _ _ _)
    · exact honours_pure _

theorem relayChunks_opened {id : String} {created : Int} {h : History}
    (hi : (streaming m s [] none).inv h v) :
    Spec (fun _ _ => True) (Act.lift (relayChunks id created m .start s.chunks))
      (fun h' x v' => ∃ ws t written,x = .ok (t,written) ∧ (streaming m s ws none).inv h' v' ∧
        (∃ sent,t = { (received s.chunks ws).foldl Relay.receive .start with sentAny := sent }) ∧
        (written = true ↔ false ∉ ws)) v h := by
  refine spec_lift.2 (spec_of_calls (P := fun op => op.kind = .output) (relayChunks_calls
    (fun _ _ _ => rfl) _) (fun _ _ _ => trivial) fun tr a htr hret => ?_)
  obtain ⟨t,written⟩ := a
  refine ⟨writes tr,t,written,rfl,⟨?_,hi.2⟩,relayChunks_received hret⟩
  refine hi.1.append tr fun e he => delivers_of_kind ?_ e.ans
  simp [htr e he]

end Streaming

theorem recordCost_calm (model : String) (usage : Usage) : Calm (recordCost model usage) := by
  have hset : ∀ f : Metrics → Metrics,Calm (setMetrics f) := fun f => calm_modify _
  have hsavings : Calm (recordRoutingSavings usage) := by
    refine calm_get.bind fun v => ?_
    split
    · exact calm_pure _
    refine (calm_call _).bind fun baseline => ?_
    cases baseline with
    | error e => exact calm_pure _
    | ok baseline => exact hset _
  have hdelta : ∀ cost,Calm (recordFallbackDelta model usage cost) := by
    intro cost
    refine calm_get.bind fun v => ?_
    simp only []
    split
    · refine (calm_call _).bind fun want => ?_
      cases want with
      | error e => exact calm_pure _
      | ok want => exact hset _
    · exact calm_pure _
  refine (calm_call _).bind fun quote => ?_
  cases quote with
  | error e => exact calm_pure _
  | ok cost => exact (calm_modify _).bind fun _ => hsavings.bind fun _ => hdelta cost

theorem streamDone_calm (r : Inbound) (served : Candidate) (consulted : Consulted) (s : Relay) :
    Calm (streamDone r served consulted s) := by
  refine (calm_call _).bind fun _ => (calm_modify _).bind fun _ =>
    (recordCost_calm _ _).bind fun _ => (calm_call _).bind fun written => ?_
  split
  · exact calm_lift _
  · exact calm_pure _

/-- How a request on an open stream ends: with its account, unless reading the
stream panicked. -/
def Relayed (req : ChatRequest) (m : String) (s : StreamReader) (h : History)
    (x : Except String Int) (v : Vars) : Prop :=
  ∃ ws,Opened m s ws h ∧
    match x with
    | .error _ => ∃ p,s.ending = .panicked p
    | .ok n => StreamAccount req m s ws h v n

theorem relayStream_accounts {req : ChatRequest} {requested : Candidate} {consulted : Consulted}
    {answer : StreamReader × Candidate} (hi : (streaming answer.2.model answer.1 [] none).inv h v) :
    Spec (fun _ _ => True) (relayStream r req requested consulted answer)
      (Relayed req answer.2.model answer.1) v h := by
  obtain ⟨s,served⟩ := answer
  refine spec_modify_bind.2 ?_
  have hi₁ := ((streaming_metrics (fun m : Metrics => { m with
    providerName := served.provider
    servedModel := served.model
    fellBack := served ≠ requested }) (fun _ => rfl)) v h hi).1
  refine (spec_lift_of_calls (streamHeaders_calls streaming_plain) hi₁).bind ?_
    (by rintro h₂ p v₂ ⟨-,-,tr,a,-,ha,-⟩; cases ha)
  rintro h₂ u v₂ ⟨rfl,⟨hi₂,-⟩,-⟩
  refine spec_call_bind.2 ⟨trivial,fun now => ?_⟩
  have hi₃ := ((streaming_plain .now rfl h₂ _ hi₂).2 now).1
  refine (relayChunks_opened hi₃).bind ?_ ?_
  · rintro h₄ _ v₄ ⟨ws,t,written,hx,hi₄,⟨sent,rfl⟩,hw⟩
    obtain rfl := Except.ok.inj hx
    cases written with
    | false =>
      have hcut : ¬RanOut s ws := fun hr => by simp [hr.2] at hw
      exact ⟨ws,hi₄.1,by simpa [hcut] using hi₄.2,rfl⟩
    | true =>
      simp only [Bool.not_true,Bool.false_eq_true,if_false]
      split
      · rename_i p hp
        exact ⟨ws,hi₄.1,p,hp⟩
      · rename_i f hf
        have hcut : ¬RanOut s ws := by
          rintro ⟨hend,-⟩
          rw [hf] at hend
          cases hend
        refine (spec_lift_of_calls (streamBroken_calls streaming_plain _ _ _) hi₄).bind ?_
          (by rintro h₅ p v₅ ⟨-,-,tr,a,-,ha,-⟩; cases ha)
        rintro h₅ u v₅ ⟨rfl,⟨hi₅,-⟩,-⟩
        exact ⟨ws,hi₅.1,by simpa [hcut] using hi₅.2,rfl⟩
      · rename_i heof
        have hran : RanOut s ws := ⟨heof,hw.1 rfl⟩
        refine ((streamDone_pays rfl hi₄).and (streamDone_calm r served consulted _ _ _)).bind ?_
          (by rintro h₅ p v₅ ⟨-,a,ha⟩; cases ha)
        rintro h₅ u v₅ ⟨hi₅,-⟩
        refine ⟨ws,hi₅.1,?_,rfl⟩
        rw [if_pos hran,← usage_of_received]
        exact hi₅.2
  · rintro h₄ p v₄ ⟨ws,t,written,hx,-⟩
    cases hx

def Unopened (h : History) : Prop := ∀ p req s,⟨.stream p req,.opened s⟩ ∉ h

theorem Unanswered.unopened (hi : Unanswered h) : Unopened h := by
  intro p req s hm
  have hdel := (hi _ hm).1
  cases hdel

/-- The stream of the walk's answer is the first one, and nothing was written. -/
def StreamOpened (answer : StreamReader × Candidate) (h : History) : Prop :=
  Opened answer.2.model answer.1 [] h

theorem StreamOpened.append (answer : StreamReader × Candidate) (h : History) (e : Event Op Ans)
    (he : e.op.kind = .plain) (ho : StreamOpened answer h) : StreamOpened answer (h ++ [e]) := by
  have hup : e.op.kind ≠ .upstream := by simp [he]
  have hout : e.op.kind ≠ .output := by simp [he]
  have hnext := Opened.append ho [e] (by simp [delivers_of_kind hup e.ans])
  simpa [writes,chunkWrite_of_kind hout e.ans,StreamOpened] using hnext

theorem streamAttempt_opens (model : String) (baseReq : Request) (cand : Candidate)
    (prov : Adapter) :
    Until ((telling model fun a => StreamOpened (a,cand)).assume (Quoted cand.model))
      Except.toOption (streamAttempt baseReq prov cand) := by
  refine streamAttempt_seeks model baseReq cand prov fun s h hun hquoted => ?_
  exact ⟨⟨h,prov,_,[],rfl,rfl,hun,by simp,rfl⟩,hquoted.append _⟩

/-- A request ends with its stream's account, if it opened one. -/
def StreamKept (r : Inbound) (h : History) (v : Vars) : Prop :=
  ∀ a p req s b,h = a ++ ⟨.stream p req,.opened s⟩ :: b → (∀ q,s.ending ≠ .panicked q) →
    ∃ body,r.body = .ok body ∧ Quoted req.model h ∧
      StreamAccount body req.model s (writes b) h v v.actual

theorem Unopened.kept (hi : Unopened h) : StreamKept r h v := by
  rintro a p req s b rfl
  exact absurd (by simp) (hi p req s)

theorem StreamKept.append (hk : StreamKept r h v)
    {e : Event Op Ans} (hup : e.op.kind ≠ .upstream) (hout : e.op.kind ≠ .output) :
    StreamKept r (h ++ [e]) v := by
  intro a p req s b hsplit hend
  obtain ⟨b',rfl⟩ : ∃ b',b = b' ++ [e] := by
    obtain rfl | ⟨b',x,rfl⟩ := b.eq_nil_or_concat
    · have hlast := (List.append_inj' hsplit rfl).2
      obtain rfl := (List.cons.inj hlast).1
      exact absurd rfl hup
    · have heq : h ++ [e] = (a ++ ⟨.stream p req,.opened s⟩ :: b') ++ [x] := by simpa using hsplit
      obtain rfl := (List.cons.inj (List.append_inj' heq rfl).2).1
      exact ⟨b',by simp⟩
  have hh : h = a ++ ⟨.stream p req,.opened s⟩ :: b' := by
    have heq : h ++ [e] = (a ++ ⟨.stream p req,.opened s⟩ :: b') ++ [e] := by simpa using hsplit
    exact List.append_cancel_right heq
  obtain ⟨body,hbody,hquoted,hpaid,htokens⟩ := hk a p req s b' hh hend
  have hws : writes (b' ++ [e]) = writes b' := by
    simp [writes,chunkWrite_of_kind hout e.ans]
  rw [hws]
  exact ⟨body,hbody,hquoted.append _,hpaid.append _,htokens⟩

def unopened : Contract Op Ans Vars := .onHistory Vars (fun _ _ => True) Unopened

theorem unopened_step {op : Op} (hop : op.streams = false) : unopened.Step op := by
  refine onHistory_step fun h hi => ⟨trivial,fun ans p req s hm => ?_⟩
  obtain hm | hm := List.mem_append.1 hm
  · exact hi p req s hm
  · obtain rfl : Op.stream p req = op := (Event.mk.inj (List.mem_singleton.1 hm)).1
    cases hop

theorem unopened_of_kind {op : Op} (hop : op.kind ≠ .upstream) : unopened.Step op := by
  refine unopened_step ?_
  cases op with
  | stream p req => exact absurd rfl hop
  | _ => rfl

theorem unopened_plain (op : Op) (hop : op.kind = .plain) : unopened.Step op :=
  unopened_of_kind (by simp [hop])

theorem completeChat_unopened (hd : Handler) (r : Inbound) (req : ChatRequest)
    (requested : Candidate) (chain : List Candidate) (cb : ChainBudget) (consulted : Consulted) :
    Honours unopened (hd.completeChat r req requested chain cb consulted) := by
  have hmetrics : ∀ f : Metrics → Metrics,(∀ m,(f m).costMicros = m.costMicros) →
      Honours unopened (setMetrics f) := fun f _ => onHistory_modify _
  refine (runChain_keeps (fun op hop => unopened_plain op hop.plain)
    (fun op hop => unopened_of_kind (by simp [hop])) (fun t => onHistory_modify _)
    (fun cand _ prov => completeAttempt_keeps (fun op hop => unopened_plain op hop.plain)
      (fun _ => unopened_step rfl) _) hd cb true 0 []).bind fun result => ?_
  cases result with
  | error failures => exact chainFailed_honours unopened_plain hmetrics req failures
  | ok answer =>
    refine finishChat_honours unopened_plain hmetrics
      (recordCost_honours (fun _ _ _ => unopened_plain _ rfl) hmetrics
      fun _ _ _ _ _ _ hi _ => ⟨hi,trivial⟩) (fun n _ => onHistory_modify _)
      (fun op hop => unopened_of_kind (by simp [hop.kind])) ?_ requested
    exact honours_lift (storeConsulted_calls unopened_plain
      (fun op hop => unopened_of_kind (by simp [hop])) r consulted answer.1)

theorem Relayed.kept {req body : ChatRequest} {x : Except String Int} (hr : Relayed req m s h x v)
    (hbody : r.body = .ok body) (hreq : req = { body with model := req.model }) :
    StreamKept r h (v.delivered x) := by
  intro a p rq s' b hsplit hend
  obtain ⟨ws,ho,hacc⟩ := hr
  obtain ⟨rfl,rfl,rfl⟩ := ho.found hsplit
  cases x with
  | error q => exact absurd hacc.choose_spec (hend _)
  | ok n =>
    refine ⟨body,hbody,ho.quoted,hacc.paid,?_⟩
    rw [hreq] at hacc
    exact hacc.tokens

theorem chatCompletions_accounts (hd : Handler) (r : Inbound) :
    Spec (fun _ _ => True) (hd.chatCompletions r) (fun h _ v => StreamKept r h v) .zero [] := by
  refine chatCompletions_charged (fun hi => hi.1.unopened.kept) (fun hk => hk.append)
    (fun stream e v h hi => ?_) fun req requested chain consulted hasked base => ⟨?_,?_⟩
  · exact (serveHit_honours unopened_plain (fun f _ => onHistory_modify _)
      (fun op hop => unopened_of_kind (by simp [hop.kind])) stream r v h hi.1.unopened).mono
      fun _ _ _ hq => hq.1.kept
  · obtain ⟨body,hbody,hreq⟩ := hasked
    exact streamChatCompletions_leads (fun _ _ _ hi => hi.1.unopened.kept) StreamOpened.append
      (streamAttempt_opens req.model req.toProviderRequest) fun answer v h ho hv =>
        (relayStream_accounts ⟨ho,hv⟩).mono fun _ _ _ hq => hq.kept hbody hreq
  · exact fun v h hi => (completeChat_unopened hd r req requested chain _ consulted v h
      hi.1.unopened).mono fun _ _ _ hq => hq.1.kept

/-- Of any content at least one token is estimated. -/
theorem actualTokens_estimated {t : Relay} {body : ChatRequest}
    (hbody : body.leastBody ≤ maxRequestBytes) (hlong : (bytes t.content).length < 2^62)
    (hzero : add t.usage.inputTokens t.usage.outputTokens = 0)
    (hcontent : t.content ≠ "") : t.actualTokens body ≠ 0 := by
  have hlength : 0 < (bytes t.content).length := by
    refine Nat.pos_of_ne_zero fun hnone => hcontent (bytes_inj ?_)
    exact List.length_eq_zero_iff.1 hnone
  have hprompt := exactInputTokens_nonneg body
  have hle := exactInputTokens_le body hbody
  rw [Relay.actualTokens,if_pos ⟨hzero,hlength⟩,estimateInputTokens_eq body hbody]
  rw [contentTokens_eq (by omega),add_eq (by unfold InRange; omega)]
  omega

/-- A streamed request whose tracker calls Redis answered, stopped anywhere, with u
the last usage the provider reported: the recorded cost and the counter's change
are the cost of u exactly when that is not negative and the stream ran out or costs
nothing. The bucket is settled with the total of u exactly when that is not zero or
there is no content. -/
theorem stream_charged_iff (hd : Handler) (r : Inbound) (calculator : Budget.Calculator)
    {tr before after : History} {x : Except String Unit} {v : Vars} {ds : List Int} {p : Adapter}
    {req : Request} {s : StreamReader} {u : Usage}
    (hrun : (hd.chatCompletions r .zero).Returns tr (x,v)) (hacc : List.Forall₂ Accounted tr ds)
    (hprices : PricedBy calculator tr) (hredis : ∀ e ∈ tr,redisFailed e = false)
    (hopened : tr = before ++ ⟨.stream p req,.opened s⟩ :: after)
    (hend : ∀ q,s.ending ≠ .panicked q)
    (hu : lastUsage (received s.chunks (writes after)) = some u) :
    let total := add u.inputTokens u.outputTokens
    let content := ((received s.chunks (writes after)).foldl Relay.receive .start).content
    ∃ c,calculator.cost req.model u.inputTokens u.outputTokens = .ok c ∧
      ((v.metrics.costMicros = c ∧ ds.sum = c) ↔ 0 ≤ c ∧ (RanOut s (writes after) ∨ c = 0)) ∧
      (total ≠ 0 ∨ content = "" → v.actual = total) ∧
      ((∀ body,r.body = .ok body → body.leastBody ≤ maxRequestBytes) →
        (bytes content).length < 2^62 → v.actual = total → total ≠ 0 ∨ content = "") ∧
      ((∀ e ∈ tr,failed e = false) → (tr.map sentTokens).sum = v.actual) := by
  obtain ⟨body,hbody,hquoted,hpaid,htokens⟩ :=
    (chatCompletions_accounts hd r).returns hrun before p req s after (by simpa using hopened) hend
  rw [List.nil_append] at hquoted hpaid
  have husage : usageOf (received s.chunks (writes after)) = u := by rw [usageOf,hu]; rfl
  have hreceived := (usage_of_received (received s.chunks (writes after))).trans husage
  obtain ⟨c,hc⟩ := cost_of_quoted hprices hquoted u.inputTokens u.outputTokens
  refine ⟨c,hc,?_,fun hknown => ?_,fun hsmall hlong hsettled => ?_,
    fun hok => (accounts_settle hd r hrun hacc hok).2.1⟩
  · have hspend := run_spend hrun hacc hredis
    by_cases hran : RanOut s (writes after)
    · rw [if_pos hran,husage] at hpaid
      obtain ⟨quote,hm,hv⟩ := hpaid
      rw [hprices _ _ _ _ hm,hc] at hv
      replace hv : v.metrics.costMicros = c := hv
      simp only [hran,true_or,and_true]
      omega
    · rw [if_neg hran] at hpaid
      replace hpaid : v.metrics.costMicros = 0 := hpaid
      simp only [hran,false_or]
      omega
  · rw [htokens,Relay.actualTokens,hreceived]
    obtain hne | hempty := hknown
    · exact if_neg fun h => hne h.1
    · refine if_neg fun h => ?_
      simp [hempty,bytes] at h
  · by_contra hnot
    obtain ⟨hzero,hcontent⟩ := not_or.1 hnot
    rw [not_not] at hzero
    rw [htokens] at hsettled
    exact actualTokens_estimated (hsmall body hbody) hlong (hreceived ▸ hzero) hcontent
      (hsettled.trans hzero)

def openingWorld (s : StreamReader) : (op : Op) → Ans op
  | .stream _ _ => .opened s
  | op => fallbackWorld id op

def openedRun (s : StreamReader) : History × (Except String Unit × Vars) × Unit :=
  (plainHandler.chatCompletions (greeting true) .zero).exec (answering (openingWorld s)) ()

theorem openedRun_returns (s : StreamReader) :
    (plainHandler.chatCompletions (greeting true) .zero).Returns (openedRun s).1
      ((openedRun s).2.1.1,(openedRun s).2.1.2) := by
  rw [Prod.mk.eta]
  exact returns_exec _ _ ()

theorem openedRun_event {e : Event Op Ans} (he : e ∈ (openedRun s).1) :
    e = ⟨e.op,openingWorld s e.op⟩ := by
  obtain ⟨_,heq⟩ := mem_exec he
  exact heq

theorem openedRun_accounted (s : StreamReader) :
    ∃ ds,List.Forall₂ Accounted (openedRun s).1 ds := by
  refine forall₂_of_forall fun e he => ?_
  rw [openedRun_event he]
  cases e.op with
  | stream p req => exact ⟨0,rfl⟩
  | _ => exact fallbackWorld_accounted id _

theorem openedRun_priced (s : StreamReader) : PricedBy twoPrices (openedRun s).1 :=
  fun _ _ _ _ hm => eq_of_heq (Event.mk.inj (openedRun_event hm)).2

def afterStream (h : History) : History := (h.dropWhile fun e => !e.op.streams).tail

def streamedModel (h : History) : Option String :=
  (h.dropWhile fun e => !e.op.streams).head?.bind fun e => match e.op with
    | .stream _ req => some req.model
    | _ => none

theorem openedRun_split (hm : streamedModel (openedRun s).1 = some m) :
    ∃ before p req,req.model = m ∧
      (openedRun s).1 = before ++ ⟨.stream p req,.opened s⟩ :: afterStream (openedRun s).1 := by
  unfold streamedModel at hm
  cases hd : (openedRun s).1.dropWhile fun e => !e.op.streams with
  | nil => simp [hd] at hm
  | cons e b =>
    have hsplit : (openedRun s).1 =
        ((openedRun s).1.takeWhile fun e => !e.op.streams) ++ e :: b := by
      rw [← hd]
      exact List.takeWhile_append_dropWhile.symm
    have he : e = ⟨e.op,openingWorld s e.op⟩ := openedRun_event (by rw [hsplit]; simp)
    obtain ⟨op,ans⟩ := e
    cases op with
    | stream p req =>
      obtain rfl : ans = .opened s := eq_of_heq (Event.mk.inj he).2
      refine ⟨(openedRun s).1.takeWhile fun e => !e.op.streams,p,req,by simpa [hd] using hm,?_⟩
      rw [afterStream,hd]
      exact hsplit
    | _ => simp [hd] at hm

def greetingStream (ending : StreamEnd) : StreamReader :=
  ⟨[⟨"hel",⟨""⟩,none⟩,⟨"lo",.stop,some ⟨10,20⟩⟩],ending⟩

theorem openedRun_redis (ending : StreamEnd)
    (h : (openedRun (greetingStream ending)).1.all (fun e => !redisFailed e) = true) :
    ∀ e ∈ (openedRun (greetingStream ending)).1,redisFailed e = false :=
  fun e he => by simpa using List.all_eq_true.1 h e he

theorem stream_charged_to_end :
    ∃ tr x v ds,(plainHandler.chatCompletions (greeting true) .zero).Returns tr (x,v) ∧
      List.Forall₂ Accounted tr ds ∧ v.metrics.costMicros = 30 ∧ ds.sum = 30 ∧ v.actual = 30 := by
  have hrun := openedRun_returns (greetingStream .eof)
  obtain ⟨ds,hds⟩ := openedRun_accounted (greetingStream .eof)
  obtain ⟨before,p,req,hm,hsplit⟩ := openedRun_split (s := greetingStream .eof) (m := "m1")
    (by decide +kernel)
  obtain ⟨c,hc,hiff,htokens,-,-⟩ := stream_charged_iff plainHandler (greeting true) twoPrices
    (u := ⟨10,20⟩) hrun hds (openedRun_priced _) (openedRun_redis .eof (by decide +kernel)) hsplit
    (by simp [greetingStream]) (by decide +kernel)
  have hcost : twoPrices.cost "m1" 10 20 = .ok 30 := by decide +kernel
  rw [hm] at hc
  obtain rfl := Except.ok.inj (hcost.symm.trans hc)
  obtain ⟨hv,hsum⟩ := hiff.2 ⟨by decide,.inl (by decide +kernel)⟩
  exact ⟨_,_,_,ds,hrun,hds,hv,hsum,htokens (.inl (by decide))⟩

/-- The provider reports the usage and then breaks off: its tokens are settled, but
nothing is charged. -/
theorem broken_stream_not_charged :
    ∃ tr x v ds before p req s after,
      (plainHandler.chatCompletions (greeting true) .zero).Returns tr (x,v) ∧
      List.Forall₂ Accounted tr ds ∧ PricedBy twoPrices tr ∧ (∀ e ∈ tr,redisFailed e = false) ∧
      tr = before ++ ⟨.stream p req,.opened s⟩ :: after ∧ req.model = "m1" ∧
      lastUsage (received s.chunks (writes after)) = some ⟨10,20⟩ ∧
      twoPrices.cost "m1" 10 20 = .ok 30 ∧ v.actual = 30 ∧ v.metrics.costMicros = 0 ∧
        ds.sum = 0 := by
  have hrun := openedRun_returns (greetingStream (.failed (unavailable cheapModel)))
  obtain ⟨ds,hds⟩ := openedRun_accounted (greetingStream (.failed (unavailable cheapModel)))
  obtain ⟨before,p,req,hm,hsplit⟩ := openedRun_split
    (s := greetingStream (.failed (unavailable cheapModel))) (m := "m1") (by decide +kernel)
  have hredis := openedRun_redis (.failed (unavailable cheapModel)) (by decide +kernel)
  have hcost :
      (openedRun (greetingStream
        (.failed (unavailable cheapModel)))).2.1.2.metrics.costMicros = 0 := by decide +kernel
  refine ⟨_,_,_,ds,before,p,req,_,_,hrun,hds,openedRun_priced _,hredis,hsplit,hm,by decide +kernel,
    by decide +kernel,by decide +kernel,hcost,?_⟩
  obtain ⟨-,hsum⟩ | ⟨hneg,-⟩ := run_spend hrun hds hredis
  · exact hsum.trans hcost
  · omega

end Switchyard.Proxy
