import Switchyard.RequestAccounts
set_option autoImplicit false

/-!
The cost a served request is charged: which model name it is priced under, and
what the month's counter keeps of it.
-/

namespace Switchyard.Proxy
open CallTree Act Provider Resilience

/-- The usage of a streamed answer: the last one a chunk reports. -/
def streamUsage (chunks : List Chunk) : Usage := chunks.foldl (fun u c => c.usage.getD u) ⟨0,0⟩

/-- What a provider's answer reports: the model it was asked for, the name it
gives and the usage. The chunks of a stream carry no name. -/
def reported : Event Op Ans → Option (String × String × Usage)
  | ⟨.complete p req,.body (.ok b)⟩ =>
    match translateResponse p req.model (.ok b) with
    | .ok _ => some (req.model,Body.model b,Body.usage b)
    | .error _ => none
  | ⟨.stream _ req,.opened s⟩ => some (req.model,"",streamUsage s.chunks)
  | _ => none

def Op.streams : Op → Bool
  | .stream _ _ => true
  | _ => false

def Op.closes : Op → Bool
  | .event .done => true
  | _ => false

/-- A request served to its end: by a whole response, or by a stream that was
relayed up to its closing event. -/
def Exchange (h : History) (m n : String) (u : Usage) : Prop :=
  ∃ e ∈ h,reported e = some (m,n,u) ∧ (e.op.streams = true → ∃ d ∈ h,d.op.closes = true)

instance (h : History) (m n : String) (u : Usage) : Decidable (Exchange h m n u) :=
  inferInstanceAs (Decidable (∃ e ∈ h,_))

variable {e : Event Op Ans}

theorem reported_delivers {report : String × String × Usage} (he : reported e = some report) :
    delivers e = true := by
  unfold reported at he
  split at he
  · rename_i p req b
    cases htr : translateResponse p req.model (.ok b) with
    | error e => simp [htr] at he
    | ok resp => simp [delivers,Completion.response,htr,Except.toOption]
  · rfl
  · cases he

theorem reported_kind {report : String × String × Usage} (he : reported e = some report) :
    e.op.kind = .upstream := by
  unfold reported at he
  split at he
  · rfl
  · rfl
  · cases he

variable {m : String} {u : Usage}

variable {h : History}

theorem Exchange.of_append {n : String}
    (hx : Exchange (h ++ [e]) m n u) (hup : e.op.kind ≠ .upstream) (hdone : e.op.closes = false) :
    Exchange h m n u := by
  obtain ⟨e',he',hr,hclosed⟩ := hx
  have hold : ∀ d ∈ h ++ [e],d = e ∨ d ∈ h := by
    intro d hd
    simpa [or_comm] using hd
  obtain rfl | he' := hold e' he'
  · exact absurd (reported_kind hr) hup
  · refine ⟨e',he',hr,fun hs => ?_⟩
    obtain ⟨d,hd,hc⟩ := hclosed hs
    obtain rfl | hd := hold d hd
    · rw [hdone] at hc
      cases hc
    · exact ⟨d,hd,hc⟩

def Quoted (model : String) (h : History) : Prop := ∃ i o c,⟨.cost model i o,.ok c⟩ ∈ h

theorem Quoted.append {model : String} (hq : Quoted model h) (h' : History) :
    Quoted model (h ++ h') := by
  obtain ⟨i,o,c,hm⟩ := hq
  exact ⟨i,o,c,List.mem_append_left h' hm⟩

def Unanswered (h : History) : Prop := ∀ e ∈ h,delivers e = false ∧ e.op.closes = false

theorem Unanswered.no_exchange (hi : Unanswered h) {n : String} : ¬Exchange h m n u := by
  intro hx
  obtain ⟨e,he,hr,-⟩ := hx
  have hdel := (hi e he).1
  rw [reported_delivers hr] at hdel
  cases hdel

variable {op : Op}

theorem delivers_of_kind (hop : op.kind ≠ .upstream) (ans : Ans op) :
    delivers ⟨op,ans⟩ = false := by
  cases op <;> first | rfl | exact absurd rfl hop

theorem closes_of_kind (hop : op.kind ≠ .output) : op.closes = false := by
  cases op with
  | event e =>
    cases e with
    | done => exact absurd rfl hop
    | _ => rfl
  | _ => rfl

theorem Unanswered.append (hi : Unanswered h)
    (hdel : delivers e = false) (hdone : e.op.closes = false) : Unanswered (h ++ [e]) := by
  intro e' he'
  rcases List.mem_append.1 he' with he' | he'
  · exact hi e' he'
  · obtain rfl := List.mem_singleton.1 he'
    exact ⟨hdel,hdone⟩

/-- Everything the providers answered in h is this one answer, for a model that
was quoted. -/
structure Answer (m n : String) (u : Usage) (h : History) : Prop where
  only : ∀ e ∈ h,∀ report,reported e = some report → report = (m,n,u)
  quoted : Quoted m h

theorem Answer.append {n : String}
    (ha : Answer m n u h) (he : delivers e = false) : Answer m n u (h ++ [e]) := by
  refine ⟨fun e' he' report hr => ?_,ha.quoted.append _⟩
  rcases List.mem_append.1 he' with he' | he'
  · exact ha.only e' he' report hr
  · obtain rfl := List.mem_singleton.1 he'
    rw [reported_delivers hr] at he
    cases he

theorem Unanswered.answer (hi : Unanswered h) {n : String} (hquoted : Quoted m h)
    (he : ∀ report,reported e = some report → report = (m,n,u)) : Answer m n u (h ++ [e]) := by
  refine ⟨fun e' he' report hr => ?_,hquoted.append _⟩
  rcases List.mem_append.1 he' with he' | he'
  · have hdel := (hi e' he').1
    rw [reported_delivers hr] at hdel
    cases hdel
  · obtain rfl := List.mem_singleton.1 he'
    exact he report hr

/-- The amount a request is charged for a quote; an error leaves the zero it
started with. -/
def charged : Except String Int → Int
  | .ok c => c
  | .error _ => 0

/-- The cost of the exchange was quoted under the name the upstream gave, and
charged; the requested model itself was known to the price table. -/
def CostRecorded (h : History) (v : Vars) (m n : String) (u : Usage) : Prop :=
  Quoted m h ∧ ∃ quote,⟨.cost (servedName n m) u.inputTokens u.outputTokens,quote⟩ ∈ h ∧
    v.metrics.costMicros = charged quote

def CostKept (h : History) (v : Vars) : Prop :=
  ∀ m n u,Exchange h m n u → CostRecorded h v m n u

def charging (m n : String) (u : Usage) : Contract Op Ans Vars :=
  .keeping (fun _ _ => True) fun h v => Answer m n u h ∧
    ∃ quote,⟨.cost (servedName n m) u.inputTokens u.outputTokens,quote⟩ ∈ h ∧
      v.metrics.costMicros = charged quote

variable {consulted : Consulted}

variable {v : Vars}

section Charging

variable {m n : String} {u : Usage}

theorem charging_kept {h : History} (hi : (charging m n u).inv h v) : CostKept h v := by
  intro m' n' u' hx
  obtain ⟨e,he,hr,-⟩ := hx
  have heq := hi.1.only e he _ hr
  simp only [Prod.mk.injEq] at heq
  obtain ⟨rfl,rfl,rfl⟩ := heq
  exact ⟨hi.1.quoted,hi.2⟩

theorem charging_step {op : Op} (hop : op.kind ≠ .upstream) : (charging m n u).Step op := by
  intro h v hi
  obtain ⟨ha,quote,hm,hq⟩ := hi
  exact ⟨trivial,fun ans => ⟨⟨ha.append (delivers_of_kind hop ans),quote,
    List.mem_append_left _ hm,hq⟩,trivial⟩⟩

theorem charging_plain (op : Op) (hop : op.kind = .plain) : (charging m n u).Step op :=
  charging_step (by simp [hop])

theorem charging_metrics (f : Metrics → Metrics) (hf : ∀ m,(f m).costMicros = m.costMicros) :
    Honours (charging m n u) (setMetrics f) := by
  refine honours_modify fun h v hi => ⟨⟨hi.1,?_⟩,trivial⟩
  obtain ⟨quote,hm,hq⟩ := hi.2
  exact ⟨quote,hm,(hf v.metrics).trans hq⟩

theorem recordCost_charges {C : Contract Op Ans Vars}
    (hplain : ∀ op,op.kind = .plain → C.Step op)
    (hmetrics : ∀ f : Metrics → Metrics,(∀ m,(f m).costMicros = m.costMicros) →
      Honours C (setMetrics f)) {model : String} {h : History} {v : Vars}
    (hallow : C.allows h (.cost model u.inputTokens u.outputTokens))
    (hinv : ∀ quote,C.inv (h ++ [⟨.cost model u.inputTokens u.outputTokens,quote⟩])
      (v.charge (charged quote))) (hv : v.metrics.costMicros = 0) :
    Spec C.allows (recordCost model u) (fun h' _ v' => C.inv h' v') v h := by
  refine spec_call_bind.2 ⟨hallow,fun quote => ?_⟩
  have hi := hinv quote
  cases quote with
  | error e =>
    have hsame : v.charge (charged (.error e)) = v := by
      simp only [Vars.charge,charged,← hv]
    rw [hsame] at hi
    exact hi
  | ok c =>
    have hcost : ∀ m i o,C.Step (.cost m i o) := fun _ _ _ => hplain _ rfl
    refine spec_modify_bind.2 (Spec.mono (((recordRoutingSavings_honours
      hcost hmetrics u).bind fun _ => recordFallbackDelta_honours hcost hmetrics model u c) _ _ hi)
        ?_)
    exact fun _ _ _ hq => hq.1

theorem recordCost_spec {h : History} (ha : Answer m n u h) (hv : v.metrics.costMicros = 0) :
    Spec (fun _ _ => True) (recordCost (servedName n m) u)
      (fun h' _ v' => (charging m n u).inv h' v') v h :=
  recordCost_charges charging_plain charging_metrics trivial
    (fun quote => ⟨ha.append rfl,quote,by simp,rfl⟩) hv

theorem finishChat_spec {r : Inbound} {requested : Candidate} {answer : Response × Candidate}
    {h : History} (ha : Answer m n u h) (hv : v.metrics.costMicros = 0)
    (hmodel : answer.1.model = servedName n m) (husage : answer.1.usage = u) :
    Spec (fun _ _ => True) (finishChat r requested consulted answer)
      (fun h' _ v' => CostKept h' v') v h := by
  unfold finishChat
  simp only [hmodel,husage]
  refine spec_modify_bind.2 (Spec.bind (recordCost_spec ha (by exact hv))
    (fun h₁ _ v₁ hq => ?_) fun h₁ p v₁ hq => charging_kept hq)
  have hactual : Honours (charging m n u) (Act.modify fun v : Vars => { v with
      actual := MachineInt.add u.inputTokens u.outputTokens }) :=
    honours_modify fun h v hi => ⟨hi,trivial⟩
  have houtput : ∀ op,Delivers answer.1 op → (charging m n u).Step op :=
    fun op hop => charging_step (by simp [hop.kind])
  have hrest := hactual.bind fun _ =>
    (honours_lift (writeSuccess_calls charging_plain houtput r.requestID)).bind fun _ =>
    honours_lift (storeConsulted_calls charging_plain
      (fun op hop => charging_step (by simp [hop])) r consulted answer.1)
  exact (hrest v₁ h₁ hq).mono fun _ _ _ hq => charging_kept hq.1

end Charging

theorem foldl_receive_usage (s : Relay) (chunks : List Chunk) :
    (chunks.foldl Relay.receive s).usage = chunks.foldl (fun u c => c.usage.getD u) s.usage := by
  induction chunks generalizing s with
  | nil => rfl
  | cons c cs ih => exact ih (s.receive c)

def relaying (m : String) (u : Usage) : Contract Op Ans Vars :=
  .keeping (fun _ _ => True) fun h v =>
    Answer m "" u h ∧ (∀ m n u,¬Exchange h m n u) ∧ v.metrics.costMicros = 0

theorem relaying_step
    (hup : op.kind ≠ .upstream) (hdone : op.closes = false) : (relaying m u).Step op := by
  intro h v hi
  refine ⟨trivial,fun ans => ⟨⟨hi.1.append (delivers_of_kind hup ans),fun m n u hx => ?_,hi.2.2⟩,
    trivial⟩⟩
  exact hi.2.1 m n u (hx.of_append hup hdone)

theorem relaying_plain (op : Op) (hop : op.kind = .plain) : (relaying m u).Step op :=
  relaying_step (by simp [hop]) (closes_of_kind (by simp [hop]))

theorem streamDone_spec {r : Inbound} {served : Candidate} {s : Relay} (hi : (relaying m u).inv h v)
    (hmodel : served.model = m) (husage : s.usage = u) :
    Spec (fun _ _ => True) (streamDone r served consulted s)
      (fun h' _ v' => CostKept h' v') v h := by
  unfold streamDone
  rw [hmodel,husage]
  obtain ⟨-,hans⟩ := relaying_plain (.recordHealth served.provider none) rfl h v hi
  refine spec_call_bind.2 ⟨trivial,fun ans => spec_modify_bind.2 ?_⟩
  have ha := (hans ans).1
  refine Spec.bind (recordCost_spec ha.1 (by exact ha.2.2)) (fun h₁ _ v₁ hq => ?_)
    fun h₁ p v₁ hq => charging_kept hq
  have hstep : ∀ op : Op,op.kind ≠ .upstream → (charging m "" u).Step op := fun op => charging_step
  refine Spec.mono (((honours_call (hstep (.event .done) (by simp [Op.kind]))).bind
    fun written => ?_) v₁ h₁ hq) fun _ _ _ hq => charging_kept hq.1
  split
  · exact honours_lift (storeConsulted_calls charging_plain
      (fun op hop => charging_step (by simp [hop])) _ _ _)
  · exact honours_pure _

theorem relaying_metrics (f : Metrics → Metrics) (hf : ∀ m,(f m).costMicros = m.costMicros) :
    Honours (relaying m u) (setMetrics f) :=
  honours_modify fun _ v hi => ⟨⟨hi.1,hi.2.1,(hf v.metrics).trans hi.2.2⟩,trivial⟩

theorem relayStream_kept {r : Inbound} {req : ChatRequest} {requested : Candidate}
    {answer : StreamReader × Candidate} :
    Leads (relaying answer.2.model (streamUsage answer.1.chunks)) (fun h _ v => CostKept h v)
      (relayStream r req requested consulted answer) := by
  have hkept : ∀ h (_ : Except String Int) v,
      (relaying answer.2.model (streamUsage answer.1.chunks)).inv h v → CostKept h v :=
    fun h _ v hi m n u hx => absurd hx (hi.2.1 m n u)
  refine (relaying_metrics _ (by intro; rfl)).bind_leads (fun _ => ?_) hkept
  refine (honours_lift (streamHeaders_calls relaying_plain)).bind_leads (fun _ => ?_) hkept
  refine (honours_call (relaying_plain .now rfl)).bind_leads (fun now => ?_) hkept
  intro v h hi
  refine (spec_lift_of_calls (relayChunks_calls
    (fun c _ first => relaying_step (by simp [Op.kind]) rfl) _) hi).bind ?_ ?_
  · intro h₁ relayed v₁ hq
    obtain ⟨rfl,⟨hi₁,-⟩,tr,a,rfl,ha,hret⟩ := hq
    obtain rfl := Except.ok.inj ha
    obtain ⟨s,written⟩ := relayed
    cases written with
    | false => exact hkept _ (.ok 0) _ hi₁
    | true =>
      have husage : s.usage = streamUsage answer.1.chunks := by
        obtain ⟨sent,rfl⟩ := relayChunks_returns hret
        exact foldl_receive_usage .start answer.1.chunks
      simp only [Bool.not_true,Bool.false_eq_true,if_false]
      split
      · exact hkept _ (.ok 0) _ hi₁
      · refine Spec.mono (((honours_lift (streamBroken_calls relaying_plain _ _ _)).bind
          fun _ => honours_pure _) v₁ _ hi₁) fun h' _ v' hq => hkept h' (.ok 0) v' hq.1
      · exact (streamDone_spec hi₁ rfl husage).bind (fun _ _ _ hq => hq) fun _ _ _ hq => hq
  · intro h₁ p v₁ hq
    obtain ⟨rfl,⟨hi₁,-⟩,-⟩ := hq
    exact hkept _ (.ok 0) _ hi₁

/-- A request whose model was quoted, while no provider has answered it. -/
def seeking (model : String) : Contract Op Ans Vars :=
  .keeping (fun _ _ => True) fun h v => Unanswered h ∧ v.metrics.costMicros = 0 ∧ Quoted model h

/-- The search ends with an answer of which Told holds; nothing is charged yet. -/
def telling {γ : Type} (model : String) (Told : γ → History → Prop) : Ending (seeking model) γ :=
  ⟨fun _ _ a h' v' => Told a h' ∧ v'.metrics.costMicros = 0,fun _ hq => hq⟩

section Seeking

variable {model : String}

theorem seeking_kept {h : History} (hi : (seeking model).inv h v) : CostKept h v :=
  fun _ _ _ hx => absurd hx hi.1.no_exchange

theorem seeking_step {op : Op} (hup : op.kind ≠ .upstream) (hdone : op.closes = false) :
    (seeking model).Step op := by
  intro h v hi
  obtain ⟨hun,hv,hq⟩ := hi
  exact ⟨trivial,fun ans => ⟨⟨hun.append (delivers_of_kind hup ans) hdone,hv,hq.append _⟩,trivial⟩⟩

theorem seeking_plain (op : Op) (hop : op.kind = .plain) : (seeking model).Step op :=
  seeking_step (by simp [hop]) (closes_of_kind (by simp [hop]))

theorem seeking_metrics (f : Metrics → Metrics) (hf : ∀ m,(f m).costMicros = m.costMicros) :
    Honours (seeking model) (setMetrics f) :=
  honours_modify fun _ v hi => ⟨⟨hi.1,(hf v.metrics).trans hi.2.1,hi.2.2⟩,trivial⟩

theorem admitCandidate_quoted (team : Auth.Team) (req : ChatRequest) (base : Int)
    (candModel : String) (v : Vars) (h : History) (hi : (seeking req.model).inv h v) :
    Spec (seeking req.model).allows (ChainBudget.admitCandidate ⟨team,req,base⟩ candModel)
      (fun h' r v' => (seeking req.model).inv h' v' ∧ True ∧
        ∀ d,r = .ok (.ok d) → Quoted candModel h') v h := by
  unfold ChainBudget.admitCandidate
  split
  · rename_i hmodel
    exact ⟨hi,trivial,fun _ _ => hmodel ▸ hi.2.2⟩
  refine (spec_lift_of_calls (estimateFor_calls (seeking_plain _ rfl)
    (fun _ _ => seeking_plain _ rfl) _) hi).bind ?_ ?_
  · intro h₁ est v₁ hq
    obtain ⟨rfl,⟨hi₁,-⟩,tr,a,rfl,ha,hret⟩ := hq
    obtain rfl := Except.ok.inj ha
    cases est with
    | error e => exact ⟨hi₁,trivial,fun d hd => by cases hd⟩
    | ok est =>
      obtain ⟨tr',i,o,htr⟩ := estimateFor_returns hret
      have hquoted : Quoted candModel (h ++ tr) := ⟨i,o,est,by simp [htr]⟩
      simp only []
      split
      · exact ⟨hi₁,trivial,fun _ _ => hquoted⟩
      have hstep : ∀ op : Op,op.kind = .spend → (seeking req.model).Step op :=
        fun op hop => seeking_step (by simp [hop]) (closes_of_kind (by simp [hop]))
      refine spec_call_bind.2 ⟨trivial,fun ans => ?_⟩
      have hi₂ := ((hstep (.reserveSpend team.id team.monthlyBudgetMicros (MachineInt.sub est base))
        rfl (h ++ tr) v₁ hi₁).2 ans).1
      cases ans with
      | error e => exact ⟨hi₂,trivial,fun _ _ => hquoted.append _⟩
      | ok answer =>
        simp only []
        split
        · exact ⟨hi₂,trivial,fun _ _ => hquoted.append _⟩
        · exact ⟨hi₂,trivial,fun _ _ => hquoted.append _⟩
  · intro h₁ p v₁ hq
    obtain ⟨rfl,⟨hi₁,-⟩,tr,a,-,ha,-⟩ := hq
    cases ha

theorem runChain_tells {α : Type} {Told : α × Candidate → History → Prop} {req : ChatRequest}
    {attempt : Adapter → Candidate → Action (Except Fault α)} (hd : Handler) (team : Auth.Team)
    (base : Int) (hT : ∀ a h e,e.op.kind = .plain → Told a h → Told a (h ++ [e]))
    (hattempt : ∀ cand prov,Until ((telling req.model fun a => Told (a,cand)).assume
      (Quoted cand.model)) Except.toOption (attempt prov cand)) (chain : List Candidate) :
    Until (telling req.model Told) Except.toOption
      (hd.runChain ⟨team,req,base⟩ attempt true 0 [] chain) := by
  have hwalk : ∀ op,WalkOp chain op → (seeking req.model).Step op :=
    fun op hop => seeking_plain op hop.plain
  refine runChain_until hwalk (fun cand hc remaining left => ?_) true 0 []
  refine tryCandidate_until (K := fun _ => Quoted cand.model) hwalk hc
    (fun _ h e hq => hq.append [e]) (fun v h hi => ?_) (fun prov => hattempt cand prov)
    (fun success h v a h' v' hdone => ?_) remaining left
  · refine (admitCandidate_quoted team req base cand.model v h hi).mono fun h' r v' hq => ?_
    exact ⟨hq.1,trivial,fun d prov hr => (hq.2.2 d hr).append _⟩
  · exact ⟨trivial,fun ans => ⟨hT _ _ _ rfl hdone.1,hdone.2⟩⟩

end Seeking

def BodyTold (answer : Response × Candidate) (h : History) : Prop :=
  ∃ n,Answer answer.2.model n answer.1.usage h ∧ answer.1.model = servedName n answer.2.model

def StreamTold (answer : StreamReader × Candidate) (h : History) : Prop :=
  Answer answer.2.model "" (streamUsage answer.1.chunks) h ∧ ∀ m n u,¬Exchange h m n u

theorem BodyTold.append (answer : Response × Candidate) (h : History) (e : Event Op Ans)
    (he : e.op.kind = .plain) (ht : BodyTold answer h) : BodyTold answer (h ++ [e]) := by
  obtain ⟨n,ha,hn⟩ := ht
  exact ⟨n,ha.append (delivers_of_kind (by simp [he]) e.ans),hn⟩

theorem StreamTold.append (answer : StreamReader × Candidate) (h : History) (e : Event Op Ans)
    (he : e.op.kind = .plain) (ht : StreamTold answer h) : StreamTold answer (h ++ [e]) := by
  refine ⟨ht.1.append (delivers_of_kind (by simp [he]) e.ans),fun m n u hx => ht.2 m n u ?_⟩
  exact hx.of_append (by simp [he]) (closes_of_kind (by simp [he]))

theorem completeAttempt_tells (model : String) (baseReq : Request) (cand : Candidate)
    (prov : Adapter) :
    Until ((telling model fun a => BodyTold (a,cand)).assume (Quoted cand.model))
      Except.toOption (completeAttempt baseReq prov cand) := by
  have hplain : ∀ op,op.kind = .plain → ((seeking model).assume (Quoted cand.model)).Step op :=
    fun op hop => (seeking_plain op hop).assume fun h e hq => hq.append [e]
  refine completeAttempt_until (fun op hop => hplain op hop.plain) (fun v h hi => ?_)
    fun q h v a h' v' hdone => ?_
  · refine ⟨trivial,fun ans => ?_⟩
    cases hr : Completion.response prov cand.model ans with
    | none =>
      refine (Ending.post_none hr).2 ⟨⟨⟨?_,hi.1.2.1,hi.1.2.2.append _⟩,hi.2.append _⟩,trivial⟩
      exact hi.1.1.append (by simp [delivers,hr]) rfl
    | some resp =>
      refine (Ending.post_some hr).2 ⟨?_,hi.1.2.1⟩
      obtain ⟨raw,rfl,htr⟩ := Completion.response_some hr
      obtain ⟨b,rfl,hmodel,husage,-⟩ := translateResponse_ok htr
      refine ⟨Body.model b,hi.1.1.answer hi.2 fun report hrep => ?_,hmodel⟩
      simp only [reported,htr,Option.some.injEq] at hrep
      rw [← hrep,husage]
  · exact ⟨trivial,fun ans => ⟨BodyTold.append _ _ _ rfl hdone.1,hdone.2⟩⟩

theorem streamAttempt_seeks (model : String) (baseReq : Request) (cand : Candidate)
    (prov : Adapter) {T : StreamReader → History → Prop}
    (hopened : ∀ s h,Unanswered h → Quoted cand.model h →
      T s (h ++ [⟨.stream prov { baseReq with model := cand.model },.opened s⟩])) :
    Until ((telling model T).assume (Quoted cand.model)) Except.toOption
      (streamAttempt baseReq prov cand) := by
  have hplain : ∀ op,op.kind = .plain → ((seeking model).assume (Quoted cand.model)).Step op :=
    fun op hop => (seeking_plain op hop).assume fun h e hq => hq.append [e]
  refine streamAttempt_until (fun op hop => hplain op hop.plain) fun v h hi =>
    ⟨trivial,fun ans => ?_⟩
  cases hs : Connection.stream? ans with
  | none =>
    refine (Ending.post_none hs).2 ⟨⟨⟨?_,hi.1.2.1,hi.1.2.2.append _⟩,hi.2.append _⟩,trivial⟩
    exact hi.1.1.append (by simp [delivers,hs]) rfl
  | some s =>
    obtain rfl : ans = .opened s := by
      cases ans with
      | opened s' => exact congrArg _ (Option.some.inj hs)
      | failed f => cases hs
      | panicked p => cases hs
    exact (Ending.post_some hs).2 ⟨hopened s h hi.1.1 hi.2,hi.1.2.1⟩

theorem streamAttempt_tells (model : String) (baseReq : Request) (cand : Candidate)
    (prov : Adapter) :
    Until ((telling model fun a => StreamTold (a,cand)).assume (Quoted cand.model))
      Except.toOption (streamAttempt baseReq prov cand) := by
  refine streamAttempt_seeks model baseReq cand prov fun s h hun hquoted => ⟨?_,?_⟩
  · exact hun.answer hquoted fun report hrep => (Option.some.inj hrep).symm
  -- The stream is open, so nothing has closed it.
  · intro m n u hx
    obtain ⟨e,he,hr,hclosed⟩ := hx
    rcases List.mem_append.1 he with he | he
    · have hdel := (hun e he).1
      rw [reported_delivers hr] at hdel
      cases hdel
    · obtain rfl := List.mem_singleton.1 he
      obtain ⟨d,hd,hc⟩ := hclosed rfl
      rcases List.mem_append.1 hd with hd | hd
      · rw [(hun d hd).2] at hc
        cases hc
      · obtain rfl := List.mem_singleton.1 hd
        cases hc

theorem completeChat_kept (hd : Handler) (r : Inbound) (req : ChatRequest) (requested : Candidate)
    (chain : List Candidate) (base : Int) (consulted : Consulted) :
    Leads (seeking req.model) (fun h _ v => CostKept h v)
      (hd.completeChat r req requested chain ⟨r.team,req,base⟩ consulted) := by
  intro v h hi
  have hwalk := runChain_tells hd r.team base BodyTold.append
    (completeAttempt_tells req.model req.toProviderRequest) chain v h hi
  refine hwalk.bind (fun h₁ result v₁ hq => ?_) fun h₁ p v₁ hq => seeking_kept hq.1
  cases result with
  | error failures =>
    exact (chainFailed_honours seeking_plain seeking_metrics req failures v₁ h₁ hq.1).mono
      fun _ _ _ hq => seeking_kept hq.1
  | ok answer =>
    obtain ⟨⟨n,ha,hn⟩,hv⟩ := hq
    exact finishChat_spec ha hv hn rfl

/-- The streaming half: what holds while no provider has answered, and after the
relay of the stream that the walk has told of. -/
theorem streamChatCompletions_leads {hd : Handler} {r : Inbound} {req : ChatRequest}
    {requested : Candidate} {chain : List Candidate} {base : Int}
    {Told : StreamReader × Candidate → History → Prop}
    {Q : History → Except String Int → Vars → Prop}
    (hexit : ∀ h x v,(seeking req.model).inv h v → Q h x v)
    (hT : ∀ a h e,e.op.kind = .plain → Told a h → Told a (h ++ [e]))
    (hattempt : ∀ cand prov,Until ((telling req.model fun a => Told (a,cand)).assume
      (Quoted cand.model)) Except.toOption (streamAttempt req.toProviderRequest prov cand))
    (hrelay : ∀ answer v h,Told answer h → v.metrics.costMicros = 0 →
      Spec (fun _ _ => True) (relayStream r req requested consulted answer) Q v h) :
    Leads (seeking req.model) Q
      (hd.streamChatCompletions r req requested chain ⟨r.team,req,base⟩ consulted) := by
  intro v h hi
  unfold Handler.streamChatCompletions
  split
  · exact Spec.mono (((honours_lift (writeError_calls seeking_plain _ _ _)).bind fun _ =>
      honours_pure _) v h hi) fun _ _ _ hq => hexit _ _ _ hq.1
  refine (runChain_tells hd r.team base hT hattempt chain v h hi).bind (fun h₁ result v₁ hq => ?_)
    fun h₁ p v₁ hq => hexit _ _ _ hq.1
  cases result with
  | error failures =>
    exact Spec.mono (((chainFailed_honours seeking_plain seeking_metrics req failures).bind
      fun _ => honours_pure _) v₁ h₁ hq.1) fun _ _ _ hq => hexit _ _ _ hq.1
  | ok answer => exact hrelay answer v₁ h₁ hq.1 hq.2

theorem CostKept.append (hk : CostKept h v)
    (hup : e.op.kind ≠ .upstream) (hdone : e.op.closes = false) : CostKept (h ++ [e]) v := by
  intro m n u hx
  obtain ⟨hq,quote,hm,hv⟩ := hk m n u (hx.of_append hup hdone)
  exact ⟨hq.append _,quote,List.mem_append_left _ hm,hv⟩

def unanswered : Contract Op Ans Vars :=
  .keeping (fun _ _ => True) fun h v => Unanswered h ∧ v.metrics.costMicros = 0

theorem unanswered_step (hup : op.kind ≠ .upstream) (hout : op.kind ≠ .output) :
    unanswered.Step op :=
  fun _ _ hi => ⟨trivial,fun ans =>
    ⟨⟨hi.1.append (delivers_of_kind hup ans) (closes_of_kind hout),hi.2⟩,trivial⟩⟩

theorem unanswered_plain (op : Op) (hop : op.kind = .plain) : unanswered.Step op :=
  unanswered_step (by simp [hop]) (by simp [hop])

theorem reserveBudget_returns {team : Auth.Team} {req : ChatRequest} {tr : History}
    {t : Option Budget.Reservation} {est : Int}
    (hret : (reserveBudget team req).Returns tr (some (t,est))) : Quoted req.model tr := by
  obtain ⟨tr₁,d,tr₂,rfl,-,hrest⟩ := returns_bind.1 hret
  cases d with
  | none =>
    obtain ⟨_,_,_,_,_,hpure⟩ := returns_bind.1 hrest
    cases (returns_pure.1 hpure).2
  | some d =>
    obtain ⟨quote,tr₄,rfl,htail⟩ := returns_perform_bind.1 hrest
    cases quote with
    | error e =>
      obtain ⟨_,_,_,_,_,hpure⟩ := returns_bind.1 htail
      cases (returns_pure.1 hpure).2
    | ok c => exact ⟨_,_,c,List.mem_append_right tr₁
        (List.mem_append_left tr₄ (List.mem_singleton_self _))⟩

/-- The state once the streaming half has returned its token count. -/
def Vars.delivered (v : Vars) : Except String Int → Vars
  | .ok n => { v with actual := n }
  | .error _ => v

theorem CostKept.delivered (hk : CostKept h v) (x : Except String Int) :
    CostKept h (v.delivered x) := by
  cases x <;> exact hk

section Charged

variable {hd : Handler} {r : Inbound} {Q : History → Vars → Prop}
  (hexit : ∀ {h v},unanswered.inv h v → Q h v)
  (hsettle : ∀ {h v} {e : Event Op Ans},Q h v → e.op.kind ≠ .upstream → e.op.kind ≠ .output →
    Q (h ++ [e]) v)
include hexit hsettle

/-- A request under its reservations. What holds while it is unanswered, and is
left alone by the deferred settlements, holds at its end if it does where one of
the two halves has ended. -/
theorem serveReserved_leads {req : ChatRequest} {requested : Candidate} {chain : List Candidate}
    (hstream : ∀ base,Leads (seeking req.model)
      (fun h x v => Q h (v.delivered x))
      (hd.streamChatCompletions r req requested chain ⟨r.team,req,base⟩ consulted))
    (hcomplete : ∀ base,Leads (seeking req.model) (fun h _ v => Q h v)
      (hd.completeChat r req requested chain ⟨r.team,req,base⟩ consulted)) :
    Leads unanswered (fun h _ v => Q h v)
      (hd.serveReserved r req requested chain consulted) := by
  have hstep : ∀ op : Op,op.kind ≠ .upstream → op.kind ≠ .output →
      (Contract.keeping (fun _ _ => True) Q).Step op :=
    fun op hup hout _ _ hi => ⟨trivial,fun _ => ⟨hsettle hi hup hout,trivial⟩⟩
  refine (honours_lift (reserveTokens_calls unanswered_plain (fun op hop =>
    unanswered_step (by simp [hop]) (by simp [hop])) r.team req)).bind_leads (fun t => ?_)
    fun _ _ _ => hexit
  cases t with
  | none => exact fun v h hi => hexit hi
  | some t =>
    intro v h hi
    refine Spec.defer (Q := fun h _ v => Q h v) ?_ fun h' x v' hq =>
      (settleTokens_honours (fun op hop => hstep op (by simp [hop]) (by simp [hop])) t v' h'
        hq).mono fun _ x' _ hq' => by cases x' <;> exact hq'.1
    refine (spec_lift_of_calls (reserveBudget_calls unanswered_plain (fun op hop =>
      unanswered_step (by simp [hop]) (by simp [hop])) r.team req) hi).bind ?_
      (by rintro h₁ p v₁ ⟨-,-,tr,a,-,ha,-⟩; cases ha)
    rintro h₁ spend v₁ ⟨rfl,⟨hi₁,-⟩,tr,a,rfl,ha,hret⟩
    obtain rfl := Except.ok.inj ha
    cases spend with
    | none => exact hexit hi₁
    | some held =>
      obtain ⟨spend,est⟩ := held
      obtain ⟨i,o,c,hm⟩ := reserveBudget_returns hret
      have hseek : (seeking req.model).inv (h ++ tr) v₁ :=
        ⟨hi₁.1,hi₁.2,i,o,c,List.mem_append_right h hm⟩
      refine Spec.defer (Q := fun h _ v => Q h v) ?_ fun h' x v' hq =>
        (settleSpend_honours (fun op hop => hstep op (by simp [hop]) (by simp [hop])) spend v' h'
          hq).mono fun _ x' _ hq' => by cases x' <;> exact hq'.1
      simp only []
      split
      · exact (hstream est v₁ _ hseek).bind (fun _ _ _ hq => hq) fun _ _ _ hq => hq
      · exact hcomplete est v₁ _ hseek

theorem chatCompletions_charged
    (hhit : ∀ stream e v h,unanswered.inv h v → Spec (fun _ _ => True)
      (if stream = true then serveStreamFromCache r e else serveFromCache r e)
      (fun h _ v => Q h v) v h)
    (hserve : ∀ req requested chain consulted,
      (∃ body,r.body = .ok body ∧ req = { body with model := req.model }) → ∀ base,
      Leads (seeking req.model)
        (fun h x v => Q h (v.delivered x))
        (hd.streamChatCompletions r req requested chain ⟨r.team,req,base⟩ consulted) ∧
      Leads (seeking req.model) (fun h _ v => Q h v)
        (hd.completeChat r req requested chain ⟨r.team,req,base⟩ consulted)) :
    Spec (fun _ _ => True) (hd.chatCompletions r) (fun h _ v => Q h v) .zero [] := by
  refine chatCompletions_leads (C := unanswered) unanswered_plain
    (fun c team req => consultCache_calls (fun op hop =>
      unanswered_step (by simp [hop]) (by simp [hop])) c team req)
    (fun f hf h v hi => ⟨hi.1,(hf v.metrics).trans hi.2⟩) (fun h x v => hexit)
    (fun req c k e _ _ v h hi _ _ => hhit req.stream e v h hi)
    (fun req requested chain consulted v h hi _ hasked _ _ => ?_) .zero []
      ⟨by simp [Unanswered],rfl⟩
  have hhalves := hserve req requested chain consulted hasked.1
  exact serveReserved_leads hexit hsettle (fun base => (hhalves base).1)
    (fun base => (hhalves base).2) v h hi

end Charged

def undelivered : Contract Op Ans Vars :=
  .onHistory Vars (fun _ _ => True) fun h => ∀ e ∈ h,delivers e = false

theorem undelivered_step (hup : op.kind ≠ .upstream) : undelivered.Step op := by
  refine fun h v hi => ⟨trivial,fun ans => ⟨fun e he => ?_,trivial⟩⟩
  rcases List.mem_append.1 he with he | he
  · exact hi e he
  · obtain rfl := List.mem_singleton.1 he
    exact delivers_of_kind hup ans

theorem chatCompletions_kept (hd : Handler) (r : Inbound) :
    Spec (fun _ _ => True) (hd.chatCompletions r) (fun h _ v => CostKept h v) .zero [] := by
  refine chatCompletions_charged (fun hi _ _ _ hx => absurd hx hi.1.no_exchange)
    (fun hk hup hout => hk.append hup (closes_of_kind hout)) (fun stream e v h hi => ?_)
    fun req requested chain consulted _ base =>
      ⟨streamChatCompletions_leads (fun _ x _ hi => (seeking_kept hi).delivered x)
        StreamTold.append (streamAttempt_tells req.model req.toProviderRequest)
        fun answer v h ht hv => (relayStream_kept v h ⟨ht.1,ht.2,hv⟩).mono
          fun _ x _ hq => CostKept.delivered hq x,
      completeChat_kept hd r req requested chain base consulted⟩
  have hnone : undelivered.inv h v := fun e he => (hi.1 e he).1
  refine (serveHit_honours (fun op hop => undelivered_step (by simp [hop]))
    (fun f hf => onHistory_modify _) (fun op hop => undelivered_step (by simp [hop.kind]))
    stream r v h hnone).mono fun h' x v' hq m n u hx => ?_
  obtain ⟨e,he,hr,-⟩ := hx
  have hdel := hq.1 e he
  rw [reported_delivers hr] at hdel
  cases hdel

def PricedBy (calculator : Budget.Calculator) (h : History) : Prop :=
  ∀ m i o quote,⟨.cost m i o,quote⟩ ∈ h → quote = calculator.cost m i o

theorem charged_cost (calculator : Budget.Calculator) (m : String) (i o : Int) :
    charged (calculator.cost m i o) = calculator.costValue m i o := by
  unfold Budget.Calculator.costValue
  cases calculator.cost m i o <;> rfl

theorem cost_of_quoted {calculator : Budget.Calculator}
    (hprices : PricedBy calculator h) (hquoted : Quoted m h) (i o : Int) :
    ∃ c,calculator.cost m i o = .ok c := by
  obtain ⟨i',o',c,hm⟩ := hquoted
  have hcost := (hprices m i' o' _ hm).symm
  unfold Budget.Calculator.cost at hcost ⊢
  cases hp : calculator.pricing m with
  | none => simp [hp] at hcost
  | some p => exact ⟨_,rfl⟩

/-- A served request whose tracker calls Redis answered: the recorded cost and
the counter's change are the cost of the model that was asked for exactly when
that is not negative and the upstream's name for the model costs the same. -/
theorem recorded_cost_iff (hd : Handler) (r : Inbound) (calculator : Budget.Calculator)
    {tr : History} {x : Except String Unit} {v : Vars} {ds : List Int} {m n : String} {u : Usage}
    (hrun : (hd.chatCompletions r .zero).Returns tr (x,v)) (hacc : List.Forall₂ Accounted tr ds)
    (hprices : PricedBy calculator tr) (hredis : ∀ e ∈ tr,redisFailed e = false)
    (hx : Exchange tr m n u) :
    ∃ c,calculator.cost m u.inputTokens u.outputTokens = .ok c ∧
      ((v.metrics.costMicros = c ∧ ds.sum = c) ↔ 0 ≤ c ∧
        calculator.costValue (servedName n m) u.inputTokens u.outputTokens = c) := by
  obtain ⟨hquoted,quote,hm,hv⟩ := (chatCompletions_kept hd r).returns hrun m n u (by simpa using hx)
  rw [List.nil_append] at hquoted hm
  obtain ⟨c,hc⟩ := cost_of_quoted hprices hquoted u.inputTokens u.outputTokens
  replace hv : v.metrics.costMicros =
      calculator.costValue (servedName n m) u.inputTokens u.outputTokens := by
    rw [hprices _ _ _ _ hm,charged_cost] at hv
    exact hv
  refine ⟨c,hc,?_⟩
  rcases run_spend hrun hacc hredis with ⟨hpos,hsum⟩ | ⟨hneg,hsum,-⟩
  · omega
  · omega

theorem fallbackRun_priced (rename : String → String) (stream : Bool) :
    PricedBy twoPrices (fallbackRun rename stream).1 := by
  intro m i o quote hm
  obtain ⟨_,heq⟩ := mem_exec hm
  exact eq_of_heq (Event.mk.inj heq).2

/-- A stream carries no name, so it is charged at the price of the model asked for. -/
theorem recorded_cost_streamed :
    ∃ tr x v ds,(plainHandler.chatCompletions (greeting true) .zero).Returns tr (x,v) ∧
      List.Forall₂ Accounted tr ds ∧ Exchange tr "m2" "" ⟨10,20⟩ ∧
      v.metrics.costMicros = 60 ∧ ds.sum = 60 := by
  have hrun := fallbackRun_returns id true
  obtain ⟨ds,hds⟩ := fallbackRun_accounted id true
  have hredis : (fallbackRun id true).1.all (fun e => !redisFailed e) = true := by decide +kernel
  have hx : Exchange (fallbackRun id true).1 "m2" "" ⟨10,20⟩ := by decide +kernel
  obtain ⟨c,hc,hiff⟩ := recorded_cost_iff plainHandler (greeting true) twoPrices hrun hds
    (fallbackRun_priced id true) (fun e he => by simpa using List.all_eq_true.1 hredis e he) hx
  obtain rfl : 60 = c :=
    Except.ok.inj ((by decide +kernel : twoPrices.cost "m2" 10 20 = .ok 60).symm.trans hc)
  obtain ⟨hcost,hsum⟩ := hiff.2 ⟨by decide,by decide +kernel⟩
  exact ⟨_,_,_,ds,hrun,hds,hx,hcost,hsum⟩

/-- An upstream that names a dated alias is served for nothing. -/
theorem alias_not_charged :
    ∃ tr x v ds,(plainHandler.chatCompletions (greeting false) .zero).Returns tr (x,v) ∧
      List.Forall₂ Accounted tr ds ∧ PricedBy twoPrices tr ∧ (∀ e ∈ tr,redisFailed e = false) ∧
      Exchange tr "m2" "m2-2026-01-01" ⟨10,20⟩ ∧ twoPrices.cost "m2" 10 20 = .ok 60 ∧
      v.metrics.costMicros = 0 ∧ ds.sum = 0 := by
  have hrun := fallbackRun_returns (· ++ "-2026-01-01") false
  obtain ⟨ds,hds⟩ := fallbackRun_accounted (· ++ "-2026-01-01") false
  have hall : (fallbackRun (· ++ "-2026-01-01") false).1.all (fun e => !redisFailed e) = true := by
    decide +kernel
  have hredis : ∀ e ∈ (fallbackRun (· ++ "-2026-01-01") false).1,redisFailed e = false :=
    fun e he => by simpa using List.all_eq_true.1 hall e he
  have hcost : (fallbackRun (· ++ "-2026-01-01") false).2.1.2.metrics.costMicros = 0 := by
    decide +kernel
  refine ⟨_,_,_,ds,hrun,hds,fallbackRun_priced _ false,hredis,by decide +kernel,by decide +kernel,
    hcost,?_⟩
  rcases run_spend hrun hds hredis with ⟨-,hsum⟩ | ⟨hneg,-⟩
  · exact hsum.trans hcost
  · omega

end Switchyard.Proxy
