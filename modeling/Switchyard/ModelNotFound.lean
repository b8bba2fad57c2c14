import Switchyard.ChainWalk
import Switchyard.ChatFootprint
set_option autoImplicit false

/-!
How Ollama's failures are classified (internal/provider/ollama.go, errors.go),
and what a walk over the chain makes of a model that Ollama does not have.
-/

namespace Switchyard.Provider

structure FailedStatus where
  code : Int
  failed : 400 ≤ code
  deriving DecidableEq, Repr

def kindForStatus (status : FailedStatus) : Kind :=
  if status.code = 408 then .timeout
  else if status.code = 429 then .rateLimited
  else if status.code = 401 ∨ status.code = 403 then .authFailed
  else if 500 ≤ status.code then .serverError
  else .invalidRequest

def newHTTPError (providerName model : String) (status : FailedStatus) (message : String) : Error :=
  let kind := kindForStatus status
  ⟨kind,providerName,model,status.code,kind.defaultRetryable,0,message,none⟩

/-- The body of a failed call: its text, and the error field if it is JSON. -/
structure OllamaErrorBody where
  raw : String
  envelope : Option String
  deriving DecidableEq, Repr

def OllamaErrorBody.error (body : OllamaErrorBody) : String := body.envelope.getD ""

/-- `lower` is `strings.ToLower`. -/
def OllamaErrorBody.SaysNotFound (lower : String → String) (body : OllamaErrorBody) : Prop :=
  "not found".toList <:+: (lower body.error).toList

instance (lower : String → String) (body : OllamaErrorBody) : Decidable (body.SaysNotFound lower) :=
  inferInstanceAs (Decidable (_ <:+: _))

def ollamaClassify (lower : String → String) (cfg : Config) (model : String) (status : FailedStatus)
    (body : OllamaErrorBody) : Error :=
  let message := truncateMessage body.error
  let message := if message = "" then truncateMessage body.raw else message
  let provErr := newHTTPError cfg.name model status message
  if status.code = 404 ∧ body.SaysNotFound lower then
    { provErr with kind := .invalidRequest, retryable := false }
  else provErr

/-- The error of `Complete` and `Stream`, with the delay read from Retry-After. -/
def ollamaFailure (lower : String → String) (cfg : Config) (model : String) (status : FailedStatus)
    (body : OllamaErrorBody) (retryAfter : Int) : Error :=
  { ollamaClassify lower cfg model status body with retryAfter }

end Switchyard.Provider

namespace Switchyard.Proxy
open CallTree Act Provider Resilience

def sends (op : Op) : Bool := (sent op).isSome

def failure : Event Op Ans → Option Fault
  | ⟨.complete _ _,.failed f⟩ => some f
  | ⟨.stream _ _,.failed f⟩ => some f
  | _ => none

def decides (f : Fault) : Bool :=
  match asProviderError f with
  | none => false
  | some e => !e.retryable && !shouldFallback f

def Declined (h : History) (f : Fault) : Prop := (∃ e ∈ h,failure e = some f) ∧ decides f = true

theorem declined_snoc {h : History} {e : Event Op Ans} (he : failure e = none) (f : Fault) :
    Declined (h ++ [e]) f ↔ Declined h f := by
  simp [Declined,or_and_right,exists_or,he]

theorem failure_of_not_sends {op : Op} (hop : sends op = false) (ans : Ans op) :
    failure ⟨op,ans⟩ = none := by
  cases op <;> first | rfl | cases hop

def sparing : Contract Op Ans Vars :=
  .onHistory Vars (fun h op => sends op = true → ∀ f,¬Declined h f) fun h => ∀ f,¬Declined h f

def refusal : Ending sparing Fault := ⟨fun _ _ f h' _ => ∀ g,Declined h' g → g = f,fun _ h => h⟩

theorem sparing_step (op : Op) (hop : sends op = false) : sparing.Step op := by
  refine onHistory_step fun h hi => ⟨fun _ => hi,fun ans f => ?_⟩
  rw [declined_snoc (failure_of_not_sends hop ans)]
  exact hi f

theorem refusal_step (op : Op) (hop : sends op = false) : refusal.Step op := by
  intro h v f h' v' hdone
  refine ⟨fun hs => absurd (hop.symm.trans hs) (by simp),fun ans g => ?_⟩
  rw [declined_snoc (failure_of_not_sends hop ans)]
  exact hdone g

theorem WalkOp.not_sends {cs : List Candidate} {op : Op} (hop : WalkOp cs op) :
    sends op = false := by
  cases op <;> first | rfl | exact hop.elim

def refusalOf {α : Type} : Except Fault α → Option Fault
  | .error f => if decides f then some f else none
  | .ok _ => none

def Tried.refusal {α : Type} : Tried α → Option Fault
  | .skipped _ => none
  | .called r _ => refusalOf r

section Walk
variable {α : Type}

theorem refusal_post {β : Type} {out : β → Option Fault} {b : β} {f : Fault}
    (hout : out b = if decides f then some f else none) {h h' : History} {v v' : Vars}
    (hdone : ∀ g,Declined h' g → g = f) : refusal.post out h v h' (.ok b) v' := by
  by_cases hf : decides f = true
  · rw [if_pos hf] at hout
    exact (Ending.post_some hout).2 hdone
  · rw [if_neg hf] at hout
    refine (Ending.post_none hout).2 ⟨fun g hg => hf ?_,trivial⟩
    rw [← hdone g hg]
    exact hg.2

theorem failAttempt_refusal (cand : Candidate) (f : Fault) {h h₀ : History} {v v₀ : Vars}
    (hdone : ∀ g,Declined h g → g = f) :
    Spec sparing.allows (failAttempt cand f : Action (Except Fault α))
      (refusal.post refusalOf h₀ v₀) v h := by
  have hstep := refusal_step (.recordHealth cand.provider (some f)) rfl h v f h v hdone
  exact spec_call_bind.2 ⟨hstep.1,fun ans => refusal_post rfl (hstep.2 ans)⟩

theorem injecting_refusal {cand : Candidate} {body : Action (Except Fault α)}
    (hbody : Until refusal refusalOf body) : Until refusal refusalOf (injecting cand body) := by
  refine (honours_call (sparing_step (.chaos cand) rfl)).bind_until fun injected => ?_
  cases injected with
  | panicked p => exact until_panic p
  | failed e => exact fun v h hi => failAttempt_refusal cand _ fun g hg => absurd hg (hi g)
  | nothing => exact hbody

theorem declined_failure {h : History} (hi : ∀ f,¬Declined h f) {e : Event Op Ans} {f : Fault}
    (he : failure e = some f) : ∀ g,Declined (h ++ [e]) g → g = f := by
  rintro g ⟨⟨e',he',hfail⟩,hg⟩
  obtain he' | rfl : e' ∈ h ∨ e' = e := by simpa using he'
  · exact absurd ⟨⟨e',he',hfail⟩,hg⟩ (hi g)
  · exact Option.some.inj (hfail.symm.trans he)

theorem completeAttempt_refusal (req : Request) (prov : Adapter) (cand : Candidate) :
    Until refusal refusalOf (completeAttempt req prov cand) := by
  refine injecting_refusal fun v h hi => spec_call_bind.2 ⟨fun _ => hi,fun ans => ?_⟩
  cases ans with
  | panicked p => exact ⟨fun g hg => hi g ((declined_snoc rfl g).1 hg),trivial⟩
  | failed f => exact failAttempt_refusal cand f (declined_failure hi rfl)
  | body raw =>
    have hsent : ∀ g,
        ¬Declined (h ++ [⟨.complete prov { req with model := cand.model },.body raw⟩]) g :=
      fun g hg => hi g ((declined_snoc rfl g).1 hg)
    simp only []
    split
    · exact failAttempt_refusal cand _ fun g hg => absurd hg (hsent g)
    · rename_i resp _
      obtain ⟨hallow,hans⟩ := sparing_step (.recordHealth resp.provider none) rfl _ v hsent
      exact spec_call_bind.2 ⟨hallow,fun ans => hans ans⟩

theorem streamAttempt_refusal (req : Request) (prov : Adapter) (cand : Candidate) :
    Until refusal refusalOf (streamAttempt req prov cand) := by
  refine injecting_refusal fun v h hi => spec_call_bind.2 ⟨fun _ => hi,fun ans => ?_⟩
  cases ans with
  | panicked p => exact ⟨fun g hg => hi g ((declined_snoc rfl g).1 hg),trivial⟩
  | failed f => exact failAttempt_refusal cand f (declined_failure hi rfl)
  | opened s => exact ⟨fun g hg => hi g ((declined_snoc rfl g).1 hg),trivial⟩

theorem refusalOf_some {r : Except Fault α} {f : Fault} (h : refusalOf r = some f) :
    r = .error f ∧ decides f = true := by
  cases r with
  | ok a => cases h
  | error g =>
    by_cases hg : decides g = true
    · obtain rfl : g = f := by simpa [refusalOf,hg] using h
      exact ⟨rfl,hg⟩
    · simp [refusalOf,hg] at h

theorem retry_refusal {attempt : Nat → Action (Except Fault α)}
    (hattempt : ∀ n,Until refusal refusalOf (attempt n)) (base : Int) (cap : Nat) :
    Until refusal (fun r => refusalOf r.1) (retry pauses base cap attempt) := by
  refine retry_until pauses (fun err f hr => ?_) (fun _ => honours_call (sparing_step _ rfl))
    (fun _ => honours_call (sparing_step _ rfl)) hattempt base cap
  obtain ⟨⟨⟩,hf⟩ := refusalOf_some hr
  unfold decides at hf
  cases he : asProviderError err with
  | none => simp [he] at hf
  | some e => exact ⟨e,rfl,by simp_all⟩

variable {attempt : Adapter → Candidate → Action (Except Fault α)}
  (hattempt : ∀ prov cand,Until refusal refusalOf (attempt prov cand))
include hattempt

theorem tryCandidate_refusal (hd : Handler) (cb : ChainBudget) (remaining : Nat)
    (left : Option (List ChainFailure)) (cand : Candidate) :
    Until refusal Tried.refusal (hd.tryCandidate cb attempt remaining left cand) := by
  have hwalk : ∀ op,WalkOp [cand] op → sparing.Step op := fun _ hop => sparing_step _ hop.not_sends
  have hcand : cand ∈ [cand] := List.mem_singleton_self cand
  refine (breakerAllows_honours hwalk hd hcand).bind_until fun allowed => ?_
  split
  · exact until_pure rfl
  have hadmitted := admitCandidate_keeps hwalk (fun op hop => sparing_step op (by cases op <;> first
    | rfl | cases hop)) (fun _ => onHistory_modify _) cb hcand
  refine hadmitted.bind_until fun admitted => ?_
  cases admitted with
  | error e => exact until_pure rfl
  | ok d =>
    intro v h hi
    refine logFallback_bind (fun p => ⟨hi,trivial⟩) ?_
    refine ((honours_call (sparing_step _ rfl)).bind_until fun resolved => ?_) v h hi
    cases resolved with
    | error e => exact until_pure rfl
    | ok prov =>
      refine (retry_refusal (fun _ => hattempt prov cand) _ _).bind
        (fun r f h v h' v' hr hdone => ?_) fun r hr => ?_
      · obtain ⟨r,n⟩ := r
        have hcalled : (Tried.called r n).refusal = some f := hr
        simp only [Handler.breakerReport]
        split
        · obtain ⟨hallow,hans⟩ := refusal_step (.breakerReport cand _) rfl h v f h' v' hdone
          exact spec_call_bind.2 ⟨hallow,fun ans => (Ending.post_some hcalled).2 (hans ans)⟩
        · exact (Ending.post_some hcalled).2 hdone
      · exact (breakerReport_honours hwalk hd hcand _).bind_until fun _ => until_pure hr

theorem runChain_refusal (hd : Handler) (cb : ChainBudget) (chain : List Candidate) (first : Bool)
    (spent : Nat) (failures : List ChainFailure) (v : Vars) (h : History) (hi : ∀ f,¬Declined h f) :
    Spec sparing.allows (hd.runChain cb attempt first spent failures chain)
      (fun h' r _ => ∀ f,Declined h' f →
        ∃ fs c n,r = .ok (.error (fs ++ [⟨c,n,.fault f⟩]))) v h := by
  induction chain generalizing first spent failures v h with
  | nil => exact fun f hf => absurd hf (hi f)
  | cons cand rest ih =>
    unfold Handler.runChain
    simp only []
    split
    · exact fun f hf => absurd hf (hi f)
    have hwalk : ∀ op,WalkOp [] op → sparing.Step op := fun op hop => sparing_step op hop.not_sends
    refine (requestOver_honours hwalk first v h hi).bind
      (fun h₁ ended v₁ hq => ?_) fun h₁ p v₁ hq f hf => absurd hf (hq.1 f)
    split
    · exact fun f hf => absurd hf (hq.1 f)
    refine (tryCandidate_refusal hattempt hd cb _ _ cand v₁ h₁ hq.1).bind
      (fun h₂ tried v₂ hpost => ?_)
      fun h₂ p v₂ hpost f hf => absurd hf (hpost.1 f)
    cases hout : tried.refusal with
    | none =>
      obtain ⟨hi₂,-⟩ := (Ending.post_none hout).1 hpost
      match tried with
      | .skipped e => exact ih _ _ _ v₂ h₂ hi₂
      | .called (.ok a) n => exact fun f hf => absurd hf (hi₂ f)
      | .called (.error f) n =>
        simp only []
        split
        · exact ih _ _ _ v₂ h₂ hi₂
        · exact fun f hf => absurd hf (hi₂ f)
    | some f =>
      have hdone : ∀ g,Declined h₂ g → g = f := (Ending.post_some hout).1 hpost
      match tried with
      | .called r n =>
        obtain ⟨rfl,hf⟩ := refusalOf_some hout
        have hstop : shouldFallback f = false := by
          unfold decides at hf
          split at hf
          · cases hf
          · simp at hf
            exact hf.2
        simp only [hstop,Bool.false_eq_true,ite_false]
        intro g hg
        obtain rfl := hdone g hg
        exact ⟨failures,cand,n,rfl⟩

theorem runChain_declined {hd : Handler} {cb : ChainBudget} {chain : List Candidate} {v v' : Vars}
    {tr a b : History} {e : Event Op Ans} {f : Fault}
    {r : Except String (Except (List ChainFailure) (α × Candidate))}
    (hrun : (hd.runChain cb attempt true 0 [] chain v).Returns tr (r,v')) (htr : tr = a ++ e :: b)
    (he : failure e = some f) (hf : decides f = true) :
    (∀ e' ∈ b,sends e'.op = false) ∧ ∃ fs c n,r = .ok (.error (fs ++ [⟨c,n,.fault f⟩])) := by
  have hspec := runChain_refusal hattempt hd cb chain true 0 [] v [] (by simp [Declined])
  obtain ⟨hend,hallow⟩ := Prog.Spec.after hspec hrun
  constructor
  · intro e' he'
    obtain ⟨b₁,b₂,rfl⟩ := List.append_of_mem he'
    by_contra hsent
    refine hallow (a ++ e :: b₁) e' b₂ (by simp [htr]) (by simpa using hsent) f ⟨⟨e,?_,he⟩,hf⟩
    simp
  · exact hend f ⟨⟨e,by simp [htr],he⟩,hf⟩

end Walk

/-- Ollama answers a call with a 404 that says it does not have the model. -/
def NotFound (lower : String → String) (e : Event Op Ans) (err : Provider.Error) : Prop :=
  ∃ (p : Adapter) (req : Request) (status : FailedStatus) (body : OllamaErrorBody)
    (retryAfter : Int),
    p.dialect = .ollama ∧ sent e.op = some (p,req) ∧ status.code = 404 ∧ body.SaysNotFound lower ∧
      err = ollamaFailure lower p.cfg req.model status body retryAfter ∧
      failure e = some (.provider err)

theorem NotFound.decides {lower : String → String} {e : Event Op Ans} {err : Provider.Error}
    (h : NotFound lower e err) :
    failure e = some (.provider err) ∧ Proxy.decides (.provider err) = true := by
  obtain ⟨p,req,status,body,retryAfter,-,-,hcode,hmessage,rfl,hfail⟩ := h
  refine ⟨hfail,?_⟩
  simp [Proxy.decides,asProviderError,shouldFallback,ollamaFailure,ollamaClassify,hcode,hmessage]

/-- Whatever comes after the candidate in the chain: once Ollama has said that it
does not have the model, no provider is called any more and the walk fails. -/
theorem not_found_ends_walk (lower : String → String) (hd : Handler) (cb : ChainBudget)
    (req : Request) (chain : List Candidate) (v : Vars) :
    (∀ tr r v' a e b err,
      (hd.runChain cb (completeAttempt req) true 0 [] chain v).Returns tr (r,v') →
      tr = a ++ e :: b → NotFound lower e err →
      (∀ e' ∈ b,sends e'.op = false) ∧
        ∃ fs c n,r = .ok (.error (fs ++ [⟨c,n,.fault (.provider err)⟩]))) ∧
    (∀ tr r v' a e b err,
      (hd.runChain cb (streamAttempt req) true 0 [] chain v).Returns tr (r,v') →
      tr = a ++ e :: b → NotFound lower e err →
      (∀ e' ∈ b,sends e'.op = false) ∧
        ∃ fs c n,r = .ok (.error (fs ++ [⟨c,n,.fault (.provider err)⟩]))) :=
  ⟨fun _ _ _ _ _ _ _ hrun htr he =>
      runChain_declined (completeAttempt_refusal req) hrun htr he.decides.1 he.decides.2,
    fun _ _ _ _ _ _ _ hrun htr he =>
      runChain_declined (streamAttempt_refusal req) hrun htr he.decides.1 he.decides.2⟩

theorem retryingHandler_attempts : 0 < 3 ∧ (0 : Int) < 1 ∧ 3 ≤ 5 := by decide

def retryingHandler : Handler :=
  ⟨.of retryingHandler_attempts,false,false,none,none,fun _ => ""⟩

def localOllama : Adapter := ⟨⟨"p1","ollama","http://p1","",1,["m1"],1,"m1"⟩,.ollama⟩

def notPulled : Provider.Error :=
  ollamaFailure id localOllama.cfg "m1" ⟨404,by decide⟩ ⟨"",some "model 'm1' not found"⟩ 0

theorem says_not_found : OllamaErrorBody.SaysNotFound id ⟨"",some "model 'm1' not found"⟩ :=
  ⟨"model 'm1' ".toList,[],by decide +kernel⟩

theorem notPulled_kind : notPulled.kind = .invalidRequest ∧ notPulled.retryable = false := by
  simp [notPulled,ollamaFailure,ollamaClassify,says_not_found]

def askedOllama (err : Provider.Error) : Event Op Ans :=
  ⟨.stream localOllama { spentBudget.req.toProviderRequest with model := "m1" },
    .failed (.provider err)⟩

theorem askedOllama_notFound : NotFound id (askedOllama notPulled) notPulled :=
  ⟨localOllama,_,⟨404,by decide⟩,_,0,rfl,rfl,rfl,says_not_found,rfl,rfl⟩

theorem notPulled_run {err : Provider.Error} (hkind : err.kind = .invalidRequest)
    (hretry : err.retryable = false) :
    (retryingHandler.runChain spentBudget (streamAttempt spentBudget.req.toProviderRequest) true 0
      [] [⟨"p1","m1"⟩,⟨"p2","m2"⟩] .zero).Returns
      ([⟨.forModel "m1",.ok localOllama⟩,⟨.chaos ⟨"p1","m1"⟩,.nothing⟩] ++
        askedOllama err :: [⟨.recordHealth "p1" (some (.provider err)),()⟩])
      (.ok (.error [⟨⟨"p1","m1"⟩,1,.fault (.provider err)⟩]),.zero) := by
  obtain ⟨kind,provider,model,status,retryable,retryAfter,message,cause⟩ := err
  obtain rfl : kind = .invalidRequest := hkind
  obtain rfl : retryable = false := hretry
  exact .next (.next (.next (.next (.start _))))

theorem not_found_ends_walk_stream :
    ∃ a b r v,(retryingHandler.runChain spentBudget
        (streamAttempt spentBudget.req.toProviderRequest) true 0 [] [⟨"p1","m1"⟩,⟨"p2","m2"⟩]
        .zero).Returns (a ++ askedOllama notPulled :: b) (r,v) ∧
      NotFound id (askedOllama notPulled) notPulled ∧ (∀ e ∈ b,sends e.op = false) ∧
      ∃ fs c n,r = .ok (.error (fs ++ [⟨c,n,.fault (.provider notPulled)⟩])) := by
  have hrun := notPulled_run notPulled_kind.1 notPulled_kind.2
  exact ⟨_,_,_,_,hrun,askedOllama_notFound,(not_found_ends_walk id retryingHandler spentBudget _ _
    .zero).2 _ _ _ _ _ _ _ hrun rfl askedOllama_notFound⟩

/-- The walk ends at Ollama's answer, although m2 would have been admitted and
would have served the request. -/
theorem not_found_hides_fallback :
    (∃ tr v,askedOllama notPulled ∈ tr ∧ NotFound id (askedOllama notPulled) notPulled ∧
      (retryingHandler.runChain spentBudget (streamAttempt spentBudget.req.toProviderRequest) true 0
        [] [⟨"p1","m1"⟩,⟨"p2","m2"⟩] .zero).Returns tr
        (.ok (.error [⟨⟨"p1","m1"⟩,1,.fault (.provider notPulled)⟩]),v)) ∧
    ∃ tr s v,(retryingHandler.runChain spentBudget
      (streamAttempt spentBudget.req.toProviderRequest) false 1
        [⟨⟨"p1","m1"⟩,1,.fault (.provider notPulled)⟩] [⟨"p2","m2"⟩] .zero).Returns tr
        (.ok (.ok (s,⟨"p2","m2"⟩)),v) := by
  let prov : Adapter := ⟨⟨"p2","openai-compatible","","",1,["m2"],1,"m2"⟩,.openAICompatible⟩
  constructor
  · exact ⟨_,_,by simp,askedOllama_notFound,notPulled_run notPulled_kind.1 notPulled_kind.2⟩
  · refine ⟨[⟨.ctxErr,false⟩,⟨.defaultMaxTokensFor "m2",some 100⟩,
      ⟨.cost "m2" spentBudget.req.estimateInputTokens
        (spentBudget.req.estimateOutputCeiling 100),.ok 5⟩,
      ⟨.forModel "m2",.ok prov⟩,⟨.chaos ⟨"p2","m2"⟩,.nothing⟩,
      ⟨.stream prov { spentBudget.req.toProviderRequest with model := "m2" },.opened ⟨[],.eof⟩⟩],
      ⟨[],.eof⟩,.zero,?_⟩
    exact .next (.next (.next (.next (.next (.next (.start _))))))

end Switchyard.Proxy
