import Switchyard.ChainReports
import Switchyard.RecoveryLoop
set_option autoImplicit false

/-!
What one team's requests do to the breakers and passive windows that all teams
share. Walks over chains (internal/proxy/fallback.go, runChain) run at once; the
breakers' and the recorder's calls among theirs drive the gateway.
-/

namespace Switchyard.Proxy
open CallTree Provider Resilience Health StepRuns

structure Walk where
  budget : ChainBudget
  request : Request
  chain : List Candidate
  stream : Bool

def Walk.run (hd : Handler) (w : Walk) : Program Unit :=
  if w.stream then do
    let _ ← hd.runChain w.budget (streamAttempt w.request) true 0 [] w.chain .zero
    pure ()
  else do
    let _ ← hd.runChain w.budget (completeAttempt w.request) true 0 [] w.chain .zero
    pure ()

/-! The gateway that the walks drive. -/

/-- What surrounds a call: clock readings, the latency measured, what the
breaker's store answers, and whether the request's client has gone. -/
structure Moment where
  now : Int
  later : Int
  latency : Int
  load : Except String SharedState
  claim : Except String Bool
  reply : Except String SharedState
  publish : Except String Unit
  clientGone : Bool

def Moment.action (m : Moment) : Op → Option Gateway.Action
  | .breakerAllow c => some (.allow c m.now m.later m.load m.claim)
  | .breakerReport c true => some (.recordSuccess c m.now m.later m.reply)
  | .breakerReport c false => some (.recordFailure c m.now m.later m.publish)
  | .recordHealth q err => some (.record q m.latency err m.now)
  | _ => none

def hear (cfg : Setup) (m : Moment) (g : Gateway) (op : Op) : Option Gateway :=
  match m.action op with
  | none => some g
  | some a => g.step cfg a

/-- A request is given the chance to take a step. The providers, the clock and
whatever else is not the gateway answer as they would any call of the request
here; none lets it wait. -/
structure Turn where
  thread : Nat
  moment : Moment
  answer : (op : Op) → Option (Ans op)

def Turn.reply (cfg : Setup) (u : Turn) (g : Gateway) : (op : Op) → Option (Ans op)
  | .breakerAllow c => some ((g.breakerFor cfg c).allow cfg.breaker u.moment.now u.moment.later
      u.moment.load u.moment.claim).1
  | op => u.answer op

/-- What is left of each request, and the gateway. -/
structure Traffic where
  walks : List (Program Unit)
  gateway : Gateway

namespace Traffic

def start (hd : Handler) (providers : List (String × Status)) (requests : List Walk) : Traffic :=
  ⟨requests.map (Walk.run hd),.start providers⟩

def pending (s : Traffic) (i : Nat) : Option Op :=
  match s.walks[i]? with
  | some (.call op _) => some op
  | _ => none

def step (cfg : Setup) (s : Traffic) (u : Turn) : Option Traffic :=
  match s.walks[u.thread]? with
  | some (.call op k) =>
    match u.reply cfg s.gateway op with
    | none => some s
    | some ans => (hear cfg u.moment s.gateway op).map fun g => ⟨s.walks.set u.thread (k ans),g⟩
  | _ => some s

end Traffic

/-- A provider call of the request fails, by a fault of the request or after its
client has gone. -/
def OwnFault (s : Traffic) (u : Turn) : Prop :=
  ∀ q err,s.pending u.thread = some (.recordHealth q err) →
    ∃ f,err = some f ∧ (shouldFallback f = false ∨ u.moment.clientGone = true)

def touched : Op → Option String
  | .breakerAllow c => some c.provider
  | .breakerReport c _ => some c.provider
  | .recordHealth q _ => some q
  | _ => none

/-- Changed requests fail by their own fault. Those that are exposed call
providers of T only, the others call none of these. -/
structure Apart (T : String → Prop) (exposed changed : Nat → Bool) (s : Traffic) (u : Turn) :
    Prop where
  fault : changed u.thread = true → OwnFault s u
  side : ∀ op ∈ s.pending u.thread,∀ q ∈ touched op,T q ↔ exposed u.thread = true

/-- The histories differ in changed requests, which are exposed. -/
structure Differ (exposed changed : Nat → Bool) (requests : List Walk) (h : List Turn)
    (requests' : List Walk) (h' : List Turn) : Prop where
  exposed : ∀ i,changed i = true → exposed i = true
  others : ∀ i,changed i = false → requests[i]? = requests'[i]?
  turns : h.filter (fun u => !changed u.thread) = h'.filter fun u => !changed u.thread

/-- The breakers of p are in the same state with the same failures, and p's
window is the same. -/
def Agree (cfg : Setup) (p : String) (t t' : Gateway) : Prop :=
  (∀ c : Candidate,c.provider = p →
    (t.breakerFor cfg c).breaker.state = (t'.breakerFor cfg c).breaker.state ∧
    (t.breakerFor cfg c).breaker.failures = (t'.breakerFor cfg c).breaker.failures) ∧
  t.window p = t'.window p

/-! What of the gateway is not on T. -/

variable {T : String → Prop}

def clear (T : String → Prop) (g : Gateway) :
    ({c : Candidate // ¬T c.provider} → Option SharedBreaker) × ({q // ¬T q} → Option Window) :=
  (fun c => g.breakers.lookup c.1,fun q => g.windows.lookup q.1)

variable {cfg : Setup} {g g' t t' : Gateway} {c : Candidate} {m : Moment} {op : Op}

theorem breakerFor_congr (hclear : clear T g = clear T g') (hc : ¬T c.provider) :
    g.breakerFor cfg c = g'.breakerFor cfg c := by
  have hlookup : g.breakers.lookup c = g'.breakers.lookup c :=
    congrFun (congrArg Prod.fst hclear) ⟨c,hc⟩
  rw [Gateway.breakerFor,Gateway.breakerFor,hlookup]

theorem clear_insert (hclear : clear T g = clear T g') {b b' : SharedBreaker}
    (hb : ¬T c.provider → b = b') :
    clear T { g with breakers := g.breakers.insert c b } =
      clear T { g' with breakers := g'.breakers.insert c b' } := by
  have hwindows : (clear T g).2 = (clear T g').2 := congrArg Prod.snd hclear
  refine Prod.ext (funext fun d => ?_) hwindows
  have hlookup := congrFun (congrArg Prod.fst hclear) d
  obtain ⟨d,hd⟩ := d
  by_cases hdc : d = c
  · subst hdc
    simp [clear,hb hd]
  · simpa [clear,AList.lookup_insert_ne hdc] using hlookup

theorem clear_insert_other (hc : T c.provider) (b : SharedBreaker) :
    clear T { g with breakers := g.breakers.insert c b } = clear T g := by
  refine Prod.ext (funext fun d => ?_) rfl
  have hne : d.1 ≠ c := fun heq => d.2 (heq ▸ hc)
  exact AList.lookup_insert_ne hne

theorem hear_clear_other (h : hear cfg m g op = some t) (hT : ∀ q ∈ touched op,T q) :
    clear T t = clear T g := by
  cases op with
  | breakerAllow c =>
    cases h
    exact clear_insert_other (hT _ rfl) _
  | breakerReport c success =>
    cases success <;>
    · cases h
      exact clear_insert_other (hT _ rfl) _
  | recordHealth q err =>
    simp only [hear,Moment.action,Gateway.step] at h
    split at h
    · cases h
      rfl
    · cases h
      have hne : ∀ d : {d // ¬T d},d.1 ≠ q := fun d heq => d.2 (heq ▸ hT q rfl)
      exact Prod.ext rfl (funext fun d => AList.lookup_insert_ne (hne d))
  | _ =>
    cases h
    rfl

theorem hear_clear (hclear : clear T g = clear T g') (hT : ∀ q ∈ touched op,¬T q)
    (h : hear cfg m g op = some t) (h' : hear cfg m g' op = some t') : clear T t = clear T t' := by
  cases op with
  | breakerAllow c =>
    cases h
    cases h'
    exact clear_insert hclear fun hc => by rw [breakerFor_congr hclear hc]
  | breakerReport c success =>
    cases success <;>
    · cases h
      cases h'
      exact clear_insert hclear fun hc => by rw [breakerFor_congr hclear hc]
  | recordHealth q err =>
    have hwindow : g.windows.lookup q = g'.windows.lookup q :=
      congrFun (congrArg Prod.snd hclear) ⟨q,hT q rfl⟩
    have hbreakers := congrArg Prod.fst hclear
    simp only [hear,Moment.action,Gateway.step,← hwindow] at h h'
    split at h
    next hnone =>
      simp only [hnone,Option.some.injEq] at h'
      cases h
      cases h'
      exact hclear
    next w hsome =>
      simp only [hsome,Option.some.injEq] at h'
      cases h
      cases h'
      refine Prod.ext hbreakers (funext fun d => ?_)
      have hlookup := congrFun (congrArg Prod.snd hclear) d
      obtain ⟨d,hd⟩ := d
      by_cases hdq : d = q
      · simp [clear,hdq]
      · simpa [clear,AList.lookup_insert_ne hdq] using hlookup
  | _ =>
    cases h
    cases h'
    exact hclear

theorem reply_congr (hclear : clear T g = clear T g') (hT : ∀ q ∈ touched op,¬T q) (u : Turn) :
    u.reply cfg g op = u.reply cfg g' op := by
  cases op with
  | breakerAllow c =>
    simp only [Turn.reply]
    rw [breakerFor_congr hclear (hT _ rfl)]
  | _ => rfl

theorem agree_of_clear {p : String} (hp : ¬T p) (hclear : clear T t = clear T t') :
    Agree cfg p t t' := by
  have hwindow : t.windows.lookup p = t'.windows.lookup p :=
    congrFun (congrArg Prod.snd hclear) ⟨p,hp⟩
  refine ⟨fun c hc => ?_,by rw [Gateway.window,Gateway.window,hwindow]⟩
  rw [breakerFor_congr hclear (hc ▸ hp)]
  exact ⟨rfl,rfl⟩

/-! Two histories. -/

section Histories

variable {exposed changed : Nat → Bool} {s s' r r' : Traffic} {u : Turn}

def unexposed (T : String → Prop) (exposed : Nat → Bool) (s : Traffic) :=
  ((fun i => s.walks[i.1]? : {i // exposed i = false} → Option (Program Unit)),clear T s.gateway)

theorem step_unexposed_other (hu : Apart T exposed changed s u) (h : s.step cfg u = some r)
    (hexposed : exposed u.thread = true) : unexposed T exposed r = unexposed T exposed s := by
  have hside := hu.side
  unfold Traffic.pending at hside
  unfold Traffic.step at h
  split at h
  next op k hwalk =>
    simp only [hwalk,Option.mem_def,Option.some.injEq,forall_eq'] at hside
    split at h
    · cases h
      rfl
    · obtain ⟨g,hhear,rfl⟩ := Option.map_eq_some_iff.1 h
      have hne : ∀ i : {i // exposed i = false},u.thread ≠ i.1 := fun i heq => by
        simp [heq,i.2] at hexposed
      exact Prod.ext (funext fun i => List.getElem?_set_ne (hne i))
        (hear_clear_other hhear fun q hq => (hside q hq).2 hexposed)
  next =>
    cases h
    rfl

theorem step_unexposed (hu : Apart T exposed changed s u)
    (hexposed : exposed u.thread = false) (hsame : unexposed T exposed s = unexposed T exposed s')
    (h : s.step cfg u = some r) (h' : s'.step cfg u = some r') :
    unexposed T exposed r = unexposed T exposed r' := by
  have hside := hu.side
  have hclear : clear T s.gateway = clear T s'.gateway := congrArg Prod.snd hsame
  have hwalk : s.walks[u.thread]? = s'.walks[u.thread]? :=
    congrFun (congrArg Prod.fst hsame) ⟨u.thread,hexposed⟩
  unfold Traffic.pending at hside
  unfold Traffic.step at h h'
  rw [← hwalk] at h'
  split at h
  next op k hcall =>
    simp only [hcall,Option.mem_def,Option.some.injEq,forall_eq'] at hside
    have hT : ∀ q ∈ touched op,¬T q := fun q hq => by simpa [hexposed] using (hside q hq)
    simp only [hcall,← reply_congr hclear hT u] at h'
    split at h
    next hnone =>
      simp only [hnone] at h'
      cases h
      cases h'
      exact hsame
    next ans hans =>
      simp only [hans] at h'
      obtain ⟨g,hhear,rfl⟩ := Option.map_eq_some_iff.1 h
      obtain ⟨g',hhear',rfl⟩ := Option.map_eq_some_iff.1 h'
      refine Prod.ext (funext fun i => ?_) (hear_clear hclear hT hhear hhear')
      have hrest : s.walks[i.1]? = s'.walks[i.1]? := congrFun (congrArg Prod.fst hsame) i
      simp only [unexposed,List.getElem?_set',hrest]
  next hcall =>
    cases h
    split at h'
    next op k hcall' => exact (hcall op k hcall').elim
    next =>
      cases h'
      exact hsame

/-- The turns of the requests that are not exposed are the same in both histories,
and the others leave what these requests see. -/
theorem agree_of_differ {hd : Handler} {providers : List (String × Status)} {p : String}
    (hp : ¬T p) {requests requests' : List Walk} {h h' : List Turn}
    (hr : Reaches (Traffic.step cfg) (Apart T exposed changed) (.start hd providers requests) h r)
    (hr' : Reaches (Traffic.step cfg) (Apart T exposed changed) (.start hd providers requests')
      h' r')
    (hdiff : Differ exposed changed requests h requests' h') :
    Agree cfg p r.gateway r'.gateway := by
  have hunchanged : ∀ {i},exposed i = false → changed i = false := fun {i} hi => by
    by_contra hchanged
    simp [hdiff.exposed i (by simpa using hchanged)] at hi
  have hfilter : ∀ l : List Turn,l.filter (fun u => !exposed u.thread) =
      (l.filter fun u => !changed u.thread).filter fun u => !exposed u.thread := by
    intro l
    rw [List.filter_filter]
    refine List.filter_congr fun u _ => ?_
    cases hexposed : exposed u.thread with
    | true => simp
    | false => simp [hunchanged hexposed]
  have hstart : unexposed T exposed (.start hd providers requests) =
      unexposed T exposed (.start hd providers requests') := by
    refine Prod.ext (funext fun i => ?_) rfl
    simp only [unexposed,Traffic.start,List.getElem?_map,hdiff.others i.1 (hunchanged i.2)]
  have hend : unexposed T exposed r = unexposed T exposed r' := by
    refine hr.view_eq (fun u => !exposed u.thread) ?_ ?_ hr' hstart ?_
    · intro s s' u t t' hown hok _ hsame hs hs'
      exact step_unexposed hok (by simpa using hown) hsame hs hs'
    · intro s u t hok hs hother
      exact step_unexposed_other hok hs (by simpa using hother)
    · rw [hfilter h,hfilter h',hdiff.turns]
  exact agree_of_clear hp (congrArg Prod.snd hend)

end Histories

/-! A request that its provider rejects. -/

def anyAdapter : Adapter :=
  ⟨⟨"p1","openai-compatible","","",1,["m1"],1,"m1"⟩,.openAICompatible⟩

def malformed : Fault := .provider ⟨.invalidRequest,"p","m",400,false,0,"",none⟩

theorem attemptFrom_rejected {Op : Type} {Ans : Op → Type} {σ α : Type} (env : Pauses Op Ans σ)
    (base : Int) {attempt : Nat → Act Op Ans σ (Except Fault α)} {n : Nat} {v v' : σ}
    {tr : List (Event Op Ans)} (hone : (attempt n v).Returns tr (.ok (.error malformed),v'))
    (left : Nat) :
    (attemptFrom env base attempt left n v).Returns tr (.ok (.error malformed,n),v') := by
  cases left with
  | zero => exact returns_bind.2 ⟨tr,_,[],by simp,hone,.start _⟩
  | succ left => exact returns_bind.2 ⟨tr,_,[],by simp,hone,.start _⟩

def attemptCalls (c : Candidate) (prov : Adapter) (req : Request) (f : Fault) : History :=
  [⟨.chaos c,.nothing⟩,⟨.complete prov { req with model := c.model },.failed f⟩,
    ⟨.recordHealth c.provider (some f),()⟩]

def rejectedCalls (c : Candidate) (prov : Adapter) (req : Request) (f : Fault) : History :=
  [⟨.breakerAllow c,true⟩] ++ ([⟨.forModel c.model,.ok prov⟩] ++ (attemptCalls c prov req f ++
    [⟨.breakerReport c false,()⟩]))

theorem tryCandidate_rejected {hd : Handler} (hon : hd.breakers = true) {cb : ChainBudget}
    (hmodel : c.model = cb.req.model) (prov : Adapter) (req : Request) (remaining : Nat)
    (v : Vars) :
    (hd.tryCandidate cb (completeAttempt req) remaining none c v).Returns
      (rejectedCalls c prov req malformed) (.ok (.called (.error malformed) 1),v) := by
  have hallow : (hd.breakerAllows c v).Returns [⟨.breakerAllow c,true⟩] (.ok true,v) := by
    unfold Handler.breakerAllows
    rw [if_pos hon]
    exact .next (.start _)
  have hbudget : (cb.admitCandidate c.model v).Returns [] (.ok (.ok 0),v) := by
    unfold ChainBudget.admitCandidate
    rw [if_pos hmodel]
    exact .start _
  have hattempt : (completeAttempt req prov c v).Returns (attemptCalls c prov req malformed)
      (.ok (.error malformed),v) := .next (.next (.next (.start _)))
  have hretry : ∀ cap,(retry pauses hd.retryConfig.baseDelay cap
      (fun _ => completeAttempt req prov c) v).Returns (attemptCalls c prov req malformed)
      (.ok (.error malformed,1),v) := by
    intro cap
    unfold retry
    exact attemptFrom_rejected pauses _ hattempt _
  have hreport : (hd.breakerReport c false v).Returns [⟨.breakerReport c false,()⟩] (.ok (),v) := by
    unfold Handler.breakerReport
    rw [if_pos hon]
    exact .next (.start _)
  unfold Handler.tryCandidate
  refine returns_bind.2 ⟨_,_,_,rfl,hallow,?_⟩
  refine returns_bind.2 ⟨[],_,_,rfl,hbudget,?_⟩
  refine returns_bind.2 ⟨[],_,_,rfl,.start _,?_⟩
  refine returns_bind.2 ⟨[⟨.forModel c.model,.ok prov⟩],_,_,rfl,.next (.start _),?_⟩
  refine returns_bind.2 ⟨_,_,_,rfl,hretry _,?_⟩
  exact returns_bind.2 ⟨_,_,[],rfl,hreport,.start _⟩

theorem runChain_rejected {hd : Handler} (hon : hd.breakers = true) {cb : ChainBudget}
    (hmodel : c.model = cb.req.model) (prov : Adapter) (req : Request) (v : Vars) :
    (hd.runChain cb (completeAttempt req) true 0 [] [c] v).Returns
      (rejectedCalls c prov req malformed) (.ok (.error [⟨c,1,.fault malformed⟩]),v) := by
  have hpos : hd.retryConfig.maxTotalAttempts-0 ≠ 0 := by
    have := hd.retryConfig.attempts_pos
    have := hd.retryConfig.attempts_le
    omega
  unfold Handler.runChain
  simp only [if_neg hpos]
  have htry := tryCandidate_rejected hon hmodel prov req (hd.retryConfig.maxTotalAttempts-0) v
  refine returns_bind.2 ⟨[],_,_,rfl,.start _,?_⟩
  exact returns_bind.2 ⟨_,_,[],(List.append_nil _).symm,htry,.start _⟩

def firstMoment (clientGone : Bool) : Moment :=
  ⟨0,0,0,.error "",.error "",.error "",.error "",clientGone⟩

def failing (f : Fault) (clientGone : Bool) : Turn where
  thread := 0
  moment := firstMoment clientGone
  answer
    | .forModel _ => some (.ok anyAdapter)
    | .chaos _ => some .nothing
    | .complete _ _ => some (.failed f)
    | .recordHealth _ _ => some ()
    | .breakerReport _ _ => some ()
    | _ => none

def soleWalk (c : Candidate) : Walk :=
  let req : ChatRequest := { spentBudget.req with model := c.model }
  ⟨{ spentBudget with req },req.toProviderRequest,[c],false⟩

theorem alone_run {ok : Traffic → Turn → Prop} {u : Turn} {prog q : Program Unit} {tr : History}
    (hrun : prog.After tr q) (hu : u.thread = 0)
    (hok : ∀ e ∈ tr,∀ s : Traffic,s.pending 0 = some e.op → ok s u)
    (hheard : Reaches (fun g e => hear cfg u.moment g e.op)
      (fun g e => u.reply cfg g e.op = some e.ans) g tr t) :
    Reaches (Traffic.step cfg) ok ⟨[prog],g⟩ (tr.map fun _ => u) ⟨[q],t⟩ := by
  induction hrun generalizing g with
  | start p =>
    cases hheard
    exact .stop _
  | next _ ih =>
    cases hheard with
    | next hreply hhear hrest =>
      refine .next (hok _ List.mem_cons_self _ rfl) ?_
        (ih (fun e he => hok e (List.mem_cons_of_mem _ he)) hrest)
      simp only [Traffic.step,hu,List.getElem?_cons_zero,hreply,hhear]
      rfl

theorem rejected_call {req : Request} {f : Fault} {e : Event Op Ans}
    (he : e ∈ rejectedCalls c anyAdapter req f) : (∀ q ∈ touched e.op,q = c.provider) ∧
      ∀ q err,e.op = .recordHealth q err → err = some f := by
  simp only [rejectedCalls,attemptCalls,List.cons_append,List.nil_append,List.mem_cons,
    List.not_mem_nil,or_false] at he
  obtain rfl | rfl | rfl | rfl | rfl | rfl := he <;> simp [touched,eq_comm]

theorem rejected_ownFault {req : Request} {f : Fault} {gone : Bool}
    (hf : shouldFallback f = false ∨ gone = true) {e : Event Op Ans}
    (he : e ∈ rejectedCalls c anyAdapter req f) (s : Traffic) (hs : s.pending 0 = some e.op) :
    OwnFault s (failing f gone) := by
  intro q err hop
  exact ⟨f,(rejected_call he).2 q err (Option.some.inj (hs.symm.trans hop)),hf⟩

theorem fresh_allow (cfg : BreakerConfig) (shared : Bool) :
    let r : SharedBreaker := ⟨newSharedBreaker cfg shared,⟨none,none⟩⟩
    (r.allow cfg 0 0 (.error "") (.error "")).1 = true ∧
      (r.allow cfg 0 0 (.error "") (.error "")).2.breaker = newSharedBreaker cfg shared := by
  cases shared <;> exact ⟨rfl,rfl⟩

theorem fresh_failure {cfg : BreakerConfig} {shared : Bool} {r : SharedBreaker}
    (hr : r.breaker = newSharedBreaker cfg shared) (answer : Except String Unit) :
    (r.recordFailure cfg 0 0 answer).2.breaker.state ≠ .closed ∨
      (r.recordFailure cfg 0 0 answer).2.breaker.failures ≠ [] := by
  have hfail : r.breaker.Failed cfg 0 _ := Breaker.recordFailureLocally_failed
  unfold SharedBreaker.recordFailure
  generalize r.breaker.recordFailureLocally cfg 0 = out at hfail
  cases hfail with
  | ignored hopen =>
    rw [hr] at hopen
    cases hopen
  | counted _ _ =>
    have hlive : 0 ≤ cfg.window := cfg.window_pos.le
    exact .inr (by simp [hr,newSharedBreaker,pruneBefore,hlive])
  | opens _ _ =>
    left
    cases (r.breaker.open cfg 0).opened with
    | none => simp [Breaker.open,Breaker.setState]
    | some episode =>
      cases answer <;> simp [SharedBreaker.publishOpen,Breaker.open,Breaker.setState]

theorem record_breakers (cfg : Setup) (s : Gateway) (q : String) (latency : Int)
    (err : Option Fault) (now : Int) :
    ∃ t,s.step cfg (.record q latency err now) = some t ∧ t.breakers = s.breakers := by
  simp only [Gateway.step]
  split
  · exact ⟨s,rfl,rfl⟩
  · exact ⟨_,rfl,rfl⟩

theorem rejected_traffic {hd : Handler} (hon : hd.breakers = true) (cfg : Setup)
    (providers : List (String × Status)) (hc : T c.provider) :
    ∃ h t,Reaches (Traffic.step cfg) (Apart T (fun _ => true) fun _ => true)
        (.start hd providers [soleWalk c]) h t ∧
      ((t.gateway.breakerFor cfg c).breaker.state ≠ .closed ∨
        (t.gateway.breakerFor cfg c).breaker.failures ≠ []) := by
  obtain ⟨hallowed,hkept⟩ := fresh_allow cfg.breaker cfg.shared
  have hfresh : (Gateway.start providers).breakerFor cfg c =
      ⟨newSharedBreaker cfg.breaker cfg.shared,⟨none,none⟩⟩ := rfl
  let asked : Gateway := { Gateway.start providers with
    breakers := (Gateway.start providers).breakers.insert c
      (((Gateway.start providers).breakerFor cfg c).allow cfg.breaker 0 0 (.error "")
        (.error "")).2 }
  obtain ⟨noted,hnoted,hbreakers⟩ := record_breakers cfg asked c.provider 0 (some malformed) 0
  have hasked : (noted.breakerFor cfg c).breaker = newSharedBreaker cfg.breaker cfg.shared := by
    rw [Gateway.breakerFor,hbreakers]
    simpa [asked,hfresh] using hkept
  have hfailed := fresh_failure hasked (.error "")
  let marked : Gateway := { noted with
    breakers := noted.breakers.insert c
      ((noted.breakerFor cfg c).recordFailure cfg.breaker 0 0 (.error "")).2 }
  have hrun : ((soleWalk c).run hd).Returns
      (rejectedCalls c anyAdapter (soleWalk c).request malformed) () :=
    returns_bind.2 ⟨_,_,[],(List.append_nil _).symm,
      runChain_rejected hon rfl anyAdapter (soleWalk c).request .zero,.start _⟩
  refine ⟨_,⟨[.ret ()],marked⟩,alone_run (u := failing malformed false) hrun rfl ?_ ?_,
    by simpa [marked,Gateway.breakerFor] using hfailed⟩
  · intro e he s hs
    refine ⟨fun _ => rejected_ownFault (.inl rfl) he s hs,fun op hop q hq => ?_⟩
    obtain rfl := Option.some.inj (hs.symm.trans hop)
    obtain rfl := (rejected_call he).1 q hq
    simpa using hc
  · exact .next (congrArg some hallowed) rfl (.next rfl rfl (.next rfl rfl (.next rfl rfl
      (.next rfl hnoted (.next rfl rfl (.stop _))))))

/-- Requests that fail by their own fault leave a provider's breakers and window
as they are exactly when it is not among the providers that they call, and that
requests on these providers call. -/
theorem provider_unaffected_iff (hd : Handler) (hon : hd.breakers = true) (cfg : Setup)
    (providers : List (String × Status)) (T : String → Prop) (p : String) :
    (∀ exposed changed requests h t requests' h' t',
        Reaches (Traffic.step cfg) (Apart T exposed changed) (.start hd providers requests) h t →
        Reaches (Traffic.step cfg) (Apart T exposed changed) (.start hd providers requests') h' t' →
        Differ exposed changed requests h requests' h' → Agree cfg p t.gateway t'.gateway) ↔
      ¬T p := by
  refine ⟨fun hagree hp => ?_,fun hp exposed changed requests h t requests' h' t' ht ht' hdiff =>
    agree_of_differ hp ht ht' hdiff⟩
  obtain ⟨h,t,ht,hmark⟩ := rejected_traffic (c := ⟨p,""⟩) hon cfg providers hp
  have hdiff : Differ (fun _ => true) (fun _ => true) [soleWalk ⟨p,""⟩] h [] [] :=
    ⟨by simp,by simp,by simp⟩
  obtain ⟨hstate,hfailures⟩ := (hagree _ _ _ _ _ _ _ _ ht (.stop _) hdiff).1 ⟨p,""⟩ rfl
  obtain hmark | hmark := hmark
  · exact hmark hstate
  · exact hmark hfailures

/-- Requests to p1 alone do not touch p2, and do touch p1. -/
theorem provider_unaffected_elsewhere :
    let start := Traffic.start guardedHandler [("p1",.healthy),("p2",.healthy)]
    let Unaffected (p : String) : Prop := ∀ exposed changed requests h t requests' h' t',
      Reaches (Traffic.step touchy) (Apart (· = "p1") exposed changed) (start requests) h t →
      Reaches (Traffic.step touchy) (Apart (· = "p1") exposed changed) (start requests') h' t' →
      Differ exposed changed requests h requests' h' → Agree touchy p t.gateway t'.gateway
    guardedHandler.breakers = true ∧ Unaffected "p2" ∧ ¬Unaffected "p1" := by
  intro start Unaffected
  refine ⟨rfl,(provider_unaffected_iff guardedHandler rfl touchy _ _ "p2").2 (by decide),
    fun hagree => ?_⟩
  exact (provider_unaffected_iff guardedHandler rfl touchy _ _ "p1").1 hagree rfl

def seenByAll (t : Gateway) : BreakerState × ℚ × Option Status :=
  let c : Candidate := ⟨"p1","m1"⟩
  ((t.breakerFor touchy c).breaker.state,((t.window "p1").stats 1).errorRate,
    (t.step touchy (.observe "p1" none 1)).map fun u => u.status "p1")

def hungUp : Fault := .provider ⟨.networkError,"p1","m1",0,true,0,"context canceled",none⟩

/-- One malformed request, or one whose client hangs up, opens the breaker that all
teams share and takes the provider down for them. -/
theorem own_fault_takes_provider_down :
    let start := Traffic.start guardedHandler [("p1",.healthy)]
    (∃ h t,Reaches (Traffic.step touchy) OwnFault (start [soleWalk ⟨"p1","m1"⟩]) h t ∧
      (∀ u ∈ h,u.moment.clientGone = false) ∧ t.walks = [.ret ()] ∧
      seenByAll t.gateway = (.open,1,some .down)) ∧
    (∃ h t,Reaches (Traffic.step touchy) OwnFault (start [soleWalk ⟨"p1","m1"⟩]) h t ∧
      (∀ u ∈ h,u.moment.clientGone = true) ∧ t.walks = [.ret ()] ∧
      seenByAll t.gateway = (.open,1,some .down)) ∧
    seenByAll (start []).gateway = (.closed,0,some .healthy) := by
  intro start
  let c : Candidate := ⟨"p1","m1"⟩
  have hmalformed : ((soleWalk c).run guardedHandler).Returns
      (rejectedCalls c anyAdapter (soleWalk c).request malformed) () :=
    .next (.next (.next (.next (.next (.next (.start _))))))
  have hhungUp : ((soleWalk c).run guardedHandler).Returns
      (rejectedCalls c anyAdapter (soleWalk c).request hungUp) () :=
    .next (.next (.next (.next (.next (.next (.start _))))))
  refine ⟨⟨_,⟨_,_⟩,alone_run (u := failing malformed false) hmalformed rfl
      (fun e he s hs => rejected_ownFault (.inl rfl) he s hs) (.next rfl rfl (.next rfl rfl
      (.next rfl rfl (.next rfl rfl (.next rfl rfl (.next rfl rfl (.stop _))))))),?_,rfl,?_⟩,
    ⟨_,⟨_,_⟩,alone_run (u := failing hungUp true) hhungUp rfl
      (fun e he s hs => rejected_ownFault (.inr rfl) he s hs) (.next rfl rfl (.next rfl rfl
      (.next rfl rfl (.next rfl rfl (.next rfl rfl (.next rfl rfl (.stop _))))))),?_,rfl,?_⟩,?_⟩
  · simp [failing,firstMoment]
  · decide +kernel
  · simp [failing,firstMoment]
  · decide +kernel
  · decide +kernel

end Switchyard.Proxy
