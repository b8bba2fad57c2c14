import Switchyard.ChainOrder
import Switchyard.RoutingPolicy
set_option autoImplicit false

/-!
Where a chat request may be sent within one configuration generation
(internal/proxy/route.go, internal/router/policy.go): a routed one to its tier,
any other to the model it names and that model's own tier.
-/

namespace Switchyard.Config

theorem resolveModel_named {label : String} {models : List ModelEntry}
    {pricing : List (String × ModelPricing)}
    (h : models.foldlM (resolveModel label) [] = .ok pricing) : "" ∉ pricing.map Prod.fst := by
  refine StepRuns.foldlM_invariant (d := [])
    (I := fun _ (acc : List (String × ModelPricing)) => "" ∉ acc.map Prod.fst) ?_ h (by simp)
  intro done acc m acc' hacc hm
  unfold resolveModel at hm
  split_ifs at hm with hname
  obtain rfl := Except.ok.inj hm
  rw [List.map_append,List.mem_append]
  simpa [Ne.symm hname] using hacc

theorem ProviderEntry.resolve_named {sur : Surroundings} {e : ProviderEntry} {label : String}
    {cfg : Provider.Config} {pricing : List (String × ModelPricing)}
    (h : e.resolve sur label = .ok (cfg,pricing)) : "" ∉ pricing.map Prod.fst := by
  unfold ProviderEntry.resolve at h
  repeat' split at h
  all_goals cases h
  exact resolveModel_named ‹_›

theorem loadProviders_named {sur : Surroundings} {path : String} {file : ProvidersFile}
    {p : Providers} (h : loadProviders sur path file = .ok p) :
    ∀ cfg ∈ p.configs,cfg.name ≠ "" ∧ "" ∉ cfg.models := by
  obtain ⟨l,hl,-,hcfgs,-⟩ := loadProviders_cases h
  rw [hcfgs]
  refine StepRuns.foldlM_invariant (d := [])
    (I := fun _ (l : Loading) => ∀ cfg ∈ l.configs,cfg.name ≠ "" ∧ "" ∉ cfg.models) ?_ hl
    (by simp [Loading.start])
  intro done l e l' hi hx
  obtain ⟨label,cfg,pricing,owner,provider,hr,-,-,rfl⟩ := Loading.entry_cases hx
  obtain ⟨hname,hcfg,hmodels,-⟩ := ProviderEntry.resolve_spec hr
  intro d hd
  obtain hd | rfl : d ∈ l.configs ∨ d = cfg := by
    split at hd
    · simpa using hd
    · exact .inl hd
  · exact hi d hd
  · exact ⟨hcfg ▸ hname,hmodels ▸ ProviderEntry.resolve_named hr⟩

end Switchyard.Config

namespace Switchyard.Gateway
open Config Resilience

theorem LiveConfig.Loaded.named {c : LiveConfig} (h : c.Loaded) {m : String} {p : Provider.Adapter}
    (hm : c.registry.forModel m = .ok p) : (⟨p.name,m⟩ : Candidate).complete = true := by
  obtain ⟨sur,path,file,h⟩ := h
  obtain ⟨providers,hp,hr,-⟩ := loadLiveConfig_cases h
  obtain ⟨hcfg,hlisted⟩ := (Provider.newRegistry_spec hr).served m p (forModel_ok.1 hm)
  obtain ⟨hname,hmodels⟩ := loadProviders_named hp _ hcfg
  refine decide_eq_true ⟨hname,fun (hempty : m = "") => hmodels ?_⟩
  rwa [hempty] at hlisted

end Switchyard.Gateway

namespace Switchyard.Proxy
open CallTree Act Provider Resilience Gateway

/-! What routing was told. -/

section Route
variable {hd : Handler} {team : Auth.Team}

def Permits (team : Auth.Team) (tier : List Candidate) : Prop :=
  ∃ d ∈ tier,d.complete = true ∧ teamAllows team d.provider d.model = true

theorem firstNotOpen_returns {head c : Candidate} {cs : List Candidate} {tr : History}
    (h : (hd.firstNotOpen head cs).Returns tr c) : c = head ∨ c ∈ cs := by
  induction cs generalizing tr with
  | nil =>
    obtain ⟨-,rfl⟩ := returns_pure.1 h
    exact .inl rfl
  | cons d cs ih =>
    unfold Handler.firstNotOpen at h
    split at h
    · obtain ⟨_,state,_,rfl,-,h⟩ := returns_bind.1 h
      split at h
      · obtain hc | hc := ih h
        · exact .inl hc
        · exact .inr (List.mem_cons_of_mem _ hc)
      · obtain ⟨-,rfl⟩ := returns_pure.1 h
        exact .inr List.mem_cons_self
    · obtain ⟨-,rfl⟩ := returns_pure.1 h
      exact .inr List.mem_cons_self

theorem mem_permitted_tier {c : Candidate} {tier : List Candidate} :
    c ∈ permittedCandidates ⟨"",""⟩ tier (teamAllows team) ↔
      c ∈ tier ∧ c.complete = true ∧ teamAllows team c.provider c.model = true := by
  rw [permittedCandidates_eq,mem_permittedOptions,List.mem_cons]
  refine ⟨fun ⟨hc,hrest⟩ => ⟨hc.resolve_left ?_,hrest⟩,fun ⟨hc,hrest⟩ => ⟨.inr hc,hrest⟩⟩
  rintro rfl
  exact absurd hrest.1 (by decide)

theorem selectCandidate_returns {tier : String} {r : Except TierError Candidate} {tr : History}
    (h : (hd.selectCandidate team tier).Returns tr r) :
    ∃ candidates,⟨.tierNamed tier,candidates⟩ ∈ tr ∧ match r with
      | .ok c => c ∈ candidates ∧ teamAllows team c.provider c.model = true
      | .error _ => ¬Permits team candidates := by
  obtain ⟨candidates,tr₂,rfl,hrest⟩ := returns_perform_bind.1 h
  refine ⟨candidates,by simp,?_⟩
  split at hrest
  · rename_i hnil
    obtain ⟨-,rfl⟩ := returns_pure.1 hrest
    rintro ⟨d,hd,-⟩
    simp [hnil] at hd
  obtain ⟨_,chain,_,rfl,hbuild,hrest⟩ := returns_bind.1 hrest
  obtain ⟨hsub,hempty⟩ := buildChain_permitted hbuild
  cases chain with
  | nil =>
    obtain ⟨-,rfl⟩ := returns_pure.1 hrest
    rintro ⟨d,hd⟩
    have hmem := mem_permitted_tier.2 hd
    simp [hempty rfl] at hmem
  | cons head rest =>
    obtain ⟨_,c,_,rfl,hfirst,hrest⟩ := returns_bind.1 hrest
    obtain ⟨-,rfl⟩ := returns_pure.1 hrest
    have hc : c ∈ head :: rest := by
      obtain rfl | hc := firstNotOpen_returns hfirst
      · exact List.mem_cons_self
      · exact hc
    obtain ⟨hmem,-,hallowed⟩ := mem_permitted_tier.1 (hsub hc)
    exact ⟨hmem,hallowed⟩

variable {c : LiveConfig} {router : Routing.Router}

def Planned (c : LiveConfig) (team : Auth.Team) (p : Routing.Policy) (plan : Routing.Plan)
    (tier : String) : Prop :=
  tier = plan.tier ∨ plan.pinned = false ∧ p.escalate plan.tier = some tier ∧
    ¬Permits team (c.tierNames plan.tier)

theorem selectPlanned_returns {plan plan' : Routing.Plan} {d : Candidate} {tr : History}
    (h : (hd.selectPlanned team router plan).Returns tr (.ok d,plan')) (htr : AnsweredBy c tr) :
    ∃ tier,Planned c team router.policy plan tier ∧ d ∈ c.tierNames tier ∧
      teamAllows team d.provider d.model = true := by
  obtain ⟨tr₁,first,tr₂,rfl,hfirst,h⟩ := returns_bind.1 h
  obtain ⟨candidates,hasked,hfound⟩ := selectCandidate_returns hfirst
  obtain rfl : candidates = c.tierNames plan.tier :=
    htr ⟨.tierNamed plan.tier,candidates⟩ (by simp [hasked])
  cases first with
  | ok e =>
    obtain ⟨-,hd'⟩ := returns_pure.1 h
    obtain ⟨he,-⟩ := Prod.mk.inj hd'
    obtain rfl := Except.ok.inj he
    exact ⟨plan.tier,.inl rfl,hfound⟩
  | error err =>
    simp only [] at h
    split at h
    · obtain ⟨-,hd'⟩ := returns_pure.1 h
      cases (Prod.mk.inj hd').1
    · rename_i up hup
      obtain ⟨tr₃,second,tr₄,rfl,hsecond,h⟩ := returns_bind.1 h
      obtain ⟨candidates,hasked',hfound'⟩ := selectCandidate_returns hsecond
      obtain rfl : candidates = c.tierNames up := htr ⟨.tierNamed up,candidates⟩ (by simp [hasked'])
      cases second with
      | error _ =>
        obtain ⟨-,hd'⟩ := returns_pure.1 h
        cases (Prod.mk.inj hd').1
      | ok e =>
        obtain ⟨-,hd'⟩ := returns_pure.1 h
        obtain rfl := Except.ok.inj (Prod.mk.inj hd').1
        cases hpin : plan.pinned with
        | true => simp [hpin] at hup
        | false =>
          simp only [hpin,Bool.false_eq_true,ite_false] at hup
          exact ⟨up,.inr ⟨hpin,hup,hfound⟩,hfound'⟩

/-- Whatever the handler does with a request, it served it under the model that
the request names, or under one of a permitted candidate of a planned tier. -/
theorem route_returns (hrouting : hd.routing = some router) {req : ChatRequest}
    {routed : Option Routed} {tr : History} (h : (hd.route team req).Returns tr (some routed))
    (htr : AnsweredBy c tr) :
    match routed with
    | none => router.plan req.model req.toProviderRequest = none
    | some x => ∃ plan tier d,router.plan req.model req.toProviderRequest = some plan ∧
        Planned c team router.policy plan tier ∧ d ∈ c.tierNames tier ∧ d.model = x.model ∧
        teamAllows team d.provider d.model = true := by
  unfold Handler.route at h
  simp only [hrouting] at h
  cases hplan : router.plan req.model req.toProviderRequest with
  | none =>
    rw [hplan] at h
    obtain ⟨-,hx⟩ := returns_pure.1 h
    obtain rfl := Option.some.inj hx
    rfl
  | some plan =>
    rw [hplan] at h
    obtain ⟨tr₁,⟨chosen,plan'⟩,tr₂,rfl,hselect,h⟩ := returns_bind.1 h
    cases chosen with
    | error err => cases err <;> simp [returns_bind] at h
    | ok d =>
      obtain ⟨_,baseline,_,rfl,-,h⟩ := returns_bind.1 h
      obtain ⟨-,hx⟩ := returns_pure.1 h
      obtain rfl := Option.some.inj hx
      obtain ⟨tier,hplanned,hd',hallowed⟩ := selectPlanned_returns hselect
        fun e he => htr e (by simp [he])
      exact ⟨plan,tier,d,rfl,hplanned,hd',rfl,hallowed⟩

end Route

/-! Where the request is sent. -/

def finalModel (req : ChatRequest) : Option Routed → String
  | none => req.model
  | some x => x.model

/-- The provider call goes to a candidate of a chain that was built for the model
the request was routed to. -/
def Explained (hd : Handler) (r : Inbound) (req : ChatRequest) (h : History) (p : Adapter)
    (m : String) : Prop :=
  ∃ tr routed requested chain,(hd.route r.team req).Returns tr (some routed) ∧ (∀ e ∈ tr,e ∈ h) ∧
    requested.model = finalModel req routed ∧ Drawn r.team requested chain h p m

def explains (hd : Handler) (r : Inbound) (req : ChatRequest) (h : History) (op : Op) : Prop :=
  ∀ p rq,sent op = some (p,rq) → Explained hd r req h p rq.model

section Served
variable {hd : Handler} {r : Inbound} {req : ChatRequest}

theorem explains_other (h : History) (op : Op) (hop : op.kind ≠ .upstream) :
    explains hd r req h op := by
  intro p rq hs
  rw [sent_of_kind hop] at hs
  cases hs

theorem serveModel_explained (hbody : r.body = .ok req) {routed : Option Routed} {tr h : History}
    (hroute : (hd.route r.team req).Returns tr (some routed)) (htr : ∀ e ∈ tr,e ∈ h) (v : Vars) :
    Spec (explains hd r req) (hd.serveModel r { req with model := finalModel req routed })
      (fun _ _ _ => True) v h := by
  have hgrow : ∀ h (e : Event Op Ans),(∀ e ∈ tr,e ∈ h) → ∀ e' ∈ tr,e' ∈ h ++ [e] :=
    fun h e hk e' he' => List.mem_append_left _ (hk e' he')
  have hstep : ∀ op : Op,op.kind ≠ .upstream → (Contract.onHistory Vars (explains hd r req)
      fun h => ∀ e ∈ tr,e ∈ h).Step op :=
    fun op hop => onHistory_step fun h hk => ⟨explains_other h op hop,fun _ => hgrow h _ hk⟩
  refine serveModel_leads (C := .onHistory Vars (explains hd r req) fun h => ∀ e ∈ tr,e ∈ h)
    (fun op hop => hstep op (by simp [hop]))
    (fun c team req => consultCache_calls (fun op hop => hstep op (by simp [hop])) c team req)
    (fun _ _ _ _ hi => hi) (fun _ _ _ _ => trivial)
    (fun c consulted e _ _ v h hi _ _ => ?_)
    (fun requested chain consulted v h hi hmodel _ hbuilt _ => ?_) ⟨req,hbody,rfl⟩ v h htr
  · exact (serveHit_honours (fun op hop => hstep op (by simp [hop]))
      (fun f _ => onHistory_modify _) (fun op hop => hstep op (by simp [hop.kind])) req.stream r
      v h hi).mono fun _ _ _ _ => trivial
  · have hdrawn : ∀ h op p rq,sent op = some (p,rq) → (∀ e ∈ tr,e ∈ h) →
        Drawn r.team requested chain h p rq.model → explains hd r req h op := by
      intro h op p rq hs hk hd p' rq' hs'
      obtain ⟨rfl,rfl⟩ := Prod.mk.inj (Option.some.inj (hs.symm.trans hs'))
      exact ⟨tr,routed,requested,chain,hroute,hk,hmodel,hd⟩
    exact (serveReserved_drawing explains_other hgrow
      (fun h p rq => hdrawn h (.complete p rq) p rq rfl)
      (fun h p rq => hdrawn h (.stream p rq) p rq rfl) hd _ consulted v h ⟨hi,hbuilt⟩).mono
      fun _ _ _ _ => trivial

theorem chatCompletions_explained (hbody : r.body = .ok req) :
    Spec (explains hd r req) (hd.chatCompletions r) (fun _ _ _ => True) .zero [] := by
  let C : Contract Op Ans Vars := .onHistory Vars (explains hd r req) fun _ => True
  have hplain : ∀ op : Op,op.kind = .plain → C.Step op := fun op hop =>
    onHistory_step fun h _ => ⟨explains_other h op (by simp [hop]),fun _ => trivial⟩
  refine (spec_lift_of_calls (C := C) (decode_calls hplain hd r) trivial).bind
    (fun h₁ decoded v₁ hq => ?_) fun _ _ _ _ => trivial
  obtain ⟨rfl,-,tr₁,_,rfl,hr₁,hdecode⟩ := hq
  obtain rfl := Except.ok.inj hr₁
  cases decoded with
  | none => exact trivial
  | some req' =>
    obtain rfl : req' = req := Except.ok.inj ((decode_returns hdecode).symm.trans hbody)
    refine spec_modify_bind.2 ?_
    refine (spec_lift_of_calls (C := C) (route_calls hplain hd r.team req') trivial).bind
      (fun h₂ routed v₂ hq => ?_) fun _ _ _ _ => trivial
    obtain ⟨rfl,-,tr₂,_,rfl,hr₂,hroute⟩ := hq
    obtain rfl := Except.ok.inj hr₂
    have hmem : ∀ e ∈ tr₂,e ∈ h₁ ++ tr₂ := fun e he => List.mem_append_right _ he
    cases routed with
    | none => exact trivial
    | some routed =>
      cases routed with
      | none => exact serveModel_explained hbody hroute hmem _
      | some x => exact spec_modify_bind.2 (serveModel_explained hbody hroute hmem _)

end Served

/-! What that means in a configuration. -/

/-- The chain of a model that was not routed: it is built with the model at its
head, and goes on within the model's own tier. -/
def OwnChain (c : LiveConfig) (m : String) (d : Candidate) : Prop :=
  ∃ prov,c.registry.forModel m = .ok prov ∧
    (orderedCandidates ⟨prov.name,m⟩ (c.tiers m)).head? = some ⟨prov.name,m⟩ ∧
    (d = ⟨prov.name,m⟩ ∨ ∃ tier,⟨prov.name,m⟩ ∈ c.tierNames tier ∧ d ∈ c.tierNames tier)

def MayServe (c : LiveConfig) (router : Routing.Router) (team : Auth.Team) (req : ChatRequest)
    (d : Candidate) : Prop :=
  teamAllows team d.provider d.model = true ∧
    if req.model = Routing.autoModel then
      let level := (router.classify req.toProviderRequest).level
      d ∈ c.tierNames (router.policy.tier level) ∨
        level = .simple ∧ d ∈ c.tierNames router.policy.complex ∧
          ∀ e ∈ c.tierNames router.policy.simple,teamAllows team e.provider e.model = false
    else if req.model = router.policy.simple ∨ req.model = router.policy.complex then
      d ∈ c.tierNames req.model
    else OwnChain c req.model d

section Generation
variable {c : LiveConfig}

theorem orderedCandidates_head {requested : Candidate} (hc : requested.complete = true)
    (tier : List Candidate) : (orderedCandidates requested tier).head? = some requested := by
  rw [orderedCandidates_eq,options,List.filter_cons_of_pos hc,List.eraseDups_cons]
  rfl

theorem not_permits (hc : c.Loaded) {team : Auth.Team} {tier : String}
    (h : ¬Permits team (c.tierNames tier)) :
    ∀ e ∈ c.tierNames tier,teamAllows team e.provider e.model = false := by
  intro e he
  obtain ⟨p,hp,hname⟩ := hc.closed (.inr he)
  have hcomplete := hc.named (forModel_ok.2 hp)
  rw [hname] at hcomplete
  by_contra hallowed
  exact h ⟨e,he,hcomplete,by simpa using hallowed⟩

/-- A candidate of a chain that c built for a model is the model's own, or shares
a tier with it. -/
theorem chain_member (hc : c.Closed) {a : History} (ha : AnsweredBy c a) {team : Auth.Team}
    {requested d : Candidate} {chain : List Candidate} (hbuilt : ChainBuilt a team requested chain)
    (hd : d ∈ chain) :
    ∃ prov,c.registry.forModel requested.model = .ok prov ∧
      requested = ⟨prov.name,requested.model⟩ ∧
      (d = requested ∨ ∃ tier,requested ∈ c.tierNames tier ∧ d ∈ c.tierNames tier) := by
  obtain ⟨prov,hprov,hname⟩ := hbuilt.resolved
  have hserved : c.registry.forModel requested.model = .ok prov := (ha _ hprov).symm
  have hself : requested = ⟨prov.name,requested.model⟩ := by rw [← hname]
  refine ⟨prov,hserved,hself,?_⟩
  obtain rfl | ⟨tier,ht,hmem⟩ := hbuilt.source d hd
  · exact .inl rfl
  · obtain rfl : tier = c.tiers requested.model := ha ⟨.tierFor requested.model,tier⟩ ht
    obtain ⟨t,htier,e,he,hmodel⟩ := hc.own requested.model (List.ne_nil_of_mem hmem)
    rw [htier] at he hmem
    obtain ⟨p,hp,hpname⟩ := hc.served t e he
    rw [hmodel,hserved] at hp
    obtain rfl := Except.ok.inj hp
    have heq : e = requested := by
      rw [hself,hpname,← hmodel]
    exact .inr ⟨t,heq ▸ he,hmem⟩

theorem same_tier (hc : c.Closed) {requested d : Candidate} {tier : String} {prov : Adapter}
    (hprov : c.registry.forModel requested.model = .ok prov)
    (hself : requested = ⟨prov.name,requested.model⟩) {e : Candidate} (he : e ∈ c.tierNames tier)
    (hmodel : e.model = requested.model)
    (hd : d = requested ∨ ∃ t,requested ∈ c.tierNames t ∧ d ∈ c.tierNames t) :
    d ∈ c.tierNames tier := by
  obtain ⟨p,hp,hname⟩ := hc.served tier e he
  rw [hmodel,hprov] at hp
  obtain rfl := Except.ok.inj hp
  have heq : e = requested := by
    rw [hself,hname,← hmodel]
  obtain rfl | ⟨t,hreq,hd⟩ := hd
  · exact heq ▸ he
  · rwa [hc.oneTier tier t e he requested hreq hmodel]

theorem planned_mayServe {router : Routing.Router} {team : Auth.Team} {req : ChatRequest}
    {plan : Routing.Plan} {tier : String} {d : Candidate} (hc : c.Loaded)
    (hplan : router.plan req.model req.toProviderRequest = some plan)
    (hplanned : Planned c team router.policy plan tier) (hd : d ∈ c.tierNames tier)
    (hallowed : teamAllows team d.provider d.model = true) : MayServe c router team req d := by
  refine ⟨hallowed,?_⟩
  unfold Routing.Router.plan at hplan
  split at hplan
  · cases hplan
  rename_i hroutes
  split at hplan
  · rename_i hauto
    obtain rfl := Option.some.inj hplan
    obtain rfl | ⟨hpin,-⟩ := hplanned
    · have htrue : router.routes req.model = true := by simpa using hroutes
      obtain hauto' | ⟨-,hnamed⟩ := of_decide_eq_true htrue
      · exact absurd hauto' hauto
      · rw [if_neg hauto,if_pos hnamed]
        exact hd
    · cases hpin
  · rename_i hauto
    obtain rfl := Option.some.inj hplan
    rw [if_pos (not_ne_iff.1 hauto)]
    simp only []
    obtain rfl | ⟨-,hup,hnone⟩ := hplanned
    · exact .inl hd
    · unfold Routing.Policy.escalate at hup
      split at hup
      · rename_i hcond
        obtain rfl := Option.some.inj hup
        right
        simp only [] at hcond hnone
        cases hlevel : (router.classify req.toProviderRequest).level with
        | complex =>
          rw [hlevel] at hcond
          exact absurd hcond.1 hcond.2.2
        | simple =>
          rw [hlevel] at hnone
          exact ⟨rfl,hd,not_permits hc hnone⟩
      · cases hup

theorem Explained.mayServe (hc : c.Loaded) {hd : Handler} {router : Routing.Router}
    (hrouting : hd.routing = some router) {r : Inbound} {req : ChatRequest} {h : History}
    (hans : AnsweredBy c h) {p : Adapter} {m : String} (hx : Explained hd r req h p m) :
    MayServe c router r.team req ⟨p.name,m⟩ := by
  obtain ⟨tr,routed,requested,chain,hroute,htr,hmodel,a,b,d,rfl,rfl,hd',hbuilt⟩ := hx
  obtain ⟨sur,path,file,hload⟩ := id hc
  have hclosed := loadLiveConfig_closed hload
  have ha : AnsweredBy c a := fun e he => hans e (by simp [he])
  obtain ⟨prov,hprov,hself,hplace⟩ := chain_member hclosed ha hbuilt hd'
  have hallowed := hbuilt.allowed d hd'
  -- the provider that is called is the candidate's own
  have hcand : d = ⟨p.name,d.model⟩ := by
    have hp : c.registry.forModel d.model = .ok p := (hans ⟨.forModel d.model,.ok p⟩ (by simp)).symm
    obtain rfl | ⟨t,-,hmem⟩ := hplace
    · rw [hprov] at hp
      obtain rfl := Except.ok.inj hp
      exact hself
    · obtain ⟨q,hq,hname⟩ := hclosed.served t d hmem
      obtain rfl := Except.ok.inj (hq.symm.trans hp)
      rw [hname]
  rw [← hcand]
  have hrouted := route_returns hrouting hroute fun e he => hans e (htr e he)
  cases routed with
  | some x =>
    obtain ⟨plan,tier,e,hplan,hplanned,he,hex,-⟩ := hrouted
    have hd'' := same_tier hclosed hprov hself he (hex.trans hmodel.symm) hplace
    exact planned_mayServe hc hplan hplanned hd'' hallowed
  | none =>
    have hmodel' : requested.model = req.model := hmodel
    have hcomplete := hc.named hprov
    rw [← hself] at hcomplete
    have hne : req.model ≠ "" := hmodel' ▸ (of_decide_eq_true hcomplete).2
    have hplan : router.routes req.model = false := by
      by_contra hroutes
      simp only [Routing.Router.plan,Bool.not_eq_false] at hrouted hroutes
      simp only [hroutes,Bool.not_true,Bool.false_eq_true,ite_false] at hrouted
      split at hrouted <;> cases hrouted
    simp only [Routing.Router.routes,hne,ne_eq,not_false_iff,true_and,decide_eq_false_iff_not,
      not_or] at hplan
    refine ⟨hallowed,?_⟩
    rw [if_neg hplan.1,if_neg (not_or.2 hplan.2)]
    refine ⟨prov,hmodel' ▸ hprov,?_,?_⟩
    · rw [← hmodel',← hself]
      exact orderedCandidates_head hcomplete _
    · rw [← hmodel',← hself]
      exact hplace

/-- Within one generation, whatever team, health and breakers are: every provider
call of a request, retries and fallbacks included, goes to a permitted candidate
that the request's model field stands for. -/
theorem sent_where_routed (hc : c.Loaded) (hd : Handler) {router : Routing.Router}
    (hrouting : hd.routing = some router) {r : Inbound} {req : ChatRequest}
    (hbody : r.body = .ok req) {tr : History} {q : Program (Except String Unit × Vars)}
    (hrun : (hd.chatCompletions r .zero).After tr q) (hans : AnsweredBy c tr) :
    ∀ e ∈ tr,∀ p rq,sent e.op = some (p,rq) → MayServe c router r.team req ⟨p.name,rq.model⟩ := by
  intro e he p rq hs
  obtain ⟨a,b,rfl⟩ := List.append_of_mem he
  have hx := (Prog.Spec.after (chatCompletions_explained hbody) hrun).2 a e b rfl p rq hs
  exact hx.mayServe hc hrouting fun e' he' => hans e' (by simpa using .inl he')

end Generation

def answeringFrom (c : LiveConfig) : (op : Op) → Ans op
  | .forModel m => c.registry.forModel m
  | .defaultMaxTokensFor m => c.registry.defaultMaxTokensFor m
  | .tierFor m => c.tiers m
  | .tierNamed name => c.tierNames name
  | .cost m i o => c.calculator.cost m i o
  | op => fallbackWorld id op

theorem answeringFrom_answers (c : LiveConfig) (op : Op) : Answers c op (answeringFrom c op) := by
  cases op <;> first | rfl | trivial

def fastRequest : Inbound :=
  { greeting false with body := .ok ⟨"fast",[⟨"user","hi"⟩],none,0,false,[]⟩ }

def fastTrace (c : LiveConfig) : History :=
  ((routingHandler.chatCompletions fastRequest .zero).exec (answering (answeringFrom c)) ()).1

theorem sent_where_routed_fast :
    (∃ e ∈ fastTrace (liveFrom tieredFile),(sent e.op).isSome = true) ∧
      ∀ e ∈ fastTrace (liveFrom tieredFile),∀ p rq,sent e.op = some (p,rq) →
        MayServe (liveFrom tieredFile) simpleRouter memberTeam
          ⟨"fast",[⟨"user","hi"⟩],none,0,false,[]⟩ ⟨p.name,rq.model⟩ := by
  constructor
  · simp only [fastTrace,liveFrom,loadLiveConfig,Config.loadProviders,Config.resolveTiers,
      tieredFile_names]
    decide +kernel
  · refine sent_where_routed ⟨_,_,_,tieredFile_loads⟩ routingHandler rfl (r := fastRequest) rfl
      (returns_exec _ _ _) fun e he => ?_
    obtain ⟨_,heq⟩ := mem_exec he
    rw [heq]
    exact answeringFrom_answers _ _

end Switchyard.Proxy
