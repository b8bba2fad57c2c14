import Switchyard.ProviderCompliance
set_option autoImplicit false

/-!
What one configuration generation promises (internal/config/providers.go,
internal/provider/registry.go, cmd/gateway/reload.go): its registry, price table
and tiers agree with each other, so that a request served from it alone never
finds a candidate without a provider or without a price.
-/

namespace Switchyard.Config

theorem addPrices_isSome {pricing : List (String × ModelPricing)}
    {table : String → Option ModelPricing} {m : String}
    (h : m ∈ pricing.map Prod.fst ∨ (table m).isSome = true) :
    (addPrices table pricing m).isSome = true := by
  induction pricing generalizing table with
  | nil => simpa [addPrices] using h
  | cons x pricing ih =>
    show (addPrices (Function.update table x.1 (some x.2)) pricing m).isSome = true
    refine ih ?_
    by_cases hm : m = x.1
    · exact .inr (by simp [hm])
    · rw [Function.update_of_ne hm]
      simpa [hm] using h

/-- After the entries in done: what was kept of the enabled ones, and that every
model kept has a price. -/
structure Loading.Lists (l : Loading) (done : List ProviderEntry) : Prop where
  priced : ∀ cfg ∈ l.configs,∀ m ∈ cfg.models,(l.pricing m).isSome = true
  enabled : ∀ e ∈ done,e.isEnabled = true → ∃ cfg ∈ l.configs,cfg.name = e.name ∧
    cfg.models = e.models.map ModelEntry.name ∧ cfg.defaultMaxTokens = e.defaultMaxTokens

theorem Loading.Lists.entry {sur : Surroundings} {path : String} {l l' : Loading}
    {e : ProviderEntry} {done : List ProviderEntry} (hl : l.Lists done)
    (h : l.entry sur path e = .ok l') : l'.Lists (done ++ [e]) := by
  obtain ⟨label,cfg,pricing,owner,provider,hr,-,-,rfl⟩ := Loading.entry_cases h
  obtain ⟨-,hname,hpriced,hmodels,hmax⟩ := ProviderEntry.resolve_spec hr
  cases hen : e.isEnabled with
  | false =>
    refine ⟨by simpa using hl.priced,fun d hd hd' => ?_⟩
    obtain hd | hd := List.mem_append.1 hd
    · simpa using hl.enabled d hd hd'
    · rw [List.mem_singleton.1 hd,hen] at hd'
      cases hd'
  | true =>
    refine ⟨fun c hc m hm => ?_,fun d hd hd' => ?_⟩
    · obtain hc | hc := List.mem_append.1 hc
      · exact addPrices_isSome (.inr (hl.priced c hc m hm))
      · rw [List.mem_singleton.1 hc,hpriced] at hm
        exact addPrices_isSome (.inl hm)
    · obtain hd | hd := List.mem_append.1 hd
      · obtain ⟨c,hc,hrest⟩ := hl.enabled d hd hd'
        exact ⟨c,by simp [hc],hrest⟩
      · rw [List.mem_singleton.1 hd]
        exact ⟨cfg,by simp,hname,hmodels,hmax⟩

/-- Every model an accepted file keeps has a price, and the enabled providers'
models are all kept. -/
theorem loadProviders_lists {sur : Surroundings} {path : String} {file : ProvidersFile}
    {p : Providers} (h : loadProviders sur path file = .ok p) :
    (∀ cfg ∈ p.configs,∀ m ∈ cfg.models,(p.pricing m).isSome = true) ∧
      ∀ e ∈ file.providers,e.isEnabled = true → ∃ cfg ∈ p.configs,cfg.name = e.name ∧
        cfg.models = e.models.map ModelEntry.name ∧ cfg.defaultMaxTokens = e.defaultMaxTokens := by
  obtain ⟨l,hl,-,hcfgs,hprices⟩ := loadProviders_cases h
  have hstart : Loading.start.Lists [] := ⟨by simp [Loading.start],by simp⟩
  have hall := StepRuns.foldlM_invariant (I := fun done l => Loading.Lists l done)
    (fun _ _ _ _ hs hx => hs.entry hx) hl hstart
  rw [hcfgs,hprices]
  exact ⟨hall.priced,by simpa using hall.enabled⟩

end Switchyard.Config

namespace Switchyard.Gateway
open Config Resilience

theorem enter_candidates (all cs : List Candidate) (byModel : String → List Candidate)
    (m : String) :
    cs.foldl (fun byModel c => Function.update byModel c.model all) byModel m =
      if m ∈ cs.map Candidate.model then all else byModel m := by
  induction cs generalizing byModel with
  | nil => rfl
  | cons c cs ih =>
    rw [List.foldl_cons,ih]
    by_cases hm : m = c.model
    · simp [hm]
    · simp [hm]

theorem tierCandidates_models (entries : List TierEntry) :
    (tierCandidates entries).map Candidate.model = entries.map TierEntry.model := by
  simp [tierCandidates,Function.comp_def]

variable {tiers : List (String × List TierEntry)}

theorem indexTiers_model {u : String × List TierEntry} {m : String} (hu : u ∈ tiers)
    (hm : m ∈ u.2.map TierEntry.model) (honly : ∀ t ∈ tiers,m ∈ t.2.map TierEntry.model → t = u) :
    (indexTiers tiers).1 m = tierCandidates u.2 := by
  have scan : ∀ (tiers : List (String × List TierEntry))
      (acc : (String → List Candidate) × (String → List Candidate)),
      (∀ t ∈ tiers,m ∈ t.2.map TierEntry.model → t = u) →
      (u ∈ tiers ∨ acc.1 m = tierCandidates u.2) →
      (tiers.foldl indexTier acc).1 m = tierCandidates u.2 := by
    intro tiers
    induction tiers with
    | nil =>
      intro acc _ h
      simpa using h
    | cons t tiers ih =>
      intro acc honly h
      refine ih _ (fun t' ht' => honly t' (by simp [ht'])) ?_
      simp only [indexTier,enter_candidates,tierCandidates_models]
      by_cases ht : m ∈ t.2.map TierEntry.model
      · right
        rw [if_pos ht,honly t (by simp) ht]
      · rw [if_neg ht]
        have hne : u ≠ t := fun heq => ht (heq ▸ hm)
        simpa [hne] using h
  exact scan tiers _ honly (.inl hu)

theorem indexTiers_tierless {m : String} (hm : ∀ t ∈ tiers,m ∉ t.2.map TierEntry.model) :
    (indexTiers tiers).1 m = [] := by
  have scan : ∀ (tiers : List (String × List TierEntry))
      (acc : (String → List Candidate) × (String → List Candidate)),
      (∀ t ∈ tiers,m ∉ t.2.map TierEntry.model) → (tiers.foldl indexTier acc).1 m = acc.1 m := by
    intro tiers
    induction tiers with
    | nil => exact fun _ _ => rfl
    | cons t tiers ih =>
      intro acc hm
      rw [List.foldl_cons,ih _ fun t' ht' => hm t' (by simp [ht'])]
      simp only [indexTier,enter_candidates,tierCandidates_models]
      exact if_neg (hm t (by simp))
  exact scan tiers _ hm

theorem indexTiers_name (hnames : (tiers.map Prod.fst).Nodup) (name : String) :
    ((∃ t ∈ tiers,t.1 = name ∧ (indexTiers tiers).2 name = tierCandidates t.2) ∨
      ((∀ t ∈ tiers,t.1 ≠ name) ∧ (indexTiers tiers).2 name = [])) := by
  have scan : ∀ (tiers : List (String × List TierEntry))
      (acc : (String → List Candidate) × (String → List Candidate)),
      (tiers.map Prod.fst).Nodup →
      (∃ t ∈ tiers,t.1 = name ∧ (tiers.foldl indexTier acc).2 name = tierCandidates t.2) ∨
        ((∀ t ∈ tiers,t.1 ≠ name) ∧ (tiers.foldl indexTier acc).2 name = acc.2 name) := by
    intro tiers
    induction tiers with
    | nil => exact fun _ _ => .inr ⟨by simp,rfl⟩
    | cons t tiers ih =>
      intro acc hnames
      rw [List.map_cons,List.nodup_cons] at hnames
      obtain ⟨u,hu,hname,hby⟩ | ⟨hnone,hby⟩ := ih (indexTier acc t) hnames.2
      · exact .inl ⟨u,by simp [hu],hname,hby⟩
      · rw [List.foldl_cons,hby]
        by_cases ht : t.1 = name
        · exact .inl ⟨t,by simp,ht,by simp [indexTier,ht]⟩
        · refine .inr ⟨by simpa [ht] using hnone,?_⟩
          simp only [indexTier,Function.update_of_ne (Ne.symm ht)]
  exact scan tiers _ hnames

/-- The five tables of a generation agree. -/
structure LiveConfig.Closed (c : LiveConfig) : Prop where
  served : ∀ t,∀ d ∈ c.tierNames t,∃ p,c.registry.forModel d.model = .ok p ∧ p.name = d.provider
  priced : ∀ m p,c.registry.forModel m = .ok p →
    (c.calculator.pricing m).isSome = true ∧ (c.registry.defaultMaxTokensFor m).isSome = true
  oneTier : ∀ t u,∀ d ∈ c.tierNames t,∀ e ∈ c.tierNames u,d.model = e.model → t = u
  named : ∀ t,∀ d ∈ c.tierNames t,c.tiers d.model = c.tierNames t
  own : ∀ m,c.tiers m ≠ [] → ∃ t,c.tiers m = c.tierNames t ∧ ∃ d ∈ c.tiers m,d.model = m

/-- What an enabled entry of the file becomes: each of its models is served by a
provider of its name, with the entry's limit and a price. -/
def LiveConfig.Offers (c : LiveConfig) (e : ProviderEntry) : Prop :=
  ∀ m ∈ e.models,(∃ p,c.registry.forModel m.name = .ok p ∧ p.name = e.name) ∧
    c.registry.defaultMaxTokensFor m.name = some e.defaultMaxTokens ∧
    (c.calculator.pricing m.name).isSome = true

theorem forModel_ok {r : Provider.Registry} {m : String} {p : Provider.Adapter} :
    r.forModel m = .ok p ↔ r.byModel m = some p := by
  unfold Provider.Registry.forModel
  cases r.byModel m <;> simp

section Loaded
variable {sur : Surroundings} {path : String} {file : ProvidersFile} {c : LiveConfig}

theorem loadLiveConfig_offers (h : loadLiveConfig sur path file = .ok c) {e : ProviderEntry}
    (he : e ∈ file.providers) (hen : e.isEnabled = true) : c.Offers e := by
  obtain ⟨providers,hp,hr,hprice,-,-⟩ := loadLiveConfig_cases h
  obtain ⟨hpriced,hkept⟩ := loadProviders_lists hp
  have hindex := Provider.newRegistry_spec hr
  intro m hm
  obtain ⟨cfg,hcfg,hname,hmodels,hmax⟩ := hkept e he hen
  have hlisted : m.name ∈ cfg.models := hmodels ▸ List.mem_map_of_mem hm
  obtain ⟨p,hby,rfl⟩ := hindex.listed cfg hcfg _ hlisted
  refine ⟨⟨p,forModel_ok.2 hby,hname⟩,?_,?_⟩
  · rw [Provider.Registry.defaultMaxTokensFor,hindex.ceiling,hby,Option.map_some,hmax]
  · rw [hprice,Option.isSome_map]
    exact hpriced _ hcfg _ hlisted

theorem loadLiveConfig_closed (h : loadLiveConfig sur path file = .ok c) : c.Closed := by
  have hloaded : c.Loaded := ⟨sur,path,file,h⟩
  obtain ⟨providers,hp,hr,hprice,hmodels,hnames⟩ := loadLiveConfig_cases h
  obtain ⟨l,-,htiers,-⟩ := loadProviders_cases hp
  have hindex := Provider.newRegistry_spec hr
  -- a candidate of a named tier comes from the one tier of that name
  have hentry : ∀ t,∀ d ∈ c.tierNames t,∃ u ∈ providers.tiers,u.1 = t ∧
      c.tierNames t = tierCandidates u.2 ∧ d.model ∈ u.2.map TierEntry.model := by
    intro t d hd
    rw [hnames] at hd ⊢
    obtain ⟨u,hu,hname,hby⟩ | ⟨-,hby⟩ := indexTiers_name htiers.distinct t
    · refine ⟨u,hu,hname,hby,?_⟩
      rw [hby] at hd
      exact tierCandidates_models u.2 ▸ List.mem_map_of_mem hd
    · simp [hby] at hd
  have hnamed : ∀ t,∀ d ∈ c.tierNames t,c.tiers d.model = c.tierNames t := by
    intro t d hd
    obtain ⟨u,hu,-,hby,hm⟩ := hentry t d hd
    rw [hby,hmodels]
    exact indexTiers_model hu hm fun t' ht' hm' => htiers.only ht' hu hm' hm
  refine ⟨fun t d hd => ?_,fun m p hm => ?_,fun t u d hd e he heq => ?_,hnamed,fun m hm => ?_⟩
  · obtain ⟨p,hby,hname⟩ := hloaded.closed (.inr hd)
    exact ⟨p,forModel_ok.2 hby,hname⟩
  · rw [forModel_ok] at hm
    obtain ⟨hcfg,hlisted⟩ := hindex.served m p hm
    refine ⟨?_,?_⟩
    · rw [hprice,Option.isSome_map]
      exact (loadProviders_lists hp).1 _ hcfg _ hlisted
    · rw [Provider.Registry.defaultMaxTokensFor,hindex.ceiling,hm]
      rfl
  · obtain ⟨t',ht',rfl,-,hmt⟩ := hentry t d hd
    obtain ⟨u',hu',rfl,-,hmu⟩ := hentry u e he
    rw [htiers.only ht' hu' hmt (heq ▸ hmu)]
  · by_cases hnone : ∀ t ∈ providers.tiers,m ∉ t.2.map TierEntry.model
    · exact absurd (hmodels ▸ indexTiers_tierless hnone) hm
    · simp only [not_forall,not_not] at hnone
      obtain ⟨t,ht,hmt⟩ := hnone
      have hby : c.tiers m = tierCandidates t.2 := by
        rw [hmodels]
        exact indexTiers_model ht hmt fun t' ht' hm' => htiers.only ht' ht hm' hmt
      obtain ⟨d,hd,hdm⟩ := List.mem_map.1 (tierCandidates_models t.2 ▸ hmt)
      refine ⟨t.1,?_,d,hby ▸ hd,hdm⟩
      obtain ⟨u,hu,hname,hname'⟩ | ⟨hnone,-⟩ := indexTiers_name htiers.distinct t.1
      · rw [hnames,hname',hby,List.inj_on_of_nodup_map htiers.distinct hu ht hname]
      · exact absurd rfl (hnone t ht)

end Loaded

end Switchyard.Gateway

namespace Switchyard.Proxy
open CallTree Provider Resilience Gateway

def Refused : (op : Op) → Ans op → Prop
  | .forModel _,ans => ∃ e,ans = .error e
  | .defaultMaxTokensFor _,ans => ans = none
  | .cost _ _ _,ans => ∃ e,ans = .error e
  | _,_ => False

def AnsweredBy (c : LiveConfig) (h : History) : Prop := ∀ e ∈ h,Answers c e.op e.ans

def Unrefused (h : History) : Prop := ∀ e ∈ h,¬Refused e.op e.ans

def steady (c : LiveConfig) : Act.Contract Op Ans Vars :=
  .onHistory Vars (fun h _ => AnsweredBy c h → Unrefused h) fun h => AnsweredBy c h → Unrefused h

section Steady
variable {c : LiveConfig}

theorem steady_step {op : Op} (hop : ∀ ans,Answers c op ans → ¬Refused op ans) :
    (steady c).Step op := by
  refine Act.onHistory_step fun h hi => ⟨hi,fun ans hans e he => ?_⟩
  have hpast : AnsweredBy c h := fun e he => hans e (by simp [he])
  obtain he | he := List.mem_append.1 he
  · exact hi hpast e he
  · rw [List.mem_singleton.1 he]
    exact hop ans (hans ⟨op,ans⟩ (by simp))

theorem steady_other {op : Op} (hop : ∀ ans,¬Refused op ans) : (steady c).Step op :=
  steady_step fun ans _ => hop ans

theorem steady_served (hc : c.Closed) {m : String} {p : Adapter}
    (hm : c.registry.forModel m = .ok p) :
    (steady c).Step (.forModel m) ∧ (steady c).Step (.defaultMaxTokensFor m) ∧
      ∀ i o,(steady c).Step (.cost m i o) := by
  obtain ⟨hprice,hmax⟩ := hc.priced m p hm
  refine ⟨steady_step ?_,steady_step ?_,fun i o => steady_step ?_⟩
  · rintro ans hans ⟨e,rfl⟩
    simp [Answers,hm] at hans
  · rintro ans hans hnone
    obtain rfl : ans = none := hnone
    simp [Answers] at hans
    simp [← hans] at hmax
  · rintro ans hans ⟨e,rfl⟩
    obtain ⟨q,hq⟩ := Option.isSome_iff_exists.1 hprice
    simp [Answers,Budget.Calculator.cost,hq] at hans

theorem unrefused_of_calls {α : Type} {p q : Program α} {tr : History}
    (hp : p.Calls (steady c).Step) (hrun : p.After tr q) (htr : AnsweredBy c tr) :
    Unrefused tr := by
  have hspec : p.Spec (steady c).allows (fun h _ => AnsweredBy c h → Unrefused h) [] :=
    (Act.spec_lift.1 (Act.spec_lift_of_calls (s := .zero) hp fun _ => by simp [Unrefused])).mono
      fun _ _ hq => hq.2.1.1
  exact hspec.along (K := fun h => AnsweredBy c h → Unrefused h) hrun (fun _ _ hg => hg)
    (fun _ _ hq => hq) htr

theorem unrefused_of_honours {α : Type} {x : Action α} {v : Vars}
    {q : Program (Except String α × Vars)} {tr : History} (hx : Act.Honours (steady c) x)
    (hrun : (x v).After tr q) (htr : AnsweredBy c tr) : Unrefused tr :=
  (hx v [] fun _ => by simp [Unrefused]).along (K := fun h => AnsweredBy c h → Unrefused h) hrun
    (fun _ _ hg => hg) (fun _ _ hq => hq.1) htr

theorem writeError_steady (status : Nat) (errType message : String) :
    (writeError status errType message).Calls (steady c).Step :=
  calls_ask_bind (steady_other fun _ => id) fun _ =>
    calls_ask.2 (steady_other fun _ => id)

theorem reserveBudget_steady (hc : c.Closed) {req : ChatRequest} {p : Adapter}
    (hm : c.registry.forModel req.model = .ok p) (team : Auth.Team) :
    (reserveBudget team req).Calls (steady c).Step := by
  obtain ⟨-,hmax,hcost⟩ := steady_served hc hm
  refine calls_ask_bind hmax fun d => ?_
  split
  · exact answered_calls (writeError_steady _ _ _) _
  refine calls_ask_bind (hcost _ _) fun cost => ?_
  split
  · exact answered_calls (writeError_steady _ _ _) _
  refine calls_ask_bind (steady_other fun _ => id) fun r => ?_
  split
  · exact answered_calls (writeError_steady _ _ _) _
  split
  · exact answered_calls (writeError_steady _ _ _) _
  split
  · exact calls_ask_bind (steady_other fun _ => id) fun _ => calls_pure _
  · exact calls_pure _

theorem runChain_steady {α : Type} (hc : c.Closed) {chain : List Candidate}
    (hchain : ∀ cand ∈ chain,∃ p,c.registry.forModel cand.model = .ok p)
    {attempt : Adapter → Candidate → Action (Except Fault α)}
    (hattempt : ∀ prov cand,Act.Honours (steady c) (attempt prov cand)) (hd : Handler)
    (cb : ChainBudget) : Act.Honours (steady c) (hd.runChain cb attempt true 0 [] chain) := by
  have hserved : ∀ m,(∃ cand ∈ chain,cand.model = m) → ∃ p,c.registry.forModel m = .ok p := by
    rintro m ⟨cand,hcand,rfl⟩
    exact hchain cand hcand
  refine runChain_keeps (fun op hop => ?_) (fun op hop => ?_) (fun _ => Act.onHistory_modify _)
    (fun cand _ prov => hattempt prov cand) hd cb true 0 []
  · cases op with
    | forModel m =>
      obtain ⟨p,hp⟩ := hserved m hop
      exact (steady_served hc hp).1
    | defaultMaxTokensFor m =>
      obtain ⟨p,hp⟩ := hserved m hop
      exact (steady_served hc hp).2.1
    | cost m i o =>
      obtain ⟨p,hp⟩ := hserved m hop
      exact (steady_served hc hp).2.2 i o
    | _ => exact steady_other fun _ => id
  · cases op <;> first | exact steady_other fun _ => id | cases hop

theorem attempt_steady {cand : Candidate} (op : Op) (hop : AttemptOp cand op) :
    (steady c).Step op := by
  cases op <;> first | exact steady_other fun _ => id | exact hop.elim

theorem chainFor_served (hc : c.Closed) {hd : Handler} {team : Auth.Team} {requested : Candidate}
    {p : Adapter} (hm : c.registry.forModel requested.model = .ok p) {tr : History}
    {chain : List Candidate} (hret : (hd.chainFor team requested).Returns tr chain)
    (htr : AnsweredBy c tr) : ∀ cand ∈ chain,∃ q,c.registry.forModel cand.model = .ok q := by
  intro cand hcand
  obtain rfl | ⟨tier,ht,hmem⟩ := (chainFor_returns hret).2 cand hcand
  · exact ⟨p,hm⟩
  · obtain rfl : tier = c.tiers requested.model := htr _ ht
    obtain ⟨t,heq,-⟩ := hc.own requested.model (List.ne_nil_of_mem hmem)
    obtain ⟨q,hq,-⟩ := hc.served t cand (heq ▸ hmem)
    exact ⟨q,hq⟩

end Steady

/-- A request for a model that was resolved: its budget reservation, and the walk
over its chain with either kind of attempt, are refused no answer. -/
structure NeverRefused (c : LiveConfig) (hd : Handler) (team : Auth.Team) (req : ChatRequest)
    (prov : Adapter) : Prop where
  budget : ∀ tr q,(reserveBudget team req).After tr q → AnsweredBy c tr → Unrefused tr
  complete : ∀ asked chain,(hd.chainFor team ⟨prov.name,req.model⟩).Returns asked chain →
    AnsweredBy c asked → ∀ cb v tr q,(hd.runChain cb (completeAttempt req.toProviderRequest) true 0
      [] chain v).After tr q → AnsweredBy c tr → Unrefused tr
  stream : ∀ asked chain,(hd.chainFor team ⟨prov.name,req.model⟩).Returns asked chain →
    AnsweredBy c asked → ∀ cb v tr q,(hd.runChain cb (streamAttempt req.toProviderRequest) true 0
      [] chain v).After tr q → AnsweredBy c tr → Unrefused tr

theorem neverRefused {c : LiveConfig} (hc : c.Closed) {hd : Handler} {team : Auth.Team}
    {req : ChatRequest} {prov : Adapter} (hm : c.registry.forModel req.model = .ok prov) :
    NeverRefused c hd team req prov := by
  refine ⟨fun tr q hrun => ?_,fun asked chain hret hasked cb v tr q hrun => ?_,
    fun asked chain hret hasked cb v tr q hrun => ?_⟩
  · exact unrefused_of_calls (reserveBudget_steady hc hm team) hrun
  · refine unrefused_of_honours (runChain_steady hc (chainFor_served hc hm hret hasked)
      (fun prov cand => ?_) hd cb) hrun
    exact completeAttempt_keeps attempt_steady (fun _ => steady_other fun _ => id) _
  · refine unrefused_of_honours (runChain_steady hc (chainFor_served hc hm hret hasked)
      (fun prov cand => ?_) hd cb) hrun
    exact streamAttempt_keeps attempt_steady (fun _ => steady_other fun _ => id) _

/-- A configuration that loads is closed: its tables agree, every model of an
enabled provider is served and priced, and a request that resolves in it is
refused no answer by it later on. -/
theorem config_closed {sur : Config.Surroundings} {path : String} {file : Config.ProvidersFile}
    {c : LiveConfig} (h : loadLiveConfig sur path file = .ok c) :
    c.Closed ∧ (∀ e ∈ file.providers,e.isEnabled = true → c.Offers e) ∧
      ∀ (hd : Handler) (team : Auth.Team) (req : ChatRequest) (resolved : History) (prov : Adapter),
        (resolve req.model).Returns resolved (some prov) → AnsweredBy c resolved →
        NeverRefused c hd team req prov := by
  have hc := loadLiveConfig_closed h
  refine ⟨hc,fun e => loadLiveConfig_offers h,fun hd team req resolved prov hret hans => ?_⟩
  exact neverRefused hc (hans _ (resolve_returns hret)).symm

def tieredFile : Config.ProvidersFile where
  providers := [⟨"p1","ollama",none,"http://p1","","1s",100,"",[⟨"m1",1,1⟩,⟨"m2",2,2⟩]⟩,
    ⟨"p2","ollama",some false,"http://p2","","1s",100,"",[⟨"m3",1,1⟩]⟩]
  tiers := AList.insert "smart" [⟨"p1","m2"⟩]
    (AList.singleton "fast" [⟨"p1","m1"⟩,⟨"p2","m3"⟩])

theorem tieredFile_names : tieredFile.tiers.keys.mergeSort (· ≤ ·) = ["fast","smart"] := by
  have hkeys : tieredFile.tiers.keys = ["smart","fast"] := by decide +kernel
  have hle : ¬"smart" ≤ "fast" := by decide +kernel
  rw [hkeys]
  simp [List.mergeSort,List.MergeSort.Internal.splitInTwo,hle]

def liveFrom (file : Config.ProvidersFile) : LiveConfig :=
  match loadLiveConfig plainSurroundings "providers.yaml" file with
  | .ok c => c
  | .error _ => ⟨.empty,⟨fun _ => none⟩,fun _ => [],fun _ => []⟩

theorem liveFrom_loads {file : Config.ProvidersFile}
    (h : (loadLiveConfig plainSurroundings "providers.yaml" file).isOk = true) :
    loadLiveConfig plainSurroundings "providers.yaml" file = .ok (liveFrom file) := by
  unfold liveFrom
  cases hl : loadLiveConfig plainSurroundings "providers.yaml" file with
  | error e => simp [hl,Except.isOk,Except.toBool] at h
  | ok c => rfl

theorem tieredFile_loads : loadLiveConfig plainSurroundings "providers.yaml" tieredFile =
    .ok (liveFrom tieredFile) := by
  refine liveFrom_loads ?_
  simp only [loadLiveConfig,Config.loadProviders,Config.resolveTiers,tieredFile_names]
  decide +kernel

/-- The disabled provider's entry is left out of its tier. -/
theorem config_closed_tiered : (liveFrom tieredFile).Closed ∧
    (liveFrom tieredFile).tierNames "fast" = [⟨"p1","m1"⟩] := by
  refine ⟨(config_closed tieredFile_loads).1,?_⟩
  simp only [liveFrom,loadLiveConfig,Config.loadProviders,Config.resolveTiers,tieredFile_names]
  decide +kernel

end Switchyard.Proxy
