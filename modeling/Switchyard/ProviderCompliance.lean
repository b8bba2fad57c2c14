import Switchyard.RequestAccounts
set_option autoImplicit false

/-!
One chat request against the hot-reloaded configuration (cmd/gateway/reload.go):
every question to the configuration reads the generation that is live at that
moment, and a reload may replace it between any two calls.
-/

namespace Switchyard.Proxy
open CallTree Act Provider Resilience Gateway

/-- Where a candidate's provider came from: the resolver, or a tier. -/
def Sourced (h : History) (c : Candidate) : Prop :=
  (∃ prov,⟨.forModel c.model,.ok prov⟩ ∈ h ∧ c.provider = prov.name) ∨
    ∃ m tier,⟨.tierFor m,tier⟩ ∈ h ∧ c ∈ tier

variable {h : History}

theorem ChainBuilt.sourced {team : Auth.Team} {requested c : Candidate} {chain : List Candidate}
    (hbuilt : ChainBuilt h team requested chain) (hc : c ∈ chain) : Sourced h c := by
  obtain rfl | ⟨tier,ht,hc⟩ := hbuilt.source c hc
  · exact .inl hbuilt.resolved
  · exact .inr ⟨_,tier,ht,hc⟩

/-- The walk resolved m to p for a candidate that the allowlists had let into
the chain before. -/
def Vetted (team : Auth.Team) (h : History) (p : Adapter) (m : String) : Prop :=
  ∃ a b c,h = a ++ ⟨.forModel m,.ok p⟩ :: b ∧ c.model = m ∧
    teamAllows team c.provider c.model = true ∧ Sourced a c

/-- Which calls a request may make: on a provider, only vetted ones. -/
def vets (team : Auth.Team) (h : History) : Op → Prop
  | .complete p req => Vetted team h p req.model
  | .stream p req => Vetted team h p req.model
  | _ => True

theorem vets_of_kind {team : Auth.Team} {op : Op} (hop : op.kind ≠ .upstream) : vets team h op := by
  cases op with
  | complete p req => exact absurd rfl hop
  | stream p req => exact absurd rfl hop
  | _ => trivial

def vetting (team : Auth.Team) (requested : Candidate) (chain : List Candidate) :
    Contract Op Ans Vars :=
  .onHistory Vars (vets team) fun h => ChainBuilt h team requested chain

section Walk

def Drawn (team : Auth.Team) (requested : Candidate) (chain : List Candidate) (h : History)
    (p : Adapter) (m : String) : Prop :=
  ∃ a b c,h = a ++ ⟨.forModel m,.ok p⟩ :: b ∧ c.model = m ∧ c ∈ chain ∧
    ChainBuilt a team requested chain

/-- A walk under the guard G, over a chain that was built before; K is what else
is known by then. -/
def drawing (G : History → Op → Prop) (K : History → Prop) (team : Auth.Team)
    (requested : Candidate) (chain : List Candidate) : Contract Op Ans Vars :=
  .onHistory Vars G fun h => K h ∧ ChainBuilt h team requested chain

variable {team : Auth.Team} {requested : Candidate} {chain : List Candidate}

theorem Drawn.append {p : Adapter} {m : String}
    (hd : Drawn team requested chain h p m) (tr : History) :
    Drawn team requested chain (h ++ tr) p m := by
  obtain ⟨a,b,c,rfl,hc⟩ := hd
  exact ⟨a,b ++ tr,c,by simp,hc⟩

theorem Drawn.vetted {p : Adapter} {m : String}
    (hd : Drawn team requested chain h p m) : Vetted team h p m := by
  obtain ⟨a,b,c,hsplit,hm,hc,hbuilt⟩ := hd
  exact ⟨a,b,c,hsplit,hm,hbuilt.allowed c hc,hbuilt.sourced hc⟩

variable {G : History → Op → Prop} {K : History → Prop}
  (hother : ∀ h op,op.kind ≠ .upstream → G h op) (hgrow : ∀ h e,K h → K (h ++ [e]))
include hother hgrow

theorem drawing_step {op : Op} (hop : op.kind ≠ .upstream) :
    (drawing G K team requested chain).Step op :=
  onHistory_step fun _ hi => ⟨hother _ _ hop,fun _ => ⟨hgrow _ _ hi.1,hi.2.append _⟩⟩

theorem runChain_drawing {α : Type} {hd : Handler} {cb : ChainBudget}
    {attempt : Adapter → Candidate → Action (Except Fault α)}
    (hattempt : ∀ cand ∈ chain,∀ prov,Until (Ending.gain
      ((drawing G K team requested chain).assume fun h =>
        Drawn team requested chain h prov cand.model)
      fun _ _ => True) Except.toOption (attempt prov cand)) (first : Bool) (spent : Nat)
    (failures : List ChainFailure) :
    Until (Ending.gain (drawing G K team requested chain) fun _ _ => True) Except.toOption
      (hd.runChain cb attempt first spent failures chain) := by
  have hstep : ∀ op : Op,op.kind ≠ .upstream → (drawing G K team requested chain).Step op :=
    fun op => drawing_step hother hgrow
  refine runChain_gains (K := fun _ _ => True)
    (L := fun cand prov h => Drawn team requested chain h prov cand.model)
    (fun op hop => hstep op (by simp [hop])) (fun _ _ _ _ => trivial)
    (fun cand prov h e hv => hv.append [e]) (fun cand hc v h hi => ?_) hattempt first spent failures
  have hwalk : ∀ op,WalkOp chain op → (drawing G K team requested chain).Step op :=
    fun op hop => hstep op (by simp [hop.plain])
  refine (admitCandidate_keeps hwalk
    (fun op hop => hstep op (by simp [hop])) (fun t => onHistory_modify _) cb hc
    v h hi).mono fun h' r v' hq => ⟨hq.1,hq.2,fun d prov _ => ?_⟩
  exact ⟨h',[],cand,rfl,rfl,hc,hq.1.2⟩

omit hother in
theorem drawn_call_until {γ : Type} {prov : Adapter} {m : String} {op : Op}
    {out : Ans op → Option γ} (hop : ∀ h,K h → Drawn team requested chain h prov m → G h op) :
    Until (Ending.gain
      ((drawing G K team requested chain).assume fun h => Drawn team requested chain h prov m)
      fun _ _ => True) out (call op) :=
  until_call_gain (fun _ _ hi => ⟨hop _ hi.1.1 hi.2,fun _ =>
    ⟨⟨⟨hgrow _ _ hi.1.1,hi.1.2.append _⟩,hi.2.append _⟩,trivial⟩⟩) fun _ _ _ _ _ _ => trivial

theorem serveReserved_drawing {r : Inbound}
    (hcomplete : ∀ h p req,K h → Drawn r.team requested chain h p req.model → G h (.complete p req))
    (hstream : ∀ h p req,K h → Drawn r.team requested chain h p req.model → G h (.stream p req))
    (hd : Handler) (req : ChatRequest) (consulted : Consulted) :
    Honours (drawing G K r.team requested chain)
      (hd.serveReserved r req requested chain consulted) := by
  have hstep : ∀ op : Op,op.kind ≠ .upstream → (drawing G K r.team requested chain).Step op :=
    fun op => drawing_step hother hgrow
  have hplain : ∀ op : Op,op.kind = .plain → (drawing G K r.team requested chain).Step op :=
    fun op hop => hstep op (by simp [hop])
  have hstore : ∀ resp,Honours (drawing G K r.team requested chain)
      (Act.lift (storeConsulted r consulted resp)) := fun resp =>
    honours_lift (storeConsulted_calls hplain (fun op hop => hstep op (by simp [hop])) _ _ _)
  have houtput : ∀ {resp : Response},∀ op,Delivers resp op →
      (drawing G K r.team requested chain).Step op := fun op hop => hstep op (by simp [hop.kind])
  have hmetrics : ∀ f : Metrics → Metrics,(∀ m,(f m).costMicros = m.costMicros) →
      Honours (drawing G K r.team requested chain) (setMetrics f) := fun f _ => onHistory_modify _
  have hrecord : ∀ model usage,Honours (drawing G K r.team requested chain)
      (recordCost model usage) :=
    recordCost_honours (fun _ _ _ => hplain _ rfl) hmetrics fun _ _ _ _ _ _ hi _ => ⟨hi,trivial⟩
  refine serveReserved_honours hplain (fun op hop => hstep op (by simp [hop]))
    (fun op hop => hstep op (by simp [hop])) (fun n => onHistory_modify _)
    (fun base => ?_) fun base => ?_
  · refine streamChatCompletions_honours hplain hmetrics (runChain_drawing hother hgrow
      (fun cand hc prov => streamAttempt_until (fun op hop => (hplain op hop.plain).assume
        fun h e hv => hv.append [e]) (drawn_call_until hgrow fun h hk hv => hstream h _ _ hk hv))
          true 0 [])
      fun answer => ?_
    exact (relayStream_honours hplain hmetrics hrecord houtput (hstore _) req requested).assume
      fun _ _ _ => trivial
  · have hassume : ∀ (cand : Candidate) (prov : Adapter) (op : Op),op.kind = .plain →
        ((drawing G K r.team requested chain).assume
          fun h => Drawn r.team requested chain h prov cand.model).Step op :=
      fun cand prov op hop => (hplain op hop).assume fun h e hv => hv.append [e]
    refine completeChat_honours hplain hmetrics (runChain_drawing hother hgrow
      (fun cand hc prov => completeAttempt_until (fun op hop => hassume cand prov op hop.plain)
        (drawn_call_until hgrow fun h hk hv => hcomplete h _ _ hk hv)
        fun _ => gain_step (hassume cand prov _ rfl) fun _ _ _ _ => trivial) true 0 [])
      fun answer => ?_
    exact (finishChat_honours hplain hmetrics hrecord (fun n _ => onHistory_modify _) houtput
      (hstore _) requested).assume fun _ _ _ => trivial

omit hother hgrow in
theorem serveReserved_vetting (hd : Handler) (r : Inbound) (req : ChatRequest)
    (consulted : Consulted) :
    Honours (vetting r.team requested chain)
      (hd.serveReserved r req requested chain consulted) := by
  intro v h hi
  refine (serveReserved_drawing (K := fun _ => True) (fun _ _ hop => vets_of_kind hop)
    (fun _ _ hk => hk) (fun _ _ _ _ hv => hv.vetted) (fun _ _ _ _ hv => hv.vetted) hd req consulted
    v h ⟨trivial,hi⟩).mono fun h' x v' hq => ⟨hq.1.2,trivial⟩

end Walk

theorem chatCompletions_vetted (hd : Handler) (r : Inbound) :
    Spec (vets r.team) (hd.chatCompletions r) (fun _ _ _ => True) .zero [] := by
  have hstep : ∀ op : Op,op.kind ≠ .upstream →
      (Contract.onHistory Vars (vets r.team) fun _ => True).Step op :=
    fun op hop => onHistory_step fun _ _ => ⟨vets_of_kind hop,fun _ => trivial⟩
  refine chatCompletions_leads (C := .onHistory Vars (vets r.team) fun _ => True)
    (fun op hop => hstep op (by simp [hop]))
    (fun c team req => consultCache_calls (fun op hop => hstep op (by simp [hop])) c team req)
    (fun _ _ _ _ _ => trivial) (fun _ _ _ _ => trivial) (fun req c consulted e _ _ v h hi _ _ => ?_)
    (fun req requested chain consulted v h _ _ _ hbuilt _ => ?_) .zero [] trivial
  · exact (serveHit_honours (fun op hop => hstep op (by simp [hop]))
      (fun f _ => onHistory_modify _) (fun op hop => hstep op (by simp [hop.kind])) req.stream r
      v h hi).mono fun _ _ _ _ => trivial
  · exact (serveReserved_vetting hd r req consulted v h hbuilt).mono fun _ _ _ _ => trivial

/-- The live generation, and all generations since the request came in. -/
structure ConfigStore where
  live : LiveConfig
  seen : List LiveConfig

def Answers (c : LiveConfig) : (op : Op) → Ans op → Prop
  | .forModel m,ans => ans = c.registry.forModel m
  | .defaultMaxTokensFor m,ans => ans = c.registry.defaultMaxTokensFor m
  | .tierFor m,ans => ans = c.tiers m
  | .tierNamed name,ans => ans = c.tierNames name
  | .cost m i o,ans => ans = c.calculator.cost m i o
  | _,_ => True

def Loads (s : ConfigStore) (e : Event Op Ans) (t : ConfigStore) : Prop :=
  Answers s.live e.op e.ans ∧ t = s

/-- A successful reload. keep is a condition between each earlier generation and
the new one. -/
def Reloads (keep : LiveConfig → LiveConfig → Prop) (s t : ConfigStore) : Prop :=
  t.live.Loaded ∧ t.seen = t.live :: s.seen ∧ ∀ c ∈ s.seen,keep c t.live

/-- A request so far, interleaved with reloads. -/
structure ReloadRun (hd : Handler) (r : Inbound) (keep : LiveConfig → LiveConfig → Prop)
    (tr : History) : Prop where
  request : ∃ q,(hd.chatCompletions r .zero).After tr q
  served : ∃ c u,c.Loaded ∧ Served Loads (Reloads keep) ⟨c,[c]⟩ (tr.map (Step.mk 0)) u

/-- No model the team may use on the one configuration's provider is on a
provider closed to the team in the other. -/
def KeepsProviders (team : Auth.Team) (c c' : LiveConfig) : Prop :=
  ∀ m p q,c.registry.forModel m = .ok p → c'.registry.forModel m = .ok q →
    teamAllows team p.name m = true → team.allowsProvider q.name = true

def permitted (team : Auth.Team) : Op → Bool
  | .complete p req => team.allowsProvider p.name && team.allowsModel req.model
  | .stream p req => team.allowsProvider p.name && team.allowsModel req.model
  | _ => true

/-- What holds of the store while the calls are answered. -/
structure Generations (keep : LiveConfig → LiveConfig → Prop) (past : List (Step Op Ans))
    (s : ConfigStore) : Prop where
  loaded : ∀ c ∈ s.seen,c.Loaded
  live : ∀ c ∈ s.seen,c = s.live ∨ keep c s.live
  answered : ∀ x ∈ past,∃ c ∈ s.seen,Answers c x.event.op x.event.ans
  current : s.live ∈ s.seen

variable {keep : LiveConfig → LiveConfig → Prop}

theorem Generations.served {c : LiveConfig} {h : List (Step Op Ans)} {u : ConfigStore}
    (hc : c.Loaded) (hrun : Served Loads (Reloads keep) ⟨c,[c]⟩ h u) : Generations keep h u := by
  have hstart : Generations keep [] ⟨c,[c]⟩ := by
    refine ⟨?_,?_,?_,?_⟩ <;> simp [hc]
  refine Served.invariant (I := Generations keep) ?_ ?_ hrun
    (fun _ _ => trivial) hstart
  · intro past s x t hi (_ : True) hexec
    obtain ⟨hans,rfl⟩ := hexec
    refine ⟨hi.loaded,hi.live,fun y hy => ?_,hi.current⟩
    obtain hy | hy := List.mem_append.1 hy
    · exact hi.answered y hy
    · obtain rfl := List.mem_singleton.1 hy
      exact ⟨_,hi.current,hans⟩
  · intro past s t hi henv
    obtain ⟨hloaded,hseen,hkeep⟩ := henv
    refine ⟨fun g hg => ?_,fun g hg => ?_,fun y hy => ?_,by simp [hseen]⟩
    · obtain rfl | hg := List.mem_cons.1 (hseen ▸ hg)
      · exact hloaded
      · exact hi.loaded g hg
    · obtain rfl | hg := List.mem_cons.1 (hseen ▸ hg)
      · exact .inl rfl
      · exact .inr (hkeep g hg)
    · obtain ⟨g,hg,hans⟩ := hi.answered y hy
      exact ⟨g,by simp [hseen,hg],hans⟩

theorem Generations.sourced {a : History} {s : ConfigStore}
    (hgen : Generations keep (a.map (Step.mk 0)) s) {c : Candidate} (hc : Sourced a c) :
    ∃ g ∈ s.seen,∃ p,g.registry.forModel c.model = .ok p ∧ p.name = c.provider := by
  have hanswered : ∀ e ∈ a,∃ g ∈ s.seen,Answers g e.op e.ans :=
    fun e he => hgen.answered _ (List.mem_map_of_mem he)
  obtain ⟨p,hp,hname⟩ | ⟨m,tier,ht,hm⟩ := hc
  · obtain ⟨g,hg,hans⟩ := hanswered _ hp
    exact ⟨g,hg,p,hans.symm,hname.symm⟩
  · obtain ⟨g,hg,rfl⟩ := hanswered _ ht
    obtain ⟨p,hby,hname⟩ := (hgen.loaded g hg).closed (.inl hm)
    exact ⟨g,hg,p,by simp [Provider.Registry.forModel,hby],hname⟩

theorem Vetted.permitted {team : Auth.Team} {c : LiveConfig} {u : ConfigStore} {p : Adapter}
    {m : String} (hc : c.Loaded) (hkeep : ∀ g g',keep g g' → KeepsProviders team g g')
    (hrun : Served Loads (Reloads keep) ⟨c,[c]⟩ (h.map (Step.mk 0)) u) (hv : Vetted team h p m) :
    team.allowsProvider p.name = true ∧ team.allowsModel m = true := by
  obtain ⟨a,b,cand,rfl,rfl,hallowed,hsource⟩ := hv
  rw [List.map_append,List.map_cons] at hrun
  obtain ⟨t,t',hbefore,hexec,-⟩ := hrun.split
  have hlive : .ok p = t.live.registry.forModel cand.model := hexec.1
  have hgen := Generations.served hc hbefore
  obtain ⟨g,hg,q,hq,hname⟩ := hgen.sourced hsource
  refine ⟨?_,(Bool.and_eq_true_iff.1 hallowed).2⟩
  obtain rfl | hk := hgen.live g hg
  · obtain rfl : p = q := Except.ok.inj (hlive.trans hq)
    rw [hname]
    exact (Bool.and_eq_true_iff.1 hallowed).1
  · exact hkeep g _ hk cand.model q p hq hlive.symm (by rw [hname]; exact hallowed)

theorem ReloadRun.vetted {hd : Handler} {r : Inbound}
    {tr : History} (hrun : ReloadRun hd r keep tr) {e : Event Op Ans} (he : e ∈ tr) :
    ∃ a,vets r.team a e.op ∧ ∃ c u,c.Loaded ∧
      Served Loads (Reloads keep) ⟨c,[c]⟩ (a.map (Step.mk 0)) u := by
  obtain ⟨q,hafter⟩ := hrun.request
  obtain ⟨c,u,hc,hserved⟩ := hrun.served
  obtain ⟨a,b,rfl⟩ := List.append_of_mem he
  have hvet := ((chatCompletions_vetted hd r).after hafter).2 a e b rfl
  rw [List.map_append,List.map_cons] at hserved
  obtain ⟨t,-,hbefore,-⟩ := hserved.split
  exact ⟨a,by simpa using hvet,c,t,hc,hbefore⟩

/-- With reloads that move no model of the team's to a provider closed to it,
every provider call is within the team's allowlists. -/
theorem calls_permitted (hd : Handler) (r : Inbound) {tr : History}
    (hrun : ReloadRun hd r (KeepsProviders r.team) tr) : ∀ e ∈ tr,permitted r.team e.op = true := by
  intro e he
  obtain ⟨a,hvet,c,u,hc,hserved⟩ := hrun.vetted he
  obtain ⟨op,ans⟩ := e
  cases op with
  | complete p req => exact Bool.and_eq_true_iff.2 (hvet.permitted hc (fun _ _ h => h) hserved)
  | stream p req => exact Bool.and_eq_true_iff.2 (hvet.permitted hc (fun _ _ h => h) hserved)
  | _ => rfl

def oneProvider (name : String) : Config.ProvidersFile where
  providers := [⟨name,"ollama",none,"http://" ++ name,"","1s",100,"",[⟨"m1",1,1⟩]⟩]
  tiers := ∅

def plainSurroundings : Config.Surroundings := ⟨fun _ => "",fun _ => .ok 1000000000,fun _ => ""⟩

def liveOn (name : String) : LiveConfig :=
  match loadLiveConfig plainSurroundings "providers.yaml" (oneProvider name) with
  | .ok c => c
  | .error _ => ⟨.empty,⟨fun _ => none⟩,fun _ => [],fun _ => []⟩

theorem liveOn_loaded {name : String}
    (h : (loadLiveConfig plainSurroundings "providers.yaml" (oneProvider name)).isOk = true) :
    (liveOn name).Loaded := by
  refine ⟨plainSurroundings,"providers.yaml",oneProvider name,?_⟩
  unfold liveOn
  cases hl : loadLiveConfig plainSurroundings "providers.yaml" (oneProvider name) with
  | error e => simp [hl,Except.isOk,Except.toBool] at h
  | ok c => rfl

def reloadingWorld (next : LiveConfig) (s : ConfigStore) (op : Op) : Ans op × ConfigStore :=
  match op with
  | .forModel m => (s.live.registry.forModel m,s)
  | .defaultMaxTokensFor m => (s.live.registry.defaultMaxTokensFor m,s)
  | .tierFor m => (s.live.tiers m,s)
  | .tierNamed name => (s.live.tierNames name,s)
  | .cost m i o => (s.live.calculator.cost m i o,s)
  | .reserveTokens team cap amount ttl =>
    (fallbackWorld id (.reserveTokens team cap amount ttl),⟨next,next :: s.seen⟩)
  | op => (fallbackWorld id op,s)

theorem reloadingWorld_loads (next : LiveConfig) (s : ConfigStore) (op : Op) :
    Loads s ⟨op,(reloadingWorld next s op).1⟩ s ∧ ((reloadingWorld next s op).2 = s ∨
      (reloadingWorld next s op).2 = ⟨next,next :: s.seen⟩) := by
  cases op with
  | reserveTokens team cap amount ttl => exact ⟨⟨trivial,rfl⟩,.inr rfl⟩
  | forModel m => exact ⟨⟨rfl,rfl⟩,.inl rfl⟩
  | defaultMaxTokensFor m => exact ⟨⟨rfl,rfl⟩,.inl rfl⟩
  | tierFor m => exact ⟨⟨rfl,rfl⟩,.inl rfl⟩
  | tierNamed name => exact ⟨⟨rfl,rfl⟩,.inl rfl⟩
  | cost m i o => exact ⟨⟨rfl,rfl⟩,.inl rfl⟩
  | _ => exact ⟨⟨trivial,rfl⟩,.inl rfl⟩

def narrowRequest : Inbound :=
  { greeting false with
    team := { memberTeam with allowedProviders := ["p1"],allowedModels := ["m1"] } }

def reloadedTrace (next : LiveConfig) : History :=
  ((plainHandler.chatCompletions narrowRequest .zero).exec (reloadingWorld next)
    ⟨liveOn "p1",[liveOn "p1"]⟩).1

theorem reloadedTrace_run {next : LiveConfig}
    (hnext : next.Loaded) (hfirst : keep (liveOn "p1") next) (hagain : keep next next) :
    ReloadRun plainHandler narrowRequest keep (reloadedTrace next) := by
  refine ⟨⟨_,returns_exec _ _ _⟩,liveOn "p1",_,liveOn_loaded (by decide +kernel),
    served_exec 0 (I := fun s => ∀ c ∈ s.seen,c = liveOn "p1" ∨ c = next) (fun s op hs => ?_) _
      (by simp)⟩
  obtain ⟨hloads,hsame | hreload⟩ := reloadingWorld_loads next s op
  · exact ⟨by rw [hsame]; exact hs,s,hloads,.inl hsame⟩
  · refine ⟨?_,s,hloads,.inr ?_⟩
    · rw [hreload]
      intro c hc
      obtain rfl | hc := List.mem_cons.1 hc
      · exact .inr rfl
      · exact hs c hc
    · rw [hreload]
      refine ⟨hnext,rfl,fun c hc => ?_⟩
      obtain rfl | rfl := hs c hc
      · exact hfirst
      · exact hagain

theorem KeepsProviders.refl (team : Auth.Team) (c : LiveConfig) : KeepsProviders team c c := by
  intro m p q hp hq hallowed
  obtain rfl : p = q := Except.ok.inj (hp.symm.trans hq)
  exact (Bool.and_eq_true_iff.1 hallowed).1

/-- A reload of the unchanged file, with a provider call after it. -/
theorem calls_permitted_unchanged :
    (∃ e ∈ reloadedTrace (liveOn "p1"),e.op.kind = .upstream) ∧
      ∀ e ∈ reloadedTrace (liveOn "p1"),permitted narrowRequest.team e.op = true :=
  ⟨by decide +kernel,calls_permitted plainHandler narrowRequest (reloadedTrace_run
    (liveOn_loaded (by decide +kernel)) (KeepsProviders.refl _ _) (KeepsProviders.refl _ _))⟩

/-- A reload that moves m1 to another provider takes the request there. -/
theorem reload_reroutes : ∃ tr,ReloadRun plainHandler narrowRequest (fun _ _ => True) tr ∧
    ∃ e ∈ tr,permitted narrowRequest.team e.op = false :=
  ⟨reloadedTrace (liveOn "p2"),reloadedTrace_run (liveOn_loaded (by decide +kernel)) trivial
    trivial,by decide +kernel⟩

end Switchyard.Proxy
