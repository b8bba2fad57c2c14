import Switchyard.ConfigClosure
set_option autoImplicit false

/-!
The routing policy: what start-up checks of it (internal/config/router.go and
`validateRoutingPolicy` of cmd/gateway/main.go), and the reloads of
cmd/gateway/reload.go that replace the configuration it was checked against.
-/

namespace Switchyard.Config
open GoText

structure Weights where
  length : ℚ
  reasoning : ℚ
  constraints : ℚ
  context : ℚ
  format : ℚ
  simple : ℚ
  deriving DecidableEq, Repr

structure Scales where
  lengthTokens : Int
  reasoningMatches : Int
  constraintMatches : Int
  formatMatches : Int
  deriving DecidableEq, Repr

/-- The same data in the file and in the classifier. -/
structure ClassifierConfig where
  threshold : ℚ
  weights : Weights
  scales : Scales
  reasoning : List String
  constraints : List String
  format : List String
  simple : List String
  deriving DecidableEq, Repr

structure RouterEntry where
  enabled : Option Bool
  policy : Routing.Policy
  classifier : ClassifierConfig
  deriving DecidableEq, Repr

/-- What reading and decoding router.yaml gives. -/
inductive RouterSource where
  | absent
  | unreadable (err : String)
  | malformed (err : String)
  | read (e : RouterEntry)
  deriving DecidableEq, Repr

structure Router where
  enabled : Bool
  policy : Routing.Policy
  classifier : ClassifierConfig
  deriving DecidableEq, Repr

def Router.off : Router := ⟨false,⟨"",""⟩,⟨0,⟨0,0,0,0,0,0⟩,⟨0,0,0,0⟩,[],[],[],[]⟩⟩

def checkPolicy (path : String) (p : Routing.Policy) : Except String Unit :=
  if p.simple = "" ∨ p.complex = "" then
    .error s!"{path}: policy.simple and policy.complex must both name a tier"
  else if p.simple = p.complex then
    .error (s!"{path}: policy.simple and policy.complex both name tier {quote p.simple}, which " ++
      "makes routing a no-op")
  else if p.simple = Routing.autoModel ∨ p.complex = Routing.autoModel then
    .error (s!"{path}: a tier may not be named {quote Routing.autoModel}, which is the reserved " ++
      "routing keyword")
  else .ok ()

def checkScale (path name : String) (n : Int) : Except String Unit :=
  if n ≤ 0 then .error s!"{path}: classifier.scales.{name} must be positive, got {formatInt n}"
  else .ok ()

/-- `validateLexicon` from pattern i on; `lower` is `strings.ToLower`. -/
def validateLexicon (lower : String → String) (path name : String) (i : Nat) :
    List String → Except String Unit
  | [] => .ok ()
  | p :: ps =>
    if trimSpace p = "" then .error s!"{path}: classifier.lexicon.{name}[{i}] is empty"
    else if p ≠ lower p then
      .error (s!"{path}: classifier.lexicon.{name}[{i}] {quote p} must be lowercase; matching is "
        ++ "case-folded and it would never fire")
    else validateLexicon lower path name (i+1) ps

def loadRouter (lower : String → String) (path : String) : RouterSource → Except String Router
  | .absent => .ok .off
  | .unreadable err => .error s!"reading router config: {err}"
  | .malformed err => .error s!"parsing {path}:\n{err}"
  | .read e =>
    if !e.enabled.getD true then .ok .off
    else do
      checkPolicy path e.policy
      let c := e.classifier
      checkScale path "length_tokens" c.scales.lengthTokens
      checkScale path "reasoning_matches" c.scales.reasoningMatches
      checkScale path "constraint_matches" c.scales.constraintMatches
      checkScale path "format_matches" c.scales.formatMatches
      validateLexicon lower path "reasoning" 0 c.reasoning
      validateLexicon lower path "constraints" 0 c.constraints
      validateLexicon lower path "format" 0 c.format
      validateLexicon lower path "simple" 0 c.simple
      pure ⟨true,e.policy,c⟩

end Switchyard.Config

namespace Switchyard.Gateway
open GoText Config Routing

def checkDeclared (c : LiveConfig) (tier : String) : Except String Unit :=
  if c.tierNames tier = [] then
    .error s!"routing policy names tier {quote tier}, which configs/providers.yaml does not declare"
  else .ok ()

def checkReserved (c : LiveConfig) (reserved : String) : Except String Unit :=
  match c.registry.forModel reserved with
  | .ok _ => .error (s!"model {quote reserved} collides with a routing keyword; rename it in " ++
      "configs/providers.yaml")
  | .error _ => .ok ()

def validateRoutingPolicy (c : LiveConfig) (p : Policy) : Except String Unit := do
  checkDeclared c p.simple
  checkDeclared c p.complex
  checkReserved c autoModel
  checkReserved c p.simple
  checkReserved c p.complex

/-- Start-up: the router that requests are served with, if routing is on. -/
def startRouting (lower : String → String)
    (newClassifier : ClassifierConfig → Provider.Request → Decision) (live : LiveConfig)
    (path : String) (source : RouterSource) : Except String (Option Routing.Router) :=
  match loadRouter lower path source with
  | .error e => .error s!"loading router config: {e}"
  | .ok cfg =>
    if cfg.enabled then do
      validateRoutingPolicy live cfg.policy
      pure (some ⟨newClassifier cfg.classifier,cfg.policy⟩)
    else .ok none

structure Reload where
  sur : Surroundings
  path : String
  file : ProvidersFile

def Reload.load (r : Reload) : Except String LiveConfig := loadLiveConfig r.sur r.path r.file

/-- `newReloader`'s closure: a file that does not load leaves the live
configuration as it is. -/
def newReloader (live : LiveConfig) (r : Reload) : Except String Unit × LiveConfig :=
  match r.load with
  | .error e => (.error e,live)
  | .ok next => (.ok (),next)

def liveAfter (live : LiveConfig) (rs : List Reload) : LiveConfig :=
  rs.foldl (fun live r => (newReloader live r).2) live

/-- What the policy needs of the configuration. -/
structure Supports (c : LiveConfig) (p : Policy) : Prop where
  declared : ∀ tier ∈ [p.simple,p.complex],c.tierNames tier ≠ []
  unreserved : ∀ m prov,c.registry.forModel m = .ok prov → m ∉ [autoModel,p.simple,p.complex]

theorem checkDeclared_ok {c : LiveConfig} {tier : String} :
    checkDeclared c tier = .ok () ↔ c.tierNames tier ≠ [] := by
  unfold checkDeclared
  split <;> simp_all

theorem checkReserved_ok {c : LiveConfig} {m : String} :
    checkReserved c m = .ok () ↔ ∀ prov,c.registry.forModel m ≠ .ok prov := by
  unfold checkReserved
  cases c.registry.forModel m <;> simp

theorem except_bind_ok {ε α : Type} {x : Except ε Unit} {f : Unit → Except ε α} {a : α} :
    (x >>= f) = .ok a ↔ x = .ok () ∧ f () = .ok a := by
  cases x with
  | error e => simp [bind,Except.bind]
  | ok u => simp [bind,Except.bind]

theorem validateRoutingPolicy_ok {c : LiveConfig} {p : Policy} :
    validateRoutingPolicy c p = .ok () ↔ Supports c p := by
  unfold validateRoutingPolicy
  simp only [except_bind_ok,checkDeclared_ok,checkReserved_ok]
  refine ⟨fun ⟨hs,hc,ha,hs',hc'⟩ => ⟨by simp [hs,hc],fun m prov hm hmem => ?_⟩,fun h => ?_⟩
  · simp only [List.mem_cons,List.not_mem_nil,or_false] at hmem
    obtain rfl | rfl | rfl := hmem
    · exact ha prov hm
    · exact hs' prov hm
    · exact hc' prov hm
  · exact ⟨h.declared _ (by simp),h.declared _ (by simp),
      fun prov hm => h.unreserved _ prov hm (by simp),
      fun prov hm => h.unreserved _ prov hm (by simp),
      fun prov hm => h.unreserved _ prov hm (by simp)⟩

theorem startRouting_supports {lower : String → String}
    {newClassifier : ClassifierConfig → Provider.Request → Decision} {live : LiveConfig}
    {path : String} {source : RouterSource} {router : Routing.Router}
    (h : startRouting lower newClassifier live path source = .ok (some router)) :
    Supports live router.policy := by
  unfold startRouting at h
  split at h
  · cases h
  split at h
  · obtain ⟨hvalid,hrouter⟩ := except_bind_ok.1 h
    obtain rfl := Option.some.inj (Except.ok.inj hrouter)
    exact validateRoutingPolicy_ok.1 hvalid
  · cases h

theorem liveAfter_invariant {I : LiveConfig → Prop} {live : LiveConfig} {rs : List Reload}
    (hlive : I live) (hload : ∀ r ∈ rs,∀ next,r.load = .ok next → I next) :
    I (liveAfter live rs) := by
  induction rs generalizing live with
  | nil => exact hlive
  | cons r rs ih =>
    show I (liveAfter (newReloader live r).2 rs)
    refine ih ?_ fun r' hr' => hload r' (by simp [hr'])
    unfold newReloader
    cases hr : r.load with
    | error e => exact hlive
    | ok next => exact hload r (by simp) next hr

theorem liveAfter_snoc {live : LiveConfig} {rs : List Reload} {r : Reload} {next : LiveConfig}
    (h : r.load = .ok next) : liveAfter live (rs ++ [r]) = next := by
  simp [liveAfter,newReloader,h]

end Switchyard.Gateway

namespace Switchyard.Proxy
open CallTree Provider Resilience Gateway

/-- `ChatCompletions` from the decoded body on. -/
def Handler.serveDecoded (h : Handler) (r : Inbound) (req : ChatRequest) : Action Unit := do
  setMetrics fun m => { m with requestedModel := req.model, stream := req.stream }
  match ← Act.lift (h.route r.team req) with
  | none => pure ()
  | some none => h.serveModel r req
  | some (some routed) => do
    setMetrics fun m => { m with
      routedModel := routed.model
      routedTier := routed.tier
      routeReason := routed.reason
      routeBaselineModel := routed.baselineModel }
    h.serveModel r { req with model := routed.model }

theorem chatCompletions_eq (h : Handler) (r : Inbound) : h.chatCompletions r = (do
    match ← Act.lift (decode h r) with
    | none => pure ()
    | some req => h.serveDecoded r req) := rfl

/-- Under the policy, a request for a model that c serves is never routed: it
goes on to that model's own chain. -/
def Unrouted (c : LiveConfig) (p : Routing.Policy) : Prop :=
  ∀ (hd : Handler) (router : Routing.Router) (r : Inbound) (req : ChatRequest) (prov : Adapter),
    hd.routing = some router → router.policy = p → c.registry.forModel req.model = .ok prov →
    hd.serveDecoded r req = (do
      setMetrics fun m => { m with requestedModel := req.model, stream := req.stream }
      hd.serveModel r req)

theorem unrouted_of_supports {c : LiveConfig} {p : Routing.Policy} (h : Supports c p) :
    Unrouted c p := by
  intro hd router r req prov hrouting hp hm
  have hfree := h.unreserved _ _ hm
  simp only [List.mem_cons,List.not_mem_nil,or_false,not_or] at hfree
  have hplan : router.plan req.model req.toProviderRequest = none := by
    simp [Routing.Router.plan,Routing.Router.routes,hp,hfree]
  have hroute : hd.route r.team req = pure (some none) := by
    simp [Handler.route,hrouting,hplan]
  rw [Handler.serveDecoded,hroute]
  rfl

/-- With a policy accepted at start-up, both laws hold at every moment of a
history of reloads exactly when every file loaded in it would pass the start-up
check as well. -/
theorem policy_kept_iff {lower : String → String}
    {newClassifier : Config.ClassifierConfig → Request → Routing.Decision} {live : LiveConfig}
    {path : String} {source : Config.RouterSource} {router : Routing.Router}
    (hstart : startRouting lower newClassifier live path source = .ok (some router))
    (rs : List Reload) :
    (∀ done,done <+: rs → Supports (liveAfter live done) router.policy ∧
      Unrouted (liveAfter live done) router.policy) ↔
    ∀ r ∈ rs,∀ next,r.load = .ok next → validateRoutingPolicy next router.policy = .ok () := by
  constructor
  · intro h r hr next hload
    obtain ⟨before,after,rfl⟩ := List.append_of_mem hr
    have hmoment := (h (before ++ [r]) ⟨after,by simp⟩).1
    rw [liveAfter_snoc hload] at hmoment
    exact validateRoutingPolicy_ok.2 hmoment
  · intro h done hdone
    have hsupports : Supports (liveAfter live done) router.policy := by
      refine liveAfter_invariant (I := fun c => Supports c router.policy)
        (startRouting_supports hstart) fun r hr next hload => ?_
      exact validateRoutingPolicy_ok.1 (h r (hdone.subset hr) next hload)
    exact ⟨hsupports,unrouted_of_supports hsupports⟩

def fastAndSmart : Config.RouterEntry :=
  ⟨none,⟨"fast","smart"⟩,⟨1,⟨0,0,0,0,0,0⟩,⟨1,1,1,1⟩,[],[],[],[]⟩⟩

def alwaysSimple (_ : Config.ClassifierConfig) (_ : Request) : Routing.Decision := ⟨.simple,""⟩

def simpleRouter : Routing.Router := ⟨alwaysSimple fastAndSmart.classifier,fastAndSmart.policy⟩

theorem tieredFile_valid :
    validateRoutingPolicy (liveFrom tieredFile) fastAndSmart.policy = .ok () := by
  simp only [liveFrom,loadLiveConfig,Config.loadProviders,Config.resolveTiers,tieredFile_names]
  decide +kernel

theorem fastAndSmart_starts : startRouting id alwaysSimple (liveFrom tieredFile) "router.yaml"
    (.read fastAndSmart) = .ok (some simpleRouter) := by
  have hload : Config.loadRouter id "router.yaml" (.read fastAndSmart) =
      .ok ⟨true,fastAndSmart.policy,fastAndSmart.classifier⟩ := by decide +kernel
  simp only [startRouting,hload,tieredFile_valid]
  rfl

/-- Reloading the file of the start. -/
theorem policy_kept_same :
    Supports (liveAfter (liveFrom tieredFile) [⟨plainSurroundings,"providers.yaml",tieredFile⟩])
        fastAndSmart.policy ∧
      Unrouted (liveAfter (liveFrom tieredFile)
        [⟨plainSurroundings,"providers.yaml",tieredFile⟩]) fastAndSmart.policy := by
  refine (policy_kept_iff fastAndSmart_starts _).2 (fun r hr next hload => ?_) _ List.prefix_rfl
  obtain rfl := List.mem_singleton.1 hr
  obtain rfl := Except.ok.inj (hload.symm.trans tieredFile_loads)
  exact tieredFile_valid

def clashingFile : Config.ProvidersFile where
  providers := [⟨"p1","ollama",none,"http://p1","","1s",100,"",[⟨"m1",1,1⟩,⟨"auto",2,2⟩]⟩]
  tiers := AList.singleton "fast" [⟨"p1","m1"⟩]

theorem clashingFile_names : clashingFile.tiers.keys.mergeSort (· ≤ ·) = ["fast"] := by
  have hkeys : clashingFile.tiers.keys = ["fast"] := by decide +kernel
  rw [hkeys,List.mergeSort_singleton]

theorem clashingFile_loads : loadLiveConfig plainSurroundings "providers.yaml" clashingFile =
    .ok (liveFrom clashingFile) := by
  refine liveFrom_loads ?_
  simp only [loadLiveConfig,Config.loadProviders,Config.resolveTiers,clashingFile_names]
  decide +kernel

theorem clashingFile_tiers : (liveFrom clashingFile).tierNames "fast" = [⟨"p1","m1"⟩] ∧
    (liveFrom clashingFile).tierNames "smart" = [] ∧
    ((liveFrom clashingFile).registry.forModel "auto").isOk = true := by
  simp only [liveFrom,loadLiveConfig,Config.loadProviders,Config.resolveTiers,clashingFile_names]
  decide +kernel

def routingHandler : Handler := { plainHandler with routing := some simpleRouter }

/-- After a start-up that passed its checks, a reload succeeds; then a tier of the
policy is gone, a served model is called auto, and a request for that model is
routed to another one. -/
theorem reload_breaks_policy :
    startRouting id alwaysSimple (liveFrom tieredFile) "router.yaml" (.read fastAndSmart) =
      .ok (some simpleRouter) ∧
    ∃ next,(⟨plainSurroundings,"providers.yaml",clashingFile⟩ : Reload).load = .ok next ∧
      next.tierNames simpleRouter.policy.complex = [] ∧
      (∃ prov,next.registry.forModel "auto" = .ok prov) ∧
      ∃ (req : ChatRequest) (tr : History),req.model = "auto" ∧ AnsweredBy next tr ∧
        (routingHandler.route memberTeam req).Returns tr (some (some ⟨"m1","fast","",""⟩)) := by
  obtain ⟨hfast,hsmart,hauto⟩ := clashingFile_tiers
  refine ⟨fastAndSmart_starts,liveFrom clashingFile,clashingFile_loads,hsmart,?_,
    ⟨"auto",[⟨"user","hi"⟩],none,0,false,[]⟩,
    [⟨.tierNamed "fast",[⟨"p1","m1"⟩]⟩,⟨.tierNamed "smart",[]⟩],rfl,?_,?_⟩
  · cases hm : (liveFrom clashingFile).registry.forModel "auto" with
    | error e => simp [hm,Except.isOk,Except.toBool] at hauto
    | ok prov => exact ⟨prov,rfl⟩
  · intro e he
    simp only [List.mem_cons,List.not_mem_nil,or_false] at he
    obtain rfl | rfl := he
    · exact hfast.symm
    · exact hsmart.symm
  · exact .next (.next (.start _))

end Switchyard.Proxy
