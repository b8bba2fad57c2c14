import Mathlib.Data.List.AList
import Switchyard.BudgetTracker
import Switchyard.FallbackChain
import Switchyard.ProviderRegistry
set_option autoImplicit false

/-!
From a providers file to the live configuration: `LoadProviders`
(internal/config) and the bundle a reload swaps in (cmd/gateway/reload.go). The
YAML decoder is outside the model: a file is the struct it decodes to. Where the
code ranges over a map of distinct keys, the model has a list.
-/

namespace Switchyard.Config
open GoText Provider

structure ModelPricing where
  inputPer1M : Int
  outputPer1M : Int
  deriving DecidableEq, Repr

structure TierEntry where
  provider : String
  model : String
  deriving DecidableEq, Repr

/-- Prices are the doubles the decoder read. -/
structure ModelEntry where
  name : String
  inputPer1MU : ℚ
  outputPer1MU : ℚ
  deriving DecidableEq, Repr

structure ProviderEntry where
  name : String
  type : String
  enabled : Option Bool
  baseURL : String
  apiKeyEnv : String
  timeout : String
  defaultMaxTokens : Int
  pingModel : String
  models : List ModelEntry
  deriving DecidableEq, Repr

structure ProvidersFile where
  providers : List ProviderEntry
  tiers : AList fun _ : String => List TierEntry

structure Providers where
  configs : List Provider.Config
  pricing : String → Option ModelPricing
  tiers : List (String × List TierEntry)

/-- What the loader reads besides the file: the environment, and the duration
syntax of the time package. -/
structure Surroundings where
  getenv : String → String
  parseDuration : String → Except String Int
  printDuration : Int → String

def ProviderEntry.isEnabled (e : ProviderEntry) : Bool := e.enabled.getD true

/-- `int64(math.Round(usd * 1e6))`; `math.Round` rounds halves away from zero. -/
def usdToMicros (usd : ℚ) : Int :=
  let x := Binary64.round (usd*1000000)
  MachineInt.convert (if 0 ≤ x then ⌊x+1/2⌋ else ⌈x-1/2⌉)

def resolveAPIKey (sur : Surroundings) (label providerType envVar : String) :
    Except String String :=
  if providerType = "ollama" then .ok ""
  else if envVar = "" then
    .error s!"{label}: api_key_env is required for type {quote providerType}"
  else if sur.getenv envVar = "" then
    .error (s!"{label}: environment variable {envVar} is unset or empty; set it, or mark this " ++
      "provider `enabled: false`")
  else .ok (sur.getenv envVar)

def resolveTimeout (sur : Surroundings) (label timeout : String) : Except String Int :=
  if timeout = "" then .error s!"{label}: timeout is required (for example \"30s\")"
  else
    match sur.parseDuration timeout with
    | .error e => .error
        (s!"{label}: timeout {quote timeout} is not a duration (for example \"30s\"): {e}")
    | .ok d =>
      if d ≤ 0 then .error s!"{label}: timeout must be positive, got {sur.printDuration d}"
      else .ok d

/-- One round of `resolve`'s loop over the models; the list holds the models
accepted so far. -/
def resolveModel (label : String) (seen : List (String × ModelPricing)) (m : ModelEntry) :
    Except String (List (String × ModelPricing)) :=
  if m.name = "" then .error s!"{label}: models[{seen.length}] has no name"
  else if m.name ∈ seen.map Prod.fst then .error s!"{label}: model {quote m.name} listed twice"
  else if m.inputPer1MU < 0 ∨ m.outputPer1MU < 0 then
    .error s!"{label}: model {quote m.name} has a negative price"
  else .ok (seen ++ [(m.name,⟨usdToMicros m.inputPer1MU,usdToMicros m.outputPer1MU⟩)])

def checkEntry (label : String) (e : ProviderEntry) : Except String Unit :=
  if e.name = "" then .error s!"{label}: name is required"
  else if e.baseURL = "" then .error s!"{label}: base_url is required"
  else if e.defaultMaxTokens ≤ 0 then
    .error s!"{label}: default_max_tokens must be a positive integer"
  else if e.models = [] then .error s!"{label}: at least one model must be listed"
  else if e.type ∈ ["openai-compatible","anthropic","gemini","ollama"] then .ok ()
  else if e.type = "" then .error s!"{label}: type is required"
  else .error (s!"{label}: unknown type {quote e.type} (want one of openai-compatible, " ++
    "anthropic, gemini, ollama)")

def ProviderEntry.resolve (sur : Surroundings) (e : ProviderEntry) (label : String) :
    Except String (Provider.Config × List (String × ModelPricing)) :=
  match checkEntry label e with
  | .error err => .error err
  | .ok () =>
    match resolveTimeout sur label e.timeout with
    | .error err => .error err
    | .ok timeout =>
      match e.models.foldlM (resolveModel label) [] with
      | .error err => .error err
      | .ok pricing =>
        if e.pingModel ≠ "" ∧ e.pingModel ∉ pricing.map Prod.fst then
          .error s!"{label}: ping_model {quote e.pingModel} is not in this provider's model list"
        else
          match if e.isEnabled then resolveAPIKey sur label e.type e.apiKeyEnv else .ok "" with
          | .error err => .error err
          | .ok apiKey => .ok (⟨e.name,e.type,e.baseURL,apiKey,timeout,pricing.map Prod.fst,
              e.defaultMaxTokens,e.pingModel⟩,pricing)

structure Loading where
  index : Nat
  seenNames : List String
  modelOwner : String → Option String
  modelProvider : String → Option String
  providerEnabled : String → Bool
  configs : List Provider.Config
  pricing : String → Option ModelPricing

def Loading.start : Loading :=
  ⟨0,[],fun _ => none,fun _ => none,fun _ => false,[],fun _ => none⟩

def Loading.claim (path label name : String) (l : Loading) (m : String × ModelPricing) :
    Except String Loading :=
  match l.modelOwner m.1 with
  | some owner =>
    .error (s!"{path}: model {quote m.1} is listed under both {quote owner} and {quote label}; " ++
      "a model must map to exactly one provider")
  | none => .ok { l with
      modelOwner := Function.update l.modelOwner m.1 (some label)
      modelProvider := Function.update l.modelProvider m.1 (some name) }

def Loading.price (l : Loading) (m : String × ModelPricing) : Loading :=
  { l with pricing := Function.update l.pricing m.1 (some m.2) }

def ProviderEntry.label (e : ProviderEntry) (i : Nat) : String :=
  if e.name = "" then s!"providers[{i}]" else e.name

def Loading.entry (sur : Surroundings) (path : String) (l : Loading) (e : ProviderEntry) :
    Except String Loading :=
  let label := e.label l.index
  if e.name ∈ l.seenNames ∧ e.name ≠ "" then
    .error s!"{path}: duplicate provider name {quote e.name}"
  else
    match e.resolve sur label with
    | .error err => .error s!"{path}: {err}"
    | .ok (cfg,pricing) =>
      match pricing.foldlM (Loading.claim path label e.name) l with
      | .error err => .error err
      | .ok claimed =>
        let l := { claimed with
          index := l.index+1
          seenNames := e.name :: l.seenNames
          providerEnabled := Function.update l.providerEnabled e.name e.isEnabled }
        if !e.isEnabled then .ok l
        else .ok { pricing.foldl Loading.price l with configs := l.configs ++ [cfg] }

structure TierLoading where
  index : Nat
  tierOfModel : String → Option String
  resolved : List TierEntry

def TierLoading.entry (path : String) (l : Loading) (name : String) (t : TierLoading)
    (e : TierEntry) : Except String TierLoading :=
  if e.provider = "" ∨ e.model = "" then
    .error s!"{path}: tier {quote name} entry {t.index} needs both a provider and a model"
  else
    match l.modelProvider e.model with
    | none => .error
        s!"{path}: tier {quote name} lists model {quote e.model}, which no provider defines"
    | some owner =>
      if owner ≠ e.provider then
        .error (s!"{path}: tier {quote name} lists model {quote e.model} under provider " ++
          s!"{quote e.provider}, but it is served by {quote owner}")
      else
        match t.tierOfModel e.model with
        | some other =>
          if other = name then
            .error s!"{path}: tier {quote name} lists model {quote e.model} twice"
          else .error (s!"{path}: model {quote e.model} appears in both tier {quote other} and " ++
            s!"tier {quote name}; a model must belong to exactly one tier")
        | none => .ok ⟨t.index+1,Function.update t.tierOfModel e.model (some name),
            if l.providerEnabled e.provider then t.resolved ++ [e] else t.resolved⟩

/-- One tier: the models it claims, and the entries that are kept. -/
def resolveTier (path : String) (l : Loading)
    (acc : (String → Option String) × List (String × List TierEntry))
    (tier : String × List TierEntry) :
    Except String ((String → Option String) × List (String × List TierEntry)) :=
  if tier.1 = "" then .error s!"{path}: a tier has an empty name"
  else if tier.2 = [] then .error s!"{path}: tier {quote tier.1} has no entries"
  else
    match tier.2.foldlM (TierLoading.entry path l tier.1) ⟨0,acc.1,[]⟩ with
    | .error err => .error err
    | .ok t => .ok (t.tierOfModel,acc.2 ++ [(tier.1,t.resolved)])

def resolveTiers (path : String) (raw : AList fun _ : String => List TierEntry) (l : Loading) :
    Except String (List (String × List TierEntry)) :=
  let names := raw.keys.mergeSort (· ≤ ·)
  let tiers := names.map fun name => (name,(raw.lookup name).getD [])
  (tiers.foldlM (resolveTier path l) (fun _ => none,[])).map Prod.snd

def loadProviders (sur : Surroundings) (path : String) (file : ProvidersFile) :
    Except String Providers :=
  if file.providers = [] then .error s!"{path}: no providers defined"
  else
    match file.providers.foldlM (Loading.entry sur path) .start with
    | .error err => .error err
    | .ok l =>
      if l.configs = [] then
        .error (s!"{path}: every provider is disabled; the gateway would have nothing to " ++
          "route to")
      else
        match resolveTiers path file.tiers l with
        | .error err => .error err
        | .ok tiers => .ok ⟨l.configs,l.pricing,tiers⟩

/-- A model's provider was met; if it is enabled, its configuration was kept and
lists the model. -/
def Loading.Sound (l : Loading) : Prop :=
  ∀ m p,l.modelProvider m = some p → p ∈ l.seenNames ∧
    (l.providerEnabled p = true → ∃ cfg ∈ l.configs,cfg.name = p ∧ m ∈ cfg.models)

variable {e : ProviderEntry}

theorem checkEntry_name {label : String} (h : checkEntry label e = .ok ()) : e.name ≠ "" := by
  intro he
  simp [checkEntry,he] at h

variable {pricing : List (String × ModelPricing)}

theorem resolveModel_names {label : String} {models : List ModelEntry}
    (h : models.foldlM (resolveModel label) [] = .ok pricing) :
    pricing.map Prod.fst = models.map ModelEntry.name := by
  refine StepRuns.foldlM_invariant (d := [])
    (I := fun done (acc : List (String × ModelPricing)) =>
      acc.map Prod.fst = done.map ModelEntry.name) ?_ h rfl
  intro done acc m acc' hacc hm
  unfold resolveModel at hm
  split_ifs at hm
  obtain rfl := Except.ok.inj hm
  simp [hacc]

variable {sur : Surroundings}

theorem ProviderEntry.resolve_spec {label : String} {cfg : Provider.Config}
    (h : e.resolve sur label = .ok (cfg,pricing)) :
    e.name ≠ "" ∧ cfg.name = e.name ∧ cfg.models = pricing.map Prod.fst ∧
      cfg.models = e.models.map ModelEntry.name ∧ cfg.defaultMaxTokens = e.defaultMaxTokens := by
  unfold ProviderEntry.resolve at h
  cases hc : checkEntry label e with
  | error err => simp [hc] at h
  | ok u =>
    have hname := checkEntry_name hc
    simp only [hc] at h
    cases ht : resolveTimeout sur label e.timeout with
    | error err => simp [ht] at h
    | ok timeout =>
      cases hm : e.models.foldlM (resolveModel label) [] with
      | error err => simp [ht,hm] at h
      | ok ps =>
        simp only [ht,hm] at h
        split_ifs at h
        all_goals
          split at h
          · cases h
          · simp only [Except.ok.injEq,Prod.mk.injEq] at h
            obtain ⟨rfl,rfl⟩ := h
            exact ⟨hname,rfl,rfl,resolveModel_names hm,rfl⟩

variable {l : Loading} {path : String}

theorem Loading.claim_spec {label name : String}
    {claimed : Loading} (h : pricing.foldlM (Loading.claim path label name) l = .ok claimed) :
    ∃ owner provider,
      claimed = { l with modelOwner := owner, modelProvider := provider } ∧
      ∀ m p,provider m = some p →
        (p = name ∧ m ∈ pricing.map Prod.fst) ∨ l.modelProvider m = some p := by
  refine StepRuns.foldlM_invariant (d := [])
    (I := fun done (k : Loading) => ∃ owner provider,
      k = { l with modelOwner := owner, modelProvider := provider } ∧ ∀ m p,provider m = some p →
        (p = name ∧ m ∈ done.map Prod.fst) ∨ l.modelProvider m = some p) ?_ h
    ⟨_,_,rfl,fun m p hm => .inr hm⟩
  rintro done k x k' ⟨owner,provider,rfl,hk⟩ hx
  unfold Loading.claim at hx
  cases ho : owner x.1 with
  | some other => simp [ho] at hx
  | none =>
    simp only [ho,Except.ok.injEq] at hx
    subst hx
    refine ⟨_,_,rfl,fun m p hm => ?_⟩
    by_cases hmx : m = x.1
    · simp only [hmx,Function.update_self,Option.some.injEq] at hm
      exact .inl ⟨hm.symm,by simp [hmx]⟩
    · simp only [Function.update_of_ne hmx] at hm
      obtain ⟨hp,hd⟩ | hold := hk m p hm
      · exact .inl ⟨hp,by simp [hd]⟩
      · exact .inr hold

def addPrices (table : String → Option ModelPricing) (pricing : List (String × ModelPricing)) :
    String → Option ModelPricing :=
  pricing.foldl (fun table m => Function.update table m.1 (some m.2)) table

theorem Loading.foldl_price (pricing : List (String × ModelPricing)) (l : Loading) :
    pricing.foldl Loading.price l = { l with pricing := addPrices l.pricing pricing } := by
  induction pricing generalizing l with
  | nil => rfl
  | cons m pricing ih => exact ih (l.price m)

/-- One entry of the file: its provider is new, its models were nobody's, and the
configuration and the prices are kept if it is enabled. -/
theorem Loading.entry_cases {l' : Loading} (h : l.entry sur path e = .ok l') :
    ∃ label cfg pricing owner provider,e.resolve sur label = .ok (cfg,pricing) ∧
      e.name ∉ l.seenNames ∧
      (∀ m p,provider m = some p →
        (p = e.name ∧ m ∈ pricing.map Prod.fst) ∨ l.modelProvider m = some p) ∧
      l' = {
        index := l.index+1
        seenNames := e.name :: l.seenNames
        modelOwner := owner
        modelProvider := provider
        providerEnabled := Function.update l.providerEnabled e.name e.isEnabled
        configs := if e.isEnabled then l.configs ++ [cfg] else l.configs
        pricing := if e.isEnabled then addPrices l.pricing pricing else l.pricing } := by
  unfold Loading.entry at h
  simp only [] at h
  split at h
  · cases h
  rename_i hdup
  split at h
  · cases h
  rename_i cfg pricing hr
  have hname := (ProviderEntry.resolve_spec hr).1
  split at h
  · cases h
  rename_i claimed hc
  obtain ⟨owner,provider,rfl,hclaimed⟩ := Loading.claim_spec hc
  refine ⟨_,cfg,pricing,owner,provider,hr,fun hm => hdup ⟨hm,hname⟩,hclaimed,?_⟩
  cases hen : e.isEnabled with
  | false => simpa [hen] using h.symm
  | true => simpa [hen,Loading.foldl_price] using h.symm

theorem Loading.Sound.entry {l' : Loading} (hl : l.Sound) (h : l.entry sur path e = .ok l') :
    l'.Sound := by
  obtain ⟨label,cfg,pricing,owner,provider,hr,hfresh,hclaimed,rfl⟩ := Loading.entry_cases h
  obtain ⟨-,hcfg,hmodels,-⟩ := ProviderEntry.resolve_spec hr
  intro m p hm
  obtain ⟨rfl,hmem⟩ | hm := hclaimed m p hm
  · refine ⟨by simp,fun ht => ?_⟩
    simp only [Function.update_self] at ht
    exact ⟨cfg,by simp [ht],hcfg,hmodels ▸ hmem⟩
  · obtain ⟨hs,henabled⟩ := hl m p hm
    have hne : p ≠ e.name := fun hp => hfresh (hp ▸ hs)
    simp only [Function.update_of_ne hne]
    refine ⟨by simp [hs],fun ht => ?_⟩
    obtain ⟨c,hc,hrest⟩ := henabled ht
    refine ⟨c,?_,hrest⟩
    split
    · simp [hc]
    · exact hc

def Loading.Serves (l : Loading) (e : TierEntry) : Prop :=
  l.modelProvider e.model = some e.provider ∧ l.providerEnabled e.provider = true

theorem TierLoading.entry_cases {name : String} {t t' : TierLoading}
    {e : TierEntry} (h : t.entry path l name e = .ok t') :
    l.modelProvider e.model = some e.provider ∧ t.tierOfModel e.model = none ∧
      t' = ⟨t.index+1,Function.update t.tierOfModel e.model (some name),
        if l.providerEnabled e.provider then t.resolved ++ [e] else t.resolved⟩ := by
  unfold TierLoading.entry at h
  split at h
  · cases h
  split at h
  · cases h
  rename_i owner hm
  split at h
  · cases h
  rename_i ho
  split at h
  · split at h <;> cases h
  · rename_i hnone
    exact ⟨by rw [hm,not_ne_iff.1 ho],hnone,(Except.ok.inj h).symm⟩

theorem resolveTier_cases {acc acc' : (String → Option String) × List (String × List TierEntry)}
    {tier : String × List TierEntry} (h : resolveTier path l acc tier = .ok acc') :
    ∃ t,tier.2.foldlM (TierLoading.entry path l tier.1) ⟨0,acc.1,[]⟩ = .ok t ∧
      acc' = (t.tierOfModel,acc.2 ++ [(tier.1,t.resolved)]) := by
  unfold resolveTier at h
  split_ifs at h
  split at h
  · cases h
  rename_i t ht
  exact ⟨t,ht,(Except.ok.inj h).symm⟩

structure TierLoading.Kept (l : Loading) (name : String) (t : TierLoading) : Prop where
  serves : ∀ d ∈ t.resolved,l.Serves d
  claimed : ∀ d ∈ t.resolved,t.tierOfModel d.model = some name

theorem TierLoading.Kept.entry {name : String} {t t' : TierLoading}
    {e : TierEntry} (ht : t.Kept l name) (h : t.entry path l name e = .ok t') : t'.Kept l name := by
  obtain ⟨hserved,hfree,rfl⟩ := TierLoading.entry_cases h
  have hcases : ∀ d ∈ (if l.providerEnabled e.provider then t.resolved ++ [e] else t.resolved),
      d ∈ t.resolved ∨ (d = e ∧ l.providerEnabled e.provider = true) := by
    intro d hd
    split_ifs at hd with hen
    · simpa [hen] using hd
    · exact .inl hd
  refine ⟨fun d hd => ?_,fun d hd => ?_⟩
  · obtain hd | ⟨rfl,hen⟩ := hcases d hd
    · exact ht.serves d hd
    · exact ⟨hserved,hen⟩
  · obtain hd | ⟨rfl,-⟩ := hcases d hd
    · have hne : d.model ≠ e.model := by
        intro heq
        simp [← heq,ht.claimed d hd] at hfree
      simp only [Function.update_of_ne hne]
      exact ht.claimed d hd
    · simp only [Function.update_self]

theorem TierLoading.entry_keeps {name : String} {t t' : TierLoading} {e : TierEntry}
    (h : t.entry path l name e = .ok t') {m other : String} (hm : t.tierOfModel m = some other) :
    t'.tierOfModel m = some other := by
  obtain ⟨-,hfree,rfl⟩ := TierLoading.entry_cases h
  have hne : m ≠ e.model := by
    rintro rfl
    simp [hm] at hfree
  simpa only [Function.update_of_ne hne] using hm

/-- The tiers of an accepted file: their names are distinct, their entries are
served, and no model is in two of them. -/
structure TiersResolved (l : Loading) (tiers : List (String × List TierEntry)) : Prop where
  distinct : (tiers.map Prod.fst).Nodup
  serves : ∀ t ∈ tiers,∀ e ∈ t.2,l.Serves e
  unshared : ∀ t ∈ tiers,∀ u ∈ tiers,∀ e ∈ t.2,∀ d ∈ u.2,e.model = d.model → t.1 = u.1

theorem TiersResolved.only {tiers : List (String × List TierEntry)}
    (h : TiersResolved l tiers) {t u : String × List TierEntry} (ht : t ∈ tiers) (hu : u ∈ tiers)
    {m : String} (hmt : m ∈ t.2.map TierEntry.model) (hmu : m ∈ u.2.map TierEntry.model) :
    t = u := by
  obtain ⟨e,he,rfl⟩ := List.mem_map.1 hmt
  obtain ⟨d,hd,heq⟩ := List.mem_map.1 hmu
  exact List.inj_on_of_nodup_map h.distinct ht hu (h.unshared t ht u hu e he d hd heq.symm)

theorem resolveTiers_spec {raw : AList fun _ : String => List TierEntry}
    {tiers : List (String × List TierEntry)} (h : resolveTiers path raw l = .ok tiers) :
    TiersResolved l tiers := by
  unfold resolveTiers at h
  simp only [Except.map] at h
  split at h
  · cases h
  rename_i acc hacc
  obtain rfl := Except.ok.inj h
  have hall := StepRuns.foldlM_invariant (d := [])
    (I := fun done (acc : (String → Option String) × List (String × List TierEntry)) =>
      acc.2.map Prod.fst = done.map Prod.fst ∧
        ∀ t ∈ acc.2,∀ e ∈ t.2,l.Serves e ∧ acc.1 e.model = some t.1) ?_ hacc ⟨rfl,by simp⟩
  · obtain ⟨hnames,hkept⟩ := hall
    refine ⟨?_,fun t ht e he => (hkept t ht e he).1,fun t ht u hu e he d hd heq => ?_⟩
    · rw [hnames]
      simpa [Function.comp_def] using
        (List.mergeSort_perm raw.keys (· ≤ ·)).nodup_iff.2 raw.keys_nodup
    · have howner := (hkept u hu d hd).2
      rw [← heq,(hkept t ht e he).2] at howner
      exact Option.some.inj howner
  · rintro done a tier a' ⟨hnames,ha⟩ hstep
    obtain ⟨t,ht,rfl⟩ := resolveTier_cases hstep
    have hkept := StepRuns.foldlM_invariant (d := [])
      (I := fun _ (t : TierLoading) => t.Kept l tier.1 ∧
        ∀ m other,a.1 m = some other → t.tierOfModel m = some other)
      (fun _ _ _ _ hs hx =>
        ⟨hs.1.entry hx,fun m other hm => TierLoading.entry_keeps hx (hs.2 m other hm)⟩)
      ht ⟨⟨by simp,by simp⟩,fun _ _ hm => hm⟩
    refine ⟨by simp [hnames],fun u hu e he => ?_⟩
    obtain hu | hu := List.mem_append.1 hu
    · exact ⟨(ha u hu e he).1,hkept.2 _ _ (ha u hu e he).2⟩
    · obtain rfl := List.mem_singleton.1 hu
      exact ⟨hkept.1.serves e he,hkept.1.claimed e he⟩

theorem loadProviders_cases {file : ProvidersFile}
    {p : Providers} (h : loadProviders sur path file = .ok p) :
    ∃ l,file.providers.foldlM (Loading.entry sur path) .start = .ok l ∧
      TiersResolved l p.tiers ∧ p.configs = l.configs ∧ p.pricing = l.pricing := by
  unfold loadProviders at h
  split_ifs at h
  split at h
  · cases h
  rename_i l hl
  split_ifs at h
  split at h
  · cases h
  rename_i tiers ht
  obtain rfl := Except.ok.inj h
  exact ⟨l,hl,resolveTiers_spec ht,rfl,rfl⟩

theorem loadProviders_tiers {file : ProvidersFile}
    {p : Providers} (h : loadProviders sur path file = .ok p) :
    ∀ t ∈ p.tiers,∀ e ∈ t.2,∃ cfg ∈ p.configs,cfg.name = e.provider ∧ e.model ∈ cfg.models := by
  obtain ⟨l,hl,htiers,hcfgs,-⟩ := loadProviders_cases h
  have hstart : Loading.start.Sound := by simp [Loading.Sound,Loading.start]
  have hsound := StepRuns.foldlM_invariant (d := []) (I := fun _ l => Loading.Sound l)
    (fun _ _ _ _ hs hx => hs.entry hx) hl hstart
  intro t ht e he
  obtain ⟨howner,hen⟩ := htiers.serves t ht e he
  rw [hcfgs]
  exact (hsound _ _ howner).2 hen

end Switchyard.Config

namespace Switchyard.Gateway
open Config Resilience

/-- What one reload replaces as a whole. -/
structure LiveConfig where
  registry : Provider.Registry
  calculator : Budget.Calculator
  tiers : String → List Candidate
  tierNames : String → List Candidate

def tierCandidates (entries : List TierEntry) : List Candidate :=
  entries.map fun e => ⟨e.provider,e.model⟩

def indexTier (acc : (String → List Candidate) × (String → List Candidate))
    (tier : String × List TierEntry) : (String → List Candidate) × (String → List Candidate) :=
  let candidates := tierCandidates tier.2
  (candidates.foldl (fun byModel c => Function.update byModel c.model candidates) acc.1,
    Function.update acc.2 tier.1 candidates)

def indexTiers (tiers : List (String × List TierEntry)) :
    (String → List Candidate) × (String → List Candidate) :=
  tiers.foldl indexTier (fun _ => [],fun _ => [])

def loadLiveConfig (sur : Surroundings) (path : String) (file : ProvidersFile) :
    Except String LiveConfig :=
  match loadProviders sur path file with
  | .error e => .error s!"loading provider config: {e}"
  | .ok providers =>
    match Provider.newRegistry providers.configs with
    | .error e => .error s!"building provider registry: {e}"
    | .ok registry =>
      let (byModel,byName) := indexTiers providers.tiers
      .ok ⟨registry,⟨fun m => (providers.pricing m).map fun p => ⟨p.inputPer1M,p.outputPer1M⟩⟩,
        byModel,byName⟩

def LiveConfig.Loaded (c : LiveConfig) : Prop :=
  ∃ sur path file,loadLiveConfig sur path file = .ok c

theorem update_candidates (all : List Candidate) (cs : List Candidate)
    (byModel : String → List Candidate) (m : String) :
    cs.foldl (fun byModel c => Function.update byModel c.model all) byModel m = all ∨
      cs.foldl (fun byModel c => Function.update byModel c.model all) byModel m = byModel m := by
  induction cs generalizing byModel with
  | nil => exact .inr rfl
  | cons c cs ih =>
    obtain h | h := ih (Function.update byModel c.model all)
    · exact .inl h
    · simp only [List.foldl_cons,h]
      by_cases hm : m = c.model
      · exact .inl (by rw [hm,Function.update_self])
      · exact .inr (Function.update_of_ne hm _ _)

theorem mem_indexTiers {tiers : List (String × List TierEntry)} {name : String} {c : Candidate}
    (h : c ∈ (indexTiers tiers).1 name ∨ c ∈ (indexTiers tiers).2 name) :
    ∃ t ∈ tiers,⟨c.provider,c.model⟩ ∈ t.2 := by
  have scan : ∀ (tiers : List (String × List TierEntry))
      (acc : (String → List Candidate) × (String → List Candidate)),
      c ∈ (tiers.foldl indexTier acc).1 name ∨ c ∈ (tiers.foldl indexTier acc).2 name →
      (c ∈ acc.1 name ∨ c ∈ acc.2 name) ∨ ∃ t ∈ tiers,⟨c.provider,c.model⟩ ∈ t.2 := by
    intro tiers
    induction tiers with
    | nil => intro acc h; exact .inl h
    | cons t tiers ih =>
      intro acc h
      obtain h | ⟨u,hu,hc⟩ := ih _ h
      · have hmem : c ∈ tierCandidates t.2 → ∃ u ∈ t :: tiers,⟨c.provider,c.model⟩ ∈ u.2 := by
          intro hc
          obtain ⟨e,he,rfl⟩ := List.mem_map.1 hc
          exact ⟨t,by simp,he⟩
        obtain h | h := h
        · obtain heq | heq := update_candidates (tierCandidates t.2) (tierCandidates t.2) acc.1 name
          · exact .inr (hmem (heq ▸ h))
          · exact .inl (.inl (heq ▸ h))
        · by_cases hn : name = t.1
          · simp only [indexTier,hn,Function.update_self] at h
            exact .inr (hmem h)
          · simp only [indexTier,Function.update_of_ne hn] at h
            exact .inl (.inr h)
      · exact .inr ⟨u,by simp [hu],hc⟩
  obtain h | h := scan tiers _ h
  · simp at h
  · exact h

theorem loadLiveConfig_cases {sur : Surroundings} {path : String} {file : ProvidersFile}
    {c : LiveConfig} (h : loadLiveConfig sur path file = .ok c) :
    ∃ providers,loadProviders sur path file = .ok providers ∧
      Provider.newRegistry providers.configs = .ok c.registry ∧
      (∀ m,c.calculator.pricing m =
        (providers.pricing m).map fun p => ⟨p.inputPer1M,p.outputPer1M⟩) ∧
      c.tiers = (indexTiers providers.tiers).1 ∧ c.tierNames = (indexTiers providers.tiers).2 := by
  unfold loadLiveConfig at h
  split at h
  · cases h
  rename_i providers hp
  split at h
  · cases h
  rename_i registry hr
  obtain rfl := Except.ok.inj h
  exact ⟨providers,hp,hr,fun _ => rfl,rfl,rfl⟩

theorem LiveConfig.Loaded.closed {c : LiveConfig} (h : c.Loaded) {name : String} {d : Candidate}
    (hd : d ∈ c.tiers name ∨ d ∈ c.tierNames name) :
    ∃ p,c.registry.byModel d.model = some p ∧ p.name = d.provider := by
  obtain ⟨sur,path,file,h⟩ := h
  obtain ⟨providers,hp,hr,-,hmodels,hnames⟩ := loadLiveConfig_cases h
  rw [hmodels,hnames] at hd
  obtain ⟨t,ht,he⟩ := mem_indexTiers hd
  obtain ⟨cfg,hcfg,hname,hm⟩ := loadProviders_tiers hp t ht _ he
  obtain ⟨p,hby,rfl⟩ := (Provider.newRegistry_spec hr).listed cfg hcfg _ hm
  exact ⟨p,hby,hname⟩

end Switchyard.Gateway
