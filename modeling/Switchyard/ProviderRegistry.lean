import Mathlib.Logic.Function.Basic
import Mathlib.Tactic.SplitIfs
import Switchyard.ProviderAdapters
import Switchyard.StepRuns
set_option autoImplicit false

/-!
The provider registry (internal/provider/registry.go): which instance serves a
model. A Go map is a partial function.
-/

namespace Switchyard.Provider
open GoText

structure Registry where
  byName : String → Option Adapter
  byModel : String → Option Adapter
  defaultMaxTokens : String → Option Int
  order : List Adapter

def Registry.empty : Registry := ⟨fun _ => none,fun _ => none,fun _ => none,[]⟩

def Registry.addModel (p : Adapter) (r : Registry) (model : String) : Except String Registry :=
  match r.byModel model with
  | some existing =>
    .error (s!"provider registry: model {quote model} is served by both {quote existing.name}" ++
      s!" and {quote p.cfg.name}; a model must map to one provider")
  | none => .ok { r with
      byModel := Function.update r.byModel model (some p)
      defaultMaxTokens := Function.update r.defaultMaxTokens model (some p.cfg.defaultMaxTokens) }

def Registry.addConfig (r : Registry) (cfg : Config) : Except String Registry :=
  match r.byName cfg.name with
  | some _ => .error s!"provider registry: duplicate provider name {quote cfg.name}"
  | none =>
    match newAdapter cfg with
    | .error e => .error s!"provider registry: {e}"
    | .ok p =>
      match cfg.models.foldlM (Registry.addModel p) r with
      | .error e => .error e
      | .ok r => .ok { r with
          byName := Function.update r.byName cfg.name (some p)
          order := r.order ++ [p] }

def newRegistry (cfgs : List Config) : Except String Registry :=
  if cfgs = [] then .error "provider registry: no providers configured"
  else cfgs.foldlM Registry.addConfig .empty

inductive ResolveError where
  | modelNotSupported (model : String)
  | other (text : String)
  deriving DecidableEq, Repr

def ResolveError.text : ResolveError → String
  | .modelNotSupported model => s!"resolving model {quote model}: no provider serves this model"
  | .other text => text

def Registry.forModel (r : Registry) (model : String) : Except ResolveError Adapter :=
  match r.byModel model with
  | none => .error (.modelNotSupported model)
  | some p => .ok p

def Registry.defaultMaxTokensFor (r : Registry) (model : String) : Option Int :=
  r.defaultMaxTokens model

/-- The registry of the configurations seen so far: each model they list is
served by the instance that lists it, and by nothing else. -/
structure Registry.Indexes (r : Registry) (cfgs : List Config) : Prop where
  listed : ∀ cfg ∈ cfgs,∀ m ∈ cfg.models,∃ p,r.byModel m = some p ∧ p.cfg = cfg
  served : ∀ m p,r.byModel m = some p → p.cfg ∈ cfgs ∧ m ∈ p.cfg.models
  ceiling : ∀ m,r.defaultMaxTokens m = (r.byModel m).map fun p => p.cfg.defaultMaxTokens

theorem Registry.addModel_spec {p : Adapter} {r r' : Registry} {model : String}
    (h : r.addModel p model = .ok r') :
    r.byModel model = none ∧ r'.byModel = Function.update r.byModel model (some p) ∧
      r'.defaultMaxTokens =
        Function.update r.defaultMaxTokens model (some p.cfg.defaultMaxTokens) := by
  unfold Registry.addModel at h
  cases hm : r.byModel model with
  | some q => simp [hm] at h
  | none =>
    simp only [hm,Except.ok.injEq] at h
    subst h
    exact ⟨rfl,rfl,rfl⟩

/-- After the models in done of a new configuration. -/
structure Registry.Adding (r : Registry) (cfgs : List Config) (p : Adapter) (done : List String) :
    Prop where
  listed : ∀ cfg ∈ cfgs,∀ m ∈ cfg.models,∃ q,r.byModel m = some q ∧ q.cfg = cfg
  added : ∀ m ∈ done,r.byModel m = some p
  served : ∀ m q,r.byModel m = some q → (q.cfg ∈ cfgs ∧ m ∈ q.cfg.models) ∨ (q = p ∧ m ∈ done)
  ceiling : ∀ m,r.defaultMaxTokens m = (r.byModel m).map fun q => q.cfg.defaultMaxTokens

theorem Registry.Adding.addModel {r r' : Registry} {cfgs : List Config} {p : Adapter}
    {done : List String} {model : String} (hr : r.Adding cfgs p done)
    (h : r.addModel p model = .ok r') : r'.Adding cfgs p (done ++ [model]) := by
  obtain ⟨hnew,hby,hmax⟩ := Registry.addModel_spec h
  have hold : ∀ m q,r.byModel m = some q → r'.byModel m = some q := by
    intro m q hm
    have hne : m ≠ model := by
      rintro rfl
      simp [hnew] at hm
    rw [hby,Function.update_of_ne hne,hm]
  refine ⟨fun cfg hcfg m hm => ?_,fun m hm => ?_,fun m q hq => ?_,fun m => ?_⟩
  · obtain ⟨q,hq,hqc⟩ := hr.listed cfg hcfg m hm
    exact ⟨q,hold m q hq,hqc⟩
  · obtain hm | hm := List.mem_append.1 hm
    · exact hold m p (hr.added m hm)
    · rw [List.mem_singleton.1 hm,hby,Function.update_self]
  · rw [hby] at hq
    by_cases hm : m = model
    · rw [hm,Function.update_self,Option.some.injEq] at hq
      exact .inr ⟨hq.symm,by simp [hm]⟩
    · rw [Function.update_of_ne hm] at hq
      obtain hq | ⟨hq,hd⟩ := hr.served m q hq
      · exact .inl hq
      · exact .inr ⟨hq,by simp [hd]⟩
  · rw [hby,hmax]
    by_cases hm : m = model
    · simp [hm]
    · simp [Function.update_of_ne hm,hr.ceiling m]

theorem Registry.Indexes.addConfig {r r' : Registry} {cfgs : List Config} {cfg : Config}
    (hr : r.Indexes cfgs) (h : r.addConfig cfg = .ok r') : r'.Indexes (cfgs ++ [cfg]) := by
  unfold Registry.addConfig at h
  cases hn : r.byName cfg.name with
  | some q => simp [hn] at h
  | none =>
    cases hp : newAdapter cfg with
    | error e => simp [hn,hp] at h
    | ok p =>
      cases hf : cfg.models.foldlM (Registry.addModel p) r with
      | error e => simp [hn,hp,hf] at h
      | ok r₁ =>
        simp only [hn,hp,hf,Except.ok.injEq] at h
        subst h
        obtain rfl := newAdapter_cfg hp
        have hstart : r.Adding cfgs p [] :=
          ⟨hr.listed,by simp,fun m q hq => .inl (hr.served m q hq),hr.ceiling⟩
        have hall := StepRuns.foldlM_invariant (I := fun done r => Registry.Adding r cfgs p done)
          (fun _ _ _ _ hs ha => hs.addModel ha) hf hstart
        refine ⟨fun c hc m hm => ?_,fun m q hq => ?_,hall.ceiling⟩
        · obtain hc | hc := List.mem_append.1 hc
          · exact hall.listed c hc m hm
          · obtain rfl := List.mem_singleton.1 hc
            exact ⟨p,hall.added m (by simpa using hm),rfl⟩
        · obtain ⟨hq,hm⟩ | ⟨rfl,hm⟩ := hall.served m q hq
          · exact ⟨by simp [hq],hm⟩
          · exact ⟨by simp,by simpa using hm⟩

theorem newRegistry_spec {cfgs : List Config} {r : Registry} (h : newRegistry cfgs = .ok r) :
    r.Indexes cfgs := by
  unfold newRegistry at h
  split_ifs at h
  have hempty : Registry.empty.Indexes [] :=
    ⟨by simp,by simp [Registry.empty],by simp [Registry.empty]⟩
  simpa using StepRuns.foldlM_invariant (I := fun done r => Registry.Indexes r done)
    (fun _ _ _ _ hs ha => hs.addConfig ha) h hempty

end Switchyard.Provider
