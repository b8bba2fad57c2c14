import Mathlib.Data.List.Count
import Mathlib.Data.List.Nodup
import Switchyard.ChainReports
set_option autoImplicit false

/-!
The provider calls of a walk over the chain (internal/proxy/fallback.go,
runChain; internal/resilience/retry.go, Do): how many, on which candidates, in
which order, and how the walk's result follows from them.
-/

namespace Switchyard.Proxy
open CallTree Act Provider Resilience

/-- A provider call begins at the fault injector. It ends with the health
recorder, or with an open stream, which is recorded later. -/
inductive CallEvent where
  | start (c : Candidate)
  | finish (err : Option Fault)
  deriving DecidableEq, Repr

def callEvent : Event Op Ans → Option CallEvent
  | ⟨.chaos c,_⟩ => some (.start c)
  | ⟨.recordHealth _ err,_⟩ => some (.finish err)
  | ⟨.stream _ _,.opened _⟩ => some (.finish none)
  | _ => none

/-- One provider call; without an outcome it panicked. -/
structure ProviderCall where
  candidate : Candidate
  outcome : Option (Option Fault)
  deriving DecidableEq, Repr

def ProviderCall.events (x : ProviderCall) : List CallEvent :=
  .start x.candidate :: (x.outcome.map CallEvent.finish).toList

def callsOf : List CallEvent → List ProviderCall
  | [] => []
  | .finish _ :: l => callsOf l
  | .start c :: .finish err :: l => ⟨c,some err⟩ :: callsOf l
  | .start c :: l => ⟨c,none⟩ :: callsOf l

def providerCalls (tr : History) : List ProviderCall := callsOf (tr.filterMap callEvent)

theorem callsOf_start {c : Candidate} {l : List CallEvent}
    (hl : ∀ err,l.head? ≠ some (.finish err)) :
    callsOf (.start c :: l) = ⟨c,none⟩ :: callsOf l := by
  cases l with
  | nil => rfl
  | cons e l =>
    cases e with
    | start d => rfl
    | finish err => exact absurd rfl (hl err)

theorem callsOf_events (calls : List ProviderCall) :
    callsOf (calls.flatMap ProviderCall.events) = calls := by
  induction calls with
  | nil => rfl
  | cons x calls ih =>
    obtain ⟨c,outcome⟩ := x
    rw [List.flatMap_cons]
    cases outcome with
    | some err => exact congrArg _ ih
    | none =>
      refine (callsOf_start fun err => ?_).trans (congrArg _ ih)
      cases calls <;> simp [ProviderCall.events]

def outcomeOf {α : Type} : Except String (Except Fault α) → Option (Option Fault)
  | .ok (.ok _) => some none
  | .ok (.error f) => some (some f)
  | .error _ => none

def Tells (h h' : History) (calls : List ProviderCall) : Prop :=
  ∃ tr,h' = h ++ tr ∧ tr.filterMap callEvent = calls.flatMap ProviderCall.events

theorem tells_nil (h : History) : Tells h h [] := ⟨[],by simp,rfl⟩

theorem Tells.trans {h h₁ h₂ : History} {calls calls' : List ProviderCall} (h₁₂ : Tells h h₁ calls)
    (h₂₃ : Tells h₁ h₂ calls') : Tells h h₂ (calls ++ calls') := by
  obtain ⟨tr,rfl,htr⟩ := h₁₂
  obtain ⟨tr',rfl,htr'⟩ := h₂₃
  exact ⟨tr ++ tr',by simp,by rw [List.filterMap_append,List.flatMap_append,htr,htr']⟩

theorem Tells.calls {tr : History} {calls : List ProviderCall} (h : Tells [] tr calls) :
    providerCalls tr = calls := by
  obtain ⟨tr',rfl,htr⟩ := h
  rw [providerCalls,htr,callsOf_events]

def unheard (op : Op) : Prop := ∀ ans,callEvent ⟨op,ans⟩ = none

/-- A part of the walk that makes no provider call and does not panic. -/
def Quietly {β : Type} (x : Action β) : Prop :=
  ∀ v h,Spec (fun _ _ => True) x (fun h' r _ => Tells h h' [] ∧ ∃ b,r = .ok b) v h

section Quiet
variable {β γ : Type}

theorem quietly_pure (b : β) : Quietly (pure b : Action β) := fun _ h => ⟨tells_nil h,b,rfl⟩

theorem quietly_modify (f : Vars → Vars) : Quietly (Act.modify f) := fun _ h => ⟨tells_nil h,(),rfl⟩

theorem tells_unheard {op : Op} (hop : unheard op) (ans : Ans op) (h : History) :
    Tells h (h ++ [⟨op,ans⟩]) [] := ⟨[⟨op,ans⟩],rfl,by simp [hop ans]⟩

theorem quietly_call (op : Op) (hop : unheard op) : Quietly (call op) :=
  fun _ h => ⟨trivial,fun ans => ⟨tells_unheard hop ans h,ans,rfl⟩⟩

theorem Quietly.bind {x : Action β} {f : β → Action γ} (hx : Quietly x) (hf : ∀ b,Quietly (f b)) :
    Quietly (x >>= f) := by
  intro v h
  refine (hx v h).bind (fun h₁ b v₁ hq => ?_) ?_
  · exact (hf b v₁ h₁).mono fun h₂ r v₂ hq' => ⟨hq.1.trans hq'.1,hq'.2⟩
  · rintro h₁ p v₁ ⟨-,b,hb⟩
    cases hb

theorem quietly_lift {p : Program β} (hp : p.Calls unheard) : Quietly (Act.lift p) := by
  intro v h
  rw [spec_lift]
  induction p generalizing h with
  | ret b => exact ⟨tells_nil h,b,rfl⟩
  | call op k ih =>
    refine ⟨trivial,fun ans => (ih ans (hp.2 ans) (h ++ [⟨op,ans⟩])).mono fun h' b hq => ?_⟩
    exact ⟨(tells_unheard hp.1 ans h).trans hq.1,hq.2⟩

theorem Quietly.before {x : Action β} {f : β → Action γ} (hx : Quietly x) {h h₁ : History}
    {calls : List ProviderCall} (ht : Tells h h₁ calls)
    {Q : History → Except String γ → Vars → Prop} {v : Vars}
    (hf : ∀ b h₂ v₂,Tells h h₂ calls → Spec (fun _ _ => True) (f b) Q v₂ h₂) :
    Spec (fun _ _ => True) (x >>= f) Q v h₁ := by
  refine (hx v h₁).bind (fun h₂ b v₂ hq => hf b h₂ v₂ ?_) ?_
  · simpa using ht.trans hq.1
  · rintro h₂ p v₂ ⟨-,b,hb⟩
    cases hb

end Quiet

theorem backoffDelay_quietly (base : Int) (n : Nat) (err : Provider.Error) :
    Quietly (backoffDelay pauses base n err) := by
  unfold backoffDelay fullJitter
  split
  · exact quietly_pure _
  split
  · exact quietly_pure _
  · exact quietly_call _ fun _ => rfl

theorem breakerAllows_quietly (hd : Handler) (cand : Candidate) :
    Quietly (hd.breakerAllows cand) := by
  unfold Handler.breakerAllows
  split
  · exact quietly_call _ fun _ => rfl
  · exact quietly_pure _

theorem breakerReport_quietly (hd : Handler) (cand : Candidate) (success : Bool) :
    Quietly (hd.breakerReport cand success) := by
  unfold Handler.breakerReport
  split
  · exact quietly_call _ fun _ => rfl
  · exact quietly_pure _

theorem requestOver_tells (first : Bool) (v : Vars) (h : History) :
    Spec (fun _ _ => True) (requestOver first)
      (fun h' r _ => Tells h h' [] ∧ ∃ ended,r = .ok ended ∧ (ended = true → first = false))
      v h := by
  cases first with
  | true => exact ⟨tells_nil h,false,rfl,by simp⟩
  | false =>
    exact ⟨trivial,fun ended => ⟨tells_unheard (fun _ => rfl) ended h,ended,rfl,fun _ => rfl⟩⟩

theorem admitCandidate_quietly (cb : ChainBudget) (model : String) :
    Quietly (cb.admitCandidate model) := by
  unfold ChainBudget.admitCandidate
  split
  · exact quietly_pure _
  refine (quietly_lift (estimateFor_calls (fun _ => rfl) (fun _ _ _ => rfl) cb)).bind fun est => ?_
  cases est with
  | error e => exact quietly_pure _
  | ok estimate =>
    simp only []
    split
    · exact quietly_pure _
    refine (quietly_call _ fun _ => rfl).bind fun reserved => ?_
    split
    · exact quietly_pure _
    split
    · exact quietly_pure _
    · exact (quietly_modify _).bind fun _ => quietly_pure _

theorem logFallback_quietly {left : Option (List ChainFailure)} (hleft : left ≠ some []) :
    Quietly (logFallback left) := by
  cases left with
  | none => exact quietly_pure _
  | some failures =>
    obtain ⟨f,hf⟩ : ∃ f,failures.getLast? = some f :=
      Option.ne_none_iff_exists'.1 fun hnone => hleft (by rw [List.getLast?_eq_none_iff.1 hnone])
    simp only [logFallback,hf]
    exact quietly_pure _

def Observed {α : Type} (attempt : Adapter → Candidate → Action (Except Fault α)) : Prop :=
  ∀ prov cand v h,Spec (fun _ _ => True) (attempt prov cand)
    (fun h' r _ => Tells h h' [⟨cand,outcomeOf r⟩]) v h

def Begun (h h' : History) (cand : Candidate) : Prop :=
  ∃ tr,h' = h ++ tr ∧ tr.filterMap callEvent = [.start cand]

theorem Begun.quiet {h h' : History} {cand : Candidate} (hb : Begun h h' cand) {e : Event Op Ans}
    (he : callEvent e = none) : Begun h (h' ++ [e]) cand := by
  obtain ⟨tr,rfl,htr⟩ := hb
  exact ⟨tr ++ [e],by simp,by simp [htr,he]⟩

theorem Begun.finish {h h' : History} {cand : Candidate} (hb : Begun h h' cand) {e : Event Op Ans}
    {err : Option Fault} (he : callEvent e = some (.finish err)) :
    Tells h (h' ++ [e]) [⟨cand,some err⟩] := by
  obtain ⟨tr,rfl,htr⟩ := hb
  exact ⟨tr ++ [e],by simp,by simp [htr,he,ProviderCall.events]⟩

theorem Begun.panicked {h h' : History} {cand : Candidate} (hb : Begun h h' cand) :
    Tells h h' [⟨cand,none⟩] := by
  obtain ⟨tr,rfl,htr⟩ := hb
  exact ⟨tr,rfl,by simp [htr,ProviderCall.events]⟩

section Attempts
variable {α : Type} {h h' : History} {cand : Candidate}

theorem failAttempt_observed (hb : Begun h h' cand) (f : Fault) (v : Vars) :
    Spec (fun _ _ => True) (failAttempt cand f : Action (Except Fault α))
      (fun h'' r _ => Tells h h'' [⟨cand,outcomeOf r⟩]) v h' :=
  spec_call_bind.2 ⟨trivial,fun _ => hb.finish rfl⟩

theorem injecting_observed {body : Action (Except Fault α)}
    (hbody : ∀ h' v,Begun h h' cand → Spec (fun _ _ => True) body
      (fun h'' r _ => Tells h h'' [⟨cand,outcomeOf r⟩]) v h') (v : Vars) :
    Spec (fun _ _ => True) (injecting cand body)
      (fun h'' r _ => Tells h h'' [⟨cand,outcomeOf r⟩]) v h := by
  refine spec_call_bind.2 ⟨trivial,fun injected => ?_⟩
  have hb : Begun h (h ++ [⟨.chaos cand,injected⟩]) cand := ⟨_,rfl,rfl⟩
  cases injected with
  | panicked p => exact hb.panicked
  | failed e => exact failAttempt_observed hb _ v
  | nothing => exact hbody _ v hb

end Attempts

theorem completeAttempt_observed (req : Request) : Observed (completeAttempt req) := by
  intro prov cand v h
  refine injecting_observed (fun h' v hb => ?_) v
  refine spec_call_bind.2 ⟨trivial,fun ans => ?_⟩
  have hasked : Begun h (h' ++ [⟨.complete prov { req with model := cand.model },ans⟩]) cand :=
    hb.quiet rfl
  cases ans with
  | panicked p => exact hasked.panicked
  | failed f => exact failAttempt_observed hasked f v
  | body raw =>
    simp only []
    split
    · exact failAttempt_observed hasked _ v
    · exact spec_call_bind.2 ⟨trivial,fun _ => hasked.finish rfl⟩

theorem streamAttempt_observed (req : Request) : Observed (streamAttempt req) := by
  intro prov cand v h
  refine injecting_observed (fun h' v hb => ?_) v
  refine spec_call_bind.2 ⟨trivial,fun ans => ?_⟩
  cases ans with
  | panicked p => exact (hb.quiet (e := ⟨.stream prov _,.panicked p⟩) rfl).panicked
  | failed f => exact failAttempt_observed (hb.quiet (e := ⟨.stream prov _,.failed f⟩) rfl) f v
  | opened s => exact hb.finish rfl

/-! A candidate's round. -/

def failedCalls (cand : Candidate) (errs : List Fault) : List ProviderCall :=
  errs.map fun f => ⟨cand,some (some f)⟩

section Round
variable {α : Type} {attempt : Adapter → Candidate → Action (Except Fault α)}
  (hattempt : Observed attempt)

include hattempt in
/-- Retries: some failed calls and the one that decides, at most left+1. -/
theorem attemptFrom_tells (base : Int) (prov : Adapter) (cand : Candidate) (left n : Nat) (v : Vars)
    (h : History) :
    Spec (fun _ _ => True) (attemptFrom pauses base (fun _ => attempt prov cand) left n)
      (fun h' r _ => ∃ errs : List Fault,errs.length ≤ left ∧
        Tells h h' (failedCalls cand errs ++ [⟨cand,outcomeOf (r.map Prod.fst)⟩]) ∧
        ∀ result m,r = .ok (result,m) → m = n+errs.length) v h := by
  induction left generalizing n v h with
  | zero =>
    refine (hattempt prov cand v h).bind (fun h' r v' ht => ?_) fun h' p v' ht => ?_
    · refine ⟨[],Nat.le_refl 0,ht,?_⟩
      rintro result m ⟨⟩
      rfl
    · exact ⟨[],Nat.le_refl 0,ht,by rintro _ _ ⟨⟩⟩
  | succ left ih =>
    refine (hattempt prov cand v h).bind (fun h' r v' ht => ?_) fun h' p v' ht => ?_
    · have hend : ∃ errs : List Fault,errs.length ≤ left+1 ∧
          Tells h h' (failedCalls cand errs ++ [⟨cand,outcomeOf (.ok r)⟩]) ∧
          ∀ (result : Except Fault α) (m : Nat),
            (.ok (r,n) : Except String (Except Fault α × Nat)) = .ok (result,m) →
            m = n+errs.length := by
        refine ⟨[],Nat.zero_le _,ht,?_⟩
        rintro result m ⟨⟩
        rfl
      cases r with
      | ok a => exact hend
      | error err =>
        simp only []
        split
        · exact hend
        split
        · exact hend
        rename_i e _ _
        refine (backoffDelay_quietly base n e).before ht fun delay h₁ v₁ ht₁ => ?_
        refine (quietly_call (.wait delay) fun _ => rfl).before ht₁ fun waited h₂ v₂ ht₂ => ?_
        split
        · refine (ih (n+1) v₂ h₂).mono ?_
          rintro h₃ r v₃ ⟨errs,hlen,ht₃,hn⟩
          refine ⟨err :: errs,Nat.succ_le_succ hlen,ht₂.trans ht₃,fun result m hr => ?_⟩
          have := hn result m hr
          simp only [List.length_cons]
          omega
        · exact ⟨[],Nat.zero_le _,ht₂,by rintro _ _ ⟨⟩; rfl⟩
    · exact ⟨[],Nat.zero_le _,ht,by rintro _ _ ⟨⟩⟩

def RoundTells (cand : Candidate) (cap : Nat) (h h' : History) : Except String (Tried α) → Prop
  | .ok (.skipped _) => Tells h h' []
  | .ok (.called result n) => ∃ errs : List Fault,n = errs.length+1 ∧ n ≤ cap ∧
      Tells h h' (failedCalls cand errs ++ [⟨cand,outcomeOf (.ok result)⟩])
  | .error _ => ∃ errs : List Fault,errs.length+1 ≤ cap ∧
      Tells h h' (failedCalls cand errs ++ [⟨cand,none⟩])

include hattempt in
theorem tryCandidate_tells (hd : Handler) (cb : ChainBudget) {remaining : Nat}
    (hrem : 0 < remaining) {left : Option (List ChainFailure)} (hleft : left ≠ some [])
    (cand : Candidate) (v : Vars) (h : History) :
    Spec (fun _ _ => True) (hd.tryCandidate cb attempt remaining left cand)
      (fun h' r _ => RoundTells cand (min hd.retryConfig.maxAttempts remaining) h h' r) v h := by
  refine (breakerAllows_quietly hd cand).before (tells_nil h) fun allowed h₁ v₁ ht₁ => ?_
  split
  · exact ht₁
  refine (admitCandidate_quietly cb cand.model).before ht₁ fun budget h₂ v₂ ht₂ => ?_
  cases budget with
  | error e => exact ht₂
  | ok delta =>
    refine (logFallback_quietly hleft).before ht₂ fun _ h₃ v₃ ht₃ => ?_
    refine (quietly_call (.forModel cand.model) fun _ => rfl).before ht₃
      fun resolved h₄ v₄ ht₄ => ?_
    cases resolved with
    | error e => exact ht₄
    | ok prov =>
      have hcap : min hd.retryConfig.maxAttempts remaining-1+1 =
          min hd.retryConfig.maxAttempts remaining := by
        have := hd.retryConfig.attempts_pos
        omega
      refine (attemptFrom_tells hattempt _ prov cand _ 1 v₄ h₄).bind ?_ ?_
      · rintro h₅ ⟨result,n⟩ v₅ ⟨errs,hlen,ht₅,hn⟩
        refine (breakerReport_quietly hd cand _).before (ht₄.trans ht₅) fun _ h₆ v₆ ht₆ => ?_
        have hn' := hn result n rfl
        exact ⟨errs,by omega,by omega,ht₆⟩
      · rintro h₅ p v₅ ⟨errs,hlen,ht₅,-⟩
        exact ⟨errs,by omega,ht₄.trans ht₅⟩

end Round

/-! The walk. -/

/-- The rounds of a walk: from `spent` calls and these failures on over the rest of
the chain it makes the calls and ends with the result. -/
inductive Walked {α : Type} (cfg : Resilience.Config) :
    Nat → List ChainFailure → List Candidate → List ProviderCall →
      Except String (Except (List ChainFailure) (α × Candidate)) → Prop where
  | ended {spent : Nat} {failures : List ChainFailure} {rest : List Candidate}
      (hend : failures = [] → rest = []) : Walked cfg spent failures rest [] (.ok (.error failures))
  | skipped {spent : Nat} {failures : List ChainFailure} {c : Candidate} {rest : List Candidate}
      {calls : List ProviderCall} {r : Except String (Except (List ChainFailure) (α × Candidate))}
      (e : Failure) : Walked cfg spent (failures ++ [⟨c,0,e⟩]) rest calls r →
      Walked cfg spent failures (c :: rest) calls r
  | served {spent : Nat} {failures : List ChainFailure} {c : Candidate} {rest : List Candidate}
      {errs : List Fault} (a : α)
      (hcap : errs.length+1 ≤ min cfg.maxAttempts (cfg.maxTotalAttempts-spent)) :
      Walked cfg spent failures (c :: rest) (failedCalls c errs ++ [⟨c,some none⟩])
        (.ok (.ok (a,c)))
  | fellBack {spent : Nat} {failures : List ChainFailure} {c : Candidate} {rest : List Candidate}
      {errs : List Fault} {f : Fault} {calls : List ProviderCall}
      {r : Except String (Except (List ChainFailure) (α × Candidate))}
      (hcap : errs.length+1 ≤ min cfg.maxAttempts (cfg.maxTotalAttempts-spent))
      (hf : shouldFallback f = true) :
      Walked cfg (spent+(errs.length+1)) (failures ++ [⟨c,errs.length+1,.fault f⟩]) rest calls r →
      Walked cfg spent failures (c :: rest) (failedCalls c (errs ++ [f]) ++ calls) r
  | stopped {spent : Nat} {failures : List ChainFailure} {c : Candidate} {rest : List Candidate}
      {errs : List Fault} {f : Fault}
      (hcap : errs.length+1 ≤ min cfg.maxAttempts (cfg.maxTotalAttempts-spent))
      (hf : shouldFallback f = false) :
      Walked cfg spent failures (c :: rest) (failedCalls c (errs ++ [f]))
        (.ok (.error (failures ++ [⟨c,errs.length+1,.fault f⟩])))
  | panicked {spent : Nat} {failures : List ChainFailure} {c : Candidate} {rest : List Candidate}
      {errs : List Fault} (p : String)
      (hcap : errs.length+1 ≤ min cfg.maxAttempts (cfg.maxTotalAttempts-spent)) :
      Walked cfg spent failures (c :: rest) (failedCalls c errs ++ [⟨c,none⟩]) (.error p)

theorem failedCalls_snoc (c : Candidate) (errs : List Fault) (f : Fault) :
    failedCalls c errs ++ [⟨c,some (some f)⟩] = failedCalls c (errs ++ [f]) := by
  simp [failedCalls]

theorem runChain_walked {α : Type} {attempt : Adapter → Candidate → Action (Except Fault α)}
    (hattempt : Observed attempt) (hd : Handler) (cb : ChainBudget) (chain : List Candidate)
    (first : Bool) (spent : Nat) (failures : List ChainFailure)
    (hfirst : first = false → failures ≠ []) (hstart : first = true → spent = 0) (v : Vars)
    (h : History) :
    Spec (fun _ _ => True) (hd.runChain cb attempt first spent failures chain)
      (fun h' r _ => ∃ calls,Tells h h' calls ∧
        Walked hd.retryConfig spent failures chain calls r) v h := by
  induction chain generalizing first spent failures v h with
  | nil => exact ⟨[],tells_nil h,.ended fun _ => rfl⟩
  | cons cand rest ih =>
    unfold Handler.runChain
    simp only []
    split
    next hspent =>
      refine ⟨[],tells_nil h,.ended fun hnil => absurd hspent ?_⟩
      have hpos := hd.retryConfig.attempts_pos
      have hle := hd.retryConfig.attempts_le
      cases first with
      | true =>
        have := hstart rfl
        omega
      | false => exact absurd hnil (hfirst rfl)
    next hspent =>
      refine (requestOver_tells first v h).bind ?_ ?_
      · rintro h₁ ended v₁ ⟨ht₁,_,⟨⟩,hended⟩
        split
        next hover => exact ⟨[],ht₁,.ended fun hnil => absurd hnil (hfirst (hended hover))⟩
        have hleft : (if first then none else some failures) ≠ some [] := by
          cases first with
          | true => simp
          | false => simpa using hfirst rfl
        have hsnoc : ∀ f : ChainFailure,false = false → failures ++ [f] ≠ [] := by simp
        refine (tryCandidate_tells hattempt hd cb (Nat.pos_of_ne_zero hspent) hleft cand v₁ h₁).bind
          (fun h₂ tried v₂ htold => ?_) fun h₂ p v₂ htold => ?_
        · match tried,htold with
          | .skipped e,htold =>
            refine (ih false spent _ (hsnoc _) (by simp) v₂ h₂).mono ?_
            rintro h₃ r v₃ ⟨calls,ht₃,hwalk⟩
            exact ⟨calls,by simpa using (ht₁.trans htold).trans ht₃,.skipped e hwalk⟩
          | .called (.ok a) n,⟨errs,hn,hcap,htold⟩ =>
            exact ⟨_,ht₁.trans htold,.served a (by omega)⟩
          | .called (.error f) n,⟨errs,hn,hcap,htold⟩ =>
            subst hn
            have htold' : Tells h h₂ (failedCalls cand (errs ++ [f])) := by
              rw [← failedCalls_snoc]
              exact ht₁.trans htold
            simp only []
            split
            next hf =>
              refine (ih false _ _ (hsnoc _) (by simp) v₂ h₂).mono ?_
              rintro h₃ r v₃ ⟨calls,ht₃,hwalk⟩
              exact ⟨_,htold'.trans ht₃,.fellBack hcap hf hwalk⟩
            next hf => exact ⟨_,htold',.stopped hcap (by simpa using hf)⟩
        · obtain ⟨errs,hcap,htold⟩ := htold
          exact ⟨_,ht₁.trans htold,.panicked p hcap⟩
      · rintro h₁ p v₁ ⟨-,_,⟨⟩,-⟩

/-! What a walk's calls and result have in common. -/

def totalAttempts (failures : List ChainFailure) : Nat := (failures.map (·.attempts)).sum

section Walked
variable {α : Type} {cfg : Resilience.Config} {spent : Nat} {failures : List ChainFailure}
  {chain : List Candidate} {calls : List ProviderCall}
  {r : Except String (Except (List ChainFailure) (α × Candidate))}

@[simp] theorem failedCalls_length (c : Candidate) (errs : List Fault) :
    (failedCalls c errs).length = errs.length := List.length_map _

@[simp] theorem failedCalls_candidates (c : Candidate) (errs : List Fault) :
    (failedCalls c errs).map (·.candidate) = List.replicate errs.length c := by
  simp [failedCalls,Function.comp_def]

theorem Walked.total (h : Walked cfg spent failures chain calls r)
    (hspent : spent ≤ cfg.maxTotalAttempts) : spent+calls.length ≤ cfg.maxTotalAttempts := by
  induction h with
  | ended _ => simpa using hspent
  | skipped e _ ih => exact ih hspent
  | served a hcap =>
    simp only [List.length_append,failedCalls_length,List.length_singleton]
    omega
  | fellBack hcap _ _ ih =>
    have hrest := ih (by omega)
    simp only [List.length_append,failedCalls_length,List.length_singleton]
    omega
  | stopped hcap _ =>
    simp only [List.length_append,failedCalls_length,List.length_singleton]
    omega
  | panicked p hcap =>
    simp only [List.length_append,failedCalls_length,List.length_singleton]
    omega

inductive Blocks (limit : Nat) : List Candidate → List Candidate → Prop where
  | nil (rest : List Candidate) : Blocks limit rest []
  | cons {c : Candidate} {rest called : List Candidate} (n : Nat) (hn : n ≤ limit) :
      Blocks limit rest called → Blocks limit (c :: rest) (List.replicate n c ++ called)

variable {c : Candidate}

theorem blocks_single {limit : Nat} {rest : List Candidate} {block : List ProviderCall}
    (hc : ∀ x ∈ block,x.candidate = c) (hlen : block.length ≤ limit) :
    Blocks limit (c :: rest) (block.map (·.candidate)) := by
  have hsame : block.map (·.candidate) = List.replicate block.length c ++ [] := by
    rw [List.append_nil]
    refine List.eq_replicate_iff.2 ⟨List.length_map _,fun d hd => ?_⟩
    obtain ⟨x,hx,rfl⟩ := List.mem_map.1 hd
    exact hc x hx
  rw [hsame]
  exact .cons _ hlen (.nil rest)

variable {x : ProviderCall}

theorem failedCalls_candidate {errs : List Fault}
    (hx : x ∈ failedCalls c errs) : x.candidate = c := by
  obtain ⟨f,-,rfl⟩ := List.mem_map.1 hx
  rfl

theorem round_candidate {errs : List Fault} {outcome : Option (Option Fault)}
    (hx : x ∈ failedCalls c errs ++ [⟨c,outcome⟩]) : x.candidate = c := by
  obtain hx | hx := List.mem_append.1 hx
  · exact failedCalls_candidate hx
  · rw [List.mem_singleton.1 hx]

theorem Walked.blocks (h : Walked cfg spent failures chain calls r) :
    Blocks cfg.maxAttempts chain (calls.map (·.candidate)) := by
  induction h with
  | ended _ => exact .nil _
  | skipped e _ ih => exact .cons 0 (Nat.zero_le _) ih
  | served a hcap => exact blocks_single (fun _ => round_candidate) (by simp; omega)
  | fellBack hcap _ _ ih =>
    rw [List.map_append,failedCalls_candidates]
    exact .cons _ (by simp; omega) ih
  | stopped hcap _ => exact blocks_single (fun _ => failedCalls_candidate) (by simp; omega)
  | panicked p hcap => exact blocks_single (fun _ => round_candidate) (by simp; omega)

theorem Blocks.mem {limit : Nat} {chain called : List Candidate} (h : Blocks limit chain called)
    {c : Candidate} (hc : c ∈ called) : c ∈ chain := by
  induction h with
  | nil _ => simp at hc
  | cons n _ _ ih =>
    obtain hc | hc := List.mem_append.1 hc
    · rw [List.eq_of_mem_replicate hc]
      exact List.mem_cons_self
    · exact List.mem_cons_of_mem _ (ih hc)

theorem Blocks.counts {limit : Nat} {chain called : List Candidate} (h : Blocks limit chain called)
    (hnd : chain.Nodup) :
    called = chain.flatMap (fun c => List.replicate (called.count c) c) ∧
      ∀ c,called.count c ≤ limit := by
  induction h with
  | nil rest => simp
  | @cons c rest called n hn hrest ih =>
    obtain ⟨hc,hnd⟩ := List.nodup_cons.1 hnd
    obtain ⟨hflat,hlimit⟩ := ih hnd
    have hzero : called.count c = 0 := List.count_eq_zero.2 fun hm => hc (hrest.mem hm)
    have hhead : (List.replicate n c ++ called).count c = n := by simp [hzero]
    have htail : ∀ d,d ≠ c → (List.replicate n c ++ called).count d = called.count d := by
      intro d hd
      simp [List.count_replicate,hd.symm]
    constructor
    · rw [List.flatMap_cons,hhead]
      refine congrArg _ (hflat.trans (List.flatMap_congr fun d hd => ?_))
      rw [htail d fun heq => hc (heq ▸ hd)]
    · intro d
      by_cases hd : d = c
      · rw [hd,hhead]
        exact hn
      · rw [htail d hd]
        exact hlimit d

theorem block_last {block a b : List ProviderCall} (hc : ∀ y ∈ block,y.candidate = c)
    (hsplit : block = a ++ x :: b) (hlast : ∀ y ∈ b,y.candidate ≠ x.candidate) : b = [] := by
  have hx : x.candidate = c := hc x (by simp [hsplit])
  refine List.eq_nil_iff_forall_not_mem.2 fun y hy => hlast y hy ?_
  rw [hx,hc y (by simp [hsplit,hy])]

theorem Walked.stops (h : Walked cfg spent failures chain calls r) {a b : List ProviderCall}
    {x : ProviderCall} {f : Fault} (hsplit : calls = a ++ x :: b) (hx : x.outcome = some (some f))
    (hf : shouldFallback f = false) (hlast : ∀ y ∈ b,y.candidate ≠ x.candidate) : b = [] := by
  induction h generalizing a with
  | ended _ => simp at hsplit
  | skipped e _ ih => exact ih hsplit
  | served _ _ => exact block_last (fun _ => round_candidate) hsplit hlast
  | stopped _ _ => exact block_last (fun _ => failedCalls_candidate) hsplit hlast
  | panicked _ _ => exact block_last (fun _ => round_candidate) hsplit hlast
  | @fellBack _ _ c _ errs g calls _ _ hg _ ih =>
    obtain ⟨a',ha,hrest⟩ | ⟨b',hblock,hb⟩ := List.append_eq_append_iff.1 hsplit
    · exact ih hrest
    · cases b' with
      | nil => exact ih (a := []) hb.symm
      | cons y b' =>
        obtain ⟨rfl,rfl⟩ := List.cons.inj hb
        -- x is in this round; as the candidate's last call it is the one that fell back
        have hnil : b' = [] := block_last (fun _ => failedCalls_candidate) hblock
          fun y hy => hlast y (List.mem_append_left _ hy)
        rw [hnil,← failedCalls_snoc] at hblock
        obtain ⟨-,hxg⟩ := List.append_inj' hblock rfl
        rw [← List.singleton_inj.1 hxg] at hx
        rw [← Option.some.inj (Option.some.inj hx),hg] at hf
        cases hf

theorem Walked.served_last (h : Walked cfg spent failures chain calls r) {a : α} {c : Candidate}
    (hr : r = .ok (.ok (a,c))) : ∃ l,calls = l ++ [⟨c,some none⟩] := by
  induction h with
  | ended _ => cases hr
  | skipped e _ ih => exact ih hr
  | served _ _ =>
    cases hr
    exact ⟨_,rfl⟩
  | fellBack _ _ _ ih =>
    obtain ⟨l,rfl⟩ := ih hr
    exact ⟨_,(List.append_assoc _ _ _).symm⟩
  | stopped _ _ => cases hr
  | panicked _ _ => cases hr

theorem Walked.panicked_last (h : Walked cfg spent failures chain calls r) {p : String}
    (hr : r = .error p) : ∃ l c,calls = l ++ [⟨c,none⟩] := by
  induction h with
  | ended _ => cases hr
  | skipped e _ ih => exact ih hr
  | served _ _ => cases hr
  | fellBack _ _ _ ih =>
    obtain ⟨l,c,rfl⟩ := ih hr
    exact ⟨_,c,(List.append_assoc _ _ _).symm⟩
  | stopped _ _ => cases hr
  | panicked _ _ => exact ⟨_,_,rfl⟩

theorem failedCalls_outcome {errs : List Fault}
    (hx : x ∈ failedCalls c errs) : x.outcome ≠ some none := by
  obtain ⟨f,-,rfl⟩ := List.mem_map.1 hx
  simp

theorem Walked.failed_calls (h : Walked cfg spent failures chain calls r) {fs : List ChainFailure}
    (hr : r = .ok (.error fs)) : ∀ x ∈ calls,x.outcome ≠ some none := by
  induction h with
  | ended _ => simp
  | skipped e _ ih => exact ih hr
  | served _ _ => cases hr
  | fellBack _ _ _ ih =>
    intro x hx
    obtain hx | hx := List.mem_append.1 hx
    · exact failedCalls_outcome hx
    · exact ih hr x hx
  | stopped _ _ => exact fun x => failedCalls_outcome
  | panicked _ _ => cases hr

theorem Walked.failed_prefix (h : Walked cfg spent failures chain calls r) {fs : List ChainFailure}
    (hr : r = .ok (.error fs)) :
    ∃ more,fs = failures ++ more ∧ more.map (·.candidate) <+: chain ∧
      totalAttempts more = calls.length ∧ (fs = [] → chain = []) := by
  induction h with
  | ended hend =>
    cases hr
    exact ⟨[],by simp,List.nil_prefix,rfl,hend⟩
  | skipped e _ ih =>
    obtain ⟨more,rfl,hpre,hsum,-⟩ := ih hr
    refine ⟨_ :: more,List.append_assoc _ _ _,by simpa using hpre,?_,by simp⟩
    simpa [totalAttempts] using hsum
  | served _ _ => cases hr
  | fellBack _ _ _ ih =>
    obtain ⟨more,rfl,hpre,hsum,-⟩ := ih hr
    refine ⟨_ :: more,List.append_assoc _ _ _,by simpa using hpre,?_,by simp⟩
    simp only [totalAttempts,List.map_cons,List.sum_cons,List.length_append,failedCalls_length,
      List.length_singleton] at hsum ⊢
    omega
  | stopped _ _ =>
    cases hr
    exact ⟨[_],rfl,by simp,by simp [totalAttempts],by simp⟩
  | panicked _ _ => cases hr

end Walked

/-- How the calls of a walk and its result belong together. -/
structure WalkSpec {α : Type} (cfg : Resilience.Config) (chain : List Candidate)
    (calls : List ProviderCall) (r : Except String (Except (List ChainFailure) (α × Candidate))) :
    Prop where
  /-- At most so many calls in all, and on one candidate. -/
  total : calls.length ≤ cfg.maxTotalAttempts
  each : ∀ c,(calls.map (·.candidate)).count c ≤ cfg.maxAttempts
  /-- The calls are those of each candidate in turn, along the chain. -/
  order : calls.map (·.candidate) =
    chain.flatMap fun c => List.replicate ((calls.map (·.candidate)).count c) c
  stops : ∀ a x b f,calls = a ++ x :: b → x.outcome = some (some f) → shouldFallback f = false →
    (∀ y ∈ b,y.candidate ≠ x.candidate) → b = []
  /-- It succeeds exactly when its last call did, and names that candidate. -/
  succeeds : (∃ a c,r = .ok (.ok (a,c))) ↔ ∃ l c,calls = l ++ [⟨c,some none⟩]
  served : ∀ a c,r = .ok (.ok (a,c)) → ∃ l,calls = l ++ [⟨c,some none⟩]
  failed : ∀ failures,r = .ok (.error failures) →
    failures ≠ [] ∧ failures.map (·.candidate) <+: chain ∧ totalAttempts failures = calls.length ∧
      failures.getLast?.map (·.err) = some (lastChainError failures)
  /-- Only a provider call panics; no index is out of range. -/
  panics : ∀ p,r = .error p → ∃ l c,calls = l ++ [⟨c,none⟩]

theorem lastChainError_of_ne_nil {failures : List ChainFailure} (h : failures ≠ []) :
    failures.getLast?.map (·.err) = some (lastChainError failures) := by
  rw [lastChainError,List.getLast?_eq_getLast_of_ne_nil h]
  rfl

theorem Walked.spec {α : Type} {cfg : Resilience.Config} {chain : List Candidate}
    {calls : List ProviderCall} {r : Except String (Except (List ChainFailure) (α × Candidate))}
    (h : Walked cfg 0 [] chain calls r) (hne : chain ≠ []) (hnd : chain.Nodup) :
    WalkSpec cfg chain calls r where
  total := by simpa using h.total (Nat.zero_le _)
  each := (h.blocks.counts hnd).2
  order := (h.blocks.counts hnd).1
  stops _ _ _ _ hsplit hx hf hlast := h.stops hsplit hx hf hlast
  succeeds := by
    refine ⟨fun ⟨a,c,hr⟩ => ?_,fun ⟨l,c,hl⟩ => ?_⟩
    · obtain ⟨l,hl⟩ := h.served_last hr
      exact ⟨l,c,hl⟩
    · match r,h with
      | .ok (.ok (a,d)),_ => exact ⟨a,d,rfl⟩
      | .ok (.error fs),h => exact absurd rfl (h.failed_calls rfl ⟨c,some none⟩ (by simp [hl]))
      | .error p,h =>
        obtain ⟨l',d,hl'⟩ := h.panicked_last rfl
        have hsame := (List.append_inj' (hl.symm.trans hl') rfl).2
        simp at hsame
  served _ _ hr := h.served_last hr
  failed := by
    intro failures hr
    obtain ⟨more,hmore,hpre,hsum,hnil⟩ := h.failed_prefix hr
    obtain rfl : failures = more := by simpa using hmore
    have hfs : failures ≠ [] := fun h => hne (hnil h)
    exact ⟨hfs,hpre,hsum,lastChainError_of_ne_nil hfs⟩
  panics _ hr := h.panicked_last hr

theorem runChain_spec {α : Type} {attempt : Adapter → Candidate → Action (Except Fault α)}
    (hattempt : Observed attempt) {hd : Handler} {cb : ChainBudget} {chain : List Candidate}
    (hne : chain ≠ []) (hnd : chain.Nodup) {v v' : Vars} {tr : History}
    {r : Except String (Except (List ChainFailure) (α × Candidate))}
    (hrun : (hd.runChain cb attempt true 0 [] chain v).Returns tr (r,v')) :
    WalkSpec hd.retryConfig chain (providerCalls tr) r := by
  obtain ⟨calls,ht,hwalk⟩ := Prog.Spec.returns
    (runChain_walked hattempt hd cb chain true 0 [] (by simp) (fun _ => rfl) v []) hrun
  rw [List.nil_append] at ht
  rw [ht.calls]
  exact hwalk.spec hne hnd

/-- Every walk over a non-empty chain without duplicates, whatever breakers, budget,
resolver, providers and the request's context answer. -/
theorem walk_follows_chain (hd : Handler) (cb : ChainBudget) (req : Request)
    (chain : List Candidate) (hne : chain ≠ []) (hnd : chain.Nodup) (v : Vars) :
    (∀ tr r v',(hd.runChain cb (completeAttempt req) true 0 [] chain v).Returns tr (r,v') →
      WalkSpec hd.retryConfig chain (providerCalls tr) r) ∧
    (∀ tr r v',(hd.runChain cb (streamAttempt req) true 0 [] chain v).Returns tr (r,v') →
      WalkSpec hd.retryConfig chain (providerCalls tr) r) :=
  ⟨fun _ _ _ hrun => runChain_spec (completeAttempt_observed req) hne hnd hrun,
    fun _ _ _ hrun => runChain_spec (streamAttempt_observed req) hne hnd hrun⟩

def busy : Provider.Error := ⟨.rateLimited,"p1","m1",429,true,0,"",none⟩

/-- p1 is rate limited and p2 opens a stream. -/
theorem walk_follows_fallback :
    ∃ tr s v',(guardedHandler.runChain spentBudget (streamAttempt spentBudget.req.toProviderRequest)
        true 0 [] [⟨"p1","m1"⟩,⟨"p2","m2"⟩] .zero).Returns tr (.ok (.ok (s,⟨"p2","m2"⟩)),v') ∧
      providerCalls tr = [⟨⟨"p1","m1"⟩,some (some (.provider busy))⟩,⟨⟨"p2","m2"⟩,some none⟩] ∧
      (providerCalls tr).length ≤ 2 := by
  let prov : Adapter := ⟨⟨"p2","openai-compatible","","",1,["m2"],1,"m2"⟩,.openAICompatible⟩
  have hrun : (guardedHandler.runChain spentBudget
      (streamAttempt spentBudget.req.toProviderRequest) true 0 [] [⟨"p1","m1"⟩,⟨"p2","m2"⟩]
        .zero).Returns
      [⟨.breakerAllow ⟨"p1","m1"⟩,true⟩,⟨.forModel "m1",.ok prov⟩,⟨.chaos ⟨"p1","m1"⟩,.failed busy⟩,
        ⟨.recordHealth "p1" (some (.provider busy)),()⟩,⟨.breakerReport ⟨"p1","m1"⟩ false,()⟩,
        ⟨.ctxErr,false⟩,⟨.breakerAllow ⟨"p2","m2"⟩,true⟩,⟨.defaultMaxTokensFor "m2",some 100⟩,
        ⟨.cost "m2" spentBudget.req.estimateInputTokens
          (spentBudget.req.estimateOutputCeiling 100),.ok 5⟩,
        ⟨.forModel "m2",.ok prov⟩,⟨.chaos ⟨"p2","m2"⟩,.nothing⟩,
        ⟨.stream prov { spentBudget.req.toProviderRequest with model := "m2" },.opened ⟨[],.eof⟩⟩,
        ⟨.breakerReport ⟨"p2","m2"⟩ true,()⟩]
      (.ok (.ok (⟨[],.eof⟩,⟨"p2","m2"⟩)),.zero) :=
    .next (.next (.next (.next (.next (.next (.next (.next (.next (.next (.next (.next (.next
      (.start _)))))))))))))
  exact ⟨_,_,_,hrun,rfl,((walk_follows_chain guardedHandler spentBudget _ _ (by decide) (by decide)
    .zero).2 _ _ _ hrun).total⟩

end Switchyard.Proxy
