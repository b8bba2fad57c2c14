import Switchyard.CallLogic
import Switchyard.MachineInt
import Switchyard.ProviderTypes
set_option autoImplicit false

/-!
Which candidates a request may use, in which order, and the retries within one
candidate (internal/resilience). The health status, the random number and the
sleep are calls of whoever uses these functions.
-/

namespace Switchyard.Resilience
open CallTree Act

variable {Op : Type} {Ans : Op → Type} {σ α : Type}

structure Candidate where
  provider : String
  model : String
  deriving DecidableEq, Repr

inductive Status where
  | healthy
  | degraded
  | down
  deriving DecidableEq, Repr

inductive BreakerState where
  | closed
  | «open»
  | halfOpen
  deriving DecidableEq, Repr

/-- `BuildChain`'s `add`: an incomplete candidate or one already there is left
out. -/
def addCandidate (ordered : List Candidate) (c : Candidate) : List Candidate :=
  if c.provider = "" ∨ c.model = "" then ordered
  else if c ∈ ordered then ordered
  else ordered ++ [c]

def orderedCandidates (requested : Candidate) (tier : List Candidate) : List Candidate :=
  tier.foldl addCandidate (addCandidate [] requested)

def permittedCandidates (requested : Candidate) (tier : List Candidate)
    (allowed : String → String → Bool) : List Candidate :=
  (orderedCandidates requested tier).filter fun c => allowed c.provider c.model

/-- One pass over the permitted candidates; each is asked for its status anew. -/
def inBand (statusOf : String → Prog Op Ans Status) (band : Status) :
    List Candidate → Prog Op Ans (List Candidate)
  | [] => pure []
  | c :: cs => do
    let status ← statusOf c.provider
    let rest ← inBand statusOf band cs
    pure (if status = band then c :: rest else rest)

def buildChain (requested : Candidate) (tier : List Candidate)
    (statusOf : String → Prog Op Ans Status) (allowed : String → String → Bool) :
    Prog Op Ans (List Candidate) :=
  let permitted := permittedCandidates requested tier allowed
  if permitted = [] then pure []
  else do
    let healthy ← inBand statusOf .healthy permitted
    let degraded ← inBand statusOf .degraded permitted
    let chain := healthy ++ degraded
    pure (if chain = [] then permitted else chain)

/-- An error of a provider call. Only a `provider.Error` is classified. -/
inductive Fault where
  | provider (e : Provider.Error)
  | other (text : String)
  deriving DecidableEq, Repr

def Fault.text : Fault → String
  | .provider e => e.text
  | .other text => text

def asProviderError : Fault → Option Provider.Error
  | .provider e => some e
  | .other _ => none

def shouldFallback (err : Fault) : Bool :=
  match asProviderError err with
  | none => true
  | some e => e.kind ≠ .invalidRequest ∧ e.kind ≠ .contentPolicy

/-- A `Config` that `NewConfig` returned. -/
structure Config where
  maxAttempts : Nat
  baseDelay : Int
  maxTotalAttempts : Nat
  attempts_pos : 0 < maxAttempts
  delay_pos : 0 < baseDelay
  attempts_le : maxAttempts ≤ maxTotalAttempts

abbrev Config.of {maxAttempts : Nat} {baseDelay : Int} {maxTotalAttempts : Nat}
    (h : 0 < maxAttempts ∧ 0 < baseDelay ∧ maxAttempts ≤ maxTotalAttempts) : Config :=
  ⟨maxAttempts,baseDelay,maxTotalAttempts,h.1,h.2.1,h.2.2⟩

def newConfig (maxAttempts baseDelay maxTotalAttempts : Int) (printDuration : Int → String) :
    Except String Config :=
  if h₁ : maxAttempts < 1 then
    .error s!"resilience: max attempts must be at least 1, got {maxAttempts}"
  else if h₂ : baseDelay ≤ 0 then
    .error s!"resilience: base delay must be positive, got {printDuration baseDelay}"
  else if h₃ : maxTotalAttempts < maxAttempts then
    .error (s!"resilience: max total attempts ({maxTotalAttempts}) must be at least " ++
      s!"max attempts ({maxAttempts})")
  else
    .ok ⟨maxAttempts.toNat,baseDelay,maxTotalAttempts.toNat,by omega,by omega,by omega⟩

def maxBackoffExponent : Nat := 20

/-- `base << exponent` on int64; it may overflow. -/
def jitterBound (base : Int) (exponent : Nat) : Int :=
  MachineInt.wrap (base <<< min exponent maxBackoffExponent)

/-- What `Do` needs from its surroundings: `rand.Int64N`, and the wait that the
end of the request cuts short (false). -/
structure Pauses (Op : Type) (Ans : Op → Type) (σ : Type) where
  int64N : Int → Act Op Ans σ Int
  wait : Int → Act Op Ans σ Bool

def fullJitter (env : Pauses Op Ans σ) (base : Int) (exponent : Nat) : Act Op Ans σ Int :=
  if jitterBound base exponent ≤ 0 then pure base else env.int64N (jitterBound base exponent)

def backoffDelay (env : Pauses Op Ans σ) (base : Int) (n : Nat) (err : Provider.Error) :
    Act Op Ans σ Int :=
  if 0 < err.retryAfter then pure err.retryAfter else fullJitter env base (n-1)

/-- `Do` from attempt n on, with `left` more attempts allowed after it. The
result comes with the number of attempts made. -/
def attemptFrom (env : Pauses Op Ans σ) (base : Int)
    (attempt : Nat → Act Op Ans σ (Except Fault α)) :
    (left n : Nat) → Act Op Ans σ (Except Fault α × Nat)
  | 0,n => do pure (← attempt n,n)
  | left+1,n => do
    match ← attempt n with
    | .ok a => pure (.ok a,n)
    | .error err =>
      match asProviderError err with
      | none => pure (.error err,n)
      | some e =>
        if !e.retryable then pure (.error err,n)
        else
          let delay ← backoffDelay env base n e
          if ← env.wait delay then attemptFrom env base attempt left (n+1)
          else pure (.error err,n)

/-- `Do`, for a cap of at least one attempt. -/
def retry (env : Pauses Op Ans σ) (base : Int) (cap : Nat)
    (attempt : Nat → Act Op Ans σ (Except Fault α)) : Act Op Ans σ (Except Fault α × Nat) :=
  attemptFrom env base attempt (cap-1) 1

theorem mem_addCandidate {ordered : List Candidate} {c d : Candidate}
    (h : d ∈ addCandidate ordered c) : d ∈ ordered ∨ d = c := by
  unfold addCandidate at h
  split at h
  · exact .inl h
  split at h
  · exact .inl h
  · simpa using h

theorem mem_orderedCandidates {requested d : Candidate} {tier : List Candidate}
    (h : d ∈ orderedCandidates requested tier) : d = requested ∨ d ∈ tier := by
  have scan : ∀ (tier ordered : List Candidate),
      d ∈ tier.foldl addCandidate ordered → d ∈ ordered ∨ d ∈ tier := by
    intro tier
    induction tier with
    | nil => intro ordered h; exact .inl h
    | cons c tier ih =>
      intro ordered h
      obtain h | h := ih _ h
      · obtain h | rfl := mem_addCandidate h
        · exact .inl h
        · exact .inr (by simp)
      · exact .inr (by simp [h])
  obtain h | h := scan tier _ h
  · obtain h | h := mem_addCandidate h
    · simp at h
    · exact .inl h
  · exact .inr h

variable {tr : List (Event Op Ans)} {statusOf : String → Prog Op Ans Status}

theorem inBand_returns {band : Status} {cs chain : List Candidate}
    (h : (inBand statusOf band cs).Returns tr chain) : chain.Sublist cs := by
  induction cs generalizing tr chain with
  | nil => simp [inBand] at h; simp [h.2]
  | cons c cs ih =>
    obtain ⟨_,status,_,rfl,-,h⟩ := returns_bind.1 h
    obtain ⟨_,rest,_,rfl,hrest,h⟩ := returns_bind.1 h
    obtain ⟨rfl,rfl⟩ := returns_pure.1 h
    split
    · exact (ih hrest).cons_cons c
    · exact (ih hrest).cons c

theorem inBand_calls {P : Op → Prop}
    (hs : ∀ p,(statusOf p).Calls P) (band : Status) (cs : List Candidate) :
    (inBand statusOf band cs).Calls P := by
  induction cs with
  | nil => trivial
  | cons c cs ih => exact calls_bind (hs _) fun _ => calls_bind ih fun _ => calls_pure _

/-- Whatever the statuses, a chain holds permitted candidates only, and is empty
only if there are none. -/
theorem buildChain_permitted {requested : Candidate} {tier chain : List Candidate}
    {allowed : String → String → Bool}
    (h : (buildChain requested tier statusOf allowed).Returns tr chain) :
    chain ⊆ permittedCandidates requested tier allowed ∧
      (chain = [] → permittedCandidates requested tier allowed = []) := by
  unfold buildChain at h
  simp only [] at h
  split at h
  · rename_i hnone
    obtain ⟨-,rfl⟩ := returns_pure.1 h
    exact ⟨List.nil_subset _,fun _ => hnone⟩
  · obtain ⟨_,healthy,_,rfl,h₁,h⟩ := returns_bind.1 h
    obtain ⟨_,degraded,_,rfl,h₂,h⟩ := returns_bind.1 h
    obtain ⟨-,rfl⟩ := returns_pure.1 h
    split
    · exact ⟨List.Subset.refl _,id⟩
    · rename_i hsome
      exact ⟨List.append_subset.2 ⟨(inBand_returns h₁).subset,(inBand_returns h₂).subset⟩,
        fun hnil => absurd hnil hsome⟩

theorem buildChain_returns {requested c : Candidate} {tier chain : List Candidate}
    {allowed : String → String → Bool}
    (h : (buildChain requested tier statusOf allowed).Returns tr chain) (hc : c ∈ chain) :
    (c = requested ∨ c ∈ tier) ∧ allowed c.provider c.model = true := by
  obtain ⟨hm,ha⟩ := List.mem_filter.1 ((buildChain_permitted h).1 hc)
  exact ⟨mem_orderedCandidates hm,ha⟩

theorem buildChain_calls {P : Op → Prop} (hs : ∀ p,(statusOf p).Calls P) (requested : Candidate)
    (tier : List Candidate) (allowed : String → String → Bool) :
    (buildChain requested tier statusOf allowed).Calls P := by
  unfold buildChain
  simp only []
  split
  · trivial
  · exact calls_bind (inBand_calls hs _ _) fun _ => calls_bind (inBand_calls hs _ _) fun _ =>
      calls_pure _

theorem backoffDelay_honours {C : Contract Op Ans σ} {env : Pauses Op Ans σ}
    (hrand : ∀ n,Honours C (env.int64N n)) (base : Int) (n : Nat) (err : Provider.Error) :
    Honours C (backoffDelay env base n err) := by
  unfold backoffDelay fullJitter
  split
  · exact honours_pure _
  split
  · exact honours_pure _
  · exact hrand _

/-- Outcomes that are never retried end the loop as they end an attempt. -/
theorem retry_until {γ : Type} {C : Contract Op Ans σ} {E : Ending C γ} (env : Pauses Op Ans σ)
    {attempt : Nat → Act Op Ans σ (Except Fault α)} {out : Except Fault α → Option γ}
    (hlast : ∀ err c,out (.error err) = some c → ∃ e,asProviderError err = some e ∧ !e.retryable)
    (hrand : ∀ n,Honours C (env.int64N n)) (hwait : ∀ d,Honours C (env.wait d))
    (hattempt : ∀ n,Until E out (attempt n)) (base : Int) (cap : Nat) :
    Until E (fun r => out r.1) (retry env base cap attempt) := by
  unfold retry
  generalize cap-1 = left
  generalize 1 = n
  induction left generalizing n with
  | zero =>
    exact (hattempt n).bind (fun _ _ _ _ _ _ hr hdone => (Ending.post_some hr).2 hdone)
      fun _ hr => until_pure hr
  | succ left ih =>
    refine (hattempt n).bind (fun r c h s h' s' hr hdone => ?_) fun r hr => ?_
    · cases r with
      | ok a => exact (Ending.post_some hr).2 hdone
      | error err =>
        obtain ⟨e,he,hretry⟩ := hlast err c hr
        simp only [he,hretry,ite_true]
        exact (Ending.post_some hr).2 hdone
    · cases r with
      | ok a => exact until_pure hr
      | error err =>
        simp only []
        split
        · exact until_pure hr
        split
        · exact until_pure hr
        refine (backoffDelay_honours hrand base n _).bind_until fun delay => ?_
        refine (hwait delay).bind_until fun more => ?_
        split
        · exact ih (n+1)
        · exact until_pure hr

end Switchyard.Resilience
