import Switchyard.RequestAccounts
set_option autoImplicit false

/-!
When the two reservations admit a request, compared with the estimates over
unbounded integers. The limiter fails open on an argument it refuses, the budget
tracker fails closed.
-/

namespace Switchyard.Proxy
open Budget MachineInt CallTree Provider Resilience

def ChatRequest.exactTokens (req : ChatRequest) (defaultMaxTokens : Int) : Int :=
  req.exactInputTokens+req.estimateOutputCeiling defaultMaxTokens

theorem validate_maxTokens {req : ChatRequest} {printFloat : UInt32 → String}
    (h : req.validate printFloat = .ok ()) : 0 ≤ req.maxTokens := by
  by_contra hneg
  unfold ChatRequest.validate at h
  simp only [bind,Except.bind,pure,Except.pure] at h
  split at h
  · cases h
  split at h
  · cases h
  split at h
  · cases h
  simp [lt_of_not_ge hneg] at h

section Ceiling

variable {req : ChatRequest} {d : Int} (hmax : 0 ≤ req.maxTokens)
  (hrange : InRange req.maxTokens) (hd : 0 < d) (hdrange : InRange d)
include hmax hrange hd hdrange

theorem estimateOutputCeiling_bounds :
    0 < req.estimateOutputCeiling d ∧ req.estimateOutputCeiling d ≤ 9223372036854775807 := by
  unfold InRange at hrange hdrange
  unfold ChatRequest.estimateOutputCeiling
  split <;> omega

theorem estimateTokens_cases (hbody : req.leastBody ≤ maxRequestBytes) :
    0 < req.exactTokens d ∧
      ((req.exactTokens d < 9223372036854775808 ∧ req.estimateTokens d = req.exactTokens d) ∨
        (9223372036854775808 ≤ req.exactTokens d ∧ req.estimateTokens d < 0)) := by
  have hceiling := estimateOutputCeiling_bounds hmax hrange hd hdrange
  have hle := exactInputTokens_le req hbody
  have hnonneg := exactInputTokens_nonneg req
  unfold ChatRequest.estimateTokens ChatRequest.exactTokens
  rw [estimateInputTokens_eq req hbody]
  refine ⟨by omega,?_⟩
  by_cases hsmall : req.exactInputTokens+req.estimateOutputCeiling d < 9223372036854775808
  · exact .inl ⟨hsmall,add_eq (by unfold InRange; omega)⟩
  · refine .inr ⟨by omega,?_⟩
    unfold add wrap
    omega

end Ceiling

def TokensAnswered (l : RateLimit.Limiter) (bucket : Option RateLimit.Bucket)
    (clock : RateLimit.Clock) (d : Int) : Event Op Ans → Prop
  | ⟨.defaultMaxTokensFor _,ans⟩ => ans = some d
  | ⟨.reserveTokens team cap amount ttl,ans⟩ =>
    ans = (l.reserve bucket clock team .tpm cap amount ttl).1
  | _ => True

def allowedResult (l : RateLimit.Limiter) (bucket : Option RateLimit.Bucket)
    (clock : RateLimit.Clock) (cap amount : Int) : RateLimit.Result :=
  ⟨true,l.arith.print (l.arith.round (l.balance bucket clock cap-l.arith.round amount)),
    l.duration 0⟩

/-- A request is turned away exactly when the limiter accepts its arguments and
finds too little, or finds enough and the request is shed. -/
theorem reserveTokens_refuses_iff {l : RateLimit.Limiter} {bucket : Option RateLimit.Bucket}
    {clock : RateLimit.Clock} {d : Int} {team : Auth.Team} {req : ChatRequest} {tr : History}
    {t : Option (Option RateLimit.Reservation)} (hret : (reserveTokens team req).Returns tr t)
    (hans : ∀ e ∈ tr,TokensAnswered l bucket clock d e) :
    t = none ↔ 0 < team.rateLimits.tpm ∧ 0 < req.estimateTokens d ∧
      (l.balance bucket clock team.rateLimits.tpm < l.arith.round (req.estimateTokens d) ∨
        shouldShedForPriority team team.rateLimits.tpm
          (allowedResult l bucket clock team.rateLimits.tpm (req.estimateTokens d)) = true) := by
  obtain ⟨a,tr₂,rfl,hrest⟩ := returns_perform_bind.1 hret
  obtain rfl : a = some d := hans ⟨.defaultMaxTokensFor req.model,a⟩ (by simp)
  obtain ⟨b,tr₄,rfl,htail⟩ := returns_perform_bind.1 hrest
  have hb : b = (l.reserve bucket clock team.id .tpm team.rateLimits.tpm (req.estimateTokens d)
      bucketTTL).1 :=
    hans ⟨.reserveTokens team.id team.rateLimits.tpm (req.estimateTokens d) bucketTTL,b⟩ (by simp)
  obtain ⟨e,heq,hbad⟩ | ⟨after,heq,hcap,hamount,henough⟩ |
      ⟨res,after,heq,hdenied,hcap,hamount,hshort⟩ :=
    l.reserve_cases bucket clock team.id .tpm team.rateLimits.tpm (req.estimateTokens d) bucketTTL
  · rw [heq] at hb
    subst hb
    obtain ⟨-,rfl⟩ := returns_pure.1 htail
    unfold bucketTTL at hbad
    simp only [reduceCtorEq,false_iff]
    omega
  · rw [heq] at hb
    subst hb
    simp only [Bool.not_true,Bool.false_eq_true,if_false] at htail
    split at htail
    · rename_i hshed
      obtain ⟨_,_,_,_,_,hafter⟩ := returns_bind.1 htail
      obtain ⟨_,_,_,_,_,hpure⟩ := returns_bind.1 hafter
      obtain ⟨-,rfl⟩ := returns_pure.1 hpure
      simp only [true_iff]
      exact ⟨hcap,hamount,.inr hshed⟩
    · rename_i hshed
      obtain ⟨-,rfl⟩ := returns_pure.1 htail
      simp only [reduceCtorEq,false_iff]
      intro hboth
      exact hboth.2.2.elim (fun hlt => absurd henough (not_le.2 hlt)) hshed
  · rw [heq] at hb
    subst hb
    simp only [hdenied,Bool.not_false,if_true] at htail
    obtain ⟨_,_,_,_,_,hpure⟩ := returns_bind.1 htail
    obtain ⟨-,rfl⟩ := returns_pure.1 hpure
    simp only [true_iff]
    exact ⟨hcap,hamount,.inl hshort⟩

/-- The calls of `reserveBudget` as the registry, the price table and the tracker
answer them. -/
def SpendAnswered (calculator : Calculator) (key : Option Counter) (now : Now)
    (d : Int) : Event Op Ans → Prop
  | ⟨.defaultMaxTokensFor _,ans⟩ => ans = some d
  | ⟨.cost m i o,ans⟩ => ans = calculator.cost m i o
  | ⟨.reserveSpend team cap est,ans⟩ => ans = (reserve key team now cap est).1
  | _ => True

theorem reserveBudget_refuses_iff {calculator : Calculator} {key : Option Counter} {now : Now}
    {d : Int} {team : Auth.Team} {req : ChatRequest} {price : Pricing} {tr : History}
    {t : Option (Option Reservation × Int)} (hret : (reserveBudget team req).Returns tr t)
    (hans : ∀ e ∈ tr,SpendAnswered calculator key now d e)
    (hprice : calculator.pricing req.model = some price) (hkey : InRange (spent key)) :
    t = none ↔ team.monthlyBudgetMicros ≤ 0 ∨
      price.cost req.estimateInputTokens (req.estimateOutputCeiling d) < 0 ∨
      ¬InRange (spent key+
        price.cost req.estimateInputTokens (req.estimateOutputCeiling d)) ∨
      Binary64.round team.monthlyBudgetMicros < Binary64.round ((spent key+
        price.cost req.estimateInputTokens (req.estimateOutputCeiling d) : Int) : ℚ) := by
  obtain ⟨a,tr₂,rfl,hrest⟩ := returns_perform_bind.1 hret
  obtain rfl : a = some d := hans ⟨.defaultMaxTokensFor req.model,a⟩ (by simp)
  obtain ⟨quote,tr₄,rfl,hquoted⟩ := returns_perform_bind.1 hrest
  generalize hest : price.cost req.estimateInputTokens (req.estimateOutputCeiling d) = est
  have hbound := price.cost_bound req.estimateInputTokens (req.estimateOutputCeiling d)
  have hquote : quote = .ok est := by
    have hcost : quote = calculator.cost req.model req.estimateInputTokens
        (req.estimateOutputCeiling d) :=
      hans ⟨.cost req.model req.estimateInputTokens (req.estimateOutputCeiling d),quote⟩ (by simp)
    rw [hcost,Calculator.cost,hprice,← hest]
  subst hquote
  obtain ⟨b,tr₆,rfl,htail⟩ := returns_perform_bind.1 hquoted
  have hb : b = (reserve key team.id now team.monthlyBudgetMicros est).1 :=
    hans ⟨.reserveSpend team.id team.monthlyBudgetMicros est,b⟩ (by simp)
  rw [hest] at hbound
  unfold maxCost at hbound
  obtain ⟨e,heq,hbad⟩ | ⟨heq,hcap,hpos,hin,hle⟩ | ⟨heq,hcap,hpos,hlt⟩ :=
    reserve_cases team.id now team.monthlyBudgetMicros (by omega : est < 2^53) hkey
  · rw [heq] at hb
    subst hb
    obtain ⟨_,_,_,_,_,hpure⟩ := returns_bind.1 htail
    obtain ⟨-,rfl⟩ := returns_pure.1 hpure
    simp only [true_iff]
    tauto
  · rw [heq] at hb
    subst hb
    have hsome : ∃ held,t = some held := by
      simp only [Bool.not_true,Bool.false_eq_true,if_false] at htail
      split at htail
      · obtain ⟨_,_,_,_,_,hpure⟩ := returns_bind.1 htail
        exact ⟨_,(returns_pure.1 hpure).2.symm⟩
      · exact ⟨_,(returns_pure.1 htail).2.symm⟩
    obtain ⟨held,rfl⟩ := hsome
    simp only [reduceCtorEq,false_iff,not_or,not_lt,not_not]
    exact ⟨by omega,hpos,hin,hle⟩
  · rw [heq] at hb
    subst hb
    obtain ⟨_,_,_,_,_,hpure⟩ := returns_bind.1 htail
    obtain ⟨-,rfl⟩ := returns_pure.1 hpure
    simp only [true_iff]
    exact .inr (.inr (.inr hlt))

/-- For a request that was decoded from at most 1 MiB and validated, under any
limits, balance and spend. The limiter keeps out what exceeds its balance
exactly when the request does not exceed it, or the capacity is positive, the
estimate fits an int64 and the request is short after rounding or is shed. The
tracker keeps out what exceeds the cap exactly when the request does not exceed
it, or the cap or the wrapped estimate is refused, or the sum with the wrapped
estimate overflows or is above the cap after rounding. -/
theorem admission_iff {printFloat : UInt32 → String} {team : Auth.Team} {req : ChatRequest}
    {d : Int} (hvalid : req.validate printFloat = .ok ()) (hbody : req.leastBody ≤ maxRequestBytes)
    (hrange : InRange req.maxTokens) (hd : 0 < d) (hdrange : InRange d) {l : RateLimit.Limiter}
    {bucket : Option RateLimit.Bucket} {clock : RateLimit.Clock} {tr : History}
    {t : Option (Option RateLimit.Reservation)} (htokens : (reserveTokens team req).Returns tr t)
    (htans : ∀ e ∈ tr,TokensAnswered l bucket clock d e) {calculator : Calculator} {price : Pricing}
    {key : Option Counter} {now : Now} {tr' : History} {b : Option (Option Reservation × Int)}
    (hprice : calculator.pricing req.model = some price) (hkey : InRange (spent key))
    (hspend : (reserveBudget team req).Returns tr' b)
    (hsans : ∀ e ∈ tr',SpendAnswered calculator key now d e) :
    ((l.balance bucket clock team.rateLimits.tpm < req.exactTokens d → t = none) ↔
      (req.exactTokens d ≤ l.balance bucket clock team.rateLimits.tpm ∨
        (0 < team.rateLimits.tpm ∧ req.exactTokens d < 9223372036854775808 ∧
          (l.balance bucket clock team.rateLimits.tpm < l.arith.round (req.exactTokens d) ∨
            shouldShedForPriority team team.rateLimits.tpm
              (allowedResult l bucket clock team.rateLimits.tpm (req.exactTokens d)) = true)))) ∧
    ((team.monthlyBudgetMicros < spent key+
        price.exactCost req.exactInputTokens (req.estimateOutputCeiling d) → b = none) ↔
      (spent key+price.exactCost req.exactInputTokens (req.estimateOutputCeiling d) ≤
          team.monthlyBudgetMicros ∨ team.monthlyBudgetMicros ≤ 0 ∨
        price.cost req.exactInputTokens (req.estimateOutputCeiling d) < 0 ∨
        ¬InRange (spent key+
          price.cost req.exactInputTokens (req.estimateOutputCeiling d)) ∨
        Binary64.round team.monthlyBudgetMicros < Binary64.round ((spent key+
          price.cost req.exactInputTokens (req.estimateOutputCeiling d) : Int) : ℚ))) := by
  have hmax := validate_maxTokens hvalid
  constructor
  · rw [reserveTokens_refuses_iff htokens htans]
    obtain ⟨hpos,⟨hsmall,heq⟩ | ⟨hlarge,hneg⟩⟩ := estimateTokens_cases hmax hrange hd hdrange hbody
    · rw [heq,imp_iff_not_or,not_lt]
      simp only [hsmall,hpos,true_and]
    -- The wrapped estimate is refused as an argument, so the request gets in.
    · rw [imp_iff_not_or,not_lt]
      simp only [not_lt.2 hneg.le,not_lt.2 hlarge,false_and,and_false]
  · rw [reserveBudget_refuses_iff hspend hsans hprice hkey,estimateInputTokens_eq req hbody,
      imp_iff_not_or,not_lt]

def askingFor (maxTokens : Int) : ChatRequest := ⟨"m1",[⟨"user","hi"⟩],none,maxTokens,false,[]⟩

def tokensRun (maxTokens : Int) : History × Option (Option RateLimit.Reservation) × Unit :=
  (reserveTokens memberTeam (askingFor maxTokens)).exec (answering (fallbackWorld id)) ()

def spendRun (maxTokens : Int) : History × Option (Option Reservation × Int) × Unit :=
  (reserveBudget memberTeam (askingFor maxTokens)).exec (answering (fallbackWorld id)) ()

theorem tokensRun_answered (maxTokens : Int) :
    ∀ e ∈ (tokensRun maxTokens).1,TokensAnswered exactLimiter none ⟨0,0⟩ 100 e := by
  intro e he
  obtain ⟨_,heq⟩ := mem_exec he
  rw [heq]
  cases e.op <;> first | rfl | trivial

theorem spendRun_answered (maxTokens : Int) :
    ∀ e ∈ (spendRun maxTokens).1,SpendAnswered twoPrices none ⟨"2026-01",100⟩ 100 e := by
  intro e he
  obtain ⟨_,heq⟩ := mem_exec he
  rw [heq]
  cases e.op <;> first | rfl | trivial

/-- A request above both limits is kept out by both. -/
theorem admission_iff_above :
    ∃ tr t tr' b,(reserveTokens memberTeam (askingFor 2000)).Returns tr t ∧
      (reserveBudget memberTeam (askingFor 2000)).Returns tr' b ∧
      exactLimiter.balance none ⟨0,0⟩ 1000 < (askingFor 2000).exactTokens 100 ∧
      1000 < Pricing.exactCost ⟨1000000,1000000⟩ (askingFor 2000).exactInputTokens 2000 ∧
      t = none ∧ b = none := by
  have htokens := returns_exec (answering (fallbackWorld id))
    (reserveTokens memberTeam (askingFor 2000)) ()
  have hspend := returns_exec (answering (fallbackWorld id))
    (reserveBudget memberTeam (askingFor 2000)) ()
  have hvalid : (askingFor 2000).validate (fun _ => "") = .ok () := by decide +kernel
  have hkey : InRange (spent none) := by decide
  have h := admission_iff hvalid (by decide +kernel) (by decide) (by decide) (by decide) htokens
    (tokensRun_answered 2000) (rfl : twoPrices.pricing "m1" = some ⟨1000000,1000000⟩) hkey hspend
    (spendRun_answered 2000)
  have hbalance : exactLimiter.balance none ⟨0,0⟩ 1000 < (askingFor 2000).exactTokens 100 := by
    decide +kernel
  have hcost : 1000 < spent none+
      Pricing.exactCost ⟨1000000,1000000⟩ (askingFor 2000).exactInputTokens 2000 := by
    decide +kernel
  exact ⟨_,_,_,_,htokens,hspend,hbalance,by decide +kernel,
    h.1.2 (.inr ⟨by decide,by decide +kernel,.inl (by decide +kernel)⟩) hbalance,
    h.2.2 (.inr (.inr (.inr (.inr (by decide +kernel))))) hcost⟩

/-- The largest max_tokens wraps the token estimate below zero, which the limiter
refuses and the handler lets through; 2^58 output tokens at a dollar a million
wrap the product to nothing. -/
theorem wrapped_estimates_admitted :
    ((askingFor 9223372036854775807).validate (fun _ => "") = .ok () ∧
      ∃ tr t,(reserveTokens memberTeam (askingFor 9223372036854775807)).Returns tr t ∧
        (∀ e ∈ tr,TokensAnswered exactLimiter none ⟨0,0⟩ 100 e) ∧
        exactLimiter.balance none ⟨0,0⟩ 1000 < (askingFor 9223372036854775807).exactTokens 100 ∧
        t = some none) ∧
    ((askingFor 288230376151711744).validate (fun _ => "") = .ok () ∧
      ∃ tr b,(reserveBudget memberTeam (askingFor 288230376151711744)).Returns tr b ∧
        (∀ e ∈ tr,SpendAnswered twoPrices none ⟨"2026-01",100⟩ 100 e) ∧
        1000 < Pricing.exactCost ⟨1000000,1000000⟩
          (askingFor 288230376151711744).exactInputTokens 288230376151711744 ∧
        b = some (some ⟨"t","2026-01",5⟩,5)) := by
  refine ⟨⟨by decide +kernel,_,_,returns_exec (answering (fallbackWorld id)) _ (),
    tokensRun_answered 9223372036854775807,by decide +kernel,by decide +kernel⟩,
    ⟨by decide +kernel,_,_,returns_exec (answering (fallbackWorld id)) _ (),
    spendRun_answered 288230376151711744,by decide +kernel,by decide +kernel⟩⟩

end Switchyard.Proxy
