import Switchyard.Settlement
set_option autoImplicit false

/-!
What a request's accounting calls do to Redis: every reservation and settlement
is answered by the tracker and the limiter, whatever state each call finds.
-/

namespace Switchyard.Proxy
open Budget MachineInt CallTree Provider Resilience

/-- The event was answered by the price table, the limiter or the tracker, in
whatever state the call found Redis; d is by how much it moved a month's counter
of the team. -/
def Accounted : Event Op Ans → Int → Prop
  | ⟨.cost m i o,ans⟩,d => d = 0 ∧ ∃ c : Calculator,ans = c.cost m i o
  | ⟨.reserveSpend team cap est,ans⟩,d => ∃ key now after,InRange (spent key) ∧
      reserve key team now cap est = (ans,after) ∧ d = spent after-spent key
  | ⟨.reconcileSpend r actual,ans⟩,d => ∃ key after,InRange (spent key) ∧
      reconcile key r actual = (ans,after) ∧ d = spent after-spent key
  | ⟨.reserveTokens team cap amount ttl,ans⟩,d => d = 0 ∧ ∃ (l : RateLimit.Limiter)
      (bucket : Option RateLimit.Bucket) (clock : RateLimit.Clock),
      ans = (l.reserve bucket clock team .tpm cap amount ttl).1
  | ⟨.reconcileTokens r actual,ans⟩,d => d = 0 ∧ ∃ (l : RateLimit.Limiter)
      (bucket : Option RateLimit.Bucket) (clock : RateLimit.Clock),
      ans = (l.reconcile bucket clock r actual).1
  | _,d => d = 0

def failed : Event Op Ans → Bool
  | ⟨.reserveSpend _ _ _,.error _⟩ | ⟨.reserveTokens _ _ _ _,.error _⟩
  | ⟨.reconcileSpend _ _,.error _⟩ | ⟨.reconcileTokens _ _,.error _⟩ => true
  | _ => false

/-- The tracker returned an error that the call's arguments do not explain. -/
def redisFailed : Event Op Ans → Bool
  | ⟨.reserveSpend _ cap est,.error _⟩ => (reserveArgs cap est).isOk
  | ⟨.reconcileSpend r actual,.error _⟩ => (reconcileDelta r actual).isOk
  | _ => false

/-- The debit a call sends to the TPM bucket; a credit is a negative one. -/
def sentTokens : Event Op Ans → Int
  | ⟨.reserveTokens _ _ amount _,.ok (_,res)⟩ => if res.allowed then amount else 0
  | ⟨.reconcileTokens r actual,_⟩ =>
    match RateLimit.Limiter.reconcileDelta r actual with
    | .ok (some delta) => -delta
    | _ => 0
  | _ => 0

theorem accounted_reserveSpend {team : String} {cap est d : Int}
    {ans : Except String (Option Reservation × Result)}
    (hacc : Accounted ⟨.reserveSpend team cap est,ans⟩ d) (hest : est < 9007199254740992) :
    spendSettled ⟨.reserveSpend team cap est,ans⟩ = true ∧
      spendChange ⟨.reserveSpend team cap est,ans⟩ = d ∧
      ∀ s res,ans = .ok (some s,res) → 0 ≤ s.reserved ∧ s.reserved < 9007199254740992 := by
  obtain ⟨key,now,after,hk,hres,rfl⟩ := hacc
  obtain ⟨e,heq,-⟩ | ⟨heq,-,hpos,-⟩ | ⟨heq,-⟩ := reserve_cases team now cap hest hk
  · rw [heq,Prod.mk.injEq] at hres
    obtain ⟨rfl,rfl⟩ := hres
    simp [spendSettled,spendChange]
  · rw [heq,Prod.mk.injEq] at hres
    obtain ⟨rfl,rfl⟩ := hres
    refine ⟨rfl,by simp [spendChange,heldSpend],fun s res hs => ?_⟩
    simp only [Except.ok.injEq,Prod.mk.injEq,Option.some.injEq] at hs
    exact hs.1 ▸ ⟨hpos,hest⟩
  · rw [heq,Prod.mk.injEq] at hres
    obtain ⟨rfl,rfl⟩ := hres
    simp [spendSettled,spendChange]

theorem accounted_reconcileSpend {r : Option Reservation} {actual d : Int}
    {ans : Except String Unit} (hacc : Accounted ⟨.reconcileSpend r actual,ans⟩ d)
    (hr : ∀ s,r = some s → 0 ≤ s.reserved ∧ s.reserved < 9007199254740992)
    (hle : actual ≤ maxCost) : spendChange ⟨.reconcileSpend r actual,ans⟩ = d := by
  obtain ⟨key,after,hk,hrec,rfl⟩ := hacc
  cases r with
  | none =>
    obtain ⟨rfl,rfl⟩ := Prod.mk.inj hrec
    simp [spendChange]
  | some s =>
    by_cases hneg : actual < 0
    · simp only [reconcile,reconcileDelta,if_pos hneg,Prod.mk.injEq] at hrec
      obtain ⟨rfl,rfl⟩ := hrec
      simp [spendChange]
    unfold maxCost at hle
    have hrange : InRange actual := by unfold InRange; omega
    obtain ⟨heq,hres⟩ | ⟨-,-,hres⟩ | ⟨-,e,hres⟩ :=
      reconcile_cases key (hr s rfl) (not_lt.1 hneg) hrange
    · rw [hres,Prod.mk.injEq] at hrec
      obtain ⟨rfl,rfl⟩ := hrec
      simp [spendChange,heq]
    · rw [hres,Prod.mk.injEq] at hrec
      obtain ⟨rfl,rfl⟩ := hrec
      simp [spendChange]
    · rw [hres,Prod.mk.injEq] at hrec
      obtain ⟨rfl,rfl⟩ := hrec
      simp [spendChange]

theorem accounted_reserveTokens {team : String} {cap amount ttl d : Int}
    {t : Option RateLimit.Reservation} {res : RateLimit.Result}
    (hacc : Accounted ⟨.reserveTokens team cap amount ttl,.ok (t,res)⟩ d) :
    t.isSome = res.allowed ∧ ∀ s,t = some s → 0 < amount ∧ s.reserved = amount := by
  obtain ⟨-,l,bucket,clock,hres⟩ := hacc
  obtain ⟨e,heq,-⟩ | ⟨after,heq,-,hpos,-⟩ | ⟨res',after,heq,hdenied,-⟩ :=
    l.reserve_cases bucket clock team .tpm cap amount ttl
  · simp [heq] at hres
  · rw [heq,Except.ok.injEq,Prod.mk.injEq] at hres
    obtain ⟨rfl,rfl⟩ := hres
    simp [hpos]
  · rw [heq,Except.ok.injEq,Prod.mk.injEq] at hres
    obtain ⟨rfl,rfl⟩ := hres
    simp [hdenied]

theorem accounted_reconcileTokens {s : RateLimit.Reservation} {actual d : Int}
    (hacc : Accounted ⟨.reconcileTokens (some s) actual,.ok ()⟩ d)
    (hs : 0 < s.reserved ∧ InRange s.reserved) (hrange : InRange actual) :
    sentTokens ⟨.reconcileTokens (some s) actual,.ok ()⟩ = actual-s.reserved := by
  obtain ⟨-,l,bucket,clock,hans⟩ := hacc
  rw [l.reconcile_outcome] at hans
  have hpos : 0 ≤ actual := by
    by_contra hneg
    simp [RateLimit.Limiter.reconcileDelta,lt_of_not_ge hneg,Except.map] at hans
  have hsub := sub_nonneg_eq hs.1.le hpos hs.2 hrange
  unfold sentTokens RateLimit.Limiter.reconcileDelta
  simp only [hsub,if_neg (not_lt.2 hpos)]
  split_ifs with hzero
  · simp only []
    omega
  · simp only []
    omega

theorem forall₂_mem {α β : Type} {R : α → β → Prop} {as : List α} {bs : List β}
    (h : List.Forall₂ R as bs) {a : α} (ha : a ∈ as) : ∃ b,R a b := by
  induction h with
  | nil => simp at ha
  | cons hr _ ih =>
    obtain rfl | ha := List.mem_cons.1 ha
    · exact ⟨_,hr⟩
    · exact ih ha

theorem map_eq_of_forall₂ {α β : Type} {R : α → β → Prop} {f : α → β} {as : List α} {bs : List β}
    (h : List.Forall₂ R as bs) (hf : ∀ a ∈ as,∀ b,R a b → f a = b) : as.map f = bs := by
  induction h with
  | nil => rfl
  | cons hr _ ih =>
    rw [List.map_cons,hf _ (by simp) _ hr,ih fun a ha => hf a (by simp [ha])]

section Accounts

variable {tr : History} {ds : List Int} (hsane : ∀ a e b,tr = a ++ e :: b → Sane a e.op)
  (hacc : List.Forall₂ Accounted tr ds)
include hacc

theorem accounted_priced : Priced tr := by
  intro m i o c hc
  obtain ⟨d,-,calculator,hcost⟩ := forall₂_mem hacc hc
  exact Calculator.cost_bound hcost.symm

include hsane

theorem accounted_issuedSpend {a b : History} (htr : tr = a ++ b) {s : Reservation}
    (hs : SpendIssued a s) : 0 ≤ s.reserved ∧ s.reserved < 9007199254740992 := by
  have hpriced := accounted_priced hacc
  subst htr
  obtain ⟨team,cap,est,res,hm⟩ := hs
  obtain ⟨d,hd⟩ := forall₂_mem hacc (List.mem_append_left b hm)
  obtain ⟨a₁,a₂,rfl⟩ := List.append_of_mem hm
  have hest := hsane a₁ _ _ (List.append_assoc a₁ (_ :: a₂) b)
  exact (accounted_reserveSpend hd (hest hpriced.of_append.of_append)).2.2 s res rfl

theorem accounted_issuedTokens {a b : History} (htr : tr = a ++ b) {s : RateLimit.Reservation}
    (hs : TokensIssued a s) : 0 < s.reserved ∧ InRange s.reserved := by
  subst htr
  obtain ⟨team,cap,amount,ttl,res,hm⟩ := hs
  obtain ⟨d,hd⟩ := forall₂_mem hacc (List.mem_append_left b hm)
  obtain ⟨a₁,a₂,rfl⟩ := List.append_of_mem hm
  have hrange := hsane a₁ _ _ (List.append_assoc a₁ (_ :: a₂) b)
  obtain ⟨hpos,heq⟩ := (accounted_reserveTokens hd).2 s rfl
  exact ⟨heq ▸ hpos,heq ▸ hrange⟩

theorem accounted_spendChange {e : Event Op Ans} (he : e ∈ tr) {d : Int} (hd : Accounted e d) :
    spendChange e = d := by
  obtain ⟨a,b,rfl⟩ := List.append_of_mem he
  have hpriced := (accounted_priced hacc).of_append
  have he := hsane a e b rfl
  obtain ⟨op,ans⟩ := e
  cases op with
  | reserveSpend team cap est => exact (accounted_reserveSpend hd (he hpriced)).2.1
  | reconcileSpend r actual =>
    exact accounted_reconcileSpend hd
      (fun s hs => accounted_issuedSpend hsane hacc rfl (he.2 s hs)) (he.1 hpriced)
  | cost m i o => exact hd.1.symm
  | reserveTokens team cap amount ttl => exact hd.1.symm
  | reconcileTokens r actual => exact hd.1.symm
  | _ => exact Eq.symm hd

theorem accounted_netSpend : netSpend tr = ds.sum := by
  rw [netSpend,map_eq_of_forall₂ hacc fun e he d hd => accounted_spendChange hsane hacc he hd]

theorem accounted_spendSettled (hredis : ∀ e ∈ tr,redisFailed e = false) : SpendSettled tr := by
  intro e he
  obtain ⟨d,hd⟩ := forall₂_mem hacc he
  have hok := hredis e he
  obtain ⟨a,b,rfl⟩ := List.append_of_mem he
  have he := hsane a e b rfl
  obtain ⟨op,ans⟩ := e
  cases op with
  | reserveSpend team cap est =>
    exact (accounted_reserveSpend hd (he (accounted_priced hacc).of_append)).1
  | reconcileSpend r actual =>
    cases ans with
    | error e => simpa [spendSettled,redisFailed,Except.isOk,Except.toBool] using hok
    | ok _ =>
      obtain ⟨key,after,-,hrec,-⟩ := hd
      unfold reconcile at hrec
      cases hdelta : reconcileDelta r actual with
      | error e => simp [hdelta] at hrec
      | ok d => simp [spendSettled,hdelta,Except.isOk,Except.toBool]
  | _ => rfl

theorem accounted_tokens (hok : ∀ e ∈ tr,failed e = false) :
    TokensSettled tr ∧ netTokens tr = (tr.map sentTokens).sum := by
  have hone : ∀ e ∈ tr,tokensSettled e = true ∧ tokenChange e = sentTokens e := by
    intro e he
    obtain ⟨d,hd⟩ := forall₂_mem hacc he
    have hfine := hok e he
    obtain ⟨a,b,rfl⟩ := List.append_of_mem he
    have he := hsane a e b rfl
    obtain ⟨op,ans⟩ := e
    cases op with
    | reserveTokens team cap amount ttl =>
      cases ans with
      | error e => simp [failed] at hfine
      | ok answer =>
        obtain ⟨t,res⟩ := answer
        obtain ⟨hsome,hheld⟩ := accounted_reserveTokens hd
        refine ⟨by simp [tokensSettled,hsome],?_⟩
        cases t with
        | none => simp_all [tokenChange,sentTokens]
        | some s => simp [tokenChange,sentTokens,heldTokens,(hheld s rfl).2]
    | reconcileTokens r actual =>
      cases ans with
      | error e => simp [failed] at hfine
      | ok _ =>
        cases r with
        | none => exact ⟨rfl,rfl⟩
        | some s =>
          have hs := accounted_issuedTokens hsane hacc rfl (he.2 s rfl)
          exact ⟨rfl,(accounted_reconcileTokens hd hs he.1).symm⟩
    | _ => exact ⟨rfl,rfl⟩
  refine ⟨fun e he => (hone e he).1,?_⟩
  rw [netTokens,List.map_congr_left fun e he => (hone e he).2]

end Accounts

/-- The counters after a run in which Redis answered: moved by the recorded cost,
unless that was negative. -/
theorem run_spend {hd : Handler} {r : Inbound} {tr : History} {x : Except String Unit} {v : Vars}
    {ds : List Int} (hrun : (hd.chatCompletions r .zero).Returns tr (x,v))
    (hacc : List.Forall₂ Accounted tr ds) (hredis : ∀ e ∈ tr,redisFailed e = false) :
    (0 ≤ v.metrics.costMicros ∧ ds.sum = v.metrics.costMicros) ∨ (v.metrics.costMicros < 0 ∧
      0 ≤ ds.sum ∧ ∃ s ans,⟨.reconcileSpend (some s) v.metrics.costMicros,ans⟩ ∈ tr) := by
  obtain ⟨hbalanced,hsane⟩ := Prog.Spec.after (chatCompletions_balanced hd r) hrun
  simp only [List.nil_append] at hbalanced hsane
  have hnet := accounted_netSpend hsane hacc
  obtain ⟨hpos,heq⟩ | ⟨hneg,s,ans,hissued,heq,hm⟩ :=
    hbalanced.spend (accounted_spendSettled hsane hacc hredis)
  · exact .inl ⟨hpos,hnet.symm.trans heq⟩
  · have hs := accounted_issuedSpend hsane hacc (List.append_nil tr).symm hissued
    exact .inr ⟨hneg,by omega,s,ans,hm⟩

/-- A run of the handler, its accounting calls answered without error: the
team's counters move by the recorded cost and the bucket is debited by the
settled token count, which is zero when no provider answered. -/
theorem accounts_settle (hd : Handler) (r : Inbound) {tr : History} {x : Except String Unit}
    {v : Vars} {ds : List Int} (hrun : (hd.chatCompletions r .zero).Returns tr (x,v))
    (hacc : List.Forall₂ Accounted tr ds) (hok : ∀ e ∈ tr,failed e = false) :
    ds.sum = v.metrics.costMicros ∧ (tr.map sentTokens).sum = v.actual ∧
      (v.actual = 0 ∨ Delivered tr) := by
  obtain ⟨hbalanced,hsane⟩ := Prog.Spec.after (chatCompletions_balanced hd r) hrun
  simp only [List.nil_append] at hbalanced hsane
  obtain ⟨hsettled,htokens⟩ := accounted_tokens hsane hacc hok
  have hredis : ∀ e ∈ tr,redisFailed e = false := by
    intro e he
    have hfine := hok e he
    unfold redisFailed
    split <;> simp_all [failed]
  refine ⟨?_,htokens.symm.trans (hbalanced.tokens hsettled),hbalanced.delivered⟩
  obtain ⟨-,heq⟩ | ⟨hneg,-,s,ans,hm⟩ := run_spend hrun hacc hredis
  · exact heq
  -- A negative cost would have been refused.
  · exfalso
    have hfine := hok _ hm
    obtain ⟨d,key,after,-,hrec,-⟩ := forall₂_mem hacc hm
    simp only [reconcile,reconcileDelta,if_pos hneg,Prod.mk.injEq] at hrec
    obtain ⟨rfl,-⟩ := hrec
    simp [failed] at hfine

/-! A world in which the first model's provider fails and a costlier one answers. -/

def cheapModel : Candidate := ⟨"p1","m1"⟩

def dearModel : Candidate := ⟨"p2","m2"⟩

def adapterFor (c : Candidate) : Adapter :=
  ⟨⟨c.provider,"openai-compatible","http://" ++ c.provider,"",1,[c.model],100,c.model⟩,
    .openAICompatible⟩

def twoPrices : Calculator where
  pricing m := if m = "m1" then some ⟨1000000,1000000⟩
    else if m = "m2" then some ⟨2000000,2000000⟩ else none

def exactLimiter : RateLimit.Limiter := ⟨.exact,fun _ => ""⟩

def bodyNamed (name : String) (u : Usage) : (d : Dialect) → Body d
  | .openAICompatible => ⟨name,[⟨"hello","stop"⟩],u.inputTokens,u.outputTokens⟩
  | .anthropic => ⟨name,[⟨"text","hello"⟩],"end_turn",u.inputTokens,u.outputTokens⟩
  | .gemini => ⟨[⟨["hello"],"STOP"⟩],"",u.inputTokens,u.outputTokens,name⟩
  | .ollama => ⟨name,"hello","stop",u.inputTokens,u.outputTokens⟩

def unavailable (c : Candidate) : Fault :=
  .provider ⟨.serverError,c.provider,c.model,503,true,0,"",none⟩

/-- The answers of that world, in which a model answers under another name. Each
accounting call finds an empty key. -/
def fallbackWorld (rename : String → String) : (op : Op) → Ans op
  | .forModel m => .ok (adapterFor (if m = "m2" then dearModel else cheapModel))
  | .defaultMaxTokensFor _ => some 100
  | .tierFor _ => [cheapModel,dearModel]
  | .tierNamed _ => []
  | .cost m i o => twoPrices.cost m i o
  | .status _ => .healthy
  | .breakerState _ => .closed
  | .breakerAllow _ => true
  | .breakerReport _ _ => ()
  | .ctxErr => false
  | .int64N _ => 0
  | .wait _ => true
  | .chaos _ => .nothing
  | .complete p req =>
    if req.model = "m1" then .failed (unavailable cheapModel)
    else .body (.ok (bodyNamed (rename req.model) ⟨10,20⟩ p.dialect))
  | .stream _ req =>
    if req.model = "m1" then .failed (unavailable cheapModel)
    else .opened ⟨[⟨"hello",.stop,some ⟨10,20⟩⟩],.eof⟩
  | .recordHealth _ _ => ()
  | .reserveTokens team cap amount ttl =>
      (exactLimiter.reserve none ⟨0,0⟩ team .tpm cap amount ttl).1
  | .reconcileTokens r actual => (exactLimiter.reconcile none ⟨0,0⟩ r actual).1
  | .reserveSpend team cap est => (reserve none team ⟨"2026-01",100⟩ cap est).1
  | .reconcileSpend r actual => (reconcile none r actual).1
  | .cache _ => .error ⟨"",false⟩
  | .now => 0
  | .header _ _ => ()
  | .reply _ _ => ()
  | .event _ => true

def answering (world : (op : Op) → Ans op) : Unit → (op : Op) → Ans op × Unit :=
  fun _ op => (world op,())

theorem plainHandler_attempts : 0 < 1 ∧ (0 : Int) < 1 ∧ 1 ≤ 2 := by decide

def plainHandler : Handler := ⟨.of plainHandler_attempts,false,false,none,none,fun _ => ""⟩

def memberTeam : Auth.Team :=
  ⟨"t","t","o","",["p1","p2"],["m1","m2"],⟨1000,1000⟩,1000,Auth.priorityRealtime,false,false,"","",
    none⟩

def greeting (stream : Bool) : Inbound :=
  ⟨memberTeam,"r","application/json","",true,.ok ⟨"m1",[⟨"user","hi"⟩],none,0,stream,[]⟩⟩

theorem fallbackWorld_accounted (rename : String → String) (op : Op) :
    ∃ d,Accounted ⟨op,fallbackWorld rename op⟩ d := by
  cases op with
  | cost m i o => exact ⟨0,rfl,twoPrices,rfl⟩
  | reserveSpend team cap est => exact ⟨_,none,⟨"2026-01",100⟩,_,by decide,rfl,rfl⟩
  | reconcileSpend r actual => exact ⟨_,none,_,by decide,rfl,rfl⟩
  | reserveTokens team cap amount ttl => exact ⟨0,rfl,exactLimiter,none,⟨0,0⟩,rfl⟩
  | reconcileTokens r actual => exact ⟨0,rfl,exactLimiter,none,⟨0,0⟩,rfl⟩
  | _ => exact ⟨0,rfl⟩

theorem forall₂_of_forall {α β : Type} {R : α → β → Prop} {as : List α} (h : ∀ a ∈ as,∃ b,R a b) :
    ∃ bs,List.Forall₂ R as bs := by
  induction as with
  | nil => exact ⟨[],.nil⟩
  | cons a as ih =>
    obtain ⟨b,hb⟩ := h a (by simp)
    obtain ⟨bs,hbs⟩ := ih fun a ha => h a (by simp [ha])
    exact ⟨b :: bs,.cons hb hbs⟩

def fallbackRun (rename : String → String) (stream : Bool) :
    History × (Except String Unit × Vars) × Unit :=
  (plainHandler.chatCompletions (greeting stream) .zero).exec (answering (fallbackWorld rename)) ()

theorem fallbackRun_returns (rename : String → String) (stream : Bool) :
    (plainHandler.chatCompletions (greeting stream) .zero).Returns (fallbackRun rename stream).1
      ((fallbackRun rename stream).2.1.1,(fallbackRun rename stream).2.1.2) := by
  rw [Prod.mk.eta]
  exact returns_exec _ _ ()

theorem fallbackRun_accounted (rename : String → String) (stream : Bool) :
    ∃ ds,List.Forall₂ Accounted (fallbackRun rename stream).1 ds := by
  refine forall₂_of_forall fun e he => ?_
  obtain ⟨_,heq⟩ := mem_exec he
  rw [heq]
  exact fallbackWorld_accounted rename e.op

/-- The top-up of the costlier model is taken and given back. -/
theorem accounts_settle_fallback :
    ∃ tr x v ds,(plainHandler.chatCompletions (greeting false) .zero).Returns tr (x,v) ∧
      List.Forall₂ Accounted tr ds ∧ v.metrics.servedModel = "m2" ∧ ds.sum = 60 ∧
      (tr.map sentTokens).sum = 30 := by
  have hrun := fallbackRun_returns id false
  obtain ⟨ds,hds⟩ := fallbackRun_accounted id false
  have hok : (fallbackRun id false).1.all (fun e => !failed e) = true := by decide +kernel
  obtain ⟨hspend,htokens,-⟩ := accounts_settle plainHandler (greeting false) hrun hds
    fun e he => by simpa using List.all_eq_true.1 hok e he
  exact ⟨_,_,_,ds,hrun,hds,by decide +kernel,hspend.trans (by decide +kernel),
    htokens.trans (by decide +kernel)⟩

end Switchyard.Proxy
