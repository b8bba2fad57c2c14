import Switchyard.ChatFootprint
set_option autoImplicit false

/-!
What a request does to its team's two accounts, the month's spend and the TPM
bucket. Every reservation is settled, by a deferred call or on the spot, however
the request ends.
-/

namespace Switchyard.Proxy
open Budget MachineInt CallTree Act Provider Resilience

def heldSpend : Option Reservation → Int
  | none => 0
  | some r => r.reserved

def heldTokens : Option RateLimit.Reservation → Int
  | none => 0
  | some r => r.reserved

def heldExtra (extra : List (Option Reservation)) : Int := (extra.map heldSpend).sum

def spendChange : Event Op Ans → Int
  | ⟨.reserveSpend _ _ _,.ok (r,res)⟩ => if res.allowed then heldSpend r else 0
  | ⟨.reconcileSpend (some r) actual,.ok _⟩ => actual-r.reserved
  | _ => 0

def tokenChange : Event Op Ans → Int
  | ⟨.reserveTokens _ _ _ _,.ok (r,res)⟩ => if res.allowed then heldTokens r else 0
  | ⟨.reconcileTokens (some r) actual,.ok _⟩ => actual-r.reserved
  | _ => 0

/-- A reservation comes with a handle exactly when it was allowed, and a
settlement fails exactly on an amount that is refused. -/
def spendSettled : Event Op Ans → Bool
  | ⟨.reserveSpend _ _ _,.ok (r,res)⟩ => r.isSome == res.allowed
  | ⟨.reconcileSpend r actual,ans⟩ => ans.isOk == (reconcileDelta r actual).isOk
  | _ => true

def tokensSettled : Event Op Ans → Bool
  | ⟨.reserveTokens _ _ _ _,.ok (r,res)⟩ => r.isSome == res.allowed
  | ⟨.reserveTokens _ _ _ _,.error _⟩ | ⟨.reconcileTokens _ _,.error _⟩ => false
  | _ => true

def netSpend (h : History) : Int := (h.map spendChange).sum

def netTokens (h : History) : Int := (h.map tokenChange).sum

def SpendSettled (h : History) : Prop := ∀ e ∈ h,spendSettled e = true

def TokensSettled (h : History) : Prop := ∀ e ∈ h,tokensSettled e = true

def Priced (h : History) : Prop :=
  ∀ m i o c,⟨.cost m i o,.ok c⟩ ∈ h → -maxCost ≤ c ∧ c ≤ maxCost

def SpendIssued (h : History) (s : Reservation) : Prop :=
  ∃ team cap est res,⟨.reserveSpend team cap est,.ok (some s,res)⟩ ∈ h

def TokensIssued (h : History) (s : RateLimit.Reservation) : Prop :=
  ∃ team cap amount ttl res,⟨.reserveTokens team cap amount ttl,.ok (some s,res)⟩ ∈ h

def delivers : Event Op Ans → Bool
  | ⟨.complete p req,ans⟩ => (Completion.response p req.model ans).isSome
  | ⟨.stream _ _,ans⟩ => (Connection.stream? ans).isSome
  | _ => false

def Delivered (h : History) : Prop := ∃ e ∈ h,delivers e = true

def Sane (h : History) : Op → Prop
  | .reserveTokens _ _ amount _ => InRange amount
  | .reconcileTokens r actual => InRange actual ∧ ∀ s,r = some s → TokensIssued h s
  | .reserveSpend _ _ est => Priced h → est < 9007199254740992
  | .reconcileSpend r actual =>
    (Priced h → actual ≤ maxCost) ∧ ∀ s,r = some s → SpendIssued h s
  | _ => True

@[simp] theorem netSpend_append (h h' : History) : netSpend (h ++ h') = netSpend h+netSpend h' := by
  simp [netSpend]

@[simp] theorem netTokens_append (h h' : History) :
    netTokens (h ++ h') = netTokens h+netTokens h' := by
  simp [netTokens]

@[simp] theorem netSpend_nil : netSpend [] = 0 := rfl

@[simp] theorem netTokens_nil : netTokens [] = 0 := rfl

@[simp] theorem netSpend_cons (e : Event Op Ans) (h : History) :
    netSpend (e :: h) = spendChange e+netSpend h := by
  simp [netSpend]

@[simp] theorem netTokens_cons (e : Event Op Ans) (h : History) :
    netTokens (e :: h) = tokenChange e+netTokens h := by
  simp [netTokens]

variable {op : Op}

theorem spendChange_of_kind (hop : op.kind ≠ .spend) (ans : Ans op) : spendChange ⟨op,ans⟩ = 0 := by
  cases op <;> first | rfl | exact absurd rfl hop

theorem tokenChange_of_kind (hop : op.kind ≠ .tokens) (ans : Ans op) :
    tokenChange ⟨op,ans⟩ = 0 := by
  cases op <;> first | rfl | exact absurd rfl hop

variable {h : History}

theorem Priced.of_append {h' : History} (hp : Priced (h ++ h')) : Priced h :=
  fun m i o c hc => hp m i o c (List.mem_append_left h' hc)

theorem SpendSettled.of_append {h' : History} (hs : SpendSettled (h ++ h')) : SpendSettled h :=
  fun e he => hs e (List.mem_append_left h' he)

theorem SpendSettled.last {e : Event Op Ans} (hs : SpendSettled (h ++ [e])) :
    spendSettled e = true := hs e (by simp)

theorem TokensSettled.of_append {h' : History} (hs : TokensSettled (h ++ h')) : TokensSettled h :=
  fun e he => hs e (List.mem_append_left h' he)

theorem TokensSettled.last {e : Event Op Ans} (hs : TokensSettled (h ++ [e])) :
    tokensSettled e = true := hs e (by simp)

theorem SpendIssued.append {s : Reservation} (hs : SpendIssued h s)
    (h' : History) : SpendIssued (h ++ h') s := by
  obtain ⟨team,cap,est,res,hm⟩ := hs
  exact ⟨team,cap,est,res,List.mem_append_left h' hm⟩

theorem TokensIssued.append {s : RateLimit.Reservation} (hs : TokensIssued h s)
    (h' : History) : TokensIssued (h ++ h') s := by
  obtain ⟨team,cap,amount,ttl,res,hm⟩ := hs
  exact ⟨team,cap,amount,ttl,res,List.mem_append_left h' hm⟩

theorem Delivered.append (hd : Delivered h) (h' : History) : Delivered (h ++ h') := by
  obtain ⟨e,hm,he⟩ := hd
  exact ⟨e,List.mem_append_left h' hm,he⟩

theorem sane_of_kind (hs : op.kind ≠ .spend) (ht : op.kind ≠ .tokens) (h : History) :
    Sane h op := by
  cases op <;> simp_all [Op.kind,Sane]

theorem net_of_plain {tr : History} (htr : ∀ e ∈ tr,e.op.kind = .plain) :
    netSpend tr = 0 ∧ netTokens tr = 0 := by
  induction tr with
  | nil => exact ⟨rfl,rfl⟩
  | cons e tr ih =>
    obtain ⟨hspend,htokens⟩ := ih fun e' he' => htr e' (by simp [he'])
    have he := htr e (by simp)
    have hs := spendChange_of_kind (by simp [he] : e.op.kind ≠ _) e.ans
    have ht := tokenChange_of_kind (by simp [he] : e.op.kind ≠ _) e.ans
    simp_all [netSpend,netTokens]

theorem plain_spec {α : Type} {p : Program Unit} {a : α} {Q : History → α → Prop}
    (hp : p.Calls fun op => op.kind = .plain)
    (hQ : ∀ tr,netSpend tr = 0 → netTokens tr = 0 → Q (h ++ tr) a) :
    (p >>= fun _ => pure a).Spec Sane Q h := by
  refine spec_bind.2 (spec_of_calls hp (fun h op hop => ?_) fun tr _ htr _ => ?_)
  · exact sane_of_kind (by simp [hop]) (by simp [hop]) h
  · exact hQ tr (net_of_plain htr).1 (net_of_plain htr).2

theorem spec_ask_bind {α : Type} {G : History → Op → Prop} {f : Ans op → Program α}
    {Q : History → α → Prop} :
    (ask op >>= f).Spec G Q h ↔ G h op ∧ ∀ ans,(f ans).Spec G Q (h ++ [⟨op,ans⟩]) := Iff.rfl

/-- From h to h', `reserveTokens` debited the bucket by what the handle holds. -/
def TokensHeld (h h' : History) : Option (Option RateLimit.Reservation) → Prop
  | none => TokensSettled h' → netTokens h' = netTokens h
  | some t => netTokens h' = netTokens h+heldTokens t ∧ (TokensSettled h' → t.isSome = true) ∧
      ∀ s,t = some s → TokensIssued h' s

theorem reserveTokens_spec (team : Auth.Team) (req : ChatRequest) (h : History) :
    (reserveTokens team req).Spec Sane
      (fun h' r => netSpend h' = netSpend h ∧ TokensHeld h h' r) h := by
  refine spec_ask_bind.2 ⟨trivial,fun d => ?_⟩
  cases d with
  | none =>
    refine plain_spec (writeError_calls (fun _ => id) _ _ _) fun tr hs ht => ?_
    simp [TokensHeld,spendChange,tokenChange,hs,ht]
  | some d =>
    refine spec_ask_bind.2 ⟨wrap_inRange _,fun ans => ?_⟩
    cases ans with
    | error e =>
      refine ⟨by simp [spendChange],by simp [tokenChange,heldTokens],fun hs => ?_,by simp⟩
      simpa [tokensSettled] using hs.last
    | ok answer =>
      obtain ⟨reservation,res⟩ := answer
      simp only []
      split
      · refine plain_spec (calls_bind (writeRateLimitHeaders_calls (fun _ => id) _ _) fun _ =>
          writeError_calls (fun _ => id) _ _ _) fun tr hs ht => ?_
        simp_all [TokensHeld,spendChange,tokenChange]
      rename_i hallowed
      have hissued : ∀ s,reservation = some s → TokensIssued (h ++
          [⟨.defaultMaxTokensFor req.model,some d⟩] ++ [⟨.reserveTokens team.id team.rateLimits.tpm
            (req.estimateTokens d) bucketTTL,.ok (reservation,res)⟩]) s := by
        intro s hs
        exact ⟨team.id,team.rateLimits.tpm,req.estimateTokens d,bucketTTL,res,by simp [hs]⟩
      split
      -- Shed: the reservation is given back at once.
      · refine spec_ask_bind.2 ⟨⟨by decide,hissued⟩,fun ans => ?_⟩
        refine plain_spec (calls_bind (writeRateLimitHeaders_calls (fun _ => id) _ _) fun _ =>
          writeError_calls (fun _ => id) _ _ _) fun tr hs ht => ⟨?_,fun hset => ?_⟩
        · simp [spendChange,hs]
        · have hans := hset.of_append.last
          cases ans with
          | error e => simp [tokensSettled] at hans
          | ok _ => cases reservation <;> simp_all [tokenChange,heldTokens]
      · refine ⟨by simp [spendChange],by simp_all [tokenChange],fun hs => ?_,hissued⟩
        have hlast := hs.last
        simp_all [tokensSettled]

/-- From h to h', `reserveBudget` raised the spend by what the handle holds, for
an estimate that was priced. -/
def SpendHeld (h h' : History) : Option (Option Reservation × Int) → Prop
  | none => netSpend h' = netSpend h
  | some (t,est) => netSpend h' = netSpend h+heldSpend t ∧ (SpendSettled h' → t.isSome = true) ∧
      (∀ s,t = some s → SpendIssued h' s) ∧
      (Priced h' → -maxCost ≤ est ∧ est ≤ maxCost)

theorem reserveBudget_spec (team : Auth.Team) (req : ChatRequest) (h : History) :
    (reserveBudget team req).Spec Sane
      (fun h' r => netTokens h' = netTokens h ∧ SpendHeld h h' r) h := by
  refine spec_ask_bind.2 ⟨trivial,fun d => ?_⟩
  cases d with
  | none =>
    refine plain_spec (writeError_calls (fun _ => id) _ _ _) fun tr hs ht => ?_
    simp [SpendHeld,spendChange,tokenChange,hs,ht]
  | some d =>
    refine spec_ask_bind.2 ⟨trivial,fun cost => ?_⟩
    cases cost with
    | error e =>
      refine plain_spec (writeError_calls (fun _ => id) _ _ _) fun tr hs ht => ?_
      simp [SpendHeld,spendChange,tokenChange,hs,ht]
    | ok est =>
      refine spec_ask_bind.2 ⟨fun hp => ?_,fun ans => ?_⟩
      · have hest := hp req.model req.estimateInputTokens (req.estimateOutputCeiling d) est
          (by simp)
        unfold maxCost at hest
        omega
      cases ans with
      | error e =>
        refine plain_spec (writeError_calls (fun _ => id) _ _ _) fun tr hs ht => ?_
        simp [SpendHeld,spendChange,tokenChange,hs,ht]
      | ok answer =>
        obtain ⟨reservation,res⟩ := answer
        simp only []
        split
        · refine plain_spec (writeError_calls (fun _ => id) _ _ _) fun tr hs ht => ?_
          simp_all [SpendHeld,spendChange,tokenChange]
        rename_i hallowed
        have hheld : SpendHeld h (h ++ [⟨.defaultMaxTokensFor req.model,some d⟩] ++
            [⟨.cost req.model req.estimateInputTokens (req.estimateOutputCeiling d),.ok est⟩] ++
            [⟨.reserveSpend team.id team.monthlyBudgetMicros est,.ok (reservation,res)⟩])
            (some (reservation,est)) := by
          refine ⟨by simp_all [spendChange],fun hs => ?_,fun s hs => ?_,fun hp => ?_⟩
          · have hlast := hs.last
            simp_all [spendSettled]
          · exact ⟨team.id,team.monthlyBudgetMicros,est,res,by simp [hs]⟩
          · exact hp req.model req.estimateInputTokens (req.estimateOutputCeiling d) est (by simp)
        split
        · refine spec_ask_bind.2 ⟨trivial,fun _ => ⟨by simp [tokenChange],?_⟩⟩
          obtain ⟨hnet,hsome,hissued,hest⟩ := hheld
          refine ⟨?_,fun hs => hsome hs.of_append,fun s hs => (hissued s hs).append _,fun hp =>
            hest hp.of_append⟩
          rw [netSpend_append,hnet]
          simp [spendChange]
        · exact ⟨by simp [tokenChange],hheld⟩

/-- The state of a request under its two reservations. -/
structure Holding (spend : Option Reservation) (base : Int) (h : History) (v : Vars) :
    Prop where
  base : Priced h → -maxCost ≤ base ∧ base ≤ maxCost
  cost : Priced h → v.metrics.costMicros ≤ maxCost
  issued : ∀ s,some s ∈ spend :: v.extra → SpendIssued h s
  actual : InRange v.actual
  delivered : v.actual = 0 ∨ Delivered h

/-- Under the reservations the bucket is left alone, and the spend grows with the
top-ups. -/
def holding (spend : Option Reservation) (base : Int) : Contract Op Ans Vars where
  allows := Sane
  inv := Holding spend base
  rel h v h' v' := netTokens h' = netTokens h ∧
    netSpend h'-heldExtra v'.extra = netSpend h-heldExtra v.extra
  refl _ _ := ⟨rfl,rfl⟩
  trans hab hbc := ⟨hbc.1.trans hab.1,hbc.2.trans hab.2⟩

section Holding

variable {spend : Option Reservation} {base : Int}

theorem Holding.append {h : History} {v : Vars} (hi : Holding spend base h v) (tr : History) :
    Holding spend base (h ++ tr) v where
  base hp := hi.base hp.of_append
  cost hp := hi.cost hp.of_append
  issued s hs := (hi.issued s hs).append tr
  actual := hi.actual
  delivered := hi.delivered.imp id fun hd => hd.append tr

theorem holding_step (hs : op.kind ≠ .spend) (ht : op.kind ≠ .tokens) :
    (holding spend base).Step op := by
  intro h v hi
  refine ⟨sane_of_kind hs ht h,fun ans => ⟨hi.append _,?_⟩⟩
  simp [holding,spendChange_of_kind hs,tokenChange_of_kind ht]

theorem holding_plain (op : Op) (hop : op.kind = .plain) : (holding spend base).Step op :=
  holding_step (by simp [hop]) (by simp [hop])

theorem estimateFor_returns {cb : ChainBudget} {model : String} {tr : History} {est : Int}
    (hret : (cb.estimateFor model).Returns tr (.ok est)) :
    ∃ tr' i o,tr = tr' ++ [⟨.cost model i o,.ok est⟩] := by
  obtain ⟨tr₁,d,tr₂,rfl,hask,hrest⟩ := returns_bind.1 hret
  cases d with
  | none => simp at hrest
  | some d =>
    obtain rfl := returns_perform.1 hrest
    exact ⟨tr₁,_,_,rfl⟩

/-- A candidate is let through without a top-up, or with one that joins the
request's extras. -/
theorem admitCandidate_honours (team : Auth.Team) (req : ChatRequest) (model : String) :
    Honours (holding spend base) (ChainBudget.admitCandidate ⟨team,req,base⟩ model) := by
  unfold ChainBudget.admitCandidate
  split
  · exact honours_pure _
  intro v h hi
  refine (spec_lift_of_calls (estimateFor_calls (holding_plain _ rfl)
    (fun _ _ => holding_plain _ rfl) _) hi).bind ?_
    (by rintro h' p v' ⟨rfl,hq,-⟩; exact hq)
  rintro h₁ est v₁ ⟨rfl,⟨hi₁,hrel₁⟩,tr,a,rfl,hr,hret⟩
  obtain rfl := Except.ok.inj hr
  cases est with
  | error e => exact ⟨hi₁,hrel₁⟩
  | ok est =>
    simp only []
    split
    · exact ⟨hi₁,hrel₁⟩
    have hsmall : Priced (h ++ tr) → sub est base < 9007199254740992 := by
      intro hp
      obtain ⟨tr',i,o,htr⟩ := estimateFor_returns hret
      have hest := hp model i o est (by simp [htr])
      have hbase := hi₁.base hp
      unfold maxCost at hest hbase
      rw [sub_eq (by unfold InRange; omega)]
      omega
    refine spec_call_bind.2 ⟨hsmall,fun ans => ?_⟩
    have hi₂ := hi₁.append [⟨.reserveSpend team.id team.monthlyBudgetMicros
      (sub est base),ans⟩]
    cases ans with
    | error e => exact ⟨hi₂,by simpa [holding,spendChange,tokenChange] using hrel₁⟩
    | ok answer =>
      obtain ⟨reservation,res⟩ := answer
      simp only []
      split
      · exact ⟨hi₂,by simp_all [holding,spendChange,tokenChange]⟩
      refine ⟨⟨hi₂.base,hi₂.cost,fun s hs => ?_,hi₂.actual,hi₂.delivered⟩,?_⟩
      · simp only [List.mem_cons,List.mem_append,List.not_mem_nil,or_false] at hs
        obtain hs | hs | hs := hs
        · exact hi₂.issued s (by simp [hs])
        · exact hi₂.issued s (by simp [hs])
        · exact ⟨team.id,team.monthlyBudgetMicros,sub est base,res,by simp [hs]⟩
      · simp_all [holding,spendChange,tokenChange,heldExtra]

theorem Delivered.snoc (h : History) (e : Event Op Ans) (hd : Delivered h) : Delivered (h ++ [e]) :=
  hd.append [e]

theorem holding_assume_step (hs : op.kind ≠ .spend) (ht : op.kind ≠ .tokens) :
    ((holding spend base).assume Delivered).Step op := (holding_step hs ht).assume Delivered.snoc

theorem storeConsulted_holding (r : Inbound) (consulted : Consulted) (resp : Response) :
    Honours ((holding spend base).assume Delivered)
      (Act.lift (storeConsulted r consulted resp)) :=
  honours_lift (storeConsulted_calls
    (fun op hop => holding_assume_step (by simp [hop]) (by simp [hop]))
    (fun op hop => holding_assume_step (by simp [hop]) (by simp [hop])) _ _ _)

theorem setMetrics_holding (f : Metrics → Metrics) (hf : ∀ m,(f m).costMicros = m.costMicros) :
    Honours (holding spend base) (setMetrics f) := by
  refine honours_modify fun h v hi => ⟨⟨hi.base,?_,hi.issued,hi.actual,hi.delivered⟩,rfl,rfl⟩
  exact fun hp => (hf v.metrics).symm ▸ hi.cost hp

theorem recordCost_holding (model : String) (usage : Usage) :
    Honours (holding spend base) (recordCost model usage) := by
  refine recordCost_honours (fun _ _ _ => holding_plain _ rfl) setMetrics_holding ?_ model usage
  intro m i o c h v hi hc
  exact ⟨⟨hi.base,fun hp => (hp m i o c hc).2,hi.issued,hi.actual,hi.delivered⟩,rfl,rfl⟩

theorem runChain_holding {α : Type} {hd : Handler} {team : Auth.Team} {req : ChatRequest}
    {attempt : Adapter → Candidate → Action (Except Fault α)} (chain : List Candidate)
    (hattempt : ∀ prov cand,Until (Ending.gain ((holding spend base).assume fun _ => True)
      fun _ => Delivered) Except.toOption (attempt prov cand)) :
    Until (Ending.gain (holding spend base) fun _ => Delivered) Except.toOption
      (hd.runChain ⟨team,req,base⟩ attempt true 0 [] chain) := by
  refine runChain_gains (L := fun _ _ _ => True) holding_plain (fun _ => Delivered.snoc)
    (fun _ _ _ _ => id) (fun cand _ v h hi => ?_) (fun cand _ prov => hattempt prov cand) true 0 []
  refine (admitCandidate_honours team req cand.model v h hi).mono fun h' r v' hq => ?_
  exact ⟨hq.1,hq.2,fun _ _ _ => trivial⟩

theorem completeChat_holding (hd : Handler) (r : Inbound) (req : ChatRequest)
    (requested : Candidate) (chain : List Candidate) (consulted : Consulted) :
    Honours (holding spend base)
      (hd.completeChat r req requested chain ⟨r.team,req,base⟩ consulted) := by
  have hstep : ∀ op,op.kind ≠ .spend → op.kind ≠ .tokens →
      ((holding spend base).assume fun _ => True).Step op :=
    fun op hs ht => (holding_step hs ht).assume fun _ _ => id
  refine completeChat_honours holding_plain setMetrics_holding (K := fun _ => Delivered) ?_ ?_
  · refine runChain_holding chain fun prov cand => ?_
    have hplain : ∀ op,op.kind = .plain → ((holding spend base).assume fun _ => True).Step op :=
      fun op hop => hstep op (by simp [hop]) (by simp [hop])
    refine completeAttempt_until (fun op hop => hplain op hop.plain) (until_call_gain
      (hstep _ (by simp [Op.kind]) (by simp [Op.kind])) ?_) fun _ =>
        gain_step (hplain _ rfl) fun _ => Delivered.snoc
    intro h _ ans resp _ hans
    exact ⟨_,List.mem_append_right h (List.mem_singleton_self _),by simp [delivers,hans]⟩
  · intro answer
    refine finishChat_honours (fun op hop => holding_assume_step (by simp [hop]) (by simp [hop]))
      (fun f hf => (setMetrics_holding f hf).assume Delivered.snoc)
      (fun model usage => (recordCost_holding model usage).assume Delivered.snoc)
      ?_ (fun op hop => holding_assume_step (by simp [hop.kind]) (by simp [hop.kind]))
      (storeConsulted_holding _ _ _) _
    intro n hn
    refine honours_modify fun h v hi => ⟨⟨?_,hi.2⟩,rfl,rfl⟩
    exact ⟨hi.1.base,hi.1.cost,hi.1.issued,hn,.inr hi.2⟩

theorem relayStream_holding (r : Inbound) (req : ChatRequest) (requested : Candidate)
    (consulted : Consulted) (answer : StreamReader × Candidate) :
    Honours ((holding spend base).assume Delivered)
      (relayStream r req requested consulted answer) :=
  relayStream_honours (fun op hop => holding_assume_step (by simp [hop]) (by simp [hop]))
    (fun f hf => (setMetrics_holding f hf).assume Delivered.snoc)
    (fun model usage => (recordCost_holding model usage).assume Delivered.snoc)
    (fun op hop => holding_assume_step (by simp [hop.kind]) (by simp [hop.kind]))
    (storeConsulted_holding _ _ _) _ _

theorem actualTokens_inRange (s : Relay) (req : ChatRequest) : InRange (s.actualTokens req) := by
  unfold Relay.actualTokens
  simp only []
  split <;> exact wrap_inRange _

theorem streamChatCompletions_yields (hd : Handler) (r : Inbound) (req : ChatRequest)
    (requested : Candidate) (chain : List Candidate) (cb : ChainBudget) (consulted : Consulted) :
    Yields InRange
      (hd.streamChatCompletions r req requested chain cb consulted) := by
  unfold Handler.streamChatCompletions
  split
  · exact yields_bind fun _ => yields_pure (by decide)
  refine yields_bind fun result => ?_
  cases result with
  | error failures => exact yields_bind fun _ => yields_pure (by decide)
  | ok answer =>
    iterate 4 refine yields_bind fun _ => ?_
    simp only []
    split
    · exact yields_pure (actualTokens_inRange _ _)
    split
    · exact yields_panic _
    · exact yields_bind fun _ => yields_pure (actualTokens_inRange _ _)
    · exact yields_bind fun _ => yields_pure (actualTokens_inRange _ _)

theorem streamChatCompletions_until (hd : Handler) (r : Inbound) (req : ChatRequest)
    (requested : Candidate) (chain : List Candidate) (consulted : Consulted) :
    Until (Ending.gain (holding spend base) fun _ => Delivered)
      (fun n => if n = 0 then none else some n)
      (hd.streamChatCompletions r req requested chain ⟨r.team,req,base⟩ consulted) := by
  have hstep : ∀ op,op.kind ≠ .spend → op.kind ≠ .tokens →
      ((holding spend base).assume fun _ => True).Step op :=
    fun op hs ht => (holding_step hs ht).assume fun _ _ => id
  unfold Handler.streamChatCompletions
  split
  · exact (honours_lift (writeError_calls holding_plain _ _ _)).bind_until fun _ =>
      until_pure rfl
  have hwalk : Until (Ending.gain (holding spend base) fun _ => Delivered) Except.toOption
      (hd.runChain ⟨r.team,req,base⟩ (streamAttempt req.toProviderRequest) true 0 [] chain) := by
    refine runChain_holding chain fun prov cand => ?_
    refine streamAttempt_until (fun op hop => hstep op (by simp [hop.plain]) (by simp [hop.plain]))
      (until_call_gain (hstep _ (by simp [Op.kind]) (by simp [Op.kind])) ?_)
    intro h _ ans s _ hans
    exact ⟨_,List.mem_append_right h (List.mem_singleton_self _),by simp [delivers,hans]⟩
  intro v h hi
  refine (hwalk v h hi).bind (fun h₁ result v₁ hq => ?_) fun h₁ p v₁ hq => hq
  cases result with
  | error failures =>
    obtain ⟨hi₁,hrel₁⟩ := hq
    refine Spec.mono ((chainFailed_honours holding_plain setMetrics_holding _ _).bind_until
      (fun _ => until_pure rfl) v₁ h₁ hi₁) fun _ _ _ hq => Ending.post_after hrel₁ hq
  | ok answer =>
    obtain ⟨hi₁,hrel₁⟩ := hq
    refine (relayStream_holding r req requested consulted answer v₁ h₁ hi₁).mono ?_
    intro h₂ n v₂ hq₂
    have hrel := (holding spend base).trans hrel₁ hq₂.2
    unfold Ending.post
    generalize n.toOption.bind _ = c
    cases c with
    | none => exact ⟨hq₂.1.1,hrel⟩
    | some c => exact ⟨hq₂.1,hrel⟩

theorem serve_holding (hd : Handler) (r : Inbound) (req : ChatRequest) (requested : Candidate)
    (chain : List Candidate) (consulted : Consulted) :
    Honours (holding spend base) (if req.stream then do
        let tokens ← hd.streamChatCompletions r req requested chain ⟨r.team,req,base⟩ consulted
        Act.modify fun v => { v with actual := tokens }
      else hd.completeChat r req requested chain ⟨r.team,req,base⟩ consulted) := by
  split
  · intro v h hi
    have hstream := streamChatCompletions_until hd r req requested chain consulted v h hi
    have hrange := streamChatCompletions_yields hd r req requested chain
      ⟨r.team,req,base⟩ consulted v h
    refine Spec.bind (Spec.and hstream hrange) (fun h₁ n v₁ hq => ?_) fun h₁ p v₁ hq => hq.1
    have hn := hq.2 n rfl
    by_cases hzero : n = 0
    · obtain ⟨hi₁,hrel₁⟩ := (Ending.post_none (if_pos hzero)).1 hq.1
      exact ⟨⟨hi₁.base,hi₁.cost,hi₁.issued,hn,.inl hzero⟩,hrel₁⟩
    · obtain ⟨⟨hi₁,hdel⟩,hrel₁⟩ := (Ending.post_some (if_neg hzero)).1 hq.1
      exact ⟨⟨hi₁.base,hi₁.cost,hi₁.issued,hn,.inr hdel⟩,hrel₁⟩
  · exact completeChat_holding hd r req requested chain consulted

end Holding

theorem reconcileDelta_isOk (r : Option Reservation) (actual : Int) :
    (reconcileDelta r actual).isOk = (r.isNone || decide (0 ≤ actual)) := by
  unfold reconcileDelta
  cases r with
  | none => rfl
  | some r =>
    simp only []
    split_ifs with hneg <;> simp [Except.isOk,Except.toBool] <;> omega

theorem spendSettled_reconcile (r : Option Reservation) (actual : Int)
    (ans : Except String Unit) : spendSettled ⟨.reconcileSpend r actual,ans⟩ =
      (ans.isOk == (r.isNone || decide (0 ≤ actual))) := by
  rw [← reconcileDelta_isOk]
  rfl

theorem reconcileExtras_spec (extra : List (Option Reservation)) (v : Vars) (h : History)
    (hissued : ∀ s,some s ∈ extra → SpendIssued h s) :
    Spec Sane (reconcileExtras extra) (fun h' _ v' => v' = v ∧ netTokens h' = netTokens h ∧
      (SpendSettled h' → netSpend h' = netSpend h-heldExtra extra)) v h := by
  induction extra generalizing h with
  | nil => exact ⟨rfl,rfl,fun _ => by simp [heldExtra]⟩
  | cons t rest ih =>
    refine spec_call_bind.2 ⟨⟨fun _ => by decide,fun s hs => hissued s (by simp [hs])⟩,
      fun ans => ?_⟩
    refine (ih _ fun s hs => (hissued s (by simp [hs])).append _).extends.mono ?_
    rintro h' x v' ⟨⟨tr,rfl⟩,hv,ht,hnet⟩
    refine ⟨hv,by simp_all [tokenChange],fun hs => ?_⟩
    have hlast := hs.of_append.last
    rw [hnet hs]
    cases ans with
    | error e => simp [spendSettled_reconcile,Except.isOk,Except.toBool] at hlast
    | ok _ =>
      cases t <;> simp [spendChange,heldExtra,heldSpend]
      omega

/-- The month's spend after a request: its cost, or, when the cost was negative
and the settlement refused it, still the reservation. -/
def SpendBalanced (h : History) (v : Vars) : Prop :=
  SpendSettled h → (0 ≤ v.metrics.costMicros ∧ netSpend h = v.metrics.costMicros) ∨
    (v.metrics.costMicros < 0 ∧ ∃ s ans,SpendIssued h s ∧ netSpend h = s.reserved ∧
      ⟨.reconcileSpend (some s) v.metrics.costMicros,ans⟩ ∈ h)

theorem settleSpend_spec {spend : Option Reservation} {base : Int} {v : Vars}
    (hi : Holding spend base h v) (hheld : netSpend h-heldExtra v.extra = heldSpend spend)
    (hsome : SpendSettled h → spend.isSome = true) :
    Spec Sane (settleSpend spend) (fun h' _ v' => v' = v ∧ netTokens h' = netTokens h ∧
      SpendBalanced h' v) v h := by
  refine spec_get_bind.2 (spec_call_bind.2 ⟨⟨hi.cost,fun s hs => hi.issued s (by simp [hs])⟩,
    fun ans => ?_⟩)
  refine (reconcileExtras_spec v.extra v _ fun s hs =>
    (hi.issued s (by simp [hs])).append _).extends.mono ?_
  rintro h' x v' ⟨⟨tr,rfl⟩,hv,ht,hnet⟩
  refine ⟨hv,by simp_all [tokenChange],fun hs => ?_⟩
  have hlast := hs.of_append.last
  obtain ⟨s,rfl⟩ := Option.isSome_iff_exists.1 (hsome hs.of_append.of_append)
  rw [hnet hs]
  cases ans with
  | error e =>
    refine .inr ⟨?_,s,.error e,((hi.issued s (by simp)).append _).append tr,?_,by simp⟩
    · simpa [spendSettled_reconcile,Except.isOk,Except.toBool] using hlast
    · simpa [spendChange,heldSpend] using hheld
  | ok _ =>
    refine .inl ⟨by simpa [spendSettled_reconcile,Except.isOk,Except.toBool] using hlast,?_⟩
    simp only [netSpend_append,netSpend_cons,netSpend_nil,spendChange,heldSpend] at hheld ⊢
    omega

structure Balanced (h : History) (_ : Except String Unit) (v : Vars) : Prop where
  spend : SpendBalanced h v
  tokens : TokensSettled h → netTokens h = v.actual
  delivered : v.actual = 0 ∨ Delivered h

structure Untouched (h : History) (v : Vars) : Prop where
  spend : netSpend h = 0
  tokens : netTokens h = 0
  cost : v.metrics.costMicros = 0
  actual : v.actual = 0
  extra : v.extra = []

theorem Untouched.balanced {v : Vars} (hi : Untouched h v) (x : Except String Unit) :
    Balanced h x v :=
  ⟨fun _ => .inl ⟨hi.cost.ge,hi.spend.trans hi.cost.symm⟩,fun _ => hi.tokens.trans hi.actual.symm,
    .inl hi.actual⟩

/-- The spend is settled, and the bucket still holds the reservation t. -/
structure TokensOpen (t : Option RateLimit.Reservation) (h : History) (v : Vars) : Prop where
  spend : SpendBalanced h v
  tokens : netTokens h = heldTokens t
  handle : TokensSettled h → t.isSome = true
  issued : ∀ s,t = some s → TokensIssued h s
  actual : InRange v.actual
  delivered : v.actual = 0 ∨ Delivered h

theorem SpendBalanced.append {v : Vars} (hb : SpendBalanced h v) {tr : History}
    (htr : netSpend tr = 0) : SpendBalanced (h ++ tr) v := by
  intro hs
  rw [netSpend_append,htr,add_zero]
  refine (hb hs.of_append).imp id ?_
  rintro ⟨hneg,s,ans,hissued,hnet,hm⟩
  exact ⟨hneg,s,ans,hissued.append tr,hnet,List.mem_append_left tr hm⟩

theorem settleTokens_spec {t : Option RateLimit.Reservation} {v : Vars} (hi : TokensOpen t h v) :
    Spec Sane (settleTokens t) (fun h' _ v' => ∀ x,Balanced h' x v') v h := by
  refine spec_get_bind.2 (spec_call_bind.2 ⟨⟨hi.actual,hi.issued⟩,fun ans => ?_⟩)
  refine fun x => ⟨hi.spend.append (by simp [spendChange]),fun hs => ?_,
    hi.delivered.imp id fun hd => hd.append _⟩
  have hlast := hs.last
  cases ans with
  | error e => simp [tokensSettled] at hlast
  | ok _ =>
    obtain ⟨s,rfl⟩ := Option.isSome_iff_exists.1 (hi.handle hs.of_append)
    have htokens := hi.tokens
    simp only [netTokens_append,netTokens_cons,netTokens_nil,tokenChange,heldTokens] at htokens ⊢
    omega

theorem serveReserved_spec (hd : Handler) (r : Inbound) (req : ChatRequest) (requested : Candidate)
    (chain : List Candidate) (consulted : Consulted) {h : History} {v : Vars} (hi : Untouched h v) :
    Spec Sane (hd.serveReserved r req requested chain consulted) Balanced v h := by
  refine (spec_lift_of (reserveTokens_spec r.team req h)).bind ?_
    (by rintro h₁ p v₁ ⟨-,a,hp,-⟩; cases hp)
  rintro h₁ t v₁ ⟨rfl,a,ha,hspend₁,hheld₁⟩
  obtain rfl := Except.ok.inj ha
  have hsp₁ : netSpend h₁ = 0 := hspend₁.trans hi.spend
  cases t with
  | none =>
    exact ⟨fun _ => .inl ⟨hi.cost.ge,hsp₁.trans hi.cost.symm⟩,
      fun hs => (hheld₁ hs).trans (hi.tokens.trans hi.actual.symm),.inl hi.actual⟩
  | some t =>
    obtain ⟨htok₁,hsome₁,hissued₁⟩ := hheld₁
    rw [hi.tokens,zero_add] at htok₁
    -- The deferred settlement of the bucket runs last.
    refine Spec.defer (Q := fun h' _ v' => TokensOpen t h' v') ?_ fun h' x v' hq =>
      (settleTokens_spec hq).mono fun h'' x' v'' hb => by cases x' <;> exact hb _
    refine (spec_lift_of (reserveBudget_spec r.team req h₁)).extends.bind ?_
      (by rintro h₂ p v₂ ⟨-,-,a,hp,-⟩; cases hp)
    rintro h₂ spend v₂ ⟨⟨tr,rfl⟩,rfl,a,ha,htok₂,hheld₂⟩
    obtain rfl := Except.ok.inj ha
    have hissued₂ : ∀ h',∀ s,t = some s → TokensIssued (h₁ ++ tr ++ h') s :=
      fun h' s hs => ((hissued₁ s hs).append tr).append h'
    cases spend with
    | none =>
      refine ⟨fun _ => ?_,htok₂.trans htok₁,fun hs => hsome₁ hs.of_append,?_,?_,.inl hi.actual⟩
      · exact .inl ⟨hi.cost.ge,hheld₂.trans (hsp₁.trans hi.cost.symm)⟩
      · simpa using hissued₂ []
      · rw [hi.actual]
        decide
    | some held =>
      obtain ⟨spend,est⟩ := held
      obtain ⟨hnet₂,hsome₂,hspend₂,hest⟩ := hheld₂
      rw [hsp₁,zero_add] at hnet₂
      have hhold : Holding spend est (h₁ ++ tr) v₂ := by
        refine ⟨hest,fun _ => ?_,fun s hs => ?_,?_,.inl hi.actual⟩
        · rw [hi.cost]
          decide
        · rw [hi.extra,List.mem_singleton] at hs
          exact hspend₂ s hs.symm
        · rw [hi.actual]
          decide
      refine Spec.defer (serve_holding hd r req requested chain consulted v₂ _ hhold).extends ?_
      rintro h₃ x v₃ ⟨⟨tr₃,rfl⟩,hi₃,htok₃,hnet₃⟩
      have hbalance : netSpend (h₁ ++ tr ++ tr₃)-heldExtra v₃.extra = heldSpend spend := by
        rw [hnet₃,hnet₂,hi.extra]
        simp [heldExtra]
      refine (settleSpend_spec hi₃ hbalance fun hs => hsome₂ hs.of_append).extends.mono ?_
      rintro h₄ x' v₄ ⟨⟨tr₄,rfl⟩,rfl,htok₄,hnet₄⟩
      have hdone : TokensOpen t (h₁ ++ tr ++ tr₃ ++ tr₄) v₄ := by
        refine ⟨hnet₄,?_,fun hs => ?_,?_,hi₃.actual,hi₃.delivered.imp id fun hd =>
          hd.append tr₄⟩
        · exact htok₄.trans (htok₃.trans (htok₂.trans htok₁))
        · exact hsome₁ hs.of_append.of_append.of_append
        · simpa using hissued₂ (tr₃ ++ tr₄)
      cases x' <;> exact hdone

def untouched : Contract Op Ans Vars := .keeping Sane Untouched

theorem untouched_step (hs : op.kind ≠ .spend) (ht : op.kind ≠ .tokens) : untouched.Step op := by
  intro h v hi
  refine ⟨sane_of_kind hs ht h,fun ans => ⟨⟨?_,?_,hi.cost,hi.actual,hi.extra⟩,trivial⟩⟩
  · simp [spendChange_of_kind hs,hi.spend]
  · simp [tokenChange_of_kind ht,hi.tokens]

theorem untouched_metrics (f : Metrics → Metrics) (hf : ∀ m,(f m).costMicros = m.costMicros)
    (h : History) (v : Vars) (hi : Untouched h v) : Untouched h { v with metrics := f v.metrics } :=
  ⟨hi.spend,hi.tokens,(hf _).trans hi.cost,hi.actual,hi.extra⟩

theorem chatCompletions_balanced (hd : Handler) (r : Inbound) :
    Spec Sane (hd.chatCompletions r) Balanced .zero [] := by
  have hstep : ∀ op,op.kind ≠ .spend → op.kind ≠ .tokens → untouched.Step op :=
    fun op => untouched_step
  refine chatCompletions_leads (C := untouched)
    (fun op hop => hstep op (by simp [hop]) (by simp [hop]))
    (fun c team req =>
      consultCache_calls (fun op hop => hstep op (by simp [hop]) (by simp [hop])) c team req)
    untouched_metrics (fun h x v hi => hi.balanced x) ?_ ?_ .zero [] ⟨rfl,rfl,rfl,rfl,rfl⟩
  · intro req c consulted e _ _ v h hi _ _
    refine (serveHit_honours (fun op hop => hstep op (by simp [hop]) (by simp [hop]))
      (fun f hf => honours_modify fun h v hi => ⟨untouched_metrics f hf h v hi,trivial⟩)
      (fun op hop => hstep op (by simp [hop.kind]) (by simp [hop.kind])) req.stream r v h hi).mono
        ?_
    exact fun h' x v' hq => hq.1.balanced x
  · intro req requested chain consulted v h hi _ _ _ _
    exact serveReserved_spec hd r req requested chain consulted hi

end Switchyard.Proxy
