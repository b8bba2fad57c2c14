import Mathlib.Data.List.Induction
import Switchyard.RequestAccounts
set_option autoImplicit false

/-!
What a request holds on its team's budget during the walk of its chain. A
candidate above the base estimate is admitted with a top-up for the difference to
the base, whatever earlier candidates have already topped up.
-/

namespace CallTree

variable {Op : Type} {Ans : Op → Type} {α : Type}

def Prog.next : Prog Op Ans α → Option Op
  | .ret _ => none
  | .call op _ => some op

theorem Prog.Spec.next {G : List (Event Op Ans) → Op → Prop} {Q : List (Event Op Ans) → α → Prop}
    {h : List (Event Op Ans)} {p : Prog Op Ans α} {op : Op} (hp : p.Spec G Q h)
    (hop : p.next = some op) : G h op := by
  cases p with
  | ret a => cases hop
  | call op' k =>
    obtain rfl := Option.some.inj hop
    exact hp.1

end CallTree

namespace Switchyard.Proxy
open Budget MachineInt CallTree Act Provider Resilience

/-- What a walk's calls tell of its admissions: the estimate above the base that
waits for its top-up, and the estimates admitted, the latest first. -/
structure Heard where
  considered : Option Int
  admitted : List Int
  deriving DecidableEq, Repr

def Heard.note (base : Int) (s : Heard) : Event Op Ans → Heard
  | ⟨.cost _ _ _,.ok e⟩ => if e ≤ base then ⟨none,e :: s.admitted⟩ else ⟨some e,s.admitted⟩
  | ⟨.reserveSpend _ _ _,.ok (_,res)⟩ =>
    if res.allowed then ⟨none,s.considered.toList ++ s.admitted⟩ else ⟨none,s.admitted⟩
  | ⟨.reserveSpend _ _ _,.error _⟩ => ⟨none,s.admitted⟩
  | _ => s

def heard (base : Int) (a : History) : Heard := a.foldl (Heard.note base) ⟨none,[]⟩

/-- What the admitted estimates have topped up: each its difference to the base. -/
def topUps (base : Int) (admitted : List Int) : Int :=
  (admitted.map fun e => max 0 (e-base)).sum

def highest (base : Int) (admitted : List Int) : Int := admitted.foldr max base

/-- The answers of the price table and the tracker, on whatever key the call
finds; Redis may also fail. -/
def BudgetAnswered : Event Op Ans → Prop
  | ⟨.cost m i o,ans⟩ => ∃ c : Calculator,ans = c.cost m i o
  | ⟨.reserveSpend team cap est,ans⟩ => (∃ e,ans = .error e) ∨
      ∃ key now,InRange (spent key) ∧
        (reserve key team now cap est).1 = ans
  | _ => True

def refused : Except String (Option Reservation × Result) → Bool
  | .ok (_,res) => !res.allowed
  | .error _ => false

section Sums

variable {base : Int}

theorem topUps_cons (e : Int) (es : List Int) :
    topUps base (e :: es) = max 0 (e-base)+topUps base es := by simp [topUps]

theorem highest_cons (e : Int) (es : List Int) :
    highest base (e :: es) = max e (highest base es) := rfl

theorem highest_bounds (base : Int) (es : List Int) :
    base ≤ highest base es ∧ highest base es ≤ base+topUps base es := by
  induction es with
  | nil => simp [highest,topUps]
  | cons e es ih =>
    rw [highest_cons,topUps_cons]
    omega

theorem topUps_eq_zero_iff {es : List Int} : topUps base es = 0 ↔ ∀ e ∈ es,e ≤ base := by
  induction es with
  | nil => simp [topUps]
  | cons e es ih =>
    have hbounds := highest_bounds base es
    rw [topUps_cons,List.forall_mem_cons,← ih]
    omega

/-- The base and the differences are the highest estimate exactly if at most one
estimate is above the base. -/
theorem add_topUps_eq_highest_iff {es : List Int} :
    base+topUps base es = highest base es ↔ (es.filter (base < ·)).length ≤ 1 := by
  induction es with
  | nil => simp [topUps,highest]
  | cons e es ih =>
    have hbounds := highest_bounds base es
    have hnone : topUps base es = 0 ↔ (es.filter (base < ·)).length = 0 := by
      rw [topUps_eq_zero_iff,List.length_eq_zero_iff,List.filter_eq_nil_iff]
      simp
    rw [topUps_cons,highest_cons,List.filter_cons]
    by_cases he : base < e
    · simp only [he,decide_true,if_true,List.length_cons]
      omega
    · simp only [he,decide_false,Bool.false_eq_true,if_false]
      omega

end Sums

section Amounts

variable {cb : ChainBudget} {a : History} {team : String} {cap d : Int}

@[simp] theorem heard_snoc (base : Int) (a : History) (e : Event Op Ans) :
    heard base (a ++ [e]) = (heard base a).note base e := by
  simp [heard]

/-- The base is a price that was reserved, so it is not negative. -/
def ChainBudget.Based (cb : ChainBudget) : Prop :=
  0 ≤ cb.baseMicros ∧ cb.baseMicros ≤ maxCost

/-- A walk reserves only the difference of an estimate it has just been quoted,
under its team's cap, and settles nothing. -/
def TopsUp (cb : ChainBudget) (h : History) : Op → Prop
  | .reserveSpend team cap d => ∃ h' m i o e,h = h' ++ [⟨.cost m i o,.ok e⟩] ∧
      d = sub e cb.baseMicros ∧ 0 < d ∧ team = cb.team.id ∧
      cap = cb.team.monthlyBudgetMicros
  | .reconcileSpend _ _ => False
  | _ => True

def toppingUp (cb : ChainBudget) : Contract Op Ans Vars :=
  .onHistory Vars (TopsUp cb) fun _ => True

theorem toppingUp_step {op : Op} (hop : op.kind ≠ .spend) : (toppingUp cb).Step op :=
  onHistory_step fun h _ => ⟨by cases op <;> simp_all [Op.kind,TopsUp],fun _ => trivial⟩

theorem sub_base {m : String} {i o e : Int} (hbase : cb.Based)
    (hans : BudgetAnswered ⟨.cost m i o,.ok e⟩) :
    sub e cb.baseMicros = e-cb.baseMicros ∧ e-cb.baseMicros ≤ maxCost := by
  obtain ⟨c,hcost⟩ := hans
  have hprice := Calculator.cost_bound hcost.symm
  obtain ⟨hlow,hhigh⟩ := hbase
  unfold maxCost at hprice hhigh ⊢
  exact ⟨sub_eq ⟨by omega,by omega⟩,by omega⟩

theorem TopsUp.difference (h : TopsUp cb a (.reserveSpend team cap d)) (hbase : cb.Based)
    (hans : ∀ e ∈ a,BudgetAnswered e) :
    ∃ e,(heard cb.baseMicros a).considered = some e ∧ cb.baseMicros < e ∧ d = e-cb.baseMicros ∧
      d ≤ maxCost ∧ team = cb.team.id ∧ cap = cb.team.monthlyBudgetMicros := by
  obtain ⟨h',m,i,o,e,rfl,hd,hpos,hteam,hcap⟩ := h
  obtain ⟨hexact,hmost⟩ := sub_base hbase (hans ⟨.cost m i o,.ok e⟩ (by simp))
  rw [hexact] at hd
  have hover : ¬e ≤ cb.baseMicros := by omega
  exact ⟨e,by simp [Heard.note,hover],by omega,hd,by omega,hteam,hcap⟩

theorem estimateFor_heard {model : String} {tr : History} {r : Except String Int} (h : History)
    (hret : (cb.estimateFor model).Returns tr r) :
    heard cb.baseMicros (h ++ tr) = match r with
      | .error _ => heard cb.baseMicros h
      | .ok e => if e ≤ cb.baseMicros then ⟨none,e :: (heard cb.baseMicros h).admitted⟩
          else ⟨some e,(heard cb.baseMicros h).admitted⟩ := by
  obtain ⟨limit,tr₂,rfl,hrest⟩ := returns_perform_bind.1 hret
  rw [← List.append_assoc]
  cases limit with
  | none =>
    obtain ⟨rfl,rfl⟩ := returns_ret.1 hrest
    rw [List.append_nil,heard_snoc]
    rfl
  | some limit =>
    obtain rfl := returns_perform.1 hrest
    rw [heard_snoc,heard_snoc]
    cases r <;> rfl

theorem heard_reserve {base e : Int} {es : List Int} {h : History}
    (hheard : heard base h = ⟨some e,es⟩) (ans : Except String (Option Reservation × Result)) :
    (heard base (h ++ [⟨.reserveSpend team cap d,ans⟩])).admitted = match ans with
      | .ok (_,res) => if res.allowed then e :: es else es
      | .error _ => es := by
  rw [heard_snoc,hheard]
  cases ans with
  | error e => rfl
  | ok answer =>
    obtain ⟨r,res⟩ := answer
    cases hallowed : res.allowed <;> simp [Heard.note,hallowed]

def ChainBudget.joins (cb : ChainBudget) (model : String) :
    Except String (Except Failure Int) → List Int
  | .ok (.ok delta) => if model = cb.req.model then [] else [cb.baseMicros+delta]
  | _ => []

theorem admitCandidate_spec (hbase : cb.Based) (model : String) (v : Vars) (h : History) :
    Spec (TopsUp cb) (cb.admitCandidate model) (fun h' r _ =>
      (∀ e ∈ h',BudgetAnswered e) → (heard cb.baseMicros h').admitted =
        cb.joins model r ++ (heard cb.baseMicros h).admitted) v h := by
  unfold ChainBudget.admitCandidate
  split
  · rename_i hmodel
    exact fun _ => by simp [ChainBudget.joins,hmodel]
  rename_i hmodel
  have hplain : ∀ op : Op,op.kind = .plain → (toppingUp cb).Step op :=
    fun op hop => toppingUp_step (by simp [hop])
  refine (spec_lift_of_calls (estimateFor_calls (hplain _ rfl) (fun _ _ => hplain _ rfl) _)
    trivial).bind ?_ ?_
  · rintro h₁ est v₁ ⟨rfl,-,tr,a,rfl,hr,hret⟩
    obtain rfl := Except.ok.inj hr
    have hheard := estimateFor_heard h hret
    cases est with
    | error e => exact fun _ => congrArg Heard.admitted hheard
    | ok est =>
      simp only [] at hheard ⊢
      obtain ⟨tr',i,o,htr⟩ := estimateFor_returns hret
      have hsub : (∀ e ∈ h ++ tr,BudgetAnswered e) →
          sub est cb.baseMicros = est-cb.baseMicros :=
        fun hans => (sub_base hbase (hans ⟨.cost model i o,.ok est⟩ (by simp [htr]))).1
      have hjoins : (∀ e ∈ h ++ tr,BudgetAnswered e) →
          cb.joins model (.ok (.ok (sub est cb.baseMicros))) = [est] := by
        intro hans
        simp [ChainBudget.joins,hmodel,hsub hans]
      split
      · rename_i hdelta
        intro hans
        have hle : est ≤ cb.baseMicros := by
          have := hsub hans
          omega
        rw [hjoins hans,hheard,if_pos hle]
        rfl
      rename_i hdelta
      refine spec_call_bind.2 ⟨⟨h ++ tr',model,i,o,est,by simp [htr],rfl,by omega,rfl,rfl⟩,
        fun ans => ?_⟩
      have hconsidered : (∀ e ∈ h ++ tr,BudgetAnswered e) →
          heard cb.baseMicros (h ++ tr) = ⟨some est,(heard cb.baseMicros h).admitted⟩ := by
        intro hans
        have := hsub hans
        rw [hheard,if_neg (by omega)]
      have hbefore : (∀ e ∈ h ++ tr ++ [⟨.reserveSpend cb.team.id cb.team.monthlyBudgetMicros
          (sub est cb.baseMicros),ans⟩],BudgetAnswered e) →
          ∀ e ∈ h ++ tr,BudgetAnswered e := fun hans e he => hans e (List.mem_append_left _ he)
      cases ans with
      | error e => exact fun hans => heard_reserve (hconsidered (hbefore hans)) _
      | ok answer =>
        obtain ⟨r,res⟩ := answer
        cases hallowed : res.allowed with
        | false =>
          simp only [hallowed,Bool.not_false,if_true]
          intro hans
          rw [heard_reserve (hconsidered (hbefore hans))]
          simp only [hallowed]
          rfl
        | true =>
          simp only [hallowed,Bool.not_true,Bool.false_eq_true,if_false]
          intro hans
          rw [heard_reserve (hconsidered (hbefore hans)),hjoins (hbefore hans)]
          simp only [hallowed]
          rfl
  · rintro h₁ p v₁ ⟨rfl,-,tr,a,rfl,hr,-⟩
    cases hr

theorem reserveSpend_answered {ans : Except String (Option Reservation × Result)}
    (hans : BudgetAnswered ⟨.reserveSpend team cap d,ans⟩) (hd : d < 2^53) :
    (∃ s res,ans = .ok (some s,res) ∧ res.allowed = true ∧ s.reserved = d) ∨
      (∃ r res,ans = .ok (r,res) ∧ res.allowed = false) ∨ ∃ e,ans = .error e := by
  obtain herror | ⟨key,now,hk,rfl⟩ := hans
  · exact .inr (.inr herror)
  obtain ⟨e,heq,-⟩ | ⟨heq,-⟩ | ⟨heq,-⟩ := reserve_cases team now cap hd hk
  · exact .inr (.inr ⟨e,by rw [heq]⟩)
  · exact .inl ⟨_,_,by rw [heq],rfl,rfl⟩
  · exact .inr (.inl ⟨_,_,by rw [heq],rfl⟩)

/-- At every point of a walk its top-ups are those of the admitted estimates. -/
theorem netSpend_eq_topUps (hbase : cb.Based)
    (hmade : ∀ x e y,a = x ++ e :: y → TopsUp cb x e.op) (hans : ∀ e ∈ a,BudgetAnswered e) :
    netSpend a = topUps cb.baseMicros (heard cb.baseMicros a).admitted := by
  induction a using List.reverseRecOn with
  | nil => rfl
  | append_singleton a e ih =>
    have hbefore : ∀ e ∈ a,BudgetAnswered e := fun x hx => hans x (by simp [hx])
    have hih := ih (fun x e' y hsplit => hmade x e' (y ++ [e]) (by simp [hsplit])) hbefore
    have hlast := hmade a e [] rfl
    have hanswer := hans e (by simp)
    rw [netSpend_append,hih,heard_snoc,netSpend_cons,netSpend_nil,add_zero]
    obtain ⟨op,ans⟩ := e
    cases op with
    | cost m i o =>
      cases ans with
      | error e => simp [spendChange,Heard.note]
      | ok e =>
        by_cases hle : e ≤ cb.baseMicros
        · simp [spendChange,Heard.note,hle,topUps_cons]
        · simp [spendChange,Heard.note,hle]
    | reserveSpend team cap d =>
      obtain ⟨e,hconsidered,hover,hd,hmost,-⟩ := TopsUp.difference hlast hbase hbefore
      unfold maxCost at hmost
      obtain ⟨s,res,rfl,hallowed,hs⟩ | ⟨r,res,rfl,hdenied⟩ | ⟨e',rfl⟩ :=
        reserveSpend_answered hanswer (by omega)
      · simp only [spendChange,Heard.note,hallowed,if_true,hconsidered,Option.toList_some,
          List.singleton_append,topUps_cons,heldSpend,hs]
        omega
      · simp [spendChange,Heard.note,hdenied]
      · simp [spendChange,Heard.note]
    | reconcileSpend r actual => exact hlast.elim
    | _ => exact add_zero _

theorem lt_of_refused {key : Option Counter} {now : Now} (hk : InRange (spent key)) (hd : d < 2^53)
    (h : refused (reserve key team now cap d).1 = true) : cap < spent key+d := by
  obtain ⟨e,heq,-⟩ | ⟨heq,-⟩ | ⟨heq,hcap,-,hround⟩ := reserve_cases team now cap hd hk
  · simp [heq,refused] at h
  · simp [heq,refused] at h
  · exact lt_of_round_lt hcap hround

theorem refused_of_lt {key : Option Counter} (now : Now) (hcap : 0 < cap)
    (hpos : 0 ≤ d) (hspent : 0 ≤ spent key) (hsmall : spent key+d < 2^53)
    (h : cap < spent key+d) : refused (reserve key team now cap d).1 = true := by
  have hk : InRange (spent key) := ⟨by omega,by omega⟩
  obtain ⟨e,-,hbad⟩ | ⟨-,-,-,-,hround⟩ | ⟨heq,-⟩ :=
    reserve_cases team now cap (by omega : d < 2^53) hk
  · have hin : InRange (spent key+d) := ⟨by omega,by omega⟩
    obtain hbad | hbad | hbad := hbad
    · omega
    · omega
    · exact absurd hin hbad
  · have hfits := (round_le_round_iff hcap (by omega) hsmall).1 hround
    omega
  · rw [heq]
    rfl

end Amounts

/-- Where the walk of a chain can be, streaming or not: the calls made so far and
the next one, if it has not returned. -/
inductive WalkPoint (hd : Handler) (cb : ChainBudget) (req : Request) (chain : List Candidate)
    (v : Vars) : History → Option Op → Prop where
  | complete {a : History} {q : Prog Op Ans _} :
      (hd.runChain cb (completeAttempt req) true 0 [] chain v).After a q →
      WalkPoint hd cb req chain v a q.next
  | stream {a : History} {q : Prog Op Ans _} :
      (hd.runChain cb (streamAttempt req) true 0 [] chain v).After a q →
      WalkPoint hd cb req chain v a q.next

section Walk

variable {hd : Handler} {cb : ChainBudget} {req : Request} {chain : List Candidate} {v : Vars}
  {a : History} {next : Option Op}

theorem after_topsUp {α : Type} (hbase : cb.Based)
    {attempt : Adapter → Candidate → Action (Except Fault α)}
    (hattempt : ∀ cand ∈ chain,∀ prov,Honours (toppingUp cb) (attempt prov cand))
    {q : Prog Op Ans _} (hrun : (hd.runChain cb attempt true 0 [] chain v).After a q) :
    (∀ x e y,a = x ++ e :: y → TopsUp cb x e.op) ∧ ∀ op,q.next = some op → TopsUp cb a op := by
  have hwalk : ∀ op,WalkOp chain op → (toppingUp cb).Step op :=
    fun op hop => toppingUp_step (by simp [hop.plain])
  have hentry : ∀ cand ∈ chain,Honours (toppingUp cb) (cb.admitCandidate cand.model) :=
    fun cand _ v h _ => (admitCandidate_spec hbase cand.model v h).mono
      fun _ _ _ _ => ⟨trivial,trivial⟩
  have hspec := runChain_honours hwalk hentry hattempt hd true 0 [] v [] trivial
  obtain ⟨hrest,hmade⟩ := Prog.Spec.after hspec hrun
  exact ⟨hmade,fun op hop => hrest.next hop⟩

theorem WalkPoint.topsUp (h : WalkPoint hd cb req chain v a next) (hbase : cb.Based) :
    (∀ x e y,a = x ++ e :: y → TopsUp cb x e.op) ∧ ∀ op,next = some op → TopsUp cb a op := by
  have hown : ∀ {cand : Candidate} (op : Op),AttemptOp cand op → (toppingUp cb).Step op :=
    fun op hop => toppingUp_step (by simp [hop.plain])
  have hupstream : ∀ op : Op,op.kind = .upstream → (toppingUp cb).Step op :=
    fun op hop => toppingUp_step (by simp [hop])
  cases h with
  | complete hrun =>
    exact after_topsUp hbase
      (fun _ _ _ => completeAttempt_keeps hown (fun _ => hupstream _ rfl) req) hrun
  | stream hrun =>
    exact after_topsUp hbase
      (fun _ _ _ => streamAttempt_keeps hown (fun _ => hupstream _ rfl) req) hrun

end Walk

/-- At every point of a walk over a chain, whatever the tracker and the price
table answer. The request holds the base and, for each admitted estimate, its
difference to the base. That is the highest of them exactly if at most one is
above the base. A candidate that is about to be topped up is refused only if what
the others hold, all earlier top-ups and its whole estimate exceed the cap; that
is the law of the highest estimate if no earlier one was above the base, and
otherwise a candidate that fits by that law can be refused. -/
theorem held_is_highest_iff (hd : Handler) (cb : ChainBudget) (req : Request)
    (chain : List Candidate) (v : Vars) {a : History} {next : Option Op} (hbase : cb.Based)
    (hpoint : WalkPoint hd cb req chain v a next) (hans : ∀ e ∈ a,BudgetAnswered e) :
    let base := cb.baseMicros
    let es := (heard base a).admitted
    base+netSpend a = base+topUps base es ∧
    (base+netSpend a = highest base es ↔ (es.filter (base < ·)).length ≤ 1) ∧
    ∀ team cap d,next = some (.reserveSpend team cap d) → ∃ e,
      (heard base a).considered = some e ∧ base < e ∧ d = e-base ∧
      team = cb.team.id ∧ cap = cb.team.monthlyBudgetMicros ∧
      (∀ key now others,InRange (spent key) →
        spent key = others+(base+netSpend a) →
        refused (reserve key team now cap d).1 = true →
        cap < others+(netSpend a+e) ∧
        ((∀ x ∈ es,x ≤ base) → cap < others+highest base (e :: es))) ∧
      ((∃ x ∈ es,base < x) → highest base (e :: es) ≤ cap → cap+netSpend a+e < 2^53 → ∀ now,
        ∃ key others,0 ≤ others ∧ spent key = others+(base+netSpend a) ∧
          refused (reserve key team now cap d).1 = true ∧
          others+highest base (e :: es) ≤ cap) := by
  intro base es
  obtain ⟨hmade,hnext⟩ := hpoint.topsUp hbase
  have hheld : netSpend a = topUps base es := netSpend_eq_topUps hbase hmade hans
  rw [hheld]
  have hbounds := highest_bounds base es
  refine ⟨rfl,add_topUps_eq_highest_iff,fun team cap d hop => ?_⟩
  obtain ⟨e,hconsidered,hover,hdiff,hmost,hteam,hcap⟩ := TopsUp.difference (hnext _ hop) hbase hans
  unfold maxCost at hmost
  refine ⟨e,hconsidered,hover,hdiff,hteam,hcap,fun key now others hk hspent hrefused => ?_,
    fun hearlier hfits hsmall now => ?_⟩
  · have hexceeds := lt_of_refused hk (by omega) hrefused
    refine ⟨by omega,fun hnone => ?_⟩
    have hzero := topUps_eq_zero_iff.2 hnone
    rw [highest_cons]
    omega
  · have hbase0 : 0 ≤ base := hbase.1
    have hsome : topUps base es ≠ 0 := by
      intro hzero
      obtain ⟨x,hx,hlt⟩ := hearlier
      exact absurd (topUps_eq_zero_iff.1 hzero x hx) (not_le.2 hlt)
    rw [highest_cons] at hfits ⊢
    obtain ⟨key,hkey⟩ : ∃ key,spent key =
        cap-max e (highest base es)+(base+topUps base es) := ⟨some ⟨_,none⟩,rfl⟩
    exact ⟨key,cap-max e (highest base es),by omega,hkey,
      refused_of_lt now (by omega) (by omega) (by omega) (by omega) (by omega),by omega⟩

/-! Two candidates in a row that cost twice the base. -/

def thirdModel : Candidate := ⟨"p3","m3"⟩

theorem patientHandler_attempts : 0 < 1 ∧ (0 : Int) < 1 ∧ 1 ≤ 3 := by decide

def patientHandler : Handler :=
  ⟨.of patientHandler_attempts,false,false,none,none,fun _ => ""⟩

def hundredBase (cap : Int) : ChainBudget :=
  ⟨{ memberTeam with monthlyBudgetMicros := cap },⟨"m1",[⟨"user","hi"⟩],none,0,false,[]⟩,100⟩

def failedAttempt (c : Candidate) : History :=
  [⟨.forModel c.model,.ok (adapterFor c)⟩,⟨.chaos c,.nothing⟩,
    ⟨.complete (adapterFor c) { (hundredBase 0).req.toProviderRequest with model := c.model },
      .failed (unavailable c)⟩,
    ⟨.recordHealth c.provider (some (unavailable c)),()⟩]

def quoted (c : Candidate) : History :=
  [⟨.ctxErr,false⟩,⟨.defaultMaxTokensFor c.model,some 100⟩,
    ⟨.cost c.model (hundredBase 0).req.estimateInputTokens 100,.ok 200⟩]

def granted (cap total : Int) : History :=
  [⟨.reserveSpend "t" cap 100,.ok (some ⟨"t","2026-01",100⟩,⟨true,total⟩)⟩]

def firstFallback (cap : Int) : History :=
  failedAttempt cheapModel ++ quoted dearModel ++ granted cap 200

def secondFallback (cap : Int) : History :=
  firstFallback cap ++ failedAttempt dearModel ++ quoted thirdModel

theorem failedAttempt_answered (c : Candidate) : ∀ e ∈ failedAttempt c,BudgetAnswered e := by
  simp [failedAttempt,BudgetAnswered]

theorem quoted_answered (c : Candidate) : ∀ e ∈ quoted c,BudgetAnswered e := by
  have hprice : Pricing.cost ⟨0,2000000⟩ (hundredBase 0).req.estimateInputTokens 100 =
      200 := by decide +kernel
  simp only [quoted,List.forall_mem_cons,List.not_mem_nil,false_implies,implies_true,and_true]
  refine ⟨trivial,trivial,⟨fun _ => some ⟨0,2000000⟩⟩,?_⟩
  simp [Calculator.cost,hprice]

theorem granted_answered {cap total : Int} (key : Option Counter)
    (hk : InRange (spent key))
    (h : (reserve key "t" ⟨"2026-01",100⟩ cap 100).1.toOption =
      some (some ⟨"t","2026-01",100⟩,⟨true,total⟩)) : ∀ e ∈ granted cap total,BudgetAnswered e := by
  simp only [granted,List.mem_singleton,forall_eq]
  refine .inr ⟨key,⟨"2026-01",100⟩,hk,?_⟩
  cases hreserve : (reserve key "t" ⟨"2026-01",100⟩ cap 100).1 with
  | error e => simp [hreserve,Except.toOption] at h
  | ok answer => simpa [hreserve,Except.toOption] using h

/-- The second top-up is taken on top of the first: the request holds 300 for
estimates of 200, and under a cap of 200, which nobody else has touched, the third
model is refused. -/
theorem second_top_up_exceeds_highest :
    (∃ a next,WalkPoint patientHandler (hundredBase 1000) (hundredBase 0).req.toProviderRequest
        [cheapModel,dearModel,thirdModel] .zero a next ∧ (∀ e ∈ a,BudgetAnswered e) ∧
      (heard 100 a).admitted = [200,200] ∧ 100+netSpend a = 300 ∧ highest 100 [200,200] = 200) ∧
    ∃ a key now,WalkPoint patientHandler (hundredBase 200) (hundredBase 0).req.toProviderRequest
        [cheapModel,dearModel,thirdModel] .zero a (some (.reserveSpend "t" 200 100)) ∧
      (∀ e ∈ a,BudgetAnswered e) ∧ heard 100 a = ⟨some 200,[200]⟩ ∧
      spent key = 0+(100+netSpend a) ∧
      refused (reserve key "t" now 200 100).1 = true ∧ 0+highest 100 [200,200] ≤ 200 := by
  have hgranted : ∀ cap ∈ [200,1000],∀ e ∈ secondFallback cap,BudgetAnswered e := by
    intro cap hcap
    have hfirst : ∀ e ∈ granted cap 200,BudgetAnswered e := by
      refine granted_answered (some ⟨100,none⟩) (by decide) ?_
      obtain rfl | rfl := List.mem_pair.1 hcap <;> decide +kernel
    simp only [secondFallback,firstFallback,List.forall_mem_append]
    exact ⟨⟨⟨⟨failedAttempt_answered _,quoted_answered _⟩,hfirst⟩,failedAttempt_answered _⟩,
      quoted_answered _⟩
  have hboth : ∀ e ∈ secondFallback 1000 ++ granted 1000 300,BudgetAnswered e := by
    rw [List.forall_mem_append]
    exact ⟨hgranted 1000 (by simp),
      granted_answered (some ⟨200,none⟩) (by decide) (by decide +kernel)⟩
  have hadmitted : WalkPoint patientHandler (hundredBase 1000)
      (hundredBase 0).req.toProviderRequest [cheapModel,dearModel,thirdModel] .zero
      (secondFallback 1000 ++ granted 1000 300) (some (.forModel "m3")) :=
    .complete (q := .call (.forModel "m3") _)
      (.next (.next (.next (.next (.next (.next (.next (.next
      (.next (.next (.next (.next (.next (.next (.next (.next (.start _)))))))))))))))))
  have hasks : WalkPoint patientHandler (hundredBase 200)
      (hundredBase 0).req.toProviderRequest [cheapModel,dearModel,thirdModel] .zero
      (secondFallback 200) (some (.reserveSpend "t" 200 100)) :=
    .complete (q := .call (.reserveSpend "t" 200 100) _) (.next (.next (.next (.next (.next (.next
      (.next (.next (.next (.next (.next (.next (.next (.next (.next (.start _))))))))))))))))
  exact ⟨⟨_,_,hadmitted,hboth,rfl,by decide +kernel,by decide⟩,_,some ⟨200,none⟩,⟨"2026-01",100⟩,
    hasks,hgranted 200 (by simp),rfl,by decide +kernel,by decide +kernel,by decide⟩

/-- One costlier fallback: the request holds what it costs. -/
theorem held_is_highest_once :
    100+netSpend (firstFallback 1000) = highest 100 (heard 100 (firstFallback 1000)).admitted := by
  have hpoint : WalkPoint patientHandler (hundredBase 1000) (hundredBase 0).req.toProviderRequest
      [cheapModel,dearModel,thirdModel] .zero (firstFallback 1000) (some (.forModel "m2")) :=
    .complete (q := .call (.forModel "m2") _)
      (.next (.next (.next (.next (.next (.next (.next (.next (.start _)))))))))
  have hans : ∀ e ∈ firstFallback 1000,BudgetAnswered e := by
    simp only [firstFallback,List.forall_mem_append]
    exact ⟨⟨failedAttempt_answered _,quoted_answered _⟩,
      granted_answered (some ⟨100,none⟩) (by decide) (by decide +kernel)⟩
  have hiff := (held_is_highest_iff patientHandler (hundredBase 1000)
    (hundredBase 0).req.toProviderRequest [cheapModel,dearModel,thirdModel] .zero
    ⟨by decide,by decide⟩ hpoint hans).2.1
  exact hiff.2 (by decide +kernel)

end Switchyard.Proxy
