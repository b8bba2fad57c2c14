import Switchyard.BucketExpiry
import Switchyard.Climb
set_option autoImplicit false

/-!
The refill of one bucket under a Redis clock that may step backwards. A script
that sees the clock behind the bucket's timestamp adds nothing, but it writes the
earlier timestamp, so what lies between the two is refilled once more when the
clock has caught up.
-/

namespace Switchyard.RateLimit
open Proxy StepRuns LazyRefill Climb

section

variable (l : Limiter) (team : String) (kind : LimitType) (cap : Int)

def Limiter.runsScript (c : Call) : Bool :=
  match c.request with
  | .consume amount ttl => (l.consumeArgs cap amount ttl).isOk
  | .reserve amount ttl => (l.consumeArgs cap amount ttl).isOk
  | .reconcile r actual => (Limiter.reconcileDelta r actual).toOption.join.isSome

/-- What the script adds to the tokens it finds for the time that has passed. -/
def Limiter.credit (found : Option Bucket) (c : Call) : ℚ :=
  if l.runsScript cap c then
    match found with
    | none => 0
    | some b => l.balance (some b) c.clock cap-b.tokens
  else 0

def Store.credits (s : Store) (calls : List Call) : List ℚ :=
  (replies (fun s c => (l.credit cap s.bucket c,(s.serve l team kind cap true c).2)) s calls).1

def Limiter.readings (calls : List Call) : List Clock :=
  (calls.filter (l.runsScript cap)).map Call.clock

def Issued (s : Store) (c : Call) : Prop := ∀ r ∈ c.request.handle.toList,r ∈ s.issued

instance (s : Store) (c : Call) : Decidable (Issued s c) :=
  inferInstanceAs (Decidable (∀ r ∈ c.request.handle.toList,r ∈ s.issued))

end

variable {p : Int → String} {team : String} {kind : LimitType} {cap : Int} {s t : Store} {c : Call}

/-- A script writes the bucket with the clock it read. -/
inductive Scripted (l : Limiter) (cap : Int) (found : Option Bucket) (c : Call) :
    Option Bucket → Prop where
  | idle : l.runsScript cap c = false → Scripted l cap found c found
  | wrote {tokens : ℚ} {ttl : Int} : l.runsScript cap c = true → tokens ≤ cap →
      Scripted l cap found c (some (l.saved tokens c.clock ttl))

theorem consume_scripted {found : Option Bucket} (hfound : ∀ b ∈ found,b.tokens ≤ cap)
    {amount ttl : Int} (hruns : (Limiter.exact p).runsScript cap c =
      ((Limiter.exact p).consumeArgs cap amount ttl).isOk) :
    Scripted (.exact p) cap found c ((Limiter.exact p).consume found c.clock cap amount ttl).2 := by
  have hle : (Limiter.exact p).balance found c.clock cap ≤ cap := balance_le hfound
  unfold Limiter.consume
  cases hargs : (Limiter.exact p).consumeArgs cap amount ttl with
  | error e => exact .idle (by rw [hruns,hargs]; rfl)
  | ok _ =>
    have hruns : (Limiter.exact p).runsScript cap c = true := by rw [hruns,hargs]; rfl
    have hamount : (0 : ℚ) < amount := by
      unfold Limiter.consumeArgs at hargs
      by_contra hneg
      have hneg : amount ≤ 0 := by exact_mod_cast not_lt.1 hneg
      by_cases hcap : cap ≤ 0 <;> simp [hcap,hneg] at hargs
    simp only [Limiter.consumeScript]
    split
    · exact .wrote hruns ((sub_le_self _ hamount.le).trans hle)
    · exact .wrote hruns hle

theorem answer_scripted {found : Option Bucket} (hfound : ∀ b ∈ found,b.tokens ≤ cap)
    (hhandle : ∀ r ∈ c.request.handle.toList,r.capacity = cap) :
    Scripted (.exact p) cap found c ((Limiter.exact p).answer team kind cap found c).2 := by
  obtain ⟨clock,request⟩ := c
  cases request with
  | consume amount ttl => exact consume_scripted hfound rfl
  | reserve amount ttl =>
    have hconsume : Scripted (.exact p) cap found ⟨clock,.reserve amount ttl⟩
        ((Limiter.exact p).consume found clock cap amount ttl).2 := consume_scripted hfound rfl
    simp only [Limiter.answer,Limiter.reserve]
    generalize (Limiter.exact p).consume found clock cap amount ttl = out at hconsume ⊢
    obtain ⟨outcome,after⟩ := out
    cases outcome with
    | error e => exact hconsume
    | ok res => cases hres : res.allowed <;> simpa [hres] using hconsume
  | reconcile r actual =>
    cases r with
    | none => exact .idle rfl
    | some r =>
      obtain rfl := hhandle r (by simp [Request.handle])
      simp only [Limiter.answer,Limiter.reconcile]
      cases hdelta : Limiter.reconcileDelta (some r) actual with
      | error e => exact .idle (by simp [Limiter.runsScript,hdelta,Except.toOption])
      | ok delta =>
        cases delta with
        | none => exact .idle (by simp [Limiter.runsScript,hdelta,Except.toOption])
        | some delta =>
          exact .wrote (by simp [Limiter.runsScript,hdelta,Except.toOption]) (min_le_left _ _)

structure Store.Capped (cap : Int) (s : Store) : Prop where
  tokens : ∀ b ∈ s.bucket,b.tokens ≤ cap
  issued : ∀ r ∈ s.issued,r.capacity = cap

theorem start_capped (cap : Int) : Store.start.Capped cap :=
  ⟨by simp [Store.start],by simp [Store.start]⟩

theorem serve_scripted (hs : s.Capped cap) (hc : Issued s c) :
    Scripted (.exact p) cap s.bucket c
      (s.serve (.exact p) team kind cap true c).2.bucket :=
  answer_scripted hs.tokens fun r hr => hs.issued r (hc r hr)

theorem Store.Capped.serve (hs : s.Capped cap) (hc : Issued s c) :
    (s.serve (.exact p) team kind cap true c).2.Capped cap := by
  constructor
  · have hscripted : Scripted (.exact p) cap s.bucket c
        (s.serve (.exact p) team kind cap true c).2.bucket := serve_scripted hs hc
    generalize (s.serve (.exact p) team kind cap true c).2.bucket = after at hscripted ⊢
    cases hscripted with
    | idle _ => exact hs.tokens
    | wrote _ hle =>
      intro b hb
      cases hb
      exact hle
  · intro r hr
    obtain hr | hr := List.mem_append.1 hr
    · exact hs.issued r hr
    · exact answer_handle (Option.mem_toList.1 hr)

theorem readings_cons (l : Limiter) (cap : Int) (c : Call) (calls : List Call) :
    l.readings cap (c :: calls) =
      if l.runsScript cap c then c.clock :: l.readings cap calls else l.readings cap calls := by
  simp only [Limiter.readings,List.filter_cons]
  split <;> rfl

theorem credit_le (hcap : 0 < cap) (b : Bucket) :
    (Limiter.exact p).balance (some b) c.clock cap-b.tokens ≤
      cap/60*max 0 ((Limiter.exact p).now c.clock-b.ts) := by
  have hrate := (rate_pos hcap).le
  rw [balance_some]
  split
  · rename_i helapsed
    have hmin := min_le_right (cap : ℚ) (b.tokens+((Limiter.exact p).now c.clock-b.ts)*(cap/60))
    rw [max_eq_right helapsed.le]
    linarith
  · rw [sub_self]
    exact mul_nonneg hrate (le_max_left _ _)

theorem credits_le_climb (hcap : 0 < cap) {calls : List Call}
    (hrun : Reaches (Store.step (.exact p) team kind cap true) Issued s calls t)
    (hs : s.Capped cap) {x : ℚ} (hx : ∀ b,s.bucket = some b → b.ts = x) :
    (s.credits (.exact p) team kind cap calls).sum ≤
      cap/60*climb x (((Limiter.exact p).readings cap calls).map (Limiter.exact p).now) := by
  induction hrun generalizing x with
  | stop s => simp [Store.credits,replies,Limiter.readings,climb]
  | @next s _ t c calls hok hst hrest ih =>
    cases hst
    have hscripted : Scripted (.exact p) cap s.bucket c
        (s.serve (.exact p) team kind cap true c).2.bucket := serve_scripted hs hok
    have hcapped : (s.serve (.exact p) team kind cap true c).2.Capped cap := hs.serve hok
    have hnext := fun x => ih hcapped (x := x)
    simp only [Store.credits,replies,List.sum_cons] at hnext ⊢
    generalize hafter : (s.serve (.exact p) team kind cap true c).2.bucket = after
      at hscripted hnext
    cases hscripted with
    | idle hidle =>
      have hcredit : (Limiter.exact p).credit cap s.bucket c = 0 := by simp [Limiter.credit,hidle]
      rw [hcredit,readings_cons,if_neg (by simp [hidle]),zero_add]
      exact hnext x hx
    | @wrote tokens ttl hruns hle =>
      have hone : (Limiter.exact p).credit cap s.bucket c ≤
          cap/60*max 0 ((Limiter.exact p).now c.clock-x) := by
        cases hb : s.bucket with
        | none =>
          rw [Limiter.credit,if_pos hruns]
          exact mul_nonneg (rate_pos hcap).le (le_max_left _ _)
        | some b =>
          rw [Limiter.credit,if_pos hruns,← hx b hb]
          exact credit_le hcap b
      have hrest := hnext ((Limiter.exact p).now c.clock) (by rintro b ⟨⟩; rfl)
      rw [readings_cons,if_pos hruns,List.map_cons,climb,mul_add]
      exact add_le_add hone hrest

theorem credits_le_of_new (hcap : 0 < cap) {calls : List Call}
    (hrun : Reaches (Store.step (.exact p) team kind cap true) Issued s calls t)
    (hs : s.Capped cap) (hb : s.bucket = none) {first : Clock} {rest : List Clock}
    (hreadings : (Limiter.exact p).readings cap calls = first :: rest) :
    (s.credits (.exact p) team kind cap calls).sum ≤
      cap/60*climb ((Limiter.exact p).now first) (rest.map (Limiter.exact p).now) := by
  have hclimb := credits_le_climb hcap hrun hs (x := (Limiter.exact p).now first) (by simp [hb])
  rwa [hreadings,List.map_cons,climb,sub_self,max_self,zero_add] at hclimb

theorem credits_append {ok : Store → Call → Prop} {before : List Call}
    (hrun : Reaches (Store.step (.exact p) team kind cap true) ok s before t) (after : List Call) :
    (s.credits (.exact p) team kind cap (before ++ after)).sum =
      (s.credits (.exact p) team kind cap before).sum+
        (t.credits (.exact p) team kind cap after).sum := by
  induction hrun with
  | stop s => simp [Store.credits,replies]
  | next _ hst _ ih =>
    cases hst
    simp only [Store.credits,replies,List.cons_append,List.sum_cons] at ih ⊢
    rw [ih]
    ring

def tooMuch (cap : Int) (clock : Clock) : Call := ⟨clock,.consume (cap+1) bucketTTL⟩

def oneMore (cap : Int) (clock : Clock) : Call :=
  ⟨clock,.reconcile (some ⟨"",.tpm,cap,1,bucketTTL⟩) 2⟩

theorem runsScript_tooMuch (hcap : 0 < cap) (clock : Clock) :
    (Limiter.exact p).runsScript cap (tooMuch cap clock) = true := by
  have hamount : ¬cap+1 ≤ 0 := by omega
  simp [Limiter.runsScript,tooMuch,Limiter.consumeArgs,hcap.not_ge,hamount,bucketTTL,
    Except.isOk,Except.toBool]

theorem runsScript_oneMore (clock : Clock) :
    (Limiter.exact p).runsScript cap (oneMore cap clock) = true := rfl

theorem serve_tooMuch (team : String) (kind : LimitType) (hcap : 0 < cap) (hs : s.Capped cap)
    (clock : Clock) :
    (s.serve (.exact p) team kind cap true (tooMuch cap clock)).2 =
      ⟨some ((Limiter.exact p).saved ((Limiter.exact p).balance s.bucket clock cap) clock
        bucketTTL),s.issued,clock⟩ := by
  have hle : (Limiter.exact p).balance s.bucket clock cap ≤ cap := balance_le hs.tokens
  obtain ⟨e,-,hbad⟩ | ⟨-,-,-,hcover⟩ | ⟨retryAfter,heq,-⟩ :=
    (Limiter.exact p).consume_cases s.bucket clock cap (cap+1) bucketTTL
  · have httl : ¬bucketTTL ≤ 0 := by decide
    omega
  · have hmore : ((cap+1 : Int) : ℚ) ≤ (Limiter.exact p).balance s.bucket clock cap := hcover
    push_cast at hmore
    linarith
  · simp [Store.serve,Limiter.answer,Store.found,tooMuch,heq,Reply.handle]

theorem balance_of_room {b : Bucket} {clock : Clock}
    (hroom : b.tokens+cap/60*max 0 ((Limiter.exact p).now clock-b.ts) ≤ cap) :
    (Limiter.exact p).balance (some b) clock cap =
      b.tokens+cap/60*max 0 ((Limiter.exact p).now clock-b.ts) := by
  rw [balance_some]
  split
  · rename_i helapsed
    rw [max_eq_right helapsed.le,mul_comm (cap/60 : ℚ)] at hroom ⊢
    exact min_eq_right hroom
  · rename_i helapsed
    rw [max_eq_left (not_lt.1 helapsed),mul_zero,add_zero]

/-- As long as the bucket is not full its credits are the whole climb. -/
theorem credits_tooMuch (team : String) (kind : LimitType) (hcap : 0 < cap) (rest : List Clock)
    (hs : s.Capped cap) {b : Bucket} (hb : s.bucket = some b)
    (hroom : b.tokens+cap/60*climb b.ts (rest.map (Limiter.exact p).now) ≤ cap) :
    (∃ t,Reaches (Store.step (.exact p) team kind cap true) Issued s
      (rest.map (tooMuch cap)) t) ∧
    (s.credits (.exact p) team kind cap (rest.map (tooMuch cap))).sum =
      cap/60*climb b.ts (rest.map (Limiter.exact p).now) := by
  induction rest generalizing s b with
  | nil => exact ⟨⟨s,.stop s⟩,by simp [Store.credits,replies,climb]⟩
  | cons clock rest ih =>
    have hrate := (rate_pos hcap).le
    have hissued : Issued s (tooMuch cap clock) := by simp [Issued,tooMuch,Request.handle]
    rw [List.map_cons,climb,mul_add,← add_assoc] at hroom
    have hlater := mul_nonneg hrate
      (climb_nonneg ((Limiter.exact p).now clock) (rest.map (Limiter.exact p).now))
    have hbalance : (Limiter.exact p).balance s.bucket clock cap =
        b.tokens+cap/60*max 0 ((Limiter.exact p).now clock-b.ts) := by
      rw [hb]
      exact balance_of_room (by linarith)
    have hserve := serve_tooMuch (p := p) team kind hcap hs clock
    rw [hbalance] at hserve
    have hcapped : (s.serve (.exact p) team kind cap true (tooMuch cap clock)).2.Capped cap :=
      hs.serve hissued
    rw [hserve] at hcapped
    obtain ⟨⟨t,hrun⟩,hcredits⟩ := ih hcapped rfl hroom
    refine ⟨⟨t,.next hissued (congrArg some hserve) hrun⟩,?_⟩
    have hcredit : (Limiter.exact p).credit cap s.bucket (tooMuch cap clock) =
        cap/60*max 0 ((Limiter.exact p).now clock-b.ts) := by
      have hfound : (Limiter.exact p).balance (some b) clock cap =
          b.tokens+cap/60*max 0 ((Limiter.exact p).now clock-b.ts) := hb ▸ hbalance
      simp only [Limiter.credit,runsScript_tooMuch hcap clock,if_true,hb]
      rw [tooMuch,hfound]
      ring
    simp only [Store.credits,replies,List.map_cons,List.sum_cons,hserve] at hcredits ⊢
    rw [hcredits,hcredit,climb,mul_add]
    rfl

theorem serve_oneMore (team : String) (kind : LimitType) (first : Clock) (ttl : Int) {tokens : ℚ}
    (hless : tokens-1 ≤ cap) (issued : List Reservation) :
    (Store.mk (some ((Limiter.exact p).saved tokens first ttl)) issued first).serve
        (.exact p) team kind cap true (oneMore cap first) =
      (.reconciled (.ok ()),⟨some ((Limiter.exact p).saved (tokens-1) first bucketTTL),
        issued,first⟩) := by
  have hdelta : Limiter.reconcileDelta (some ⟨"",.tpm,cap,1,bucketTTL⟩) 2 =
      .ok (some (-1)) := rfl
  have hbalance : (Limiter.exact p).balance (some ((Limiter.exact p).saved tokens first ttl))
      first cap = tokens := balance_saved first ttl
  have hmin : min (cap : ℚ) (tokens+((-1 : Int) : ℚ)) = tokens-1 := by
    push_cast
    rw [← sub_eq_add_neg]
    exact min_eq_right hless
  have hsettle : (Limiter.exact p).settleScript (some ((Limiter.exact p).saved tokens first ttl))
      first cap (-1) bucketTTL =
      (Limiter.exact p).saved (tokens-1) first bucketTTL := by
    simp only [Limiter.settleScript,hbalance]
    exact congrArg (fun x => (Limiter.exact p).saved x first bucketTTL) hmin
  simp [Store.serve,Limiter.answer,Store.found,oneMore,Limiter.reconcile,hdelta,hsettle,
    Reply.handle]

theorem reaches_debt (team : String) (kind : LimitType) (first : Clock) (n : Nat) (ttl : Int)
    {tokens : ℚ} (htokens : tokens ≤ cap) {issued : List Reservation}
    (hissued : ⟨"",.tpm,cap,1,bucketTTL⟩ ∈ issued) :
    ∃ ttl',Reaches (Store.step (.exact p) team kind cap true) Issued
        ⟨some ((Limiter.exact p).saved tokens first ttl),issued,first⟩
        (List.replicate n (oneMore cap first))
        ⟨some ((Limiter.exact p).saved (tokens-n) first ttl'),issued,first⟩ ∧
      (Store.credits (.exact p) team kind cap
        ⟨some ((Limiter.exact p).saved tokens first ttl),issued,first⟩
        (List.replicate n (oneMore cap first))).sum = 0 := by
  induction n generalizing tokens ttl with
  | zero => exact ⟨ttl,by simpa using Reaches.stop _,by simp [Store.credits,replies]⟩
  | succ n ih =>
    have hless : tokens-1 ≤ cap := by linarith
    have hserve := serve_oneMore (p := p) team kind first ttl hless issued
    obtain ⟨ttl',hrun,hcredits⟩ := ih bucketTTL hless
    refine ⟨ttl',?_,?_⟩
    · have hcount : tokens-((n+1 : Nat) : ℚ) = tokens-1-n := by
        push_cast
        ring
      rw [List.replicate_succ,hcount]
      refine .next ?_ (by simp only [Store.step,hserve]) hrun
      simpa [Issued,oneMore,Request.handle] using hissued
    · have hcredit : (Limiter.exact p).credit cap
          (some ((Limiter.exact p).saved tokens first ttl)) (oneMore cap first) = 0 := by
        simp only [Limiter.credit,runsScript_oneMore,if_true]
        exact sub_eq_zero.2 (balance_saved first ttl)
      simp only [Store.credits,List.replicate_succ,replies,List.sum_cons,hserve] at hcredits ⊢
      rw [hcredits,hcredit,add_zero]

theorem readings_calls (hcap : 0 < cap) (first : Clock) (n : Nat) (rest : List Clock) :
    (Limiter.exact p).readings cap (⟨first,.reserve 1 bucketTTL⟩ ::
      (List.replicate n (oneMore cap first) ++ rest.map (tooMuch cap))) =
      List.replicate (n+1) first ++ rest := by
  have hreserve : (Limiter.exact p).runsScript cap ⟨first,.reserve 1 bucketTTL⟩ = true := by
    simp [Limiter.runsScript,Limiter.consumeArgs,hcap.not_ge,bucketTTL,Except.isOk,
      Except.toBool]
  have hall : ∀ c ∈ (⟨first,.reserve 1 bucketTTL⟩ ::
      (List.replicate n (oneMore cap first) ++ rest.map (tooMuch cap)) : List Call),
      (Limiter.exact p).runsScript cap c = true := by
    intro c hc
    simp only [List.mem_cons,List.mem_append,List.mem_replicate,List.mem_map] at hc
    obtain rfl | ⟨-,rfl⟩ | ⟨clock,-,rfl⟩ := hc
    · exact hreserve
    · exact runsScript_oneMore first
    · exact runsScript_tooMuch hcap clock
  have hclocks : (rest.map (tooMuch cap)).map Call.clock = rest := by
    rw [List.map_map]
    exact List.map_id _
  rw [Limiter.readings,List.filter_eq_self.2 hall,List.map_cons,List.map_append,List.map_replicate,
    hclocks,List.replicate_succ]
  rfl

theorem serve_reserve (hcap : 0 < cap) (first : Clock) :
    (Store.start.serve (.exact p) "" .tpm cap true ⟨first,.reserve 1 bucketTTL⟩).2 =
      ⟨some ((Limiter.exact p).saved (cap-1) first bucketTTL),
        [⟨"",.tpm,cap,1,bucketTTL⟩],first⟩ := by
  obtain ⟨e,-,hbad⟩ | ⟨heq,-⟩ | ⟨retryAfter,-,-,-,hless⟩ :=
    (Limiter.exact p).consume_cases none first cap 1 bucketTTL
  · have httl : ¬bucketTTL ≤ 0 := by decide
    omega
  · simp only [Store.serve,Limiter.answer,Store.found,Store.start,Limiter.reserve,if_true,heq]
    rfl
  · have hfull : (cap : ℚ) < ((1 : Int) : ℚ) := hless
    have hfull : cap < 1 := by exact_mod_cast hfull
    omega

/-- Where the readings rise after a fall, a bucket deep enough in debt is
credited for more than lies between the first reading and the latest. -/
theorem reaches_excess (hcap : 0 < cap) {first : Clock} {rest : List Clock}
    (hrises : ¬RisesThenFalls ((Limiter.exact p).now first) (rest.map (Limiter.exact p).now)) :
    ∃ n calls t,
      Reaches (Store.step (.exact p) "" .tpm cap true) Issued .start calls t ∧
      (Limiter.exact p).readings cap calls = List.replicate (n+1) first ++ rest ∧
      cap/60*(peak ((Limiter.exact p).now first) (rest.map (Limiter.exact p).now)-
          (Limiter.exact p).now first) <
        (Store.start.credits (.exact p) "" .tpm cap calls).sum := by
  have hrate := rate_pos hcap
  obtain ⟨n,hn⟩ : ∃ n : Nat,cap/60*climb ((Limiter.exact p).now first)
      (rest.map (Limiter.exact p).now) ≤ n := ⟨_,Nat.le_ceil _⟩
  have hreserve := serve_reserve (p := p) hcap first
  obtain ⟨ttl,hdebt,hzero⟩ := reaches_debt (p := p) "" .tpm first n bucketTTL
    (sub_le_self (cap : ℚ) zero_le_one)
    (List.mem_singleton_self (⟨"",.tpm,cap,1,bucketTTL⟩ : Reservation))
  have hcapped : (Store.mk (some ((Limiter.exact p).saved ((cap : ℚ)-1-n) first ttl))
      [⟨"",.tpm,cap,1,bucketTTL⟩] first).Capped cap := by
    refine ⟨fun b hb => ?_,by simp⟩
    cases hb
    have hcount : (0 : ℚ) ≤ n := Nat.cast_nonneg n
    change (cap : ℚ)-1-n ≤ cap
    linarith
  have hroom : (cap : ℚ)-1-n+cap/60*climb ((Limiter.exact p).now first)
      (rest.map (Limiter.exact p).now) ≤ cap := by linarith
  obtain ⟨⟨t,hlast⟩,hcredits⟩ := credits_tooMuch (p := p) "" .tpm hcap rest hcapped rfl hroom
  refine ⟨n,_,t,.next (by simp [Issued,Request.handle]) (congrArg some hreserve)
    (hdebt.append hlast),readings_calls hcap first n rest,?_⟩
  have hfirst : (Limiter.exact p).credit cap none ⟨first,.reserve 1 bucketTTL⟩ = 0 := by
    simp [Limiter.credit]
  have hsum := credits_append hdebt (rest.map (tooMuch cap))
  rw [hzero,hcredits,zero_add] at hsum
  have hmore := not_le.1 (mt climb_le_peak_iff.1 hrises)
  simp only [Store.credits,replies,List.sum_cons,hreserve] at hsum ⊢
  rw [hsum,show Store.start.bucket = none from rfl,hfirst,zero_add]
  exact mul_lt_mul_of_pos_left (sub_lt_iff_lt_add'.2 hmore) hrate

/-- Whatever the clock does, the credits are at most the rate times all that it
climbs. For readings that begin at `first` they are at most the rate times the
distance to the latest reading, in every history, exactly if the readings never
rise again once they have fallen. -/
theorem refill_credits_iff (hcap : 0 < cap) (first : Clock) (rest : List Clock) :
    (∀ team kind calls t,
      Reaches (Store.step (.exact p) team kind cap true) Issued .start calls t →
      (Limiter.exact p).readings cap calls = first :: rest →
      (Store.start.credits (.exact p) team kind cap calls).sum ≤
        cap/60*climb ((Limiter.exact p).now first) (rest.map (Limiter.exact p).now)) ∧
    ((∀ n team kind calls t,
      Reaches (Store.step (.exact p) team kind cap true) Issued .start calls t →
      (Limiter.exact p).readings cap calls = List.replicate (n+1) first ++ rest →
      (Store.start.credits (.exact p) team kind cap calls).sum ≤
        cap/60*(peak ((Limiter.exact p).now first) (rest.map (Limiter.exact p).now)-
          (Limiter.exact p).now first)) ↔
      RisesThenFalls ((Limiter.exact p).now first) (rest.map (Limiter.exact p).now)) := by
  have hrate := (rate_pos hcap).le
  refine ⟨fun team kind calls t hrun hreadings =>
    credits_le_of_new hcap hrun (start_capped cap) rfl hreadings,fun hall => ?_,
    fun hshape n team kind calls t hrun hreadings => ?_⟩
  · by_contra hrises
    obtain ⟨n,calls,t,hrun,hreadings,hexcess⟩ := reaches_excess (p := p) hcap hrises
    exact absurd (hall n "" .tpm calls t hrun hreadings) (not_le.2 hexcess)
  · rw [List.replicate_succ,List.cons_append] at hreadings
    have hbound := credits_le_of_new hcap hrun (start_capped cap) rfl hreadings
    rw [List.map_append,List.map_replicate,climb_replicate] at hbound
    refine hbound.trans (mul_le_mul_of_nonneg_left ?_ hrate)
    exact le_sub_iff_add_le'.2 (climb_le_peak_iff.2 hshape)

/-- Drained at 100 s, looked at when the clock says 90 s and again at 100 s: ten
seconds are refilled although the clock is where it began. -/
theorem backward_step_credits_again :
    let calls : List Call := [⟨⟨100,0⟩,.consume 60 bucketTTL⟩,
      ⟨⟨90,0⟩,.consume 60 bucketTTL⟩,⟨⟨100,0⟩,.consume 60 bucketTTL⟩]
    (∃ t,Reaches (Store.step (Limiter.exact fun _ => "") "a" .rpm 60 true) Issued .start calls t) ∧
    (Limiter.exact fun _ => "").readings 60 calls = [⟨100,0⟩,⟨90,0⟩,⟨100,0⟩] ∧
    Store.start.credits (Limiter.exact fun _ => "") "a" .rpm 60 calls = [0,0,10] ∧
    ¬(Store.start.credits (Limiter.exact fun _ => "") "a" .rpm 60 calls).sum ≤
      (60 : ℚ)/60*(peak 100 [90,100]-100) := by
  refine ⟨⟨⟨some ⟨10,100,120000⟩,[],⟨100,0⟩⟩,.of_run (by decide +kernel)⟩,by decide +kernel,
    by decide +kernel,by decide +kernel⟩

theorem refill_credits_forward :
    let calls : List Call := [⟨⟨100,0⟩,.consume 60 bucketTTL⟩,
      ⟨⟨105,0⟩,.consume 60 bucketTTL⟩,⟨⟨90,0⟩,.consume 60 bucketTTL⟩]
    (Store.start.credits (Limiter.exact fun _ => "") "a" .rpm 60 calls).sum ≤
      ((60 : Int) : ℚ)/60*(peak ((Limiter.exact fun _ => "").now ⟨100,0⟩)
        ([⟨105,0⟩,⟨90,0⟩].map (Limiter.exact fun _ => "").now)-
          (Limiter.exact fun _ => "").now ⟨100,0⟩) := by
  intro calls
  have hrun : Reaches (Store.step (Limiter.exact fun _ => "") "a" .rpm 60 true) Issued .start calls
      ⟨some ⟨5,90,120000⟩,[],⟨90,0⟩⟩ := .of_run (by decide +kernel)
  have hshape : RisesThenFalls ((Limiter.exact fun _ => "").now ⟨100,0⟩)
      ([⟨105,0⟩,⟨90,0⟩].map (Limiter.exact fun _ => "").now) :=
    .inl ⟨by decide +kernel,.inr ⟨by decide +kernel,trivial⟩⟩
  exact (refill_credits_iff (by decide) ⟨100,0⟩ [⟨105,0⟩,⟨90,0⟩]).2.2 hshape 0 "a" .rpm calls _ hrun
    (by decide +kernel)

end Switchyard.RateLimit
