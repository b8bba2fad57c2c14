import Switchyard.BucketExpiry
set_option autoImplicit false

/-!
The middleware that holds a team to its requests per minute
(internal/proxy/ratelimit.go), over exact rationals.
-/

namespace Switchyard.Proxy
open RateLimit StepRuns

inductive Passage where
  | next
  | limited (res : Result)
  | shed (res : Result)
  deriving DecidableEq, Repr

/-- A request at the limiter. The call to Redis fails where lost says so, before
the script ran or after it (an outage, `checkTimeout`). -/
structure Arrival where
  clock : Clock
  lost : Option Bool := none
  deriving DecidableEq

/-- `RateLimit`: an error of the limiter lets the request pass, and a shed
request keeps the token it took. -/
def rateLimit (l : Limiter) (team : Auth.Team) (found : Option Bucket) (q : Arrival) :
    Passage × Option Bucket :=
  let live := found.filter fun b => !b.expired q.clock
  let (answer,bucket) := l.consume live q.clock team.rateLimits.rpm 1 bucketTTL
  match q.lost,answer with
  | some ran,_ => (.next,if ran then bucket else live)
  | none,.error _ => (.next,bucket)
  | none,.ok res =>
    (if !res.allowed then .limited res
      else if shouldShedForPriority team team.rateLimits.rpm res then .shed res
      else .next,bucket)

def keptBack (team : Auth.Team) : ℚ :=
  if team.priority = Auth.priorityBatch then
    Binary64.round (Binary64.round (1/5)*Binary64.round team.rateLimits.rpm)
  else 0

/-- A bucket the middleware can leave behind. -/
structure Left (l : Limiter) (cap : Int) (clock : Clock) (b : Bucket) : Prop where
  sound : b.Sound l cap clock
  ttl : b.ttl = 120000
  paid : 0 ≤ b.tokens

variable {p : Int → String} {team : Auth.Team} {found : Option Bucket} {l : Limiter} {cap : Int}

theorem balance_nonneg (hl : l = .exact p) (hcap : 0 < cap) {clock : Clock}
    (hfound : ∀ b ∈ found,Left l cap clock b) : 0 ≤ l.balance found clock cap := by
  subst hl
  have hcapQ : (0 : ℚ) ≤ cap := by exact_mod_cast hcap.le
  cases found with
  | none => exact hcapQ
  | some b =>
    obtain ⟨⟨-,hts⟩,-,hpaid⟩ := hfound b rfl
    have hgain := mul_nonneg (sub_nonneg.2 hts) (rate_pos hcap).le
    rw [balance_some]
    split_ifs
    · exact le_min hcapQ (by linarith)
    · exact hpaid

/-- A key that is gone counts as the full bucket it would have become. -/
theorem balance_live (hl : l = .exact p) (hcap : 0 < cap) {clock : Clock}
    (hfound : ∀ b ∈ found,Left l cap clock b) :
    l.balance (found.filter fun b => !b.expired clock) clock cap = l.balance found clock cap := by
  subst hl
  cases found with
  | none => rfl
  | some b =>
    obtain ⟨hsound,httl,hpaid⟩ := hfound b rfl
    cases hexpired : b.expired clock with
    | false => simp [Option.filter,hexpired]
    | true =>
      have hdebt : -(cap : ℚ) ≤ b.tokens := (neg_nonpos.2 (by exact_mod_cast hcap.le)).trans hpaid
      rw [balance_expired hcap hsound httl hdebt hexpired]
      simp [Option.filter,hexpired]
      rfl

theorem left_saved (hl : l = .exact p) {tokens : ℚ} (hle : tokens ≤ cap) (hpaid : 0 ≤ tokens)
    (clock : Clock) : Left l cap clock (l.saved tokens clock bucketTTL) := by
  subst hl
  exact ⟨sound_saved hle clock _,rfl,hpaid⟩

/-- The script leaves the bucket written, with a token less where it allows. -/
theorem consume_left (hl : l = .exact p) (hcap : 0 < cap) {clock : Clock}
    (hfound : ∀ b ∈ found,Left l cap clock b) : ∃ res tokens,
    l.consume found clock cap 1 bucketTTL = (.ok res,some (l.saved tokens clock bucketTTL)) ∧
      Left l cap clock (l.saved tokens clock bucketTTL) ∧
      tokens = l.balance found clock cap-(if res.allowed then 1 else 0) ∧
      (res.allowed = true → res.remaining = tokens) := by
  have hnonneg := balance_nonneg hl hcap hfound
  subst hl
  have hle := @balance_le p cap found clock fun b hb => (hfound b hb).sound.1
  obtain ⟨e,-,hbad⟩ | ⟨heq,-,-,hcover⟩ | ⟨retryAfter,heq,-⟩ :=
    (Limiter.exact p).consume_cases found clock cap 1 bucketTTL
  · simp only [bucketTTL] at hbad
    omega
  · have hcover : 1 ≤ (Limiter.exact p).balance found clock cap := hcover
    have hleft := left_saved (p := p) rfl ((sub_le_self _ zero_le_one).trans hle)
      (sub_nonneg.2 hcover) clock
    exact ⟨_,_,heq,hleft,rfl,fun _ => rfl⟩
  · exact ⟨_,_,heq,left_saved rfl hle hnonneg clock,by simp,by simp⟩

/-- Of the calls that are answered, only one that leaves what is kept back goes
on, and it takes a token. -/
theorem rateLimit_spec (hl : l = .exact p) (hcap : 0 < team.rateLimits.rpm) {q : Arrival}
    (hfound : ∀ b ∈ found,Left l team.rateLimits.rpm q.clock b) :
    let bal := l.balance found q.clock team.rateLimits.rpm
    let rest := l.balance (rateLimit l team found q).2 q.clock team.rateLimits.rpm
    (∀ b ∈ (rateLimit l team found q).2,Left l team.rateLimits.rpm q.clock b) ∧ rest ≤ bal ∧
      (q.lost = none → (rateLimit l team found q).1 = .next →
        rest = bal-1 ∧ keptBack team ≤ rest) := by
  have hlive := balance_live hl hcap hfound
  have hfilter : ∀ b ∈ found.filter fun b => !b.expired q.clock,
      Left l team.rateLimits.rpm q.clock b :=
    fun b hb => hfound b (Option.mem_filter_iff.1 hb).1
  obtain ⟨res,tokens,heq,hleft,htokens,hremaining⟩ := consume_left hl hcap hfilter
  rw [hlive] at htokens
  have hsaved : l.balance (some (l.saved tokens q.clock bucketTTL)) q.clock team.rateLimits.rpm =
      tokens := by
    subst hl
    exact balance_saved q.clock bucketTTL
  have hle : tokens ≤ l.balance found q.clock team.rateLimits.rpm := by
    rw [htokens]
    split <;> simp
  simp only [rateLimit,heq]
  match q.lost with
  | some false => exact ⟨hfilter,hlive.le,by simp⟩
  | some true => exact ⟨by rintro b ⟨⟩; exact hleft,hsaved.trans_le hle,by simp⟩
  | none =>
    refine ⟨by rintro b ⟨⟩; exact hleft,hsaved.trans_le hle,fun _ hnext => ?_⟩
    dsimp only at hnext ⊢
    rw [hsaved]
    cases hallowed : res.allowed with
    | false => simp [hallowed] at hnext
    | true =>
      rw [hallowed,if_pos rfl] at htokens
      refine ⟨htokens,?_⟩
      unfold keptBack
      split_ifs with hbatch
      · simpa [hallowed,shouldShedForPriority,hbatch,not_le.2 hcap,hremaining hallowed] using hnext
      · subst hl
        exact hleft.paid

/-- In any window of time no more requests of a team go on than its bucket holds
above what is kept back, is refilled meanwhile, and Redis fails to answer. -/
theorem passed_in_window (hl : l = .exact p) (hcap : 0 < team.rateLimits.rpm)
    {window : List Arrival} {u v : Clock}
    (hsorted : window.Pairwise fun q r => l.now q.clock ≤ l.now r.clock)
    (hin : ∀ q ∈ window,l.now u ≤ l.now q.clock ∧ l.now q.clock ≤ l.now v)
    (hfound : ∀ b ∈ found,Left l team.rateLimits.rpm u b) :
    ((replies (rateLimit l team) found window).1.count .next : ℚ) ≤
      window.countP (·.lost.isSome)+
      max 0 (l.balance found u team.rateLimits.rpm-keptBack team+
        (l.now v-l.now u)*(team.rateLimits.rpm/60)) := by
  induction window generalizing u found with
  | nil => simp [replies]
  | cons q window ih =>
    obtain ⟨hfirst,hsorted⟩ := List.pairwise_cons.1 hsorted
    obtain ⟨huq,hqv⟩ := hin q List.mem_cons_self
    have hnow : ∀ b ∈ found,Left l team.rateLimits.rpm q.clock b :=
      fun b hb => ⟨(hfound b hb).sound.later huq,(hfound b hb).ttl,(hfound b hb).paid⟩
    obtain ⟨hafter,hle,hpassed⟩ := rateLimit_spec hl hcap hnow
    have hrest := ih hsorted
      (fun d hd => ⟨hfirst d hd,(hin d (List.mem_cons_of_mem q hd)).2⟩) hafter
    have hlater : l.balance found q.clock team.rateLimits.rpm ≤
        l.balance found u team.rateLimits.rpm+
          (l.now q.clock-l.now u)*(team.rateLimits.rpm/60) := by
      subst hl
      exact balance_later (s := ⟨found,[],u⟩) hcap
        ⟨fun b hb => (hfound b hb).sound,by simp⟩ le_rfl huq
    have hrate := mul_nonneg (sub_nonneg.2 hqv) (rate_pos hcap).le
    have hmore : l.balance (rateLimit l team found q).2 q.clock team.rateLimits.rpm-
        keptBack team+(l.now v-l.now q.clock)*(team.rateLimits.rpm/60) ≤
        l.balance found u team.rateLimits.rpm-keptBack team+
          (l.now v-l.now u)*(team.rateLimits.rpm/60) := by linarith
    have hmax := max_le_max_left 0 hmore
    simp only [replies,List.count_cons,List.countP_cons,Nat.cast_add]
    by_cases hnext : (rateLimit l team found q).1 = .next
    · cases hlost : q.lost with
      | some ran =>
        simp only [hnext,beq_self_eq_true,Option.isSome_some,if_true,Nat.cast_one]
        linarith
      | none =>
        obtain ⟨htaken,hkept⟩ := hpassed hlost hnext
        rw [max_eq_right (by linarith)] at hrest
        simp only [hnext,beq_self_eq_true,Option.isSome_none,if_true,Bool.false_eq_true,if_false,
          Nat.cast_one,Nat.cast_zero]
        refine le_trans ?_ (add_le_add_right (le_max_right 0 _) _)
        linarith
    · rw [if_neg (by simpa using hnext)]
      have hzero : (0 : ℚ) ≤ ((if q.lost.isSome then 1 else 0 : Nat) : ℚ) := Nat.cast_nonneg _
      rw [Nat.cast_zero]
      linarith

/-- Sixty a minute: a call that is answered, one that Redis loses, and one after
the key is gone. -/
theorem passed_in_window_batch : ∃ team : Auth.Team,team.priority = Auth.priorityBatch ∧
    ((replies (rateLimit (.exact fun _ => "") team) (some ⟨20,1,120000⟩)
      [⟨⟨2,0⟩,none⟩,⟨⟨2,0⟩,some true⟩,⟨⟨130,0⟩,none⟩]).1.count .next : ℚ) ≤
      1+max 0 (20-keptBack team+(130-1)*(60/60)) := by
  let team : Auth.Team := ⟨"t","t","o","",[],[],⟨60,1⟩,1,Auth.priorityBatch,false,false,"","",none⟩
  have hfound : ∀ b ∈ some ⟨20,1,120000⟩,Left (.exact fun _ => "") team.rateLimits.rpm ⟨1,0⟩ b := by
    rintro b ⟨⟩
    exact ⟨⟨by decide +kernel,by decide +kernel⟩,rfl,by decide +kernel⟩
  have h := passed_in_window (v := ⟨130,0⟩) rfl (by decide) (by decide +kernel :
    [⟨⟨2,0⟩,none⟩,⟨⟨2,0⟩,some true⟩,⟨⟨130,0⟩,none⟩].Pairwise _) (by decide +kernel) hfound
  refine ⟨team,rfl,?_⟩
  simpa [team,Limiter.exact,Limiter.now,Limiter.balance,Arithmetic.exact] using h

end Switchyard.Proxy
