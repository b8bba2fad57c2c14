import Switchyard.MachineInt
import Switchyard.Binary64
import Switchyard.GoText
set_option autoImplicit false

/-!
Pricing and the monthly spend counter (internal/budget). Amounts are int64
micro-dollars. A team's counter for one calendar month is one Redis string key.
-/

namespace Switchyard.Budget
open MachineInt GoText

/-- Price in micro-dollars per 1,000,000 tokens. -/
structure Pricing where
  inputPer1M : Int
  outputPer1M : Int
  deriving DecidableEq, Repr

structure Calculator where
  pricing : String → Option Pricing

/-- `(in*p + out*q)/1e6` with every step a wrapping int64 operation. -/
def Pricing.cost (p : Pricing) (inputTokens outputTokens : Int) : Int :=
  quo (add (mul inputTokens p.inputPer1M)
    (mul outputTokens p.outputPer1M)) 1000000

def Pricing.exactCost (p : Pricing) (inputTokens outputTokens : Int) : Int :=
  (inputTokens*p.inputPer1M+outputTokens*p.outputPer1M).tdiv 1000000

def Calculator.cost (c : Calculator) (model : String) (inputTokens outputTokens : Int) :
    Except String Int :=
  match c.pricing model with
  | none => .error ("no pricing configured for model " ++ quote model)
  | some p => .ok (p.cost inputTokens outputTokens)

/-- The int64 half of `Cost`'s (int64, error) pair: zero beside an error. -/
def Calculator.costValue (c : Calculator) (model : String) (inputTokens outputTokens : Int) : Int :=
  match c.cost model inputTokens outputTokens with
  | .ok v => v
  | .error _ => 0

def maxCost : Int := 9223372036854

theorem Pricing.cost_bound (p : Pricing) (i o : Int) :
    -maxCost ≤ p.cost i o ∧ p.cost i o ≤ maxCost := by
  have h := quo_bound (b := 1000000)
    (wrap_inRange (mul i p.inputPer1M+mul o p.outputPer1M))
    (by omega)
  unfold Pricing.cost maxCost add
  omega

theorem Calculator.cost_bound {c : Calculator} {model : String} {i o v : Int}
    (h : c.cost model i o = .ok v) : -maxCost ≤ v ∧ v ≤ maxCost := by
  unfold Calculator.cost at h
  cases hp : c.pricing model with
  | none => simp [hp] at h
  | some p =>
    simp only [hp,Except.ok.injEq] at h
    subst h
    exact p.cost_bound i o

/-- A Redis string key holding an integer, with its time to live in seconds. -/
structure Counter where
  value : Int
  ttl : Option Int
  deriving DecidableEq, Repr

def spent : Option Counter → Int
  | none => 0
  | some c => c.value

/-- INCRBY. It creates an absent key without an expiry, keeps the expiry of a
present one, and refuses a sum outside int64. -/
def incrBy (key : Option Counter) (d : Int) : Except String Counter :=
  if InRange (spent key+d) then .ok ⟨spent key+d,key.bind Counter.ttl⟩
  else .error "ERR increment or decrement would overflow"

/-- EXPIRE. A non-positive time to live deletes the key. -/
def expire (c : Counter) (ttl : Int) : Option Counter :=
  if ttl ≤ 0 then none else some { c with ttl := some ttl }

/-- A Lua number as a Redis integer: the fraction is dropped. -/
def toInteger (x : ℚ) : Int := if 0 ≤ x then ⌊x⌋ else ⌈x⌉

structure ScriptReply where
  allowed : Bool
  total : Int
  deriving DecidableEq, Repr

/-- `reserveScript`. The arguments and INCRBY's reply become Lua numbers, which
are doubles. -/
def reserveScript (key : Option Counter) (cap amount ttl : Int) :
    Except String (Option Counter × ScriptReply) :=
  let capN := Binary64.round cap
  let amountN := Binary64.round amount
  match incrBy key (toInteger amountN) with
  | .error e => .error e
  | .ok c =>
    let totalN := Binary64.round c.value
    let key' := if key.isNone then expire c ttl else some c
    if totalN > capN then
      match incrBy key' (-toInteger amountN) with
      | .error e => .error e
      | .ok c' => .ok (some c',⟨false,toInteger (Binary64.round (totalN-amountN))⟩)
    else .ok (key',⟨true,toInteger totalN⟩)

/-- What `Reserve` reads off the clock: the calendar month and the whole
seconds left in it. -/
structure Now where
  period : String
  left : Nat
  deriving DecidableEq, Repr

/-- Seconds to the end of the period plus `periodGrace`. -/
def ttlUntilPeriodEnd (now : Now) : Int := now.left+172800

structure Result where
  allowed : Bool
  spentMicros : Int
  deriving DecidableEq, Repr

structure Reservation where
  teamID : String
  period : String
  reserved : Int
  deriving DecidableEq, Repr

def reserveArgs (capMicros estimatedMicros : Int) : Except String Unit :=
  if capMicros ≤ 0 then
    .error ("budget: cap must be positive, got " ++ toString capMicros)
  else if estimatedMicros < 0 then
    .error ("budget: estimated cost cannot be negative, got " ++ toString estimatedMicros)
  else .ok ()

def reserveReply (teamID : String) (now : Now) (estimatedMicros : Int) :
    Except String ScriptReply → Except String (Option Reservation × Result)
  | .error e => .error ("budget: reserving spend for team " ++ quote teamID ++ ": " ++ e)
  | .ok reply =>
    if reply.allowed then
      .ok (some ⟨teamID,now.period,estimatedMicros⟩,⟨true,reply.total⟩)
    else .ok (none,⟨false,reply.total⟩)

/-- `Tracker.Reserve` on a reachable Redis: the call's outcome and the month's
key after it. -/
def reserve (key : Option Counter) (teamID : String) (now : Now) (capMicros estimatedMicros : Int) :
    Except String (Option Reservation × Result) × Option Counter :=
  match reserveArgs capMicros estimatedMicros with
  | .error e => (.error e,key)
  | .ok () =>
    match reserveScript key capMicros estimatedMicros (ttlUntilPeriodEnd now) with
    | .error e => (reserveReply teamID now estimatedMicros (.error e),key)
    | .ok (key',reply) => (reserveReply teamID now estimatedMicros (.ok reply),key')

/-- The signed difference `Reservation.Reconcile` sends, `none` when it sends
nothing. -/
def reconcileDelta (r : Option Reservation) (actualMicros : Int) : Except String (Option Int) :=
  match r with
  | none => .ok none
  | some r =>
    if actualMicros < 0 then
      .error ("budget: actual cost cannot be negative, got " ++ toString actualMicros)
    else if sub actualMicros r.reserved = 0 then .ok none
    else .ok (some (sub actualMicros r.reserved))

def reconcileError (teamID e : String) : String :=
  "budget: reconciling spend for team " ++ quote teamID ++ ": " ++ e

def reconcile (key : Option Counter) (r : Option Reservation) (actualMicros : Int) :
    Except String Unit × Option Counter :=
  match reconcileDelta r actualMicros with
  | .error e => (.error e,key)
  | .ok none => (.ok (),key)
  | .ok (some d) =>
    match incrBy key d with
    | .error e => (.error (reconcileError ((r.map Reservation.teamID).getD "") e),key)
    | .ok c => (.ok (),some c)

def reset (_key : Option Counter) : Option Counter := none

@[simp] theorem spent_none : spent none = 0 := rfl
@[simp] theorem spent_some (c : Counter) : spent (some c) = c.value := rfl

theorem incrBy_of_inRange {key : Option Counter} {d : Int} (h : InRange (spent key+d)) :
    incrBy key d = .ok ⟨spent key+d,key.bind Counter.ttl⟩ := by
  simp [incrBy,h]

theorem expire_pos {c : Counter} {ttl : Int} (h : 0 < ttl) :
    expire c ttl = some { c with ttl := some ttl } := by
  simp [expire]; omega

@[simp] theorem toInteger_intCast (n : Int) : toInteger (n : ℚ) = n := by
  unfold toInteger; split_ifs <;> simp

theorem toInteger_round {n : Int} (h : |n| < 2^53) : toInteger (Binary64.round n) = n := by
  rw [Binary64.round_intCast h,toInteger_intCast]

theorem ttl_pos (now : Now) : 0 < ttlUntilPeriodEnd now := by
  unfold ttlUntilPeriodEnd; omega

def keyAfter (key : Option Counter) (v ttl : Int) : Option Counter :=
  match key with
  | none => some ⟨v,some ttl⟩
  | some c => some ⟨v,c.ttl⟩

@[simp] theorem spent_keyAfter (key : Option Counter) (v ttl : Int) :
    spent (keyAfter key v ttl) = v := by
  cases key <;> rfl

theorem keyAfter_created (key : Option Counter) (v : Int) {ttl : Int} (ht : 0 < ttl) :
    (if key.isNone then expire ⟨v,key.bind Counter.ttl⟩ ttl
      else some ⟨v,key.bind Counter.ttl⟩) = keyAfter key v ttl := by
  cases key with
  | none => simp [expire_pos ht,keyAfter]
  | some c => simp [keyAfter]

theorem incrBy_keyAfter (key : Option Counter) {v d : Int} (ttl : Int) (h : InRange (v+d)) :
    ∃ c, incrBy (keyAfter key v ttl) d = .ok c ∧ some c = keyAfter key (v+d) ttl := by
  refine ⟨_,incrBy_of_inRange (by simpa using h),?_⟩
  cases key <;> rfl

/-- The script on an amount below 2^53: a sum outside int64 is refused, a sum
whose double exceeds the cap's double is undone, any other sum is kept. -/
theorem reserveScript_eq {key : Option Counter} (cap : Int) {amount ttl : Int}
    (ha : |amount| < 2^53) (ht : 0 < ttl) (hk : InRange (spent key)) :
    reserveScript key cap amount ttl =
      if ¬InRange (spent key+amount) then
        .error "ERR increment or decrement would overflow"
      else if Binary64.round (spent key+amount : Int) > Binary64.round cap then
        .ok (keyAfter key (spent key) ttl,
          ⟨false,toInteger (Binary64.round (Binary64.round (spent key+amount : Int)-amount))⟩)
      else .ok (keyAfter key (spent key+amount) ttl,
        ⟨true,toInteger (Binary64.round (spent key+amount : Int))⟩) := by
  simp only [reserveScript,Binary64.round_intCast ha,toInteger_intCast]
  by_cases hin : InRange (spent key+amount)
  · rw [incrBy_of_inRange hin]
    simp only [keyAfter_created key _ ht,hin,not_true,ite_false]
    by_cases hc : Binary64.round (spent key+amount : Int) > Binary64.round cap
    · obtain ⟨c,hback,hkey⟩ := incrBy_keyAfter key (v := spent key+amount) (d := -amount) ttl
        (by simpa using hk)
      rw [Int.add_neg_cancel_right] at hkey
      rw [if_pos hc,if_pos hc,hback]
      simp only [hkey]
    · rw [if_neg hc,if_neg hc]
  · simp [incrBy,hin]

theorem reserve_cases {key : Option Counter} {est : Int} (team : String) (now : Now) (cap : Int)
    (hest : est < 2^53) (hk : InRange (spent key)) :
    (∃ e, reserve key team now cap est = (.error e,key) ∧
      (cap ≤ 0 ∨ est < 0 ∨ ¬InRange (spent key+est))) ∨
    (reserve key team now cap est =
        (.ok (some ⟨team,now.period,est⟩,
          ⟨true,toInteger (Binary64.round (spent key+est : Int))⟩),
          keyAfter key (spent key+est) (ttlUntilPeriodEnd now)) ∧
      0 < cap ∧ 0 ≤ est ∧ InRange (spent key+est) ∧
      Binary64.round (spent key+est : Int) ≤ Binary64.round cap) ∨
    (reserve key team now cap est =
        (.ok (none,⟨false,
          toInteger (Binary64.round (Binary64.round (spent key+est : Int)-est))⟩),
          keyAfter key (spent key) (ttlUntilPeriodEnd now)) ∧
      0 < cap ∧ 0 ≤ est ∧ Binary64.round cap < Binary64.round (spent key+est : Int)) := by
  by_cases hcap : cap ≤ 0
  · left
    simp only [reserve,reserveArgs,if_pos hcap]
    exact ⟨_,rfl,.inl hcap⟩
  by_cases hneg : est < 0
  · left
    simp only [reserve,reserveArgs,if_neg hcap,if_pos hneg]
    exact ⟨_,rfl,.inr (.inl hneg)⟩
  have hscript := reserveScript_eq cap (abs_lt.2 ⟨by omega,hest⟩) (ttl_pos now) hk
  by_cases hin : InRange (spent key+est)
  · rcases lt_or_ge (Binary64.round cap) (Binary64.round (spent key+est : Int)) with hc | hc
    · refine .inr (.inr ⟨?_,by omega,by omega,hc⟩)
      rw [if_neg (not_not.2 hin),if_pos hc] at hscript
      simp [reserve,reserveArgs,hcap,hneg,hscript,reserveReply]
    · refine .inr (.inl ⟨?_,by omega,by omega,hin,hc⟩)
      rw [if_neg (not_not.2 hin),if_neg (not_lt.2 hc)] at hscript
      simp [reserve,reserveArgs,hcap,hneg,hscript,reserveReply]
  · rw [if_pos hin] at hscript
    left
    simp only [reserve,reserveArgs,if_neg hcap,if_neg hneg,hscript,reserveReply]
    exact ⟨_,rfl,.inr (.inr hin)⟩

theorem reconcile_cases (key : Option Counter) {r : Reservation} {actual : Int}
    (hr : 0 ≤ r.reserved ∧ r.reserved < 2^53) (ha : 0 ≤ actual) (hrange : InRange actual) :
    (actual = r.reserved ∧ reconcile key (some r) actual = (.ok (),key)) ∨
    (actual ≠ r.reserved ∧ InRange (spent key+(actual-r.reserved)) ∧
      reconcile key (some r) actual =
        (.ok (),some ⟨spent key+(actual-r.reserved),key.bind Counter.ttl⟩)) ∨
    (¬InRange (spent key+(actual-r.reserved)) ∧
      ∃ e, reconcile key (some r) actual = (.error e,key)) := by
  have hsub : sub actual r.reserved = actual-r.reserved :=
    sub_nonneg_eq ha hr.1 hrange (by unfold InRange; omega)
  by_cases heq : actual = r.reserved
  · refine .inl ⟨heq,?_⟩
    simp [reconcile,reconcileDelta,not_lt.2 ha,hsub,sub_eq_zero.2 heq]
  have hne : actual-r.reserved ≠ 0 := by omega
  by_cases hin : InRange (spent key+(actual-r.reserved))
  · refine .inr (.inl ⟨heq,hin,?_⟩)
    simp [reconcile,reconcileDelta,not_lt.2 ha,hsub,hne,incrBy_of_inRange hin]
  · right; right
    simp only [reconcile,reconcileDelta,if_neg (not_lt.2 ha),hsub,if_neg hne,incrBy,if_neg hin]
    exact ⟨hin,_,rfl⟩

theorem round_le_round_iff {total cap : Int} (hcap : 0 < cap) (h0 : 0 ≤ total) (h : total < 2^53) :
    Binary64.round total ≤ Binary64.round cap ↔ total ≤ cap := by
  have ht : Binary64.round total = total := Binary64.round_intCast (abs_lt.2 ⟨by omega,h⟩)
  rw [ht]
  by_cases hc : cap < 2^53
  · have hr : Binary64.round cap = cap := Binary64.round_intCast (abs_lt.2 ⟨by omega,hc⟩)
    rw [hr]
    exact_mod_cast Iff.rfl
  · have hbig : Binary64.round ((2^53-1 : Int) : ℚ) ≤ Binary64.round cap :=
      Binary64.round_mono (by norm_num) (by exact_mod_cast (by omega : (2^53-1 : Int) ≤ cap))
    rw [Binary64.round_intCast (by norm_num)] at hbig
    have hle : (total : ℚ) ≤ ((2^53-1 : Int) : ℚ) := Int.cast_le.2 (by omega : total ≤ 2^53-1)
    exact iff_of_true (hle.trans hbig) (by omega)

theorem lt_of_round_lt {total cap : Int} (hcap : 0 < cap)
    (h : Binary64.round cap < Binary64.round total) : cap < total := by
  by_contra hle
  rcases le_or_gt total 0 with hneg | hpos
  · have hone : Binary64.round ((1 : Int) : ℚ) ≤ Binary64.round cap :=
      Binary64.round_mono (by norm_num) (by exact_mod_cast hcap)
    have hzero : Binary64.round total ≤ 0 := Binary64.round_nonpos (by exact_mod_cast hneg)
    rw [Binary64.round_intCast (by norm_num)] at hone
    push_cast at hone
    linarith
  · have hmono : Binary64.round total ≤ Binary64.round cap :=
      Binary64.round_mono (by exact_mod_cast hpos) (by exact_mod_cast not_lt.1 hle)
    exact absurd hmono (not_le.2 h)

/-- A cap that is a different double from its successor is never exceeded. -/
theorem le_of_round_le {total cap : Int} (hcap : 0 < cap)
    (hsep : Binary64.round cap < Binary64.round (cap+1 : Int))
    (h : Binary64.round total ≤ Binary64.round cap) : total ≤ cap := by
  by_contra hc
  have hm : Binary64.round (cap+1 : Int) ≤ Binary64.round total :=
    Binary64.round_mono (by exact_mod_cast (by omega : 0 < cap+1))
      (by exact_mod_cast (by omega : cap+1 ≤ total))
  exact absurd (hm.trans h) (not_le.2 hsep)

end Switchyard.Budget
