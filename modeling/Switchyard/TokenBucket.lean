import Switchyard.Binary64
import Switchyard.GoText
import Switchyard.MachineInt
set_option autoImplicit false

/-!
The token bucket in Redis (internal/ratelimit/bucket.go). The two Lua scripts
compute in whatever arithmetic the limiter is given: Lua's own, which is doubles
with a 14-digit `tostring`, or exact rationals.
-/

namespace Switchyard.RateLimit
open MachineInt GoText

inductive LimitType where
  | rpm
  | tpm
  deriving DecidableEq, Repr

def LimitType.text : LimitType → String
  | .rpm => "rpm"
  | .tpm => "tpm"

/-- `round` is applied to the result of an operation; `print` is what a number
is after it was written with `tostring` and read again. -/
structure Arithmetic where
  round : ℚ → ℚ
  print : ℚ → ℚ

def Arithmetic.exact : Arithmetic := ⟨id,id⟩

/-- The decimal with 14 significant digits nearest x (`%.14g`). -/
def digits14 (x : ℚ) : ℚ :=
  let unit : ℚ := 10^(Int.log 10 |x|-13)
  Binary64.halfEven (x/unit)*unit

def Arithmetic.lua : Arithmetic := ⟨Binary64.round,fun x => Binary64.round (digits14 x)⟩

structure Limiter where
  arith : Arithmetic
  printDuration : Int → String

/-- The bucket's hash, with the lifetime PEXPIRE gave it in milliseconds. -/
structure Bucket where
  tokens : ℚ
  ts : ℚ
  ttl : Int
  deriving DecidableEq, Repr

structure Clock where
  seconds : Nat
  micros : Nat
  deriving DecidableEq, Repr

structure Result where
  allowed : Bool
  remaining : ℚ
  retryAfter : Int
  deriving DecidableEq, Repr

structure Reservation where
  teamID : String
  kind : LimitType
  capacity : Int
  reserved : Int
  ttl : Int
  deriving DecidableEq, Repr

namespace Limiter

variable (l : Limiter)

def now (clock : Clock) : ℚ :=
  l.arith.round (l.arith.round clock.seconds+l.arith.round (l.arith.round clock.micros/1000000))

def refillPerSecond (capacityPerMinute : Int) : ℚ :=
  l.arith.round (l.arith.round capacityPerMinute/60)

def balance (bucket : Option Bucket) (clock : Clock) (capacityPerMinute : Int) : ℚ :=
  let capacity := l.arith.round capacityPerMinute
  match bucket with
  | none => capacity
  | some b =>
    let elapsed := l.arith.round (l.now clock-b.ts)
    if 0 < elapsed then
      min capacity
        (l.arith.round (b.tokens+l.arith.round (elapsed*l.refillPerSecond capacityPerMinute)))
    else b.tokens

def saved (tokens : ℚ) (clock : Clock) (ttl : Int) : Bucket :=
  ⟨l.arith.print tokens,l.arith.print (l.now clock),ttl.tdiv 1000000⟩

/-- `consumeScript`: its reply, with the numbers as the caller reads them. -/
def consumeScript (bucket : Option Bucket) (clock : Clock) (capacityPerMinute amount ttl : Int) :
    (Bool × ℚ × ℚ) × Bucket :=
  let tokens := l.balance bucket clock capacityPerMinute
  let requested := l.arith.round amount
  if requested ≤ tokens then
    let left := l.arith.round (tokens-requested)
    ((true,l.arith.print left,0),l.saved left clock ttl)
  else
    let deficit := l.arith.round (requested-tokens)
    let retryAfter := l.arith.round (deficit/l.refillPerSecond capacityPerMinute)
    ((false,l.arith.print tokens,l.arith.print retryAfter),l.saved tokens clock ttl)

def settleScript (bucket : Option Bucket) (clock : Clock) (capacityPerMinute delta ttl : Int) :
    Bucket :=
  let tokens := l.balance bucket clock capacityPerMinute
  l.saved (min (l.arith.round capacityPerMinute) (l.arith.round (tokens+l.arith.round delta)))
    clock ttl

def consumeArgs (capacityPerMinute amount ttl : Int) : Except String Unit :=
  if capacityPerMinute ≤ 0 then
    .error s!"ratelimit: capacity must be positive, got {capacityPerMinute}"
  else if amount ≤ 0 then .error s!"ratelimit: amount must be positive, got {amount}"
  else if ttl ≤ 0 then .error s!"ratelimit: ttl must be positive, got {l.printDuration ttl}"
  else .ok ()

/-- `time.Duration(seconds * float64(time.Second))`. -/
def duration (seconds : ℚ) : Int :=
  let x := l.arith.round (seconds*1000000000)
  convert (if 0 ≤ x then ⌊x⌋ else ⌈x⌉)

/-- `Consume` on a reachable Redis: its outcome and the bucket after it. -/
def consume (bucket : Option Bucket) (clock : Clock) (capacityPerMinute amount ttl : Int) :
    Except String Result × Option Bucket :=
  match l.consumeArgs capacityPerMinute amount ttl with
  | .error e => (.error e,bucket)
  | .ok () =>
    let ((allowed,remaining,retryAfter),after) :=
      l.consumeScript bucket clock capacityPerMinute amount ttl
    (.ok ⟨allowed,remaining,l.duration retryAfter⟩,some after)

def reserve (bucket : Option Bucket) (clock : Clock) (teamID : String) (kind : LimitType)
    (capacityPerMinute amount ttl : Int) :
    Except String (Option Reservation × Result) × Option Bucket :=
  match l.consume bucket clock capacityPerMinute amount ttl with
  | (.error e,after) => (.error e,after)
  | (.ok res,after) =>
    if res.allowed then (.ok (some ⟨teamID,kind,capacityPerMinute,amount,ttl⟩,res),after)
    else (.ok (none,res),after)

/-- The adjustment `Reconcile` sends to the bucket, if it sends one. -/
def reconcileDelta (r : Option Reservation) (actual : Int) : Except String (Option Int) :=
  match r with
  | none => .ok none
  | some r =>
    if actual < 0 then .error s!"ratelimit: actual usage cannot be negative, got {actual}"
    else if sub r.reserved actual = 0 then .ok none
    else .ok (some (sub r.reserved actual))

/-- `Reconcile` on a reachable Redis. -/
def reconcile (bucket : Option Bucket) (clock : Clock) (r : Option Reservation) (actual : Int) :
    Except String Unit × Option Bucket :=
  match r,reconcileDelta r actual with
  | _,.error e => (.error e,bucket)
  | some r,.ok (some delta) => (.ok (),some (l.settleScript bucket clock r.capacity delta r.ttl))
  | _,.ok _ => (.ok (),bucket)

theorem consume_cases (bucket : Option Bucket) (clock : Clock) (cap amount ttl : Int) :
    (∃ e,l.consume bucket clock cap amount ttl = (.error e,bucket) ∧
      (cap ≤ 0 ∨ amount ≤ 0 ∨ ttl ≤ 0)) ∨
    (l.consume bucket clock cap amount ttl =
        (.ok ⟨true,l.arith.print (l.arith.round (l.balance bucket clock cap-l.arith.round amount)),
          l.duration 0⟩,
          some (l.saved (l.arith.round (l.balance bucket clock cap-l.arith.round amount)) clock
            ttl)) ∧
      0 < cap ∧ 0 < amount ∧ l.arith.round amount ≤ l.balance bucket clock cap) ∨
    (∃ retryAfter,l.consume bucket clock cap amount ttl =
        (.ok ⟨false,l.arith.print (l.balance bucket clock cap),retryAfter⟩,
          some (l.saved (l.balance bucket clock cap) clock ttl)) ∧
      0 < cap ∧ 0 < amount ∧ l.balance bucket clock cap < l.arith.round amount) := by
  unfold consume consumeArgs
  by_cases hcap : cap ≤ 0
  · simp [hcap]
  by_cases hamount : amount ≤ 0
  · simp [hcap,hamount]
  by_cases httl : ttl ≤ 0
  · simp [hcap,hamount,httl]
  right
  unfold consumeScript
  by_cases henough : l.arith.round amount ≤ l.balance bucket clock cap
  · left
    refine ⟨?_,by omega,by omega,henough⟩
    simp only [if_neg hcap,if_neg hamount,if_neg httl,if_pos henough]
  · right
    simp only [if_neg hcap,if_neg hamount,if_neg httl,if_neg henough]
    exact ⟨_,rfl,by omega,by omega,lt_of_not_ge henough⟩

-- of the clock reading Lua's `tostring` keeps fourteen digits
example : ((Limiter.mk .lua fun _ => "").consume none ⟨1700000000,123456⟩ 60 1 120000000000).2 =
    some ⟨59,Binary64.round (17000000001235/10000),120000⟩ := by decide +kernel

theorem reserve_cases (bucket : Option Bucket) (clock : Clock) (team : String) (kind : LimitType)
    (cap amount ttl : Int) :
    (∃ e,l.reserve bucket clock team kind cap amount ttl = (.error e,bucket) ∧
      (cap ≤ 0 ∨ amount ≤ 0 ∨ ttl ≤ 0)) ∨
    (∃ after,l.reserve bucket clock team kind cap amount ttl =
        (.ok (some ⟨team,kind,cap,amount,ttl⟩,
          ⟨true,l.arith.print (l.arith.round (l.balance bucket clock cap-l.arith.round amount)),
            l.duration 0⟩),after) ∧
      0 < cap ∧ 0 < amount ∧ l.arith.round amount ≤ l.balance bucket clock cap) ∨
    (∃ res after,l.reserve bucket clock team kind cap amount ttl = (.ok (none,res),after) ∧
      res.allowed = false ∧ 0 < cap ∧ 0 < amount ∧
        l.balance bucket clock cap < l.arith.round amount) := by
  unfold reserve
  obtain ⟨e,heq,hbad⟩ | ⟨heq,hrest⟩ | ⟨retryAfter,heq,hrest⟩ :=
    l.consume_cases bucket clock cap amount ttl
  · exact .inl ⟨e,by rw [heq],hbad⟩
  · exact .inr (.inl ⟨_,by rw [heq]; rfl,hrest⟩)
  · exact .inr (.inr ⟨_,_,by rw [heq]; rfl,rfl,hrest⟩)

theorem reconcile_outcome (bucket : Option Bucket) (clock : Clock) (r : Option Reservation)
    (actual : Int) :
    (l.reconcile bucket clock r actual).1 = (reconcileDelta r actual).map fun _ => () := by
  unfold reconcile
  cases r with
  | none => rfl
  | some r =>
    cases reconcileDelta (some r) actual with
    | error e => rfl
    | ok delta => cases delta <;> rfl

end Limiter

end Switchyard.RateLimit
