import Switchyard.LazyRefill
import Switchyard.StepRuns
import Switchyard.TokenBucket
set_option autoImplicit false

/-!
One bucket over any run of the calls that replicas make on it, over exact
rationals. A limiter keeps nothing of its own, so a run is the order in which
Redis executed the scripts.
-/

namespace Switchyard.RateLimit
open StepRuns LazyRefill

inductive Request where
  | consume (amount ttl : Int)
  | reserve (amount ttl : Int)
  | reconcile (r : Option Reservation) (actual : Int)
  deriving DecidableEq, Repr

structure Call where
  clock : Clock
  request : Request
  deriving DecidableEq, Repr

inductive Reply where
  | consumed (r : Except String Result)
  | reserved (r : Except String (Option Reservation × Result))
  | reconciled (r : Except String Unit)

def Reply.result : Reply → Option Result
  | .consumed (.ok r) => some r
  | .reserved (.ok (_,r)) => some r
  | _ => none

def Reply.handle : Reply → Option Reservation
  | .reserved (.ok (handle,_)) => handle
  | _ => none

def Reply.allowed (r : Reply) : Bool := r.result.any Result.allowed

/-- Redis's view of one bucket, with the handles given out and the last clock
reading. -/
structure Store where
  bucket : Option Bucket
  issued : List Reservation
  last : Clock
  deriving DecidableEq, Repr

def Store.start : Store := ⟨none,[],⟨0,0⟩⟩

def Clock.millis (c : Clock) : Int := c.seconds*1000+c.micros/1000

/-- Whether PEXPIRE has removed the key; it counts from the script's own time. -/
def Bucket.expired (b : Bucket) (clock : Clock) : Bool :=
  b.ttl ≤ 0 ∨ ⌊b.ts*1000⌋+b.ttl < clock.millis

/-- What a script finds; a lasting key never expires. -/
def Store.found (lasting : Bool) (s : Store) (clock : Clock) : Option Bucket :=
  if lasting then s.bucket else s.bucket.filter fun b => !b.expired clock

def Request.amount : Request → Int
  | .consume amount _ => amount
  | .reserve amount _ => amount
  | .reconcile _ _ => 0

def Request.handle : Request → Option Reservation
  | .reconcile r _ => r
  | _ => none

def Request.lifetime : Request → Option Int
  | .consume _ ttl => some ttl
  | .reserve _ ttl => some ttl
  | .reconcile r _ => r.map Reservation.ttl

def Request.delta : Request → Int
  | .reconcile r actual =>
    match Limiter.reconcileDelta r actual with
    | .ok (some delta) => delta
    | _ => 0
  | _ => 0

section

variable (l : Limiter) (team : String) (kind : LimitType) (cap : Int) (lasting : Bool)

def Limiter.answer (found : Option Bucket) (c : Call) : Reply × Option Bucket :=
  match c.request with
  | .consume amount ttl =>
    let (r,bucket) := l.consume found c.clock cap amount ttl
    (.consumed r,bucket)
  | .reserve amount ttl =>
    let (r,bucket) := l.reserve found c.clock team kind cap amount ttl
    (.reserved r,bucket)
  | .reconcile r actual =>
    let (r,bucket) := l.reconcile found c.clock r actual
    (.reconciled r,bucket)

def Store.serve (s : Store) (c : Call) : Reply × Store :=
  let (reply,bucket) := l.answer team kind cap (s.found lasting c.clock) c
  (reply,⟨bucket,s.issued ++ reply.handle.toList,c.clock⟩)

/-- The clock does not run backwards, and only handles that were given out are
reconciled. -/
structure Legal (s : Store) (c : Call) : Prop where
  clock : l.now s.last ≤ l.now c.clock
  handle : ∀ r ∈ c.request.handle.toList,r ∈ s.issued

instance (s : Store) (c : Call) : Decidable (Legal l s c) :=
  decidable_of_iff (l.now s.last ≤ l.now c.clock ∧ ∀ r ∈ c.request.handle.toList,r ∈ s.issued)
    ⟨fun h => ⟨h.1,h.2⟩,fun h => ⟨h.clock,h.handle⟩⟩

end

def Request.granted (q : Request) (r : Reply) : Int := if r.allowed then q.amount else 0

/-- What a reconciliation puts back into a bucket with this much room. -/
def Request.returned (q : Request) (room : ℚ) : ℚ := min (max q.delta 0) room

def Request.debited (q : Request) : Int := max (-q.delta) 0

/-- The limiter over exact rationals; p prints durations. -/
def Limiter.exact (p : Int → String) : Limiter := ⟨.exact,p⟩

section Exact

variable {p : Int → String} {team : String} {kind : LimitType} {cap : Int}

/-- A bucket a script can leave behind: within the capacity, written in the past. -/
def Bucket.Sound (l : Limiter) (cap : Int) (clock : Clock) (b : Bucket) : Prop :=
  b.tokens ≤ cap ∧ b.ts ≤ l.now clock

theorem Bucket.Sound.later {l : Limiter} {b : Bucket} {clock clock' : Clock}
    (h : b.Sound l cap clock) (hle : l.now clock ≤ l.now clock') : b.Sound l cap clock' :=
  ⟨h.1,h.2.trans hle⟩

theorem rate_pos (hcap : 0 < cap) : (0 : ℚ) < cap/60 :=
  div_pos (by exact_mod_cast hcap) (by norm_num)

theorem balance_some (b : Bucket) (clock : Clock) :
    (Limiter.exact p).balance (some b) clock cap =
      if 0 < (Limiter.exact p).now clock-b.ts then
        min (cap : ℚ) (b.tokens+((Limiter.exact p).now clock-b.ts)*(cap/60)) else b.tokens := rfl

theorem Bucket.Sound.balance_eq {b : Bucket} {clock : Clock} (h : b.Sound (.exact p) cap clock) :
    (Limiter.exact p).balance (some b) clock cap =
      refill (cap : ℚ) (cap/60) b.tokens ((Limiter.exact p).now clock-b.ts) := by
  obtain ⟨hle,hts⟩ := h
  have helapsed : 0 ≤ (Limiter.exact p).now clock-b.ts := sub_nonneg.2 hts
  rcases helapsed.lt_or_eq with hpos | hzero
  · exact if_pos hpos
  · rw [← hzero,refill_zero hle]
    exact if_neg (not_lt_of_ge hzero.ge)

theorem balance_saved {tokens : ℚ} (clock : Clock) (ttl : Int) :
    (Limiter.exact p).balance (some ((Limiter.exact p).saved tokens clock ttl)) clock cap =
      tokens := by
  exact if_neg (by simp [Limiter.exact,Limiter.saved,Arithmetic.exact])

variable {found : Option Bucket} {c : Call}

theorem balance_le {clock : Clock} (hfound : ∀ b ∈ found,b.tokens ≤ cap) :
    (Limiter.exact p).balance found clock cap ≤ cap := by
  cases found with
  | none => exact le_refl (cap : ℚ)
  | some b =>
    simp only [Limiter.balance]
    split
    · exact min_le_left _ _
    · exact hfound b rfl

inductive Effect (l : Limiter) (cap : Int) (found : Option Bucket) (c : Call) :
    Reply → Option Bucket → Prop where
  | refused {r : Reply} : r.allowed = false → c.request.delta = 0 → Effect l cap found c r found
  | granted {r : Reply} {ttl : Int} : r.allowed = true → c.request.delta = 0 →
      c.request.lifetime = some ttl → 0 < c.request.amount →
      c.request.amount ≤ l.balance found c.clock cap →
      Effect l cap found c r
        (some (l.saved (l.balance found c.clock cap-c.request.amount) c.clock ttl))
  | denied {r : Reply} {ttl : Int} : r.allowed = false → c.request.delta = 0 →
      c.request.lifetime = some ttl →
      Effect l cap found c r (some (l.saved (l.balance found c.clock cap) c.clock ttl))
  | settled {r : Reply} {ttl : Int} : r.allowed = false → c.request.lifetime = some ttl →
      Effect l cap found c r
        (some (l.saved (min (cap : ℚ) (l.balance found c.clock cap+c.request.delta)) c.clock ttl))

theorem answer_effect (hhandle : ∀ r ∈ c.request.handle.toList,r.capacity = cap) :
    Effect (.exact p) cap found c ((Limiter.exact p).answer team kind cap found c).1
      ((Limiter.exact p).answer team kind cap found c).2 := by
  obtain ⟨clock,request⟩ := c
  cases request with
  | consume amount ttl =>
    obtain ⟨e,heq,-⟩ | ⟨heq,-,hpos,hcover⟩ | ⟨retryAfter,heq,-⟩ :=
      (Limiter.exact p).consume_cases found clock cap amount ttl
    · simp only [Limiter.answer,heq]
      exact .refused rfl rfl
    · simp only [Limiter.answer,heq]
      exact .granted rfl rfl rfl hpos hcover
    · simp only [Limiter.answer,heq]
      exact .denied rfl rfl rfl
  | reserve amount ttl =>
    obtain ⟨e,heq,-⟩ | ⟨heq,-,hpos,hcover⟩ | ⟨retryAfter,heq,-⟩ :=
      (Limiter.exact p).consume_cases found clock cap amount ttl
    · simp only [Limiter.answer,Limiter.reserve,heq]
      exact .refused rfl rfl
    · simp only [Limiter.answer,Limiter.reserve,heq]
      exact .granted rfl rfl rfl hpos hcover
    · simp only [Limiter.answer,Limiter.reserve,heq]
      exact .denied rfl rfl rfl
  | reconcile r actual =>
    cases r with
    | none => exact .refused rfl rfl
    | some r =>
      obtain rfl := hhandle r (by simp [Request.handle])
      simp only [Limiter.answer,Limiter.reconcile]
      cases hdelta : Limiter.reconcileDelta (some r) actual with
      | error e => exact .refused rfl (by simp [Request.delta,hdelta])
      | ok delta =>
        cases delta with
        | none => exact .refused rfl (by simp [Request.delta,hdelta])
        | some delta =>
          have hrequest : (Request.reconcile (some r) actual).delta = delta := by
            simp [Request.delta,hdelta]
          have hsettled : Effect (.exact p) r.capacity found
              ⟨clock,.reconcile (some r) actual⟩ (.reconciled (.ok ())) _ := .settled rfl rfl
          rw [hrequest] at hsettled
          exact hsettled

variable {after : Option Bucket} {r : Reply} {r' : Reservation}

theorem sound_saved {tokens : ℚ} (h : tokens ≤ cap) (clock : Clock) (ttl : Int) :
    ((Limiter.exact p).saved tokens clock ttl).Sound (.exact p) cap clock := ⟨h,le_refl _⟩

theorem Effect.sound (h : Effect (.exact p) cap found c r after)
    (hfound : ∀ b ∈ found,b.Sound (.exact p) cap c.clock) :
    ∀ b ∈ after,b.Sound (.exact p) cap c.clock := by
  have hle : (Limiter.exact p).balance found c.clock cap ≤ cap :=
    balance_le fun b hb => (hfound b hb).1
  intro b hb
  cases h with
  | refused _ _ => exact hfound b hb
  | granted _ _ _ hpos _ =>
    cases hb
    have hamount : (0 : ℚ) < c.request.amount := by exact_mod_cast hpos
    exact sound_saved (by linarith) c.clock _
  | denied _ _ _ =>
    cases hb
    exact sound_saved hle c.clock _
  | settled _ _ =>
    cases hb
    exact sound_saved (min_le_left _ _) c.clock _

theorem Effect.balance (h : Effect (.exact p) cap found c r after)
    (hfound : ∀ b ∈ found,b.Sound (.exact p) cap c.clock) :
    (Limiter.exact p).balance after c.clock cap = (Limiter.exact p).balance found c.clock cap-
      c.request.granted r+c.request.returned (cap-(Limiter.exact p).balance found c.clock cap)-
      c.request.debited := by
  have hroom : 0 ≤ (cap : ℚ)-(Limiter.exact p).balance found c.clock cap :=
    sub_nonneg.2 (balance_le fun b hb => (hfound b hb).1)
  cases h with
  | refused hr hdelta =>
    simp [Request.granted,Request.returned,Request.debited,hr,hdelta,hroom]
  | granted hr hdelta _ _ _ =>
    rw [balance_saved]
    simp [Request.granted,Request.returned,Request.debited,hr,hdelta,hroom]
  | denied hr hdelta _ =>
    rw [balance_saved]
    simp [Request.granted,Request.returned,Request.debited,hr,hdelta,hroom]
  | settled hr _ =>
    rw [balance_saved]
    simp only [Request.granted,Request.returned,Request.debited,hr]
    generalize (Limiter.exact p).balance found c.clock cap = before at hroom ⊢
    generalize c.request.delta = delta
    rcases le_total 0 delta with hdelta | hdelta
    · have hnonneg : (0 : ℚ) ≤ delta := by exact_mod_cast hdelta
      rw [max_eq_left hnonneg,max_eq_right (by omega : -delta ≤ 0)]
      rcases le_total (cap : ℚ) (before+delta) with hfull | hfits
      · rw [min_eq_left hfull,min_eq_right (by linarith)]
        simp
      · rw [min_eq_right hfits,min_eq_left (by linarith)]
        simp
    · have hnonpos : (delta : ℚ) ≤ 0 := by exact_mod_cast hdelta
      rw [max_eq_right hnonpos,max_eq_left (by omega : 0 ≤ -delta),min_eq_left hroom,
        min_eq_right (by linarith)]
      simp

theorem answer_handle (h : ((Limiter.exact p).answer team kind cap found c).1.handle = some r') :
    r'.capacity = cap := by
  obtain ⟨clock,request⟩ := c
  cases request with
  | consume amount ttl => simp [Limiter.answer,Reply.handle] at h
  | reconcile r actual => simp [Limiter.answer,Reply.handle] at h
  | reserve amount ttl =>
    obtain ⟨e,heq,-⟩ | ⟨after,heq,-⟩ | ⟨res,after,heq,-⟩ :=
      (Limiter.exact p).reserve_cases found clock team kind cap amount ttl
    · simp [Limiter.answer,heq,Reply.handle] at h
    · simp only [Limiter.answer,heq,Reply.handle,Option.some.injEq] at h
      rw [← h]
    · simp [Limiter.answer,heq,Reply.handle] at h

end Exact

section Runs

variable (l : Limiter) (team : String) (kind : LimitType) (cap : Int) (lasting : Bool)

def Store.step (s : Store) (c : Call) : Option Store :=
  some (s.serve l team kind cap lasting c).2

structure Store.Sound (s : Store) : Prop where
  bucket : ∀ b ∈ s.bucket,b.Sound l cap s.last
  issued : ∀ r ∈ s.issued,r.capacity = cap

/-- The tokens that move in one call: granted, asked back and put back by
`Reconcile`, and debited by it. -/
structure Flow where
  granted : ℚ
  asked : ℚ
  returned : ℚ
  debited : ℚ
  deriving DecidableEq, Repr

def Flow.net (f : Flow) : ℚ := f.granted-f.returned+f.debited

def Store.flow (s : Store) (c : Call) : Flow :=
  let room := cap-l.balance (s.found lasting c.clock) c.clock cap
  ⟨c.request.granted (s.serve l team kind cap lasting c).1,max c.request.delta 0,
    c.request.returned room,c.request.debited⟩

def Store.flows (s : Store) (cs : List Call) : List Flow :=
  (replies (fun s c => (s.flow l team kind cap lasting c,
    (s.serve l team kind cap lasting c).2)) s cs).1

end Runs

section Conserves

variable {p : Int → String} {team : String} {kind : LimitType} {cap : Int} {lasting : Bool}
  {s t : Store} {c : Call} {cs : List Call}

theorem mem_found {b : Bucket} {clock : Clock} (h : b ∈ s.found lasting clock) : b ∈ s.bucket := by
  unfold Store.found at h
  split at h
  · exact h
  · exact (Option.mem_filter_iff.1 h).1

theorem Store.Sound.found (hs : s.Sound (.exact p) cap)
    (hclock : (Limiter.exact p).now s.last ≤ (Limiter.exact p).now c.clock) :
    ∀ b ∈ s.found lasting c.clock,b.Sound (.exact p) cap c.clock :=
  fun b hb => (hs.bucket b (mem_found hb)).later hclock

theorem serve_effect (hs : s.Sound (.exact p) cap) (hc : Legal (.exact p) s c) :
    Effect (.exact p) cap (s.found lasting c.clock) c
      (s.serve (.exact p) team kind cap lasting c).1
      (s.serve (.exact p) team kind cap lasting c).2.bucket :=
  answer_effect fun r hr => hs.issued r (hc.handle r hr)

theorem lasting_effect (hs : s.Sound (.exact p) cap) (hc : Legal (.exact p) s c) :
    Effect (.exact p) cap s.bucket c (s.serve (.exact p) team kind cap true c).1
      (s.serve (.exact p) team kind cap true c).2.bucket := by
  have h : Effect (.exact p) cap (s.found true c.clock) c
    (s.serve (.exact p) team kind cap true c).1 _ := serve_effect hs hc
  exact h

theorem serve_sound (hs : s.Sound (.exact p) cap) (hc : Legal (.exact p) s c) :
    (s.serve (.exact p) team kind cap lasting c).2.Sound (.exact p) cap := by
  constructor
  · exact (serve_effect hs hc).sound (hs.found hc.clock)
  · intro r hr
    obtain hr | hr := List.mem_append.1 hr
    · exact hs.issued r hr
    · exact answer_handle (Option.mem_toList.1 hr)

theorem balance_later (hcap : 0 < cap) (hs : s.Sound (.exact p) cap) {u v : Clock}
    (hu : (Limiter.exact p).now s.last ≤ (Limiter.exact p).now u)
    (huv : (Limiter.exact p).now u ≤ (Limiter.exact p).now v) :
    (Limiter.exact p).balance s.bucket v cap ≤ (Limiter.exact p).balance s.bucket u cap+
      ((Limiter.exact p).now v-(Limiter.exact p).now u)*(cap/60) := by
  have hrate := (rate_pos hcap).le
  cases hb : s.bucket with
  | none => exact le_add_of_nonneg_right (mul_nonneg (sub_nonneg.2 huv) hrate)
  | some b =>
    have hsound := (hs.bucket b hb).later hu
    rw [hsound.balance_eq,(hsound.later huv).balance_eq]
    have hsplit : (Limiter.exact p).now v-b.ts = ((Limiter.exact p).now u-b.ts)+
        ((Limiter.exact p).now v-(Limiter.exact p).now u) := by ring
    rw [hsplit,← refill_refill hrate (sub_nonneg.2 huv)]
    exact refill_le

theorem flow_net (hs : s.Sound (.exact p) cap) (hc : Legal (.exact p) s c) :
    (s.flow (.exact p) team kind cap true c).net =
      (Limiter.exact p).balance s.bucket c.clock cap-
      (Limiter.exact p).balance (s.serve (.exact p) team kind cap true c).2.bucket c.clock
        cap := by
  rw [(serve_effect hs hc).balance (hs.found hc.clock)]
  simp only [Store.flow,Flow.net,Store.found,if_true]
  ring

theorem reaches_sound
    (h : Reaches (Store.step (.exact p) team kind cap lasting)
      (Legal (.exact p)) s cs t) (hs : s.Sound (.exact p) cap) : t.Sound (.exact p) cap :=
  h.invariant (fun _ _ _ hi hok hst => Option.some.inj hst ▸ serve_sound hi hok) hs

theorem reaches_clock
    (h : Reaches (Store.step (.exact p) team kind cap lasting)
      (Legal (.exact p)) s cs t) (hmem : c ∈ cs) :
    (Limiter.exact p).now s.last ≤ (Limiter.exact p).now c.clock := by
  induction h with
  | stop s => cases hmem
  | next hok hst _ ih =>
    obtain rfl | hmem := List.mem_cons.1 hmem
    · exact hok.clock
    · cases hst
      exact hok.clock.trans (ih hmem)

/-- The potential argument: what leaves a bucket was in it or was refilled. -/
theorem flows_le (hcap : 0 < cap) {cs : List Call}
    (h : Reaches (Store.step (.exact p) team kind cap true)
      (Legal (.exact p)) s cs t) (hs : s.Sound (.exact p) cap) {u v : Clock}
    (hu : (Limiter.exact p).now s.last ≤ (Limiter.exact p).now u)
    (huv : (Limiter.exact p).now u ≤ (Limiter.exact p).now v)
    (hwindow : ∀ c ∈ cs,(Limiter.exact p).now u ≤ (Limiter.exact p).now c.clock ∧
      (Limiter.exact p).now c.clock ≤ (Limiter.exact p).now v) :
    ((s.flows (.exact p) team kind cap true cs).map Flow.net).sum ≤
      (Limiter.exact p).balance s.bucket u cap+
        ((Limiter.exact p).now v-(Limiter.exact p).now u)*(cap/60)-
      (Limiter.exact p).balance t.bucket v cap := by
  induction h generalizing u with
  | stop s =>
    have hidle := balance_later hcap hs hu huv
    simp only [Store.flows,replies,List.map_nil,List.sum_nil]
    linarith
  | @next s _ t c cs hok hst hrest ih =>
    cases hst
    obtain ⟨huc,hcv⟩ := hwindow c (by simp)
    have hlast : (s.serve (.exact p) team kind cap true c).2.last = c.clock := rfl
    have hlater := ih (u := c.clock) (serve_sound hs hok) (by rw [hlast]) hcv fun d hd => by
      have hclock := reaches_clock hrest hd
      rw [hlast] at hclock
      exact ⟨hclock,(hwindow d (by simp [hd])).2⟩
    have hcall := @flow_net p team kind cap s c hs hok
    have hidle := balance_later hcap hs hu huc
    simp only [Store.flows,replies,List.map_cons,List.sum_cons] at hlater ⊢
    linarith

theorem sum_net (fs : List Flow) : (fs.map Flow.net).sum =
    (fs.map Flow.granted).sum-(fs.map Flow.returned).sum+(fs.map Flow.debited).sum := by
  induction fs with
  | nil => simp
  | cons f fs ih =>
    simp only [List.map_cons,List.sum_cons,ih,Flow.net]
    ring

theorem returned_le_asked (l : Limiter) (s : Store) (cs : List Call) :
    ((s.flows l team kind cap lasting cs).map Flow.returned).sum ≤
      ((s.flows l team kind cap lasting cs).map Flow.asked).sum := by
  induction cs generalizing s with
  | nil => exact le_refl 0
  | cons c cs ih => exact add_le_add (min_le_left _ _) (ih _)

/-- A call that neither grants nor settles leaves the bucket, at every later
time, as it would have been. -/
theorem serve_idle (hcap : 0 < cap) (hs : s.Sound (.exact p) cap) (hc : Legal (.exact p) s c)
    (hdenied : (s.serve (.exact p) team kind cap true c).1.allowed = false)
    (hdelta : c.request.delta = 0) {v : Clock}
    (hv : (Limiter.exact p).now c.clock ≤ (Limiter.exact p).now v) :
    (Limiter.exact p).balance (s.serve (.exact p) team kind cap true c).2.bucket v cap =
      (Limiter.exact p).balance s.bucket v cap := by
  have hrate := (rate_pos hcap).le
  have hle : (Limiter.exact p).balance s.bucket c.clock cap ≤ cap :=
    balance_le fun b hb => (hs.bucket b hb).1
  have hlook : ∀ ttl,(Limiter.exact p).balance (some ((Limiter.exact p).saved
      ((Limiter.exact p).balance s.bucket c.clock cap) c.clock ttl)) v cap =
      (Limiter.exact p).balance s.bucket v cap := by
    intro ttl
    rw [((sound_saved hle c.clock ttl).later hv).balance_eq]
    cases hb : s.bucket with
    | none => exact refill_full (le_add_of_nonneg_right (mul_nonneg (sub_nonneg.2 hv) hrate))
    | some b =>
      have hsound := (hs.bucket b hb).later hc.clock
      rw [(hsound.later hv).balance_eq]
      have hsplit : (Limiter.exact p).now v-b.ts = ((Limiter.exact p).now c.clock-b.ts)+
          ((Limiter.exact p).now v-(Limiter.exact p).now c.clock) := by ring
      rw [hsplit,← refill_refill hrate (sub_nonneg.2 hv),← hsound.balance_eq]
      rfl
  have heffect : Effect (.exact p) cap s.bucket c
      (s.serve (.exact p) team kind cap true c).1
      (s.serve (.exact p) team kind cap true c).2.bucket := lasting_effect hs hc
  generalize (s.serve (.exact p) team kind cap true c).1 = reply at hdenied heffect
  generalize (s.serve (.exact p) team kind cap true c).2.bucket = after at heffect ⊢
  cases heffect with
  | refused _ _ => rfl
  | granted hgranted => simp [hgranted] at hdenied
  | denied _ _ _ => exact hlook _
  | settled _ _ =>
    rw [hdelta,Int.cast_zero,add_zero,min_eq_right hle]
    exact hlook _

/-- A bucket with a lasting key never holds more than its capacity, grants only
what it holds, and gives out over any window at most what it held and what was
refilled. -/
theorem bucket_conserves (hcap : 0 < cap) {past window : List Call} {u v : Clock}
    (hpast : Reaches (Store.step (.exact p) team kind cap true)
      (Legal (.exact p)) .start past s)
    (hwindow : Reaches (Store.step (.exact p) team kind cap true)
      (Legal (.exact p)) s window t)
    (huv : (Limiter.exact p).now u ≤ (Limiter.exact p).now v)
    (hin : ∀ c ∈ window,(Limiter.exact p).now u ≤ (Limiter.exact p).now c.clock ∧
      (Limiter.exact p).now c.clock ≤ (Limiter.exact p).now v) :
    (∀ b ∈ s.bucket,b.tokens ≤ cap) ∧
    (∀ c,Legal (.exact p) s c →
      ((s.serve (.exact p) team kind cap true c).1.allowed = true →
        c.request.amount ≤ (Limiter.exact p).balance s.bucket c.clock cap ∧
        (Limiter.exact p).balance (s.serve (.exact p) team kind cap true c).2.bucket c.clock
          cap = (Limiter.exact p).balance s.bucket c.clock cap-c.request.amount) ∧
      ((s.serve (.exact p) team kind cap true c).1.allowed = false → c.request.delta = 0 →
        ∀ w,(Limiter.exact p).now c.clock ≤ (Limiter.exact p).now w →
        (Limiter.exact p).balance (s.serve (.exact p) team kind cap true c).2.bucket w cap =
          (Limiter.exact p).balance s.bucket w cap)) ∧
    (let flows := s.flows (.exact p) team kind cap true window
    (flows.map Flow.granted).sum-(flows.map Flow.returned).sum+(flows.map Flow.debited).sum ≤
      cap+((Limiter.exact p).now v-(Limiter.exact p).now u)*(cap/60)-
        (Limiter.exact p).balance t.bucket v cap ∧
    (flows.map Flow.returned).sum ≤ (flows.map Flow.asked).sum) := by
  have hs : s.Sound (.exact p) cap :=
    reaches_sound hpast ⟨by simp [Store.start],by simp [Store.start]⟩
  have hrate := (rate_pos hcap).le
  have hle : ∀ clock,(Limiter.exact p).balance s.bucket clock cap ≤ cap := fun clock =>
    balance_le fun b hb => (hs.bucket b hb).1
  refine ⟨fun b hb => (hs.bucket b hb).1,fun c hc => ⟨fun hgranted => ?_,fun hdenied hdelta w hw =>
    serve_idle hcap hs hc hdenied hdelta hw⟩,?_,returned_le_asked _ s window⟩
  · have heffect : Effect (.exact p) cap s.bucket c
        (s.serve (.exact p) team kind cap true c).1
        (s.serve (.exact p) team kind cap true c).2.bucket := lasting_effect hs hc
    generalize (s.serve (.exact p) team kind cap true c).1 = reply at hgranted heffect
    generalize (s.serve (.exact p) team kind cap true c).2.bucket = after at heffect ⊢
    cases heffect with
    | granted _ _ _ _ hcover => exact ⟨hcover,balance_saved c.clock _⟩
    | refused hr => simp [hr] at hgranted
    | denied hr => simp [hr] at hgranted
    | settled hr => simp [hr] at hgranted
  · rw [← sum_net]
    -- The window may start before the state does; nothing moves until then.
    rcases le_total ((Limiter.exact p).now s.last) ((Limiter.exact p).now u) with hu | hu
    · have hbound := flows_le hcap hwindow hs hu huv hin
      linarith [hle u]
    · rcases le_or_gt ((Limiter.exact p).now s.last) ((Limiter.exact p).now v) with hv | hv
      · have hbound := flows_le hcap hwindow hs (le_refl _) hv fun c hc =>
          ⟨reaches_clock hwindow hc,(hin c hc).2⟩
        have hlonger := mul_le_mul_of_nonneg_right (sub_le_sub_left hu ((Limiter.exact p).now v))
          hrate
        linarith [hle s.last]
      · cases hwindow with
        | stop =>
          have hgain := mul_nonneg (sub_nonneg.2 huv) hrate
          simp only [Store.flows,replies,List.map_nil,List.sum_nil]
          linarith [hle v]
        | @next _ _ _ c _ hok _ _ =>
          exact absurd (hok.clock.trans (hin c (by simp)).2) (not_le.2 hv)

end Conserves

/-- Ten reserved of sixty, four used, then a hundred asked for in vain. -/
theorem bucket_conserves_sixty :
    let l := Limiter.exact fun _ => ""
    let handle : Reservation := ⟨"a",.tpm,60,10,120000000000⟩
    let s : Store := ⟨some ⟨50,1,120000⟩,[handle],⟨1,0⟩⟩
    let flows := s.flows l "a" .tpm 60 true
      [⟨⟨2,0⟩,.reconcile (some handle) 4⟩,⟨⟨3,0⟩,.consume 100 120000000000⟩]
    (flows.map Flow.granted).sum-(flows.map Flow.returned).sum+(flows.map Flow.debited).sum ≤
      (60 : Int)+(l.now ⟨4,0⟩-l.now ⟨2,0⟩)*((60 : Int)/60)-
        l.balance (some ⟨58,3,120000⟩) ⟨4,0⟩ 60 := by
  have hpast : Reaches (Store.step (Limiter.exact fun _ => "") "a" .tpm 60 true)
      (Legal (Limiter.exact fun _ => "")) .start [⟨⟨1,0⟩,.reserve 10 120000000000⟩]
      ⟨some ⟨50,1,120000⟩,[⟨"a",.tpm,60,10,120000000000⟩],⟨1,0⟩⟩ := .of_run (by decide +kernel)
  have hwindow : Reaches (Store.step (Limiter.exact fun _ => "") "a" .tpm 60 true)
      (Legal (Limiter.exact fun _ => ""))
      ⟨some ⟨50,1,120000⟩,[⟨"a",.tpm,60,10,120000000000⟩],⟨1,0⟩⟩
      [⟨⟨2,0⟩,.reconcile (some ⟨"a",.tpm,60,10,120000000000⟩) 4⟩,
        ⟨⟨3,0⟩,.consume 100 120000000000⟩]
      ⟨some ⟨58,3,120000⟩,[⟨"a",.tpm,60,10,120000000000⟩],⟨3,0⟩⟩ := .of_run (by decide +kernel)
  exact (bucket_conserves (by decide) hpast hwindow (u := ⟨2,0⟩) (v := ⟨4,0⟩) (by decide +kernel)
    (by decide +kernel)).2.2.1

end Switchyard.RateLimit
