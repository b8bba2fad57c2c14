import Switchyard.BucketRuns
import Switchyard.ChatHandler
set_option autoImplicit false

/-!
An idle bucket's key expires after two minutes. A script that finds no key
starts from a full bucket, so expiry is a refill in one stroke; it is the same
refill as long as no balance is further below zero than one capacity.
-/

namespace Switchyard.RateLimit
open Proxy StepRuns LazyRefill

def Gateway (c : Call) : Prop := ∀ ttl ∈ c.request.lifetime.toList,ttl = bucketTTL

instance (c : Call) : Decidable (Gateway c) :=
  inferInstanceAs (Decidable (∀ ttl ∈ c.request.lifetime.toList,ttl = bucketTTL))

/-- A call of the gateway that does not find gone a key with a debt above one
capacity. -/
structure Solvent (l : Limiter) (cap : Int) (s : Store) (c : Call) : Prop extends Legal l s c where
  gateway : Gateway c
  debt : ∀ b ∈ s.bucket.toList,b.expired c.clock = true → -cap ≤ b.tokens

instance (l : Limiter) (cap : Int) (s : Store) (c : Call) : Decidable (Solvent l cap s c) :=
  decidable_of_iff (Legal l s c ∧ Gateway c ∧
      ∀ b ∈ s.bucket.toList,b.expired c.clock = true → -cap ≤ b.tokens)
    ⟨fun h => ⟨h.1,h.2.1,h.2.2⟩,fun h => ⟨h.toLegal,h.gateway,h.debt⟩⟩

variable {p : Int → String} {team : String} {kind : LimitType} {cap : Int}

theorem millis_eq (clock : Clock) : clock.millis = ⌊(Limiter.exact p).now clock*1000⌋ := by
  have hsplit : (Limiter.exact p).now clock*1000 =
      ((clock.seconds*1000 : Int) : ℚ)+(clock.micros : ℚ)/(1000 : Nat) := by
    simp only [Limiter.now,Limiter.exact,Arithmetic.exact,id]
    push_cast
    ring
  rw [hsplit,Int.floor_intCast_add,Rat.floor_natCast_div_natCast]
  rfl

theorem Bucket.expired_later {b : Bucket} {u v : Clock} (h : b.expired u = true)
    (huv : (Limiter.exact p).now u ≤ (Limiter.exact p).now v) : b.expired v = true := by
  have hmillis : u.millis ≤ v.millis := by
    rw [millis_eq (p := p),millis_eq (p := p)]
    exact Int.floor_le_floor (mul_le_mul_of_nonneg_right huv (by norm_num))
  simp only [Bucket.expired,decide_eq_true_eq] at h ⊢
  omega

theorem balance_expired (hcap : 0 < cap) {b : Bucket} {v : Clock} (hb : b.Sound (.exact p) cap v)
    (httl : b.ttl = 120000) (hdebt : -cap ≤ b.tokens) (hexpired : b.expired v = true) :
    (Limiter.exact p).balance (some b) v cap = cap := by
  have hlate : ⌊b.ts*1000⌋+120000 < ⌊(Limiter.exact p).now v*1000⌋ := by
    rw [← millis_eq v]
    simpa [Bucket.expired,httl] using hexpired
  have hcapQ : (0 : ℚ) < cap := by exact_mod_cast hcap
  have helapsed : 120 ≤ (Limiter.exact p).now v-b.ts := by
    have hnext : ((⌊b.ts*1000⌋+120001 : Int) : ℚ) ≤ (⌊(Limiter.exact p).now v*1000⌋ : ℚ) :=
      Int.cast_le.2 (by omega)
    have hu := Int.lt_floor_add_one (b.ts*1000)
    have hv := Int.floor_le ((Limiter.exact p).now v*1000)
    push_cast at hnext
    linarith
  rw [hb.balance_eq]
  refine refill_full ?_
  have hgain := mul_le_mul_of_nonneg_right helapsed (rate_pos hcap).le
  linarith

inductive Alike (l : Limiter) (c : Call) (found found' : Option Bucket) :
    Option Bucket → Option Bucket → Prop where
  | kept : Alike l c found found' found found'
  | written {tokens : ℚ} {ttl : Int} : c.request.lifetime = some ttl →
      Alike l c found found' (some (l.saved tokens c.clock ttl)) (some (l.saved tokens c.clock ttl))

section Congr

variable (l : Limiter) {found found' : Option Bucket}

theorem consume_congr (request : Request) {clock : Clock} {amount ttl : Int}
    (hbalance : l.balance found clock cap = l.balance found' clock cap)
    (hlife : request.lifetime = some ttl) :
    (l.consume found clock cap amount ttl).1 = (l.consume found' clock cap amount ttl).1 ∧
    Alike l ⟨clock,request⟩ found found' (l.consume found clock cap amount ttl).2
      (l.consume found' clock cap amount ttl).2 := by
  unfold Limiter.consume
  cases l.consumeArgs cap amount ttl with
  | error e => exact ⟨rfl,.kept⟩
  | ok _ =>
    simp only [Limiter.consumeScript,hbalance]
    by_cases henough : l.arith.round amount ≤ l.balance found' clock cap
    · simp only [if_pos henough]
      exact ⟨trivial,.written hlife⟩
    · simp only [if_neg henough]
      exact ⟨trivial,.written hlife⟩

theorem answer_congr {c : Call}
    (hbalance : l.balance found c.clock cap = l.balance found' c.clock cap)
    (hhandle : ∀ r ∈ c.request.handle.toList,r.capacity = cap) :
    (l.answer team kind cap found c).1 = (l.answer team kind cap found' c).1 ∧
    Alike l c found found' (l.answer team kind cap found c).2
      (l.answer team kind cap found' c).2 := by
  obtain ⟨clock,request⟩ := c
  cases request with
  | consume amount ttl =>
    obtain ⟨hreply,hbucket⟩ := consume_congr l (.consume amount ttl) hbalance rfl
    exact ⟨congrArg Reply.consumed hreply,hbucket⟩
  | reserve amount ttl =>
    obtain ⟨hreply,hbucket⟩ := consume_congr l (.reserve amount ttl) hbalance rfl
    simp only [Limiter.answer,Limiter.reserve]
    generalize l.consume found clock cap amount ttl = out at hreply hbucket ⊢
    generalize l.consume found' clock cap amount ttl = out' at hreply hbucket ⊢
    obtain ⟨x,bucket⟩ := out
    obtain ⟨x',bucket'⟩ := out'
    obtain rfl : x = x' := hreply
    cases x with
    | error e => exact ⟨rfl,hbucket⟩
    | ok res =>
      by_cases hres : res.allowed = true
      · simp only [if_pos hres]
        exact ⟨trivial,hbucket⟩
      · simp only [if_neg hres]
        exact ⟨trivial,hbucket⟩
  | reconcile r actual =>
    cases r with
    | none => exact ⟨rfl,.kept⟩
    | some r =>
      obtain rfl := hhandle r (by simp [Request.handle])
      simp only [Limiter.answer,Limiter.reconcile]
      cases Limiter.reconcileDelta (some r) actual with
      | error e => exact ⟨rfl,.kept⟩
      | ok delta =>
        cases delta with
        | none => exact ⟨rfl,.kept⟩
        | some delta =>
          simp only [Limiter.settleScript,hbalance]
          exact ⟨trivial,.written rfl⟩

end Congr

/-- The expiring store e beside the lasting one k: it has the same bucket, or none
where the other is full for good. -/
structure Beside (l : Limiter) (cap : Int) (e k : Store) : Prop where
  sound : k.Sound l cap
  ttl : ∀ b ∈ k.bucket,b.ttl = 120000
  issued : e.issued = k.issued
  bucket : e.bucket = k.bucket ∨ e.bucket = none ∧
    ∀ v,l.now k.last ≤ l.now v → l.balance k.bucket v cap = cap

/-- A key that is gone was refilled, and the same holds at any later time. -/
theorem Beside.found (hcap : 0 < cap) {e k : Store} {c : Call} (h : Beside (.exact p) cap e k)
    (hc : Solvent (.exact p) cap k c) : e.found false c.clock = k.bucket ∨
      e.found false c.clock = none ∧ ∀ v,(Limiter.exact p).now c.clock ≤ (Limiter.exact p).now v →
        (Limiter.exact p).balance k.bucket v cap = cap := by
  unfold Store.found
  obtain heq | ⟨hnone,hfull⟩ := h.bucket
  · rw [heq]
    cases hb : k.bucket with
    | none => exact .inl rfl
    | some b =>
      cases hexpired : b.expired c.clock with
      | false => exact .inl (by simp [Option.filter,hexpired])
      | true =>
        refine .inr ⟨by simp [Option.filter,hexpired],fun v hv => ?_⟩
        exact balance_expired hcap ((h.sound.bucket b hb).later (hc.clock.trans hv)) (h.ttl b hb)
          (hc.debt b (by simp [hb]) hexpired) (Bucket.expired_later hexpired hv)
  · exact .inr ⟨by simp [hnone],fun v hv => hfull v (hc.clock.trans hv)⟩

theorem Alike.beside {l : Limiter} {c : Call} {found found' after after' : Option Bucket}
    {full : Prop} (h : Alike l c found found' after after') (hc : Gateway c)
    (httl : ∀ b ∈ found',b.ttl = 120000) (hfound : found = found' ∨ found = none ∧ full) :
    (∀ b ∈ after',b.ttl = 120000) ∧ (after = after' ∨ found' = after' ∧ after = none ∧ full) := by
  cases h with
  | kept => exact ⟨httl,hfound.imp_right (.intro rfl)⟩
  | written hlife =>
    refine ⟨?_,.inl rfl⟩
    rintro b ⟨⟩
    obtain rfl := hc _ (Option.mem_toList.2 hlife)
    rfl

theorem serve_beside (hcap : 0 < cap) {e k : Store} {c : Call}
    (h : Beside (.exact p) cap e k) (hc : Solvent (.exact p) cap k c) :
    (e.serve (.exact p) team kind cap false c).1 =
      (k.serve (.exact p) team kind cap true c).1 ∧
    Beside (.exact p) cap (e.serve (.exact p) team kind cap false c).2
      (k.serve (.exact p) team kind cap true c).2 := by
  have hfound := h.found hcap hc
  have hbalance : (Limiter.exact p).balance (e.found false c.clock) c.clock cap =
      (Limiter.exact p).balance k.bucket c.clock cap := by
    obtain heq | ⟨hnone,hfull⟩ := hfound
    · rw [heq]
    · rw [hnone,hfull c.clock le_rfl]
      rfl
  have hsame : (e.serve (.exact p) team kind cap false c).1 =
      (k.serve (.exact p) team kind cap true c).1 ∧
      Alike (.exact p) c (e.found false c.clock) k.bucket
        (e.serve (.exact p) team kind cap false c).2.bucket
        (k.serve (.exact p) team kind cap true c).2.bucket :=
    answer_congr (.exact p) hbalance fun r hr => h.sound.issued r (hc.handle r hr)
  obtain ⟨httl,hbucket⟩ := hsame.2.beside hc.gateway h.ttl hfound
  refine ⟨hsame.1,serve_sound h.sound hc.toLegal,httl,?_,?_⟩
  · exact congrArg₂ (· ++ ·) h.issued (congrArg (fun r => r.handle.toList) hsame.1)
  · obtain heq | ⟨hkept,hnone,hfull⟩ := hbucket
    · exact .inl heq
    · exact .inr ⟨hnone,fun v hv => by rw [← hkept]; exact hfull v hv⟩

/-- While no key goes with a debt above one capacity, the two-minute lifetime of
the key cannot be told from a key that lasts. -/
theorem expiry_unseen (hcap : 0 < cap) {calls : List Call} {t : Store}
    (hrun : Reaches (Store.step (.exact p) team kind cap true)
      (Solvent (.exact p) cap) .start calls t) :
    (replies (Store.serve (.exact p) team kind cap false) .start calls).1 =
      (replies (Store.serve (.exact p) team kind cap true) .start calls).1 := by
  have hstep : ∀ k c,Store.step (.exact p) team kind cap true k c =
      some (k.serve (.exact p) team kind cap true c).2 := fun _ _ => rfl
  have hstart : Beside (.exact p) cap .start .start :=
    ⟨⟨by simp [Store.start],by simp [Store.start]⟩,by simp [Store.start],rfl,.inl rfl⟩
  exact hrun.replies_related hstep (fun _ _ _ h hc => serve_beside hcap h hc) hstart

/-- Ten tokens reserved, two hundred used: a denied call at 100 s writes the key
anew with what is left of the debt, and the key goes before 300 s. -/
theorem expiry_unseen_sixty :
    let handle : Reservation := ⟨"a",.tpm,60,10,bucketTTL⟩
    let calls : List Call := [⟨⟨1,0⟩,.reserve 10 bucketTTL⟩,
      ⟨⟨2,0⟩,.reconcile (some handle) 200⟩,⟨⟨100,0⟩,.consume 1 bucketTTL⟩,
      ⟨⟨300,0⟩,.consume 60 bucketTTL⟩]
    (replies (Store.serve (Limiter.exact fun _ => "") "a" .tpm 60 false) .start calls).1 =
      (replies (Store.serve (Limiter.exact fun _ => "") "a" .tpm 60 true) .start calls).1 :=
  expiry_unseen (by decide) (.of_run (t := ⟨some ⟨0,300,120000⟩,
    [⟨"a",.tpm,60,10,bucketTTL⟩],⟨300,0⟩⟩) (by decide +kernel))

/-- A debt of two hundred tokens is forgiven when the key goes: the call that the
refill would still deny is allowed. -/
theorem expiry_forgives_debt :
    let handle : Reservation := ⟨"a",.tpm,60,10,bucketTTL⟩
    let calls : List Call := [⟨⟨1,0⟩,.reserve 10 bucketTTL⟩,
      ⟨⟨1,0⟩,.reconcile (some handle) 260⟩,⟨⟨122,0⟩,.consume 1 bucketTTL⟩]
    (∃ t,Reaches (Store.step (Limiter.exact fun _ => "") "a" .tpm 60 true)
      (fun s c => Legal (Limiter.exact fun _ => "") s c ∧ Gateway c) .start calls t) ∧
    ((replies (Store.serve (Limiter.exact fun _ => "") "a" .tpm 60 false) .start calls).1.map
      Reply.allowed = [true,false,true]) ∧
    ((replies (Store.serve (Limiter.exact fun _ => "") "a" .tpm 60 true) .start calls).1.map
      Reply.allowed = [true,false,false]) := by
  refine ⟨⟨⟨some ⟨-79,122,120000⟩,[⟨"a",.tpm,60,10,bucketTTL⟩],⟨122,0⟩⟩,
    .of_run (by decide +kernel)⟩,by decide +kernel,by decide +kernel⟩

end Switchyard.RateLimit
