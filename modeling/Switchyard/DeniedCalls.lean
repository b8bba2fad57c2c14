import Switchyard.BucketExpiry
set_option autoImplicit false

/-!
Denied calls of a bucket whose key lasts. They rewrite balance and timestamp, but
a refill up to a ceiling does not depend on when it is looked at, so a history
goes on without them as it did with them.
-/

namespace Switchyard.RateLimit
open StepRuns LazyRefill

def denied (c : Call) (r : Reply) : Bool :=
  match c.request,r with
  | .consume _ _,.consumed (.ok res) => !res.allowed
  | _,_ => false

theorem denied_iff {c : Call} {r : Reply} : denied c r = true ↔
    (∃ amount ttl,c.request = .consume amount ttl) ∧
      ∃ res,r = .consumed (.ok res) ∧ res.allowed = false := by
  obtain ⟨clock,request⟩ := c
  cases request with
  | consume amount ttl =>
    cases r with
    | consumed r => cases r <;> simp [denied]
    | reserved r => simp [denied]
    | reconciled r => simp [denied]
  | reserve amount ttl => simp [denied]
  | reconcile r actual => simp [denied]

variable {p : Int → String} {team : String} {kind : LimitType} {cap : Int} {s t : Store} {c : Call}

/-- The store s without some denied calls beside the store t with them: the same
handles were given out, and from now on a script finds the same balance. -/
structure Unaware (l : Limiter) (cap : Int) (s t : Store) : Prop where
  sound : t.Sound l cap
  issued : s.issued = t.issued
  clock : l.now s.last ≤ l.now t.last
  balance : ∀ v,l.now t.last ≤ l.now v → l.balance s.bucket v cap = l.balance t.bucket v cap

theorem Unaware.refl (hs : s.Sound (.exact p) cap) : Unaware (.exact p) cap s s :=
  ⟨hs,rfl,le_refl _,fun _ _ => rfl⟩

theorem Unaware.serve (h : Unaware (.exact p) cap s t) (hc : Legal (.exact p) t c) :
    Legal (.exact p) s c ∧
    (s.serve (.exact p) team kind cap true c).1 =
      (t.serve (.exact p) team kind cap true c).1 ∧
    Unaware (.exact p) cap (s.serve (.exact p) team kind cap true c).2
      (t.serve (.exact p) team kind cap true c).2 := by
  have hsame : (s.serve (.exact p) team kind cap true c).1 =
      (t.serve (.exact p) team kind cap true c).1 ∧
      Alike (.exact p) c s.bucket t.bucket
        (s.serve (.exact p) team kind cap true c).2.bucket
        (t.serve (.exact p) team kind cap true c).2.bucket :=
    answer_congr (.exact p) (h.balance c.clock hc.clock) fun r hr =>
      h.sound.issued r (hc.handle r hr)
  refine ⟨⟨h.clock.trans hc.clock,by rw [h.issued]; exact hc.handle⟩,hsame.1,serve_sound h.sound hc,
    ?_,le_refl _,fun v hv => ?_⟩
  · exact congrArg₂ (· ++ ·) h.issued (congrArg (fun r => r.handle.toList) hsame.1)
  · obtain ⟨-,hbuckets⟩ := hsame
    generalize (s.serve (.exact p) team kind cap true c).2.bucket = before at hbuckets ⊢
    generalize (t.serve (.exact p) team kind cap true c).2.bucket = after at hbuckets ⊢
    cases hbuckets with
    | kept => exact h.balance v (hc.clock.trans hv)
    | written _ => rfl

theorem Unaware.denied (h : Unaware (.exact p) cap s t) (hc : Legal (.exact p) t c)
    (hdenied : denied c (t.serve (.exact p) team kind cap true c).1 = true) :
    Unaware (.exact p) cap s (t.serve (.exact p) team kind cap true c).2 := by
  obtain ⟨⟨amount,ttl,hrequest⟩,res,hreply,hrefused⟩ := denied_iff.1 hdenied
  have hcap : 0 < cap := by
    obtain ⟨e,heq,-⟩ | ⟨-,hcap,-⟩ | ⟨retryAfter,-,hcap,-⟩ :=
      (Limiter.exact p).consume_cases t.bucket c.clock cap amount ttl
    · simp [Store.serve,Limiter.answer,Store.found,hrequest,heq] at hreply
    · exact hcap
    · exact hcap
  have hidle : (t.serve (.exact p) team kind cap true c).1.allowed = false := by
    simp [hreply,Reply.allowed,Reply.result,hrefused]
  refine ⟨serve_sound h.sound hc,?_,h.clock.trans hc.clock,fun v hv => ?_⟩
  · have hhandle : (t.serve (.exact p) team kind cap true c).1.handle = none := by
      rw [hreply]
      rfl
    change s.issued =
      t.issued ++ (t.serve (.exact p) team kind cap true c).1.handle.toList
    rw [hhandle,h.issued]
    simp
  · rw [serve_idle hcap h.sound hc hidle (by rw [hrequest]; rfl) hv]
    exact h.balance v (hc.clock.trans hv)

/-- A history of calls, each marked to be kept or left out. If what is left out
are `Consume` calls that were denied, the rest is a history by itself, every call
in it gets the reply it got, and the balance is the same at every later time. -/
theorem denied_calls_leave_no_trace {calls : List (Call × Bool)}
    (hrun : Reaches (Store.step (.exact p) team kind cap true) (Legal (.exact p))
      .start (calls.map Prod.fst) t)
    (hleft : ∀ x ∈ calls.zip
        (replies (Store.serve (.exact p) team kind cap true) .start (calls.map Prod.fst)).1,
      x.1.2 = false → denied x.1.1 x.2 = true) :
    (replies (Store.serve (.exact p) team kind cap true) .start
        ((calls.filter Prod.snd).map Prod.fst)).1 =
      ((calls.zip (replies (Store.serve (.exact p) team kind cap true) .start
        (calls.map Prod.fst)).1).filter (·.1.2)).map Prod.snd ∧
    ∃ u,Reaches (Store.step (.exact p) team kind cap true) (Legal (.exact p))
        .start ((calls.filter Prod.snd).map Prod.fst) u ∧
      ∀ v,(Limiter.exact p).now t.last ≤ (Limiter.exact p).now v →
        (Limiter.exact p).balance u.bucket v cap = (Limiter.exact p).balance t.bucket v cap := by
  have hstart : Unaware (.exact p) cap .start .start :=
    .refl ⟨by simp [Store.start],by simp [Store.start]⟩
  obtain ⟨hreplies,u,hshort,hend⟩ := hrun.replies_without
    (q := fun c r => denied c r = true) (fun _ _ => rfl)
    (fun _ _ _ h hc => h.serve hc) (fun _ _ _ h hc hdenied => h.denied hc hdenied) hstart hleft
  exact ⟨hreplies,u,hshort,hend.balance⟩

def impatient : List (Call × Bool) :=
  [(⟨⟨1,0⟩,.reserve 50 120000000000⟩,true),(⟨⟨2,0⟩,.consume 20 120000000000⟩,false),
    (⟨⟨5,500000⟩,.consume 20 120000000000⟩,false),(⟨⟨12,0⟩,.consume 20 120000000000⟩,true)]

theorem denied_calls_leave_no_trace_impatient :
    (replies (Store.serve (Limiter.exact fun _ => "") "a" .tpm 60 true) .start
        ((impatient.filter Prod.snd).map Prod.fst)).1.map Reply.result =
      [some ⟨true,10,0⟩,some ⟨true,1,0⟩] := by
  have hrun : Reaches (Store.step (Limiter.exact fun _ => "") "a" .tpm 60 true)
      (Legal (Limiter.exact fun _ => "")) .start (impatient.map Prod.fst)
      ⟨some ⟨1,12,120000⟩,[⟨"a",.tpm,60,50,120000000000⟩],⟨12,0⟩⟩ := .of_run (by decide +kernel)
  rw [(denied_calls_leave_no_trace hrun (by decide +kernel)).1]
  decide +kernel

end Switchyard.RateLimit
