import Switchyard.BucketExpiry
set_option autoImplicit false

/-!
The advice a denied caller gets. Retry-After is the time the bucket needs for the
amount asked, cut to whole nanoseconds, raised to a second and rounded up to
whole seconds; in the meantime the bucket's key may have expired.
-/

namespace Switchyard.Proxy
open GoText

def retryAfterSeconds (res : RateLimit.Result) : Int := ⌈seconds (max res.retryAfter 1000000000)⌉

theorem writeRateLimitHeaders_eq (limit : Int) (res : RateLimit.Result) :
    ∃ others : Program Unit,writeRateLimitHeaders limit res = (do
      ask (.header "Retry-After" (formatInt (retryAfterSeconds res)))
      others
      pure (retryAfterSeconds res)) :=
  ⟨do
    let refillPerSecond := Binary64.round (Binary64.round limit/60)
    let reset :=
      Binary64.round (Binary64.round (Binary64.round limit-res.remaining)/refillPerSecond)
    ask (.header "X-RateLimit-Limit" (formatInt limit))
    ask (.header "X-RateLimit-Remaining" (formatInt ⌊max res.remaining 0⌋))
    ask (.header "X-RateLimit-Reset" (formatInt ⌈max reset 0⌉)),rfl⟩

theorem seconds_eq {d : Int} (h0 : 0 ≤ d) (h : d ≤ 9223372036854775807) :
    seconds d = Binary64.round ((d/1000000000 : Int)+
      Binary64.round ((d%1000000000 : Int)/1000000000)) := by
  have hwhole : Binary64.round ((d/1000000000 : Int) : ℚ) = (d/1000000000 : Int) :=
    Binary64.round_intCast (by rw [abs_of_nonneg (by omega)]; omega)
  have hpart : Binary64.round ((d%1000000000 : Int) : ℚ) = (d%1000000000 : Int) :=
    Binary64.round_intCast (by rw [abs_of_nonneg (by omega)]; omega)
  rw [seconds,Int.tdiv_eq_ediv_of_nonneg h0,Int.tmod_eq_emod_of_nonneg h0,hwhole,hpart]

theorem round_part {n : Int} (hpos : 0 < n) (hlt : n < 1000000000) :
    1/2^30 ≤ Binary64.round ((n : ℚ)/1000000000) ∧ Binary64.round ((n : ℚ)/1000000000) ≤ 1 := by
  have hone : (1 : ℚ) ≤ n := by exact_mod_cast hpos
  have hbelow : (n : ℚ) < 1000000000 := by exact_mod_cast hlt
  have hleast : Binary64.round (1/2^30 : ℚ) = 1/2^30 := by
    simpa using Binary64.round_dyadic (n := 1) (k := 30) (by norm_num) (by omega)
  have hmost : Binary64.round (1 : ℚ) = 1 := by
    simpa using Binary64.round_intCast (n := 1) (by norm_num)
  have hlow : (1/2^30 : ℚ) ≤ n/1000000000 := by
    rw [div_le_div_iff₀ (by norm_num) (by norm_num)]
    linarith
  have hhigh : (n : ℚ)/1000000000 ≤ 1 := (div_le_one (by norm_num)).2 hbelow.le
  constructor
  · rw [← hleast]
    exact Binary64.round_mono (by norm_num) hlow
  · rw [← hmost]
    exact Binary64.round_mono (lt_of_lt_of_le (by norm_num) hlow) hhigh

/-- Up to 2^22 a double still tells 2^-30 apart. -/
theorem ceil_round_add {s : Int} {x : ℚ} (hs : 0 ≤ s) (hs' : s < 4194304) (hlow : 1/2^30 ≤ x)
    (hhigh : x ≤ 1) : ⌈Binary64.round ((s : ℚ)+x)⌉ = s+1 := by
  have hsQ : (0 : ℚ) ≤ s := by exact_mod_cast hs
  have hpos : (0 : ℚ) < 1/2^30 := by norm_num
  have hnext : Binary64.round ((s : ℚ)+1) = s+1 := by
    have hcast := Binary64.round_intCast (n := s+1) (by rw [abs_of_nonneg (by omega)]; omega)
    push_cast at hcast
    exact hcast
  have hjust : Binary64.round ((s : ℚ)+1/2^30) = s+1/2^30 := by
    have hcast := Binary64.round_dyadic (n := s*2^30+1) (k := 30)
      (by rw [abs_of_nonneg (by omega)]; omega) (by omega)
    have hsplit : ((s*2^30+1 : Int) : ℚ)/2^30 = s+1/2^30 := by
      push_cast
      ring
    rwa [hsplit] at hcast
  have hover : (s : ℚ)+1/2^30 ≤ Binary64.round ((s : ℚ)+x) := by
    rw [← hjust]
    exact Binary64.round_mono (by linarith) (by linarith)
  have hunder : Binary64.round ((s : ℚ)+x) ≤ s+1 := by
    rw [← hnext]
    exact Binary64.round_mono (by linarith) (by linarith)
  rw [Int.ceil_eq_iff]
  push_cast
  exact ⟨by linarith,hunder⟩

/-- A nanosecond is more than 2^-30 s, so for 2^22 s none is lost. -/
theorem ceil_seconds {d : Int} (h0 : 0 ≤ d) (h : d < 4194304*1000000000) :
    ⌈seconds d⌉ = ⌈(d : ℚ)/1000000000⌉ := by
  rw [seconds_eq h0 (by omega)]
  obtain ⟨s,n,hs,hn,hd⟩ : ∃ s n : Int,s = d/1000000000 ∧ n = d%1000000000 ∧ d = s*1000000000+n :=
    ⟨_,_,rfl,rfl,by omega⟩
  rw [← hs,← hn]
  have hsQ : (d : ℚ) = s*1000000000+n := by exact_mod_cast hd
  rcases eq_or_ne n 0 with rfl | hne
  · have hwhole : Binary64.round (s : ℚ) = s :=
      Binary64.round_intCast (by rw [abs_of_nonneg (by omega)]; omega)
    have hzero : Binary64.round 0 = 0 := by
      simpa using Binary64.round_intCast (n := 0) (by norm_num)
    rw [hsQ]
    simp [hzero,hwhole]
  · obtain ⟨hlow,hhigh⟩ := round_part (n := n) (by omega) (by omega)
    have hpart : (0 : ℚ) < n ∧ (n : ℚ) < 1000000000 :=
      ⟨by exact_mod_cast (by omega : 0 < n),by exact_mod_cast (by omega : n < 1000000000)⟩
    rw [ceil_round_add (by omega) (by omega) hlow hhigh,eq_comm,Int.ceil_eq_iff,hsQ]
    push_cast
    constructor
    · rw [lt_div_iff₀ (by norm_num)]
      linarith
    · rw [div_le_iff₀ (by norm_num)]
      linarith

theorem le_ceil_seconds {d n : Int} (hn : 0 < n) (h : n*1000000000 ≤ d)
    (hd : d ≤ 9223372036854775807) : n ≤ ⌈seconds d⌉ := by
  have hwhole : Binary64.round (n : ℚ) = n :=
    Binary64.round_intCast (by rw [abs_of_nonneg hn.le]; omega)
  have hle : (n : ℚ) ≤ (d/1000000000 : Int) := by exact_mod_cast (by omega : n ≤ d/1000000000)
  have hpart : 0 ≤ Binary64.round ((d%1000000000 : Int)/1000000000) := by
    rcases eq_or_ne (d%1000000000) 0 with hzero | hne
    · rw [hzero]
      simpa using (Binary64.round_intCast (n := 0) (by norm_num)).ge
    · exact le_trans (by positivity) (round_part (n := d%1000000000) (by omega) (by omega)).1
  rw [seconds_eq (by omega) hd]
  have hround : (n : ℚ) ≤ Binary64.round ((d/1000000000 : Int)+
      Binary64.round ((d%1000000000 : Int)/1000000000)) := by
    conv_lhs => rw [← hwhole]
    exact Binary64.round_mono (by exact_mod_cast hn) (by linarith)
  exact_mod_cast hround.trans (Int.le_ceil _)

end Switchyard.Proxy

namespace Switchyard.RateLimit
open MachineInt Proxy LazyRefill

variable {p : Int → String} {team : String} {kind : LimitType} {cap amount : Int} {s : Store}
  {clock later : Clock} {res : Result}

/-- The time until the balance covers the amount, if the capacity does. -/
def Limiter.wait (l : Limiter) (found : Option Bucket) (clock : Clock) (cap amount : Int) : ℚ :=
  (amount-l.balance found clock cap)/(cap/60)

theorem serve_denied
    (h : (s.serve (.exact p) team kind cap false
      ⟨clock,.consume amount bucketTTL⟩).1.result = some res) (hdenied : res.allowed = false) :
    0 < cap ∧ 0 < amount ∧
    (Limiter.exact p).balance (s.found false clock) clock cap < amount ∧
    res.retryAfter = (Limiter.exact p).duration
      ((Limiter.exact p).wait (s.found false clock) clock cap amount) ∧
    (s.serve (.exact p) team kind cap false ⟨clock,.consume amount bucketTTL⟩).2.bucket =
      some ((Limiter.exact p).saved ((Limiter.exact p).balance (s.found false clock) clock cap)
        clock bucketTTL) := by
  have httl : ¬bucketTTL ≤ 0 := by decide
  simp only [Store.serve,Limiter.answer,Limiter.consume,Limiter.consumeArgs] at h ⊢
  by_cases hcap : cap ≤ 0
  · simp [hcap,Reply.result] at h
  by_cases hamount : amount ≤ 0
  · simp [hcap,hamount,Reply.result] at h
  simp only [hcap,hamount,httl,if_false] at h ⊢
  simp only [Limiter.consumeScript] at h ⊢
  by_cases henough : (Limiter.exact p).arith.round amount ≤
      (Limiter.exact p).balance (s.found false clock) clock cap
  · simp only [if_pos henough,Reply.result,Option.some.injEq] at h
    subst h
    cases hdenied
  · simp only [if_neg henough,Reply.result,Option.some.injEq] at h ⊢
    subst h
    exact ⟨by omega,by omega,lt_of_not_ge henough,rfl,trivial⟩

theorem serve_allowed_iff (hcap : 0 < cap) (hamount : 0 < amount) :
    (s.serve (.exact p) team kind cap false ⟨later,.consume amount bucketTTL⟩).1.allowed =
      true ↔ amount ≤ (Limiter.exact p).balance (s.found false later) later cap := by
  obtain ⟨e,-,hbad⟩ | ⟨heq,-,-,hcover⟩ | ⟨retryAfter,heq,-,-,hless⟩ :=
    (Limiter.exact p).consume_cases (s.found false later) later cap amount bucketTTL
  · have httl : ¬bucketTTL ≤ 0 := by decide
    omega
  · have hallowed : (s.serve (.exact p) team kind cap false
        ⟨later,.consume amount bucketTTL⟩).1.allowed = true := by
      simp [Store.serve,Limiter.answer,heq,Reply.allowed,Reply.result]
    exact iff_of_true hallowed hcover
  · have hrefused : (s.serve (.exact p) team kind cap false
        ⟨later,.consume amount bucketTTL⟩).1.allowed = false := by
      simp [Store.serve,Limiter.answer,heq,Reply.allowed,Reply.result]
    refine iff_of_false (by simp [hrefused]) (not_le.2 ?_)
    exact hless

theorem saved_expired_iff (tokens : ℚ) :
    ((Limiter.exact p).saved tokens clock bucketTTL).expired later = true ↔
      clock.millis+120000 < later.millis := by
  rw [millis_eq (p := p) clock]
  simp [Bucket.expired,Limiter.saved,bucketTTL,Limiter.exact,Arithmetic.exact]

/-- A repetition is allowed once the wait is over or the key is gone, and only of
an amount that the bucket can hold. -/
theorem repeat_allowed_iff {tokens : ℚ} (hcap : 0 < cap) (hamount : 0 < amount)
    (hless : tokens < amount) (hlater : (Limiter.exact p).now clock ≤ (Limiter.exact p).now later)
    (hs : s.bucket = some ((Limiter.exact p).saved tokens clock bucketTTL)) :
    (s.serve (.exact p) team kind cap false ⟨later,.consume amount bucketTTL⟩).1.allowed =
      true ↔ amount ≤ cap ∧
        ((amount-tokens)/(cap/60) ≤ (Limiter.exact p).now later-(Limiter.exact p).now clock ∨
          clock.millis+120000 < later.millis) := by
  have hrate := rate_pos hcap
  rw [serve_allowed_iff hcap hamount,← saved_expired_iff (p := p) tokens]
  cases hexpired : ((Limiter.exact p).saved tokens clock bucketTTL).expired later with
  | true =>
    have hfound : s.found false later = none := by simp [Store.found,hs,Option.filter,hexpired]
    rw [hfound]
    simp only [or_true,and_true]
    change (amount : ℚ) ≤ (cap : ℚ) ↔ _
    exact_mod_cast Iff.rfl
  | false =>
    have hfound : s.found false later = some ((Limiter.exact p).saved tokens clock bucketTTL) := by
      simp [Store.found,hs,Option.filter,hexpired]
    have hts : ((Limiter.exact p).saved tokens clock bucketTTL).ts =
        (Limiter.exact p).now clock := rfl
    have htokens : ((Limiter.exact p).saved tokens clock bucketTTL).tokens = tokens := rfl
    rw [hfound,balance_some,hts,htokens,div_le_iff₀ hrate]
    simp only [Bool.false_eq_true,or_false]
    split
    · rw [le_min_iff,sub_le_iff_le_add']
      exact and_congr_left fun _ => by exact_mod_cast Iff.rfl
    · rename_i helapsed
      have hzero : (Limiter.exact p).now later-(Limiter.exact p).now clock = 0 := by
        linarith [not_lt.1 helapsed]
      rw [hzero,zero_mul]
      refine iff_of_false (not_le.2 hless) fun hboth => ?_
      linarith [hboth.2]

/-- Less than a nanosecond over a whole number of seconds within the key's life:
the nanosecond is cut off and the advice is a second short. -/
def ShortBy (wait : ℚ) : Prop := ∃ k : Nat,1 ≤ k ∧ k ≤ 120 ∧ k < wait ∧ wait < k+1/1000000000

theorem duration_le (wait : ℚ) : (Limiter.exact p).duration wait ≤ 9223372036854775807 :=
  (convert_inRange _).2

theorem duration_eq {wait : ℚ} (hwait : 0 < wait) :
    (Limiter.exact p).duration wait =
      if wait*1000000000 < 9223372036854775808 then ⌊wait*1000000000⌋
        else -9223372036854775808 := by
  have hx : 0 ≤ wait*1000000000 := by positivity
  have hfloor : 0 ≤ ⌊wait*1000000000⌋ := Int.floor_nonneg.2 hx
  have hduration : (Limiter.exact p).duration wait =
      convert (if 0 ≤ wait*1000000000 then ⌊wait*1000000000⌋ else ⌈wait*1000000000⌉) := rfl
  have hfits : wait*1000000000 < 9223372036854775808 ↔
      ⌊wait*1000000000⌋ < 9223372036854775808 := by
    rw [Int.floor_lt]
    norm_num
  rw [hduration,if_pos hx,convert]
  by_cases hlt : wait*1000000000 < 9223372036854775808
  · have hbelow := hfits.1 hlt
    have hin : InRange ⌊wait*1000000000⌋ := ⟨by omega,by omega⟩
    rw [if_pos hlt,if_pos hin]
  · have hbeyond := mt hfits.2 hlt
    have hout : ¬InRange ⌊wait*1000000000⌋ := by
      intro hin
      have := hin.2
      omega
    rw [if_neg hlt,if_neg hout]

theorem ceil_div_bounds (n : Int) :
    n ≤ ⌈(n : ℚ)/1000000000⌉*1000000000 ∧ ⌈(n : ℚ)/1000000000⌉*1000000000 < n+1000000000 := by
  have hle := Int.le_ceil ((n : ℚ)/1000000000)
  have hlt := Int.ceil_lt_add_one ((n : ℚ)/1000000000)
  rw [div_le_iff₀ (by norm_num)] at hle
  rw [← sub_lt_iff_lt_add,lt_div_iff₀ (by norm_num)] at hlt
  have hlt : (⌈(n : ℚ)/1000000000⌉ : ℚ)*1000000000 < n+1000000000 := by linarith
  exact ⟨by exact_mod_cast hle,by exact_mod_cast hlt⟩

theorem ceil_covers_iff {wait : ℚ} {d : Int} (hlow : (d : ℚ) ≤ wait*1000000000)
    (hhigh : wait*1000000000 < d+1) (hlong : ¬121*1000000000 ≤ d) :
    (wait ≤ (⌈((max d 1000000000 : Int) : ℚ)/1000000000⌉ : Int) ∨
      120 < ⌈((max d 1000000000 : Int) : ℚ)/1000000000⌉) ↔ ¬ShortBy wait := by
  obtain ⟨hcovers,hleast⟩ := ceil_div_bounds (max d 1000000000)
  generalize ⌈((max d 1000000000 : Int) : ℚ)/1000000000⌉ = seconds at hcovers hleast
  constructor
  · rintro henough ⟨k,hk,hk',hover,hunder⟩
    have hfloor : d = k*1000000000 := by
      have hge : ((k*1000000000 : Int) : ℚ) < d+1 := by
        push_cast
        linarith
      have hle : (d : ℚ) < ((k*1000000000+1 : Int) : ℚ) := by
        push_cast
        linarith
      have hge : (k*1000000000 : Int) < d+1 := by exact_mod_cast hge
      have hle : d < k*1000000000+1 := by exact_mod_cast hle
      omega
    obtain rfl : seconds = k := by omega
    obtain hwait | hlate := henough
    · push_cast at hwait
      linarith
    · omega
  · intro hshort
    by_contra hneither
    obtain ⟨hwait,hlate⟩ := not_or.1 hneither
    have hover : (seconds : ℚ)*1000000000 < d+1 := by linarith [not_le.1 hwait]
    have hover : seconds*1000000000 < d+1 := by exact_mod_cast hover
    have hwhole : d = seconds*1000000000 := by omega
    have hwhole : (d : ℚ) = seconds*1000000000 := by exact_mod_cast hwhole
    have hcast : ((seconds.toNat : Nat) : ℚ) = seconds := by
      exact_mod_cast Int.toNat_of_nonneg (by omega : 0 ≤ seconds)
    refine hshort ⟨seconds.toNat,by omega,by omega,?_,?_⟩
    · rw [hcast]
      exact not_le.1 hwait
    · rw [hcast]
      linarith

/-- When waiting as long as advised, or losing the key on the way, is enough. -/
theorem retryAfterSeconds_covers_iff {wait : ℚ} (hwait : 0 < wait)
    (hres : res.retryAfter = (Limiter.exact p).duration wait) :
    (wait ≤ (retryAfterSeconds res : Int) ∨ 120 < retryAfterSeconds res) ↔
      wait*1000000000 < 9223372036854775808 ∧ ¬ShortBy wait := by
  have hmost : res.retryAfter ≤ 9223372036854775807 := hres ▸ duration_le wait
  rw [duration_eq hwait] at hres
  unfold retryAfterSeconds
  by_cases hfits : wait*1000000000 < 9223372036854775808
  · rw [if_pos hfits] at hres
    rw [hres]
    have hlow := Int.floor_le (wait*1000000000)
    have hhigh := Int.lt_floor_add_one (wait*1000000000)
    have hrange : ⌊wait*1000000000⌋ ≤ 9223372036854775807 := hres ▸ hmost
    generalize ⌊wait*1000000000⌋ = d at hlow hhigh hrange
    simp only [hfits,true_and]
    by_cases hlong : 121*1000000000 ≤ d
    · have hover : 121 ≤ ⌈seconds (max d 1000000000)⌉ :=
        le_ceil_seconds (by omega) (by omega) (by omega)
      refine iff_of_true (.inr (by omega)) ?_
      rintro ⟨k,-,hk,-,hbelow⟩
      have hd : ((121*1000000000 : Int) : ℚ) ≤ d := by exact_mod_cast hlong
      have hkQ : (k : ℚ) ≤ 120 := by exact_mod_cast hk
      push_cast at hd
      linarith
    · rw [ceil_seconds (by omega) (by omega)]
      exact ceil_covers_iff hlow hhigh hlong
  · rw [if_neg hfits] at hres
    have hone : max res.retryAfter 1000000000 = 1000000000 := by rw [hres]; decide
    have hceil : ⌈seconds 1000000000⌉ = 1 := by
      rw [ceil_seconds (by omega) (by omega)]
      norm_num
    rw [hone,hceil]
    refine iff_of_false (not_or.2 ⟨?_,by omega⟩) (fun hboth => hfits hboth.1)
    push_cast
    linarith [not_lt.1 hfits]

def Clock.after (clock : Clock) (n : Nat) : Clock := ⟨clock.seconds+n,clock.micros⟩

theorem now_after (clock : Clock) (n : Nat) :
    (Limiter.exact p).now (clock.after n) = (Limiter.exact p).now clock+n := by
  simp only [Clock.after,Limiter.now,Limiter.exact,Arithmetic.exact,id]
  push_cast
  ring

/-- After a denial the same call made as many seconds later as Retry-After says
is allowed exactly if the bucket can hold the amount, the wait is a duration and
it is not cut short. Made more than a nanosecond too early, it is allowed only if
the key has expired. -/
theorem retry_as_advised_iff
    (h : (s.serve (.exact p) team kind cap false
      ⟨clock,.consume amount bucketTTL⟩).1.result = some res) (hdenied : res.allowed = false) :
    let wait := (Limiter.exact p).wait (s.found false clock) clock cap amount
    let repeated (later : Clock) := ((s.serve (.exact p) team kind cap false
      ⟨clock,.consume amount bucketTTL⟩).2.serve (.exact p) team kind cap false
        ⟨later,.consume amount bucketTTL⟩).1.allowed
    (∀ limit,∃ others : Program Unit,writeRateLimitHeaders limit res = (do
      ask (.header "Retry-After" (GoText.formatInt (retryAfterSeconds res)))
      others
      pure (retryAfterSeconds res))) ∧
    (repeated (clock.after (retryAfterSeconds res).toNat) = true ↔
      amount ≤ cap ∧ wait*1000000000 < 9223372036854775808 ∧ ¬ShortBy wait) ∧
    (amount ≤ cap → ∀ later,(Limiter.exact p).now clock ≤ (Limiter.exact p).now later →
      (Limiter.exact p).now later-(Limiter.exact p).now clock <
        res.retryAfter/1000000000-1/1000000000 →
      (repeated later = true ↔ clock.millis+120000 < later.millis)) := by
  intro wait repeated
  obtain ⟨hcap,hamount,hless,hres,hsaved⟩ := serve_denied h hdenied
  have hrate := rate_pos hcap
  have hwait : 0 < wait := div_pos (sub_pos.2 hless) hrate
  have hduration := duration_eq (p := p) hwait
  have hallowed : ∀ later,(Limiter.exact p).now clock ≤ (Limiter.exact p).now later →
      (repeated later = true ↔ amount ≤ cap ∧
        (wait ≤ (Limiter.exact p).now later-(Limiter.exact p).now clock ∨
          clock.millis+120000 < later.millis)) :=
    fun later hlater => repeat_allowed_iff hcap hamount hless hlater hsaved
  refine ⟨fun limit => writeRateLimitHeaders_eq limit res,?_,fun hholds later hlater hearly => ?_⟩
  · have hmost : res.retryAfter ≤ 9223372036854775807 := hres ▸ duration_le wait
    have hone : 1 ≤ retryAfterSeconds res := le_ceil_seconds (by omega) (by omega) (by omega)
    have hlater : (Limiter.exact p).now clock ≤
        (Limiter.exact p).now (clock.after (retryAfterSeconds res).toNat) := by
      rw [now_after]
      exact le_add_of_nonneg_right (Nat.cast_nonneg _)
    rw [hallowed _ hlater,← retryAfterSeconds_covers_iff hwait hres,now_after,add_sub_cancel_left]
    have hcast : (((retryAfterSeconds res).toNat : Nat) : ℚ) = retryAfterSeconds res := by
      exact_mod_cast Int.toNat_of_nonneg (by omega)
    have hgone : clock.millis+120000 < (clock.after (retryAfterSeconds res).toNat).millis ↔
        120 < retryAfterSeconds res := by
      simp only [Clock.millis,Clock.after]
      omega
    rw [hcast,hgone]
  · have hshort : ¬wait ≤ (Limiter.exact p).now later-(Limiter.exact p).now clock := by
      have hcut : (res.retryAfter : ℚ) ≤ wait*1000000000 := by
        rw [hres,hduration]
        split
        · exact Int.floor_le _
        · push_cast
          linarith
      linarith
    rw [hallowed later hlater]
    simp [hholds,hshort]

def indebted : Store := ⟨some ⟨-200,100,120000⟩,[],⟨100,0⟩⟩

/-- Capacity 60. Forty seconds are advised for a hundred tokens, which the bucket
never holds; and for one token of the indebted bucket 201 s, although its key is
gone after 121 s. -/
theorem advice_fails :
    let large := Store.start.serve (Limiter.exact fun _ => "") "a" .tpm 60 false
      ⟨⟨100,0⟩,.consume 100 bucketTTL⟩
    let small := indebted.serve (Limiter.exact fun _ => "") "a" .tpm 60 false
      ⟨⟨100,0⟩,.consume 1 bucketTTL⟩
    (large.1.result = some ⟨false,60,40000000000⟩ ∧
      retryAfterSeconds ⟨false,60,40000000000⟩ = 40 ∧
      (large.2.serve (Limiter.exact fun _ => "") "a" .tpm 60 false
        ⟨⟨140,0⟩,.consume 100 bucketTTL⟩).1.allowed = false) ∧
    small.1.result = some ⟨false,-200,201000000000⟩ ∧
      (small.2.serve (Limiter.exact fun _ => "") "a" .tpm 60 false
        ⟨⟨221,0⟩,.consume 1 bucketTTL⟩).1.allowed = true := by
  refine ⟨⟨?_,?_,?_⟩,?_,?_⟩
  all_goals decide +kernel

/-- An empty bucket of capacity 60 asked for two tokens. -/
theorem retry_as_advised_drained :
    let drained : Store := ⟨some ⟨0,100,120000⟩,[],⟨100,0⟩⟩
    ((drained.serve (Limiter.exact fun _ => "") "a" .tpm 60 false
      ⟨⟨100,0⟩,.consume 2 bucketTTL⟩).2.serve (Limiter.exact fun _ => "") "a" .tpm 60 false
        ⟨⟨102,0⟩,.consume 2 bucketTTL⟩).1.allowed = true := by
  intro drained
  have hdenied : (drained.serve (Limiter.exact fun _ => "") "a" .tpm 60 false
      ⟨⟨100,0⟩,.consume 2 bucketTTL⟩).1.result = some ⟨false,0,2000000000⟩ := by decide +kernel
  have hadvised : retryAfterSeconds ⟨false,0,2000000000⟩ = 2 := by decide +kernel
  have hwait : (Limiter.exact fun _ => "").wait (drained.found false ⟨100,0⟩) ⟨100,0⟩ 60 2 = 2 := by
    decide +kernel
  have hshort : ¬ShortBy 2 := by
    rintro ⟨k,hk,-,hover,hunder⟩
    have hover : k < 2 := by exact_mod_cast hover
    obtain rfl : k = 1 := by omega
    norm_num at hunder
  have hiff := (retry_as_advised_iff hdenied rfl).2.1
  rw [hwait,hadvised] at hiff
  exact hiff.2 ⟨by decide,by norm_num,hshort⟩

end Switchyard.RateLimit
