import Switchyard.BreakerFleet
set_option autoImplicit false

/-!
The count of consecutive episodes, which the cooldown grows with. It travels
from Redis through a Load and the mirror to the next Open; the reply to a probe
success does not carry it.
-/

namespace Switchyard.Resilience
open MachineInt Interleaving StepRuns

theorem nextCooldown_mono {cfg : BreakerConfig}
    (hsmall : cfg.cooldownBase*2^20 ≤ 9223372036854775807) {m n : Int} (h : m ≤ n) :
    nextCooldown cfg m ≤ nextCooldown cfg n := by
  have hpos := cfg.cooldownBase_pos
  have hshift : ∀ k : Int,nextCooldown cfg k =
      min (cfg.cooldownBase*2^(min 20 (max 0 (k-1))).toNat) cfg.cooldownMax := by
    intro k
    have hexp : (min 20 (max 0 (k-1))).toNat ≤ 20 := by omega
    have hle : cfg.cooldownBase*2^(min 20 (max 0 (k-1))).toNat ≤ cfg.cooldownBase*2^20 :=
      Int.mul_le_mul_of_nonneg_left (pow_le_pow_right₀ (by decide) hexp) hpos.le
    have hpos' : 0 < cfg.cooldownBase*2^(min 20 (max 0 (k-1))).toNat := by positivity
    have hwrap := wrap_eq (x := cfg.cooldownBase*2^(min 20 (max 0 (k-1))).toNat)
      (by unfold InRange; omega)
    simp only [nextCooldown,maxCooldownExponent,hwrap]
    split <;> omega
  rw [hshift m,hshift n]
  have hexp : (min 20 (max 0 (m-1))).toNat ≤ (min 20 (max 0 (n-1))).toNat := by omega
  have hle : cfg.cooldownBase*2^(min 20 (max 0 (m-1))).toNat ≤
      cfg.cooldownBase*2^(min 20 (max 0 (n-1))).toNat :=
    Int.mul_le_mul_of_nonneg_left (pow_le_pow_right₀ (by decide) hexp) hpos.le
  omega

def Opening.Sound (cfg : BreakerConfig) (o : Opening) : Prop :=
  1 ≤ o.reopens ∧ o.cooldown = nextCooldown cfg o.reopens

/-- A Load of an episode shows the count of the latest Open; a reply shows
none. -/
structure Reading.Counts (reading : Reading) : Prop where
  nonneg : 0 ≤ reading.shared.reopens
  load : reading.source = .load → reading.shared.state ≠ .closed →
    ∃ o past,reading.opened = o :: past ∧ reading.shared.reopens = o.reopens
  reply : reading.source = .reply → reading.shared.reopens = 0

structure Server.Counts (cfg : BreakerConfig) (v : Server) : Prop where
  sound : ∀ o ∈ v.opened,o.Sound cfg
  stored : ∀ e,v.store.state = some e → ∃ o past,v.opened = o :: past ∧ e.reopens = o.reopens

structure Replica.Counts (r : Replica) : Prop where
  nonneg : 0 ≤ r.breaker.reopens
  cached : ∀ reading,r.cache.cached = some reading → reading.Counts
  mirrored : ∀ reading,r.mirrored = some reading →
    reading.Counts ∧ r.breaker.reopens = reading.shared.reopens

def Point.Counts (cfg : BreakerConfig) : Point → Prop
  | .allowShared reading => reading.Counts
  | .installReply reading => reading.Counts
  | .waiting (.byProbe _ _ opened) => ∀ o ∈ opened,o.Sound cfg
  | .publishOpen cooldown reopens => 1 ≤ reopens ∧ cooldown = nextCooldown cfg reopens
  | .installOpen reopens => 0 ≤ reopens
  | _ => True

section Parts

variable {cfg : BreakerConfig} {v : Server} {r : Replica} {p : Point}

theorem Server.Counts.view (h : v.Counts cfg) :
    Reading.Counts ⟨v.store.view v.ms,.load,v.opened⟩ := by
  cases hkey : v.store.stateKey v.ms with
  | none =>
    have hview : v.store.view v.ms = ⟨.closed,0,0⟩ := by simp [RedisStore.view,hkey]
    exact ⟨by simp [hview],by simp [hview],by simp⟩
  | some e =>
    obtain ⟨o,past,hopened,hcount⟩ := h.stored e (RedisStore.stateKey_some hkey).1
    have hview : (v.store.view v.ms).reopens = e.reopens := by simp [RedisStore.view,hkey]
    have hsound := h.sound o (by simp [hopened])
    refine ⟨?_,fun _ _ => ⟨o,past,hopened,hview.trans hcount⟩,by simp⟩
    have hone := hsound.1
    simp only [hview,hcount]
    omega

variable {b : Breaker}

theorem Replica.Counts.update (h : r.Counts) (hb : 0 ≤ b.reopens) : (r.update b).Counts := by
  refine ⟨hb,h.cached,fun reading hmirrored => ?_⟩
  unfold Replica.update at hmirrored ⊢
  by_cases hsame : b.reopens = r.breaker.reopens
  · simp only [hsame,if_true] at hmirrored
    exact ⟨(h.mirrored reading hmirrored).1,hsame.trans (h.mirrored reading hmirrored).2⟩
  · simp [hsame] at hmirrored

theorem Breaker.Succeeded.reopens {now : Int} {b' : Breaker} {publish : Bool}
    (h : b.Succeeded cfg now (publish,b')) (hb : 0 ≤ b.reopens) : 0 ≤ b'.reopens := by
  generalize hout : (publish,b') = out at h
  cases h <;> cases hout <;> first | exact hb | exact le_refl _

theorem Breaker.Failed.reopens {now : Int} {b' : Breaker} {episode : Option (Int × Int)}
    (h : b.Failed cfg now (episode,b')) (hb : 0 ≤ b.reopens) : 0 ≤ b'.reopens := by
  generalize hout : (episode,b') = out at h
  cases h with
  | ignored _ =>
    cases hout
    exact hb
  | counted _ _ =>
    cases hout
    exact hb
  | opens _ _ =>
    cases hout
    simp only [Breaker.open,Breaker.setState]
    omega

theorem Breaker.Allowed.reopens {now : Int} {b' : Breaker} {allowed : Bool}
    (h : b.Allowed cfg now (allowed,b')) : b'.reopens = b.reopens := by
  generalize hout : (allowed,b') = out at h
  cases h <;> cases hout <;> rfl

theorem Breaker.adopt_reopens {now : Int} {shared : SharedState} (hb : 0 ≤ b.reopens) :
    0 ≤ (b.adopt cfg now shared).reopens := by
  cases hshared : shared.state <;> cases hstate : b.state <;>
    simp [Breaker.adopt,Breaker.setState,hshared,hstate,hb]

theorem Reading.counts_reply {shared : SharedState} {store : RedisStore} {opened : List Opening}
    (h : v.store.Counted v.ms cfg.successThreshold (.ok shared,store)) :
    Reading.Counts ⟨shared,.reply,opened⟩ := ⟨h.left.1.ge,by simp,fun _ => h.left.1⟩

theorem Server.Counts.counted (h : v.Counts cfg) {shared : SharedState} {store : RedisStore}
    (hcounted : v.store.Counted v.ms cfg.successThreshold (.ok shared,store)) :
    Server.Counts cfg { v with store := store } := by
  refine ⟨h.sound,fun e he => ?_⟩
  obtain ⟨e₀,hstored,hsame⟩ := hcounted.left.2 e he
  obtain ⟨o,past,hopened,hcount⟩ := h.stored e₀ hstored
  rw [hsame]
  exact ⟨o,past,hopened,hcount⟩

theorem Server.Counts.opening (h : v.Counts cfg) {cooldown reopens : Int} (hone : 1 ≤ reopens)
    (hcooldown : cooldown = nextCooldown cfg reopens) :
    Server.Counts cfg { v with
      store := .open v.ms cooldown reopens
      opened := ⟨v.ms+milliseconds cooldown,reopens,cooldown⟩ :: v.opened } := by
  refine ⟨fun o ho => ?_,fun e he => ⟨_,_,rfl,?_⟩⟩
  · obtain rfl | hold := List.mem_cons.1 ho
    · exact ⟨hone,hcooldown⟩
    · exact h.sound o hold
  · simp only [RedisStore.open,RedisStore.openScript] at he
    by_cases httl : 0 < milliseconds (add cooldown stateTTLSlack)
    · simp only [httl,if_true,Option.some.injEq] at he
      simp [← he]
    · simp [httl] at he

theorem Fleet.Moved.counts {o : Fleet.Outcome} (hv : v.Counts cfg) (hr : r.Counts)
    (hp : p.Counts cfg) (h : Fleet.Moved cfg v r p o) :
    o.server.Counts cfg ∧ o.node.Counts ∧ ∀ q,o.point = some q → q.Counts cfg := by
  cases h with
  | @succeeded _ _ publish _ hsucceeded =>
    exact ⟨hv,hr.update (hsucceeded.reopens hr.nonneg),by cases publish <;> simp [Point.Counts]⟩
  | @failed _ _ episode _ hfailed =>
    refine ⟨hv,hr.update (hfailed.reopens hr.nonneg),?_⟩
    cases episode with
    | none => simp
    | some e =>
      intro q hq
      cases hq
      obtain ⟨_,_,_,hcount,hcooldown⟩ := hfailed.published
      have hnonneg := hr.nonneg
      exact ⟨by omega,hcooldown⟩
  | cached hcached =>
    refine ⟨hv,hr,?_⟩
    intro q hq
    cases hq
    exact hr.cached _ hcached
  | uncached => exact ⟨hv,hr,by simp [Point.Counts]⟩
  | loaded =>
    refine ⟨hv,⟨hr.nonneg,?_,hr.mirrored⟩,?_⟩
    · intro reading hcached
      cases hcached
      exact hv.view
    · intro q hq
      cases hq
      exact hv.view
  | mirrored hnext =>
    refine ⟨hv,⟨Reading.Counts.nonneg hp,hr.cached,?_⟩,?_⟩
    · intro reading hmirrored
      cases hmirrored
      exact ⟨hp,rfl⟩
    · obtain rfl | ⟨_,rfl⟩ | ⟨_,rfl⟩ := hnext <;> simp [Point.Counts]
  | won _ =>
    refine ⟨⟨hv.sound,hv.stored⟩,hr,?_⟩
    intro q hq
    cases hq
    exact hv.sound
  | lost => exact ⟨hv,hr,by simp⟩
  | allowed hallowed hnext =>
    refine ⟨hv,hr.update (hallowed.reopens ▸ hr.nonneg),?_⟩
    obtain rfl | rfl := hnext <;> simp [Point.Counts]
  | counted hcounted =>
    refine ⟨hv.counted hcounted,hr,?_⟩
    intro q hq
    cases hq
    exact Reading.counts_reply hcounted
  | installed =>
    refine ⟨hv,⟨hr.nonneg,?_,hr.mirrored⟩,by simp [Point.Counts]⟩
    intro reading hcached
    cases hcached
    exact hp
  | @wrote _ _ reading _ hown hnext =>
    have hcounts : reading.Counts := by
      refine ⟨?_,by simp [hown],by simp [hown]⟩
      obtain ⟨reopens,rfl,hcount,_⟩ | ⟨_,hcount,_⟩ := hnext
      · exact hcount ▸ hp
      · exact hcount.ge
    refine ⟨hv,⟨hr.nonneg,?_,hr.mirrored⟩,?_⟩
    · intro reading hcached
      cases hcached
      exact hcounts
    · obtain ⟨_,_,_,rfl⟩ | ⟨_,_,rfl⟩ := hnext <;> simp [Point.Counts]
  | adopted => exact ⟨hv,hr.update (Breaker.adopt_reopens hr.nonneg),by simp⟩
  | @opened cooldown reopens =>
    refine ⟨hv.opening hp.1 hp.2,hr,?_⟩
    intro q hq
    cases hq
    have hone : 1 ≤ reopens := hp.1
    simp only [Point.Counts]
    omega
  | published => exact ⟨hv,hr.update hr.nonneg,by simp⟩
  | cleared => exact ⟨⟨hv.sound,by simp [RedisStore.reset]⟩,hr,by simp [Point.Counts]⟩
  | reset => exact ⟨hv,hr.update Breaker.resetLocally_reopens.ge,by simp⟩

end Parts

namespace Fleet

variable {cfg : BreakerConfig} {s t : Fleet} {a : Action}

def Counts (cfg : BreakerConfig) (s : Fleet) : Prop :=
  s.Kept (Server.Counts cfg) (fun _ => Replica.Counts) (fun _ => Point.Counts cfg)

theorem start_counts (cfg : BreakerConfig) : Counts cfg (start cfg) :=
  ⟨⟨by simp [start],by simp [start]⟩,
    fun _ => ⟨by simp [start,newSharedBreaker],by simp [start],by simp [start]⟩,by simp [start]⟩

theorem Counts.step (h : s.Counts cfg) (hst : Stepped cfg s a t) : Counts cfg t := by
  cases hst with
  | ticked _ =>
    exact System.Kept.serve h ⟨h.server.sound,h.server.stored⟩ (fun m hm => hm) fun t _ ht => ht
  | @called call replica p _ hpoint =>
    refine System.Kept.settle h h.server (h.nodes replica) (fun q hq => ?_) (fun m hm => hm)
      fun t _ ht => ht
    cases hq
    obtain rfl | rfl := hpoint <;> trivial
  | @resetting call replica _ =>
    refine System.Kept.settle h h.server (h.nodes replica) (fun q hq => ?_) (fun m hm => hm)
      fun t _ ht => ht
    cases hq
    trivial
  | @moved _ call th o hthread _ hmoved =>
    obtain ⟨hserver,hnode,hnext⟩ := hmoved.counts h.server (h.nodes th.node)
      (h.threads th (System.thread_mem hthread))
    exact System.Kept.settle h hserver hnode hnext (fun m hm => hm) fun t _ ht => ht

theorem report_publishes {v : Server} {r : Replica} {now cooldown reopens : Int}
    (h : (report cfg v r false now).point = some (.publishOpen cooldown reopens)) :
    reopens = r.breaker.reopens+1 ∧ cooldown = nextCooldown cfg reopens := by
  have hfailed : r.breaker.Failed cfg now (r.breaker.recordFailureLocally cfg now) :=
    Breaker.recordFailureLocally_failed
  simp only [report,Bool.false_eq_true,if_false] at h
  obtain ⟨episode,hsent,hpoint⟩ := Option.map_eq_some_iff.1 h
  cases hpoint
  generalize r.breaker.recordFailureLocally cfg now = out at hfailed hsent
  obtain ⟨sent,b⟩ := out
  subst hsent
  obtain ⟨_,_,_,hcount,hcooldown⟩ := hfailed.published
  exact ⟨hcount,hcooldown⟩

/-- A probe of the episode that o opened fails and its replica publishes. The
published count is above o's where the replica's count was copied from a Load
of that episode, and the cooldown no shorter where no shift overflows; where it
was copied from the reply to a probe success, the count is never above. -/
theorem failed_probe_publishes {actions : List Action} {th : Thread Point} {basis reading : Reading}
    {time now cooldown reopens : Int} {o : Opening} {past : List Opening}
    (hrun : Reaches (step cfg) (fun _ _ => True) (start cfg) actions s) (hth : th ∈ s.threads)
    (hprobe : th.point = .waiting (.byProbe basis time (o :: past)))
    (hmirror : (s.nodes th.node).mirrored = some reading)
    (hpublish : (report cfg s.server (s.nodes th.node) false now).point =
      some (.publishOpen cooldown reopens)) :
    (reading.source = .load → reading.shared.state = .halfOpen → reading.opened = o :: past →
      o.reopens < reopens ∧
        (cfg.cooldownBase*2^20 ≤ 9223372036854775807 → o.cooldown ≤ cooldown)) ∧
    (reading.source = .reply → reopens ≤ o.reopens) := by
  have hcounts : Counts cfg s := hrun.invariant (fun _ _ _ h _ hst => h.step (step_stepped hst))
    (start_counts cfg)
  obtain ⟨hreading,hcopied⟩ := (hcounts.nodes th.node).mirrored reading hmirror
  have hpoint := hcounts.threads th hth
  rw [hprobe] at hpoint
  obtain ⟨hone,hcool⟩ : o.Sound cfg := hpoint o List.mem_cons_self
  obtain ⟨hcount,hcooldown⟩ := report_publishes hpublish
  refine ⟨fun hload hstate hsame => ?_,fun hreply => ?_⟩
  · obtain ⟨o',past',hopened,hloaded⟩ := hreading.load hload (by simp [hstate])
    obtain ⟨rfl,rfl⟩ : o = o' ∧ past = past' := List.cons.inj (hsame.symm.trans hopened)
    refine ⟨by omega,fun hsmall => ?_⟩
    rw [hcool,hcooldown]
    exact nextCooldown_mono hsmall (by omega)
  · have hzero := hreading.reply hreply
    omega

theorem failed_probe_publishes_short :
    ∃ s o cooldown reopens,Reaches (step (shortCooldown 2 (by decide))) (fun _ _ => True)
        (start (shortCooldown 2 (by decide))) tripThenProbe s ∧ s.server.opened = [o] ∧
      (report (shortCooldown 2 (by decide)) s.server (s.nodes 0) false 21).point =
        some (.publishOpen cooldown reopens) ∧ o.reopens < reopens ∧ o.cooldown ≤ cooldown := by
  have hfound :
      ∃ s,Reaches (step (shortCooldown 2 (by decide))) (fun _ _ => True)
          (start (shortCooldown 2 (by decide))) tripThenProbe s ∧
        (s.thread 1).map (fun t => (t.node,t.point)) = some (0,.waiting
          (.byProbe ⟨⟨.halfOpen,1,0⟩,.load,[⟨1,1,1000000⟩]⟩ 2000000 [⟨1,1,1000000⟩])) ∧
        (s.nodes 0).mirrored = some ⟨⟨.halfOpen,1,0⟩,.load,[⟨1,1,1000000⟩]⟩ ∧
        (report (shortCooldown 2 (by decide)) s.server (s.nodes 0) false 21).point =
          some (.publishOpen 2000000 2) ∧ s.server.opened = [⟨1,1,1000000⟩] := by
    refine Reaches.exists_of_run ?_
    decide +kernel
  obtain ⟨s,hrun,hthread,hmirror,hpublish,hopened⟩ := hfound
  obtain ⟨th,hth,hpoint⟩ := Option.map_eq_some_iff.1 hthread
  obtain ⟨hnode,hprobe⟩ := Prod.mk.inj hpoint
  have hgrows := (failed_probe_publishes hrun (System.thread_mem hth) hprobe (hnode ▸ hmirror)
    (hnode ▸ hpublish)).1 rfl rfl rfl
  exact ⟨s,_,_,_,hrun,hopened,hpublish,hgrows.1,hgrows.2 (by decide)⟩

/-- The first of two probes succeeds. Its reply, with a count of zero, is what
the second call mirrors. When that one fails, the episode of count 1 is still
stored, and the replica publishes another of count 1 with the same cooldown. -/
theorem reply_forgets_count :
    ∃ s,Reaches (step (shortCooldown 2 (by decide))) (fun _ _ => True)
        (start (shortCooldown 2 (by decide)))
        (tripThenProbe ++ [.report 1 true 21,.run 1 21 21,.run 1 21 21,.run 1 21 21,
          .allow 1 0,.run 1 22 22,.run 1 22 22,.run 1 22 22]) s ∧
      (s.server.store.stateKey s.server.ms).map (fun e => (e.reopens,e.successes)) = some (1,1) ∧
      (s.thread 1).map (·.point) = some (.waiting
        (.byProbe ⟨⟨.halfOpen,0,1⟩,.reply,[⟨1,1,1000000⟩]⟩ 2000000 [⟨1,1,1000000⟩])) ∧
      (report (shortCooldown 2 (by decide)) s.server (s.nodes 0) false 23).point =
        some (.publishOpen 1000000 1) := by
  refine Reaches.exists_of_run ?_
  decide +kernel

end Fleet

end Switchyard.Resilience
