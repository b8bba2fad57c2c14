import Switchyard.BreakerFleet
set_option autoImplicit false

/-!
The cooldown of an episode. `loadScript` honours the deadline, but neither
`probeSuccessScript` nor the blind write of `openScript` looks at it.
-/

namespace Switchyard.Resilience
open Interleaving StepRuns

/-- A state that a replica obtained from the store after an Open shows open until
that Open's deadline. -/
def Reading.Honours (v : Server) (reading : Reading) : Prop :=
  reading.source ≠ .own → ∀ o ∈ reading.opened,v.ms < o.deadlineMs → reading.shared.state = .open

def Grant.basis : Grant → Option Reading
  | .locally _ => none
  | .byState basis _ => some basis
  | .byProbe basis _ _ => some basis

/-- Allow returned true no earlier than the deadlines of the Opens that its
basis was obtained after. -/
def Grant.Late (g : Grant) : Prop :=
  ∀ basis,g.basis = some basis → basis.source ≠ .own → ∀ o ∈ basis.opened,
    o.deadlineMs ≤ g.time/1000000

/-- Neither a success counted for an episode that is still cooling down, nor an
Open that ends before the stored one. -/
def Point.calm (v : Server) : Point → Bool
  | .publishProbeSuccess => (v.store.view v.ms).state ≠ .open
  | .publishOpen cooldown _ =>
    (v.store.stateKey v.ms).all fun e => e.untilMs ≤ v.ms+milliseconds cooldown
  | _ => true

/-- No Reset, and every call calm when it goes to Redis. -/
def Fleet.Calm (s : Fleet) : Fleet.Action → Prop
  | .reset _ _ => False
  | .run call _ _ => ((s.thread call).all fun t => t.point.calm s.server) = true
  | _ => True

instance (s : Fleet) (a : Fleet.Action) : Decidable (s.Calm a) :=
  match a with
  | .reset _ _ => isFalse id
  | .run _ _ _ => inferInstanceAs (Decidable (_ = true))
  | .tick _ => isTrue trivial
  | .allow _ _ => isTrue trivial
  | .report _ _ _ => isTrue trivial

/-- Redis until the deadlines: the episode is there, it ends no earlier, and no
success has been counted. -/
structure Server.Cooling (v : Server) : Prop where
  lasting : ∀ e,v.store.state = some e → e.untilMs ≤ e.expiresMs
  stored : ∀ o ∈ v.opened,v.ms < o.deadlineMs →
    ∃ e,v.store.state = some e ∧ o.deadlineMs ≤ e.untilMs ∧ e.successes = 0

def Replica.Honours (v : Server) (r : Replica) : Prop :=
  ∀ reading,r.cache.cached = some reading → reading.Honours v

def Point.Honours (cfg : BreakerConfig) (v : Server) : Point → Prop
  | .allowShared reading => reading.Honours v
  | .claimSharedProbe reading => reading.Honours v ∧ reading.shared.state = .halfOpen
  | .waiting g => g.Late
  | .installReply reading => reading.Honours v
  | .publishOpen cooldown _ => 0 < cooldown ∧ cooldown ≤ cfg.cooldownMax
  | .storeReset => False
  | _ => True

section Parts

variable {cfg : BreakerConfig} {v w : Server} {r : Replica} {p : Point} {reading : Reading}

theorem Server.Cooling.found (h : v.Cooling) {o : Opening} (ho : o ∈ v.opened)
    (hcool : v.ms < o.deadlineMs) :
    ∃ e,v.store.stateKey v.ms = some e ∧ o.deadlineMs ≤ e.untilMs ∧ e.successes = 0 := by
  obtain ⟨e,hstate,huntil,hzero⟩ := h.stored o ho hcool
  have hlast := h.lasting e hstate
  have hlive : v.ms ≤ e.expiresMs := by omega
  exact ⟨e,by simpa [RedisStore.stateKey,hstate] using hlive,huntil,hzero⟩

theorem Server.Cooling.view_open (h : v.Cooling) {o : Opening} (ho : o ∈ v.opened)
    (hcool : v.ms < o.deadlineMs) : (v.store.view v.ms).state = .open := by
  obtain ⟨e,hkey,huntil,_⟩ := h.found ho hcool
  have hbefore : v.ms < e.untilMs := by omega
  simp [RedisStore.view,hkey,hbefore]

theorem Reading.Honours.later (h : reading.Honours v) (hms : v.ms ≤ w.ms) : reading.Honours w :=
  fun hsource o ho hcool => h hsource o ho (by omega)

theorem Replica.Honours.later (h : r.Honours v) (hms : v.ms ≤ w.ms) : r.Honours w :=
  fun reading hcached => (h reading hcached).later hms

theorem Point.Honours.later (h : p.Honours cfg v) (hms : v.ms ≤ w.ms) : p.Honours cfg w := by
  cases p with
  | allowShared reading => exact Reading.Honours.later h hms
  | claimSharedProbe reading => exact ⟨Reading.Honours.later h.1 hms,h.2⟩
  | installReply reading => exact Reading.Honours.later h hms
  | waiting g => exact h
  | publishOpen cooldown reopens => exact h
  | storeReset => exact h
  | _ => trivial

theorem Reading.Honours.passed (h : reading.Honours v) (hstate : reading.shared.state ≠ .open)
    (hsource : reading.source ≠ .own) : ∀ o ∈ reading.opened,o.deadlineMs ≤ v.now/1000000 := by
  intro o ho
  by_contra hcool
  exact hstate (h hsource o ho (not_le.1 hcool))

theorem Server.Cooling.view_honours (h : v.Cooling) :
    Reading.Honours v ⟨v.store.view v.ms,.load,v.opened⟩ :=
  fun _ _ ho hcool => h.view_open ho hcool

theorem Server.Cooling.rewrite (h : v.Cooling) (hidle : (v.store.view v.ms).state ≠ .open)
    {store : RedisStore} (hlast : ∀ e,store.state = some e → e.untilMs ≤ e.expiresMs) :
    Server.Cooling { v with store := store } :=
  ⟨hlast,fun _ ho hcool => (hidle (h.view_open ho hcool)).elim⟩

theorem Server.Cooling.counted (h : v.Cooling) (hidle : (v.store.view v.ms).state ≠ .open)
    {shared : SharedState} {store : RedisStore}
    (hcounted : v.store.Counted v.ms cfg.successThreshold (.ok shared,store)) :
    Server.Cooling { v with store := store } := by
  refine h.rewrite hidle fun e he => ?_
  obtain ⟨e₀,hstored,hsame⟩ := hcounted.left.2 e he
  rw [hsame]
  exact h.lasting e₀ hstored

/-- A cooldown leaves room for the slack, so the key outlives its deadline. -/
theorem Server.Cooling.opening (hslack : cfg.cooldownMax+stateTTLSlack ≤ 9223372036854775807)
    (h : v.Cooling) {cooldown reopens : Int} (hpos : 0 < cooldown)
    (hle : cooldown ≤ cfg.cooldownMax)
    (hcalm : Point.calm v (.publishOpen cooldown reopens) = true) :
    Server.Cooling { v with
      store := .open v.ms cooldown reopens
      opened := ⟨v.ms+milliseconds cooldown,reopens,cooldown⟩ :: v.opened } := by
  have hadd : MachineInt.add cooldown stateTTLSlack = cooldown+stateTTLSlack :=
    MachineInt.add_eq (by unfold MachineInt.InRange stateTTLSlack at *; omega)
  have hms : milliseconds cooldown ≤ milliseconds (cooldown+stateTTLSlack) ∧
      0 < milliseconds (cooldown+stateTTLSlack) := by
    unfold milliseconds stateTTLSlack
    rw [Int.tdiv_eq_ediv_of_nonneg hpos.le,Int.tdiv_eq_ediv_of_nonneg (by omega)]
    omega
  have hstore : RedisStore.open v.ms cooldown reopens =
      ⟨some ⟨v.ms+milliseconds cooldown,reopens,0,
        v.ms+milliseconds (cooldown+stateTTLSlack)⟩,none⟩ := by
    simp only [RedisStore.open,RedisStore.openScript,hadd,hms.2,if_true]
  refine ⟨fun e he => ?_,fun o ho hcool => ?_⟩
  · simp only [hstore,Option.some.injEq] at he
    subst he
    simpa using hms.1
  · obtain rfl | hold := List.mem_cons.1 ho
    · exact ⟨_,by rw [hstore],le_refl _,rfl⟩
    · obtain ⟨e,hkey,huntil,_⟩ := h.found hold hcool
      have hlater : e.untilMs ≤ v.ms+milliseconds cooldown := by simpa [Point.calm,hkey] using hcalm
      exact ⟨_,by rw [hstore],huntil.trans hlater,rfl⟩

theorem Fleet.Moved.honours {o : Fleet.Outcome}
    (hslack : cfg.cooldownMax+stateTTLSlack ≤ 9223372036854775807) (hv : v.Cooling)
    (hr : r.Honours v) (hp : p.Honours cfg v) (hcalm : p.calm v = true)
    (h : Fleet.Moved cfg v r p o) :
    o.server.Cooling ∧ o.server.now = v.now ∧ o.node.Honours o.server ∧
      ∀ q,o.point = some q → q.Honours cfg o.server := by
  cases h with
  | @succeeded _ _ publish _ _ =>
    exact ⟨hv,rfl,hr,by cases publish <;> simp [Point.Honours]⟩
  | @failed _ _ episode _ hfailed =>
    refine ⟨hv,rfl,hr,?_⟩
    cases episode with
    | none => simp
    | some e =>
      intro q hq
      cases hq
      obtain ⟨_,_,_,_,hcooldown⟩ := hfailed.published
      simp only [Point.Honours,hcooldown]
      exact ⟨nextCooldown_pos cfg _,nextCooldown_le cfg _⟩
  | cached hcached =>
    refine ⟨hv,rfl,hr,?_⟩
    intro q hq
    cases hq
    exact hr _ hcached
  | uncached => exact ⟨hv,rfl,hr,by simp [Point.Honours]⟩
  | loaded =>
    refine ⟨hv,rfl,?_,?_⟩
    · intro reading hcached
      cases hcached
      exact hv.view_honours
    · intro q hq
      cases hq
      exact hv.view_honours
  | mirrored hnext =>
    refine ⟨hv,rfl,hr,?_⟩
    intro q hq
    obtain rfl | ⟨hstate,rfl⟩ | ⟨hstate,rfl⟩ := hnext
    · cases hq
    · cases hq
      intro basis hbasis hsource
      cases hbasis
      exact Reading.Honours.passed hp (by simp [hstate]) hsource
    · cases hq
      exact ⟨hp,hstate⟩
  | won _ =>
    refine ⟨⟨hv.lasting,hv.stored⟩,rfl,hr,?_⟩
    intro q hq
    cases hq
    intro basis hbasis hsource
    cases hbasis
    exact Reading.Honours.passed hp.1 (by simp [hp.2]) hsource
  | lost => exact ⟨hv,rfl,hr,by simp⟩
  | allowed _ hnext =>
    refine ⟨hv,rfl,hr,?_⟩
    intro q hq
    obtain rfl | rfl := hnext
    · cases hq
    · cases hq
      intro basis hbasis
      cases hbasis
  | counted hcounted =>
    have hidle : (v.store.view v.ms).state ≠ .open := by simpa [Point.calm] using hcalm
    refine ⟨hv.counted hidle hcounted,rfl,hr,?_⟩
    intro q hq
    cases hq
    exact fun _ o ho hcool => (hidle (hv.view_open ho hcool)).elim
  | installed =>
    refine ⟨hv,rfl,?_,by simp [Point.Honours]⟩
    intro reading hcached
    cases hcached
    exact hp
  | wrote hown hnext =>
    refine ⟨hv,rfl,?_,by obtain ⟨_,_,_,rfl⟩ | ⟨_,_,rfl⟩ := hnext <;> simp [Point.Honours]⟩
    intro reading hcached
    cases hcached
    exact fun hsource => (hsource hown).elim
  | adopted => exact ⟨hv,rfl,hr,by simp⟩
  | opened => exact ⟨hv.opening hslack hp.1 hp.2 hcalm,rfl,hr,by simp [Point.Honours]⟩
  | published => exact ⟨hv,rfl,hr,by simp⟩
  | cleared => exact hp.elim
  | reset => exact ⟨hv,rfl,hr,by simp⟩

end Parts

namespace Fleet

variable {cfg : BreakerConfig} {s t : Fleet} {a : Action}

def Honours (cfg : BreakerConfig) (s : Fleet) : Prop :=
  s.Kept Server.Cooling Replica.Honours (Point.Honours cfg)

theorem start_honours (cfg : BreakerConfig) : Honours cfg (start cfg) :=
  ⟨⟨by simp [start],by simp [start]⟩,by simp [start,Replica.Honours],by simp [start]⟩

theorem Honours.step (hslack : cfg.cooldownMax+stateTTLSlack ≤ 9223372036854775807)
    (h : s.Honours cfg) (hcalm : s.Calm a) (hst : Stepped cfg s a t) : Honours cfg t := by
  cases hst with
  | @ticked now hnow =>
    have hms : s.server.ms ≤ now/1000000 := Int.ediv_le_ediv (by decide) hnow
    refine System.Kept.serve h ⟨h.server.lasting,fun o ho hcool => ?_⟩ (fun m hm => hm.later hms)
      fun t _ ht => ht.later hms
    exact h.server.stored o ho (hms.trans_lt hcool)
  | @called call replica p _ hpoint =>
    refine System.Kept.settle h h.server (h.nodes replica) (fun q hq => ?_) (fun m hm => hm)
      fun t _ ht => ht
    cases hq
    obtain rfl | rfl := hpoint <;> trivial
  | resetting _ => exact hcalm.elim
  | @moved _ call th o hthread ha hmoved =>
    have hpoint : th.point.calm s.server = true := by
      obtain ⟨g,hwaiting⟩ | ⟨now,later,rfl⟩ := ha
      · simp [hwaiting,Point.calm]
      · simpa [Calm,hthread] using hcalm
    obtain ⟨hserver,hnow,hnode,hnext⟩ := hmoved.honours hslack h.server (h.nodes th.node)
      (h.threads th (System.thread_mem hthread)) hpoint
    have hms : s.server.ms ≤ o.server.ms := by simp [Server.ms,hnow]
    exact System.Kept.settle h hserver hnode hnext (fun m hm => hm.later hms)
      fun t _ ht => ht.later hms

/-- Between an Open and its deadline the episode stays stored with no success
counted, and no Allow returns true on a state obtained from the store after
that Open, in every calm run. -/
theorem cooldown_honoured (hslack : cfg.cooldownMax+stateTTLSlack ≤ 9223372036854775807)
    {actions : List Action} (hrun : Reaches (step cfg) Calm (start cfg) actions s) :
    (∀ o ∈ s.server.opened,s.server.ms < o.deadlineMs →
      ∃ e,s.server.store.stateKey s.server.ms = some e ∧ o.deadlineMs ≤ e.untilMs ∧
        e.successes = 0) ∧
    ∀ t ∈ s.threads,∀ g,t.point = .waiting g → g.Late := by
  have hhonours : Honours cfg s := hrun.invariant
    (fun _ _ _ h hcalm hst => Honours.step hslack h hcalm (step_stepped hst)) (start_honours cfg)
  refine ⟨fun o ho hcool => hhonours.server.found ho hcool,fun t ht g hg => ?_⟩
  have hpoint := hhonours.threads t ht
  rw [hg] at hpoint
  exact hpoint

theorem cooldown_honoured_short :
    ∃ s,Reaches (step (shortCooldown 2 (by decide))) Calm (start (shortCooldown 2 (by decide)))
        (tripThenProbe.take 10) s ∧
      (∃ o ∈ s.server.opened,s.server.ms < o.deadlineMs ∧
        ∃ e,s.server.store.stateKey s.server.ms = some e ∧ o.deadlineMs ≤ e.untilMs ∧
          e.successes = 0) ∧
      ∀ t ∈ s.threads,∀ g,t.point = .waiting g → g.Late := by
  have hfound : ∃ s,Reaches (step (shortCooldown 2 (by decide))) Calm
      (start (shortCooldown 2 (by decide))) (tripThenProbe.take 10) s ∧
      ∃ o ∈ s.server.opened,s.server.ms < o.deadlineMs := by
    refine Reaches.exists_of_run ?_
    decide +kernel
  obtain ⟨s,hrun,o,ho,hcool⟩ := hfound
  obtain ⟨hstored,hlate⟩ := cooldown_honoured (by decide) hrun
  exact ⟨s,hrun,⟨o,ho,hcool,hstored o ho hcool⟩,hlate⟩

/-- Call 5 on replica 1 was admitted before the outage. Replica 1 saw the first
episode half-open; then the probe of replica 0 fails and Redis opens until 4.
At 2 call 5 succeeds: the success is counted, and the reply lets call 6 through. -/
theorem stale_success_ends_cooldown :
    ∃ s,Reaches (step (shortCooldown 2 (by decide))) (fun _ a => a.resets = false)
        (start (shortCooldown 2 (by decide)))
        ([.allow 5 1,.run 5 1 1,.run 5 1 1] ++ tripThenProbe ++
          [.allow 6 1,.run 6 20 20,.run 6 20 20,.run 6 20 20,
            .report 1 false 21,.run 1 21 21,.run 1 21 21,.run 1 21 21,
            .report 5 true 22,.run 5 22 22,.run 5 22 22,.run 5 22 22,
            .allow 6 1,.run 6 23 23,.run 6 23 23,.run 6 23 23]) s ∧
      s.server.ms = 2 ∧ s.server.opened.map (·.deadlineMs) = [4,1] ∧
      (s.server.store.stateKey 2).map (·.successes) = some 1 ∧
      (s.thread 6).map (·.point) =
        some (.waiting
          (.byProbe ⟨⟨.halfOpen,0,1⟩,.reply,s.server.opened⟩ 2000000 s.server.opened)) := by
  refine Reaches.exists_of_run ?_
  decide +kernel

end Fleet

end Switchyard.Resilience
