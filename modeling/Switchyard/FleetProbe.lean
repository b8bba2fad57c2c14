import Switchyard.BreakerFleet
set_option autoImplicit false

/-!
The probe slot of the fleet. The key carries no owner, so it guards a probe only
as long as nothing deletes it on another call's behalf.
-/

namespace Switchyard.Resilience
open Interleaving StepRuns

/-- A call that won `ClaimProbe` since the latest Open and has not reported. -/
def Point.probes (v : Server) : Point → Bool
  | .waiting (.byProbe _ _ opened) => opened = v.opened
  | _ => false

def Point.due (cfg : BreakerConfig) (now : Int) : Point → Bool
  | .waiting g => now ≤ g.time+cfg.probeTimeout
  | _ => true

namespace Fleet

def outstanding (s : Fleet) : List (Thread Point) := s.threads.filter (·.point.probes s.server)

def Legal (cfg : BreakerConfig) (s : Fleet) : Action → Prop
  | .tick now => ∀ t ∈ s.threads,t.point.due cfg now = true
  | .reset _ _ => False
  | _ => True

def Alone (s : Fleet) : Action → Prop
  | .run call _ _ =>
    (s.thread call).map (·.point) = some .publishProbeSuccess → s.outstanding.length = 0
  | _ => True

instance (cfg : BreakerConfig) (s : Fleet) (a : Action) : Decidable (Legal cfg s a) :=
  match a with
  | .tick now => inferInstanceAs (Decidable (∀ t ∈ s.threads,t.point.due cfg now = true))
  | .reset _ _ => isFalse id
  | .allow _ _ => isTrue trivial
  | .report _ _ _ => isTrue trivial
  | .run _ _ _ => isTrue trivial

instance (s : Fleet) (a : Action) : Decidable (Alone s a) :=
  match a with
  | .run _ _ _ => inferInstanceAs (Decidable (_ → _))
  | .tick _ => isTrue trivial
  | .reset _ _ => isTrue trivial
  | .allow _ _ => isTrue trivial
  | .report _ _ _ => isTrue trivial

end Fleet

/-- The slot is the one that the call set when it claimed it. -/
def Point.Held (cfg : BreakerConfig) (v : Server) : Point → Prop
  | .waiting (.byProbe _ time opened) =>
    v.now ≤ time+cfg.probeTimeout ∧ opened.length ≤ v.opened.length ∧
      (opened = v.opened →
        v.store.probe = some (time/1000000+RedisStore.slotMillis cfg.probeTimeout))
  | .storeReset => False
  | _ => True

def Point.plain : Point → Bool
  | .waiting (.byProbe _ _ _) => false
  | .storeReset => false
  | _ => true

section Points

variable {cfg : BreakerConfig} {v w : Server} {r : Replica} {p q : Point} {o : Fleet.Outcome}

theorem Point.held_of_plain (h : p.plain = true) : p.Held cfg v := by
  cases p with
  | waiting g => cases g <;> trivial
  | storeReset => cases h
  | _ => trivial

theorem Point.probes_of_plain (h : p.plain = true) : p.probes v = false := by
  cases p with
  | waiting g => cases g <;> first | rfl | cases h
  | _ => rfl

theorem Fleet.Moved.slot (h : Fleet.Moved cfg v r p o) :
    (o.server = v ∧ ∀ q,o.point = some q → q.plain = true) ∨
    (v.store.probeKey v.ms = none ∧
      o.server = { v with store := { v.store with
        probe := some (v.ms+RedisStore.slotMillis cfg.probeTimeout) } } ∧
      ∃ reading,o.point = some (.waiting (.byProbe reading v.now v.opened))) ∨
    (p = .publishProbeSuccess ∧ o.server.now = v.now ∧ o.server.opened = v.opened ∧
      ∀ q,o.point = some q → q.plain = true) ∨
    (o.server.now = v.now ∧ (∃ opening,o.server.opened = opening :: v.opened) ∧
      ∀ q,o.point = some q → q.plain = true) ∨
    p = .storeReset := by
  cases h with
  | won hslot => exact .inr (.inl ⟨hslot,rfl,_,rfl⟩)
  | counted _ => exact .inr (.inr (.inl ⟨rfl,rfl,rfl,by simp [Point.plain]⟩))
  | opened => exact .inr (.inr (.inr (.inl ⟨rfl,⟨_,rfl⟩,by simp [Point.plain]⟩)))
  | cleared => exact .inr (.inr (.inr (.inr rfl)))
  | @succeeded _ _ publish _ _ => exact .inl ⟨rfl,by cases publish <;> simp [Point.plain]⟩
  | @failed _ _ episode _ _ => exact .inl ⟨rfl,by cases episode <;> simp [Point.plain]⟩
  | cached _ => exact .inl ⟨rfl,by simp [Point.plain]⟩
  | uncached => exact .inl ⟨rfl,by simp [Point.plain]⟩
  | loaded => exact .inl ⟨rfl,by simp [Point.plain]⟩
  | mirrored hnext =>
    refine .inl ⟨rfl,?_⟩
    obtain rfl | ⟨_,rfl⟩ | ⟨_,rfl⟩ := hnext <;> simp [Point.plain]
  | lost => exact .inl ⟨rfl,by simp⟩
  | allowed _ hnext =>
    refine .inl ⟨rfl,?_⟩
    obtain rfl | rfl := hnext <;> simp [Point.plain]
  | installed => exact .inl ⟨rfl,by simp [Point.plain]⟩
  | wrote _ hnext =>
    refine .inl ⟨rfl,?_⟩
    obtain ⟨_,_,_,rfl⟩ | ⟨_,_,rfl⟩ := hnext <;> simp [Point.plain]
  | adopted => exact .inl ⟨rfl,by simp⟩
  | published => exact .inl ⟨rfl,by simp⟩
  | reset => exact .inl ⟨rfl,by simp⟩

theorem Point.probes_congr (h : w.opened = v.opened) : p.probes w = p.probes v := by
  cases p with
  | waiting g => cases g <;> simp [Point.probes,h]
  | _ => rfl

theorem Point.Held.later {now : Int} (h : p.Held cfg v) (hdue : p.due cfg now = true) :
    p.Held cfg { v with now := now } := by
  cases p with
  | waiting g =>
    cases g with
    | byProbe basis time opened => exact ⟨of_decide_eq_true hdue,h.2⟩
    | _ => trivial
  | storeReset => exact h
  | _ => trivial

theorem Point.Held.unguarded (h : p.Held cfg v) (hprobe : p.probes w = false)
    (hnow : w.now = v.now) (hopened : v.opened.length ≤ w.opened.length) : p.Held cfg w := by
  cases p with
  | waiting g =>
    cases g with
    | byProbe basis time opened =>
      have hother : ¬opened = w.opened := by simpa [Point.probes] using hprobe
      exact ⟨hnow ▸ h.1,h.2.1.trans hopened,fun heq => (hother heq).elim⟩
    | _ => trivial
  | storeReset => exact h
  | _ => trivial

/-- A call that reports in time never sees its own slot expire. -/
theorem Point.Held.slot (hms : cfg.probeTimeout % 1000000 = 0) (h : p.Held cfg v)
    (hslot : v.store.probeKey v.ms = none) : p.probes v = false := by
  cases p with
  | waiting g =>
    cases g with
    | byProbe basis time opened =>
      obtain ⟨hnow,_,hheld⟩ := h
      by_contra hprobe
      have hexpired := RedisStore.probeKey_none hslot (hheld (by simpa [Point.probes] using hprobe))
      have hpos := cfg.probeTimeout_pos
      have hlarge : ¬cfg.probeTimeout < 1000000 := by omega
      simp only [RedisStore.slotMillis,hlarge,if_false,milliseconds,Server.ms,
        Int.tdiv_eq_ediv_of_nonneg hpos.le] at hexpired
      omega
    | _ => rfl
  | _ => rfl

theorem Point.Held.overtaken {opening : Opening} (h : p.Held cfg v)
    (hopened : w.opened = opening :: v.opened) : p.probes w = false := by
  cases p with
  | waiting g =>
    cases g with
    | byProbe basis time opened =>
      have hshort : opened.length ≤ v.opened.length := h.2.1
      have hother : opened ≠ w.opened := by
        intro heq
        have hlen := congrArg List.length (heq.trans hopened)
        simp only [List.length_cons] at hlen
        omega
      simpa [Point.probes] using hother
    | _ => rfl
  | _ => rfl

end Points

namespace Fleet

variable {cfg : BreakerConfig} {s t : Fleet} {a : Action} {o : Outcome} {call replica : Nat}

theorem outstanding_plain (hopened : o.server.opened = s.server.opened)
    (hplain : ∀ q,o.point = some q → q.plain = true) :
    (outstanding (s.settle call replica o)).length ≤ s.outstanding.length := by
  have hothers : ((s.others call).filter (·.point.probes o.server)).length ≤
      s.outstanding.length := by
    simp only [Point.probes_congr hopened]
    exact (List.filter_sublist.filter _).length_le
  rw [outstanding,System.settle]
  cases hpoint : o.point with
  | none => simpa using hothers
  | some q => simpa [Point.probes_of_plain (hplain q hpoint)] using hothers

theorem outstanding_alone (hnone : ∀ t ∈ s.others call,t.point.probes o.server = false) :
    (outstanding (s.settle call replica o)).length ≤ 1 := by
  have hothers : (s.others call).filter (·.point.probes o.server) = [] :=
    List.filter_eq_nil_iff.2 fun t ht => by simp [hnone t ht]
  unfold outstanding System.settle
  cases hpoint : o.point with
  | none => simp [hothers]
  | some q =>
    rw [List.filter_cons,hothers]
    by_cases hprobe : q.probes o.server = true <;> simp [hprobe]

def Held (cfg : BreakerConfig) (s : Fleet) : Prop :=
  s.Kept (fun _ => True) (fun _ _ => True) (Point.Held cfg) ∧ s.outstanding.length ≤ 1

theorem Held.moved {th : Thread Point} (hms : cfg.probeTimeout % 1000000 = 0) (h : s.Held cfg)
    (halone : th.point = .publishProbeSuccess → s.outstanding.length = 0) (hmem : th ∈ s.threads)
    (hmoved : Moved cfg s.server (s.nodes th.node) th.point o) :
    Held cfg (s.settle call th.node o) := by
  obtain ⟨hkept,hone⟩ := h
  have hheld : ∀ t ∈ s.others call,t.point.Held cfg s.server :=
    fun t ht => hkept.threads t (System.others_mem ht)
  obtain ⟨hsame,hplain⟩ | ⟨hfree,hserver,reading,hpoint⟩ | ⟨hsuccess,hnow,hopened,hplain⟩ |
    ⟨hnow,⟨opening,hopened⟩,hplain⟩ | hreset := hmoved.slot
  · refine ⟨hkept.settle trivial trivial (fun q hq => Point.held_of_plain (hplain q hq))
      (fun _ _ => trivial) fun t _ ht => hsame ▸ ht,?_⟩
    exact (outstanding_plain (by rw [hsame]) hplain).trans hone
  · -- the slot is free, so no earlier probe is out
    have hnone : ∀ t ∈ s.others call,t.point.probes o.server = false := by
      intro t ht
      rw [Point.probes_congr (show o.server.opened = s.server.opened by rw [hserver])]
      exact (hheld t ht).slot hms hfree
    refine ⟨hkept.settle trivial trivial (fun q hq => ?_) (fun _ _ => trivial) fun t ht hold =>
      hold.unguarded (hnone t ht) (by rw [hserver]) (by rw [hserver]),outstanding_alone hnone⟩
    have hpos := cfg.probeTimeout_pos
    obtain rfl : .waiting (.byProbe reading s.server.now s.server.opened) = q :=
      Option.some.inj (hpoint.symm.trans hq)
    rw [hserver]
    exact ⟨by simpa using hpos.le,le_refl _,fun _ => rfl⟩
  · have hnone : ∀ t ∈ s.others call,t.point.probes o.server = false := by
      intro t ht
      rw [Point.probes_congr hopened]
      have hempty := List.filter_eq_nil_iff.1 (List.length_eq_zero_iff.1 (halone hsuccess))
      simpa using hempty t (System.others_mem ht)
    exact ⟨hkept.settle trivial trivial (fun q hq => Point.held_of_plain (hplain q hq))
      (fun _ _ => trivial) fun t ht hold => hold.unguarded (hnone t ht) hnow (by rw [hopened]),
      outstanding_alone hnone⟩
  · have hnone : ∀ t ∈ s.others call,t.point.probes o.server = false :=
      fun t ht => (hheld t ht).overtaken hopened
    exact ⟨hkept.settle trivial trivial (fun q hq => Point.held_of_plain (hplain q hq))
      (fun _ _ => trivial) fun t ht hold => hold.unguarded (hnone t ht) hnow (by simp [hopened]),
      outstanding_alone hnone⟩
  · exact (by simpa [hreset,Point.Held] using hkept.threads th hmem : False).elim

theorem Held.step (hms : cfg.probeTimeout % 1000000 = 0) (h : s.Held cfg) (hlegal : Legal cfg s a)
    (halone : Alone s a) (hst : Stepped cfg s a t) : Held cfg t := by
  cases hst with
  | ticked _ =>
    exact ⟨h.1.serve trivial (fun _ _ => trivial) fun t ht hold => hold.later (hlegal t ht),h.2⟩
  | @called call replica p _ hpoint =>
    have hplain : ∀ q,some p = some q → q.plain = true := by
      intro q hq
      cases hq
      obtain rfl | rfl := hpoint <;> rfl
    exact ⟨h.1.settle trivial trivial (fun q hq => Point.held_of_plain (hplain q hq))
      (fun _ _ => trivial) fun t _ hold => hold,(outstanding_plain rfl hplain).trans h.2⟩
  | resetting _ => exact hlegal.elim
  | moved hthread ha hmoved =>
    refine h.moved hms (fun hpoint => ?_) (System.thread_mem hthread) hmoved
    obtain ⟨g,hwaiting⟩ | ⟨now,later,rfl⟩ := ha
    · cases hwaiting.symm.trans hpoint
    · exact halone (by simp [hthread,hpoint])

theorem start_probes (cfg : BreakerConfig) : Held cfg (start cfg) :=
  ⟨⟨trivial,fun _ => trivial,by simp [start]⟩,by simp [outstanding,start]⟩

/-- One probe at a time in the whole fleet, where `ProbeTimeout` is whole
milliseconds and every probe success reaches Redis while no probe is out. -/
theorem one_probe_in_fleet (hms : cfg.probeTimeout % 1000000 = 0) {actions : List Action}
    (hrun : Reaches (step cfg) (fun s a => Legal cfg s a ∧ Alone s a) (start cfg) actions s) :
    s.outstanding.length ≤ 1 := by
  have hheld : Held cfg s := hrun.invariant
    (fun _ _ _ h hok hst => Held.step hms h hok.1 hok.2 (step_stepped hst)) (start_probes cfg)
  exact hheld.2

theorem one_probe_in_fleet_short :
    ∃ s,Reaches (step (shortCooldown 2 (by decide)))
        (fun s a => Legal (shortCooldown 2 (by decide)) s a ∧ Alone s a)
        (start (shortCooldown 2 (by decide))) tripThenProbe s ∧
      s.outstanding.map (·.id) = [1] ∧ s.outstanding.length ≤ 1 := by
  have hfound : ∃ s,Reaches (step (shortCooldown 2 (by decide)))
      (fun s a => Legal (shortCooldown 2 (by decide)) s a ∧ Alone s a)
      (start (shortCooldown 2 (by decide))) tripThenProbe s ∧ s.outstanding.map (·.id) = [1] := by
    refine Reaches.exists_of_run ?_
    decide +kernel
  obtain ⟨s,hrun,hprobe⟩ := hfound
  exact ⟨s,hrun,hprobe,one_probe_in_fleet rfl hrun⟩

/-- Call 0 was admitted while the breaker was closed. Its success counts for the
episode and deletes the slot that call 1 holds, and replica 1 wins it again. -/
theorem late_success_frees_fleet_slot :
    ∃ s,Reaches (step (shortCooldown 2 (by decide))) (Legal (shortCooldown 2 (by decide)))
        (start (shortCooldown 2 (by decide)))
        (tripThenProbe ++ [.report 0 true 21,.run 0 21 21,
          .allow 2 1,.run 2 30 30,.run 2 30 30,.run 2 30 30]) s ∧
      s.outstanding.map (·.id) = [2,1] := by
  refine Reaches.exists_of_run ?_
  decide +kernel

end Fleet

end Switchyard.Resilience
