import Mathlib.Algebra.BigOperators.Group.List.Basic
import Mathlib.Algebra.Order.BigOperators.Group.List
import Switchyard.StepRuns
import Switchyard.BudgetTracker
set_option autoImplicit false

/-!
One team's counter over one calendar month. A replica keeps no spend of its own,
so a run is the order in which Redis executed the replicas' commands.
-/

namespace Switchyard.Budget
open MachineInt StepRuns

/-- A reservation of the run: the handle `Reserve` returned, the actual it was
reconciled with, and the number of resets before it was made. -/
structure Slot where
  handle : Reservation
  settled : Option Int
  epoch : Nat
  deriving DecidableEq, Repr

structure Month where
  key : Option Counter
  slots : List Slot
  resets : Nat
  deriving DecidableEq, Repr

def Month.start : Month := ⟨none,[],0⟩

inductive Action where
  | reserve (left : Nat) (cap estimate : Int)
  | reconcile (slot : Nat) (actual : Int)
  | reset
  deriving DecidableEq, Repr

/-- One command. A reservation is reconciled at most once; a call that returns
an error leaves it unsettled. -/
def Month.step (team period : String) (m : Month) : Action → Option Month
  | .reserve left cap estimate =>
    match reserve m.key team ⟨period,left⟩ cap estimate with
    | (.ok (some r,_),key) => some { m with key, slots := m.slots ++ [⟨r,none,m.resets⟩] }
    | (_,key) => some { m with key }
  | .reconcile i actual =>
    match m.slots[i]? with
    | some ⟨r,none,epoch⟩ =>
      match reconcile m.key (some r) actual with
      | (.ok (),key) => some { m with key, slots := m.slots.set i ⟨r,some actual,epoch⟩ }
      | (.error _,key) => some { m with key }
    | _ => none
  | .reset => some { m with key := reset m.key, resets := m.resets+1 }

def Slot.amount (s : Slot) : Int := s.settled.getD s.handle.reserved

def Month.ledger (m : Month) : Int := (m.slots.map Slot.amount).sum

def Slot.share (resets : Nat) (s : Slot) : Int := if s.epoch = resets then s.amount else 0

/-- The ledger restricted to the reservations made after the last reset. -/
def Month.sinceReset (m : Month) : Int := (m.slots.map (Slot.share m.resets)).sum

structure Slot.Fair (resets : Nat) (s : Slot) : Prop where
  epoch_le : s.epoch ≤ resets
  reserved : 0 ≤ s.handle.reserved ∧ s.handle.reserved < 2^53
  settled : ∀ a ∈ s.settled,0 ≤ a

/-- The counter is the ledger since the last reset, and a key that exists
expires. -/
structure Month.Sound (m : Month) : Prop where
  fair : ∀ s ∈ m.slots,s.Fair m.resets
  value : spent m.key = m.sinceReset
  range : InRange (spent m.key)
  absent : m.key = none → ∀ s ∈ m.slots,s.epoch ≠ m.resets
  expiry : ∀ c ∈ m.key,c.ttl.isSome

/-- Estimates below 2^53, non-negative int64 actuals, and a reservation made
before a reset settled after it only at its estimate. -/
def Settles (m : Month) : Action → Prop
  | .reserve _ _ estimate => estimate < 2^53
  | .reconcile i actual => 0 ≤ actual ∧ InRange actual ∧
      ∀ s ∈ m.slots[i]?,s.epoch ≠ m.resets → actual = s.handle.reserved
  | .reset => True

instance (m : Month) : (a : Action) → Decidable (Settles m a)
  | .reserve _ _ _ => inferInstanceAs (Decidable (_ < _))
  | .reconcile _ _ => inferInstanceAs (Decidable (_ ∧ _ ∧ ∀ s ∈ _,_ → _))
  | .reset => inferInstanceAs (Decidable True)

theorem Slot.Fair.amount_nonneg {n : Nat} {s : Slot} (h : s.Fair n) : 0 ≤ s.amount := by
  unfold Slot.amount
  cases hs : s.settled with
  | none => exact h.reserved.1
  | some a => exact h.settled a (by simp [hs])

theorem Slot.Fair.share_nonneg {n : Nat} {s : Slot} (h : s.Fair n) : 0 ≤ s.share n := by
  unfold Slot.share
  split_ifs
  · exact h.amount_nonneg
  · exact le_rfl

variable {m : Month}

theorem Month.Sound.sinceReset_nonneg (h : m.Sound) : 0 ≤ m.sinceReset := by
  apply List.sum_nonneg
  simp only [List.mem_map,forall_exists_index,and_imp]
  rintro _ s hs rfl
  exact (h.fair s hs).share_nonneg

theorem Month.Sound.share_le (h : m.Sound) {s : Slot} (hs : s ∈ m.slots) :
    s.share m.resets ≤ m.sinceReset := by
  apply List.single_le_sum
  · simp only [List.mem_map,forall_exists_index,and_imp]
    rintro _ t ht rfl
    exact (h.fair t ht).share_nonneg
  · exact List.mem_map_of_mem hs

theorem Month.start_sound : Month.start.Sound := by
  constructor <;> simp [Month.start,Month.sinceReset,InRange]

theorem sum_map_set (f : Slot → Int) {slots : List Slot} {i : Nat} {s : Slot} (t : Slot)
    (h : slots[i]? = some s) : ((slots.set i t).map f).sum = (slots.map f).sum-f s+f t := by
  obtain ⟨hi,rfl⟩ := List.getElem?_eq_some_iff.1 h
  rw [List.map_set,List.sum_set']
  simp [hi]
  ring

variable {a : Action} {m' : Month} {period team : String}

theorem Month.step_cases (hm : m.Sound) (hok : Settles m a) (h : m.step team period a = some m') :
    (∃ key, m' = { m with key } ∧ spent key = spent m.key ∧
      (key = none → m.key = none) ∧ (∀ c ∈ key,m.key = some c ∨ c.ttl.isSome)) ∨
    (∃ left cap est, a = .reserve left cap est ∧ 0 < cap ∧ 0 ≤ est ∧
      InRange (spent m.key+est) ∧
      Binary64.round (spent m.key+est : Int) ≤ Binary64.round cap ∧
      m' = { m with
        key := keyAfter m.key (spent m.key+est) (ttlUntilPeriodEnd ⟨period,left⟩)
        slots := m.slots ++ [⟨⟨team,period,est⟩,none,m.resets⟩] }) ∨
    (∃ i actual r epoch, a = .reconcile i actual ∧ m.slots[i]? = some ⟨r,none,epoch⟩ ∧
      m' = { m with slots := m.slots.set i ⟨r,some actual,epoch⟩ } ∧ actual = r.reserved) ∨
    (∃ i actual r epoch, a = .reconcile i actual ∧ m.slots[i]? = some ⟨r,none,epoch⟩ ∧
      epoch = m.resets ∧ InRange (spent m.key+(actual-r.reserved)) ∧
      m' = { m with
        key := some ⟨spent m.key+(actual-r.reserved),m.key.bind Counter.ttl⟩
        slots := m.slots.set i ⟨r,some actual,epoch⟩ }) ∨
    (a = .reset ∧ m' = { m with key := none, resets := m.resets+1 }) := by
  cases a with
  | reserve left cap est =>
    rcases reserve_cases team ⟨period,left⟩ cap hok hm.range with
      ⟨e,he,-⟩ | ⟨he,hcap,hest,hin,hr⟩ | ⟨he,-⟩
    · simp only [Month.step,he,Option.some.injEq] at h
      exact .inl ⟨m.key,h.symm,rfl,id,fun c hc => .inl hc⟩
    · simp only [Month.step,he,Option.some.injEq] at h
      exact .inr (.inl ⟨left,cap,est,rfl,hcap,hest,hin,hr,h.symm⟩)
    · simp only [Month.step,he,Option.some.injEq] at h
      refine .inl ⟨_,h.symm,spent_keyAfter _ _ _,?_,?_⟩
      · cases m.key <;> simp [keyAfter]
      · cases hk : m.key <;> simp [keyAfter]
  | reconcile i actual =>
    obtain ⟨ha,hrange,hstale⟩ := hok
    cases hs : m.slots[i]? with
    | none => simp [Month.step,hs] at h
    | some s =>
      obtain ⟨r,settled,epoch⟩ := s
      cases settled with
      | some b => simp [Month.step,hs] at h
      | none =>
        have hfair := hm.fair _ (List.mem_of_getElem? hs)
        rcases reconcile_cases m.key hfair.reserved ha hrange with
          ⟨heq,he⟩ | ⟨hne,hin,he⟩ | ⟨-,e,he⟩
        · simp only [Month.step,hs,he,Option.some.injEq] at h
          exact .inr (.inr (.inl ⟨i,actual,r,epoch,rfl,hs,h.symm,heq⟩))
        · simp only [Month.step,hs,he,Option.some.injEq] at h
          have hepoch : epoch = m.resets := by
            by_contra hold
            exact hne (hstale _ (by simp [hs]) hold)
          exact .inr (.inr (.inr (.inl ⟨i,actual,r,epoch,rfl,hs,hepoch,hin,h.symm⟩)))
        · simp only [Month.step,hs,he,Option.some.injEq] at h
          exact .inl ⟨m.key,h.symm,rfl,id,fun c hc => .inl hc⟩
  | reset =>
    simp only [Month.step,reset,Option.some.injEq] at h
    exact .inr (.inr (.inr (.inr ⟨rfl,h.symm⟩)))

theorem Month.sinceReset_set (m : Month) (key : Option Counter) {i : Nat} {s : Slot} (t : Slot)
    (h : m.slots[i]? = some s) :
    ({ m with key, slots := m.slots.set i t } : Month).sinceReset =
      m.sinceReset-s.share m.resets+t.share m.resets := sum_map_set _ t h

theorem Month.sinceReset_reset (hm : m.Sound) (key : Option Counter) :
    ({ m with key, resets := m.resets+1 } : Month).sinceReset = 0 := by
  apply List.sum_eq_zero
  simp only [List.mem_map,forall_exists_index,and_imp]
  rintro _ s hs rfl
  have := (hm.fair s hs).epoch_le
  exact if_neg (by omega)

theorem Month.Sound.fair_set (hm : m.Sound) {i : Nat} {r : Reservation}
    {actual : Int} {epoch : Nat} (hs : m.slots[i]? = some ⟨r,none,epoch⟩) (ha : 0 ≤ actual) :
    ∀ s ∈ m.slots.set i ⟨r,some actual,epoch⟩,s.Fair m.resets := by
  intro s hmem
  rcases List.mem_or_eq_of_mem_set hmem with hmem | rfl
  · exact hm.fair s hmem
  · have hold := hm.fair _ (List.mem_of_getElem? hs)
    exact ⟨hold.epoch_le,hold.reserved,by simpa using ha⟩

theorem Month.step_sound (hm : m.Sound) (hok : Settles m a) (h : m.step team period a = some m') :
    m'.Sound := by
  rcases Month.step_cases hm hok h with
    ⟨key,rfl,hspent,hnone,hsome⟩ | ⟨left,cap,est,rfl,-,hest,hin,-,rfl⟩ |
    ⟨i,actual,r,epoch,rfl,hs,rfl,heq⟩ | ⟨i,actual,r,epoch,rfl,hs,rfl,hin,rfl⟩ | ⟨rfl,rfl⟩
  · -- the command left the counter's value as it was
    refine ⟨hm.fair,hspent.trans hm.value,hspent ▸ hm.range,fun hk => hm.absent (hnone hk),?_⟩
    intro c hc
    rcases hsome c hc with hold | ht
    · exact hm.expiry c hold
    · exact ht
  · refine ⟨?_,?_,by simpa using hin,?_,?_⟩
    · simp only [List.mem_append,List.mem_singleton]
      rintro s (hs | rfl)
      · exact hm.fair s hs
      · exact ⟨le_rfl,⟨hest,hok⟩,by simp⟩
    · simp [Month.sinceReset,Slot.share,Slot.amount,hm.value]
    · cases m.key <;> simp [keyAfter]
    · cases hk : m.key with
      | none => simp [keyAfter]
      | some c => simpa [keyAfter] using hm.expiry c hk
  · refine ⟨hm.fair_set hs hok.1,?_,hm.range,?_,hm.expiry⟩
    · rw [hm.value]
      have := m.sinceReset_set m.key ⟨r,some actual,epoch⟩ hs
      simp only [Slot.share,Slot.amount,Option.getD_none,Option.getD_some,← heq] at this
      omega
    · intro hk s hmem
      rcases List.mem_or_eq_of_mem_set hmem with hmem | rfl
      · exact hm.absent hk s hmem
      · have hold := hm.absent hk _ (List.mem_of_getElem? hs)
        exact hold
  · refine ⟨hm.fair_set hs hok.1,?_,hin,by simp,?_⟩
    · rw [m.sinceReset_set _ ⟨r,some actual,m.resets⟩ hs,← hm.value]
      simp only [Slot.share,Slot.amount,Option.getD_none,Option.getD_some,spent_some,ite_true]
      omega
    · cases hk : m.key with
      | none => exact absurd rfl (hm.absent hk _ (List.mem_of_getElem? hs))
      | some c => simpa using hm.expiry c hk
  · refine ⟨?_,?_,by simp [InRange],?_,by simp⟩
    · intro s hs
      have := hm.fair s hs
      exact ⟨Nat.le_succ_of_le this.epoch_le,this.reserved,this.settled⟩
    · exact (Month.sinceReset_reset hm none).symm
    · intro _ s hs
      have := (hm.fair s hs).epoch_le
      simp only
      omega

/-- One cap for the whole run, and no actual above its estimate. -/
def Capped (cap : Int) (m : Month) : Action → Prop
  | .reserve _ c _ => c = cap
  | .reconcile i actual => ∀ s ∈ m.slots[i]?,actual ≤ s.handle.reserved
  | .reset => True

instance (cap : Int) (m : Month) : (a : Action) → Decidable (Capped cap m a)
  | .reserve _ _ _ => inferInstanceAs (Decidable (_ = _))
  | .reconcile _ _ => inferInstanceAs (Decidable (∀ s ∈ _,_ ≤ _))
  | .reset => inferInstanceAs (Decidable True)

/-- The cap is kept by every command whose cap check, made on doubles, is a check
on the amounts themselves. -/
theorem Month.step_capped {C : Int}
    (hC : 0 < C) (hm : m.Sound) (hok : Settles m a) (hcap : Capped C m a)
    (hround : ∀ left cap est, a = .reserve left cap est → 0 < cap → 0 ≤ est →
      Binary64.round (spent m.key+est : Int) ≤ Binary64.round cap → spent m.key+est ≤ cap)
    (h : m.step team period a = some m') (hle : m.sinceReset ≤ C) : m'.sinceReset ≤ C := by
  rcases Month.step_cases hm hok h with
    ⟨key,rfl,-⟩ | ⟨left,cap,est,rfl,hpos,hest,-,hr,rfl⟩ |
    ⟨i,actual,r,epoch,rfl,hs,rfl,heq⟩ | ⟨i,actual,r,epoch,rfl,hs,rfl,-,rfl⟩ | ⟨rfl,rfl⟩
  · exact hle
  · have hsum := hround left cap est rfl hpos hest hr
    have hcap : cap = C := hcap
    rw [hm.value,hcap] at hsum
    simpa [Month.sinceReset,Slot.share,Slot.amount] using hsum
  · have hset := m.sinceReset_set m.key ⟨r,some actual,epoch⟩ hs
    simp only [Slot.share,Slot.amount,Option.getD_none,Option.getD_some,heq] at hset ⊢
    omega
  · have hset := m.sinceReset_set
      (some ⟨spent m.key+(actual-r.reserved),m.key.bind Counter.ttl⟩)
      ⟨r,some actual,m.resets⟩ hs
    have hact : actual ≤ r.reserved := hcap _ hs
    simp only [Slot.share,Slot.amount,Option.getD_none,Option.getD_some,ite_true] at hset ⊢
    omega
  · rw [Month.sinceReset_reset hm none]
    exact hC.le

theorem Month.reach_sound {as : List Action}
    (h : Reaches (Month.step team period) Settles Month.start as m) : m.Sound :=
  h.invariant (fun _ _ _ hs hok hst => Month.step_sound hs hok hst) Month.start_sound

/-- As long as no reservation made before a reset is settled after it at another
amount, the counter stays non-negative and keeps an expiry, and what was
reserved after the last reset stays within the cap. -/
theorem counter_survives_reset {team period : String} {as : List Action} {m : Month}
    (h : Reaches (Month.step team period) Settles Month.start as m) :
    0 ≤ spent m.key ∧ (∀ c ∈ m.key,c.ttl.isSome) ∧
    ∀ C : Int,0 < C → Binary64.round C < Binary64.round (C+1 : Int) →
      Reaches (Month.step team period) (fun m a => Settles m a ∧ Capped C m a)
        Month.start as m → m.sinceReset ≤ C := by
  have hm := Month.reach_sound h
  refine ⟨hm.value ▸ hm.sinceReset_nonneg,hm.expiry,?_⟩
  intro C hC hsep hrun
  have hinv := hrun.invariant (I := fun m => m.Sound ∧ m.sinceReset ≤ C)
    (fun s a t hs hok hst => ⟨Month.step_sound hs.1 hok.1 hst,
      Month.step_capped hC hs.1 hok.1 hok.2 (by
        rintro left cap est rfl hpos - hr
        obtain rfl : cap = C := hok.2
        exact le_of_round_le hpos hsep hr) hst hs.2⟩)
    ⟨Month.start_sound,by simpa [Month.start,Month.sinceReset] using hC.le⟩
  exact hinv.2

theorem counter_survives_reset_run :
    let as : List Action := [.reserve 100 10 6,.reset,.reserve 100 10 8,.reconcile 1 3]
    ∃ m,Reaches (Month.step "t" "2026-01") Settles Month.start as m ∧
      0 ≤ spent m.key ∧ (∀ c ∈ m.key,c.ttl.isSome) ∧ m.sinceReset ≤ 10 := by
  have hrun : Reaches (Month.step "t" "2026-01") (fun m a => Settles m a ∧ Capped 10 m a)
      Month.start [.reserve 100 10 6,.reset,.reserve 100 10 8,.reconcile 1 3]
      ⟨some ⟨3,some 172900⟩,[⟨⟨"t","2026-01",6⟩,none,0⟩,⟨⟨"t","2026-01",8⟩,some 3,1⟩],1⟩ :=
    Reaches.of_run (by decide +kernel)
  have h := counter_survives_reset (hrun.mono fun _ _ hok => hok.1)
  exact ⟨_,hrun.mono fun _ _ hok => hok.1,h.1,h.2.1,
    h.2.2 10 (by decide) (by decide +kernel) hrun⟩

def NonNegative (_m : Month) : Action → Prop
  | .reconcile _ actual => 0 ≤ actual ∧ InRange actual
  | _ => True

instance (m : Month) : (a : Action) → Decidable (NonNegative m a)
  | .reserve _ _ _ => inferInstanceAs (Decidable True)
  | .reconcile _ _ => inferInstanceAs (Decidable (_ ∧ _))
  | .reset => inferInstanceAs (Decidable True)

/-- A reservation that settles after a reset re-creates the key with a negative
value and no expiry, and the cap then admits twice its amount. -/
theorem stale_settlement_below_zero :
    ∃ m m',
      Reaches (Month.step "t" "2026-01") (fun m a => NonNegative m a ∧ Capped 10 m a)
        Month.start [.reserve 100 10 10,.reset,.reconcile 0 0] m ∧
      m.key = some ⟨-10,none⟩ ∧
      Reaches (Month.step "t" "2026-01") (fun m a => NonNegative m a ∧ Capped 10 m a)
        m [.reserve 100 10 10,.reserve 100 10 10] m' ∧
      m'.sinceReset = 20 := by
  refine ⟨⟨some ⟨-10,none⟩,[⟨⟨"t","2026-01",10⟩,some 0,0⟩],1⟩,
    ⟨some ⟨10,none⟩,[⟨⟨"t","2026-01",10⟩,some 0,0⟩,⟨⟨"t","2026-01",10⟩,none,1⟩,
      ⟨⟨"t","2026-01",10⟩,none,1⟩],1⟩,?_,rfl,?_,by decide⟩
  · exact Reaches.of_run (by decide +kernel)
  · exact Reaches.of_run (by decide +kernel)

/-- No reset, non-negative actuals, and every total asked for or settled to is
below 2^53. -/
def Bounded (m : Month) : Action → Prop
  | .reserve _ _ estimate => m.ledger+estimate < 2^53
  | .reconcile i actual => 0 ≤ actual ∧
      ∀ s ∈ m.slots[i]?,m.ledger-s.handle.reserved+actual < 2^53
  | .reset => False

instance (m : Month) : (a : Action) → Decidable (Bounded m a)
  | .reserve _ _ _ => inferInstanceAs (Decidable (_ < _))
  | .reconcile _ _ => inferInstanceAs (Decidable (_ ∧ ∀ s ∈ _,_ < _))
  | .reset => inferInstanceAs (Decidable False)

theorem Month.Sound.ledger_eq (hm : m.Sound) (h0 : m.resets = 0) : m.ledger = m.sinceReset := by
  have hshare : ∀ s ∈ m.slots,s.amount = s.share m.resets := by
    intro s hs
    have := (hm.fair s hs).epoch_le
    exact (if_pos (by omega)).symm
  unfold Month.ledger Month.sinceReset
  rw [List.map_congr_left hshare]

theorem Month.step_open {i : Nat} {actual : Int}
    (h : m.step team period (.reconcile i actual) = some m') :
    ∃ r epoch,m.slots[i]? = some ⟨r,none,epoch⟩ := by
  cases hs : m.slots[i]? with
  | none => simp [Month.step,hs] at h
  | some s =>
    obtain ⟨r,settled,epoch⟩ := s
    cases settled with
    | none => exact ⟨r,epoch,rfl⟩
    | some b => simp [Month.step,hs] at h

theorem Bounded.settles (hm : m.Sound)
    (h0 : m.resets = 0) (h : Bounded m a) (hst : m.step team period a = some m') : Settles m a := by
  have hnn := hm.sinceReset_nonneg
  have heq := hm.ledger_eq h0
  cases a with
  | reserve left cap est =>
    have : m.ledger+est < 2^53 := h
    show est < 2^53
    omega
  | reconcile i actual =>
    obtain ⟨r,epoch,hs⟩ := Month.step_open hst
    obtain ⟨ha,htot⟩ := h
    have hmem := List.mem_of_getElem? hs
    have hepoch : epoch = m.resets := by
      have : epoch ≤ m.resets := (hm.fair _ hmem).epoch_le
      omega
    have hshare := hm.share_le hmem
    have := htot _ hs
    simp only [Slot.share,hepoch,ite_true,Slot.amount,Option.getD_none] at hshare this
    refine ⟨ha,by unfold InRange; omega,?_⟩
    intro s hs' hold
    obtain rfl := Option.mem_unique hs' hs
    exact absurd hepoch hold
  | reset => exact h.elim

theorem Month.step_bounded
    (hm : m.Sound ∧ m.resets = 0) (hok : Bounded m a) (h : m.step team period a = some m') :
    m'.Sound ∧ m'.resets = 0 := by
  have hset := hok.settles hm.1 hm.2 h
  refine ⟨Month.step_sound hm.1 hset h,?_⟩
  rcases Month.step_cases hm.1 hset h with
    ⟨key,rfl,-⟩ | ⟨_,_,_,rfl,-,-,-,-,rfl⟩ | ⟨_,_,_,_,rfl,-,rfl,-⟩ |
    ⟨_,_,_,_,rfl,-,-,-,rfl⟩ | ⟨rfl,-⟩
  · exact hm.2
  · exact hm.2
  · exact hm.2
  · exact hm.2
  · exact hok.elim

theorem Month.reach_bounded {as : List Action}
    (h : Reaches (Month.step team period) Bounded Month.start as m) : m.Sound ∧ m.resets = 0 :=
  h.invariant (fun _ _ _ hs hok hst => Month.step_bounded hs hok hst) ⟨Month.start_sound,rfl⟩

def admitted : Except String (Option Reservation × Result) → Bool
  | .ok (_,result) => result.allowed
  | .error _ => false

theorem reserve_exact {key : Option Counter} {now : Now} {cap est : Int}
    (h0 : 0 ≤ spent key) (hk : InRange (spent key)) (h : spent key+est < 2^53) :
    let out := reserve key team now cap est
    (admitted out.1 = true ↔ 0 < cap ∧ 0 ≤ est ∧ spent key+est ≤ cap) ∧
    (admitted out.1 = false → spent out.2 = spent key) ∧
    ∀ r result,out.1 = .ok (r,result) → result.allowed = false →
      result.spentMicros = spent key := by
  rcases reserve_cases team now cap (by omega : est < 2^53) hk with
    ⟨e,he,hbad⟩ | ⟨he,hcap,hest,-,hr⟩ | ⟨he,hcap,hest,hr⟩
  · simp only [he,admitted]
    refine ⟨iff_of_false (by simp) ?_,fun _ => trivial,by simp⟩
    rintro ⟨hcap,hest,-⟩
    have hin : InRange (spent key+est) := by
      unfold InRange at hk ⊢; omega
    rcases hbad with hb | hb | hb
    · omega
    · omega
    · exact hb hin
  · simp only [he,admitted]
    refine ⟨iff_of_true trivial ⟨hcap,hest,?_⟩,by simp,?_⟩
    · exact (round_le_round_iff hcap (by omega) h).1 hr
    · simp only [Except.ok.injEq,Prod.mk.injEq]
      rintro _ _ ⟨-,rfl⟩ hfalse
      simp at hfalse
  · simp only [he,admitted,spent_keyAfter]
    refine ⟨iff_of_false (by simp) ?_,fun _ => trivial,?_⟩
    · rintro ⟨-,-,hle⟩
      exact absurd ((round_le_round_iff hcap (by omega) h).2 hle) (not_le.2 hr)
    · simp only [Except.ok.injEq,Prod.mk.injEq]
      rintro _ _ ⟨-,rfl⟩ -
      have htot : Binary64.round (spent key+est : Int) = (spent key+est : Int) :=
        Binary64.round_intCast (abs_lt.2 ⟨by omega,h⟩)
      have hback : ((spent key+est : Int) : ℚ)-est = (spent key : Int) := by push_cast; ring
      rw [htot,hback]
      exact toInteger_round (abs_lt.2 ⟨by omega,by omega⟩)

/-- At every moment of a run without resets the counter is the ledger; `Reserve`
admits exactly what fits under a positive cap; and one cap for all keeps the
counter within it. -/
theorem counter_is_ledger {team period : String} {as : List Action} {m : Month}
    (h : Reaches (Month.step team period) Bounded Month.start as m) :
    spent m.key = m.ledger ∧
    (∀ left cap est,m.ledger+est < 2^53 →
      let out := reserve m.key team ⟨period,left⟩ cap est
      (admitted out.1 = true ↔ 0 < cap ∧ 0 ≤ est ∧ m.ledger+est ≤ cap) ∧
      (admitted out.1 = false → spent out.2 = m.ledger) ∧
      ∀ r result,out.1 = .ok (r,result) → result.allowed = false →
        result.spentMicros = m.ledger) ∧
    ∀ C : Int,0 < C →
      Reaches (Month.step team period) (fun m a => Bounded m a ∧ Capped C m a)
        Month.start as m → spent m.key ≤ C := by
  obtain ⟨hm,h0⟩ := Month.reach_bounded h
  have hval : spent m.key = m.ledger := hm.value.trans (hm.ledger_eq h0).symm
  have hnn : 0 ≤ spent m.key := hm.value ▸ hm.sinceReset_nonneg
  refine ⟨hval,?_,?_⟩
  · intro left cap est hlt
    rw [← hval] at hlt ⊢
    exact reserve_exact hnn hm.range hlt
  · intro C hC hrun
    have hinv := hrun.invariant (I := fun m => (m.Sound ∧ m.resets = 0) ∧ m.sinceReset ≤ C)
      (fun s a t hs hok hst => ⟨Month.step_bounded hs.1 hok.1 hst,
        Month.step_capped hC hs.1.1 (hok.1.settles hs.1.1 hs.1.2 hst) hok.2 (by
          rintro left cap est rfl hpos hest hr
          have hlt : s.ledger+est < 2^53 := hok.1
          rw [hs.1.1.ledger_eq hs.1.2,← hs.1.1.value] at hlt
          have hs0 := hs.1.1.value ▸ hs.1.1.sinceReset_nonneg
          exact (round_le_round_iff hpos (by omega) hlt).1 hr) hst hs.2⟩)
      ⟨⟨Month.start_sound,rfl⟩,by simpa [Month.start,Month.sinceReset] using hC.le⟩
    exact hm.value ▸ hinv.2

theorem counter_is_ledger_run :
    ∃ m,Reaches (Month.step "t" "2026-01") Bounded Month.start
        [.reserve 100 10 6,.reserve 100 10 5,.reserve 100 10 4,.reconcile 1 2] m ∧
      spent m.key = m.ledger ∧ spent m.key ≤ 10 ∧
      admitted (reserve m.key "t" ⟨"2026-01",100⟩ 10 2).1 = true := by
  have hrun : Reaches (Month.step "t" "2026-01") (fun m a => Bounded m a ∧ Capped 10 m a)
      Month.start [.reserve 100 10 6,.reserve 100 10 5,.reserve 100 10 4,.reconcile 1 2]
      ⟨some ⟨8,some 172900⟩,[⟨⟨"t","2026-01",6⟩,none,0⟩,⟨⟨"t","2026-01",4⟩,some 2,0⟩],0⟩ :=
    Reaches.of_run (by decide +kernel)
  have h := counter_is_ledger (hrun.mono fun _ _ hok => hok.1)
  exact ⟨_,hrun.mono fun _ _ hok => hok.1,h.1,h.2.2 10 (by decide) hrun,
    (h.2.1 100 10 2 (by decide)).1.2 (by decide)⟩

/-- A cap of zero is an error even for an estimate of zero. -/
theorem zero_cap_not_admitted :
    Reaches (Month.step "t" "2026-01") Bounded Month.start [] Month.start ∧
    Month.start.ledger+0 ≤ 0 ∧
    reserve Month.start.key "t" ⟨"2026-01",100⟩ 0 0 =
      (.error "budget: cap must be positive, got 0",none) := ⟨.stop _,by decide,by decide +kernel⟩

end Switchyard.Budget
