import Switchyard.ChatFootprint
import Switchyard.CircuitBreaker
set_option autoImplicit false

/-!
What a walk over the chain asks of the breakers and tells them
(internal/proxy/fallback.go, runChain): every candidate is one round, and a
round that was admitted and then given up before the provider call has no report.
-/

namespace Switchyard.Proxy
open CallTree Act Provider Resilience

inductive BreakerEvent where
  | allow (c : Candidate) (allowed : Bool)
  | report (c : Candidate) (success : Bool)
  deriving DecidableEq, Repr

def breakerEvent : Event Op Ans → Option BreakerEvent
  | ⟨.breakerAllow c,allowed⟩ => some (.allow c allowed)
  | ⟨.breakerReport c success,_⟩ => some (.report c success)
  | _ => none

def breakerEvents (tr : History) : List BreakerEvent := tr.filterMap breakerEvent

/-- An answer on which the walk gives up a candidate it was admitted to: the
budget re-check could not price it, failed or said no, or no provider serves it. -/
def givesUp : Event Op Ans → Bool
  | ⟨.defaultMaxTokensFor _,none⟩ => true
  | ⟨.cost _ _ _,.error _⟩ => true
  | ⟨.reserveSpend _ _ _,.error _⟩ => true
  | ⟨.reserveSpend _ _ _,.ok (_,res)⟩ => !res.allowed
  | ⟨.forModel _,.error _⟩ => true
  | _ => false

/-- Every admission is followed by one report on its own breaker, and a refusal
by none. -/
inductive Paired : List BreakerEvent → Prop where
  | nil : Paired []
  | refused {l : List BreakerEvent} (c : Candidate) : Paired l → Paired (.allow c false :: l)
  | reported {l : List BreakerEvent} (c : Candidate) (success : Bool) :
      Paired l → Paired (.allow c true :: .report c success :: l)

/-- The rounds of a walk, with the breakers on or off, and whether one of them
was given up after its admission. -/
inductive Rounds : Bool → List BreakerEvent → Bool → Prop where
  | unguarded (gaveUp : Bool) : Rounds false [] gaveUp
  | nil : Rounds true [] false
  | refused {l : List BreakerEvent} {gaveUp : Bool} (c : Candidate) :
      Rounds true l gaveUp → Rounds true (.allow c false :: l) gaveUp
  | abandoned {l : List BreakerEvent} {gaveUp : Bool} (c : Candidate) :
      Rounds true l gaveUp → Rounds true (.allow c true :: l) true
  | called {l : List BreakerEvent} {gaveUp : Bool} (c : Candidate) (success : Bool) :
      Rounds true l gaveUp → Rounds true (.allow c true :: .report c success :: l) gaveUp

theorem Rounds.start (on : Bool) : Rounds on [] false := by
  cases on
  · exact .unguarded false
  · exact .nil

variable {on : Bool} {l : List BreakerEvent}

theorem Rounds.append {l' : List BreakerEvent} {gaveUp gaveUp' : Bool}
    (h : Rounds on l gaveUp) (h' : Rounds on l' gaveUp') :
    Rounds on (l ++ l') (gaveUp || gaveUp') := by
  induction h with
  | unguarded gaveUp =>
    cases h'
    exact .unguarded _
  | nil => exact h'
  | refused c _ ih => exact .refused c (ih h')
  | abandoned c _ ih => exact .abandoned c (ih h')
  | called c success _ ih => exact .called c success (ih h')

variable {c : Candidate}

/-- No round starts with a report, so a report always belongs to the admission
right before it. -/
theorem Rounds.not_report {gaveUp : Bool} {success : Bool} (h : Rounds on l gaveUp) :
    l.head? ≠ some (.report c success) := by
  cases h <;> simp

theorem Rounds.paired_iff {gaveUp : Bool} (h : Rounds on l gaveUp) :
    Paired l ↔ on = false ∨ gaveUp = false := by
  induction h with
  | unguarded gaveUp => exact ⟨fun _ => .inl rfl,fun _ => .nil⟩
  | nil => exact ⟨fun _ => .inr rfl,fun _ => .nil⟩
  | refused c _ ih =>
    refine ⟨fun hp => ?_,fun hg => .refused c (ih.2 hg)⟩
    cases hp with
    | refused _ hp => exact ih.1 hp
  | abandoned c hl ih =>
    refine ⟨fun hp => ?_,fun hg => ?_⟩
    · cases hp with
      | reported _ success hp => exact absurd rfl hl.not_report
    · simp at hg
  | called c success _ ih =>
    refine ⟨fun hp => ?_,fun hg => .reported c success (ih.2 hg)⟩
    cases hp with
    | reported _ _ hp => exact ih.1 hp

def Adds (P : List BreakerEvent → Bool → Prop) (h h' : History) : Prop :=
  ∃ tr,h' = h ++ tr ∧ P (breakerEvents tr) (tr.any givesUp)

def Silent (l : List BreakerEvent) (gaveUp : Bool) : Prop := l = [] ∧ gaveUp = false

variable {P : List BreakerEvent → Bool → Prop}

variable {h : History}

theorem adds_nil (hP : P [] false) :
    Adds P h h := ⟨[],by simp,hP⟩

variable {h₁ h₂ : History}

theorem Adds.trans {P' P'' : List BreakerEvent → Bool → Prop}
    (h₁₂ : Adds P h h₁) (h₂₃ : Adds P' h₁ h₂)
    (hP : ∀ l l' g g',P l g → P' l' g' → P'' (l ++ l') (g || g')) : Adds P'' h h₂ := by
  obtain ⟨tr,rfl,htr⟩ := h₁₂
  obtain ⟨tr',rfl,htr'⟩ := h₂₃
  refine ⟨tr ++ tr',by simp,?_⟩
  rw [breakerEvents,List.filterMap_append,List.any_append]
  exact hP _ _ _ _ htr htr'

theorem Adds.mono {P' : List BreakerEvent → Bool → Prop} {h' : History} (ha : Adds P h h')
    (himp : ∀ l g,P l g → P' l g) : Adds P' h h' := by
  obtain ⟨tr,rfl,htr⟩ := ha
  exact ⟨tr,rfl,himp _ _ htr⟩

theorem adds_event
    (e : Event Op Ans) (hP : P (breakerEvent e).toList (givesUp e)) : Adds P h (h ++ [e]) := by
  refine ⟨[e],rfl,?_⟩
  cases he : breakerEvent e <;> simpa [breakerEvents,he] using hP

/-! The pieces of a round. -/

def Abandoned (l : List BreakerEvent) (gaveUp : Bool) : Prop := l = [] ∧ gaveUp = true

theorem Adds.silent (h₁₂ : Adds Silent h h₁) (h₂₃ : Adds P h₁ h₂) : Adds P h h₂ := by
  refine h₁₂.trans h₂₃ ?_
  rintro l l' g g' ⟨rfl,rfl⟩ hP
  simpa using hP

def quiet (op : Op) : Prop := ∀ ans,breakerEvent ⟨op,ans⟩ = none ∧ givesUp ⟨op,ans⟩ = false

theorem adds_quiet {op : Op} (hop : quiet op) (ans : Ans op) (h : History) :
    Adds Silent h (h ++ [⟨op,ans⟩]) := by
  obtain ⟨hev,hgive⟩ := hop ans
  exact adds_event _ ⟨by rw [hev]; rfl,hgive⟩

def silence (h : History) : Contract Op Ans Vars :=
  .onHistory Vars (fun _ _ => True) (Adds Silent h)

theorem silence_step {op : Op} (hop : quiet op) : (silence h).Step op :=
  onHistory_step fun h' hs => ⟨trivial,fun ans => hs.silent (adds_quiet hop ans h')⟩

theorem silence_attempt {cand : Candidate} (op : Op) (hop : AttemptOp cand op) :
    (silence h).Step op := by
  refine silence_step ?_
  cases op <;> first | exact fun _ => ⟨rfl,rfl⟩ | exact hop.elim

theorem completeAttempt_silent (h : History) (req : Request) (prov : Adapter) (cand : Candidate) :
    Honours (silence h) (completeAttempt req prov cand) :=
  completeAttempt_keeps silence_attempt (fun _ => silence_step fun _ => ⟨rfl,rfl⟩) req

theorem streamAttempt_silent (h : History) (req : Request) (prov : Adapter) (cand : Candidate) :
    Honours (silence h) (streamAttempt req prov cand) :=
  streamAttempt_keeps silence_attempt (fun _ => silence_step fun _ => ⟨rfl,rfl⟩) req

theorem estimateFor_adds (cb : ChainBudget) (model : String) (h : History) :
    (cb.estimateFor model).Spec (fun _ _ => True) (fun h' r => match r with
      | .ok _ => Adds Silent h h'
      | .error _ => Adds Abandoned h h') h := by
  refine ⟨trivial,fun known => ?_⟩
  cases known with
  | none => exact adds_event _ ⟨rfl,rfl⟩
  | some d =>
    refine ⟨trivial,fun priced => ?_⟩
    have hknown : Adds Silent h (h ++ [⟨.defaultMaxTokensFor model,some d⟩]) :=
      adds_event _ ⟨rfl,rfl⟩
    cases priced with
    | error e => exact hknown.silent (adds_event _ ⟨rfl,rfl⟩)
    | ok estimate => exact hknown.silent (adds_event _ ⟨rfl,rfl⟩)

theorem admitCandidate_adds (cb : ChainBudget) (model : String) (v : Vars) (h : History) :
    Spec (fun _ _ => True) (cb.admitCandidate model) (fun h' r _ => match r with
      | .ok (.ok _) => Adds Silent h h'
      | .ok (.error _) => Adds Abandoned h h'
      | .error _ => True) v h := by
  unfold ChainBudget.admitCandidate
  split
  · exact adds_nil ⟨rfl,rfl⟩
  refine (spec_lift_of (estimateFor_adds cb model h)).bind ?_ fun _ _ _ _ => trivial
  rintro h₁ priced v₁ ⟨-,_,⟨⟩,hpriced⟩
  cases priced with
  | error e => exact hpriced
  | ok estimate =>
    simp only []
    split
    · exact hpriced
    refine spec_call_bind.2 ⟨trivial,fun reserved => ?_⟩
    cases reserved with
    | error e => exact Adds.silent hpriced (adds_event _ ⟨rfl,rfl⟩)
    | ok reserved =>
      obtain ⟨reservation,res⟩ := reserved
      simp only []
      split
      next hdenied => exact Adds.silent hpriced (adds_event _ ⟨rfl,hdenied⟩)
      next hallowed =>
        exact Adds.silent hpriced (adds_event _ ⟨rfl,Bool.eq_false_iff.2 hallowed⟩)

/-- What a piece of a walk that did not panic adds is whole rounds. -/
def Walks (on : Bool) (h : History) {β : Type} (h' : History) (r : Except String β) (_ : Vars) :
    Prop :=
  ∀ a,r = .ok a → Adds (Rounds on) h h'

def Admitted (on : Bool) (cand : Candidate) (l : List BreakerEvent) (gaveUp : Bool) : Prop :=
  l = (if on then [.allow cand true] else []) ∧ gaveUp = false

theorem breakerAllows_asks (hd : Handler) (cand : Candidate) (v : Vars) (h : History) :
    Spec (fun _ _ => True) (hd.breakerAllows cand) (fun h' r _ => match r with
      | .ok true => Adds (Admitted hd.breakers cand) h h'
      | .ok false => Adds (Rounds hd.breakers) h h'
      | .error _ => True) v h := by
  unfold Handler.breakerAllows
  cases hd.breakers with
  | false => exact adds_nil ⟨rfl,rfl⟩
  | true =>
    refine ⟨trivial,fun allowed => ?_⟩
    cases allowed with
    | false => exact adds_event _ (.refused cand .nil)
    | true => exact adds_event _ ⟨rfl,rfl⟩

theorem Adds.calm {cand : Candidate}
    (hasked : Adds (Admitted on cand) h h₁) (hcalm : Adds Silent h₁ h₂) :
    Adds (Admitted on cand) h h₂ := by
  refine hasked.trans hcalm ?_
  rintro l l' g g' ⟨rfl,rfl⟩ ⟨rfl,rfl⟩
  exact ⟨List.append_nil _,rfl⟩

theorem Adds.abandon {cand : Candidate}
    (hasked : Adds (Admitted on cand) h h₁) (hgave : Adds Abandoned h₁ h₂) :
    Adds (Rounds on) h h₂ := by
  refine hasked.trans hgave ?_
  rintro l l' g g' ⟨rfl,rfl⟩ ⟨rfl,rfl⟩
  cases on
  · exact .unguarded _
  · exact .abandoned cand .nil

theorem breakerReport_rounds (hd : Handler) {cand : Candidate} (success : Bool) (v : Vars)
    {h h₁ : History} (hasked : Adds (Admitted hd.breakers cand) h h₁) :
    Spec (fun _ _ => True) (hd.breakerReport cand success)
      (fun h' _ _ => Adds (Rounds hd.breakers) h h') v h₁ := by
  unfold Handler.breakerReport
  cases hon : hd.breakers with
  | false =>
    refine hasked.mono ?_
    rintro l g ⟨rfl,rfl⟩
    rw [hon]
    exact .unguarded _
  | true =>
    refine ⟨trivial,fun _ => ?_⟩
    have hreport : Adds (fun l g => l = [.report cand success] ∧ g = false) h₁
        (h₁ ++ [⟨.breakerReport cand success,()⟩]) := adds_event _ ⟨rfl,rfl⟩
    refine hasked.trans hreport ?_
    rintro l l' g g' ⟨rfl,rfl⟩ ⟨rfl,rfl⟩
    rw [hon]
    exact .called cand success .nil

section Walk
variable {α : Type} {attempt : Adapter → Candidate → Action (Except Fault α)}
  (hattempt : ∀ h prov cand,Honours (silence h) (attempt prov cand))

include hattempt in
theorem retry_silent (base : Int) (cap : Nat) (prov : Adapter) (cand : Candidate) (v : Vars)
    (h : History) :
    Spec (fun _ _ => True) (retry pauses base cap fun _ => attempt prov cand)
      (fun h' _ _ => Adds Silent h h') v h := by
  have hretry : Honours (silence h) (retry pauses base cap fun _ => attempt prov cand) :=
    (honours_iff_until _).2 (retry_until pauses (fun _ _ h => by cases h)
      (fun _ => honours_call (silence_step fun _ => ⟨rfl,rfl⟩))
      (fun _ => honours_call (silence_step fun _ => ⟨rfl,rfl⟩))
      (fun _ => (honours_iff_until Except.toOption).1 (hattempt h prov cand)) base cap)
  exact (hretry v h (adds_nil ⟨rfl,rfl⟩)).mono fun _ _ _ hq => hq.1

include hattempt in
theorem tryCandidate_walks (hd : Handler) (cb : ChainBudget) (remaining : Nat)
    (left : Option (List ChainFailure)) (cand : Candidate) (v : Vars) (h : History) :
    Spec (fun _ _ => True) (hd.tryCandidate cb attempt remaining left cand)
      (Walks hd.breakers h) v h := by
  refine (breakerAllows_asks hd cand v h).bind ?_ fun _ _ _ _ _ hr => by cases hr
  intro h₁ allowed v₁ hasked
  cases allowed with
  | false => exact fun _ _ => hasked
  | true =>
    refine (admitCandidate_adds cb cand.model v₁ h₁).bind ?_ fun _ _ _ _ _ hr => by cases hr
    intro h₂ budget v₂ hbudget
    cases budget with
    | error e => exact fun _ _ => Adds.abandon hasked hbudget
    | ok delta =>
      refine logFallback_bind (fun _ _ hr => by cases hr) ?_
      refine spec_call_bind.2 ⟨trivial,fun resolved => ?_⟩
      cases resolved with
      | error e =>
        exact fun _ _ => Adds.abandon hasked (Adds.silent hbudget (adds_event _ ⟨rfl,rfl⟩))
      | ok prov =>
        have hready : Adds Silent h₁ (h₂ ++ [⟨.forModel cand.model,.ok prov⟩]) :=
          Adds.silent hbudget (adds_event _ ⟨rfl,rfl⟩)
        refine (retry_silent hattempt _ _ prov cand v₂ _).bind ?_ fun _ _ _ _ _ hr => by cases hr
        rintro h₃ ⟨result,attempts⟩ v₃ hcalled
        refine (breakerReport_rounds hd (succeeded result) v₃
          (Adds.calm hasked (hready.silent hcalled))).bind ?_ fun _ _ _ _ _ hr => by cases hr
        exact fun _ _ _ hround _ _ => hround

include hattempt in
theorem runChain_walks (hd : Handler) (cb : ChainBudget) (chain : List Candidate) (first : Bool)
    (spent : Nat) (failures : List ChainFailure) (v : Vars) (h : History) :
    Spec (fun _ _ => True) (hd.runChain cb attempt first spent failures chain)
      (Walks hd.breakers h) v h := by
  induction chain generalizing first spent failures v h with
  | nil => exact fun _ _ => adds_nil (.start _)
  | cons cand rest ih =>
    unfold Handler.runChain
    simp only []
    split
    · exact fun _ _ => adds_nil (.start _)
    have hover : Spec (fun _ _ => True) (requestOver first)
        (fun h' _ _ => Adds Silent h h') v h := by
      cases first
      · exact ⟨trivial,fun ended => adds_event _ ⟨rfl,rfl⟩⟩
      · exact adds_nil ⟨rfl,rfl⟩
    refine hover.bind ?_ fun _ _ _ _ _ hr => by cases hr
    intro h₁ ended v₁ hended
    split
    · refine fun _ _ => hended.mono ?_
      rintro l g ⟨rfl,rfl⟩
      exact .start _
    refine (tryCandidate_walks hattempt hd cb _ _ cand v₁ h₁).bind ?_
      fun _ _ _ _ _ hr => by cases hr
    intro h₂ tried v₂ htried
    have hround : Adds (Rounds hd.breakers) h h₂ := hended.silent (htried tried rfl)
    -- what the rest of the walk adds comes after this round
    have hrest : ∀ spent failures,
        Spec (fun _ _ => True) (hd.runChain cb attempt false spent failures rest)
          (Walks hd.breakers h) v₂ h₂ := fun spent failures =>
      (ih false spent failures v₂ h₂).mono fun h' r _ hr a ha =>
        hround.trans (hr a ha) fun _ _ _ _ => .append
    match tried with
    | .skipped e => exact hrest _ _
    | .called (.ok a) _ => exact fun _ _ => hround
    | .called (.error f) attempts =>
      simp only []
      split
      · exact hrest _ _
      · exact fun _ _ => hround

include hattempt in
theorem runChain_rounds {hd : Handler} {cb : ChainBudget} {chain : List Candidate} {v v' : Vars}
    {tr : History} {r : Except (List ChainFailure) (α × Candidate)}
    (hrun : (hd.runChain cb attempt true 0 [] chain v).Returns tr (.ok r,v')) :
    Rounds hd.breakers (breakerEvents tr) (tr.any givesUp) := by
  have hwalk := Prog.Spec.returns (runChain_walks hattempt hd cb chain true 0 [] v []) hrun
  obtain ⟨tr',htr,hrounds⟩ := hwalk r rfl
  obtain rfl : tr = tr' := by simpa using htr
  exact hrounds

end Walk

/-! The breaker that hears the walk. -/

/-- The breaker of c at one event of a walk, at the time of the event; none if it
would not have answered so. -/
def hears (cfg : BreakerConfig) (c : Candidate) (b : Breaker) : BreakerEvent × Int → Option Breaker
  | (.allow d allowed,now) =>
    if d ≠ c then some b
    else if (b.allowLocal cfg now).1 = allowed then some (b.allowLocal cfg now).2
    else none
  | (.report d success,now) =>
    if d ≠ c then some b
    else if success then some (b.recordSuccessLocally cfg now).2
    else some (b.recordFailureLocally cfg now).2

/-- A breaker whose slot is free when the walk starts has it free when it ends. -/
def LeavesFree (l : List BreakerEvent) : Prop :=
  ∀ (cfg : BreakerConfig) (c : Candidate) (timed : List (BreakerEvent × Int)) (b b' : Breaker),
    timed.map Prod.fst = l → b.probeInFlight = false → timed.foldlM (hears cfg c) b = some b' →
      b'.probeInFlight = false

theorem hears_refusal {cfg : BreakerConfig} {d : Candidate} {b b' : Breaker} {now : Int}
    (hfree : b.probeInFlight = false) (h : hears cfg c b (.allow d false,now) = some b') :
    b'.probeInFlight = false := by
  simp only [hears] at h
  split at h
  · cases h
    exact hfree
  split at h
  next hans =>
    cases h
    have hall : b.Allowed cfg now _ := Breaker.allowLocal_allowed
    generalize hout : b.allowLocal cfg now = out at hans hall ⊢
    cases hall with
    | closed _ => exact hfree
    | cooling _ _ => exact hfree
    | elapsed _ _ => cases hans
    | taken _ hflight _ => exact absurd (hflight.symm.trans hfree) (by simp)
    | claimed _ _ => cases hans
  next => cases h

theorem hears_report {cfg : BreakerConfig} {b b' : Breaker} {now : Int}
    {success : Bool} (h : hears cfg c b (.report c success,now) = some b') :
    b'.probeInFlight = false := by
  cases success with
  | true =>
    obtain rfl : (b.recordSuccessLocally cfg now).2 = b' := by simpa [hears] using h
    have hsucc : b.Succeeded cfg now _ := Breaker.recordSuccessLocally_succeeded
    generalize b.recordSuccessLocally cfg now = out at hsucc
    cases hsucc <;> rfl
  | false =>
    obtain rfl : (b.recordFailureLocally cfg now).2 = b' := by simpa [hears] using h
    have hfail : b.Failed cfg now _ := Breaker.recordFailureLocally_failed
    generalize b.recordFailureLocally cfg now = out at hfail
    cases hfail <;> rfl

theorem hears_other {cfg : BreakerConfig} {d : Candidate} (hd : d ≠ c) {b : Breaker} {now : Int}
    {x : Bool} :
    hears cfg c b (.allow d x,now) = some b ∧ hears cfg c b (.report d x,now) = some b :=
  ⟨if_pos hd,if_pos hd⟩

theorem Paired.leavesFree (h : Paired l) : LeavesFree l := by
  intro cfg c timed b b' hl hfree hrun
  induction h generalizing timed b with
  | nil =>
    obtain rfl := List.map_eq_nil_iff.1 hl
    cases hrun
    exact hfree
  | refused d _ ih =>
    obtain ⟨⟨_,now⟩,rest,rfl,rfl,hrest⟩ := List.map_eq_cons_iff.1 hl
    simp only [List.foldlM_cons] at hrun
    obtain ⟨b₁,hb₁,hrun⟩ := Option.bind_eq_some_iff.1 hrun
    exact ih rest b₁ hrest (hears_refusal hfree hb₁) hrun
  | reported d success _ ih =>
    obtain ⟨⟨_,now⟩,timed,rfl,rfl,htimed⟩ := List.map_eq_cons_iff.1 hl
    obtain ⟨⟨_,later⟩,rest,rfl,rfl,hrest⟩ := List.map_eq_cons_iff.1 htimed
    simp only [List.foldlM_cons] at hrun
    obtain ⟨b₁,hb₁,hrun⟩ := Option.bind_eq_some_iff.1 hrun
    obtain ⟨b₂,hb₂,hrun⟩ := Option.bind_eq_some_iff.1 hrun
    refine ih rest b₂ hrest ?_ hrun
    by_cases hd : d = c
    · subst hd
      exact hears_report hb₂
    · rw [(hears_other hd).1] at hb₁
      cases hb₁
      rw [(hears_other hd).2] at hb₂
      cases hb₂
      exact hfree

theorem Rounds.reports {tr : History} (h : Rounds on (breakerEvents tr) (tr.any givesUp)) :
    (Paired (breakerEvents tr) ↔ on = false ∨ ∀ e ∈ tr,givesUp e = false) ∧
      ((on = false ∨ ∀ e ∈ tr,givesUp e = false) → LeavesFree (breakerEvents tr)) := by
  have hiff : Paired (breakerEvents tr) ↔ on = false ∨ ∀ e ∈ tr,givesUp e = false := by
    rw [h.paired_iff,List.any_eq_false]
    simp only [Bool.not_eq_true]
  exact ⟨hiff,fun hcond => (hiff.2 hcond).leavesFree⟩

/-- A walk that returns has paired every admission with its report exactly when
it gave up no candidate between the two; it then leaves no slot claimed. -/
theorem reports_paired_iff (hd : Handler) (cb : ChainBudget) (req : Request)
    (chain : List Candidate) (v : Vars) :
    (∀ tr r v',(hd.runChain cb (completeAttempt req) true 0 [] chain v).Returns tr (.ok r,v') →
      (Paired (breakerEvents tr) ↔ hd.breakers = false ∨ ∀ e ∈ tr,givesUp e = false) ∧
      ((hd.breakers = false ∨ ∀ e ∈ tr,givesUp e = false) → LeavesFree (breakerEvents tr))) ∧
    (∀ tr r v',(hd.runChain cb (streamAttempt req) true 0 [] chain v).Returns tr (.ok r,v') →
      (Paired (breakerEvents tr) ↔ hd.breakers = false ∨ ∀ e ∈ tr,givesUp e = false) ∧
      ((hd.breakers = false ∨ ∀ e ∈ tr,givesUp e = false) → LeavesFree (breakerEvents tr))) :=
  ⟨fun _ _ _ hrun => (runChain_rounds (fun h => completeAttempt_silent h req) hrun).reports,
    fun _ _ _ hrun => (runChain_rounds (fun h => streamAttempt_silent h req) hrun).reports⟩

theorem guardedHandler_attempts : 0 < 1 ∧ (0 : Int) < 1 ∧ 1 ≤ 2 := by decide

def guardedHandler : Handler := ⟨.of guardedHandler_attempts,false,true,none,none,fun _ => ""⟩

def spentBudget : ChainBudget :=
  ⟨⟨"t","t","o","",["p1","p2"],["m1","m2"],⟨1000,1000⟩,1000,Auth.priorityRealtime,false,false,"","",
    none⟩,⟨"m1",[⟨"user","hi"⟩],none,0,false,[]⟩,10⟩

theorem touchyBreaker_valid : BreakerConfig.Valid 1 100 1 8 1 10 1 := by decide

def touchyBreaker : BreakerConfig := .of touchyBreaker_valid

/-- m1's breaker is open. m2's has cooled down and admits the probe; the budget
re-check then denies m2, and the walk returns with the slot claimed. -/
theorem denied_fallback_keeps_slot :
    ∃ tr failures v b,
      (guardedHandler.runChain spentBudget (completeAttempt spentBudget.req.toProviderRequest)
        true 0 [] [⟨"p1","m1"⟩,⟨"p2","m2"⟩] .zero).Returns tr (.ok (.error failures),v) ∧
      breakerEvents tr = [.allow ⟨"p1","m1"⟩ false,.allow ⟨"p2","m2"⟩ true] ∧
      ¬Paired (breakerEvents tr) ∧
      failures.map (·.err) = [.breakerOpen,.budgetDenied "t" "m2" 1000 1000] ∧
      ((breakerEvents tr).map (·,5)).foldlM (hears touchyBreaker ⟨"p2","m2"⟩)
        (((newBreaker touchyBreaker).recordFailureLocally touchyBreaker 0).2) = some b ∧
      b.state = .halfOpen ∧ b.probeInFlight = true := by
  refine ⟨[⟨.breakerAllow ⟨"p1","m1"⟩,false⟩,⟨.ctxErr,false⟩,⟨.breakerAllow ⟨"p2","m2"⟩,true⟩,
    ⟨.defaultMaxTokensFor "m2",some 100⟩,
    ⟨.cost "m2" spentBudget.req.estimateInputTokens
      (spentBudget.req.estimateOutputCeiling 100),.ok 50⟩,
    ⟨.reserveSpend "t" 1000 40,.ok (none,⟨false,1000⟩)⟩],_,_,_,
    .next (.next (.next (.next (.next (.next (.start _)))))),rfl,?_,rfl,rfl,rfl,rfl⟩
  rintro (_ | ⟨_,_ | _⟩)

end Switchyard.Proxy
