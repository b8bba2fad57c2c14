import Mathlib.Data.List.Basic
import Mathlib.Data.List.Nodup
import Switchyard.FallbackChain
set_option autoImplicit false

/-!
What `BuildChain` computes (internal/resilience/fallback.go). It asks for the
status of each permitted candidate twice, once in each pass, so its result is
described by what the two passes were told.
-/

namespace Switchyard.Resilience
open CallTree

def Candidate.complete (c : Candidate) : Bool := decide (c.provider ≠ "" ∧ c.model ≠ "")

/-- The requested candidate and its tier in order, each complete one once. -/
def options (requested : Candidate) (tier : List Candidate) : List Candidate :=
  ((requested :: tier).filter Candidate.complete).eraseDups

def permittedOptions (requested : Candidate) (tier : List Candidate)
    (allowed : String → String → Bool) : List Candidate :=
  (options requested tier).filter fun c => allowed c.provider c.model

/-- The healthy ones, then the degraded ones, each in order. -/
def liveOptions (status : String → Status) (cs : List Candidate) : List Candidate :=
  cs.filter (fun c => decide (status c.provider = .healthy)) ++
    cs.filter (fun c => decide (status c.provider = .degraded))

/-- The chain when every provider has one status throughout. -/
def expectedChain (requested : Candidate) (tier : List Candidate)
    (allowed : String → String → Bool) (status : String → Status) : List Candidate :=
  let permitted := permittedOptions requested tier allowed
  if liveOptions status permitted = [] then permitted else liveOptions status permitted

variable {c : Candidate} {ordered : List Candidate}

theorem addCandidate_incomplete (hc : c.complete = false) : addCandidate ordered c = ordered := by
  have hc' : c.provider = "" ∨ c.model = "" := by
    simpa [Candidate.complete,imp_iff_not_or] using hc
  rw [addCandidate,if_pos hc']

theorem addCandidate_complete (hc : c.complete = true) :
    addCandidate ordered c = if c ∈ ordered then ordered else ordered ++ [c] := by
  have hc' : ¬(c.provider = "" ∨ c.model = "") := by
    simpa [Candidate.complete,not_or] using hc
  rw [addCandidate,if_neg hc']

theorem foldl_addCandidate (cs ordered : List Candidate) :
    cs.foldl addCandidate ordered =
      ordered ++ ((cs.filter Candidate.complete).filter fun c =>
        decide (c ∉ ordered)).eraseDups := by
  induction cs generalizing ordered with
  | nil => simp
  | cons c cs ih =>
    rw [List.foldl_cons,ih]
    cases hc : c.complete with
    | false => rw [addCandidate_incomplete hc,List.filter_cons_of_neg (by simp [hc])]
    | true =>
      rw [addCandidate_complete hc,List.filter_cons_of_pos hc]
      by_cases hm : c ∈ ordered
      · rw [if_pos hm,List.filter_cons_of_neg (by simpa using hm)]
      · have hrest : ∀ l : List Candidate,(l.filter fun d => decide (d ∉ ordered ++ [c])) =
            (l.filter fun d => decide (d ∉ ordered)).filter fun d => !d == c := by
          intro l
          rw [List.filter_filter]
          refine List.filter_congr fun d _ => ?_
          simp only [List.mem_append,List.mem_singleton,not_or,Bool.decide_and,Bool.and_comm,
            beq_eq_decide,decide_not]
        rw [if_neg hm,List.filter_cons_of_pos (by simpa using hm),List.eraseDups_cons,hrest,
          List.append_assoc,List.singleton_append]

theorem addCandidate_nodup (h : ordered.Nodup) (c : Candidate) :
    (addCandidate ordered c).Nodup := by
  cases hc : c.complete with
  | false => rwa [addCandidate_incomplete hc]
  | true =>
    rw [addCandidate_complete hc]
    split
    · exact h
    next hm => exact h.append (List.nodup_singleton c) (by simpa using hm)

theorem foldl_addCandidate_nodup (cs : List Candidate) (h : ordered.Nodup) :
    (cs.foldl addCandidate ordered).Nodup := by
  induction cs generalizing ordered with
  | nil => exact h
  | cons c cs ih => exact ih (addCandidate_nodup h c)

theorem orderedCandidates_eq (requested : Candidate) (tier : List Candidate) :
    orderedCandidates requested tier = options requested tier := by
  have hloop := foldl_addCandidate (requested :: tier) []
  simpa [orderedCandidates,options] using hloop

theorem permittedCandidates_eq (requested : Candidate) (tier : List Candidate)
    (allowed : String → String → Bool) :
    permittedCandidates requested tier allowed = permittedOptions requested tier allowed := by
  rw [permittedCandidates,permittedOptions,orderedCandidates_eq]

/-! What the two passes were told. -/

def asked (p : Candidate × Status) : Event String fun _ => Status := ⟨p.1.provider,p.2⟩

def inState (band : Status) (told : List (Candidate × Status)) : List Candidate :=
  (told.filter fun p => decide (p.2 = band)).map Prod.fst

theorem inState_cons (band : Status) (p : Candidate × Status) (told : List (Candidate × Status)) :
    inState band (p :: told) =
      if p.2 = band then p.1 :: inState band told else inState band told := by
  by_cases hp : p.2 = band
  · rw [if_pos hp,inState,List.filter_cons_of_pos (by simpa using hp)]
    rfl
  · rw [if_neg hp,inState,List.filter_cons_of_neg (by simpa using hp)]
    rfl

theorem inBand_told {band : Status} {cs chain : List Candidate}
    {tr : List (Event String fun _ => Status)} :
    (inBand perform band cs).Returns tr chain ↔
      ∃ told,told.map Prod.fst = cs ∧ tr = told.map asked ∧ chain = inState band told := by
  induction cs generalizing tr chain with
  | nil =>
    constructor
    · intro h
      obtain ⟨rfl,rfl⟩ := returns_pure.1 h
      exact ⟨[],rfl,rfl,rfl⟩
    · rintro ⟨told,hcs,rfl,rfl⟩
      obtain rfl := List.map_eq_nil_iff.1 hcs
      exact returns_pure.2 ⟨rfl,rfl⟩
  | cons c cs ih =>
    constructor
    · intro h
      obtain ⟨status,_,rfl,hpass⟩ := returns_perform_bind.1 h
      obtain ⟨_,rest,_,rfl,hrest,hend⟩ := returns_bind.1 hpass
      obtain ⟨rfl,rfl⟩ := returns_pure.1 hend
      obtain ⟨told,rfl,rfl,rfl⟩ := ih.1 hrest
      exact ⟨(c,status) :: told,rfl,by simp [asked],(inState_cons band (c,status) told).symm⟩
    · rintro ⟨told,hcs,rfl,rfl⟩
      obtain ⟨⟨d,status⟩,told,rfl,rfl,rfl⟩ := List.map_eq_cons_iff.1 hcs
      refine returns_bind.2 ⟨[⟨d.provider,status⟩],status,told.map asked,rfl,returns_perform.2 rfl,
        ?_⟩
      refine returns_bind.2 ⟨told.map asked,_,[],by simp,ih.2 ⟨told,rfl,rfl,rfl⟩,?_⟩
      exact returns_pure.2 ⟨rfl,(inState_cons band (d,status) told).symm⟩

def assembled (permitted : List Candidate) (first second : List (Candidate × Status)) :
    List Candidate :=
  let chain := inState .healthy first ++ inState .degraded second
  if chain = [] then permitted else chain

variable {tier : List Candidate} {allowed : String → String → Bool}

theorem buildChain_told {requested : Candidate} {chain : List Candidate}
    {tr : List (Event String fun _ => Status)} :
    (buildChain requested tier perform allowed).Returns tr chain ↔
      ∃ first second,first.map Prod.fst = permittedOptions requested tier allowed ∧
        second.map Prod.fst = permittedOptions requested tier allowed ∧
        tr = first.map asked ++ second.map asked ∧
        chain = assembled (permittedOptions requested tier allowed) first second := by
  unfold buildChain
  simp only [permittedCandidates_eq]
  generalize permittedOptions requested tier allowed = cs
  split
  next hnil =>
    subst hnil
    rw [returns_pure]
    constructor
    · rintro ⟨rfl,rfl⟩
      exact ⟨[],[],rfl,rfl,rfl,rfl⟩
    · rintro ⟨first,second,h₁,h₂,rfl,rfl⟩
      obtain rfl := List.map_eq_nil_iff.1 h₁
      obtain rfl := List.map_eq_nil_iff.1 h₂
      exact ⟨rfl,rfl⟩
  next =>
    constructor
    · intro h
      obtain ⟨_,healthy,_,rfl,h₁,h⟩ := returns_bind.1 h
      obtain ⟨_,degraded,_,rfl,h₂,h⟩ := returns_bind.1 h
      obtain ⟨rfl,rfl⟩ := returns_pure.1 h
      obtain ⟨first,hf,rfl,rfl⟩ := inBand_told.1 h₁
      obtain ⟨second,hs,rfl,rfl⟩ := inBand_told.1 h₂
      exact ⟨first,second,hf,hs,by simp,rfl⟩
    · rintro ⟨first,second,hf,hs,rfl,rfl⟩
      refine returns_bind.2 ⟨_,_,second.map asked,rfl,inBand_told.2 ⟨first,hf,rfl,rfl⟩,?_⟩
      refine returns_bind.2 ⟨_,_,[],by simp,inBand_told.2 ⟨second,hs,rfl,rfl⟩,?_⟩
      exact returns_pure.2 ⟨rfl,rfl⟩

/-! Statuses that do not change. -/

variable {status : String → Status}

theorem told_steady {told : List (Candidate × Status)}
    (h : ∀ e ∈ told.map asked,e.ans = status e.op) :
    told = (told.map Prod.fst).map fun c => (c,status c.provider) := by
  rw [List.map_map]
  refine (List.map_id' told).symm.trans (List.map_congr_left fun p hp => ?_)
  have hans := h (asked p) (List.mem_map_of_mem hp)
  exact Prod.ext rfl hans

theorem inState_steady (status : String → Status) (band : Status) (cs : List Candidate) :
    inState band (cs.map fun c => (c,status c.provider)) =
      cs.filter fun c => decide (status c.provider = band) := by
  simp [inState,List.filter_map,Function.comp_def]

theorem mem_permittedOptions {requested : Candidate} :
    c ∈ permittedOptions requested tier allowed ↔
      c ∈ requested :: tier ∧ c.complete = true ∧ allowed c.provider c.model = true := by
  simp only [permittedOptions,options,List.mem_filter,List.mem_eraseDups,and_assoc]

theorem permittedOptions_nodup (requested : Candidate) (tier : List Candidate)
    (allowed : String → String → Bool) : (permittedOptions requested tier allowed).Nodup := by
  rw [← permittedCandidates_eq]
  exact (foldl_addCandidate_nodup tier (addCandidate_nodup List.nodup_nil requested)).filter _

theorem mem_expectedChain {requested : Candidate}
    (h : c ∈ expectedChain requested tier allowed status) :
    c ∈ permittedOptions requested tier allowed := by
  unfold expectedChain at h
  simp only [] at h
  split at h
  · exact h
  · obtain h | h := List.mem_append.1 h
    · exact List.mem_of_mem_filter h
    · exact List.mem_of_mem_filter h

theorem expectedChain_eq_nil {requested : Candidate} :
    expectedChain requested tier allowed status = [] ↔
      permittedOptions requested tier allowed = [] := by
  unfold expectedChain
  simp only []
  split
  · rfl
  next hlive =>
    refine ⟨fun h => absurd h hlive,fun h => absurd ?_ hlive⟩
    rw [h]
    rfl

/-- With statuses that do not change during the call, `BuildChain` returns the
healthy permitted candidates and then the degraded ones, or all permitted ones if
there are none of these; the chain is empty only if no candidate is permitted. -/
theorem buildChain_exact (requested : Candidate) (tier : List Candidate)
    (allowed : String → String → Bool) (status : String → Status) :
    (∀ chain,(∃ tr,(buildChain requested tier perform allowed).Returns tr chain ∧
        ∀ e ∈ tr,e.ans = status e.op) ↔ chain = expectedChain requested tier allowed status) ∧
      (expectedChain requested tier allowed status = [] ↔
        ∀ c ∈ requested :: tier,c.complete = true → allowed c.provider c.model = false) ∧
      ∀ c ∈ expectedChain requested tier allowed status,allowed c.provider c.model = true := by
  refine ⟨fun chain => ⟨?_,?_⟩,?_,fun c hc => (mem_permittedOptions.1 (mem_expectedChain hc)).2.2⟩
  · rintro ⟨tr,hrun,hst⟩
    obtain ⟨first,second,hf,hs,rfl,rfl⟩ := buildChain_told.1 hrun
    have h₁ := told_steady fun e he => hst e (List.mem_append_left _ he)
    have h₂ := told_steady fun e he => hst e (List.mem_append_right _ he)
    rw [hf] at h₁
    rw [hs] at h₂
    rw [h₁,h₂,assembled,inState_steady,inState_steady]
    rfl
  · rintro rfl
    let told := (permittedOptions requested tier allowed).map fun c => (c,status c.provider)
    have htold : told.map Prod.fst = permittedOptions requested tier allowed := by
      simp [told,Function.comp_def]
    refine ⟨told.map asked ++ told.map asked,
      buildChain_told.2 ⟨told,told,htold,htold,rfl,?_⟩,?_⟩
    · rw [assembled,inState_steady,inState_steady]
      rfl
    · intro e he
      simp only [told,List.mem_append,or_self,List.mem_map] at he
      obtain ⟨_,⟨c,-,rfl⟩,rfl⟩ := he
      rfl
  · rw [expectedChain_eq_nil,List.eq_nil_iff_forall_not_mem]
    simp only [mem_permittedOptions,not_and,Bool.not_eq_true]

/-! Statuses that change between the passes. -/

/-- What pass n (0 or 1) was told of c. -/
def ToldIn (n : Nat) (permitted : List Candidate) (tr : List (Event String fun _ => Status))
    (a : Status) (c : Candidate) : Prop :=
  ∃ i,permitted[i]? = some c ∧ tr[n*permitted.length+i]?.map Event.ans = some a

/-- No answer of the call reported c's provider Down. -/
def Undowned (tr : List (Event String fun _ => Status)) (c : Candidate) : Prop :=
  ∀ e ∈ tr,e.op = c.provider → e.ans ≠ .down

section Told
variable {cs : List Candidate} {first second : List (Candidate × Status)}
  (hf : first.map Prod.fst = cs) (hs : second.map Prod.fst = cs)

theorem told_at {told : List (Candidate × Status)} {a : Status} :
    (∃ i : Nat,(told.map Prod.fst)[i]? = some c ∧ (told.map asked)[i]?.map Event.ans = some a) ↔
      (c,a) ∈ told := by
  rw [List.mem_iff_getElem?]
  refine exists_congr fun i => ?_
  rw [List.getElem?_map,List.getElem?_map]
  cases told[i]? with
  | none => simp
  | some p => simp [asked,Prod.ext_iff]

include hf in
theorem toldIn_first {a : Status} :
    ToldIn 0 cs (first.map asked ++ second.map asked) a c ↔ (c,a) ∈ first := by
  rw [← told_at,hf]
  refine exists_congr fun i => and_congr_right fun hc => ?_
  have hi := (List.getElem?_eq_some_iff.1 hc).1
  rw [Nat.zero_mul,Nat.zero_add,List.getElem?_append_left (by simpa [← hf] using hi)]

include hf hs in
theorem toldIn_second {a : Status} :
    ToldIn 1 cs (first.map asked ++ second.map asked) a c ↔ (c,a) ∈ second := by
  have hlen : (first.map asked).length = 1*cs.length := by simp [← hf]
  rw [← told_at,hs]
  refine exists_congr fun i => and_congr_right fun _ => ?_
  rw [List.getElem?_append_right (by omega),← hlen,Nat.add_sub_cancel_left]

theorem mem_inState {band : Status} {told : List (Candidate × Status)} :
    c ∈ inState band told ↔ (c,band) ∈ told := by
  simp only [inState,List.mem_map,List.mem_filter,decide_eq_true_eq]
  constructor
  · rintro ⟨⟨_,_⟩,⟨hp,rfl⟩,rfl⟩
    exact hp
  · intro h
    exact ⟨(c,band),⟨h,rfl⟩,rfl⟩

include hf in
theorem told_unique {a b : Status} (hnd : cs.Nodup) (ha : (c,a) ∈ first) (hb : (c,b) ∈ first) :
    a = b := by
  rw [← hf] at hnd
  exact (Prod.mk.inj (List.inj_on_of_nodup_map hnd ha hb rfl)).2

include hf in
theorem inState_nodup (band : Status) (hnd : cs.Nodup) : (inState band first).Nodup := by
  rw [← hf] at hnd
  exact hnd.sublist (List.Sublist.map _ List.filter_sublist)

include hf in
theorem told_of (hc : c ∈ cs) : ∃ a,(c,a) ∈ first := by
  rw [← hf] at hc
  obtain ⟨⟨_,a⟩,hp,rfl⟩ := List.mem_map.1 hc
  exact ⟨a,hp⟩

include hf hs in
/-- A candidate is in the chain twice if it was told healthy, then degraded. -/
theorem assembled_nodup_iff (hnd : cs.Nodup) :
    (assembled cs first second).Nodup ↔ ∀ c,¬((c,.healthy) ∈ first ∧ (c,.degraded) ∈ second) := by
  have hparts : (inState .healthy first ++ inState .degraded second).Nodup ↔
      ∀ c,¬((c,.healthy) ∈ first ∧ (c,.degraded) ∈ second) := by
    rw [List.nodup_append']
    simp only [inState_nodup hf _ hnd,inState_nodup hs _ hnd,true_and,List.disjoint_left,
      mem_inState,not_and]
  unfold assembled
  simp only []
  split
  next hnil =>
    rw [hnil] at hparts
    exact ⟨fun _ => hparts.1 List.nodup_nil,fun _ => hnd⟩
  next => exact hparts

include hf hs in
theorem mem_assembled_of_live (hc : c ∈ cs) (h₁ : (c,Status.down) ∉ first)
    (h₂ : (c,Status.down) ∉ second) (hflip : ¬((c,.degraded) ∈ first ∧ (c,.healthy) ∈ second)) :
    c ∈ assembled cs first second := by
  unfold assembled
  simp only []
  split
  · exact hc
  obtain ⟨a,ha⟩ := told_of hf hc
  obtain ⟨b,hb⟩ := told_of hs hc
  rw [List.mem_append,mem_inState,mem_inState]
  cases a with
  | healthy => exact .inl ha
  | down => exact absurd ha h₁
  | degraded =>
    cases b with
    | healthy => exact absurd ⟨ha,hb⟩ hflip
    | down => exact absurd hb h₂
    | degraded => exact .inr hb

include hf hs in
theorem untold_of_flip (hnd : cs.Nodup) (h₁ : (c,.degraded) ∈ first)
    (h₂ : (c,.healthy) ∈ second) (h : c ∈ assembled cs first second) :
    inState .healthy first ++ inState .degraded second = [] := by
  unfold assembled at h
  simp only [] at h
  split at h
  next hnil => exact hnil
  next =>
    rw [List.mem_append,mem_inState,mem_inState] at h
    obtain h | h := h
    · exact absurd (told_unique hf hnd h h₁) (by decide)
    · exact absurd (told_unique hs hnd h h₂) (by decide)

theorem untold_iff : inState .healthy first ++ inState .degraded second = [] ↔
    ∀ c,(c,.healthy) ∉ first ∧ (c,.degraded) ∉ second := by
  simp only [List.eq_nil_iff_forall_not_mem,List.mem_append,mem_inState,not_or]

end Told

theorem Undowned.told {first second : List (Candidate × Status)}
    (h : Undowned (first.map asked ++ second.map asked) c) :
    (c,Status.down) ∉ first ∧ (c,Status.down) ∉ second := by
  refine ⟨fun hm => ?_,fun hm => ?_⟩
  · exact h (asked (c,.down)) (List.mem_append_left _ (List.mem_map_of_mem hm)) rfl rfl
  · exact h (asked (c,.down)) (List.mem_append_right _ (List.mem_map_of_mem hm)) rfl rfl

/-- Whatever the two passes are told, the chain holds no candidate twice and every
permitted one whose provider was not reported Down, exactly when no candidate was
told healthy and then degraded, and none that was not reported Down was told
degraded and then healthy unless no pass was told what it looks for. -/
theorem chain_kept_iff (requested : Candidate) (tier : List Candidate)
    (allowed : String → String → Bool) {tr : List (Event String fun _ => Status)}
    {chain : List Candidate} (hrun : (buildChain requested tier perform allowed).Returns tr chain) :
    let first := ToldIn 0 (permittedOptions requested tier allowed) tr
    let second := ToldIn 1 (permittedOptions requested tier allowed) tr
    (chain.Nodup ∧ ∀ c ∈ requested :: tier,c.complete = true → allowed c.provider c.model = true →
        Undowned tr c → c ∈ chain) ↔
      (∀ c,¬(first .healthy c ∧ second .degraded c)) ∧
        ((∀ c,first .degraded c ∧ second .healthy c → ¬Undowned tr c) ∨
          ∀ c,¬first .healthy c ∧ ¬second .degraded c) := by
  obtain ⟨first,second,hf,hs,rfl,rfl⟩ := buildChain_told.1 hrun
  have hnd := permittedOptions_nodup requested tier allowed
  have hmem : ∀ c,c ∈ requested :: tier → c.complete = true →
      allowed c.provider c.model = true → c ∈ permittedOptions requested tier allowed :=
    fun c h₁ h₂ h₃ => mem_permittedOptions.2 ⟨h₁,h₂,h₃⟩
  simp only [toldIn_first hf,toldIn_second hf hs,assembled_nodup_iff hf hs hnd]
  refine and_congr_right fun _ => ⟨fun hall => ?_,fun hcond c h₁ h₂ h₃ hup => ?_⟩
  · by_cases hlost : ∃ c,((c,Status.degraded) ∈ first ∧ (c,Status.healthy) ∈ second) ∧
        Undowned (first.map asked ++ second.map asked) c
    · obtain ⟨c,⟨ha,hb⟩,hup⟩ := hlost
      have hc : c ∈ permittedOptions requested tier allowed := by
        rw [← hf]
        exact List.mem_map_of_mem (f := Prod.fst) ha
      obtain ⟨h₁,h₂,h₃⟩ := mem_permittedOptions.1 hc
      exact .inr (untold_iff.1 (untold_of_flip hf hs hnd ha hb (hall c h₁ h₂ h₃ hup)))
    · exact .inl fun c hflip hup => hlost ⟨c,hflip,hup⟩
  · obtain hnone | hempty := hcond
    · obtain ⟨hd₁,hd₂⟩ := hup.told
      exact mem_assembled_of_live hf hs (hmem c h₁ h₂ h₃) hd₁ hd₂ fun hflip => hnone c hflip hup
    · rw [assembled,untold_iff.2 hempty]
      exact hmem c h₁ h₂ h₃

/-- Two candidates that are told the same twice. -/
theorem chain_kept_two :
    let permitted := permittedOptions ⟨"p1","m1"⟩ [⟨"p2","m2"⟩] fun _ _ => true
    ∃ tr,(buildChain ⟨"p1","m1"⟩ [⟨"p2","m2"⟩] perform fun _ _ => true).Returns tr
        [⟨"p1","m1"⟩,⟨"p2","m2"⟩] ∧
      ∀ c,¬(ToldIn 0 permitted tr .healthy c ∧ ToldIn 1 permitted tr .degraded c) := by
  have hrun : (buildChain ⟨"p1","m1"⟩ [⟨"p2","m2"⟩] perform fun _ _ => true).Returns
      [⟨"p1",.healthy⟩,⟨"p2",.degraded⟩,⟨"p1",.healthy⟩,⟨"p2",.degraded⟩]
      [⟨"p1","m1"⟩,⟨"p2","m2"⟩] := .next (.next (.next (.next (.start _))))
  refine ⟨_,hrun,((chain_kept_iff _ _ _ hrun).1 ⟨by decide,?_⟩).1⟩
  intro c hc _ _ _
  exact hc

/-- A status that changes between the passes: a candidate becomes its own
fallback, or is lost though its provider was never reported Down. -/
theorem status_change_repeats_or_loses :
    (∃ tr,(buildChain ⟨"p1","m1"⟩ [] perform fun _ _ => true).Returns tr
        [⟨"p1","m1"⟩,⟨"p1","m1"⟩]) ∧
      ∃ tr,(buildChain ⟨"p1","m1"⟩ [⟨"p2","m2"⟩] perform fun _ _ => true).Returns tr
          [⟨"p1","m1"⟩] ∧ Undowned tr ⟨"p2","m2"⟩ := by
  refine ⟨⟨[⟨"p1",.healthy⟩,⟨"p1",.degraded⟩],.next (.next (.start _))⟩,
    [⟨"p1",.healthy⟩,⟨"p2",.degraded⟩,⟨"p1",.healthy⟩,⟨"p2",.healthy⟩],
    .next (.next (.next (.next (.start _)))),?_⟩
  intro e he _
  simp only [List.mem_cons,List.not_mem_nil,or_false] at he
  obtain rfl | rfl | rfl | rfl := he <;> decide

end Switchyard.Resilience
