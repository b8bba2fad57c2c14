import Switchyard.TeamStore
set_option autoImplicit false

/-!
When a key that was rotated away, revoked or deleted stays refused on the
replica that made the change.
-/

namespace Switchyard.TeamStore
open Auth StepRuns

def MutationPoint.update? : MutationPoint → Option Update
  | .start => none
  | .persisted u | .applying u _ | .rereading u | .rereadFrom u _ => some u
  | .returned u _ => u

def MutationPoint.pastLoad : MutationPoint → Bool
  | .start | .persisted _ => false
  | _ => true

def MutationPoint.applied : MutationPoint → Bool
  | .start | .persisted _ | .applying _ _ => false
  | _ => true

def State.Mutating (s : State) (i : Nat) (m : Mutation) (p : MutationPoint) (u : Update) : Prop :=
  s.calls i = .mutate m p ∧ p.update? = some u

/-- The order under which a retired key stays retired. A refresh stores its
registry only if its query saw the UPDATE of every mutation that has loaded the
pointer, and a failed refresh only restores the registry that is current; a
mutation loads the pointer after the earlier ones of its team were applied; a
rotation brings a hash the table has never held. -/
def Ordered (s : State) (a : Action) : Prop :=
  match s.calls a.call with
  | .refresh (.loaded _ asOf) =>
    ∀ i m p u,s.Mutating i m p u → p.pastLoad → u.version ≤ asOf
  | .refresh (.degrading prev _) => prev.registry = s.current.registry
  | .mutate m .start => ∀ h ∈ m.newHash?,∀ id,(h,id) ∉ s.issued
  | .mutate m (.persisted u) =>
    ∀ i m' p' u',s.Mutating i m' p' u' → m'.id = m.id → u'.version < u.version → p'.applied
  | _ => True

/-- Each hash of the index was issued to the team it leads to. -/
structure Tracked (issued : List (String × String)) (r : Registry) : Prop where
  coherent : r.Coherent
  issued : ∀ h t,h ≠ "" → r.byHash.lookup h = some t → (h,t.id) ∈ issued

def Absent (heap : List Registry) (registry : Nat) (h : String) : Prop :=
  ∀ r,heap[registry]? = some r → r.byHash.lookup h = none

structure State.Stored (s : State) : Prop where
  rowIds : (s.rows.map Team.id).Nodup
  rowIssued : ∀ t ∈ s.rows,t.keyHash ≠ "" → (t.keyHash,t.id) ∈ s.issued
  issuedOnce : ∀ h i j,(h,i) ∈ s.issued → (h,j) ∈ s.issued → i = j
  tracked : ∀ r ∈ s.heap,Tracked s.issued r
  current : s.current.registry < s.heap.length

/-- The UPDATE u of m against the table: the hash it retired is in no row and
is not the one it brought. -/
structure State.Fits (s : State) (m : Mutation) (u : Update) : Prop where
  version : u.version ≤ s.updates
  held : u.held ≠ "" → (u.held,m.id) ∈ s.issued
  gone : u.held ≠ "" → ∀ t ∈ s.rows,t.keyHash ≠ u.held
  brought : ∀ h ∈ m.newHash?,h ≠ "" ∧ h ≠ u.held ∧ (h,m.id) ∈ s.issued

structure State.Sound (s : State) : Prop where
  stored : s.Stored
  fits : ∀ i m p u,s.Mutating i m p u → s.Fits m u
  address : ∀ i m u registry,s.calls i = .mutate m (.applying u registry) →
    registry < s.heap.length
  later : ∀ i m p u,s.Mutating i m p u → ∀ i' m' p' u',s.Mutating i' m' p' u' →
    m.newHash? = some u'.held → u.version < u'.version
  turns : ∀ i m p u,s.Mutating i m p u → ∀ i' m' p' u',s.Mutating i' m' p' u' →
    p.pastLoad → m'.id = m.id → u'.version < u.version → p'.applied
  retired : ∀ i m p u,s.Mutating i m p u → p.pastLoad → u.held ≠ "" →
    Absent s.heap s.current.registry u.held ∨ p = .applying u s.current.registry
  refreshed : ∀ i reg asOf,s.calls i = .refresh (.loaded reg asOf) →
    Tracked s.issued reg ∧ asOf ≤ s.updates ∧ ∀ i' m p u,s.Mutating i' m p u →
      u.version ≤ asOf → u.held ≠ "" → reg.byHash.lookup u.held = none

variable {s : State} {m : Mutation} {now : Int}

theorem Mutation.change_id {t t' : Team} (h : m.change now t = some t') :
    t'.id = t.id ∧ (t'.keyHash = "" ∨ m.newHash? = some t'.keyHash) := by
  cases m <;> simp_all [Mutation.change,Mutation.newHash?] <;> subst h <;> simp

theorem Mutation.update_row {rows : List Team} {t' : Team} (h : t' ∈ m.update now rows) :
    t' ∈ rows ∧ t'.id ≠ m.id ∨ t'.id = m.id ∧ (t'.keyHash = "" ∨ m.newHash? = some t'.keyHash) := by
  obtain ⟨t,ht,hrow⟩ := List.mem_filterMap.1 h
  split_ifs at hrow with hid
  · obtain ⟨hsame,hkey⟩ := Mutation.change_id hrow
    exact .inr ⟨hsame.trans hid,hkey⟩
  · cases hrow
    exact .inl ⟨ht,hid⟩

theorem Mutation.update_ids (rows : List Team) :
    ((m.update now rows).map Team.id).Sublist (rows.map Team.id) := by
  induction rows with
  | nil => simp [Mutation.update]
  | cons t rows ih =>
    simp only [Mutation.update,List.filterMap_cons,List.map_cons] at ih ⊢
    split
    · exact ih.cons _
    next t' hrow =>
      have hid : t'.id = t.id := by
        split_ifs at hrow
        · exact (Mutation.change_id hrow).1
        · cases hrow
          rfl
      simpa [hid] using ih

theorem Mutation.apply_delete (id : String) (r : Registry) :
    ((Mutation.delete id).apply now r).2 = (r.remove id).2 := by
  simp only [Mutation.apply]
  split <;> simp_all

variable {r : Registry}

/-- After the registry method a hash leads to the mutated team only if the
mutation brought it; every other team's hashes are as they were. -/
theorem Mutation.apply_lookup (hr : r.Coherent) {h : String} {t : Team}
    (hfree : ∀ g ∈ m.newHash?,g ≠ "" ∧ ∀ other,r.byHash.lookup g = some other → other.id = m.id)
    (hne : h ≠ "") (ht : (m.apply now r).2.byHash.lookup h = some t) :
    m.newHash? = some h ∧ t.id = m.id ∨ t.id ≠ m.id ∧ r.byHash.lookup h = some t := by
  cases m with
  | rotateKey id newHash newMasked =>
    obtain ⟨hnew,hother⟩ := hfree newHash rfl
    rcases hr.rotateKey_lookup hnew hother hne ht with ⟨rfl,hid⟩ | hkept
    · exact .inl ⟨rfl,hid⟩
    · exact .inr hkept
  | revokeKey id => exact .inr (hr.revokeKey_lookup hne ht)
  | delete id =>
    rw [Mutation.apply_delete] at ht
    exact .inr (hr.remove_lookup hne ht)

theorem Mutation.apply_coherent (hr : r.Coherent) : (m.apply now r).2.Coherent := by
  cases m with
  | rotateKey id newHash newMasked => exact hr.rotateKey id newHash newMasked now
  | revokeKey id => exact hr.revokeKey id
  | delete id =>
    rw [Mutation.apply_delete]
    exact hr.remove id

theorem Tracked.mono {issued issued' : List (String × String)}
    (hr : Tracked issued r) (hsub : issued ⊆ issued') : Tracked issued' r :=
  ⟨hr.coherent,fun h t hne ht => hsub (hr.issued h t hne ht)⟩

/-- The hash a fitting mutation brings is held by no other team of a registry
that tracks what was issued. -/
theorem State.Fits.free {u : Update} (hfit : s.Fits m u) (hs : s.Stored) {r : Registry}
    (hr : Tracked s.issued r) : ∀ g ∈ m.newHash?,g ≠ "" ∧
      ∀ other,r.byHash.lookup g = some other → other.id = m.id := by
  intro g hg
  obtain ⟨hne,_,hissued⟩ := hfit.brought g hg
  exact ⟨hne,fun other ho => hs.issuedOnce g _ _ (hr.issued g other hne ho) hissued⟩

variable {u : Update}

theorem Tracked.apply (hr : Tracked s.issued r) (hs : s.Stored) (hfit : s.Fits m u) :
    Tracked s.issued (m.apply now r).2 := by
  refine ⟨m.apply_coherent hr.coherent,fun h t hne ht => ?_⟩
  rcases m.apply_lookup hr.coherent (hfit.free hs hr) hne ht with ⟨hnew,hid⟩ | ⟨_,hold⟩
  · exact hid ▸ (hfit.brought h hnew).2.2
  · exact hr.issued h t hne hold

theorem Tracked.apply_retires (hr : Tracked s.issued r) (hs : s.Stored)
    (hfit : s.Fits m u) (hne : u.held ≠ "") : (m.apply now r).2.byHash.lookup u.held = none := by
  refine Option.eq_none_iff_forall_ne_some.2 fun t ht => ?_
  rcases m.apply_lookup hr.coherent (hfit.free hs hr) hne ht with ⟨hnew,_⟩ | ⟨hid,hold⟩
  · exact (hfit.brought _ hnew).2.1 rfl
  · exact hid (hs.issuedOnce _ _ _ (hr.issued _ t hne hold) (hfit.held hne))

variable {p : MutationPoint}

theorem State.mutating_goto {i j : Nat} {c : Call} :
    (s.goto i c).Mutating j m p u ↔
      j = i ∧ c = .mutate m p ∧ p.update? = some u ∨ j ≠ i ∧ s.Mutating j m p u := by
  unfold State.Mutating State.goto
  by_cases hj : j = i
  · subst hj
    simp
  · simp [hj]

theorem State.Stored.goto (h : s.Stored) (i : Nat) (c : Call) : (s.goto i c).Stored :=
  ⟨h.rowIds,h.rowIssued,h.issuedOnce,h.tracked,h.current⟩

theorem State.Fits.goto (h : s.Fits m u) (i : Nat) (c : Call) : (s.goto i c).Fits m u :=
  ⟨h.version,h.held,h.gone,h.brought⟩

/-- What call i must satisfy to stand at p, with u as its UPDATE, beside the
other calls. -/
structure State.Joins (s : State) (i : Nat) (m : Mutation) (p : MutationPoint) (u : Update) :
    Prop where
  fits : s.Fits m u
  address : ∀ registry,p = .applying u registry → registry < s.heap.length
  later : ∀ j m' p' u',j ≠ i → s.Mutating j m' p' u' →
    (m.newHash? = some u'.held → u.version < u'.version) ∧
    (m'.newHash? = some u.held → u'.version < u.version)
  waits : p.pastLoad → ∀ j m' p' u',j ≠ i → s.Mutating j m' p' u' →
    m'.id = m.id → u'.version < u.version → p'.applied
  awaited : ∀ j m' p' u',j ≠ i → s.Mutating j m' p' u' → p'.pastLoad →
    m.id = m'.id → u.version < u'.version → p.applied
  retired : p.pastLoad → u.held ≠ "" →
    Absent s.heap s.current.registry u.held ∨ p = .applying u s.current.registry
  refreshed : ∀ j reg asOf,s.calls j = .refresh (.loaded reg asOf) → u.version ≤ asOf →
    u.held ≠ "" → reg.byHash.lookup u.held = none

theorem State.Sound.goto (hs : s.Sound) {i : Nat} {c : Call}
    (hjoin : ∀ m p u,c = .mutate m p → p.update? = some u → s.Joins i m p u)
    (hrefresh : ∀ reg asOf,c = .refresh (.loaded reg asOf) →
      Tracked s.issued reg ∧ asOf ≤ s.updates ∧ ∀ j m p u,s.Mutating j m p u →
        u.version ≤ asOf → u.held ≠ "" → reg.byHash.lookup u.held = none) : (s.goto i c).Sound := by
  constructor
  · exact hs.stored.goto i c
  · intro j m p u hj
    rcases State.mutating_goto.1 hj with ⟨rfl,hc,hu⟩ | ⟨_,hj⟩
    · exact (hjoin m p u hc hu).fits.goto j c
    · exact (hs.fits j m p u hj).goto i c
  · intro j m u registry hj
    by_cases hji : j = i
    · subst hji
      have hc : c = .mutate m (.applying u registry) := by simpa [State.goto] using hj
      exact (hjoin m _ u hc rfl).address registry rfl
    · exact hs.address j m u registry (by simpa [State.goto,hji] using hj)
  · intro j m p u hj k m' p' u' hk hnew
    rcases State.mutating_goto.1 hj with ⟨rfl,hc,hu⟩ | ⟨hji,hj'⟩ <;>
      rcases State.mutating_goto.1 hk with ⟨rfl,hc',hu'⟩ | ⟨hki,hk'⟩
    · have hfit := (hjoin m p u hc hu).fits
      cases hc.symm.trans hc'
      cases hu.symm.trans hu'
      exact absurd rfl (hfit.brought _ hnew).2.1
    · exact ((hjoin m p u hc hu).later k m' p' u' hki hk').1 hnew
    · exact ((hjoin m' p' u' hc' hu').later j m p u hji hj').2 hnew
    · exact hs.later j m p u hj' k m' p' u' hk' hnew
  · intro j m p u hj k m' p' u' hk hpast hid hv
    rcases State.mutating_goto.1 hj with ⟨rfl,hc,hu⟩ | ⟨hji,hj'⟩ <;>
      rcases State.mutating_goto.1 hk with ⟨rfl,hc',hu'⟩ | ⟨hki,hk'⟩
    · cases hc.symm.trans hc'
      cases hu.symm.trans hu'
      omega
    · exact (hjoin m p u hc hu).waits hpast k m' p' u' hki hk' hid hv
    · exact (hjoin m' p' u' hc' hu').awaited j m p u hji hj' hpast hid hv
    · exact hs.turns j m p u hj' k m' p' u' hk' hpast hid hv
  · intro j m p u hj
    rcases State.mutating_goto.1 hj with ⟨rfl,hc,hu⟩ | ⟨_,hj⟩
    · exact (hjoin m p u hc hu).retired
    · exact hs.retired j m p u hj
  · intro j reg asOf hj
    by_cases hji : j = i
    · subst hji
      have hc : c = .refresh (.loaded reg asOf) := by simpa [State.goto] using hj
      obtain ⟨htr,hle,hall⟩ := hrefresh reg asOf hc
      refine ⟨htr,hle,fun k m p u hk => ?_⟩
      rcases State.mutating_goto.1 hk with ⟨rfl,hc',_⟩ | ⟨_,hk⟩
      · cases hc.symm.trans hc'
      · exact hall k m p u hk
    · obtain ⟨htr,hle,hall⟩ := hs.refreshed j reg asOf (by simpa [State.goto,hji] using hj)
      refine ⟨htr,hle,fun k m p u hk => ?_⟩
      rcases State.mutating_goto.1 hk with ⟨rfl,hc,hu⟩ | ⟨_,hk⟩
      · exact (hjoin m p u hc hu).refreshed j reg asOf (by simpa [State.goto,hji] using hj)
      · exact hall k m p u hk

theorem State.Sound.joins (hs : s.Sound) {i : Nat} {p₀ : MutationPoint}
    (h : s.Mutating i m p₀ u) (happ : p₀.applied → p.applied)
    (haddr : ∀ registry,p = .applying u registry → registry < s.heap.length)
    (hwaits : ∀ j m' p' u',s.Mutating j m' p' u' → m'.id = m.id → u'.version < u.version →
      p'.applied)
    (hretired : u.held ≠ "" →
      Absent s.heap s.current.registry u.held ∨ p = .applying u s.current.registry) :
    s.Joins i m p u where
  fits := hs.fits i m p₀ u h
  address := haddr
  later j m' p' u' _ hj := ⟨hs.later i m p₀ u h j m' p' u' hj,hs.later j m' p' u' hj i m p₀ u h⟩
  waits _ j m' p' u' _ hj := hwaits j m' p' u' hj
  awaited j m' p' u' _ hj hpast hid hv := happ (hs.turns j m' p' u' hj i m p₀ u h hpast hid hv)
  retired _ := hretired
  refreshed j reg asOf hj := (hs.refreshed j reg asOf hj).2.2 i m p₀ u h

theorem State.Sound.absent (hs : s.Sound) {i : Nat}
    (h : s.Mutating i m p u) (happ : p.applied) (hne : u.held ≠ "") :
    Absent s.heap s.current.registry u.held := by
  have hpast : p.pastLoad := by cases p <;> simp_all [MutationPoint.applied,MutationPoint.pastLoad]
  rcases hs.retired i m p u h hpast hne with habs | rfl
  · exact habs
  · simp [MutationPoint.applied] at happ

theorem State.Sound.joins_applied (hs : s.Sound) {i : Nat} {p₀ : MutationPoint}
    (h : s.Mutating i m p₀ u) (hpast : p₀.pastLoad) (happ : p.applied)
    (habs : u.held ≠ "" → Absent s.heap s.current.registry u.held) : s.Joins i m p u := by
  apply hs.joins h (fun _ => happ)
  · rintro _ rfl
    simp [MutationPoint.applied] at happ
  · exact fun j m' p' u' hj => hs.turns _ _ _ _ h j m' p' u' hj hpast
  · exact fun hne => .inl (habs hne)

theorem State.Sound.goto_plain (hs : s.Sound) {i : Nat} {c : Call}
    (hm : ∀ m p,c = .mutate m p → p.update? = none)
    (hr : ∀ reg asOf,c ≠ .refresh (.loaded reg asOf)) : (s.goto i c).Sound := by
  apply hs.goto
  · intro m p u hc hu
    simp [hm m p hc] at hu
  · intro reg asOf hc
    exact absurd hc (hr reg asOf)

/-- The registry method of call i cannot bring back a hash that another mutation
retired: that one would still be waiting for i. -/
theorem State.Sound.apply_keeps (hs : s.Sound) (now : Int) {i j registry a : Nat} {u' : Update}
    {m' : Mutation} {p' : MutationPoint} (h : s.Mutating i m (.applying u registry) u)
    (hr : s.heap[registry]? = some r) (hj : s.Mutating j m' p' u') (hpast : p'.pastLoad)
    (hne : u'.held ≠ "") (habs : Absent s.heap a u'.held) :
    Absent (s.heap.set registry (m.apply now r).2) a u'.held := by
  have hfit := hs.fits i m _ u h
  have htr := hs.stored.tracked r (List.mem_of_getElem? hr)
  intro r' hr'
  by_cases ha : registry = a
  · subst ha
    rw [List.getElem?_set_self (List.getElem?_eq_some_iff.1 hr).1,Option.some.injEq] at hr'
    subst hr'
    refine Option.eq_none_iff_forall_ne_some.2 fun t ht => ?_
    rcases m.apply_lookup htr.coherent (hfit.free hs.stored htr) hne ht with ⟨hnew,_⟩ | ⟨_,hold⟩
    · have hid := hs.stored.issuedOnce _ _ _ (hfit.brought _ hnew).2.2
        ((hs.fits j m' p' u' hj).held hne)
      have hv := hs.later i m _ u h j m' p' u' hj hnew
      have := hs.turns j m' p' u' hj i m _ u h hpast hid hv
      simp [MutationPoint.applied] at this
    · simp [habs r hr] at hold
  · exact habs r' (by simpa [List.getElem?_set_ne ha] using hr')

theorem State.Sound.apply (hs : s.Sound) (now : Int) {i registry : Nat}
    (h : s.Mutating i m (.applying u registry) u) (hr : s.heap[registry]? = some r) :
    State.Sound { s with heap := s.heap.set registry (m.apply now r).2 } ∧
      (u.held ≠ "" → Absent (s.heap.set registry (m.apply now r).2) registry u.held) := by
  have hfit := hs.fits i m _ u h
  have htr := hs.stored.tracked r (List.mem_of_getElem? hr)
  have hlt := (List.getElem?_eq_some_iff.1 hr).1
  refine ⟨?_,fun hne r' hr' => ?_⟩
  · constructor
    · refine ⟨hs.stored.rowIds,hs.stored.rowIssued,hs.stored.issuedOnce,?_,?_⟩
      · intro r' hr'
        rcases List.mem_or_eq_of_mem_set hr' with hr' | rfl
        · exact hs.stored.tracked r' hr'
        · exact htr.apply hs.stored hfit
      · simpa using hs.stored.current
    · intro j m' p' u' hj
      obtain ⟨h1,h2,h3,h4⟩ := hs.fits j m' p' u' hj
      exact ⟨h1,h2,h3,h4⟩
    · intro j m' u' a hj
      simpa using hs.address j m' u' a hj
    · exact hs.later
    · exact hs.turns
    · intro j m' p' u' hj hpast hne
      exact (hs.retired j m' p' u' hj hpast hne).imp_left (hs.apply_keeps now h hr hj hpast hne)
    · exact hs.refreshed
  · simp only [List.getElem?_set_self hlt,Option.some.injEq] at hr'
    exact hr' ▸ htr.apply_retires hs.stored hfit hne

theorem State.Sound.publish (hs : s.Sound) {i : Nat} {reg : Registry} {asOf : Nat} {loadedAt : Int}
    (h : s.calls i = .refresh (.loaded reg asOf))
    (hok : ∀ j m p u,s.Mutating j m p u → p.pastLoad → u.version ≤ asOf) :
    State.Sound { s with
      heap := s.heap ++ [reg], current := ⟨s.heap.length,loadedAt,false⟩ } := by
  obtain ⟨htr,_,hgone⟩ := hs.refreshed i reg asOf h
  constructor
  · refine ⟨hs.stored.rowIds,hs.stored.rowIssued,hs.stored.issuedOnce,?_,by simp⟩
    intro r hr
    rcases List.mem_append.1 hr with hr | hr
    · exact hs.stored.tracked r hr
    · exact List.mem_singleton.1 hr ▸ htr
  · intro j m p u hj
    obtain ⟨h1,h2,h3,h4⟩ := hs.fits j m p u hj
    exact ⟨h1,h2,h3,h4⟩
  · intro j m u registry hj
    have := hs.address j m u registry hj
    simp only [List.length_append,List.length_singleton]
    omega
  · exact hs.later
  · exact hs.turns
  · intro j m p u hj hpast hne
    refine .inl fun r hr => ?_
    simp only [List.getElem?_concat_length,Option.some.injEq] at hr
    exact hr ▸ hgone j m p u hj (hok j m p u hj hpast) hne
  · exact hs.refreshed

theorem State.Sound.restore (hs : s.Sound) (snap : Snapshot)
    (h : snap.registry = s.current.registry) : State.Sound { s with current := snap } := by
  constructor
  · exact ⟨hs.stored.rowIds,hs.stored.rowIssued,hs.stored.issuedOnce,hs.stored.tracked,
      h ▸ hs.stored.current⟩
  · intro j m p u hj
    obtain ⟨h1,h2,h3,h4⟩ := hs.fits j m p u hj
    exact ⟨h1,h2,h3,h4⟩
  · exact hs.address
  · exact hs.later
  · exact hs.turns
  · intro j m p u hj hpast hne
    simp only [h]
    exact hs.retired j m p u hj hpast hne
  · exact hs.refreshed

theorem State.mem_execute_issued {h id : String} : (h,id) ∈ (s.execute m now).issued ↔
    m.newHash? = some h ∧ id = m.id ∨ (h,id) ∈ s.issued := by
  cases hn : m.newHash? <;> simp [State.execute,hn,eq_comm]

theorem State.Sound.execute (hs : s.Sound) (hfresh : ∀ h ∈ m.newHash?,∀ id,(h,id) ∉ s.issued) :
    (s.execute m now).Sound := by
  have hsub : s.issued ⊆ (s.execute m now).issued := fun x hx =>
    State.mem_execute_issued.2 (.inr hx)
  constructor
  · constructor
    · exact (Mutation.update_ids s.rows).nodup hs.stored.rowIds
    · intro t ht hne
      rcases Mutation.update_row ht with ⟨ht,_⟩ | ⟨hid,hempty | hnew⟩
      · exact hsub (hs.stored.rowIssued t ht hne)
      · exact absurd hempty hne
      · exact State.mem_execute_issued.2 (.inl ⟨hnew,hid⟩)
    · intro h i j hi hj
      rcases State.mem_execute_issued.1 hi with ⟨hn,rfl⟩ | hi <;>
        rcases State.mem_execute_issued.1 hj with ⟨hn',rfl⟩ | hj
      · rfl
      · exact absurd hj (hfresh h hn j)
      · exact absurd hi (hfresh h hn' i)
      · exact hs.stored.issuedOnce h i j hi hj
    · exact fun r hr => (hs.stored.tracked r hr).mono hsub
    · exact hs.stored.current
  · intro i m' p u hi
    have hfit := hs.fits i m' p u hi
    refine ⟨Nat.le_succ_of_le hfit.version,fun hne => hsub (hfit.held hne),fun hne t ht => ?_,
      fun h hh => ?_⟩
    · rcases Mutation.update_row ht with ⟨ht,_⟩ | ⟨_,hempty | hnew⟩
      · exact hfit.gone hne t ht
      · exact hempty ▸ hne.symm
      · intro heq
        exact hfresh _ (heq ▸ hnew) _ (hfit.held hne)
    · obtain ⟨h1,h2,h3⟩ := hfit.brought h hh
      exact ⟨h1,h2,hsub h3⟩
  · exact hs.address
  · exact hs.later
  · exact hs.turns
  · exact hs.retired
  · intro i reg asOf hi
    obtain ⟨htr,hle,hall⟩ := hs.refreshed i reg asOf hi
    exact ⟨htr.mono hsub,Nat.le_succ_of_le hle,hall⟩

theorem State.Sound.joins_execute (hs : s.Sound) {i : Nat} {row : Team}
    (hfresh : ∀ h ∈ m.newHash?,∀ id,(h,id) ∉ s.issued) (hnew : m.newHash? ≠ some "")
    (hrow : row ∈ s.rows) (hid : row.id = m.id) :
    (s.execute m now).Joins i m (.persisted ⟨s.updates+1,row.keyHash⟩)
      ⟨s.updates+1,row.keyHash⟩ := by
  have hheld : row.keyHash ≠ "" → (row.keyHash,m.id) ∈ s.issued := fun hne =>
    hid ▸ hs.stored.rowIssued row hrow hne
  have hversion : ∀ j m' p u,s.Mutating j m' p u → u.version ≤ s.updates := fun j m' p u hj =>
    (hs.fits j m' p u hj).version
  have hbrought : ∀ h ∈ m.newHash?,h ≠ row.keyHash := by
    rintro h hh rfl
    by_cases hne : row.keyHash = ""
    · exact hnew (hne ▸ hh)
    · exact hfresh _ hh _ (hheld hne)
  constructor
  · refine ⟨Nat.le_refl _,fun hne => State.mem_execute_issued.2 (.inr (hheld hne)),
      fun hne t ht => ?_,fun h hh => ⟨?_,hbrought h hh,State.mem_execute_issued.2 (.inl ⟨hh,rfl⟩)⟩⟩
    · rcases Mutation.update_row ht with ⟨ht,hother⟩ | ⟨_,hempty | hkey⟩
      · intro (heq : t.keyHash = row.keyHash)
        have hissued := hs.stored.rowIssued t ht (heq ▸ hne)
        exact hother (hs.stored.issuedOnce _ _ _ (heq ▸ hissued) (hheld hne))
      · exact hempty ▸ hne.symm
      · exact hbrought _ hkey
    · rintro rfl
      exact hnew hh
  · simp
  · intro j m' p u _ hj
    refine ⟨fun hh => ?_,fun _ => Nat.lt_succ_of_le (hversion j m' p u hj)⟩
    have hfit := hs.fits j m' p u hj
    have hne : u.held ≠ "" := fun he => hnew (he ▸ hh)
    exact absurd (hfit.held hne) (hfresh _ hh _)
  · simp [MutationPoint.pastLoad]
  · intro j m' p u _ hj _ _ hv
    have := hversion j m' p u hj
    simp only at hv
    omega
  · simp [MutationPoint.pastLoad]
  · intro j reg asOf hj hv
    have := (hs.refreshed j reg asOf hj).2.1
    simp only at hv
    omega

theorem loadRegistry_tracked (hs : s.Sound) {reg : Registry} (h : loadRegistry s.rows = .ok reg) :
    Tracked s.issued reg ∧ ∀ g t,g ≠ "" → reg.byHash.lookup g = some t →
      t ∈ s.rows ∧ t.keyHash = g := by
  unfold loadRegistry at h
  split_ifs at h
  cases hnew : newRegistry s.rows with
  | error e => simp [hnew] at h
  | ok r =>
    simp only [hnew,Except.ok.injEq] at h
    subst h
    obtain ⟨hcoh,hall⟩ := newRegistry_spec hs.stored.rowIds hnew
    have hrow : ∀ g t,g ≠ "" → r.byHash.lookup g = some t → t ∈ s.rows ∧ t.keyHash = g := by
      intro g t hne ht
      obtain ⟨hkey,hown⟩ := hcoh.hashes g t hne ht
      exact ⟨((hall _ _).1 hown).1,hkey⟩
    refine ⟨⟨hcoh,fun g t hne ht => ?_⟩,hrow⟩
    obtain ⟨hmem,rfl⟩ := hrow g t hne ht
    exact hs.stored.rowIssued t hmem hne

theorem State.Sound.persist (hs : s.Sound) {a : Action}
    (hfresh : ∀ h ∈ m.newHash?,∀ id,(h,id) ∉ s.issued) : (s.persist a m).Sound := by
  have hfail : ∀ s' : State,s'.Sound → ∀ e,
      (s'.goto a.call (.mutate m (.returned none (.error e)))).Sound := by
    intro s' hs' e
    apply hs'.goto_plain
    · rintro m' p hc
      cases hc
      rfl
    · simp
  unfold State.persist
  simp only
  split_ifs with hempty
  · exact hfail s hs _
  · split
    · split_ifs
      · exact hfail _ (hs.execute hfresh) _
      · exact hfail s hs _
    · exact hfail s hs _
    · exact hfail s hs _
    · exact hfail s hs _
    next row hrow _ _ =>
      have hmem := List.mem_of_find?_eq_some hrow
      have hid : row.id = m.id := by simpa using List.find?_some hrow
      apply (hs.execute hfresh).goto
      · rintro m' p u hc hu
        cases hc
        cases hu
        exact hs.joins_execute hfresh hempty hmem hid
      · simp

theorem State.Sound.mutate (hs : s.Sound) {a : Action} {t : State}
    (hcall : s.calls a.call = .mutate m p) (hok : Ordered s a) (ht : s.mutate a m p = some t) :
    t.Sound := by
  simp only [Ordered,hcall] at hok
  cases p with
  | start =>
    cases ht
    exact hs.persist hok
  | persisted u =>
    cases ht
    apply hs.goto
    · rintro m' p u' hc hu
      cases hc
      cases hu
      apply hs.joins ⟨hcall,rfl⟩
      · simp [MutationPoint.applied]
      · rintro registry hp
        cases hp
        exact hs.stored.current
      · exact hok
      · exact fun _ => .inr rfl
    · simp
  | applying u registry =>
    have hmut : s.Mutating a.call m (.applying u registry) u := ⟨hcall,rfl⟩
    obtain ⟨r,hr,ht⟩ := Option.bind_eq_some_iff.1 ht
    obtain ⟨hs',habs⟩ := hs.apply a.now hmut hr
    have hgone : u.held ≠ "" →
        Absent (s.heap.set registry (m.apply a.now r).2) s.current.registry u.held := by
      intro hne
      rcases hs'.retired a.call m _ u hmut rfl hne with hgone | hat
      · exact hgone
      · simp only [MutationPoint.applying.injEq,true_and] at hat
        exact hat ▸ habs hne
    simp only at ht
    split at ht <;> cases ht
    all_goals
      apply hs'.goto
      · rintro m' p u' hc hu
        cases hc
        cases hu
        exact hs'.joins_applied hmut rfl rfl hgone
      · simp
  | rereading u =>
    cases ht
    have hmut : s.Mutating a.call m (.rereading u) u := ⟨hcall,rfl⟩
    apply hs.goto
    · rintro m' p u' hc hu
      cases hc
      cases hu
      exact hs.joins_applied hmut rfl rfl (hs.absent hmut rfl)
    · simp
  | rereadFrom u registry =>
    have hmut : s.Mutating a.call m (.rereadFrom u registry) u := ⟨hcall,rfl⟩
    obtain ⟨r,hr,ht⟩ := Option.bind_eq_some_iff.1 ht
    cases ht
    apply hs.goto
    · rintro m' p u' hc hu
      cases hc
      cases hu
      exact hs.joins_applied hmut rfl rfl (hs.absent hmut rfl)
    · simp
  | returned u res => cases ht

theorem State.Sound.refresh (hs : s.Sound) {a : Action} {p : RefreshPoint} {t : State}
    (hcall : s.calls a.call = .refresh p) (hok : Ordered s a) (ht : s.refresh a p = some t) :
    t.Sound := by
  simp only [Ordered,hcall] at hok
  cases p with
  | start =>
    simp only [State.refresh] at ht
    split at ht
    · cases ht
      exact hs.goto_plain (by simp) (by simp)
    · cases hload : loadRegistry s.rows with
      | error e =>
        simp only [hload,Option.some.injEq] at ht
        subst ht
        exact hs.goto_plain (by simp) (by simp)
      | ok reg =>
        simp only [hload,Option.some.injEq] at ht
        subst ht
        obtain ⟨htr,hrow⟩ := loadRegistry_tracked hs hload
        apply hs.goto
        · simp
        · rintro reg' asOf hc
          cases hc
          refine ⟨htr,Nat.le_refl _,fun j m p u hj _ hne => ?_⟩
          refine Option.eq_none_iff_forall_ne_some.2 fun team hteam => ?_
          obtain ⟨hmem,hkey⟩ := hrow _ team hne hteam
          exact (hs.fits j m p u hj).gone hne team hmem hkey
  | loaded reg asOf =>
    cases ht
    exact (hs.publish hcall hok).goto_plain (by simp) (by simp)
  | failed e =>
    cases ht
    exact hs.goto_plain (by simp) (by simp)
  | degrading prev e =>
    cases ht
    exact (hs.restore { prev with degraded := true } hok).goto_plain (by simp) (by simp)
  | returned e => cases ht

theorem State.Sound.authenticate (hs : s.Sound) {a : Action} {rawKey : String} {p : AuthPoint}
    {t : State} (ht : s.authenticate a rawKey p = some t) : t.Sound := by
  cases p with
  | start =>
    cases ht
    exact hs.goto_plain (by simp) (by simp)
  | loaded registry =>
    obtain ⟨r,_,ht⟩ := Option.bind_eq_some_iff.1 ht
    cases ht
    exact hs.goto_plain (by simp) (by simp)
  | returned res => cases ht

theorem State.Sound.step {a : Action} {t : State} (hs : s.Sound) (hok : Ordered s a)
    (ht : step s a = some t) : t.Sound := by
  unfold TeamStore.step at ht
  cases hcall : s.calls a.call with
  | refresh p => exact hs.refresh hcall hok (by simpa [hcall] using ht)
  | mutate m p => exact hs.mutate hcall hok (by simpa [hcall] using ht)
  | authenticate rawKey p => exact hs.authenticate (by simpa [hcall] using ht)

theorem State.Initial.sound (hs : s.Initial) : s.Sound := by
  obtain ⟨r,hload,hheap,hcurrent⟩ := hs.registry
  have hmut : ∀ i m p u,¬ s.Mutating i m p u := by
    rintro i m p u ⟨hc,hu⟩
    rcases hs.idle i with h | ⟨m',h⟩ | ⟨raw,h⟩ <;> rw [h] at hc <;> cases hc
    simp [MutationPoint.update?] at hu
  have hissued : ∀ t ∈ s.rows,t.keyHash ≠ "" → (t.keyHash,t.id) ∈ s.issued := by
    intro t ht hne
    rw [hs.issued]
    exact List.mem_map.2 ⟨t,by simpa using ⟨ht,hne⟩,rfl⟩
  unfold loadRegistry at hload
  split_ifs at hload
  cases hnew : newRegistry s.rows with
  | error e => simp [hnew] at hload
  | ok r' =>
    simp only [hnew,Except.ok.injEq] at hload
    subst hload
    obtain ⟨hcoh,hall⟩ := newRegistry_spec hs.ids hnew
    constructor
    · refine ⟨hs.ids,hissued,?_,?_,by simp [hheap,hcurrent]⟩
      · intro h i j hi hj
        simp only [hs.issued,List.mem_map,List.mem_filter,Prod.mk.injEq,decide_eq_true_eq] at hi hj
        obtain ⟨t,⟨ht,hne⟩,hti,rfl⟩ := hi
        obtain ⟨t',⟨ht',_⟩,hti',rfl⟩ := hj
        exact hcoh.id_unique ((hall _ t).2 ⟨ht,rfl⟩) ((hall _ t').2 ⟨ht',rfl⟩) hne
          (hti.trans hti'.symm)
      · intro reg hreg
        rw [hheap,List.mem_singleton] at hreg
        subst hreg
        refine ⟨hcoh,fun h t hne ht => ?_⟩
        obtain ⟨rfl,hown⟩ := hcoh.hashes h t hne ht
        exact hissued t ((hall _ t).1 hown).1 hne
    · exact fun i m p u h => absurd h (hmut i m p u)
    · exact fun i m u registry h => absurd ⟨h,rfl⟩ (hmut i m _ u)
    · exact fun i m p u h => absurd h (hmut i m p u)
    · exact fun i m p u h => absurd h (hmut i m p u)
    · exact fun i m p u h => absurd h (hmut i m p u)
    · intro i reg asOf h
      rcases hs.idle i with h' | ⟨m',h'⟩ | ⟨raw,h'⟩ <;> rw [h'] at h <;> cases h

/-- Only the stepping call moves, and the registries change only by a registry
method or by a refresh that adds one. -/
theorem step_cases {a : Action} {t : State} (ht : step s a = some t) :
    (∀ j,j ≠ a.call → t.calls j = s.calls j) ∧
    (t.heap = s.heap ∨ (∃ reg,t.heap = s.heap ++ [reg]) ∨
      ∃ m u registry r,s.calls a.call = .mutate m (.applying u registry) ∧
        s.heap[registry]? = some r ∧ t.heap = s.heap.set registry (m.apply a.now r).2) := by
  have hgoto : ∀ (s' : State) c,s'.calls = s.calls →
      ∀ j,j ≠ a.call → (s'.goto a.call c).calls j = s.calls j := by
    intro s' c hs' j hj
    simp [State.goto,hj,hs']
  unfold TeamStore.step at ht
  cases hcall : s.calls a.call with
  | refresh p =>
    simp only [hcall] at ht
    cases p with
    | start =>
      simp only [State.refresh] at ht
      split at ht
      · cases ht
        exact ⟨hgoto s _ rfl,.inl rfl⟩
      · split at ht <;> cases ht <;> exact ⟨hgoto s _ rfl,.inl rfl⟩
    | loaded reg asOf =>
      cases ht
      exact ⟨hgoto _ _ rfl,.inr (.inl ⟨reg,rfl⟩)⟩
    | failed e =>
      cases ht
      exact ⟨hgoto s _ rfl,.inl rfl⟩
    | degrading prev e =>
      cases ht
      exact ⟨hgoto _ _ rfl,.inl rfl⟩
    | returned e => cases ht
  | mutate m p =>
    simp only [hcall] at ht
    cases p with
    | start =>
      cases ht
      unfold State.persist
      simp only
      split_ifs
      · exact ⟨hgoto s _ rfl,.inl rfl⟩
      · split
        · split_ifs <;> exact ⟨hgoto _ _ rfl,.inl rfl⟩
        all_goals exact ⟨hgoto _ _ rfl,.inl rfl⟩
    | persisted u =>
      cases ht
      exact ⟨hgoto s _ rfl,.inl rfl⟩
    | applying u registry =>
      obtain ⟨r,hr,ht⟩ := Option.bind_eq_some_iff.1 ht
      simp only at ht
      split at ht <;> cases ht <;>
        exact ⟨hgoto _ _ rfl,.inr (.inr ⟨m,u,registry,r,rfl,hr,rfl⟩)⟩
    | rereading u =>
      cases ht
      exact ⟨hgoto s _ rfl,.inl rfl⟩
    | rereadFrom u registry =>
      obtain ⟨r,hr,ht⟩ := Option.bind_eq_some_iff.1 ht
      cases ht
      exact ⟨hgoto s _ rfl,.inl rfl⟩
    | returned u res => cases ht
  | authenticate rawKey p =>
    simp only [hcall] at ht
    cases p with
    | start =>
      cases ht
      exact ⟨hgoto s _ rfl,.inl rfl⟩
    | loaded registry =>
      obtain ⟨r,hr,ht⟩ := Option.bind_eq_some_iff.1 ht
      cases ht
      exact ⟨hgoto s _ rfl,.inl rfl⟩
    | returned res => cases ht

theorem authenticate_absent {rawKey : String} (h : r.byHash.lookup (hashKey rawKey) = none) :
    r.authenticate rawKey = .error .unknownKey := by
  simp [Registry.authenticate,h]

/-- An authentication that can only end in a refusal of h. -/
def AuthPoint.Refuses (heap : List Registry) (h : String) : AuthPoint → Prop
  | .start => True
  | .loaded registry => registry < heap.length ∧ Absent heap registry h
  | .returned res => res = .error .unknownKey

/-- Mutation j has returned after retiring the hash of rawKey, and call i, which
presents rawKey, has loaded the pointer since if at all. -/
structure State.Shut (s : State) (j i : Nat) (rawKey : String) : Prop where
  sound : s.Sound
  done : ∃ m u res,s.calls j = .mutate m (.returned (some u) res) ∧ u.held = hashKey rawKey
  call : ∃ p,s.calls i = .authenticate rawKey p ∧ p.Refuses s.heap (hashKey rawKey)

variable {a : Action} {t : State} {i j : Nat} {rawKey : String}

theorem State.Shut.absent_current (hs : s.Shut j i rawKey) :
    s.current.registry < s.heap.length ∧
      Absent s.heap s.current.registry (hashKey rawKey) := by
  obtain ⟨m,u,res,hj,hu⟩ := hs.done
  refine ⟨hs.sound.stored.current,hu ▸ hs.sound.absent ⟨hj,rfl⟩ rfl ?_⟩
  rw [hu]
  exact hashKey_ne_empty rawKey

theorem State.Shut.refuses_step (hs : s.Shut j i rawKey) (ht : TeamStore.step s a = some t)
    {p : AuthPoint} (hp : p.Refuses s.heap (hashKey rawKey)) :
    p.Refuses t.heap (hashKey rawKey) := by
  obtain ⟨m,u,res,hj,hu⟩ := hs.done
  cases p with
  | start => trivial
  | returned res => exact hp
  | loaded registry =>
    obtain ⟨hlt,habs⟩ := hp
    rcases (step_cases ht).2 with heap | ⟨reg,heap⟩ | ⟨m',u',b,r,hcall,hr,heap⟩ <;> rw [heap]
    · exact ⟨hlt,habs⟩
    · refine ⟨by simp only [List.length_append,List.length_singleton]; omega,fun r hr => habs r ?_⟩
      rwa [List.getElem?_append_left hlt] at hr
    · refine ⟨by simpa using hlt,?_⟩
      rw [← hu] at habs ⊢
      exact hs.sound.apply_keeps a.now ⟨hcall,rfl⟩ hr ⟨hj,rfl⟩ rfl (hu ▸ hashKey_ne_empty rawKey)
        habs

theorem State.Shut.step (hs : s.Shut j i rawKey) (hok : Ordered s a)
    (ht : TeamStore.step s a = some t) : t.Shut j i rawKey := by
  obtain ⟨m,u,res,hj,hu⟩ := hs.done
  obtain ⟨p,hi,hp⟩ := hs.call
  obtain ⟨hcalls,_⟩ := step_cases ht
  have hja : j ≠ a.call := by
    rintro rfl
    simp [TeamStore.step,hj,State.mutate] at ht
  refine ⟨hs.sound.step hok ht,⟨m,u,res,(hcalls j hja).trans hj,hu⟩,?_⟩
  by_cases hia : i = a.call
  · subst hia
    simp only [TeamStore.step,hi] at ht
    cases p with
    | start =>
      cases ht
      exact ⟨_,Function.update_self ..,hs.absent_current⟩
    | loaded registry =>
      obtain ⟨r,hr,ht⟩ := Option.bind_eq_some_iff.1 ht
      cases ht
      exact ⟨_,Function.update_self ..,authenticate_absent (hp.2 r hr)⟩
    | returned res => cases ht
  · exact ⟨p,(hcalls i hia).trans hi,hs.refuses_step ht hp⟩

/-- In every run whose steps are `Ordered`: once a rotation, revocation or
deletion has returned success, no authentication that loads the pointer from
then on accepts the key its team held before, however the run goes on. -/
theorem retired_key_refused {s₀ s' : State} {as bs : List Action} {u : Update} {team : Team}
    {res : Except AuthError Team} (hinit : s₀.Initial) (hrun : Reaches step Ordered s₀ as s)
    (hdone : s.calls j = .mutate m (.returned (some u) (.ok team)))
    (hheld : u.held = hashKey rawKey)
    (hcall : s.calls i = .authenticate rawKey .start ∨
      s.calls i = .authenticate rawKey (.loaded s.current.registry))
    (hrest : Reaches step Ordered s bs s')
    (hres : s'.calls i = .authenticate rawKey (.returned res)) : res = .error .unknownKey := by
  have hsound : s.Sound := hrun.invariant (fun s a t hs hok ht => hs.step hok ht) hinit.sound
  have hne : u.held ≠ "" := hheld ▸ hashKey_ne_empty rawKey
  have hshut : s.Shut j i rawKey := by
    refine ⟨hsound,⟨m,u,_,hdone,hheld⟩,?_⟩
    rcases hcall with hcall | hcall
    · exact ⟨_,hcall,trivial⟩
    · exact ⟨_,hcall,hsound.stored.current,hheld ▸ hsound.absent ⟨hdone,rfl⟩ rfl hne⟩
  have hend : s'.Shut j i rawKey :=
    hrest.invariant (fun s a t hs hok ht => State.Shut.step hs hok ht) hshut
  obtain ⟨p,hi,hp⟩ := hend.call
  rw [hres] at hi
  cases hi
  exact hp

def soleTeam : Team :=
  ⟨"t","T","org",hashKey "k",["openai"],["gpt-4o"],⟨60,1000⟩,1000000,priorityRealtime,false,false,
    "config","",none⟩

/-- One team with the key k; call 0 revokes it, call 1 refreshes and every other
call authenticates with k. -/
def soleTeamStore : State :=
  { rows := [soleTeam]
    heap := [⟨AList.singleton soleTeam.keyHash soleTeam,AList.singleton "t" soleTeam⟩]
    current := ⟨0,0,false⟩
    calls := fun
      | 0 => .mutate (.revokeKey "t") .start
      | 1 => .refresh .start
      | _ => .authenticate "k" .start
    updates := 0
    issued := [(soleTeam.keyHash,"t")] }

theorem loadRegistry_soleTeam : loadRegistry [soleTeam] =
    .ok ⟨AList.singleton soleTeam.keyHash soleTeam,AList.singleton "t" soleTeam⟩ := by
  have hne : soleTeam.keyHash ≠ "" := hashKey_ne_empty "k"
  simp only [loadRegistry,newRegistry,List.foldlM_cons,List.foldlM_nil,Registry.index,hne]
  rfl

theorem soleTeamStore_initial : soleTeamStore.Initial := by
  have hne : soleTeam.keyHash ≠ "" := hashKey_ne_empty "k"
  refine ⟨by simp [soleTeamStore],⟨_,loadRegistry_soleTeam,rfl,rfl⟩,?_,?_⟩
  · simp [soleTeamStore,hne]
    rfl
  · intro i
    match i with
    | 0 => exact .inr (.inl ⟨_,rfl⟩)
    | 1 => exact .inl rfl
    | i+2 => exact .inr (.inr ⟨_,rfl⟩)

theorem authenticate_soleTeam (byID : AList fun _ : String => Team) :
    Registry.authenticate ⟨AList.singleton soleTeam.keyHash soleTeam,byID⟩ "k" = .ok soleTeam := by
  have hne : soleTeam.keyHash ≠ "" := hashKey_ne_empty "k"
  have hfound : (AList.singleton soleTeam.keyHash soleTeam : AList fun _ : String => Team).lookup
      (hashKey "k") = some soleTeam := by
    rw [← AList.insert_empty]
    exact AList.lookup_insert _
  simp [Registry.authenticate,hfound,hne]

theorem soleTeam_query (a : Action) (hcall : a.call = 1) (hfault : a.fault = none) :
    step soleTeamStore a = some (soleTeamStore.goto 1 (.refresh (.loaded
      ⟨AList.singleton soleTeam.keyHash soleTeam,AList.singleton "t" soleTeam⟩ 0))) := by
  have hrows : loadRegistry soleTeamStore.rows = _ := loadRegistry_soleTeam
  have hstart : soleTeamStore.calls 1 = .refresh .start := rfl
  simp only [step,hcall,hstart,State.refresh,hfault,hrows]
  rfl

/-- A refresh that queried before the revocation and stores after it brings the
revoked key back. -/
theorem stale_refresh_revives : ∃ s s' team,
    Reaches step (fun _ _ => True) soleTeamStore
      [⟨1,0,none⟩,⟨0,0,none⟩,⟨0,0,none⟩,⟨0,0,none⟩] s ∧
    s.calls 0 = .mutate (.revokeKey "t") (.returned (some ⟨1,hashKey "k"⟩) (.ok team)) ∧
    s.calls 2 = .authenticate "k" .start ∧
    Reaches step (fun _ _ => True) s [⟨1,0,none⟩,⟨2,0,none⟩,⟨2,0,none⟩] s' ∧
    s'.calls 2 = .authenticate "k" (.returned (.ok soleTeam)) := by
  refine ⟨_,_,_,.next trivial (soleTeam_query _ rfl rfl) (.next trivial rfl (.next trivial rfl
    (.next trivial rfl (.stop _)))),rfl,rfl,.next trivial rfl (.next trivial rfl (.next trivial rfl
    (.stop _))),?_⟩
  exact congrArg (fun res => Call.authenticate "k" (.returned res)) (authenticate_soleTeam _)

/-- The same calls with the refresh's query after the UPDATE. -/
theorem retired_key_refused_after_refresh : ∃ s s' team res,
    Reaches step Ordered soleTeamStore [⟨0,0,none⟩,⟨0,0,none⟩,⟨0,0,none⟩] s ∧
    s.calls 0 = .mutate (.revokeKey "t") (.returned (some ⟨1,hashKey "k"⟩) (.ok team)) ∧
    Reaches step Ordered s [⟨1,0,none⟩,⟨1,0,none⟩,⟨2,0,none⟩,⟨2,0,none⟩] s' ∧
    s'.calls 2 = .authenticate "k" (.returned res) ∧ res = .error .unknownKey := by
  suffices hrun : ∃ s s' team res,
      Reaches step Ordered soleTeamStore [⟨0,0,none⟩,⟨0,0,none⟩,⟨0,0,none⟩] s ∧
      s.calls 0 = .mutate (.revokeKey "t") (.returned (some ⟨1,hashKey "k"⟩) (.ok team)) ∧
      s.calls 2 = .authenticate "k" .start ∧
      Reaches step Ordered s [⟨1,0,none⟩,⟨1,0,none⟩,⟨2,0,none⟩,⟨2,0,none⟩] s' ∧
      s'.calls 2 = .authenticate "k" (.returned res) by
    obtain ⟨s,s',team,res,hrun,hdone,hcall,hrest,hres⟩ := hrun
    exact ⟨s,s',team,res,hrun,hdone,hrest,hres,
      retired_key_refused soleTeamStore_initial hrun hdone rfl (.inl hcall) hrest hres⟩
  refine ⟨_,_,_,_,.next ?_ rfl (.next ?_ rfl (.next trivial rfl (.stop _))),rfl,rfl,
    .next trivial rfl (.next ?_ rfl (.next trivial rfl (.next trivial rfl (.stop _)))),rfl⟩
  · exact fun h hh => by cases hh
  · rintro (_ | _ | i) m p u ⟨hc,hu⟩ <;> cases hc
    cases hu
    simp
  · rintro (_ | _ | i) m p u ⟨hc,hu⟩ <;> cases hc
    cases hu
    exact fun _ => Nat.le_refl 1

end Switchyard.TeamStore
