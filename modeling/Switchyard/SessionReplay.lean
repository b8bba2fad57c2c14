import Switchyard.SessionRotation
set_option autoImplicit false

/-!
What the answer to a replayed token is worth: when the mass revocation ends
every chain of the user, and the rotation in flight that it misses.
-/

namespace Switchyard.Identity
open StepRuns LinkedRows

variable {n : Nat} {raw : Fin n → String}

def RotatePoint.source : RotatePoint → Option SessionRow
  | .held now old => if old.spent || old.expired now then none else some old
  | .rotating _ _ old _ => some old
  | _ => none

/-- The order under which the sweep of call c ends every chain of its user. When
its UPDATE starts, no other call has a session of the user to rotate, and until
it has committed none selects one. -/
def Undisturbed (raw : Fin n → String) (c : Fin n) (s : Sessions n) (a : SessionAction n) : Bool :=
  match s.calls c,a with
  | .held _ old,.scan k =>
    k ≠ c || (List.finRange n).all fun k =>
      (s.calls k).source.all fun r => decide (r.userID ≠ old.userID)
  | .sweeping _ old _ _,.select k =>
    match s.calls k,s.byToken (raw k) with
    | .begun now,some r =>
      (RotatePoint.held now r).source.all fun r => decide (r.userID ≠ old.userID)
    | _,_ => true
  | _,_ => true

/-- The sessions of a user at a moment, followed from then on: their chains stay
among them, and no open call is going to rotate one. -/
structure Swept (user : String) (ids : List String) (s : Sessions n) : Prop where
  present : ∀ id ∈ ids,∃ r ∈ s.rows,r.id = id
  owned : ∀ r ∈ s.rows,r.id ∈ ids → r.userID = user
  closed : ∀ r ∈ s.rows,r.id ∈ ids → ∀ m,r.rotatedTo = some m → m ∈ ids
  quiet : ∀ k,∀ r ∈ (s.calls k).source,r.id ∉ ids

variable {ids : List String} {r : SessionRow} {s t : Sessions n} {user : String}

theorem Swept.from (h : Swept user ids s) {c : Option (Fin n)} {f : SessionRow → SessionRow}
    {new : List SessionRow} (hw : Writes s t c f new) (hr : r ∈ t.rows) (hid : r.id ∈ ids) :
    ∃ r₀ ∈ s.rows,f r₀ = r ∧ r₀.id ∈ ids ∧ r.rotatedTo = r₀.rotatedTo := by
  cases hw.mem_cases hr with
  | inl hfrom =>
    obtain ⟨r₀,hr₀,rfl⟩ := hfrom
    rw [hw.relinks.keeps r₀ hr₀] at hid
    cases hw.marks r₀ hr₀ with
    | inl hsame => exact ⟨r₀,hr₀,rfl,hid,hsame⟩
    | inr hmark =>
      obtain ⟨k,p,now,next,-,hk⟩ := hmark
      exact (h.quiet k r₀ (by rw [hk]; rfl) hid).elim
  | inr hnew =>
    obtain ⟨r',hr',heq⟩ := h.present r.id hid
    exact ((hw.fresh r hnew r' hr').1 heq).elim

theorem Swept.writes (h : Swept user ids s) {c : Option (Fin n)} {f : SessionRow → SessionRow}
    {new : List SessionRow} (hw : Writes s t c f new)
    (hmover : ∀ k,c = some k → ∀ r ∈ (t.calls k).source,r.id ∉ ids) : Swept user ids t where
  present id hid := by
    obtain ⟨r,hr,rfl⟩ := h.present id hid
    exact ⟨f r,hw.mem hr,hw.relinks.keeps r hr⟩
  owned r hr hid := by
    obtain ⟨r₀,hr₀,rfl,hid₀,-⟩ := h.from hw hr hid
    rw [hw.relinks.owned r₀ hr₀]
    exact h.owned r₀ hr₀ hid₀
  closed r hr hid m hm := by
    obtain ⟨r₀,hr₀,-,hid₀,hlink⟩ := h.from hw hr hid
    exact h.closed r₀ hr₀ hid₀ m (hlink ▸ hm)
  quiet k r hr := by
    by_cases hk : c = some k
    · exact hmover k hk r hr
    · rw [hw.calls k hk] at hr
      exact h.quiet k r hr

theorem Swept.descends (h : Swept user ids s) {r' : SessionRow} (hid : r.id ∈ ids)
    (hd : Relation.ReflTransGen (Follows SessionRow.id SessionRow.rotatedTo s.rows) r r') :
    r'.id ∈ ids := by
  induction hd with
  | refl => exact hid
  | tail _ hstep ih => exact h.closed _ hstep.1 ih _ hstep.2.2

variable {old : SessionRow}

theorem held_source {now : Int} (h : r ∈ (RotatePoint.held now old).source) :
    r = old ∧ old.spent = false ∧ old.expired now = false := by
  simp only [RotatePoint.source] at h
  split at h
  · cases h
  · rename_i hno
    cases h
    simpa using hno

variable {k : Fin n}

theorem Effect.source (h : Effect raw s (some k) t) (hr : r ∈ (t.calls k).source) :
    r ∈ (s.calls k).source ∨
      ∃ now,s.calls k = .begun now ∧ t.calls k = .held now r ∧ r ∈ s.rows := by
  cases h with
  | @advance _ p hadv =>
    rw [goto_calls_self] at hr ⊢
    generalize s.calls k = q at hadv
    cases hadv with
    | @select now old hmem _ _ =>
      obtain rfl := (held_source hr).1
      exact .inr ⟨now,rfl,rfl,hmem⟩
    | insert hspent hexpired =>
      cases hr
      exact .inl (by simp [RotatePoint.source,hspent,hexpired])
    | proceed => exact .inl hr
    | _ => cases hr
  | @sweep _ now old hit lost hc =>
    rw [goto_calls_self] at hr
    obtain hend | ⟨e,hend⟩ := lostOr_cases lost (.reused old) <;> rw [hend] at hr <;> cases hr
  | @rotate _ now old next lost hc =>
    rw [goto_calls_self] at hr
    obtain hend | ⟨e,hend⟩ := lostOr_cases lost (.rotated old next) <;> rw [hend] at hr <;> cases hr

variable {a : SessionAction n}

theorem Sessions.step_select {now now' : Int} (h : s.step raw a = some t) (ha : a.call = some k)
    (hfrom : s.calls k = .begun now) (hto : t.calls k = .held now' r) :
    a = .select k ∧ s.byToken (raw k) = some r := by
  cases a with
  | select c =>
    obtain rfl : c = k := Option.some.inj ha
    simp only [step,hfrom] at h
    split at h
    · cases h
      simp at hto
    · rename_i r' hr'
      split at h
      · cases h
      · cases h
        simp only [goto_calls_self,RotatePoint.held.injEq] at hto
        exact ⟨rfl,hto.2 ▸ hr'⟩
  | abort c e =>
    obtain rfl : c = k := Option.some.inj ha
    simp only [step,hfrom,RotatePoint.running,if_true] at h
    cases h
    simp at hto
  | tick d => cases ha
  | create id userID token ttl => cases ha
  | revoke token now => cases ha
  | _ c =>
    obtain rfl : c = k := Option.some.inj ha
    simp [step,hfrom] at h

theorem Sessions.step_scan {now now' : Int} {old' : SessionRow} {todo hit : List String}
    (h : s.step raw a = some t) (ha : a.call = some k) (hfrom : s.calls k = .held now old)
    (hto : t.calls k = .sweeping now' old' todo hit) : a = .scan k := by
  cases a with
  | scan c =>
    obtain rfl : c = k := Option.some.inj ha
    rfl
  | expire c =>
    obtain rfl : c = k := Option.some.inj ha
    simp only [step,hfrom] at h
    split at h
    · cases h
      simp at hto
    · cases h
  | insert c id token ttl =>
    obtain rfl : c = k := Option.some.inj ha
    simp only [step,hfrom] at h
    split at h
    · cases h
      simp at hto
    · cases h
  | abort c e =>
    obtain rfl : c = k := Option.some.inj ha
    simp only [step,hfrom,RotatePoint.running,if_true] at h
    cases h
    simp at hto
  | tick d => cases ha
  | create id userID token ttl => cases ha
  | revoke token now => cases ha
  | _ c =>
    obtain rfl : c = k := Option.some.inj ha
    simp [step,hfrom] at h

structure Ended (user : String) (ids : List String) (s : Sessions n) : Prop where
  swept : Swept user ids s
  dead : ∀ r ∈ s.rows,r.id ∈ ids → r.revokedAt.isSome = true

/-- What is known of the sessions base of the user while call c, which found its
token spent, is on its way to the answer. -/
def Following (user : String) (base : List String) (c : Fin n) (s : Sessions n) : Prop :=
  match s.calls c with
  | .held _ old => old.userID = user ∧ old.spent = true ∧
      ∀ id ∈ base,∃ r ∈ s.rows,r.id = id ∧ r.userID = user
  | .sweeping _ old todo hit => old.userID = user ∧ ∃ ids,base ⊆ ids ∧ Swept user ids s ∧
      ∀ r ∈ s.rows,r.id ∈ ids → r.revokedAt.isSome = true ∨ r.id ∈ todo ∨ r.id ∈ hit
  | .reused _ => ∃ ids,base ⊆ ids ∧ Ended user ids s
  | .failed _ => True
  | _ => False

theorem Ended.select_revoked (h : Ended user ids s) (heff : Effect raw s (some k) t) :
    ∀ r ∈ (t.calls k).source,r.id ∉ ids := by
  intro r hr hid
  cases heff.source hr with
  | inl hbefore => exact h.swept.quiet k r hbefore hid
  | inr hselect =>
    obtain ⟨now,-,hto,hmem⟩ := hselect
    rw [hto] at hr
    have hspent := (held_source hr).2.1
    simp [SessionRow.spent,h.dead r hmem hid] at hspent

theorem Ended.effect {c : Option (Fin n)}
    (h : Ended user ids s) (hs : Sound raw s) (heff : Effect raw s c t) : Ended user ids t := by
  obtain ⟨f,new,hw⟩ := heff.writes hs
  constructor
  · exact h.swept.writes hw fun k hk => h.select_revoked (hk ▸ heff)
  · intro r hr hid
    obtain ⟨r₀,hr₀,rfl,hid₀,-⟩ := h.swept.from hw hr hid
    exact hw.revoked r₀ (h.dead r₀ hr₀ hid₀)

/-- While the sweep is under way the order keeps other calls from them. -/
theorem Swept.select_undisturbed {c : Fin n} {now : Int} {todo hit : List String}
    (h : Swept user ids s) (hc : s.calls c = .sweeping now old todo hit) (huser : old.userID = user)
    (hstep : s.step raw a = some t) (hok : Undisturbed raw c s a = true) (ha : a.call = some k) :
    ∀ r ∈ (t.calls k).source,r.id ∉ ids := by
  intro r hr hid
  cases (ha ▸ Sessions.step_effect hstep : Effect raw s (some k) t).source hr with
  | inl hbefore => exact h.quiet k r hbefore hid
  | inr hselect =>
    obtain ⟨now',hfrom,hto,hmem⟩ := hselect
    obtain ⟨rfl,hfind⟩ := Sessions.step_select hstep ha hfrom hto
    rw [hto] at hr
    simp only [Undisturbed,hc,hfrom,hfind] at hok
    rw [Option.mem_def.1 hr] at hok
    exact of_decide_eq_true hok ((h.owned r hmem hid).trans huser.symm)

theorem Following.others {base : List String} {c : Fin n} (h : Following user base c s)
    (hs : Sound raw s) (hstep : s.step raw a = some t) (hok : Undisturbed raw c s a = true)
    (ha : a.call ≠ some c) : Following user base c t := by
  have heff := Sessions.step_effect hstep
  obtain ⟨f,new,hw⟩ := heff.writes hs
  unfold Following at h ⊢
  rw [hw.calls c ha]
  cases hc : s.calls c with
  | held now old =>
    simp only [hc] at h ⊢
    obtain ⟨huser,hspent,hbase⟩ := h
    refine ⟨huser,hspent,?_⟩
    intro id hid
    obtain ⟨r,hr,hrid,hruser⟩ := hbase id hid
    exact ⟨f r,hw.mem hr,(hw.relinks.keeps r hr).trans hrid,(hw.relinks.owned r hr).trans hruser⟩
  | sweeping now old todo hit =>
    simp only [hc] at h ⊢
    obtain ⟨huser,ids,hsub,hswept,hcovered⟩ := h
    refine ⟨huser,ids,hsub,hswept.writes hw fun k hk =>
      hswept.select_undisturbed hc huser hstep hok hk,?_⟩
    intro r hr hid
    obtain ⟨r₀,hr₀,rfl,hid₀,-⟩ := hswept.from hw hr hid
    rw [hw.relinks.keeps r₀ hr₀]
    exact (hcovered r₀ hr₀ hid₀).imp (hw.revoked r₀) id
  | reused old =>
    simp only [hc] at h ⊢
    obtain ⟨ids,hsub,hended⟩ := h
    exact ⟨ids,hsub,hended.effect hs heff⟩
  | failed e => trivial
  | _ =>
    simp only [hc] at h

def Sessions.ofUser (s : Sessions n) (user : String) : List String :=
  (s.rows.filter fun r => decide (r.userID = user)).map SessionRow.id

theorem Sound.ofUser (hs : Sound raw s) (hr : r ∈ s.rows) :
    r.id ∈ s.ofUser user ↔ r.userID = user := by
  constructor
  · intro hid
    obtain ⟨r',hr',heq⟩ := List.mem_map.1 hid
    obtain ⟨hmem,huser⟩ := List.mem_filter.1 hr'
    obtain rfl := eq_of_key hs.chained.distinct hmem hr heq
    exact of_decide_eq_true huser
  · intro huser
    exact List.mem_map_of_mem (List.mem_filter.2 ⟨hr,decide_eq_true huser⟩)

theorem Sound.swept (hs : Sound raw s) {user : String}
    (hquiet : ∀ k,∀ r ∈ (s.calls k).source,r.userID ≠ user) : Swept user (s.ofUser user) s where
  present id hid := by
    obtain ⟨r,hr,rfl⟩ := List.mem_map.1 hid
    exact ⟨r,(List.mem_filter.1 hr).1,rfl⟩
  owned r hr hid := (hs.ofUser hr).1 hid
  closed r hr hid m hm := by
    obtain ⟨r',hr',rfl,huser⟩ := hs.chained.forward.successor hr hm
    exact (hs.ofUser hr').2 (huser.trans ((hs.ofUser hr).1 hid))
  quiet k r hr hid := by
    have hmem : r ∈ s.rows := by
      have hfits := hs.fits k
      cases hk : s.calls k with
      | held now old =>
        rw [hk] at hr hfits
        exact (held_source hr).1 ▸ hfits.1
      | rotating p now old next =>
        rw [hk] at hr hfits
        cases hr
        exact hfits.1.1
      | _ =>
        rw [hk] at hr
        cases hr
    exact hquiet k r hr ((hs.ofUser hmem).1 hid)

theorem Swept.goto (h : Swept user ids s) (c : Fin n) {p : RotatePoint} (hp : p.source = none) :
    Swept user ids (s.goto c p) := by
  have hw : Writes s (s.goto c p) (some c) (fun r => r) [] :=
    Writes.quiet rfl (fun _ hk => goto_calls_ne hk) (Int.le_refl _)
  apply h.writes hw
  intro k hk r hr
  obtain rfl := Option.some.inj hk
  rw [goto_calls_self,hp] at hr
  cases hr

theorem Sessions.revoked_of_not_live (hr : r ∈ s.rows) (hdead : s.live r.id = false) :
    r.revokedAt.isSome = true := by
  have := List.any_eq_false.1 hdead r hr
  simpa [Option.isSome_iff_ne_none] using this

theorem Sessions.visit_covers {id : String} {todo hit : List String} (hr : r ∈ s.rows)
    (h : r.revokedAt.isSome = true ∨ r.id ∈ todo ∨ r.id ∈ hit) :
    r.revokedAt.isSome = true ∨ r.id ∈ todo.erase id ∨
      r.id ∈ (if s.live id then id :: hit else hit) := by
  cases h with
  | inl hrevoked => exact .inl hrevoked
  | inr hopen =>
    cases hopen with
    | inl htodo =>
      by_cases hid : r.id = id
      · cases hlive : s.live id with
        | true => exact .inr (.inr (by simp [hid]))
        | false => exact .inl (revoked_of_not_live hr (hid ▸ hlive))
      · exact .inr (.inl ((List.mem_erase_of_ne hid).2 htodo))
    | inr hhit =>
      refine .inr (.inr ?_)
      split
      · exact List.mem_cons_of_mem _ hhit
      · exact hhit

theorem Following.own {base : List String} {c : Fin n} (h : Following user base c s)
    (hs : Sound raw s) (hstep : s.step raw a = some t) (hok : Undisturbed raw c s a = true)
    (ha : a.call = some c) : Following user base c t := by
  have heff : Effect raw s (some c) t := ha ▸ Sessions.step_effect hstep
  cases heff with
  | @advance _ p hadv =>
    have hto : (s.goto c p).calls c = p := goto_calls_self s c p
    generalize hq : s.calls c = q at hadv
    unfold Following at h ⊢
    rw [hto]
    rw [hq] at h
    cases hadv with
    | begin => exact h.elim
    | select => exact h.elim
    | @scan now old hspent =>
      obtain ⟨huser,-,hbase⟩ := h
      obtain rfl := Sessions.step_scan hstep ha hq hto
      simp only [Undisturbed,hq,ne_eq,not_true_eq_false,decide_false,Bool.false_or] at hok
      have hquiet : ∀ k,∀ r ∈ (s.calls k).source,r.userID ≠ user := by
        intro k r hr
        have := List.all_eq_true.1 hok k (List.mem_finRange k)
        rw [Option.mem_def.1 hr] at this
        exact huser ▸ of_decide_eq_true this
      refine ⟨huser,s.ofUser user,?_,(hs.swept hquiet).goto c rfl,?_⟩
      · intro id hid
        obtain ⟨r,hr,rfl,hruser⟩ := hbase id hid
        exact (hs.ofUser hr).2 hruser
      · intro r hr hid
        cases hrev : r.revokedAt with
        | some time => exact .inl rfl
        | none =>
          have huser' := huser ▸ (hs.ofUser hr).1 hid
          exact .inr (.inl (List.mem_map_of_mem (List.mem_filter.2 ⟨hr,by simp [huser',hrev]⟩)))
    | @visit now old todo hit id hmem hfree =>
      obtain ⟨huser,ids,hsub,hswept,hcovered⟩ := h
      refine ⟨huser,ids,hsub,hswept.goto c rfl,?_⟩
      intro r hr hid
      exact Sessions.visit_covers hr (hcovered r hr hid)
    | insert hspent => exact absurd (hspent.symm.trans h.2.1) (by decide)
    | proceed => exact h.elim
    | fail => trivial
  | @sweep _ now old hit lost hc =>
    unfold Following at h ⊢
    rw [hc] at h
    obtain ⟨-,ids,hsub,hswept,hcovered⟩ := h
    rw [goto_calls_self]
    obtain hend | ⟨e,hend⟩ := lostOr_cases lost (.reused old)
    · rw [hend]
      have hw := hs.sweeping hc (.reused old)
      refine ⟨ids,hsub,⟨hswept.writes hw ?_,?_⟩⟩
      · intro k hk r hr
        obtain rfl := Option.some.inj hk
        rw [goto_calls_self] at hr
        cases hr
      · intro r hr hid
        obtain ⟨r₀,hr₀,rfl,hid₀,-⟩ := hswept.from hw hr hid
        cases hcovered r₀ hr₀ hid₀ with
        | inl hrevoked => exact hw.revoked r₀ hrevoked
        | inr hopen =>
          have hin : r₀.id ∈ hit := hopen.resolve_left List.not_mem_nil
          simp [hin]
    · rw [hend]
      trivial
  | rotate hc =>
    unfold Following at h
    rw [hc] at h
    exact h.elim

theorem Effect.rotated {next : SessionRow}
    (h : Effect raw s (some k) t) (ht : t.calls k = .rotated old next) :
    old ∈ (s.calls k).source := by
  cases h with
  | @advance _ p hadv =>
    rw [goto_calls_self] at ht
    subst ht
    generalize s.calls k = q at hadv
    cases hadv
  | @sweep _ now old' hit lost hc =>
    rw [goto_calls_self] at ht
    obtain hend | ⟨e,hend⟩ := lostOr_cases lost (.reused old') <;> rw [hend] at ht <;> cases ht
  | @rotate _ now old' next' lost hc =>
    rw [goto_calls_self] at ht
    obtain hend | ⟨e,hend⟩ := lostOr_cases lost (.rotated old' next') <;>
      rw [hend] at ht <;> cases ht
    rw [hc]
    rfl

theorem Ended.reaches {u : Sessions n}
    {ok : Sessions n → SessionAction n → Prop} {as : List (SessionAction n)} (h : Ended user ids t)
    (hs : Sound raw t) (hrun : Reaches (Sessions.step raw) ok t as u) :
    Ended user ids u ∧ ∀ k old next,old.id ∈ ids → u.calls k = .rotated old next →
      t.calls k = .rotated old next := by
  have hend := hrun.invariant (I := fun v => Sound raw v ∧ Ended user ids v ∧
    ∀ k old next,old.id ∈ ids → v.calls k = .rotated old next → t.calls k = .rotated old next)
    ?_ ⟨hs,h,fun _ _ _ _ hk => hk⟩
  · exact hend.2
  · intro v a w hv _ hstep
    obtain ⟨hv,hended,hbefore⟩ := hv
    have heff := Sessions.step_effect hstep
    obtain ⟨f,new,hw⟩ := heff.writes hv
    refine ⟨hv.effect heff,hended.effect hv heff,?_⟩
    intro k old next hid hk
    by_cases ha : a.call = some k
    · exact (hended.swept.quiet k old ((ha ▸ heff : Effect raw v (some k) w).rotated hk) hid).elim
    · exact hbefore k old next hid (hw.calls k ha ▸ hk)

theorem Following.reaches {d : Sessions n} {base : List String} {c : Fin n}
    {as : List (SessionAction n)} (h : Following user base c d) (hs : Sound raw d)
    (hrun : Reaches (Sessions.step raw) (fun s a => Undisturbed raw c s a = true) d as t) :
    Following user base c t := by
  have hend := hrun.invariant (I := fun s => Sound raw s ∧ Following user base c s) ?_ ⟨hs,h⟩
  · exact hend.2
  · intro s a s' hs hok hstep
    refine ⟨hs.1.effect (Sessions.step_effect hstep),?_⟩
    by_cases ha : a.call = some c
    · exact hs.2.own hs.1 hstep hok ha
    · exact hs.2.others hs.1 hstep hok ha

/-- Call c finds its token spent in d and has answered so in t. Then whatever
descends from a session the user had in d is dead, and stays so. -/
theorem replay_ends_chains (n : Nat) (raw : Fin n → String) (clock : Int)
    (as bs cs : List (SessionAction n)) (d t u : Sessions n) (c : Fin n) (now : Int)
    (old old' : SessionRow)
    (hdetected : Reaches (Sessions.step raw) (fun _ _ => True) (Sessions.start n clock) as d)
    (hheld : d.calls c = .held now old) (hspent : old.spent = true)
    (hanswered : Reaches (Sessions.step raw) (fun s a => Undisturbed raw c s a = true) d bs t)
    (hreused : t.calls c = .reused old')
    (hafter : Reaches (Sessions.step raw) (fun _ _ => True) t cs u) :
    ∀ r ∈ d.rows,r.userID = old.userID → ∀ r₀ ∈ u.rows,r₀.id = r.id → ∀ r' ∈ u.rows,
      Relation.ReflTransGen (Follows SessionRow.id SessionRow.rotatedTo u.rows) r₀ r' →
      r'.revokedAt.isSome = true ∧
        ∀ k source next,source.id = r'.id → u.calls k = .rotated source next →
          t.calls k = .rotated source next := by
  intro r hr huser r₀ hr₀ hid r' hr' hdesc
  have hd : Sound raw d := reaches_sound hdetected (start_sound clock)
  have hstart : Following old.userID (d.ofUser old.userID) c d := by
    unfold Following
    rw [hheld]
    refine ⟨rfl,hspent,?_⟩
    intro id hid
    obtain ⟨r,hr,rfl⟩ := List.mem_map.1 hid
    obtain ⟨hmem,huser⟩ := List.mem_filter.1 hr
    exact ⟨r,hmem,rfl,of_decide_eq_true huser⟩
  have hfollow := hstart.reaches hd hanswered
  unfold Following at hfollow
  rw [hreused] at hfollow
  obtain ⟨ids,hsub,hended⟩ := hfollow
  obtain ⟨hend,hrotated⟩ := hended.reaches (reaches_sound hanswered hd) hafter
  have hin : r'.id ∈ ids := hend.swept.descends (hid ▸ hsub ((hd.ofUser hr).2 huser)) hdesc
  exact ⟨hend.dead r' hr' hin,fun k source next hsource => hrotated k source next (hsource ▸ hin)⟩

/-- Session A of a user is being rotated, or will be, by call 0; session B was
revoked, and call 1 replays its token. Call 2 has the token of A's successor. -/
def replayTokens : Fin 3 → String
  | 0 => "a"
  | 1 => "b"
  | 2 => "c"

def twoSessions : List (SessionAction 3) :=
  [.create "ses_a" "usr_1" "a" 100,.create "ses_b" "usr_1" "b" 100,.revoke "b" 0]

/-- The three stretches of a run, with what is looked at in the states between. -/
def replayRun (ok : Sessions 3 → SessionAction 3 → Prop) [∀ s a,Decidable (ok s a)]
    (as bs cs : List (SessionAction 3)) : Option (Sessions 3 × Sessions 3 × Sessions 3) :=
  (run (Sessions.step replayTokens) (fun _ _ => True) (Sessions.start 3 0) as).bind fun d =>
    (run (Sessions.step replayTokens) ok d bs).bind fun t =>
      (run (Sessions.step replayTokens) (fun _ _ => True) t cs).map fun u => (d,t,u)

theorem replayRun_reaches {ok : Sessions 3 → SessionAction 3 → Prop} [∀ s a,Decidable (ok s a)]
    {as bs cs : List (SessionAction 3)} {d t u : Sessions 3}
    (h : replayRun ok as bs cs = some (d,t,u)) :
    Reaches (Sessions.step replayTokens) (fun _ _ => True) (Sessions.start 3 0) as d ∧
      Reaches (Sessions.step replayTokens) ok d bs t ∧
      Reaches (Sessions.step replayTokens) (fun _ _ => True) t cs u := by
  obtain ⟨d',hd,h⟩ := Option.bind_eq_some_iff.1 h
  obtain ⟨t',ht,h⟩ := Option.bind_eq_some_iff.1 h
  obtain ⟨u',hu,h⟩ := Option.map_eq_some_iff.1 h
  cases h
  exact ⟨.of_run hd,.of_run ht,.of_run hu⟩

def rowA (revokedAt : Option Int) (rotatedTo : Option String) : SessionRow :=
  ⟨"ses_a","usr_1",hashToken "a",100,revokedAt,rotatedTo⟩

def rowB : SessionRow := ⟨"ses_b","usr_1",hashToken "b",100,some 0,none⟩

theorem replay_ends_chains_sequential :
    ∃ d t u : Sessions 3,
      Reaches (Sessions.step replayTokens) (fun _ _ => True) (Sessions.start 3 0)
        (twoSessions ++ [.begin 1,.select 1]) d ∧
      Reaches (Sessions.step replayTokens) (fun s a => Undisturbed replayTokens 1 s a = true) d
        [.scan 1,.visit 1 "ses_a",.commitSweep 1 none] t ∧
      Reaches (Sessions.step replayTokens) (fun _ _ => True) t [.begin 0,.select 0] u ∧
      d.calls 1 = .held 0 rowB ∧ t.calls 1 = .reused rowB ∧ rowA none none ∈ d.rows ∧
      u.rows = [rowA (some 0) none,rowB] ∧ (rowA (some 0) none).revokedAt.isSome = true := by
  have hrun : ((replayRun (fun s a => Undisturbed replayTokens 1 s a = true)
      (twoSessions ++ [.begin 1,.select 1])
      [.scan 1,.visit 1 "ses_a",.commitSweep 1 none] [.begin 0,.select 0]).map
        fun (d,t,u) => (d.calls 1,d.rows,t.calls 1,u.rows)) =
      some (.held 0 rowB,[rowA none none,rowB],.reused rowB,[rowA (some 0) none,rowB]) := by
    decide +kernel
  obtain ⟨⟨d,t,u⟩,hs,hview⟩ := Option.map_eq_some_iff.1 hrun
  simp only [Prod.mk.injEq] at hview
  obtain ⟨hheld,hdrows,hreused,hurows⟩ := hview
  obtain ⟨hd,ht,hu⟩ := replayRun_reaches hs
  have hbefore : rowA none none ∈ d.rows := hdrows ▸ List.mem_cons_self
  have hafter : rowA (some 0) none ∈ u.rows := hurows ▸ List.mem_cons_self
  have hdead := replay_ends_chains 3 replayTokens 0 _ _ _ d t u 1 0 rowB rowB hd hheld rfl ht
    hreused
    hu _ hbefore rfl _ hafter rfl _ hafter .refl
  exact ⟨d,t,u,hd,ht,hu,hheld,hreused,hbefore,hurows,hdead.1⟩

/-- Call 0 has inserted A's successor when the sweep of call 1 takes its snapshot,
and commits before the sweep gets to A. The successor is rotated afterwards. -/
theorem replay_misses_rotation :
    ∃ (as bs cs : List (SessionAction 3)) (d t u : Sessions 3) (r₀ r' next : SessionRow),
      Reaches (Sessions.step replayTokens) (fun _ _ => True) (Sessions.start 3 0) as d ∧
      Reaches (Sessions.step replayTokens) (fun _ _ => True) d bs t ∧
      Reaches (Sessions.step replayTokens) (fun _ _ => True) t cs u ∧
      d.calls 1 = .held 0 rowB ∧ t.calls 1 = .reused rowB ∧ rowA none none ∈ d.rows ∧
      r₀ ∈ u.rows ∧ r₀.id = (rowA none none).id ∧
      Relation.ReflTransGen (Follows SessionRow.id SessionRow.rotatedTo u.rows) r₀ r' ∧
      t.calls 2 = .idle ∧ ∃ source,source.id = r'.id ∧ u.calls 2 = .rotated source next := by
  have hrun : ((replayRun (fun _ _ => True)
      (twoSessions ++ [.begin 0,.select 0,.insert 0 "ses_c" "c" 100,.begin 1,.select 1])
      [.scan 1,.mark 0,.load 0,.commit 0 none,.visit 1 "ses_a",.commitSweep 1 none]
      [.begin 2,.select 2,.insert 2 "ses_d" "d" 100,.mark 2,.load 2,.commit 2 none]).map
        fun (d,t,u) => (d.calls 1,d.rows,t.calls 1,t.calls 2,u.rows,u.calls 2)) =
      some (.held 0 rowB,[rowA none none,rowB],.reused rowB,.idle,
        [rowA (some 0) (some "ses_c"),rowB,
          ⟨"ses_c","usr_1",hashToken "c",100,some 0,some "ses_d"⟩,
          ⟨"ses_d","usr_1",hashToken "d",100,none,none⟩],
        .rotated ⟨"ses_c","usr_1",hashToken "c",100,none,none⟩
          ⟨"ses_d","usr_1",hashToken "d",100,none,none⟩) := by
    decide +kernel
  obtain ⟨⟨d,t,u⟩,hs,hview⟩ := Option.map_eq_some_iff.1 hrun
  simp only [Prod.mk.injEq] at hview
  obtain ⟨hheld,hdrows,hreused,hidle,hurows,hrotated⟩ := hview
  obtain ⟨hd,ht,hu⟩ := replayRun_reaches hs
  refine ⟨_,_,_,d,t,u,rowA (some 0) (some "ses_c"),
    ⟨"ses_c","usr_1",hashToken "c",100,some 0,some "ses_d"⟩,_,hd,ht,hu,hheld,hreused,?_,?_,rfl,?_,
    hidle,⟨"ses_c","usr_1",hashToken "c",100,none,none⟩,rfl,hrotated⟩
  · rw [hdrows]
    exact List.mem_cons_self
  · rw [hurows]
    exact List.mem_cons_self
  · apply Relation.ReflTransGen.single
    rw [hurows]
    exact ⟨by simp,by simp,rfl⟩

end Switchyard.Identity
