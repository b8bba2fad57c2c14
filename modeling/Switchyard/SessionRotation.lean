import Switchyard.LinkedRows
import Switchyard.SessionTable
set_option autoImplicit false

/-!
What rotations do to the session table whatever the interleaving: a token is
rotated once, and sessions form disjoint chains.
-/

namespace Switchyard.Identity
open StepRuns LinkedRows

variable {n : Nat} {raw : Fin n → String}

abbrev Chained (rows : List SessionRow) : Prop :=
  Threaded SessionRow.id SessionRow.rotatedTo SessionRow.userID rows

/-- A step as the calls other than c see it: rows are changed in place by f,
which leaves what they have locked, and at most one row is appended. -/
structure Writes (s t : Sessions n) (c : Option (Fin n)) (f : SessionRow → SessionRow)
    (new : List SessionRow) : Prop where
  rows : t.rows = s.rows.map f ++ new
  calls : ∀ k,c ≠ some k → t.calls k = s.calls k
  clock : s.clock ≤ t.clock
  relinks : Relinks SessionRow.id SessionRow.rotatedTo SessionRow.userID s.rows f new
  token : ∀ r,(f r).refreshTokenHash = r.refreshTokenHash
  expiry : ∀ r,(f r).expiresAt = r.expiresAt
  revoked : ∀ r,r.revokedAt.isSome → (f r).revokedAt.isSome
  foreign : ∀ r k,c ≠ some k → r.id ∈ (s.calls k).locks → f r = r
  few : new.length ≤ 1
  unlinked : ∀ r ∈ new,r.rotatedTo = none
  marks : ∀ r ∈ s.rows,(f r).rotatedTo = r.rotatedTo ∨
    ∃ k p now next,c = some k ∧ s.calls k = .rotating p now r next
  fresh : ∀ r ∈ new,∀ r' ∈ s.rows,Distinct r' r
  apart : ∀ r ∈ new,∀ k,c ≠ some k → ∀ next ∈ (s.calls k).pending,Distinct next r

variable {new : List SessionRow} {c : Option (Fin n)} {r : SessionRow}
    {f : SessionRow → SessionRow} {s t : Sessions n}

theorem Writes.mem (h : Writes s t c f new) (hr : r ∈ s.rows) : f r ∈ t.rows := by
  rw [h.rows]
  exact List.mem_append_left _ (List.mem_map_of_mem hr)

theorem Writes.mem_cases (h : Writes s t c f new) (hr : r ∈ t.rows) :
    (∃ r₀ ∈ s.rows,f r₀ = r) ∨ r ∈ new := by
  rw [h.rows] at hr
  cases List.mem_append.1 hr with
  | inl hold => exact .inl (List.mem_map.1 hold)
  | inr hnew => exact .inr hnew

theorem relinks_of_same {rows : List SessionRow}
    (h : ∀ r ∈ rows,(f r).id = r.id ∧ (f r).userID = r.userID ∧ (f r).rotatedTo = r.rotatedTo) :
    Relinks SessionRow.id SessionRow.rotatedTo SessionRow.userID rows f new where
  keeps r hr := (h r hr).1
  owned r hr := (h r hr).2.1
  leads r hr := .inl (h r hr).2.2
  once r hr r' _ hnone _ k hk := by
    rw [(h r hr).2.2,hnone] at hk
    cases hk

theorem Writes.quiet (hrows : t.rows = s.rows)
    (hcalls : ∀ k,c ≠ some k → t.calls k = s.calls k) (hclock : s.clock ≤ t.clock) :
    Writes s t c (fun r => r) [] where
  rows := by rw [hrows,List.map_id',List.append_nil]
  calls := hcalls
  clock := hclock
  relinks := relinks_of_same fun _ _ => ⟨rfl,rfl,rfl⟩
  token _ := rfl
  expiry _ := rfl
  revoked _ h := h
  foreign _ _ _ _ := rfl
  few := Nat.zero_le 1
  unlinked _ h := nomatch h
  marks _ _ := .inl rfl
  fresh _ h := nomatch h
  apart _ h := nomatch h

@[simp] theorem revoke_same (now : Int) (r : SessionRow) :
    (r.revoke now).id = r.id ∧ (r.revoke now).userID = r.userID ∧
      (r.revoke now).rotatedTo = r.rotatedTo ∧
      (r.revoke now).refreshTokenHash = r.refreshTokenHash ∧
      (r.revoke now).expiresAt = r.expiresAt ∧ (r.revoke now).revokedAt.isSome := by
  unfold SessionRow.revoke
  split
  · exact ⟨rfl,rfl,rfl,rfl,rfl,rfl⟩
  · rename_i hset
    exact ⟨rfl,rfl,rfl,rfl,rfl,Option.isSome_iff_ne_none.2 hset⟩

theorem Writes.revoking {p : SessionRow → Bool} {now : Int}
    (hrows : t.rows = s.rows.map (fun r => if p r then r.revoke now else r) ++ [])
    (hcalls : ∀ k,c ≠ some k → t.calls k = s.calls k) (hclock : s.clock ≤ t.clock)
    (hfree : ∀ r k,c ≠ some k → r.id ∈ (s.calls k).locks → p r = false) :
    Writes s t c (fun r => if p r then r.revoke now else r) [] where
  rows := hrows
  calls := hcalls
  clock := hclock
  relinks := relinks_of_same fun r _ => by cases p r <;> simp
  token r := by cases p r <;> simp
  expiry r := by cases p r <;> simp
  revoked r h := by cases p r <;> simp [h]
  foreign r k hk hid := by simp [hfree r k hk hid]
  few := Nat.zero_le 1
  unlinked _ h := nomatch h
  marks r _ := .inl (by cases p r <;> simp)
  fresh _ h := nomatch h
  apart _ h := nomatch h

/-- A call against the committed rows: what it has locked is as it read it. -/
def Fits (token : String) (rows : List SessionRow) : RotatePoint → Prop
  | .held _ old => old ∈ rows ∧ old.refreshTokenHash = hashToken token
  | .rotating _ _ old next => (old ∈ rows ∧ old.refreshTokenHash = hashToken token) ∧
      old.spent = false ∧ next.userID = old.userID ∧ next.rotatedTo = none ∧
      ∀ r ∈ rows,Distinct r next
  | .rotated _ next =>
    ∃ r ∈ rows,r.refreshTokenHash = hashToken token ∧ r.rotatedTo = some next.id
  | _ => True

structure Sound (raw : Fin n → String) (s : Sessions n) : Prop where
  chained : Chained s.rows
  tokens : (s.rows.map SessionRow.refreshTokenHash).Nodup
  exclusive : ∀ i j id,id ∈ (s.calls i).locks → id ∈ (s.calls j).locks → i = j
  fits : ∀ c,Fits (raw c) s.rows (s.calls c)
  apart : ∀ i j,i ≠ j → ∀ next ∈ (s.calls i).pending,∀ next' ∈ (s.calls j).pending,
    Distinct next next'
  winners : ∀ i j old next old' next',s.calls i = .rotated old next →
    s.calls j = .rotated old' next' → next.id = next'.id → i = j

theorem Writes.linked (h : Writes s t c f new) (hr : r ∈ s.rows) {m : String}
    (hm : r.rotatedTo = some m) : (f r).rotatedTo = some m := by
  cases h.relinks.leads r hr with
  | inl hsame => rw [hsame,hm]
  | inr hset =>
    rw [hm] at hset
    cases hset.1

theorem Writes.fits (h : Writes s t c f new) {k : Fin n} (hk : c ≠ some k) {token : String}
    (hfits : Fits token s.rows (s.calls k)) : Fits token t.rows (t.calls k) := by
  have hstays : ∀ old,old.id ∈ (s.calls k).locks → old ∈ s.rows → old ∈ t.rows := by
    intro old hlock hold
    have := h.mem hold
    rwa [h.foreign old k hk hlock] at this
  have hpend := fun r hr => h.apart r hr k hk
  rw [h.calls k hk]
  cases hp : s.calls k with
  | held now old =>
    rw [hp] at hfits hstays
    exact ⟨hstays old List.mem_cons_self hfits.1,hfits.2⟩
  | rotating p now old next =>
    rw [hp] at hfits hstays hpend
    obtain ⟨⟨hold,htok⟩,hspent,huser,hnone,hfresh⟩ := hfits
    have hdistinct : ∀ r ∈ t.rows,Distinct r next := by
      intro r hr
      cases h.mem_cases hr with
      | inl hfrom =>
        obtain ⟨r₀,hr₀,rfl⟩ := hfrom
        have := hfresh r₀ hr₀
        rwa [Distinct,h.relinks.keeps r₀ hr₀,h.token r₀]
      | inr hnew =>
        have := hpend r hnew next rfl
        exact ⟨this.1.symm,this.2.symm⟩
    exact ⟨⟨hstays old List.mem_cons_self hold,htok⟩,hspent,huser,hnone,hdistinct⟩
  | rotated old next =>
    rw [hp] at hfits
    obtain ⟨r,hr,htok,hlink⟩ := hfits
    exact ⟨f r,h.mem hr,(h.token r).trans htok,h.linked hr hlink⟩
  | _ => trivial

structure Moves (raw : Fin n → String) (s t : Sessions n) (c : Fin n) : Prop where
  fits : Fits (raw c) t.rows (t.calls c)
  locks : ∀ id ∈ (t.calls c).locks,id ∈ (s.calls c).locks ∨ s.locked (some c) id = false
  pending : ∀ next ∈ (t.calls c).pending,next ∈ (s.calls c).pending ∨
    ∀ k,∀ next' ∈ (s.calls k).pending,Distinct next' next
  winner : ∀ old next,t.calls c = .rotated old next → ∀ r ∈ s.rows,r.id ≠ next.id

theorem Moves.excludes {c k : Fin n} (h : Moves raw s t c) (hs : Sound raw s)
    (hk : k ≠ c) {id : String} (hid : id ∈ (t.calls c).locks) : id ∉ (s.calls k).locks := by
  intro hother
  cases h.locks id hid with
  | inl hmine => exact hk (hs.exclusive k c id hother hmine)
  | inr hfree => exact Sessions.not_locked hfree (fun he => hk (Option.some.inj he).symm) hother

theorem Moves.distinct {c k : Fin n} (h : Moves raw s t c) (hs : Sound raw s)
    (hk : k ≠ c) {next next' : SessionRow} (hnext : next ∈ (t.calls c).pending)
    (hnext' : next' ∈ (s.calls k).pending) : Distinct next' next := by
  cases h.pending next hnext with
  | inl hmine => exact hs.apart k c hk next' hnext' next hmine
  | inr hnew => exact hnew k next' hnext'

theorem Distinct.symm {r' : SessionRow} (h : Distinct r r') : Distinct r' r := ⟨h.1.symm,h.2.symm⟩

theorem nodup_of_few {α β : Type} {l : List α} (h : l.length ≤ 1) (f : α → β) :
    (l.map f).Nodup := by
  match l,h with
  | [],_ => exact List.nodup_nil
  | [a],_ => exact List.nodup_singleton _

theorem Writes.chained (h : Writes s t c f new) (hs : Chained s.rows) : Chained t.rows := by
  rw [h.rows]
  apply hs.relink h.relinks h.unlinked (nodup_of_few h.few _)
  intro r hr hid
  obtain ⟨r',hr',heq⟩ := List.mem_map.1 hid
  exact (h.fresh r hr r' hr').1 heq

theorem Writes.tokens (h : Writes s t c f new)
    (hs : (s.rows.map SessionRow.refreshTokenHash).Nodup) :
    (t.rows.map SessionRow.refreshTokenHash).Nodup := by
  have hsame : (s.rows.map f).map SessionRow.refreshTokenHash =
      s.rows.map SessionRow.refreshTokenHash := by
    rw [List.map_map]
    exact List.map_congr_left fun r _ => h.token r
  rw [h.rows,List.map_append,hsame]
  apply hs.append (nodup_of_few h.few _)
  intro hash hold hnew
  obtain ⟨r',hr',rfl⟩ := List.mem_map.1 hold
  obtain ⟨r,hr,heq⟩ := List.mem_map.1 hnew
  exact (h.fresh r hr r' hr').2 heq.symm

/-- One step keeps the invariant when the others see it as a write and its own
call as a move. -/
theorem Sound.moved {new : List SessionRow} (hs : Sound raw s) (hw : Writes s t c f new)
    (hm : ∀ k,c = some k → Moves raw s t k) : Sound raw t where
  chained := hw.chained hs.chained
  tokens := hw.tokens hs.tokens
  exclusive i j id hi hj := by
    by_cases hic : c = some i
    · by_cases hjc : c = some j
      · exact Option.some.inj (hic.symm.trans hjc)
      · rw [hw.calls j hjc] at hj
        have hne : j ≠ i := fun he => hjc (he ▸ hic)
        exact ((hm i hic).excludes hs hne hi hj).elim
    · rw [hw.calls i hic] at hi
      by_cases hjc : c = some j
      · have hne : i ≠ j := fun he => hic (he ▸ hjc)
        exact ((hm j hjc).excludes hs hne hj hi).elim
      · rw [hw.calls j hjc] at hj
        exact hs.exclusive i j id hi hj
  fits k := by
    by_cases hk : c = some k
    · exact (hm k hk).fits
    · exact hw.fits hk (hs.fits k)
  apart i j hij next hi next' hj := by
    by_cases hic : c = some i
    · have hjc : c ≠ some j := fun hj => hij (Option.some.inj (hic.symm.trans hj))
      rw [hw.calls j hjc] at hj
      exact ((hm i hic).distinct hs hij.symm hi hj).symm
    · rw [hw.calls i hic] at hi
      by_cases hjc : c = some j
      · exact (hm j hjc).distinct hs hij hj hi
      · rw [hw.calls j hjc] at hj
        exact hs.apart i j hij next hi next' hj
  winners i j old next old' next' hi hj heq := by
    -- the successor of an earlier rotation is a committed row
    have hthere : ∀ k old next,s.calls k = .rotated old next → ∃ r ∈ s.rows,r.id = next.id := by
      intro k old next hk
      have hfits := hs.fits k
      rw [hk] at hfits
      obtain ⟨r,hr,-,hlink⟩ := hfits
      obtain ⟨r',hr',hid,-⟩ := hs.chained.forward.successor hr hlink
      exact ⟨r',hr',hid⟩
    by_cases hic : c = some i
    · by_cases hjc : c = some j
      · exact Option.some.inj (hic.symm.trans hjc)
      · rw [hw.calls j hjc] at hj
        obtain ⟨r,hr,hid⟩ := hthere j old' next' hj
        exact ((hm i hic).winner old next hi r hr (hid.trans heq.symm)).elim
    · rw [hw.calls i hic] at hi
      by_cases hjc : c = some j
      · obtain ⟨r,hr,hid⟩ := hthere i old next hi
        exact ((hm j hjc).winner old' next' hj r hr (hid.trans heq)).elim
      · rw [hw.calls j hjc] at hj
        exact hs.winners i j old next old' next' hi hj heq

theorem goto_calls_ne {c k : Fin n} {p : RotatePoint} (hk : some c ≠ some k) :
    (s.goto c p).calls k = s.calls k :=
  Function.update_of_ne (fun he => hk (congrArg some he.symm)) _ _

@[simp] theorem goto_calls_self (s : Sessions n) (c : Fin n) (p : RotatePoint) :
    (s.goto c p).calls c = p := Function.update_self _ _ _

@[simp] theorem goto_rows (s : Sessions n) (c : Fin n) (p : RotatePoint) :
    (s.goto c p).rows = s.rows := rfl

theorem Advance.moves {c : Fin n} {p : RotatePoint} (hs : Sound raw s)
    (h : Advance raw s c (s.calls c) p) : Moves raw s (s.goto c p) c := by
  have hfits := hs.fits c
  generalize hq : s.calls c = q at h hfits
  constructor
  · rw [goto_calls_self,goto_rows]
    cases h with
    | select hmem htok _ => exact ⟨hmem,htok⟩
    | insert hspent _ huser hnone hfree =>
      exact ⟨hfits,hspent,huser,hnone,(Sessions.not_taken hfree).1⟩
    | proceed => exact hfits
    | _ => trivial
  · intro id hid
    rw [goto_calls_self] at hid
    rw [hq]
    cases h with
    | select _ _ hfree =>
      obtain rfl := List.mem_singleton.1 hid
      exact .inr hfree
    | @visit now old todo hit id' hmem hfree =>
      cases hid with
      | head => exact .inl List.mem_cons_self
      | tail _ hid =>
        split at hid
        · cases hid with
          | head => exact .inr hfree
          | tail _ hid => exact .inl (List.mem_cons_of_mem _ hid)
        · exact .inl (List.mem_cons_of_mem _ hid)
    | begin => cases hid
    | fail => cases hid
    | scan => exact .inl hid
    | insert => exact .inl hid
    | proceed => exact .inl hid
  · intro next hnext
    rw [goto_calls_self] at hnext
    rw [hq]
    cases h with
    | insert _ _ _ _ hfree =>
      obtain rfl := Option.some.inj hnext
      exact .inr (Sessions.not_taken hfree).2
    | proceed => exact .inl hnext
    | _ => cases hnext
  · intro old next hp
    rw [goto_calls_self] at hp
    subst hp
    cases h

theorem not_spent (h : r.spent = false) : r.revokedAt = none ∧ r.rotatedTo = none := by
  simpa [SessionRow.spent] using h

theorem Sound.rotating {c : Fin n} {now : Int} {old next : SessionRow}
    (hs : Sound raw s) (hc : s.calls c = .rotating .loaded now old next) (p : RotatePoint) :
    Writes s ((s.rewrite (fun r => r.id = old.id) (SessionRow.rotate now next.id) [next]).goto c p)
      (some c) (fun r => if decide (r.id = old.id) then r.rotate now next.id else r) [next] := by
  have hfits := hs.fits c
  rw [hc] at hfits
  obtain ⟨⟨hold,-⟩,hspent,huser,hnone,hfresh⟩ := hfits
  have hunlinked := (not_spent hspent).2
  have hlock : old.id ∈ (s.calls c).locks := by
    rw [hc]
    exact List.mem_cons_self
  have hset : ∀ r ∈ s.rows,∀ k,r.rotatedTo = none →
      (if decide (r.id = old.id) then r.rotate now next.id else r).rotatedTo = some k →
        r = old := by
    intro r hr k hr' hk
    by_cases hid : r.id = old.id
    · exact eq_of_key hs.chained.distinct hr hold hid
    · simp [hid,hr'] at hk
  constructor
  · rfl
  · intro k hk
    exact goto_calls_ne hk
  · exact Int.le_refl _
  · constructor
    · intro r _
      split <;> rfl
    · intro r _
      split <;> rfl
    · intro r hr
      by_cases hid : r.id = old.id
      · obtain rfl := eq_of_key hs.chained.distinct hr hold hid
        exact .inr ⟨hunlinked,next,List.mem_singleton_self _,by simp [SessionRow.rotate],huser⟩
      · simp [hid]
    · intro a ha b hb han hbn k hak hbk
      rw [hset a ha k han hak,hset b hb k hbn hbk]
  · intro r
    split <;> rfl
  · intro r
    split <;> rfl
  · intro r hr
    split
    · rfl
    · exact hr
  · intro r k hk hid
    have hne : r.id ≠ old.id := fun he =>
      hk (congrArg some (hs.exclusive c k old.id hlock (he ▸ hid)))
    simp [hne]
  · exact Nat.le_refl 1
  · intro r hr
    obtain rfl := List.mem_singleton.1 hr
    exact hnone
  · intro r hr
    by_cases hid : r.id = old.id
    · obtain rfl := eq_of_key hs.chained.distinct hr hold hid
      exact .inr ⟨c,.loaded,now,next,rfl,hc⟩
    · exact .inl (by simp [hid])
  · intro r hr r' hr'
    obtain rfl := List.mem_singleton.1 hr
    exact hfresh r' hr'
  · intro r hr k hk next' hnext'
    obtain rfl := List.mem_singleton.1 hr
    have hmine : r ∈ (s.calls c).pending := by rw [hc]; rfl
    exact hs.apart k c (fun he => hk (congrArg some he.symm)) next' hnext' r hmine

theorem Sound.sweeping {c : Fin n} {now : Int} {old : SessionRow} {todo hit : List String}
    (hs : Sound raw s) (hc : s.calls c = .sweeping now old todo hit) (p : RotatePoint) :
    Writes s ((s.rewrite (fun r => r.id ∈ hit) (SessionRow.revoke now) []).goto c p) (some c)
      (fun r => if decide (r.id ∈ hit) then r.revoke now else r) [] := by
  refine Writes.revoking rfl (fun _ hk => goto_calls_ne hk) (Int.le_refl _) ?_
  intro r k hk hid
  apply decide_eq_false
  intro hin
  have hmine : r.id ∈ (s.calls c).locks := by
    rw [hc]
    exact List.mem_cons_of_mem _ hin
  exact hk (congrArg some (hs.exclusive c k r.id hmine hid))

theorem lostOr_cases (lost : Option String) (p : RotatePoint) :
    lostOr lost p = p ∨ ∃ e,lostOr lost p = .failed e := by
  cases lost with
  | none => exact .inl rfl
  | some text => exact .inr ⟨_,rfl⟩

theorem Moves.closed {c : Fin n} (hfits : Fits (raw c) t.rows (t.calls c))
    (hlocks : (t.calls c).locks = []) (hpending : (t.calls c).pending = none)
    (hwinner : ∀ old next,t.calls c = .rotated old next → ∀ r ∈ s.rows,r.id ≠ next.id) :
    Moves raw s t c where
  fits := hfits
  locks id hid := by
    rw [hlocks] at hid
    cases hid
  pending next hnext := by
    rw [hpending] at hnext
    cases hnext
  winner := hwinner

theorem Effect.writes (hs : Sound raw s) (h : Effect raw s c t) : ∃ f new,Writes s t c f new := by
  cases h with
  | pass hle => exact ⟨_,_,Writes.quiet rfl (fun _ _ => rfl) hle⟩
  | @create row hnone hfree =>
    obtain ⟨hrows,hpend⟩ := Sessions.not_taken hfree
    refine ⟨fun r => r,[row],?_,fun _ _ => rfl,Int.le_refl _,
      relinks_of_same fun _ _ => ⟨rfl,rfl,rfl⟩,fun _ => rfl,fun _ => rfl,fun _ hr => hr,
      fun _ _ _ _ => rfl,Nat.le_refl 1,?_,fun _ _ => .inl rfl,?_,?_⟩
    · rw [List.map_id']
    · intro r hr
      obtain rfl := List.mem_singleton.1 hr
      exact hnone
    · intro r hr
      obtain rfl := List.mem_singleton.1 hr
      exact hrows
    · intro r hr k _
      obtain rfl := List.mem_singleton.1 hr
      exact hpend k
  | @revoke id now hfree =>
    refine ⟨_,[],Writes.revoking rfl (fun _ _ => rfl) (Int.le_refl _) ?_⟩
    intro r k hk hid
    exact decide_eq_false fun he : r.id = id => Sessions.not_locked hfree hk (he ▸ hid)
  | advance _ => exact ⟨_,_,Writes.quiet rfl (fun _ hk => goto_calls_ne hk) (Int.le_refl _)⟩
  | sweep hc => exact ⟨_,_,hs.sweeping hc _⟩
  | rotate hc => exact ⟨_,_,hs.rotating hc _⟩

theorem Effect.moves {c : Fin n} (hs : Sound raw s) (h : Effect raw s (some c) t) :
    Moves raw s t c := by
  cases h with
  | advance hadv => exact hadv.moves hs
  | @sweep _ now old hit lost hc =>
    obtain hend | ⟨e,hend⟩ := lostOr_cases lost (.reused old) <;>
      · apply Moves.closed <;> simp [hend,Fits,RotatePoint.locks,RotatePoint.pending]
  | @rotate _ now old next lost hc =>
    have hfits := hs.fits c
    rw [hc] at hfits
    obtain ⟨⟨hold,htok⟩,-,-,-,hfresh⟩ := hfits
    obtain hend | ⟨e,hend⟩ := lostOr_cases lost (.rotated old next)
    · rw [hend]
      have hmark : old.rotate now next.id ∈
          (s.rewrite (fun r => r.id = old.id) (SessionRow.rotate now next.id) [next]).rows :=
        List.mem_append_left _ (List.mem_map.2 ⟨old,hold,by simp⟩)
      apply Moves.closed
      · rw [goto_calls_self]
        exact ⟨_,hmark,htok,rfl⟩
      · simp [RotatePoint.locks]
      · simp [RotatePoint.pending]
      · intro old' next' hp r hr
        rw [goto_calls_self] at hp
        cases hp
        exact (hfresh r hr).1
    · apply Moves.closed <;> simp [hend,Fits,RotatePoint.locks,RotatePoint.pending]

theorem Sound.effect (hs : Sound raw s) (h : Effect raw s c t) : Sound raw t := by
  obtain ⟨f,new,hw⟩ := h.writes hs
  apply hs.moved hw
  intro k hk
  subst hk
  exact h.moves hs

theorem start_sound (clock : Int) : Sound raw (Sessions.start n clock) where
  chained := ⟨List.nodup_nil,trivial,nofun⟩
  tokens := List.nodup_nil
  exclusive _ _ _ hid := nomatch hid
  fits _ := trivial
  apart _ _ _ _ hnext := nomatch hnext
  winners _ _ _ _ _ _ hi := nomatch hi

theorem reaches_sound {ok : Sessions n → SessionAction n → Prop}
    {as : List (SessionAction n)} (h : Reaches (Sessions.step raw) ok s as t) (hs : Sound raw s) :
    Sound raw t := h.invariant (fun _ _ _ hs _ hstep => hs.effect (Sessions.step_effect hstep)) hs

/-- A call that began after the time bound and will not rotate: it has found its
session spent or expired, or is still to read it. -/
def RotatePoint.Refused (bound : Int) : RotatePoint → Prop
  | .begun now => bound ≤ now
  | .held now old => old.spent = true ∨ old.expired now = true
  | .rotating _ _ _ _ | .rotated _ _ => False
  | _ => True

structure Doomed (raw : Fin n → String) (bound : Int) (c : Fin n) (s : Sessions n) : Prop where
  dead : ∃ r ∈ s.rows,r.refreshTokenHash = hashToken (raw c) ∧
    (r.revokedAt.isSome = true ∨ r.expiresAt < bound)
  past : bound ≤ s.clock
  refused : (s.calls c).Refused bound

theorem Doomed.advance {bound : Int} {c : Fin n} {p : RotatePoint}
    (h : Doomed raw bound c s) (hs : Sound raw s) (hadv : Advance raw s c (s.calls c) p) :
    p.Refused bound := by
  have hrefused := h.refused
  generalize s.calls c = q at hadv hrefused
  cases hadv with
  | begin => exact h.past
  | @select now r' hmem htok _ =>
    obtain ⟨r,hr,hhash,hdead⟩ := h.dead
    obtain rfl : r = r' := List.inj_on_of_nodup_map hs.tokens hr hmem (hhash.trans htok.symm)
    cases hdead with
    | inl hrevoked => exact .inl (by simp [SessionRow.spent,hrevoked])
    | inr hexpired => exact .inr (decide_eq_true (Int.lt_of_lt_of_le hexpired hrefused))
  | insert hspent hexpired =>
    cases hrefused with
    | inl hyes => exact absurd (hspent.symm.trans hyes) (by decide)
    | inr hyes => exact absurd (hexpired.symm.trans hyes) (by decide)
  | proceed => exact hrefused
  | _ => trivial

theorem Doomed.effect {bound : Int} {c : Fin n} {k : Option (Fin n)}
    (h : Doomed raw bound c s) (hs : Sound raw s) (heff : Effect raw s k t) :
    Doomed raw bound c t := by
  obtain ⟨f,new,hw⟩ := heff.writes hs
  constructor
  · obtain ⟨r,hr,hhash,hdead⟩ := h.dead
    have hstays : (f r).revokedAt.isSome = true ∨ (f r).expiresAt < bound := by
      cases hdead with
      | inl hrevoked => exact .inl (hw.revoked r hrevoked)
      | inr hexpired => exact .inr (hw.expiry r ▸ hexpired)
    exact ⟨f r,hw.mem hr,(hw.token r).trans hhash,hstays⟩
  · exact Int.le_trans h.past hw.clock
  · by_cases hk : k = some c
    · subst hk
      cases heff with
      | advance hadv =>
        rw [goto_calls_self]
        exact h.advance hs hadv
      | @sweep _ now old hit lost hc =>
        rw [goto_calls_self]
        obtain hend | ⟨e,hend⟩ := lostOr_cases lost (.reused old) <;> rw [hend] <;> trivial
      | rotate hc =>
        have := h.refused
        rw [hc] at this
        exact this.elim
    · rw [hw.calls c hk]
      exact h.refused

/-- Sessions form disjoint chains: a rotated one leads to exactly one session,
of its user, no session is led to twice, and no chain closes. -/
structure DisjointChains (rows : List SessionRow) : Prop where
  successor : ∀ r ∈ rows,∀ next,r.rotatedTo = some next → ∃ r' ∈ rows,r'.id = next ∧
    r'.userID = r.userID ∧ ∀ r'' ∈ rows,r''.id = next → r'' = r'
  single : ∀ r ∈ rows,∀ r' ∈ rows,∀ next,r.rotatedTo = some next → r'.rotatedTo = some next → r = r'
  acyclic : ∀ r,¬Relation.TransGen (Follows SessionRow.id SessionRow.rotatedTo rows) r r

theorem disjointChains_of_chained {rows : List SessionRow} (h : Chained rows) :
    DisjointChains rows where
  successor r hr next hnext := by
    obtain ⟨r',hr',hid,huser⟩ := h.forward.successor hr hnext
    exact ⟨r',hr',hid,huser,fun r'' hr'' hid' =>
      eq_of_key h.distinct hr'' hr' (hid'.trans hid.symm)⟩
  single := h.apart
  acyclic := h.acyclic

theorem Sound.revoked (hs : Sound raw s) {token : String} {now : Int}
    (h : s.step raw (.revoke token now) = some t) (hr : r ∈ t.rows)
    (htok : r.refreshTokenHash = hashToken token) : r.revokedAt.isSome = true := by
  simp only [Sessions.step] at h
  split at h
  next hnone =>
    cases h
    exact absurd htok (by simpa using List.find?_eq_none.1 hnone r hr)
  next found hfound =>
    split at h
    · cases h
    · cases h
      simp only [Sessions.rewrite,List.append_nil] at hr
      obtain ⟨old,hold,rfl⟩ := List.mem_map.1 hr
      obtain ⟨hmem,hhash⟩ := Sessions.byToken_some hfound
      have hsame : old.refreshTokenHash = hashToken token := by
        split at htok
        · simpa using htok
        · exact htok
      obtain rfl : old = found :=
        List.inj_on_of_nodup_map hs.tokens hold hmem (hsame.trans hhash.symm)
      simp

/-- A token is rotated by at most one call; a call that begins once the session
is revoked or expired does not rotate it, and `RevokeSession` revokes it; and the
table is a set of chains. -/
theorem rotation_is_linear (n : Nat) (raw : Fin n → String) (clock : Int)
    (as : List (SessionAction n)) (s : Sessions n)
    (h : Reaches (Sessions.step raw) (fun _ _ => True) (Sessions.start n clock) as s) :
    (∀ i j old next old' next',raw i = raw j → s.calls i = .rotated old next →
        s.calls j = .rotated old' next' → i = j) ∧
      (∀ r ∈ s.rows,r.revokedAt.isSome = true ∨ r.expiresAt < s.clock → ∀ c,
        r.refreshTokenHash = hashToken (raw c) → s.calls c = .idle → ∀ bs t,
        Reaches (Sessions.step raw) (fun _ _ => True) s bs t →
          ∀ old next,t.calls c ≠ .rotated old next) ∧
      (∀ token now t,s.step raw (.revoke token now) = some t → ∀ r ∈ t.rows,
        r.refreshTokenHash = hashToken token → r.revokedAt.isSome = true) ∧
      DisjointChains s.rows := by
  have hs : Sound raw s := reaches_sound h (start_sound clock)
  refine ⟨?_,?_,fun token now t hstep r hr htok => hs.revoked hstep hr htok,
    disjointChains_of_chained hs.chained⟩
  · intro i j old next old' next' hraw hi hj
    have hfi := hs.fits i
    have hfj := hs.fits j
    rw [hi] at hfi
    rw [hj] at hfj
    obtain ⟨r,hr,htok,hlink⟩ := hfi
    obtain ⟨r',hr',htok',hlink'⟩ := hfj
    obtain rfl : r = r' :=
      List.inj_on_of_nodup_map hs.tokens hr hr' (htok.trans (hraw ▸ htok'.symm))
    exact hs.winners i j old next old' next' hi hj (Option.some.inj (hlink.symm.trans hlink'))
  · intro r hr hdead c htok hidle bs t hrun old next hrotated
    have hdoomed : Doomed raw s.clock c s :=
      ⟨⟨r,hr,htok,hdead⟩,Int.le_refl _,by rw [hidle]; trivial⟩
    have hend := hrun.invariant (I := fun u => Sound raw u ∧ Doomed raw s.clock c u)
      (fun u a v hu _ hstep => ⟨hu.1.effect (Sessions.step_effect hstep),
        hu.2.effect hu.1 (Sessions.step_effect hstep)⟩) ⟨hs,hdoomed⟩
    have := hend.2.refused
    rw [hrotated] at this
    exact this

def rotationRace : List (SessionAction 3) :=
  [.create "ses_a" "usr_1" "a" 100,.begin 0,.begin 1,.select 0,.insert 0 "ses_b" "b" 100,.mark 0,
    .load 0,.commit 0 none,.select 1,.scan 1]

def raceTokens (c : Fin 3) : String := if c = 2 then "b" else "a"

/-- Two calls present the first token; the second is revoked before a call that
presents it begins. -/
theorem rotation_is_linear_race :
    ∃ s t,Reaches (Sessions.step raceTokens) (fun _ _ => True) (Sessions.start 3 0) rotationRace s ∧
      (∃ old next,s.calls 0 = .rotated old next) ∧
      s.step raceTokens (.revoke "b" 0) = some t ∧ t.calls 2 = .idle ∧
      (∃ r ∈ t.rows,r.refreshTokenHash = hashToken "b" ∧ r.revokedAt.isSome = true) ∧
      (∀ bs u,Reaches (Sessions.step raceTokens) (fun _ _ => True) t bs u →
        ∀ old next,u.calls 2 ≠ .rotated old next) ∧
      DisjointChains t.rows := by
  obtain ⟨s,hs,hfirst,hrevoke⟩ : ∃ s,Reaches (Sessions.step raceTokens) (fun _ _ => True)
      (Sessions.start 3 0) rotationRace s ∧
      s.calls 0 = .rotated ⟨"ses_a","usr_1",hashToken "a",100,none,none⟩
        ⟨"ses_b","usr_1",hashToken "b",100,none,none⟩ ∧
      ((s.step raceTokens (.revoke "b" 0)).any fun t => t.calls 2 = .idle ∧
        hashToken "b" ∈ t.rows.map SessionRow.refreshTokenHash) = true := by
    refine Reaches.exists_of_run ?_
    decide +kernel
  obtain ⟨t,hstep,hlater⟩ := (Option.any_eq_true _ _).1 hrevoke
  obtain ⟨hidle,hthere⟩ := of_decide_eq_true hlater
  obtain ⟨r,hr,hhash⟩ := List.mem_map.1 hthere
  have ht := hs.append (.next trivial hstep (.stop t))
  obtain ⟨-,-,hrevoked,-⟩ := rotation_is_linear 3 raceTokens 0 _ s hs
  obtain ⟨-,hnever,-,hchains⟩ := rotation_is_linear 3 raceTokens 0 _ t ht
  have hdead := hrevoked "b" 0 t hstep r hr hhash
  exact ⟨s,t,hs,⟨_,_,hfirst⟩,hstep,hidle,⟨r,hr,hhash,hdead⟩,hnever r hr (.inl hdead) 2 hhash hidle,
    hchains⟩

end Switchyard.Identity
