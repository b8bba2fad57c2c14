import Switchyard.CacheHistory
set_option autoImplicit false

/-!
The team index of the response cache: the sorted set through which PurgeTeam
finds a team's entries, and which every Put of the team gives the deadline of
its own entry. When the index covers the team's entries, and what a Put does to
that.
-/

namespace Switchyard.Cache
open GoText RedisData CallTree

/-- The calls of one goroutine, answered in turn; keys expire between them. -/
abbrev Ran (s : Redis) (tr : List (Event Op Ans)) (u : Redis) : Prop :=
  Served Exec Tick s (tr.map (Step.mk 0)) u

variable {s u : Redis}

theorem ran_append {a b : List (Event Op Ans)} (hrun : Ran s (a ++ b) u) :
    ∃ m,Ran s a m ∧ Ran m b u := by
  rw [Ran,List.map_append] at hrun
  exact hrun.cut

variable {tr : List (Event Op Ans)}

theorem ran_cons {e : Event Op Ans} (hrun : Ran s (e :: tr) u) (hex : executed e = true) :
    ∃ m,Ran s [] m ∧ (∀ r,e.ans = .ok r → m.Replies e.op r) ∧ Ran (m.after e.op) tr u := by
  obtain ⟨m,m',hidle,⟨hreply,rfl⟩,hrest⟩ := Served.split (a := []) hrun
  exact ⟨m,hidle,hreply,by rwa [if_pos hex] at hrest⟩

def Readable (h : Hash) : Prop := ∃ e,decodeEntry h = .ok e

theorem Readable.congr {h h' : Hash} (heq : h'.get? "created_at" = h.get? "created_at")
    (hr : Readable h) : Readable h' := by
  obtain ⟨e,he⟩ := hr
  cases hp : parseInt (fieldText h "created_at") with
  | mk created err =>
    have hp' : parseInt (fieldText h' "created_at") = (created,err) := by
      simp only [fieldText,fieldBytes,heq] at hp ⊢
      exact hp
    cases err with
    | none => exact ⟨_,by rw [decodeEntry,hp']⟩
    | some err => simp [decodeEntry,hp] at he

def Shedding (op : Op) : Prop := ∀ s : Redis,Shrinks s (s.after op)

theorem shrinks_ran (hrun : Ran s tr u) (hsheds : ∀ e ∈ tr,Shedding e.op) : Shrinks s u := by
  refine hrun.keeps (I := Shrinks s) (P := fun x => Shedding x.event.op) ?_ ?_
    (by simpa using hsheds) (Shrinks.refl s)
  · intro m x u hm hx hexec
    obtain ⟨-,rfl⟩ := hexec
    split
    · exact hm.trans (hx m)
    · exact hm
  · intro m u hm htick
    obtain ⟨now,-,rfl⟩ := htick
    exact hm.trans (shrinks_at m now)

theorem fetch_readable {id : String} {e : Entry}
    (hret : (fetch id).Returns tr (.ok (some e))) (hrun : Ran s tr u) :
    ∃ x,s.entries id = some x ∧ Readable x.value := by
  obtain ⟨tr₁,fields,tr₂,rfl,h₁,h₂⟩ := returns_orFail hret
  obtain rfl := returns_perform.1 h₁
  obtain ⟨m,hidle,hreply,-⟩ := ran_cons hrun rfl
  have hshrinks : Shrinks s m := shrinks_ran hidle (by simp)
  have hfields : fields = m.hash id := hreply fields rfl
  have hdecodes : decodeEntry fields = .ok e := by
    split at h₂
    · simp at h₂
    · cases hd : decodeEntry fields with
      | error err => simp [hd,Except.map] at h₂
      | ok e' =>
        simp only [hd,Except.map,returns_pure,Except.ok.injEq,Option.some.injEq] at h₂
        rw [h₂.2]
  cases hm : m.entries id with
  | none =>
    have hnone : fields.get? "created_at" = none := by
      rw [hfields]
      simp [Redis.hash,hm,Hash.empty,Hash.get?]
    exact absurd hdecodes (decodeEntry_no_created hnone)
  | some x =>
    obtain ⟨y,hy,hxy⟩ := hshrinks.entries id x hm
    refine ⟨y,hy,e,?_⟩
    rw [← hxy,← hdecodes,hfields]
    simp [Redis.hash,hm]

def Listed (s : Redis) (t id : String) : Prop :=
  ∃ z,s.zsets (.team t) = some z ∧ id ∈ z.value.map Prod.snd

/-- A key with the first deadline is there for as long as one with the second. -/
def Outlasts (a b : Option Int) : Prop := ∀ d,a = some d → ∃ d',b = some d' ∧ d' ≤ d

/-- The team index lists every readable entry of own, and outlives it. -/
def Covered (t : String) (own : String → Prop) (s : Redis) : Prop :=
  ∀ id x,own id → s.entries id = some x → Readable x.value →
    ∃ z,s.zsets (.team t) = some z ∧ id ∈ z.value.map Prod.snd ∧ Outlasts z.deadline x.deadline

/-- Commands that neither write the entries of own nor take from the team
index or set its deadline. -/
def Quiet (t : String) (own : String → Prop) : Op → Prop
  | .hSet id _ => ¬own id
  | .hIncrBy _ field _ => field = "hits"
  | .expire (.entry id) _ => ¬own id
  | .expire (.zset key) _ => key ≠ .team t
  | .zRemRangeByRank key _ _ => key ≠ .team t
  | .zRem key _ => key ≠ .team t
  | .del keys => .zset (.team t) ∉ keys
  | _ => True

/-- What a quiet command can do: readable entries of own were there before with
the same deadline, and the team index is still there. -/
structure Milder (t : String) (own : String → Prop) (s u : Redis) : Prop where
  now : u.now = s.now
  entries : ∀ id x,own id → u.entries id = some x → Readable x.value →
    ∃ y,s.entries id = some y ∧ Readable y.value ∧ x.deadline = y.deadline
  index : ∀ z,s.zsets (.team t) = some z → ∃ z',u.zsets (.team t) = some z' ∧
    z'.deadline = z.deadline ∧ z.value.map Prod.snd ⊆ z'.value.map Prod.snd
  deadline : ∀ z d,u.zsets (.team t) = some z → z.deadline = some d →
    ∃ y,s.zsets (.team t) = some y ∧ y.deadline = some d

section Milder

variable {t : String} {own : String → Prop}

theorem Milder.refl (s : Redis) : Milder t own s s :=
  ⟨rfl,fun _ x _ hx hr => ⟨x,hx,hr,rfl⟩,fun z hz => ⟨z,hz,rfl,List.Subset.refl _⟩,
    fun z _ hz hd => ⟨z,hz,hd⟩⟩

variable {s : Redis}

theorem Milder.trans {m u : Redis} (h : Milder t own s m) (h' : Milder t own m u) :
    Milder t own s u := by
  refine ⟨h'.now.trans h.now,fun id x ho hx hr => ?_,fun z hz => ?_,fun z d hz hd => ?_⟩
  · obtain ⟨y,hy,hyr,hxy⟩ := h'.entries id x ho hx hr
    obtain ⟨w,hw,hwr,hyw⟩ := h.entries id y ho hy hyr
    exact ⟨w,hw,hwr,hxy.trans hyw⟩
  · obtain ⟨z₁,hz₁,hd₁,hsub₁⟩ := h.index z hz
    obtain ⟨z₂,hz₂,hd₂,hsub₂⟩ := h'.index z₁ hz₁
    exact ⟨z₂,hz₂,hd₂.trans hd₁,List.Subset.trans hsub₁ hsub₂⟩
  · obtain ⟨y,hy,hyd⟩ := h'.deadline z d hz hd
    exact h.deadline y d hy hyd

theorem milder_update_entry {id : String} {v : Option (Timed Hash)}
    (hv : own id → ∀ x,v = some x → Readable x.value →
      ∃ y,s.entries id = some y ∧ Readable y.value ∧ x.deadline = y.deadline) :
    Milder t own s { s with entries := Function.update s.entries id v } := by
  have hrefl : Milder t own s s := Milder.refl s
  refine ⟨rfl,fun j x ho hx hr => ?_,hrefl.index,hrefl.deadline⟩
  by_cases hj : j = id
  · subst hj
    simp only [Function.update_self] at hx
    exact hv ho x hx hr
  · simp only [Function.update_of_ne hj] at hx
    exact ⟨x,hx,hr,rfl⟩

theorem milder_update_zset {key : ZKey} (hkey : key ≠ .team t) (v : Option (Timed ZSet)) :
    Milder t own s { s with zsets := Function.update s.zsets key v } := by
  have hrefl : Milder t own s s := Milder.refl s
  refine ⟨rfl,hrefl.entries,?_,?_⟩
  · simpa only [Function.update_of_ne hkey.symm] using hrefl.index
  · simpa only [Function.update_of_ne hkey.symm] using hrefl.deadline

theorem milder_delete {key : RKey} (hkey : key ≠ .zset (.team t)) :
    Milder t own s (s.delete key) := by
  cases key with
  | entry id => exact milder_update_entry (by simp)
  | zset key => exact milder_update_zset (fun h => hkey (h ▸ rfl)) none

theorem milder_deleteAll {keys : List RKey} (hkeys : .zset (.team t) ∉ keys) :
    Milder t own s (keys.foldl Redis.delete s) := by
  induction keys generalizing s with
  | nil => exact Milder.refl s
  | cons key keys ih =>
    simp only [List.mem_cons,not_or] at hkeys
    exact (milder_delete fun h => hkeys.1 h.symm).trans (ih hkeys.2)

/-- A counted hit leaves an entry as readable as it was, and a stub unreadable. -/
theorem milder_hIncrBy (s : Redis) (id : String) (n : Int) :
    Milder t own s (s.after (.hIncrBy id "hits" n)) := by
  simp only [Redis.after]
  cases incremented (s.hash id) "hits" n with
  | none => exact Milder.refl s
  | some m =>
    refine milder_update_entry fun _ x hx hr => ?_
    obtain rfl := Option.some.inj hx
    have hcreated : ((s.hash id).put "hits" (bytes (formatInt m))).get? "created_at" =
        (s.hash id).get? "created_at" := by
      rw [Hash.get?_put,if_neg (by decide)]
    have hbefore : Readable (s.hash id) := hr.congr hcreated.symm
    cases hs : s.entries id with
    | none =>
      obtain ⟨e,he⟩ := hbefore
      exact absurd he (decodeEntry_no_created (by simp [Redis.hash,hs,Hash.empty,Hash.get?]))
    | some y =>
      refine ⟨y,rfl,?_,by simp⟩
      simpa [Redis.hash,hs] using hbefore

theorem setMembers_index {key : ZKey} {z : ZSet} (hz : z ≠ []) :
    (s.setMembers key z).zsets key = some ⟨z,(s.zsets key).bind Timed.deadline⟩ := by
  simp [Redis.setMembers,hz]

theorem zAdd_ne_nil (z : ZSet) (score : ℚ) (member : String) :
    RedisData.zAdd z score member ≠ [] := by
  intro h
  have hsub := names_zAdd z score member
  simp [h] at hsub

theorem milder_zAdd (s : Redis) (key : ZKey) (score : ℚ) (member : String) :
    Milder t own s (s.after (.zAdd key score member)) := by
  by_cases hkey : key = .team t
  · subst hkey
    have hafter : (s.after (.zAdd (.team t) score member)).zsets (.team t) = _ :=
      setMembers_index (zAdd_ne_nil _ _ _)
    have hrefl : Milder t own s s := Milder.refl s
    refine ⟨rfl,hrefl.entries,fun z hz => ?_,fun z d hz hd => ?_⟩
    · refine ⟨_,hafter,by simp [hz],?_⟩
      have hmembers : s.members (.team t) = z.value := by simp [Redis.members,hz]
      rw [hmembers]
      exact List.Subset.trans (List.subset_cons_self _ _) (names_zAdd z.value score member)
    · obtain rfl := Option.some.inj (hafter.symm.trans hz)
      exact Option.bind_eq_some_iff.1 hd
  · exact milder_update_zset hkey _

theorem milder_after {op : Op} (h : Quiet t own op) : Milder t own s (s.after op) := by
  cases op with
  | hSet id fields => exact milder_update_entry fun ho => absurd ho h
  | hIncrBy id field n =>
    obtain rfl : field = "hits" := h
    exact milder_hIncrBy s id n
  | expire key ttl =>
    simp only [Redis.after,Redis.expire]
    cases key with
    | entry id =>
      split
      · exact milder_update_entry fun ho => absurd ho h
      · exact milder_update_entry fun ho => absurd ho h
    | zset key =>
      split
      · exact milder_update_zset h _
      · exact milder_update_zset h _
  | zAdd key score member => exact milder_zAdd s key score member
  | zRemRangeByRank key start stop => exact milder_update_zset h _
  | zRem key members => exact milder_update_zset h _
  | del keys => exact milder_deleteAll h
  | _ => exact Milder.refl s

theorem quiet_ran {I : Redis → Prop} (hmild : ∀ s u,Milder t own s u → I s → I u)
    (htick : ∀ s now,s.now ≤ now → I s → I (s.at now)) {u : Redis} (hrun : Ran s tr u)
    (hquiet : ∀ e ∈ tr,Quiet t own e.op) (hs : I s) : I u := by
  refine hrun.keeps (P := fun x => Quiet t own x.event.op) ?_ ?_ (by simpa using hquiet) hs
  · intro m x u hm hx hexec
    obtain ⟨-,rfl⟩ := hexec
    split
    · exact hmild _ _ (milder_after hx) hm
    · exact hm
  · intro m u hm htick'
    obtain ⟨now,hnow,rfl⟩ := htick'
    exact htick m now hnow hm

theorem Covered.mild {u : Redis} (h : Milder t own s u) (hs : Covered t own s) :
    Covered t own u := by
  intro id x ho hx hr
  obtain ⟨y,hy,hyr,hxy⟩ := h.entries id x ho hx hr
  obtain ⟨z,hz,hid,hout⟩ := hs id y ho hy hyr
  obtain ⟨z',hz',hd,hsub⟩ := h.index z hz
  refine ⟨z',hz',hsub hid,?_⟩
  rw [hd,hxy]
  exact hout

theorem aliveAt_of_outlasts {α β : Type} {z : Timed α} {x : Timed β} {now : Int}
    (hout : Outlasts z.deadline x.deadline) (hx : x.aliveAt now = true) : z.aliveAt now = true := by
  unfold Timed.aliveAt at hx ⊢
  split
  · rfl
  · rename_i d hd
    obtain ⟨d',hd',hle⟩ := hout d hd
    simp only [hd',decide_eq_true_eq] at hx ⊢
    omega

theorem Covered.tick {now : Int} (hs : Covered t own s) : Covered t own (s.at now) := by
  intro id x ho hx hr
  obtain ⟨hx,halive⟩ := Option.filter_eq_some_iff.1 hx
  obtain ⟨z,hz,hid,hout⟩ := hs id x ho hx hr
  exact ⟨z,Option.filter_eq_some_iff.2 ⟨hz,aliveAt_of_outlasts hout halive⟩,hid,hout⟩

theorem Covered.ran {u : Redis} (hrun : Ran s tr u)
    (hquiet : ∀ e ∈ tr,Quiet t own e.op) (hs : Covered t own s) : Covered t own u :=
  quiet_ran (fun _ _ => Covered.mild) (fun _ _ _ => Covered.tick) hrun hquiet hs

theorem Covered.anti {own' : String → Prop} (hsub : ∀ id,own' id → own id) (hs : Covered t own s) :
    Covered t own' s :=
  fun id x ho => hs id x (hsub id ho)

end Milder

theorem after_now (s : Redis) (op : Op) : (s.after op).now = s.now := by
  have hdelete : ∀ (s : Redis) (key : RKey),(s.delete key).now = s.now := by
    intro s key
    cases key <;> rfl
  cases op with
  | hIncrBy id field n =>
    simp only [Redis.after]
    split <;> rfl
  | expire key ttl =>
    simp only [Redis.after,Redis.expire]
    split
    · exact hdelete s key
    · cases key <;> rfl
  | del keys =>
    simp only [Redis.after]
    induction keys generalizing s with
    | nil => rfl
    | cons key keys ih => exact (ih _).trans (hdelete s key)
  | _ => rfl

theorem ran_now (hrun : Ran s tr u) : s.now ≤ u.now := by
  refine hrun.keeps (I := fun u => s.now ≤ u.now) (P := fun _ => True) ?_ ?_
    (fun _ _ => trivial) (le_refl _)
  · intro m x u hm _ hexec
    obtain ⟨-,rfl⟩ := hexec
    split
    · rwa [after_now]
    · exact hm
  · intro m u hm htick
    obtain ⟨now,hnow,rfl⟩ := htick
    exact hm.trans hnow

/-- During a Put of the team that is over by time T: the entries the index
lists, those that end no later than an index given this TTL now would, and an
index that stays at least until T. -/
structure Filing (t : String) (listed bounded : String → Prop) (ttl T : Int) (s : Redis) :
    Prop where
  listed : ∀ id x,listed id → s.entries id = some x → Readable x.value → Listed s t id
  bounded : ∀ id x,bounded id → s.entries id = some x → Readable x.value →
    ∃ d,x.deadline = some d ∧ d ≤ s.now+1000*formatSec ttl
  lasting : ∀ z d,s.zsets (.team t) = some z → z.deadline = some d → T < d

section Filing

variable {t : String} {listed bounded : String → Prop} {ttl T : Int}

variable {s : Redis}

theorem Filing.mild {u : Redis} (hsub : ∀ id,listed id → bounded id)
    (h : Milder t bounded s u) (hs : Filing t listed bounded ttl T s) :
    Filing t listed bounded ttl T u := by
  refine ⟨fun id x hl hx hr => ?_,fun id x hb hx hr => ?_,fun z d hz hd => ?_⟩
  · obtain ⟨y,hy,hyr,-⟩ := h.entries id x (hsub id hl) hx hr
    obtain ⟨z,hz,hid⟩ := hs.listed id y hl hy hyr
    obtain ⟨z',hz',-,hnames⟩ := h.index z hz
    exact ⟨z',hz',hnames hid⟩
  · obtain ⟨y,hy,hyr,hxy⟩ := h.entries id x hb hx hr
    rw [hxy,h.now]
    exact hs.bounded id y hb hy hyr
  · obtain ⟨y,hy,hyd⟩ := h.deadline z d hz hd
    exact hs.lasting y d hy hyd

theorem Filing.tick {now : Int} (hnow : s.now ≤ now) (hT : now ≤ T)
    (hs : Filing t listed bounded ttl T s) : Filing t listed bounded ttl T (s.at now) := by
  refine ⟨fun id x hl hx hr => ?_,fun id x hb hx hr => ?_,fun z d hz hd => ?_⟩
  · obtain ⟨z,hz,hid⟩ := hs.listed id x hl (Option.filter_eq_some_iff.1 hx).1 hr
    refine ⟨z,Option.filter_eq_some_iff.2 ⟨hz,?_⟩,hid⟩
    unfold Timed.aliveAt
    split
    · rfl
    · rename_i d hd
      have hlast := hs.lasting z d hz hd
      exact decide_eq_true (by omega)
  · obtain ⟨d,hd,hle⟩ := hs.bounded id x hb (Option.filter_eq_some_iff.1 hx).1 hr
    exact ⟨d,hd,hle.trans (by simp only [Redis.at]; omega)⟩
  · exact hs.lasting z d (Option.filter_eq_some_iff.1 hz).1 hd

theorem Filing.ran {u : Redis} (hsub : ∀ id,listed id → bounded id)
    (hs : Filing t listed bounded ttl T s) (hrun : Ran s tr u) (hT : u.now ≤ T)
    (hquiet : ∀ e ∈ tr,Quiet t bounded e.op) : Filing t listed bounded ttl T u :=
  quiet_ran (I := fun s => s.now ≤ T → Filing t listed bounded ttl T s)
    (fun _ _ h hI hle => (hI (h.now ▸ hle)).mild hsub h)
    (fun _ _ hnow hI hle => (hI (hnow.trans hle)).tick hnow hle) hrun hquiet (fun _ => hs) hT

theorem one_le_formatSec (hpos : 0 < ttl) : 1 ≤ formatSec ttl := by
  unfold formatSec
  split
  · exact le_refl 1
  · rw [Int.tdiv_eq_ediv_of_nonneg hpos.le]
    omega

theorem Filing.expireEntry {id : String} (hpos : 0 < ttl) (hid : ¬listed id)
    (hs : Filing t listed listed ttl T s) :
    Filing t listed (fun j => listed j ∨ j = id) ttl T (s.after (.expire (.entry id) ttl)) := by
  have hquiet : Milder t listed s (s.after (.expire (.entry id) ttl)) := milder_after hid
  have hkept := hs.mild (fun _ h => h) hquiet
  refine ⟨hkept.listed,fun j x hj hx hr => ?_,hkept.lasting⟩
  by_cases hl : listed j
  · exact hkept.bounded j x hl hx hr
  · obtain rfl : j = id := hj.resolve_left hl
    have hsec := one_le_formatSec hpos
    simp only [Redis.after,Redis.expire,if_neg (show ¬formatSec ttl ≤ 0 by omega),
      Redis.setDeadline,Function.update_self] at hx
    obtain ⟨y,-,rfl⟩ := Option.map_eq_some_iff.1 hx
    exact ⟨_,rfl,by rw [after_now]⟩

theorem Filing.zAdd (id : String) (score : ℚ)
    (hsub : ∀ j,listed j → bounded j) (hs : Filing t listed bounded ttl T s) :
    Filing t (fun j => listed j ∨ j = id) bounded ttl T (s.after (.zAdd (.team t) score id)) := by
  have hkept := hs.mild hsub (milder_zAdd s (.team t) score id)
  refine ⟨fun j x hj hx hr => ?_,hkept.bounded,hkept.lasting⟩
  obtain hl | rfl := hj
  · exact hkept.listed j x hl hx hr
  · exact ⟨_,setMembers_index (zAdd_ne_nil _ _ _),names_zAdd _ score j List.mem_cons_self⟩

theorem Filing.expireIndex (hpos : 0 < ttl) (hs : Filing t bounded bounded ttl T s) :
    Covered t bounded (s.after (.expire (.zset (.team t)) ttl)) := by
  have hsec := one_le_formatSec hpos
  have hafter : s.after (.expire (.zset (.team t)) ttl) =
      s.setDeadline (.zset (.team t)) (s.now+1000*formatSec ttl) :=
    if_neg (show ¬formatSec ttl ≤ 0 by omega)
  rw [hafter]
  intro id x hb hx hr
  obtain ⟨z,hz,hid⟩ := hs.listed id x hb hx hr
  obtain ⟨d,hd,hle⟩ := hs.bounded id x hb hx hr
  refine ⟨⟨z.value,some (s.now+1000*formatSec ttl)⟩,by simp [Redis.setDeadline,hz],hid,?_⟩
  intro d' hd'
  obtain rfl := Option.some.inj hd'
  exact ⟨d,hd,hle⟩

end Filing

theorem pipeline_returns {ops : List Op} (h : (pipeline ops).Returns tr (.ok ())) :
    tr.map Event.op = ops ∧ ∀ e ∈ tr,executed e = true := by
  induction ops generalizing tr with
  | nil =>
    obtain ⟨rfl,-⟩ := returns_pure.1 h
    exact ⟨rfl,by simp⟩
  | cons op ops ih =>
    obtain ⟨r,tr₂,rfl,h₂⟩ := returns_perform_bind.1 h
    obtain ⟨tr₃,rest,tr₄,rfl,h₃,h₄⟩ := returns_bind.1 h₂
    cases r with
    | error f => simp at h₄
    | ok r =>
      obtain ⟨rfl,rfl⟩ := returns_pure.1 h₄
      obtain ⟨hops,hex⟩ := ih h₃
      refine ⟨by simp [hops],fun e he => ?_⟩
      simp only [List.append_nil,List.singleton_append,List.mem_cons] at he
      obtain rfl | he := he
      · rfl
      · exact hex e he

section Put

variable {cfg : StoreConfig} {k : Key} {e : Entry} {ttl clock : Int} {tr : List (Event Op Ans)}
  {s u : Redis} {own : String → Prop} {t : String}

theorem trimScope_quiet : (trimScope cfg k).Calls (Quiet t own) := by
  refine trimScope_calls trivial (fun _ => trivial) (fun ids ks hks hmem => ?_) (fun _ => ?_) cfg
  · simpa using hks hmem
  · simp [Quiet]

/-- A Put without an error: its pipeline, every command executed, then its trim. -/
theorem put_trims (h : (put cfg k e ttl clock).Returns tr (.ok ())) :
    ∃ a b,tr = a ++ b ∧ a.map Event.op = putCommands cfg k e (e.createdAt.getD clock) ttl ∧
      (∀ x ∈ a,executed x = true) ∧
      ((k.scopeID = "" ∧ b = []) ∨ k.scopeID ≠ "" ∧ ∃ r,(trimScope cfg k).Returns b r) := by
  obtain ⟨a,_,b,rfl,h₁,h₂⟩ := returns_orFail h
  obtain ⟨hops,hex⟩ := pipeline_returns h₁
  refine ⟨a,b,rfl,hops,hex,?_⟩
  split at h₂
  · rename_i hscope
    obtain ⟨c,r,_,rfl,h₃,h₄⟩ := returns_bind.1 h₂
    obtain ⟨rfl,-⟩ := returns_pure.1 h₄
    rw [List.append_nil]
    exact .inr ⟨hscope,r,h₃⟩
  · rename_i hscope
    exact .inl ⟨not_not.1 hscope,(returns_pure.1 h₂).1⟩

theorem put_returns (h : (put cfg k e ttl clock).Returns tr (.ok ())) :
    ∃ a b,tr = a ++ b ∧ a.map Event.op = putCommands cfg k e (e.createdAt.getD clock) ttl ∧
      (∀ x ∈ a,executed x = true) ∧ ∀ t own,∀ x ∈ b,Quiet t own x.op := by
  obtain ⟨a,b,rfl,hops,hex,htrim⟩ := put_trims h
  refine ⟨a,b,rfl,hops,hex,fun t own => ?_⟩
  obtain ⟨-,rfl⟩ | ⟨-,r,hret⟩ := htrim
  · simp
  · exact hret.calls trimScope_quiet

theorem put_quiet (hteam : k.teamID ≠ t) (hid : ¬own k.entryID) :
    (put cfg k e ttl clock).Calls (Quiet t own) := by
  refine calls_orFail (pipeline_calls fun op hop => ?_) fun _ => ?_
  · simp only [putCommands,List.mem_append,List.mem_cons,List.not_mem_nil,or_false] at hop
    obtain ((rfl | rfl | rfl | rfl | rfl) | hop) | hop := hop
    · exact hid
    · exact hid
    · trivial
    · simp [Quiet]
    · simp [Quiet]
    · split at hop
      · obtain rfl | rfl := by simpa using hop
        · trivial
        · simpa [Quiet] using hteam
      · simp at hop
    · split at hop
      · obtain rfl := by simpa using hop
        trivial
      · simp at hop
  · split
    · exact calls_bind trimScope_quiet fun _ => calls_pure _
    · exact calls_pure _

theorem put_covers (hteam : k.teamID ≠ "") (hpos : 0 < ttl)
    (hret : (put cfg k e ttl clock).Returns tr (.ok ())) (hrun : Ran s tr u)
    (hid : ¬own k.entryID) (hs : Filing k.teamID own own ttl u.now s) :
    Covered k.teamID (fun j => own j ∨ j = k.entryID) u := by
  obtain ⟨a,b,rfl,hops,hex,hb⟩ := put_returns hret
  simp only [putCommands,ne_eq,hteam,not_false_iff,ite_true,List.cons_append,
    List.nil_append] at hops
  obtain ⟨e₁,a,rfl,hop₁,hops⟩ := List.map_eq_cons_iff.1 hops
  obtain ⟨e₂,a,rfl,hop₂,hops⟩ := List.map_eq_cons_iff.1 hops
  obtain ⟨e₃,a,rfl,hop₃,hops⟩ := List.map_eq_cons_iff.1 hops
  obtain ⟨e₄,a,rfl,hop₄,hops⟩ := List.map_eq_cons_iff.1 hops
  obtain ⟨e₅,a,rfl,hop₅,hops⟩ := List.map_eq_cons_iff.1 hops
  obtain ⟨e₆,a,rfl,hop₆,hops⟩ := List.map_eq_cons_iff.1 hops
  obtain ⟨e₇,a,rfl,hop₇,hops⟩ := List.map_eq_cons_iff.1 hops
  simp only [List.mem_cons,forall_eq_or_imp] at hex
  obtain ⟨-,hex₂,-,-,-,hex₆,hex₇,-⟩ := hex
  have hsub : ∀ j,own j → own j ∨ j = k.entryID := fun _ => .inl
  -- HSET and then the entry's EXPIRE
  obtain ⟨m₁,hrun₁,hrun⟩ := ran_append (a := [e₁]) hrun
  obtain ⟨m₂,hidle₂,-,hrun⟩ := ran_cons hrun hex₂
  rw [hop₂] at hrun
  have hnow₂ : m₂.now ≤ u.now := after_now m₂ _ ▸ ran_now hrun
  have h₁ := hs.ran (fun _ h => h) hrun₁ ((ran_now hidle₂).trans hnow₂)
    (by simpa [hop₁,Quiet] using hid)
  have h₂ := (h₁.ran (fun _ h => h) hidle₂ hnow₂ (by simp)).expireEntry hpos hid
  -- the fingerprint's index, then the team's
  obtain ⟨m₅,hrun₅,hrun⟩ := ran_append (a := [e₃,e₄,e₅]) hrun
  obtain ⟨m₆,hidle₆,-,hrun⟩ := ran_cons hrun hex₆
  obtain ⟨m₇,hidle₇,-,hrun⟩ := ran_cons hrun hex₇
  rw [hop₇] at hrun
  rw [hop₆] at hidle₇
  have hnow₇ : m₇.now ≤ u.now := after_now m₇ _ ▸ ran_now hrun
  have hnow₆ : m₆.now ≤ u.now := (after_now m₆ _ ▸ ran_now hidle₇).trans hnow₇
  have h₅ := h₂.ran hsub hrun₅ ((ran_now hidle₆).trans hnow₆) (by simp [hop₃,hop₄,hop₅,Quiet])
  have h₆ := (h₅.ran hsub hidle₆ hnow₆ (by simp)).zAdd k.entryID
    (Binary64.round (e.createdAt.getD clock)) hsub
  have h₇ := (h₆.ran (fun _ h => h) hidle₇ hnow₇ (by simp)).expireIndex hpos
  refine h₇.ran hrun fun x hx => ?_
  obtain hx | hx := List.mem_append.1 hx
  · have hscope : x.op ∈ a.map Event.op := List.mem_map_of_mem hx
    rw [hops] at hscope
    split at hscope
    · obtain hop := by simpa using hscope
      simp [hop,Quiet]
    · simp at hscope
  · exact hb _ _ x hx

end Put

end Switchyard.Cache
