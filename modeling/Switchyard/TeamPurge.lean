import Switchyard.TeamIndex
set_option autoImplicit false

/-!
Purging a team's entries (internal/cache/purge.go) after any sequence of cache
operations made one after another.
-/

namespace Switchyard.Cache
open GoText RedisData CallTree

variable {s : Redis}

theorem Shrinks.absent {u : Redis} {id : String} (h : Shrinks s u) (hs : s.entries id = none) :
    u.entries id = none := by
  cases hu : u.entries id with
  | none => rfl
  | some x =>
    obtain ⟨y,hy,-⟩ := h.entries id x hu
    simp [hs] at hy

theorem deleteAll_entry {keys : List RKey} {id : String} (h : .entry id ∈ keys) :
    (keys.foldl Redis.delete s).entries id = none := by
  induction keys generalizing s with
  | nil => simp at h
  | cons key keys ih =>
    obtain rfl | h := List.mem_cons.1 h
    · exact (shrinks_deleteAll _ keys).absent (by simp [Redis.delete])
    · exact ih h

theorem deleteKeys_sheds (rounds : Nat) (keys : List RKey) (total : Int) :
    (deleteKeys rounds keys total).Calls Shedding :=
  deleteKeys_calls (fun ks _ s => shrinks_deleteAll s ks) rounds total

theorem deleteKeys_ran {rounds : Nat} {keys : List RKey} {total n : Int}
    {tr : List (Event Op Ans)} {u : Redis} (hlen : keys.length ≤ rounds)
    (hret : (deleteKeys rounds keys total).Returns tr (.ok n)) (hrun : Ran s tr u) {id : String}
    (hid : .entry id ∈ keys) : u.entries id = none := by
  induction rounds generalizing keys total tr s with
  | zero =>
    obtain rfl := List.length_eq_zero_iff.1 (Nat.le_zero.1 hlen)
    simp at hid
  | succ rounds ih =>
    unfold deleteKeys at hret
    rw [if_neg (List.ne_nil_of_mem hid)] at hret
    obtain ⟨tr₁,a,tr₂,rfl,h₁,h₂⟩ := returns_orFail hret
    obtain rfl := returns_perform.1 h₁
    obtain ⟨m,-,-,hrest⟩ := ran_cons hrun rfl
    rw [← List.take_append_drop 200 keys] at hid
    obtain hid | hid := List.mem_append.1 hid
    · exact (shrinks_ran hrest (h₂.calls (deleteKeys_sheds _ _ _))).absent (deleteAll_entry hid)
    · refine ih ?_ h₂ hrest hid
      have hpos : 0 < keys.length := List.length_pos_of_mem (List.mem_of_mem_drop hid)
      simp only [List.length_drop]
      omega

section Purge

variable {t : String} {own : String → Prop} {tr : List (Event Op Ans)} {s u : Redis}

def Unread (own : String → Prop) (s : Redis) : Prop :=
  ∀ id x,own id → s.entries id = some x → ¬Readable x.value

theorem Unread.covered (h : Unread own s) : Covered t own s :=
  fun id x ho hx hr => absurd hr (h id x ho hx)

theorem Unread.shrinks (h : Unread own s) (hsu : Shrinks s u) : Unread own u := by
  intro id x ho hx hr
  obtain ⟨y,hy,hxy⟩ := hsu.entries id x hx
  exact h id y ho hy (hxy ▸ hr)

theorem deleteEntries_quiet (ids : List String) : (deleteEntries ids).Calls (Quiet t own) := by
  refine deleteKeys_calls (fun ks hks hmem => ?_) _ _
  simpa using hks hmem

variable {x : Except String PurgeResult}

theorem purgeTeam_ran (hret : (purgeTeam t).Returns tr x)
    (hrun : Ran s tr u) (hs : Covered t own s) :
    Covered t own u ∧ ∀ r,x = .ok r → Unread own u := by
  unfold purgeTeam at hret
  split at hret
  · obtain ⟨rfl,rfl⟩ := returns_pure.1 hret
    exact ⟨hs.ran hrun (by simp),by simp⟩
  obtain ⟨f,h₁,rfl⟩ | ⟨tr₁,ids,tr₀,rfl,h₁,hret₀⟩ := returns_orFail_cases hret
  · exact ⟨hs.ran hrun (h₁.calls (calls_perform.2 trivial)),by simp⟩
  obtain rfl := returns_perform.1 h₁
  obtain ⟨m,hidle,hreply,hrun₀⟩ := ran_cons hrun rfl
  have hids : ids = (m.members (.team t)).map Prod.snd := by
    rw [← slice_all (m.members (.team t))]
    exact hreply ids rfl
  have hm : Covered t own m := hs.ran hidle (by simp)
  obtain ⟨f,h₂,rfl⟩ | ⟨tr₂,n,tr₃,rfl,h₂,hret₃⟩ := returns_orFail_cases hret₀
  · exact ⟨hm.ran hrun₀ (h₂.calls (deleteEntries_quiet ids)),by simp⟩
  obtain ⟨m₂,hrun₂,hrun₃⟩ := ran_append (show Ran m (tr₂ ++ tr₃) u from hrun₀)
  have hgone : Unread own m₂ := by
    intro id y ho hy hr
    have hsheds := shrinks_ran hrun₂ (h₂.calls (deleteKeys_sheds _ _ _))
    obtain ⟨w,hw,hyw⟩ := hsheds.entries id y hy
    obtain ⟨z,hz,hid,-⟩ := hm id w ho hw (hyw ▸ hr)
    have hlisted : id ∈ ids := by
      rw [hids]
      simpa [Redis.members,hz] using hid
    have habsent := deleteKeys_ran (by simp) h₂ hrun₂ (List.mem_map_of_mem hlisted)
    simp [habsent] at hy
  have hlast : ∀ e ∈ tr₃,Shedding e.op := by
    refine hret₃.calls (calls_orFail (calls_perform.2 ?_) fun _ => calls_pure _)
    exact fun s => shrinks_deleteAll s _
  have hend := hgone.shrinks (shrinks_ran hrun₃ hlast)
  exact ⟨hend.covered,fun _ _ => hend⟩

def listing : Event Op Ans → List RKey
  | ⟨.scan _ (.entries _),.ok r⟩ => r.1
  | _ => []

theorem scanKeys_ran {rounds cursor : Nat} {pattern : Pattern} {keys out : List RKey}
    (hret : (scanKeys rounds pattern cursor keys).Returns tr (.ok out)) (hrun : Ran s tr u) :
    (∀ k ∈ out,k ∈ keys ∨ pattern.matches k = true) ∧ keys ⊆ out ∧
      ∀ e ∈ tr,listing e ⊆ out := by
  induction rounds generalizing cursor keys tr s with
  | zero =>
    obtain ⟨rfl,hout⟩ := returns_pure.1 hret
    obtain rfl := Except.ok.inj hout
    exact ⟨fun _ => .inl,List.Subset.refl _,by simp⟩
  | succ rounds ih =>
    obtain ⟨tr₁,r,tr₂,rfl,h₁,h₂⟩ := returns_orFail hret
    obtain rfl := returns_perform.1 h₁
    obtain ⟨m,-,hreply,hrest⟩ := ran_cons hrun rfl
    have hmatch : ∀ k ∈ r.1,pattern.matches k = true := fun k hk => (hreply r rfl k hk).2
    have hlist : listing ⟨.scan cursor pattern,.ok r⟩ ⊆ r.1 := by
      cases pattern <;> simp [listing]
    split at h₂
    · obtain ⟨rfl,hout⟩ := returns_pure.1 h₂
      obtain rfl := Except.ok.inj hout
      refine ⟨fun k hk => (List.mem_append.1 hk).imp id (hmatch k),List.subset_append_left _ _,?_⟩
      simpa using List.Subset.trans hlist (List.subset_append_right _ _)
    · obtain ⟨hout,hkeys,hlisted⟩ := ih h₂ hrest
      refine ⟨fun k hk => ?_,List.Subset.trans (List.subset_append_left _ _) hkeys,?_⟩
      · obtain hk | hk := hout k hk
        · exact (List.mem_append.1 hk).imp id (hmatch k)
        · exact .inr hk
      · intro e he
        obtain rfl | he := List.mem_cons.1 he
        · exact List.Subset.trans hlist (List.Subset.trans (List.subset_append_right _ _) hkeys)
        · exact hlisted e he

theorem scanKeys_quiet (rounds : Nat) (pattern : Pattern) :
    (scanKeys rounds pattern 0 []).Calls (Quiet t own) :=
  scanKeys_calls (fun _ => trivial) rounds 0 []

theorem deleteFound_quiet {rounds rounds' : Nat} {idPrefix : String} {out : List RKey} {n : Int}
    (hret : (scanKeys rounds (.entries idPrefix) 0 []).Returns tr (.ok out)) (hrun : Ran s tr u) :
    (deleteKeys rounds' out n).Calls (Quiet t own) := by
  refine deleteKeys_calls (fun ks hks hmem => ?_) _ _
  simpa [Pattern.matches] using (scanKeys_ran hret hrun).1 _ (hks hmem)

theorem purgePrefix_ran {rounds : Nat} {idPrefix : String}
    (hret : (purgePrefix rounds idPrefix).Returns tr x) (hrun : Ran s tr u) (hs : Covered t own s) :
    Covered t own u := by
  unfold purgePrefix at hret
  split at hret
  · obtain ⟨rfl,-⟩ := returns_pure.1 hret
    exact hs.ran hrun (by simp)
  obtain ⟨_,h₁,-⟩ | ⟨tr₁,keys,tr₂,rfl,h₁,hret₂⟩ := returns_orFail_cases hret
  · exact hs.ran hrun (h₁.calls (scanKeys_quiet _ _))
  obtain ⟨m,hrun₁,hrun₂⟩ := ran_append hrun
  have hm : Covered t own m := hs.ran hrun₁ (h₁.calls (scanKeys_quiet _ _))
  refine hm.ran hrun₂ (hret₂.calls ?_)
  exact calls_orFail (deleteFound_quiet h₁ hrun₁) fun _ => calls_pure _

def Unlisting (op : Op) : Prop := ∀ cursor idPrefix,op ≠ .scan cursor (.entries idPrefix)

theorem Unlisting.listing {e : Event Op Ans} (h : Unlisting e.op) : listing e = [] := by
  unfold Cache.listing
  split
  · exact absurd rfl (h _ _)
  · rfl

/-- PurgeAll fails and keeps the cover, or leaves no entry, if its SCANs missed none
that is still there. -/
theorem purgeAll_cases {rounds : Nat} (hret : (purgeAll rounds).Returns tr x) (hrun : Ran s tr u)
    (hscan : ∀ id,u.entries id ≠ none → ∃ e ∈ tr,.entry id ∈ listing e) (hs : Covered t own s) :
    ((∃ e,x = .error e) ∧ Covered t own u) ∨ ∀ id,u.entries id = none := by
  obtain ⟨_,h₁,hx⟩ | ⟨tr₁,entries,rest₁,rfl,h₁,hret₁⟩ := returns_orFail_cases hret
  · exact .inl ⟨⟨_,hx⟩,hs.ran hrun (h₁.calls (scanKeys_quiet _ _))⟩
  obtain ⟨m₁,hrun₁,hgo₁⟩ := ran_append hrun
  have hs₁ := hs.ran hrun₁ (h₁.calls (scanKeys_quiet _ _))
  have hfound : ∀ id,u.entries id ≠ none → .entry id ∈ entries := by
    intro id hu
    obtain ⟨e,he,hid⟩ := hscan id hu
    obtain he | he := List.mem_append.1 he
    · exact (scanKeys_ran h₁ hrun₁).2.2 e he hid
    · have hother : Unlisting e.op := by
        refine hret₁.calls ?_ e he
        refine calls_orFail (scanKeys_calls (fun _ => by simp [Unlisting]) _ _ _) fun _ => ?_
        refine calls_orFail (scanKeys_calls (fun _ => by simp [Unlisting]) _ _ _) fun _ => ?_
        refine calls_orFail (scanKeys_calls (fun _ => by simp [Unlisting]) _ _ _) fun _ => ?_
        refine calls_orFail (deleteKeys_calls (fun _ _ => by simp [Unlisting]) _ _) fun _ => ?_
        exact calls_orFail (deleteKeys_calls (fun _ _ => by simp [Unlisting]) _ _) fun _ =>
          calls_pure _
      simp [hother.listing] at hid
  obtain ⟨_,h₂,hx⟩ | ⟨tr₂,indexes,rest₂,rfl,h₂,hret₂⟩ := returns_orFail_cases hret₁
  · exact .inl ⟨⟨_,hx⟩,hs₁.ran hgo₁ (h₂.calls (scanKeys_quiet _ _))⟩
  obtain ⟨m₂,hrun₂,hgo₂⟩ := ran_append hgo₁
  have hs₂ := hs₁.ran hrun₂ (h₂.calls (scanKeys_quiet _ _))
  obtain ⟨_,h₃,hx⟩ | ⟨tr₃,teams,rest₃,rfl,h₃,hret₃⟩ := returns_orFail_cases hret₂
  · exact .inl ⟨⟨_,hx⟩,hs₂.ran hgo₂ (h₃.calls (scanKeys_quiet _ _))⟩
  obtain ⟨m₃,hrun₃,hgo₃⟩ := ran_append hgo₂
  have hs₃ := hs₂.ran hrun₃ (h₃.calls (scanKeys_quiet _ _))
  obtain ⟨_,h₄,hx⟩ | ⟨tr₄,scopes,rest₄,rfl,h₄,hret₄⟩ := returns_orFail_cases hret₃
  · exact .inl ⟨⟨_,hx⟩,hs₃.ran hgo₃ (h₄.calls (scanKeys_quiet _ _))⟩
  obtain ⟨m₄,hrun₄,hgo₄⟩ := ran_append hgo₃
  have hs₄ := hs₃.ran hrun₄ (h₄.calls (scanKeys_quiet _ _))
  obtain ⟨_,h₅,hx⟩ | ⟨tr₅,n,rest₅,rfl,h₅,hret₅⟩ := returns_orFail_cases hret₄
  · exact .inl ⟨⟨_,hx⟩,hs₄.ran hgo₄ (h₅.calls (deleteFound_quiet h₁ hrun₁))⟩
  obtain ⟨m₅,hrun₅,hgo₅⟩ := ran_append hgo₄
  -- from here the indexes go too, but every entry found is deleted
  have hsheds := shrinks_ran hgo₅
    (hret₅.calls (calls_orFail (deleteKeys_sheds _ _ _) fun _ => calls_pure _))
  refine .inr fun id => by_contra fun hthere => ?_
  have habsent := deleteKeys_ran (le_refl _) h₅ hrun₅ (hfound id hthere)
  exact hthere (hsheds.absent habsent)

theorem purgeAll_ran {rounds : Nat} (hret : (purgeAll rounds).Returns tr x) (hrun : Ran s tr u)
    (hscan : ∀ id,u.entries id ≠ none → ∃ e ∈ tr,.entry id ∈ listing e) (hs : Covered t own s) :
    Covered t own u := by
  obtain ⟨-,hcovered⟩ | hgone := purgeAll_cases hret hrun hscan hs
  · exact hcovered
  · intro id y _ hy
    simp [hgone id] at hy

end Purge

/-- Redis without failures, as far as its replies are determined. -/
def Redis.answer (s : Redis) : (op : Op) → Ans op
  | .hGetAll id => .ok (s.hash id)
  | .hmGetEmbedding id => .ok ((s.hash id).get? "embedding")
  | .hSet _ _ => .ok ()
  | .hIncrBy id field n =>
    match incremented (s.hash id) field n with
    | none => .error ⟨"ERR hash value is not an integer",false⟩
    | some m => .ok m
  | .expire _ _ => .ok ()
  | .zAdd _ _ _ => .ok ()
  | .zRange key start stop => .ok ((slice (s.members key) start stop).map Prod.snd)
  | .zRevRange key start stop => .ok ((slice (s.members key).reverse start stop).map Prod.snd)
  | .zRemRangeByRank _ _ _ => .ok ()
  | .zRem _ _ => .ok ()
  | .zCard key => .ok (s.members key).length
  | .del keys => .ok (keys.dedup.filter fun k => s.has k).length
  | .scan _ _ => .ok ([],0)
  | .embed _ => .ok []

def Redis.serve (s : Redis) (op : Op) : Ans op × Redis :=
  (s.answer op,if executed ⟨op,s.answer op⟩ then s.after op else s)

theorem exec_serve (s : Redis) (op : Op) : Exec s ⟨op,(s.serve op).1⟩ (s.serve op).2 := by
  refine ⟨fun r hr => ?_,rfl⟩
  cases op with
  | hIncrBy id field n =>
    simp only [Redis.serve,Redis.answer] at hr
    split at hr
    · simp at hr
    · rename_i m hm
      rw [← Except.ok.inj hr]
      exact hm
  | hSet | expire | zAdd | zRemRangeByRank | zRem | embed => trivial
  | scan cursor pattern =>
    rw [← Except.ok.inj hr]
    simp [Redis.Replies]
  | hGetAll | hmGetEmbedding | zRange | zRevRange | zCard | del => exact (Except.ok.inj hr).symm

theorem ran_serve {α : Type} (p : Program α) (s : Redis) :
    Ran s (p.exec Redis.serve s).1 (p.exec Redis.serve s).2.2 :=
  served_exec 0 (I := fun _ => True)
    (fun s op _ => ⟨trivial,_,exec_serve s op,.inl rfl⟩) p trivial

theorem returns_serve {α : Type} {p : Program α} {s : Redis} {a : α}
    (h : (p.exec Redis.serve s).2.1 = a) : p.Returns (p.exec Redis.serve s).1 a ∧
      Ran s (p.exec Redis.serve s).1 (p.exec Redis.serve s).2.2 :=
  ⟨h ▸ returns_exec Redis.serve p s,ran_serve p s⟩

section Exact

variable {t id : String} {own : String → Prop} {s : Redis}

theorem deleteAll_other {keys : List RKey} (h : .entry id ∉ keys) :
    (keys.foldl Redis.delete s).entries id = s.entries id := by
  induction keys generalizing s with
  | nil => rfl
  | cons key keys ih =>
    simp only [List.mem_cons,not_or] at h
    refine (ih h.2).trans ?_
    cases key with
    | entry j => exact Function.update_of_ne (fun he => h.1 (by rw [he])) _ _
    | zset key => rfl

theorem deleteKeys_serve (rounds : Nat) {keys : List RKey} (total : Int) (h : .entry id ∉ keys) :
    ∃ n,((deleteKeys rounds keys total).exec Redis.serve s).2.1 = .ok n ∧
      ((deleteKeys rounds keys total).exec Redis.serve s).2.2.entries id = s.entries id := by
  induction rounds generalizing keys total s with
  | zero => exact ⟨total,rfl,rfl⟩
  | succ rounds ih =>
    unfold deleteKeys
    split
    · exact ⟨total,rfl,rfl⟩
    · have hrest : .entry id ∉ keys.drop 200 := fun hk => h (List.mem_of_mem_drop hk)
      obtain ⟨n,hn,hid⟩ := ih (s := s.after (.del (keys.take 200)))
        (total+((keys.take 200).dedup.filter fun k => s.has k).length) hrest
      exact ⟨n,hn,hid.trans (deleteAll_other fun hk => h (List.mem_of_mem_take hk))⟩

theorem purgeTeam_serve (ht : ¬(fields t).isEmpty) (hid : id ∉ (s.members (.team t)).map Prod.snd) :
    ∃ r,((purgeTeam t).exec Redis.serve s).2.1 = .ok r ∧
      ((purgeTeam t).exec Redis.serve s).2.2.entries id = s.entries id := by
  let ids := (slice (s.members (.team t)) 0 (-1)).map Prod.snd
  have hids : .entry id ∉ ids.map RKey.entry := by
    simpa [ids,slice_all] using hid
  obtain ⟨n,hn,hkept⟩ : ∃ n,((deleteEntries ids).exec Redis.serve s).2.1 = .ok n ∧
      ((deleteEntries ids).exec Redis.serve s).2.2.entries id = s.entries id :=
    deleteKeys_serve ids.length 0 hids
  have hread : ((perform (.zRange (.team t) 0 (-1)) : Program _).exec Redis.serve s).2 =
      (.ok ids,s) := rfl
  unfold purgeTeam
  rw [if_neg ht,exec_orFail (congrArg Prod.fst hread),hread,exec_orFail hn]
  exact ⟨_,rfl,hkept⟩

def Fresh (s : Redis) : Prop := ∀ key z,s.zsets key = some z → z.aliveAt s.now = true

theorem Fresh.update {key : ZKey} {v : Option (Timed ZSet)} (h : Fresh s)
    (hv : ∀ z,v = some z → z.aliveAt s.now = true) :
    Fresh { s with zsets := Function.update s.zsets key v } := by
  intro key' z hz
  by_cases hkey : key' = key
  · subst hkey
    simp only [Function.update_self] at hz
    exact hv z hz
  · simp only [Function.update_of_ne hkey] at hz
    exact h key' z hz

theorem Fresh.setMembers (h : Fresh s) (key : ZKey) (z : ZSet) : Fresh (s.setMembers key z) := by
  refine h.update fun y hy => ?_
  split at hy
  · simp at hy
  · obtain rfl := Option.some.inj hy
    cases hz : s.zsets key with
    | none => simp [Timed.aliveAt]
    | some w => exact h key w hz

theorem Fresh.delete (h : Fresh s) (key : RKey) : Fresh (s.delete key) := by
  cases key with
  | entry id => exact h
  | zset key => exact h.update (by simp)

theorem Fresh.after (h : Fresh s) (op : Op) : Fresh (s.after op) := by
  cases op with
  | hIncrBy id field n =>
    simp only [Redis.after]
    split <;> exact h
  | expire key ttl =>
    simp only [Redis.after,Redis.expire]
    split
    · exact h.delete key
    · cases key with
      | entry id => exact h
      | zset key =>
        refine h.update fun z hz => ?_
        obtain ⟨y,-,rfl⟩ := Option.map_eq_some_iff.1 hz
        exact decide_eq_true (by omega)
  | zAdd key score member => exact h.setMembers key _
  | zRemRangeByRank key start stop => exact h.setMembers key _
  | zRem key members => exact h.setMembers key _
  | del keys =>
    simp only [Redis.after]
    induction keys generalizing s with
    | nil => exact h
    | cons key keys ih => exact ih (h.delete key)
  | _ => exact h

theorem Fresh.ran {u : Redis} {tr : List (Event Op Ans)} (h : Fresh s) (hrun : Ran s tr u) :
    Fresh u := by
  refine hrun.keeps (P := fun _ => True) ?_ ?_ (fun _ _ => trivial) h
  · intro m x u hm _ hexec
    obtain ⟨-,rfl⟩ := hexec
    split
    · exact hm.after _
    · exact hm
  · intro m u _ htick key z hz
    obtain ⟨now,-,rfl⟩ := htick
    exact (Option.filter_eq_some_iff.1 hz).2

theorem unlisted_of_not_covered (hfresh : Fresh s) (h : ¬Covered t own s) :
    ∃ m id x,Ran s [] m ∧ own id ∧ m.entries id = some x ∧ Readable x.value ∧
      id ∉ (m.members (.team t)).map Prod.snd := by
  simp only [Covered,not_forall] at h
  obtain ⟨id,x,ho,hx,hr,hno⟩ := h
  by_cases hid : id ∈ (s.members (.team t)).map Prod.snd
  · obtain ⟨p,hp,hpid⟩ := List.mem_map.1 hid
    obtain ⟨z,hz,hpz⟩ := mem_members hp
    have hout : ¬Outlasts z.deadline x.deadline := by
      intro hout
      exact hno ⟨z,hz,hpid ▸ List.mem_map_of_mem hpz,hout⟩
    simp only [Outlasts,not_forall] at hout
    obtain ⟨d,hd,hlate⟩ := hout
    have hnow : s.now < d := by simpa [Timed.aliveAt,hd] using hfresh _ z hz
    have halive : x.aliveAt d = true := by
      unfold Timed.aliveAt
      split
      · rfl
      · rename_i d' hd'
        exact decide_eq_true (not_le.1 fun hle => hlate ⟨d',hd',hle⟩)
    -- the index goes at d, and the entry is still there
    refine ⟨s.at d,id,x,.env ⟨d,hnow.le,rfl⟩ (.done _),ho,?_,hr,?_⟩
    · exact Option.filter_eq_some_iff.2 ⟨hx,halive⟩
    · have hgone : (s.at d).zsets (.team t) = none := by simp [Redis.at,hz,Timed.aliveAt,hd]
      simp [Redis.members,hgone]
  · exact ⟨s,id,x,.done s,ho,hx,hr,hid⟩

/-- Where the index does not cover the team, a PurgeTeam may succeed and leave
an entry that can be read. -/
theorem purgeTeam_misses (ht : ¬(fields t).isEmpty) (hfresh : Fresh s) (h : ¬Covered t own s) :
    ∃ tr r u,(purgeTeam t).Returns tr (.ok r) ∧ Ran s tr u ∧ ¬Unread own u := by
  obtain ⟨m,id,x,hwait,ho,hx,hr,hid⟩ := unlisted_of_not_covered hfresh h
  obtain ⟨r,hret,hkept⟩ := purgeTeam_serve ht hid
  refine ⟨_,r,_,hret ▸ returns_exec Redis.serve (purgeTeam t) m,
    Served.append hwait (ran_serve (purgeTeam t) m),fun hun => ?_⟩
  exact hun id x ho (hkept.trans hx) hr

end Exact

theorem unread_iff {own : String → Prop} : Unread own s ↔
    ∀ id,own id → ∀ tr e u,(fetch id).Returns tr (.ok (some e)) → ¬Ran s tr u := by
  constructor
  · intro h id ho tr e u hret hrun
    obtain ⟨x,hx,hr⟩ := fetch_readable hret hrun
    exact h id x ho hx hr
  · intro h id x ho hx hr
    obtain ⟨e,he⟩ := hr
    have hread : s.hash id = x.value := by simp [Redis.hash,hx]
    exact h id ho _ e _ (fetch_decodes he) (.call (exec_ok hread.symm) (.done _))

inductive Call where
  | put (cfg : StoreConfig) (k : Key) (e : Entry) (ttl clock : Int) (pos : 0 < ttl)
  | recordHit (id : String)
  | purgeTeam (teamID : String)
  | purgePrefix (rounds : Nat) (idPrefix : String)
  | purgeAll (rounds : Nat)

def Call.program : Call → Program (Except String Unit)
  | .put cfg k e ttl clock _ => Cache.put cfg k e ttl clock
  | .recordHit id => Cache.recordHit id
  | .purgeTeam teamID => do
    let r ← Cache.purgeTeam teamID
    pure (r.map fun _ => ())
  | .purgePrefix rounds idPrefix => do
    let r ← Cache.purgePrefix rounds idPrefix
    pure (r.map fun _ => ())
  | .purgeAll rounds => do
    let r ← Cache.purgeAll rounds
    pure (r.map fun _ => ())

structure Done where
  call : Call
  before : Redis
  trace : List (Event Op Ans)
  result : Except String Unit
  after : Redis
  returns : call.program.Returns trace result
  ran : Ran before trace after

/-- Calls made one after another on a cache that was empty. -/
inductive Session : List Done → Redis → Prop where
  | start : Session [] .empty
  | next {ds : List Done} {d : Done} : Session ds d.before → Session (ds ++ [d]) d.after

def writes (id : String) (x : Event Op Ans) : Bool :=
  match x.op with
  | .hSet j _ => j == id && executed x
  | _ => false

/-- The team each entry was last put with, after one more call. -/
def Done.filed (last : String → Option String) (d : Done) : String → Option String :=
  match d.call with
  | .put _ k _ _ _ _ =>
    if d.trace.any (writes k.entryID) then Function.update last k.entryID (some k.teamID) else last
  | _ => last

def lastTeam (ds : List Done) : String → Option String := ds.foldl Done.filed fun _ => none

/-- A Put of team t whose TTL reaches at least as far as every other entry
of the team, and which is done before the index it found expires. -/
structure Reaches (t : String) (last : String → Option String) (d : Done) (id : String)
    (ttl : Int) : Prop where
  ttl : ∀ j x,last j = some t → j ≠ id → d.before.entries j = some x → Readable x.value →
    ∃ deadline,x.deadline = some deadline ∧ deadline ≤ d.before.now+1000*formatSec ttl
  lasting : ∀ z deadline,d.before.zsets (.team t) = some z → z.deadline = some deadline →
    d.after.now < deadline

/-- What keeps team t covered: Puts succeed and those of t reach far enough,
and the SCANs of PurgeAll list every entry that is there throughout. -/
def Cared (t : String) (last : String → Option String) (d : Done) : Prop :=
  match d.call with
  | .put _ k _ ttl _ _ => d.result = .ok () ∧ (k.teamID = t → Reaches t last d k.entryID ttl)
  | .purgeAll _ => ∀ id,d.after.entries id ≠ none → ∃ x ∈ d.trace,.entry id ∈ listing x
  | _ => True

def Careful (t : String) (ds : List Done) : Prop :=
  ∀ a d b,ds = a ++ d :: b → Cared t (lastTeam a) d

theorem put_writes {cfg : StoreConfig} {k : Key} {e : Entry} {ttl clock : Int}
    {tr : List (Event Op Ans)} (h : (put cfg k e ttl clock).Returns tr (.ok ())) :
    tr.any (writes k.entryID) = true := by
  obtain ⟨a,b,rfl,hops,hex,-⟩ := put_returns h
  simp only [putCommands,List.cons_append] at hops
  obtain ⟨x,a,rfl,hop,-⟩ := List.map_eq_cons_iff.1 hops
  have hx : writes k.entryID x = true := by
    unfold writes
    rw [hop]
    simpa using hex x (by simp)
  simp [hx]

theorem Reaches.filing {t id : String} {last : String → Option String} {d : Done} {ttl : Int}
    (h : Reaches t last d id ttl) (hs : Covered t (fun j => last j = some t) d.before) :
    Filing t (fun j => last j = some t ∧ j ≠ id) (fun j => last j = some t ∧ j ≠ id) ttl
      d.after.now d.before := by
  refine ⟨fun j x hj hx hr => ?_,fun j x hj hx hr => h.ttl j x hj.1 hj.2 hx hr,h.lasting⟩
  obtain ⟨z,hz,hid,-⟩ := hs j x hj.1 hx hr
  exact ⟨z,hz,hid⟩

theorem purgeTeam_quiet {t teamID : String} {own : String → Prop} (hteam : teamID ≠ t) :
    (purgeTeam teamID).Calls (Quiet t own) := by
  unfold purgeTeam
  split
  · exact calls_pure _
  · refine calls_orFail (calls_perform.2 trivial) fun ids => ?_
    refine calls_orFail (deleteEntries_quiet ids) fun _ => ?_
    exact calls_orFail (calls_perform.2 (by simpa [Quiet] using Ne.symm hteam)) fun _ =>
      calls_pure _

theorem cared_covered {t : String} {last : String → Option String} {d : Done} (ht : t ≠ "")
    (hcare : Cared t last d) (hs : Covered t (fun j => last j = some t) d.before) :
    Covered t (fun j => d.filed last j = some t) d.after := by
  obtain ⟨call,before,trace,result,after,hret,hrun⟩ := d
  cases call with
  | put cfg k e ttl clock pos =>
    obtain ⟨hres,hreach⟩ := hcare
    simp only at hres hreach hs
    subst hres
    simp only [Done.filed,put_writes hret,ite_true]
    by_cases hteam : k.teamID = t
    · subst hteam
      have hfiling := (hreach rfl).filing hs
      refine (put_covers ht pos hret hrun (by simp) hfiling).anti fun j hj => ?_
      by_cases hid : j = k.entryID
      · exact .inr hid
      · exact .inl ⟨by simpa [Function.update_of_ne hid] using hj,hid⟩
    · have hsub : ∀ j,Function.update last k.entryID (some k.teamID) j = some t →
          last j = some t := by
        intro j hj
        by_cases hid : j = k.entryID
        · subst hid
          simp [hteam] at hj
        · simpa [Function.update_of_ne hid] using hj
      exact (hs.anti hsub).ran hrun (hret.calls (put_quiet hteam (by simpa using hteam)))
  | recordHit id =>
    exact hs.ran hrun (hret.calls (calls_orFail (calls_perform.2 rfl) fun _ => calls_pure _))
  | purgeTeam teamID =>
    obtain ⟨tr,r,_,rfl,h₁,h₂⟩ := returns_bind.1 hret
    obtain ⟨rfl,-⟩ := returns_pure.1 h₂
    rw [List.append_nil] at hrun
    by_cases hteam : teamID = t
    · subst hteam
      exact (purgeTeam_ran h₁ hrun hs).1
    · exact hs.ran hrun (h₁.calls (purgeTeam_quiet hteam))
  | purgePrefix rounds idPrefix =>
    obtain ⟨tr,r,_,rfl,h₁,h₂⟩ := returns_bind.1 hret
    obtain ⟨rfl,-⟩ := returns_pure.1 h₂
    rw [List.append_nil] at hrun
    exact purgePrefix_ran h₁ hrun hs
  | purgeAll rounds =>
    obtain ⟨tr,r,_,rfl,h₁,h₂⟩ := returns_bind.1 hret
    obtain ⟨rfl,-⟩ := returns_pure.1 h₂
    simp only [Cared,List.append_nil] at hcare hrun
    exact purgeAll_ran h₁ hrun hcare hs

theorem lastTeam_snoc (ds : List Done) (d : Done) :
    lastTeam (ds ++ [d]) = d.filed (lastTeam ds) := by
  simp [lastTeam]

theorem session_covered {t : String} {ds : List Done} (ht : t ≠ "")
    (hrun : Session ds s) (hcare : Careful t ds) :
    Covered t (fun j => lastTeam ds j = some t) s := by
  induction hrun with
  | start => simp [Covered,Redis.empty]
  | @next ds d _ ih =>
    have hbefore := ih fun a d' b hsplit => hcare a d' (b ++ [d]) (by simp [hsplit])
    rw [lastTeam_snoc]
    exact cared_covered ht (hcare ds d [] rfl) hbefore

theorem session_fresh {ds : List Done} (hrun : Session ds s) : Fresh s := by
  induction hrun with
  | start => simp [Fresh,Redis.empty]
  | @next ds d _ ih => exact ih.ran d.ran

/-- Every PurgeTeam(t) that succeeds from here on leaves no entry last put by t
to be read. -/
def PurgeComplete (t : String) (own : String → Prop) (s : Redis) : Prop :=
  ∀ tr r u,(purgeTeam t).Returns tr (.ok r) → Ran s tr u →
    ∀ id,own id → ∀ tr' e u',(fetch id).Returns tr' (.ok (some e)) → ¬Ran u tr' u'

/-- After any session, PurgeTeam is complete exactly when the team's index
covers its entries (a blank team is refused); with care it does. -/
theorem purge_complete_iff {t : String} {ds : List Done} {s : Redis} (hrun : Session ds s) :
    (PurgeComplete t (fun j => lastTeam ds j = some t) s ↔
      (fields t).isEmpty = true ∨ Covered t (fun j => lastTeam ds j = some t) s) ∧
    (Careful t ds → PurgeComplete t (fun j => lastTeam ds j = some t) s) := by
  have hcovered : Covered t (fun j => lastTeam ds j = some t) s →
      PurgeComplete t (fun j => lastTeam ds j = some t) s :=
    fun hs tr r u hret hpurge => unread_iff.1 ((purgeTeam_ran hret hpurge hs).2 r rfl)
  have hblank : (fields t).isEmpty = true →
      PurgeComplete t (fun j => lastTeam ds j = some t) s := by
    intro hb tr r u hret
    simp [purgeTeam,hb] at hret
  refine ⟨⟨fun hcomplete => ?_,fun h => h.elim hblank hcovered⟩,fun hcare => ?_⟩
  · by_cases hb : (fields t).isEmpty = true
    · exact .inl hb
    · refine .inr (by_contra fun hno => ?_)
      obtain ⟨tr,r,u,hret,hpurge,hread⟩ := purgeTeam_misses hb (session_fresh hrun) hno
      exact hread (unread_iff.2 (hcomplete tr r u hret hpurge))
  · by_cases ht : t = ""
    · exact hblank (by rw [ht]; decide +kernel)
    · exact hcovered (session_covered ht hrun hcare)

def Call.done (c : Call) (s : Redis) : Done where
  call := c
  before := s
  trace := (c.program.exec Redis.serve s).1
  result := (c.program.exec Redis.serve s).2.1
  after := (c.program.exec Redis.serve s).2.2
  returns := returns_exec Redis.serve c.program s
  ran := ran_serve c.program s

def teamKey (id : String) : Key := ⟨"f","q",id,"t",""⟩

def teamEntry : Entry := ⟨"answer",.stop,1,1,"m","p",some 0,0,[]⟩

def teamPut (id : String) (seconds : Nat) : Call :=
  .put ⟨100,1000⟩ (teamKey id) teamEntry (1000000000*(seconds+1)) 0 (by omega)

def longPut : Done := (teamPut "a" 99).done .empty

def shortPut : Done := (teamPut "b" 0).done longPut.after

theorem longPut_session : Session [longPut] longPut.after :=
  .next (show Session [] longPut.before from .start)

def equalPut : Done := (teamPut "b" 99).done longPut.after

theorem longPut_filed {j : String} (h : lastTeam [longPut] j = some "t") : j = "a" := by
  by_contra hne
  change (if longPut.trace.any (writes "a") then Function.update (fun _ => none) "a" (some "t")
    else fun _ => none) j = some "t" at h
  split at h <;> simp [hne] at h

/-- Two Puts of team t with the same lifetime. -/
theorem purge_complete_two_puts :
    let ds := [longPut,equalPut]
    Careful "t" ds ∧ lastTeam ds "a" = some "t" ∧ lastTeam ds "b" = some "t" ∧
      PurgeComplete "t" (fun j => lastTeam ds j = some "t") equalPut.after := by
  intro ds
  have hfirst : Cared "t" (lastTeam []) longPut := by
    refine ⟨by decide +kernel,fun _ => ⟨fun j x hlast => ?_,fun z deadline hz => ?_⟩⟩
    · simp [lastTeam] at hlast
    · simp [longPut,Call.done,Redis.empty] at hz
  have hsecond : Cared "t" (lastTeam [longPut]) equalPut := by
    refine ⟨by decide +kernel,fun _ => ⟨fun j x hlast _ hx _ => ?_,fun z deadline hz hd => ?_⟩⟩
    · obtain rfl := longPut_filed hlast
      exact ⟨100000,Timed.deadline_of_bind (by decide +kernel) hx,by decide +kernel⟩
    · have hindex : z.deadline = some 100000 := Timed.deadline_of_bind (by decide +kernel) hz
      obtain rfl := Option.some.inj (hindex.symm.trans hd)
      decide +kernel
  have hcare : Careful "t" ds := by
    intro a d b hsplit
    simp only [ds] at hsplit
    cases a with
    | nil =>
      cases hsplit
      exact hfirst
    | cons _ a =>
      cases a with
      | nil =>
        cases hsplit
        exact hsecond
      | cons _ _ => simp at hsplit
  have hrun : Session ds equalPut.after :=
    .next (show Session [longPut] equalPut.before from longPut_session)
  exact ⟨hcare,by decide +kernel,by decide +kernel,(purge_complete_iff hrun).2 hcare⟩

/-- Two seconds after the two Puts of team t the index is gone: PurgeTeam(t)
succeeds, and the first entry is still served. -/
theorem short_put_hides_entry :
    Session [longPut,shortPut] shortPut.after ∧
      lastTeam [longPut,shortPut] "a" = some "t" ∧
      ∃ tr r u,(purgeTeam "t").Returns tr (.ok r) ∧ Ran shortPut.after tr u ∧
      ∃ tr' u',(fetch "a").Returns tr' (.ok (some teamEntry)) ∧ Ran u tr' u' := by
  let m := shortPut.after.at 2000
  have hrun : Session [longPut,shortPut] shortPut.after :=
    .next (show Session [longPut] shortPut.before from longPut_session)
  have hwait : Ran shortPut.after [] m := .env ⟨2000,by decide +kernel,rfl⟩ (.done _)
  obtain ⟨hpurge,hafter⟩ := returns_serve (p := purgeTeam "t") (s := m) (a := .ok ⟨"team","t",0,0⟩)
    (by decide +kernel)
  obtain ⟨hfetch,hlater⟩ := returns_serve (p := fetch "a")
    (s := ((purgeTeam "t").exec Redis.serve m).2.2) (a := .ok (some teamEntry)) (by decide +kernel)
  exact ⟨hrun,by decide +kernel,_,_,_,hpurge,Served.append hwait hafter,_,_,hfetch,hlater⟩

end Switchyard.Cache
