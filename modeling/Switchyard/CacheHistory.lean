import Switchyard.CacheLookup
set_option autoImplicit false

/-!
Histories of the cache: any number of goroutines of any replicas storing,
looking up and purging at once, every Redis command atomic, keys expiring.
-/

namespace Switchyard.Cache
open RedisData CallTree

structure Setup where
  unit : Float32Unit
  store : StoreConfig
  lookup : LookupConfig
  embedder : Bool

inductive Task where
  | store (src : KeySource) (embedding : List UInt32) (e : Entry) (ttl clock : Int)
      (fits : e.Fits (e.createdAt.getD clock))
  | lookup (src : KeySource)
  | purgeTeam (teamID : String)
  | purgePrefix (rounds : Nat) (idPrefix : String)
  | purgeAll (rounds : Nat)

def Task.program (c : Setup) : Task → Program (Option Result)
  | .store src embedding e ttl clock _ => do
    Cache.store c.store src.key embedding e ttl clock
    pure none
  | .lookup src => do
    let r ← Cache.lookup c.unit c.store c.lookup c.embedder src.key
    pure (some r)
  | .purgeTeam teamID => do
    let _ ← Cache.purgeTeam teamID
    pure none
  | .purgePrefix rounds idPrefix => do
    let _ ← Cache.purgePrefix rounds idPrefix
    pure none
  | .purgeAll rounds => do
    let _ ← Cache.purgeAll rounds
    pure none

/-- Commands that neither write an entry's fields nor add to a fingerprint's
index. -/
def Harmless : Op → Prop
  | .hSet _ _ => False
  | .zAdd (.index _) _ _ => False
  | .hIncrBy _ field _ => field = "hits"
  | _ => True

theorem fetch_calls (id : String) : (fetch id).Calls Harmless := by
  refine calls_orFail (calls_perform.2 trivial) fun fields => ?_
  split <;> exact calls_pure _

variable {P : Op → Prop}

theorem readEmbeddings_calls (hread : ∀ id,P (.hmGetEmbedding id)) (ids : List String) :
    (readEmbeddings ids).Calls P := by
  induction ids with
  | nil => exact calls_pure _
  | cons id ids ih =>
    refine calls_bind (calls_perform.2 (hread id)) fun r => calls_bind ih fun rest => ?_
    cases r <;> cases rest <;> exact calls_pure _

theorem candidates_calls (cfg : StoreConfig) (k : Key) : (candidates cfg k).Calls Harmless := by
  refine calls_orFail (calls_perform.2 trivial) fun ids => ?_
  refine calls_orFail (readEmbeddings_calls (fun _ => trivial) ids) fun found => ?_
  simp only []
  split
  · exact calls_bind (calls_perform.2 trivial) fun _ => calls_pure _
  · exact calls_pure _

theorem recordHit_calls (id : String) : (recordHit id).Calls Harmless :=
  calls_orFail (calls_perform.2 rfl) fun _ => calls_pure _

theorem lookup_calls (u : Float32Unit) (st : StoreConfig) (cfg : LookupConfig) (embedder : Bool)
    (k : Key) : (lookup u st cfg embedder k).Calls Harmless := by
  refine calls_bind (fetch_calls _) fun found => ?_
  split
  · exact calls_pure _
  · exact calls_bind (recordHit_calls _) fun _ => calls_pure _
  · split
    · exact calls_pure _
    · refine calls_bind (calls_perform.2 trivial) fun vector => ?_
      cases vector with
      | error e => exact calls_pure _
      | ok vector =>
        refine calls_bind (candidates_calls st k) fun cs => ?_
        cases cs with
        | error e => exact calls_pure _
        | ok cs =>
          simp only []
          split
          · exact calls_pure _
          · refine calls_bind (fetch_calls _) fun found => ?_
            split
            · exact calls_bind (recordHit_calls _) fun _ => calls_pure _
            · exact calls_pure _

theorem deleteKeys_calls {keys : List RKey} (hdel : ∀ ks,ks ⊆ keys → P (.del ks))
    (rounds : Nat) (total : Int) : (deleteKeys rounds keys total).Calls P := by
  induction rounds generalizing keys total with
  | zero => exact calls_pure _
  | succ rounds ih =>
    unfold deleteKeys
    split
    · exact calls_pure _
    · exact calls_orFail (calls_perform.2 (hdel _ (List.take_subset _ _))) fun n =>
        ih (fun ks hks => hdel ks (List.Subset.trans hks (List.drop_subset _ _))) _

theorem scanKeys_calls {pattern : Pattern} (hscan : ∀ c,P (.scan c pattern))
    (rounds cursor : Nat) (keys : List RKey) : (scanKeys rounds pattern cursor keys).Calls P := by
  induction rounds generalizing cursor keys with
  | zero => exact calls_pure _
  | succ rounds ih =>
    refine calls_orFail (calls_perform.2 (hscan _)) fun r => ?_
    split
    · exact calls_pure _
    · exact ih _ _

theorem trimScope_calls {k : Key} (hcard : P (.zCard (.scope k.scopeID)))
    (hrange : ∀ stop,P (.zRange (.scope k.scopeID) 0 stop))
    (hdel : ∀ ids : List String,∀ ks ⊆ ids.map RKey.entry,P (.del ks))
    (hrem : ∀ ids,P (.zRem (.scope k.scopeID) ids)) (cfg : StoreConfig) :
    (trimScope cfg k).Calls P := by
  refine calls_orFail (calls_perform.2 hcard) fun count => ?_
  split
  · exact calls_pure _
  · refine calls_orFail (calls_perform.2 (hrange _)) fun victims => ?_
    split
    · exact calls_pure _
    · exact calls_orFail (deleteKeys_calls (hdel victims) _ _) fun _ =>
        calls_orFail (calls_perform.2 (hrem _)) fun _ => calls_pure _

theorem purgeTeam_calls (teamID : String) : (purgeTeam teamID).Calls Harmless := by
  unfold purgeTeam
  split
  · exact calls_pure _
  · exact calls_orFail (calls_perform.2 trivial) fun _ =>
      calls_orFail (deleteKeys_calls (fun _ _ => trivial) _ _) fun _ =>
      calls_orFail (calls_perform.2 trivial) fun _ => calls_pure _

theorem purgePrefix_calls (rounds : Nat) (idPrefix : String) :
    (purgePrefix rounds idPrefix).Calls Harmless := by
  unfold purgePrefix
  split
  · exact calls_pure _
  · exact calls_orFail (scanKeys_calls (fun _ => trivial) _ _ _) fun _ =>
      calls_orFail (deleteKeys_calls (fun _ _ => trivial) _ _) fun _ => calls_pure _

theorem purgeAll_calls (hscan : ∀ c pattern,P (.scan c pattern))
    (hdel : ∀ keys,P (.del keys)) (rounds : Nat) : (purgeAll rounds).Calls P :=
  calls_orFail (scanKeys_calls (fun _ => hscan _ _) _ _ _) fun _ =>
  calls_orFail (scanKeys_calls (fun _ => hscan _ _) _ _ _) fun _ =>
  calls_orFail (scanKeys_calls (fun _ => hscan _ _) _ _ _) fun _ =>
  calls_orFail (scanKeys_calls (fun _ => hscan _ _) _ _ _) fun _ =>
  calls_orFail (deleteKeys_calls (fun _ _ => hdel _) _ _) fun _ =>
  calls_orFail (deleteKeys_calls (fun _ _ => hdel _) _ _) fun _ => calls_pure _

/-- Every hash and every index of t was in s with at least these values. -/
structure Shrinks (s t : Redis) : Prop where
  entries : ∀ id x,t.entries id = some x → ∃ y,s.entries id = some y ∧ x.value = y.value
  zsets : ∀ key x,t.zsets key = some x →
    ∃ y,s.zsets key = some y ∧ ∀ p ∈ x.value,p ∈ y.value

theorem Shrinks.refl (s : Redis) : Shrinks s s :=
  ⟨fun _ x h => ⟨x,h,rfl⟩,fun _ x h => ⟨x,h,fun _ hp => hp⟩⟩

variable {s : Redis}

theorem Shrinks.trans {t u : Redis} (h : Shrinks s t) (h' : Shrinks t u) : Shrinks s u := by
  constructor
  · intro id x hx
    obtain ⟨y,hy,hxy⟩ := h'.entries id x hx
    obtain ⟨z,hz,hyz⟩ := h.entries id y hy
    exact ⟨z,hz,hxy.trans hyz⟩
  · intro key x hx
    obtain ⟨y,hy,hxy⟩ := h'.zsets key x hx
    obtain ⟨z,hz,hyz⟩ := h.zsets key y hy
    exact ⟨z,hz,fun p hp => hyz p (hxy p hp)⟩

theorem update_bounded {α β : Type} [DecidableEq α] {f : α → Option β} {R : β → β → Prop}
    (hrefl : ∀ y,R y y) {a : α} {v : Option β} (hv : ∀ x,v = some x → ∃ y,f a = some y ∧ R x y)
    (b : α) (x : β) (hx : Function.update f a v b = some x) : ∃ y,f b = some y ∧ R x y := by
  by_cases hb : b = a
  · subst hb
    simp only [Function.update_self] at hx
    exact hv x hx
  · simp only [Function.update_of_ne hb] at hx
    exact ⟨x,hx,hrefl x⟩

variable {id : String}

theorem shrinks_update_entry {v : Option (Timed Hash)}
    (hv : ∀ x,v = some x → ∃ y,s.entries id = some y ∧ x.value = y.value) :
    Shrinks s { s with entries := Function.update s.entries id v } :=
  ⟨update_bounded (R := fun x y : Timed Hash => x.value = y.value) (fun _ => rfl) hv,
    (Shrinks.refl s).zsets⟩

theorem shrinks_update_zset {key : ZKey} {v : Option (Timed ZSet)}
    (hv : ∀ x,v = some x → ∃ y,s.zsets key = some y ∧ ∀ p ∈ x.value,p ∈ y.value) :
    Shrinks s { s with zsets := Function.update s.zsets key v } :=
  ⟨(Shrinks.refl s).entries,
    update_bounded (R := fun x y : Timed ZSet => ∀ p ∈ x.value,p ∈ y.value) (fun _ _ hp => hp) hv⟩

theorem shrinks_delete (s : Redis) (key : RKey) : Shrinks s (s.delete key) := by
  cases key with
  | entry id => exact shrinks_update_entry (by simp)
  | zset key => exact shrinks_update_zset (by simp)

theorem shrinks_setDeadline (s : Redis) (key : RKey) (d : Int) :
    Shrinks s (s.setDeadline key d) := by
  cases key with
  | entry id =>
    apply shrinks_update_entry
    intro x hx
    obtain ⟨y,hy,rfl⟩ := Option.map_eq_some_iff.1 hx
    exact ⟨y,hy,rfl⟩
  | zset key =>
    apply shrinks_update_zset
    intro x hx
    obtain ⟨y,hy,rfl⟩ := Option.map_eq_some_iff.1 hx
    exact ⟨y,hy,fun _ hp => hp⟩

theorem shrinks_expire (s : Redis) (key : RKey) (ttl : Int) : Shrinks s (s.expire key ttl) := by
  unfold Redis.expire
  split
  · exact shrinks_delete s key
  · exact shrinks_setDeadline s key _

theorem shrinks_deleteAll (s : Redis) (keys : List RKey) :
    Shrinks s (keys.foldl Redis.delete s) := by
  induction keys generalizing s with
  | nil => exact Shrinks.refl s
  | cons key keys ih => exact (shrinks_delete s key).trans (ih _)

theorem shrinks_at (s : Redis) (now : Int) : Shrinks s (s.at now) := by
  constructor
  · intro id x hx
    exact ⟨x,(Option.filter_eq_some_iff.1 hx).1,rfl⟩
  · intro key x hx
    exact ⟨x,(Option.filter_eq_some_iff.1 hx).1,fun _ hp => hp⟩

theorem setMembers_zsets {key key' : ZKey} {z : ZSet} {x : Timed ZSet}
    (hx : (s.setMembers key z).zsets key' = some x) :
    (key' = key ∧ x.value = z) ∨ (key' ≠ key ∧ s.zsets key' = some x) := by
  by_cases he : key' = key
  · subst he
    simp only [Redis.setMembers,Function.update_self] at hx
    split at hx
    · simp at hx
    · simp only [Option.some.injEq] at hx
      exact .inl ⟨rfl,by rw [← hx]⟩
  · simp only [Redis.setMembers,Function.update_of_ne he] at hx
    exact .inr ⟨he,hx⟩

theorem mem_members {key : ZKey} {p : ℚ × String} (hp : p ∈ s.members key) :
    ∃ y,s.zsets key = some y ∧ p ∈ y.value := by
  unfold Redis.members at hp
  cases hs : s.zsets key with
  | none => simp [hs] at hp
  | some y => exact ⟨y,rfl,by simpa [hs] using hp⟩

theorem shrinks_setMembers {key : ZKey} {z : ZSet} (hz : ∀ p ∈ z,p ∈ s.members key) :
    Shrinks s (s.setMembers key z) := by
  refine ⟨(Shrinks.refl s).entries,fun key' x hx => ?_⟩
  obtain ⟨rfl,rfl⟩ | ⟨-,hx⟩ := setMembers_zsets hx
  · cases hv : x.value with
    | nil =>
      simp only [Redis.setMembers,Function.update_self,hv,ite_true] at hx
      simp at hx
    | cons p l =>
      obtain ⟨y,hy,-⟩ := mem_members (hz p (by simp [hv]))
      refine ⟨y,hy,fun q hq => ?_⟩
      obtain ⟨y',hy',hq'⟩ := mem_members (hz q (by rw [hv]; exact hq))
      rw [hy] at hy'
      exact Option.some.inj hy' ▸ hq'
  · exact ⟨x,hx,fun _ hp => hp⟩

variable {h : List (Step Op Ans)}

variable {e : Entry}

section Provenance

-- which thread puts which entry, under which key and creation time
variable (Owner : Nat → KeySource → Entry → Int → Prop)

/-- Entry fields and index members are written by their owner only. -/
def Permitted (x : Step Op Ans) : Prop :=
  Harmless x.event.op ∨ ∃ src e now,Owner x.thread src e now ∧ e.Fits now ∧
    (x.event.op = .hSet src.key.entryID (putFields e now) ∨
      ∃ score,x.event.op = .zAdd (.index src.key.fingerprint) score src.key.entryID)

def LastPut (past : List (Step Op Ans)) (id : String) (j : Nat) (e : Entry) (now : Int) : Prop :=
  ∃ a x b,past = a ++ x :: b ∧ x.thread = j ∧ x.event.op = .hSet id (putFields e now) ∧
    executed x.event = true ∧ ∀ y ∈ b,executed y.event = true → ∀ fs,y.event.op ≠ .hSet id fs

def Sourced (past : List (Step Op Ans)) (id : String) (h : Hash) : Prop :=
  ∃ j src e now,Owner j src e now ∧ e.Fits now ∧ src.key.entryID = id ∧
    LastPut past id j e now ∧ Holds h e now

/-- A hash holds its last Put or is the stub a late hit counter left; an index
lists entries of its own fingerprint. -/
structure Provenance (past : List (Step Op Ans)) (s : Redis) : Prop where
  entries : ∀ id x,s.entries id = some x →
    x.value.get? "created_at" = none ∨ Sourced Owner past id x.value
  indexes : ∀ fp x,s.zsets (.index fp) = some x → ∀ p ∈ x.value,
    ∃ j src e now,Owner j src e now ∧ src.key.fingerprint = fp ∧ src.key.entryID = p.2

variable {Owner}

variable {past : List (Step Op Ans)} {x : Step Op Ans}

theorem LastPut.snoc {j : Nat} {now : Int} (h : LastPut past id j e now)
    (hx : executed x.event = true → ∀ fs,x.event.op ≠ .hSet id fs) :
    LastPut (past ++ [x]) id j e now := by
  obtain ⟨a,y,b,rfl,hj,hop,hex,hb⟩ := h
  refine ⟨a,y,b ++ [x],by simp,hj,hop,hex,fun z hz => ?_⟩
  obtain hz | hz := List.mem_append.1 hz
  · exact hb z hz
  · obtain rfl := List.mem_singleton.1 hz
    exact hx

theorem Sourced.snoc {h : Hash} (hs : Sourced Owner past id h)
    (hx : executed x.event = true → ∀ fs,x.event.op ≠ .hSet id fs) :
    Sourced Owner (past ++ [x]) id h := by
  obtain ⟨j,src,e,now,hown,hfit,hid,hlast,hh⟩ := hs
  exact ⟨j,src,e,now,hown,hfit,hid,hlast.snoc hx,hh⟩

theorem Provenance.shrink {t : Redis} (h : Provenance Owner past s) (hst : Shrinks s t) :
    Provenance Owner past t := by
  constructor
  · intro id x hx
    obtain ⟨y,hy,hxy⟩ := hst.entries id x hx
    rw [hxy]
    exact h.entries id y hy
  · intro fp x hx p hp
    obtain ⟨y,hy,hxy⟩ := hst.zsets _ x hx
    exact h.indexes fp y hy p (hxy p hp)

theorem Provenance.snoc (h : Provenance Owner past s)
    (hx : executed x.event = true → ∀ id fs,x.event.op ≠ .hSet id fs) :
    Provenance Owner (past ++ [x]) s := by
  refine ⟨fun id y hy => ?_,h.indexes⟩
  obtain hstub | hsrc := h.entries id y hy
  · exact .inl hstub
  · exact .inr (hsrc.snoc fun hex => hx hex id)

theorem Provenance.hSet {src : KeySource} {now : Int} (h : Provenance Owner past s)
    (hown : Owner x.thread src e now) (hfit : e.Fits now)
    (hop : x.event.op = .hSet src.key.entryID (putFields e now)) (hex : executed x.event = true) :
    Provenance Owner (past ++ [x]) (s.after (.hSet src.key.entryID (putFields e now))) := by
  refine ⟨fun id y hy => ?_,h.indexes⟩
  by_cases hid : id = src.key.entryID
  · subst hid
    simp only [Redis.after,Redis.setHash,Function.update_self,Option.some.injEq] at hy
    subst hy
    exact .inr ⟨x.thread,src,e,now,hown,hfit,rfl,
      ⟨past,x,[],rfl,rfl,hop,hex,by simp⟩,holds_putAll _ e now⟩
  · simp only [Redis.after,Redis.setHash,Function.update_of_ne hid] at hy
    obtain hstub | hsrc := h.entries id y hy
    · exact .inl hstub
    · refine .inr (hsrc.snoc fun _ fs hfs => ?_)
      rw [hop] at hfs
      simp only [Op.hSet.injEq] at hfs
      exact hid hfs.1.symm

theorem Provenance.hIncrBy (h : Provenance Owner past s) (id : String) (n : Int) :
    Provenance Owner past (s.after (.hIncrBy id "hits" n)) := by
  simp only [Redis.after]
  cases incremented (s.hash id) "hits" n with
  | none => exact h
  | some m =>
    refine ⟨fun id' y hy => ?_,h.indexes⟩
    by_cases hid : id' = id
    · subst hid
      simp only [Redis.setHash,Function.update_self,Option.some.injEq] at hy
      subst hy
      cases hs : s.entries id' with
      | none =>
        have hz : s.hash id' = Hash.empty := by simp [Redis.hash,hs]
        rw [hz,Hash.get?_put,if_neg (by decide)]
        exact .inl rfl
      | some z =>
        have hz : s.hash id' = z.value := by simp [Redis.hash,hs]
        rw [hz]
        obtain hstub | ⟨j,src,e,now,hown,hfit,hkey,hlast,hh⟩ := h.entries id' z hs
        · exact .inl (by simp [Hash.get?_put,hstub])
        · exact .inr ⟨j,src,e,now,hown,hfit,hkey,hlast,holds_put_hits hh _⟩
    · simp only [Redis.setHash,Function.update_of_ne hid] at hy
      exact h.entries id' y hy

theorem Provenance.zAdd (h : Provenance Owner past s)
    (key : ZKey) (score : ℚ) (member : String)
    (hown : ∀ fp,key = .index fp → ∃ j src e now,Owner j src e now ∧
      src.key.fingerprint = fp ∧ src.key.entryID = member) :
    Provenance Owner past (s.after (.zAdd key score member)) := by
  refine ⟨h.entries,fun fp x hx p hp => ?_⟩
  obtain ⟨hkey,hval⟩ | ⟨-,hold⟩ := setMembers_zsets hx
  · rw [hval] at hp
    obtain rfl | hp := mem_zAdd hp
    · exact hown fp hkey.symm
    · obtain ⟨y,hy,hpy⟩ := mem_members hp
      rw [← hkey] at hy
      exact h.indexes fp y hy p hpy
  · exact h.indexes fp x hold p hp

theorem Provenance.step {t : Redis}
    (h : Provenance Owner past s) (hx : Permitted Owner x) (hexec : Exec s x.event t) :
    Provenance Owner (past ++ [x]) t := by
  obtain ⟨-,rfl⟩ := hexec
  by_cases hex : executed x.event = true
  · rw [if_pos hex]
    obtain hharm | ⟨src,e,now,hown,hfit,hop | ⟨score,hop⟩⟩ := hx
    · have hno : executed x.event = true → ∀ id fs,x.event.op ≠ .hSet id fs := by
        intro _ id fs hop
        rw [hop] at hharm
        exact hharm
      have h' := h.snoc hno
      cases hop : x.event.op with
      | hSet id fs => exact absurd hop (hno hex id fs)
      | hIncrBy id field n =>
        rw [hop] at hharm
        obtain rfl : field = "hits" := hharm
        exact h'.hIncrBy id n
      | zAdd key score member =>
        rw [hop] at hharm
        refine h'.zAdd key score member fun fp hkey => ?_
        subst hkey
        exact hharm.elim
      | expire key ttl => exact h'.shrink (shrinks_expire s key ttl)
      | zRemRangeByRank key start stop =>
        exact h'.shrink (shrinks_setMembers fun p hp => mem_of_mem_sliceOut hp)
      | zRem key members =>
        exact h'.shrink (shrinks_setMembers fun p hp => List.mem_of_mem_filter hp)
      | del keys => exact h'.shrink (shrinks_deleteAll s keys)
      | _ => exact h'
    · rw [hop]
      exact h.hSet hown hfit hop hex
    · have h' := h.snoc (x := x) (by simp [hop])
      rw [hop]
      refine h'.zAdd _ score _ fun fp hfp => ?_
      exact ⟨x.thread,src,e,now,hown,by simpa using hfp,rfl⟩
  · rw [if_neg hex]
    exact h.snoc fun hex' => absurd hex' hex

theorem provenance_empty : Provenance Owner [] Redis.empty := by
  constructor <;> simp [Redis.empty]

theorem provenance_served
    (hrun : Served Exec Tick Redis.empty h s) (hok : ∀ x ∈ h,Permitted Owner x) :
    Provenance Owner h s := by
  have hinv := hrun.invariant (I := Provenance Owner)
    (fun _ _ _ _ hs hx hexec => hs.step hx hexec)
    (fun _ _ _ hs htick => by
      obtain ⟨now,-,rfl⟩ := htick
      exact hs.shrink (shrinks_at _ now))
    hok provenance_empty
  simpa using hinv

theorem read_provenance {a b : List (Step Op Ans)} {i : Nat} {fields : Hash}
    (hrun : Served Exec Tick Redis.empty (a ++ ⟨i,⟨.hGetAll id,.ok fields⟩⟩ :: b) s)
    (hok : ∀ x ∈ a,Permitted Owner x) (hd : decodeEntry fields = .ok e) :
    ∃ j src e' now,Owner j src e' now ∧ src.key.entryID = id ∧ LastPut a id j e' now ∧
      e = { e' with createdAt := some now, hits := e.hits } := by
  obtain ⟨t,t',hpast,hexec,-⟩ := hrun.split
  have hprov := provenance_served hpast hok
  have hreply : fields = t.hash id := hexec.1 fields rfl
  cases hs : t.entries id with
  | none =>
    have hempty : fields = Hash.empty := by rw [hreply]; simp [Redis.hash,hs]
    exact absurd hd (decodeEntry_no_created (by rw [hempty]; rfl))
  | some z =>
    have hz : fields = z.value := by rw [hreply]; simp [Redis.hash,hs]
    obtain hstub | ⟨j,src,e',now,hown,hfit,hkey,hlast,hh⟩ := hprov.entries id z hs
    · exact absurd hd (decodeEntry_no_created (by rw [hz]; exact hstub))
    · rw [hz,decodeEntry_holds hh hfit] at hd
      refine ⟨j,src,e',now,hown,hkey,hlast,?_⟩
      rw [← Except.ok.inj hd]

theorem index_provenance {a b : List (Step Op Ans)} {i : Nat} {fp : String} {start stop : Int}
    {ids : List String}
    (hrun : Served Exec Tick Redis.empty
      (a ++ ⟨i,⟨.zRevRange (.index fp) start stop,.ok ids⟩⟩ :: b) s)
    (hok : ∀ x ∈ a,Permitted Owner x) : ∀ id ∈ ids,
    ∃ j src e now,Owner j src e now ∧ src.key.fingerprint = fp ∧ src.key.entryID = id := by
  intro id hid
  obtain ⟨t,t',hpast,hexec,-⟩ := hrun.split
  have hprov := provenance_served hpast hok
  have hreply : ids = (slice (t.members (.index fp)).reverse start stop).map Prod.snd :=
    hexec.1 ids rfl
  rw [hreply] at hid
  obtain ⟨p,hp,rfl⟩ := List.mem_map.1 hid
  obtain ⟨y,hy,hpy⟩ := mem_members (List.mem_reverse.1 (mem_of_mem_slice hp))
  exact hprov.indexes fp y hy p hpy

/-- What was read under a key's own ID, or under one its index listed, is an entry
put under the key's scope and fingerprint. -/
theorem hit_provenance {i : Nat} {src : KeySource} {fields : Hash}
    (hrun : Served Exec Tick Redis.empty h s)
    (hok : ∀ x ∈ h,Permitted Owner x) (hfree : ∀ j src' e now,Owner j src' e now →
      src'.CollisionFree src ∧ ∀ k src₂ e₂ now₂,Owner k src₂ e₂ now₂ → src'.CollisionFree src₂)
    (hread : ⟨i,⟨.hGetAll id,.ok fields⟩⟩ ∈ h) (hd : decodeEntry fields = .ok e)
    (hid : id = src.key.entryID ∨ ∃ start stop ids,
      ⟨i,⟨.zRevRange (.index src.key.fingerprint) start stop,.ok ids⟩⟩ ∈ h ∧ id ∈ ids) :
    ∃ a b j src' e' now,h = a ++ ⟨i,⟨.hGetAll id,.ok fields⟩⟩ :: b ∧ Owner j src' e' now ∧
      LastPut a id j e' now ∧ src'.key.scopeID = src.key.scopeID ∧
      src'.key.fingerprint = src.key.fingerprint ∧
      e = { e' with createdAt := some now, hits := e.hits } := by
  obtain ⟨a,b,hsplit⟩ := List.append_of_mem hread
  obtain ⟨j,src',e',now,hown,hkey,hlast,he⟩ := read_provenance (hsplit ▸ hrun)
    (fun x hx => hok x (by rw [hsplit]; simp [hx])) hd
  obtain ⟨hlook,hothers⟩ := hfree j src' e' now hown
  have hfp : src'.key.fingerprint = src.key.fingerprint := by
    obtain hid | ⟨start,stop,ids,hidx,hin⟩ := hid
    · exact ((KeySource.entryID_eq_iff hlook).1 (hkey.trans hid)).1
    · obtain ⟨a',b',hsplit'⟩ := List.append_of_mem hidx
      obtain ⟨k,src₂,e₂,now₂,hown₂,hfp₂,hkey₂⟩ := index_provenance (hsplit' ▸ hrun)
        (fun x hx => hok x (by rw [hsplit']; simp [hx])) id hin
      have heq := KeySource.entryID_eq_iff (hothers k src₂ e₂ now₂ hown₂)
      exact (heq.1 (hkey.trans hkey₂.symm)).1.trans hfp₂
  exact ⟨a,b,j,src',e',now,hsplit,hown,hlast,KeySource.scopeID_eq hlook hfp,hfp,he⟩

end Provenance

theorem pipeline_calls {ops : List Op} (h : ∀ op ∈ ops,P op) : (pipeline ops).Calls P := by
  induction ops with
  | nil => exact calls_pure _
  | cons op ops ih =>
    refine calls_bind (calls_perform.2 (h op (by simp))) fun r => ?_
    refine calls_bind (ih fun op hop => h op (by simp [hop])) fun rest => ?_
    cases r <;> exact calls_pure _

def PutOp (k : Key) (e : Entry) (now : Int) (op : Op) : Prop :=
  Harmless op ∨ op = .hSet k.entryID (putFields e now) ∨
    ∃ score,op = .zAdd (.index k.fingerprint) score k.entryID

theorem putCommands_ops (cfg : StoreConfig) (k : Key) (e : Entry) (now ttl : Int) :
    ∀ op ∈ putCommands cfg k e now ttl,PutOp k e now op := by
  intro op hop
  simp only [putCommands,List.mem_append,List.mem_cons,List.not_mem_nil,or_false] at hop
  obtain ((rfl | rfl | rfl | rfl | rfl) | hteam) | hscope := hop
  · exact .inr (.inl rfl)
  · exact .inl trivial
  · exact .inr (.inr ⟨_,rfl⟩)
  · exact .inl trivial
  · exact .inl trivial
  · split at hteam
    · obtain rfl | rfl := by simpa using hteam
      · exact .inl trivial
      · exact .inl trivial
    · simp at hteam
  · split at hscope
    · obtain rfl := by simpa using hscope
      exact .inl trivial
    · simp at hscope

theorem put_calls (cfg : StoreConfig) (k : Key) (e : Entry) (ttl clock : Int) :
    (put cfg k e ttl clock).Calls (PutOp k e (e.createdAt.getD clock)) := by
  refine calls_orFail (pipeline_calls (putCommands_ops _ _ _ _ _)) fun _ => ?_
  split
  · exact calls_bind (trimScope_calls (.inl trivial) (fun _ => .inl trivial)
      (fun _ _ _ => .inl trivial) (fun _ => .inl trivial) cfg) fun _ => calls_pure _
  · exact calls_pure _

def TaskOwner (tasks : List Task) (i : Nat) (src : KeySource) (e : Entry) (now : Int) : Prop :=
  ∃ embedding e' ttl clock fits,tasks[i]? = some (.store src embedding e' ttl clock fits) ∧
    e = { e' with embedding } ∧ now = e'.createdAt.getD clock

theorem Task.harmless_or_store (c : Setup) (task : Task) : (task.program c).Calls Harmless ∨
    ∃ src embedding e ttl clock fits,task = .store src embedding e ttl clock fits := by
  cases task with
  | store src embedding e ttl clock fits => exact .inr ⟨_,_,_,_,_,_,rfl⟩
  | lookup src => exact .inl (calls_bind (lookup_calls _ _ _ _ _) fun _ => calls_pure _)
  | purgeTeam teamID => exact .inl (calls_bind (purgeTeam_calls _) fun _ => calls_pure _)
  | purgePrefix rounds idPrefix =>
    exact .inl (calls_bind (purgePrefix_calls _ _) fun _ => calls_pure _)
  | purgeAll rounds =>
    exact .inl (calls_bind (purgeAll_calls (fun _ _ => trivial) (fun _ => trivial) _)
      fun _ => calls_pure _)

theorem permitted_of_interleaves {c : Setup} {tasks : List Task}
    (hint : Interleaves (tasks.map (Task.program c)) h) :
    ∀ x ∈ h,Permitted (TaskOwner tasks) x := by
  intro x hx
  obtain ⟨p,hp,q,hafter⟩ := hint x hx
  rw [List.getElem?_map] at hp
  obtain ⟨task,htask,rfl⟩ := Option.map_eq_some_iff.1 hp
  have hmem : x.event ∈ traceOf x.thread h := mem_traceOf.2 hx
  obtain hcalls | ⟨src,embedding,e,ttl,clock,fits,rfl⟩ := task.harmless_or_store c
  · exact .inl (hafter.calls hcalls _ hmem)
  have hcalls := calls_bind (calls_bind
    (put_calls c.store src.key { e with embedding } ttl clock) fun _ => calls_pure ())
    fun _ => calls_pure (none : Option Result)
  obtain hop | hop := hafter.calls hcalls _ hmem
  · exact .inl hop
  · exact .inr ⟨src,_,_,⟨embedding,e,ttl,clock,fits,htask,rfl,rfl⟩,
      ⟨fits.input,fits.output,fits.created⟩,hop⟩

def Task.source : Task → Option KeySource
  | .store src _ _ _ _ _ => some src
  | .lookup src => some src
  | _ => none

def CollisionFree (tasks : List Task) : Prop :=
  ∀ t ∈ tasks,∀ t' ∈ tasks,∀ a ∈ t.source,∀ b ∈ t'.source,a.CollisionFree b

theorem TaskOwner.source {tasks : List Task} {i : Nat} {src : KeySource} {now : Int}
    (h : TaskOwner tasks i src e now) : ∃ t ∈ tasks,src ∈ t.source := by
  obtain ⟨_,_,_,_,_,htask,-,-⟩ := h
  exact ⟨_,List.mem_of_getElem? htask,rfl⟩

/-- Whatever stores, lookups, purges, trims and expiries came between, a lookup
that hits returns the fields of an entry whose last Put was made under the
lookup's own scope and fingerprint, by the same team or one it shares with. -/
theorem lookup_stays_in_scope {c : Setup} {tasks : List Task} {h : List (Step Op Ans)}
    {s : Redis} (hint : Interleaves (tasks.map (Task.program c)) h)
    (hrun : Served Exec Tick Redis.empty h s) (hcf : CollisionFree tasks)
    {i : Nat} {src : KeySource} {r : Result} (htask : tasks[i]? = some (.lookup src))
    (hret : ((Task.lookup src).program c).Returns (traceOf i h) (some r)) (hit : r.hit = true) :
    ∃ a b id fields e j src' e' now,
      h = a ++ ⟨i,⟨.hGetAll id,.ok fields⟩⟩ :: b ∧ r.entry = some e ∧
      TaskOwner tasks j src' e' now ∧ LastPut a id j e' now ∧
      src'.key.scopeID = src.key.scopeID ∧ src'.key.fingerprint = src.key.fingerprint ∧
      src'.scope.Shares src.scope ∧ e = { e' with createdAt := some now, hits := e.hits } := by
  obtain ⟨tr₁,r',tr₂,htr,h₁,h₂⟩ := returns_bind.1 hret
  obtain ⟨rfl,hr⟩ := returns_pure.1 h₂
  obtain rfl := Option.some.inj hr
  obtain ⟨id,fields,e,hmem,hd,hentry,hid⟩ := lookup_hit h₁ hit
  rw [List.append_nil] at htr
  simp only [← htr,mem_traceOf] at hmem hid
  have hlook : ∃ t ∈ tasks,src ∈ t.source := ⟨_,List.mem_of_getElem? htask,rfl⟩
  have hfree : ∀ {x y : KeySource},(∃ t ∈ tasks,x ∈ t.source) → (∃ t ∈ tasks,y ∈ t.source) →
      x.CollisionFree y := by
    intro x y hx hy
    obtain ⟨t,ht,hxt⟩ := hx
    obtain ⟨t',ht',hyt⟩ := hy
    exact hcf t ht t' ht' x hxt y hyt
  obtain ⟨a,b,j,src',e',now,hsplit,hown,hlast,hscope,hfp,he⟩ := hit_provenance hrun
    (permitted_of_interleaves hint) (fun j src' e now hown => ⟨hfree hown.source hlook,
      fun k src₂ e₂ now₂ hown₂ => hfree hown.source hown₂.source⟩) hmem hd hid
  exact ⟨a,b,id,fields,e,j,src',e',now,hsplit,hentry,hown,hlast,hscope,hfp,
    Scope.shares_of_id hscope,he⟩

theorem fetch_decodes {fields : Hash} (hd : decodeEntry fields = .ok e) :
    (fetch id).Returns [⟨.hGetAll id,.ok fields⟩] (.ok (some e)) := by
  have hne : fields ≠ Hash.empty := by
    intro he
    exact decodeEntry_no_created (by rw [he]; rfl) hd
  refine returns_bind.2 ⟨_,.ok fields,[],rfl,returns_perform.2 rfl,?_⟩
  simp [hne,hd,Except.map]

theorem lookup_exact (u : Float32Unit) (st : StoreConfig) (cfg : LookupConfig) (embedder : Bool)
    {k : Key} {fields : Hash} {e : Entry} (hd : decodeEntry fields = .ok e) (n : Int) :
    (lookup u st cfg embedder k).Returns
      [⟨.hGetAll k.entryID,.ok fields⟩,⟨.hIncrBy k.entryID "hits" 1,.ok n⟩]
      (finish cfg ⟨true,.exact,some e,0x3F800000,[],0⟩) := by
  refine returns_bind.2 ⟨_,_,_,rfl,fetch_decodes hd,?_⟩
  refine returns_bind.2 ⟨_,.ok (),[],(List.append_nil _).symm,?_,returns_pure.2 ⟨rfl,rfl⟩⟩
  exact returns_bind.2 ⟨_,.ok n,[],rfl,returns_perform.2 rfl,returns_pure.2 ⟨rfl,rfl⟩⟩

theorem lookup_after_hSet (c : Setup) (src : KeySource) (e : Entry) (ttl clock : Int)
    (fits : e.Fits (e.createdAt.getD clock)) :
    ∃ h s r,Interleaves ([Task.store src [] e ttl clock fits,.lookup src].map (Task.program c)) h ∧
      Served Exec Tick Redis.empty h s ∧
      ((Task.lookup src).program c).Returns (traceOf 1 h) (some r) ∧ r.hit = true := by
  let e' : Entry := { e with embedding := [] }
  let now := e.createdAt.getD clock
  let hash := Hash.empty.putAll (putFields e' now)
  have hd := decodeEntry_holds (holds_putAll Hash.empty e' now)
    ⟨fits.input,fits.output,fits.created⟩
  let put : Event Op Ans := ⟨.hSet src.key.entryID (putFields e' now),.ok ()⟩
  let read : Event Op Ans := ⟨.hGetAll src.key.entryID,.ok hash⟩
  let count : Event Op Ans := ⟨.hIncrBy src.key.entryID "hits" 1,.ok 1⟩
  obtain ⟨r,hret,hit⟩ : ∃ r,((Task.lookup src).program c).Returns [read,count] (some r) ∧
      r.hit = true :=
    ⟨finish c.lookup ⟨true,.exact,some _,0x3F800000,[],0⟩,
      returns_bind.2 ⟨_,_,[],rfl,lookup_exact _ _ _ _ hd 1,returns_pure.2 ⟨rfl,rfl⟩⟩,rfl⟩
  obtain ⟨q,hput⟩ : ∃ q,((Task.store src [] e ttl clock fits).program c).After [put] q :=
    ⟨_,.next (.start _)⟩
  have hread : (Redis.empty.after put.op).hash src.key.entryID = hash := by
    simp [put,Redis.after,Redis.setHash,Redis.hash,Redis.empty,hash]
  have hcount : incremented hash "hits" 1 = some 1 := by
    have hget : hash.get? "hits" = some (GoText.bytes (GoText.formatInt 0)) :=
      Hash.get?_putAll Hash.empty (by simp [putFields]) (by simp [putFields])
    rw [incremented,hget]
    decide +kernel
  let s₁ := Redis.empty.after put.op
  have hexec₁ : Exec Redis.empty put s₁ := exec_ok trivial
  have hexec₂ : Exec s₁ read (s₁.after read.op) := exec_ok hread.symm
  have hexec₃ : Exec s₁ count (s₁.after count.op) :=
    exec_ok ((congrArg (incremented · "hits" 1) hread).trans hcount)
  exact ⟨[put].map (Step.mk 0) ++ [read,count].map (Step.mk 1),_,r,interleaves_inTurn hput hret,
    .call hexec₁ (.call hexec₂ (.call hexec₃ (.done _))),
    (traceOf_inTurn [put] [read,count]).2.symm ▸ hret,hit⟩

theorem lookup_stays_in_scope_hit :
    let src := (singleMessage .user false).toKeySource
    let e : Entry := ⟨"hello",.stop,1,2,"m","p",some 5,0,[]⟩
    ∃ (h : List (Step Op Ans)) (i : Nat) (r : Result),r.hit = true ∧
      ∃ a b id fields j now,∃ (e' : Entry) (src' : KeySource),
      h = a ++ ⟨i,⟨.hGetAll id,.ok fields⟩⟩ :: b ∧ LastPut a id j e now ∧
      src'.key.scopeID = src.key.scopeID ∧ src'.key.fingerprint = src.key.fingerprint ∧
      src'.scope.Shares src.scope ∧ r.entry = some e' ∧
        e' = { e with createdAt := some now, hits := e'.hits } := by
  intro src e
  let c : Setup := ⟨⟨fun _ _ => 0,fun _ _ => 0,fun _ _ => false⟩,newStore ⟨0,0⟩,⟨true,0⟩,true⟩
  have fits : e.Fits (e.createdAt.getD 0) := by constructor <;> decide
  obtain ⟨h,s,r,hint,hrun,hret,hit⟩ := lookup_after_hSet c src e 60000000000 0 fits
  have hcf : CollisionFree [Task.store src [] e 60000000000 0 fits,.lookup src] := by
    intro t ht t' ht' a ha b hb
    have hsrc : ∀ t ∈ [Task.store src [] e 60000000000 0 fits,.lookup src],
        ∀ a ∈ t.source,a = src := by simp [Task.source]
    rw [hsrc t ht a ha,hsrc t' ht' b hb]
    exact ⟨fun _ => rfl,fun _ => rfl⟩
  obtain ⟨a,b,id,fields,e₁,j,src',e₂,now,hsplit,hentry,hown,hlast,hscope,hfp,hshares,he⟩ :=
    lookup_stays_in_scope hint hrun hcf rfl hret hit
  obtain ⟨embedding,e₃,ttl,clock,fits',htask,rfl,rfl⟩ := hown
  have hj : j = 0 := by
    cases j with
    | zero => rfl
    | succ j => cases j <;> simp at htask
  subst hj
  simp only [List.getElem?_cons_zero,Option.some.injEq,Task.store.injEq] at htask
  obtain ⟨-,rfl,rfl,rfl,rfl⟩ := htask
  exact ⟨h,1,r,hit,a,b,id,fields,0,_,e₁,src',hsplit,hlast,hscope,hfp,hshares,hentry,he⟩

end Switchyard.Cache
