import Switchyard.CommandRuns
import Switchyard.Recency
set_option autoImplicit false

/-!
The candidates of one fingerprint's bucket after any sequence of Puts, reads and
expiries (internal/cache/store.go): which of the entries put last the semantic
tier still finds.
-/

namespace Switchyard.Cache
open RedisData CallTree Recency

/-- What a Put leaves in the bucket: the entry's ID, its score and its vector. -/
abbrev Shelved := Filed ℚ (List UInt32)

def Vectors (ps : List Shelved) (s : Redis) : Prop :=
  ∀ id x,s.entries id = some x → ∃ p ∈ latest ps,p.member = id ∧
    x.value.get? "embedding" = some (packVector p.data)

theorem Vectors.shrinks {ps : List Shelved} {s u : Redis} (h : Vectors ps s)
    (hsu : ∀ id x,u.entries id = some x → ∃ y,s.entries id = some y ∧ x.value = y.value) :
    Vectors ps u := by
  intro id x hx
  obtain ⟨y,hy,hxy⟩ := hsu id x hx
  rw [hxy]
  exact h id y hy

/-- During a Put that is over by time T: the vectors of vs, the index in the order
of os, the entries it lists, and those that end no later than B from now. The
index stays at least until T. -/
structure Shelf (fp : String) (B T : Int) (vs os : List Shelved) (listed bounded : String → Prop)
    (s : Redis) : Prop where
  vectors : Vectors vs s
  order : InOrder (s.members (.index fp)) (latest os)
  listed : ∀ id x,listed id → s.entries id = some x → id ∈ (s.members (.index fp)).map Prod.snd
  bounded : ∀ id x,bounded id → s.entries id = some x → ∃ d,x.deadline = some d ∧ d ≤ s.now+B
  lasting : ∀ z d,s.zsets (.index fp) = some z → z.deadline = some d → T < d

/-- The bucket as a finished Put leaves it: its index lists the n entries put
last, as far as they are there, and outlives them. -/
structure Bucket (fp : String) (n : Nat) (ps : List Shelved) (s : Redis) : Prop where
  vectors : Vectors ps s
  order : InOrder (s.members (.index fp)) (latest ps)
  covered : ∀ p ∈ (latest ps).take n,∀ x,s.entries p.member = some x →
    ∃ z,s.zsets (.index fp) = some z ∧ p.member ∈ z.value.map Prod.snd ∧
      Outlasts z.deadline x.deadline

section Shelf

variable {fp : String} {B T : Int} {n : Nat} {vs os ps : List Shelved}
  {listed bounded : String → Prop} {s : Redis}

theorem Shelf.tick {now : Int} (hnow : s.now ≤ now) (hT : now ≤ T)
    (h : Shelf fp B T vs os listed bounded s) : Shelf fp B T vs os listed bounded (s.at now) := by
  have hset : (s.at now).zsets (.index fp) = s.zsets (.index fp) :=
    zsets_at fun z d hz hd => lt_of_le_of_lt hT (h.lasting z d hz hd)
  have hmembers : (s.at now).members (.index fp) = s.members (.index fp) := by
    rw [Redis.members,Redis.members,hset]
  refine ⟨h.vectors.shrinks (shrinks_at s now).entries,by rw [hmembers]; exact h.order,
    fun id x hl hx => ?_,fun id x hb hx => ?_,by rw [hset]; exact h.lasting⟩
  · rw [hmembers]
    exact h.listed id x hl (Option.filter_eq_some_iff.1 hx).1
  · obtain ⟨d,hd,hle⟩ := h.bounded id x hb (Option.filter_eq_some_iff.1 hx).1
    have hlater : (s.at now).now = now := rfl
    exact ⟨d,hd,by omega⟩

theorem Shelf.hSet (h : Shelf fp B T ps ps listed bounded s) {p : Shelved} {e : Entry}
    (hp : p.data = e.embedding) (hl : ¬listed p.member) (hb : ¬bounded p.member) (now : Int) :
    Shelf fp B T (p :: ps) ps listed bounded (s.after (.hSet p.member (putFields e now))) := by
  have hother : ∀ id,id ≠ p.member →
      (s.after (.hSet p.member (putFields e now))).entries id = s.entries id :=
    fun id hid => Function.update_of_ne hid _ _
  refine ⟨fun id x hx => ?_,h.order,fun id x hid hx => ?_,fun id x hid hx => ?_,h.lasting⟩
  · by_cases hid : id = p.member
    · subst hid
      have hself : (s.after (.hSet p.member (putFields e now))).entries p.member =
          some ⟨(s.hash p.member).putAll (putFields e now),_⟩ := Function.update_self _ _ _
      obtain rfl := Option.some.inj (hself.symm.trans hx)
      refine ⟨p,List.mem_cons_self,rfl,?_⟩
      have hholds := holds_putAll (s.hash p.member) e now
        ("embedding",packVector e.embedding) (by simp [putFields]) (by simp)
      rw [hp]
      exact hholds
    · rw [hother id hid] at hx
      obtain ⟨q,hq,rfl,hvector⟩ := h.vectors id x hx
      exact ⟨q,List.mem_cons_of_mem _ (List.mem_filter.2 ⟨hq,by simpa using hid⟩),rfl,hvector⟩
  · rw [hother id fun heq => hl (heq ▸ hid)] at hx
    exact h.listed id x hid hx
  · rw [hother id fun heq => hb (heq ▸ hid)] at hx
    exact h.bounded id x hid hx

theorem Shelf.expireEntry {ttl : Int} (hpos : 0 < formatSec ttl)
    (h : Shelf fp (1000*formatSec ttl) T vs os listed bounded s) (id : String) :
    Shelf fp (1000*formatSec ttl) T vs os listed (fun j => bounded j ∨ j = id)
      (s.after (.expire (.entry id) ttl)) := by
  have hafter : s.after (.expire (.entry id) ttl) =
      s.setDeadline (.entry id) (s.now+1000*formatSec ttl) := if_neg (by omega)
  have hskips : Skips (.index fp) (.expire (.entry id) ttl) := trivial
  have hmembers := members_skips hskips s
  have hvalues := (shrinks_expire s (.entry id) ttl).entries
  refine ⟨h.vectors.shrinks hvalues,by rw [hmembers]; exact h.order,fun j x hj hx => ?_,
    fun j x hj hx => ?_,?_⟩
  · obtain ⟨y,hy,-⟩ := hvalues j x hx
    rw [hmembers]
    exact h.listed j y hj hy
  · rw [after_now]
    rw [hafter] at hx
    by_cases hjid : j = id
    · subst hjid
      simp only [Redis.setDeadline,Function.update_self] at hx
      obtain ⟨y,-,rfl⟩ := Option.map_eq_some_iff.1 hx
      exact ⟨_,rfl,le_refl _⟩
    · simp only [Redis.setDeadline,Function.update_of_ne hjid] at hx
      exact h.bounded j x (hj.resolve_right hjid) hx
  · rw [zsets_skips hskips]
    exact h.lasting

theorem Shelf.zAdd (h : Shelf fp B T vs ps listed bounded s) (p : Shelved)
    (hnew : ∀ q ∈ ps,q.score < p.score) :
    Shelf fp B T vs (p :: ps) (fun j => listed j ∨ j = p.member) bounded
      (s.after (.zAdd (.index fp) p.score p.member)) := by
  have hmembers : (s.after (.zAdd (.index fp) p.score p.member)).members (.index fp) =
      RedisData.zAdd (s.members (.index fp)) p.score p.member := members_setMembers _ _ _
  refine ⟨h.vectors,?_,fun j x hj hx => ?_,h.bounded,fun z d hz hd => ?_⟩
  · rw [hmembers]
    refine h.order.zAdd fun q hq _ => ?_
    obtain ⟨p',hp',rfl⟩ := h.order.record hq
    exact hnew p' ((latest_sublist ps).subset hp')
  · rw [hmembers]
    obtain hj | rfl := hj
    · exact names_zAdd _ _ _ (List.mem_cons_of_mem _ (h.listed j x hj hx))
    · exact names_zAdd _ _ _ List.mem_cons_self
  · obtain ⟨w,hw,hwd⟩ := deadline_setMembers hz hd
    exact h.lasting w d hw hwd

theorem Shelf.trim (h : Shelf fp B T vs ps listed bounded s)
    (hnewest : ∀ id,listed id → Newest n ps id) :
    Shelf fp B T vs ps listed bounded (s.after (.zRemRangeByRank (.index fp) 0 (-n-1))) := by
  have hmembers : (s.after (.zRemRangeByRank (.index fp) 0 (-n-1))).members (.index fp) =
      sliceOut (s.members (.index fp)) 0 (-n-1) := members_setMembers _ _ _
  have hkept := sliceOut_reverse (s.members (.index fp)) n
  have hnodup : ((latest ps).map Filed.scored).Nodup := by
    refine List.Nodup.of_map Prod.snd ?_
    rw [List.map_map]
    exact latest_members_nodup ps
  refine ⟨h.vectors,?_,fun id x hl hx => ?_,h.bounded,fun z d hz hd => ?_⟩
  · rw [hmembers,InOrder,hkept]
    exact (List.take_sublist _ _).trans h.order
  · obtain ⟨p,hp,rfl⟩ := List.mem_map.1 (hnewest id hl)
    have hscored := h.order.scored_mem (List.mem_of_mem_take hp) (h.listed _ x hl hx)
    have hamong : p.scored ∈ ((latest ps).map Filed.scored).take n := by
      rw [← List.map_take]
      exact List.mem_map_of_mem hp
    have htaken := mem_take_of_sublist h.order hnodup (List.mem_reverse.2 hscored) hamong
    rw [← hkept,List.mem_reverse,← hmembers] at htaken
    exact mem_names htaken
  · obtain ⟨w,hw,hwd⟩ := deadline_setMembers hz hd
    exact h.lasting w d hw hwd

theorem Shelf.expireIndex {ttl : Int} (hpos : 0 < formatSec ttl)
    (h : Shelf fp (1000*formatSec ttl) T ps ps (Newest n ps) (Newest n ps) s) :
    Bucket fp n ps (s.after (.expire (.zset (.index fp)) ttl)) := by
  have hafter : s.after (.expire (.zset (.index fp)) ttl) =
      s.setDeadline (.zset (.index fp)) (s.now+1000*formatSec ttl) := if_neg (by omega)
  rw [hafter]
  have hmembers : (s.setDeadline (.zset (.index fp)) (s.now+1000*formatSec ttl)).members
      (.index fp) = s.members (.index fp) := by
    simp only [Redis.members,Redis.setDeadline,Function.update_self,Option.map_map]
    rfl
  refine ⟨h.vectors,by rw [hmembers]; exact h.order,fun p hp x hx => ?_⟩
  have hnewest : Newest n ps p.member := List.mem_map_of_mem hp
  have hlisted := h.listed _ x hnewest hx
  obtain ⟨q,hq,hqp⟩ := List.mem_map.1 hlisted
  obtain ⟨z,hz,hqz⟩ := mem_members hq
  obtain ⟨d,hd,hle⟩ := h.bounded _ x hnewest hx
  refine ⟨⟨z.value,some (s.now+1000*formatSec ttl)⟩,by simp [Redis.setDeadline,hz],
    hqp ▸ List.mem_map_of_mem hqz,fun d' hd' => ?_⟩
  obtain rfl := Option.some.inj hd'
  exact ⟨d,hd,hle⟩

theorem Bucket.tick (h : Bucket fp n ps s) (now : Int) : Bucket fp n ps (s.at now) := by
  refine ⟨h.vectors.shrinks (shrinks_at s now).entries,
    h.order.sublist (members_at_sublist s _ now),fun p hp x hx => ?_⟩
  obtain ⟨hx,halive⟩ := Option.filter_eq_some_iff.1 hx
  obtain ⟨z,hz,hlisted,hout⟩ := h.covered p hp x hx
  exact ⟨z,Option.filter_eq_some_iff.2 ⟨hz,aliveAt_of_outlasts hout halive⟩,hlisted,hout⟩

theorem bucket_stable : Stable (Bucket fp n ps) := fun _ now _ h => h.tick now

theorem Bucket.aside {op : Op} (h : Bucket fp n ps s) (hleaves : Leaves op)
    (hskips : Skips (.index fp) op) : Bucket fp n ps (s.after op) := by
  have hentries : ∀ id x,(s.after op).entries id = some x → s.entries id = some x := by
    intro id x hx
    obtain heq | hnone := entries_leaves hleaves s id
    · rwa [← heq]
    · rw [hnone] at hx
      cases hx
  refine ⟨h.vectors.shrinks fun id x hx => ⟨x,hentries id x hx,rfl⟩,?_,fun p hp x hx => ?_⟩
  · rw [members_skips hskips]
    exact h.order
  · rw [zsets_skips hskips]
    exact h.covered p hp x (hentries _ x hx)

end Shelf

/-- A Put of the bucket that has returned without an error. -/
structure BucketPut (cfg : StoreConfig) (fp : String) where
  key : Key
  entry : Entry
  ttl : Int
  clock : Int
  before : Redis
  trace : List (Event Op Ans)
  after : Redis
  fingerprint : key.fingerprint = fp
  pos : 0 < ttl
  returns : (put cfg key entry ttl clock).Returns trace (.ok ())
  ran : Ran before trace after

def BucketPut.filed {cfg : StoreConfig} {fp : String} (d : BucketPut cfg fp) : Shelved :=
  ⟨d.key.entryID,Binary64.round (d.entry.createdAt.getD d.clock),d.entry.embedding⟩

/-- A Put whose TTL reaches at least as far as every other entry that is then among
the n newest, and which is done before the index it found expires. -/
structure Reaching {cfg : StoreConfig} {fp : String} (n : Nat) (ps : List Shelved)
    (d : BucketPut cfg fp) : Prop where
  ttl : ∀ id,Newest n (d.filed :: ps) id → id ≠ d.key.entryID →
    ∀ x,d.before.entries id = some x →
    ∃ deadline,x.deadline = some deadline ∧ deadline ≤ d.before.now+1000*formatSec d.ttl
  lasting : ∀ z deadline,d.before.zsets (.index fp) = some z → z.deadline = some deadline →
    d.after.now < deadline

section Put

variable {cfg : StoreConfig} {fp : String} {n : Nat} {ps : List Shelved} {d : BucketPut cfg fp}

/-- The entries a Put finds among what will be the n newest. -/
def BucketPut.others (d : BucketPut cfg fp) (n : Nat) (ps : List Shelved) (id : String) : Prop :=
  Newest n (d.filed :: ps) id ∧ id ≠ d.filed.member

theorem Reaching.shelf (h : Reaching n ps d) (hs : Bucket fp n ps d.before) :
    Shelf fp (1000*formatSec d.ttl) d.after.now ps ps (d.others n ps) (d.others n ps) d.before := by
  refine ⟨hs.vectors,hs.order,fun id x hid hx => ?_,fun id x hid hx => h.ttl id hid.1 hid.2 x hx,
    h.lasting⟩
  obtain ⟨p,hp,rfl⟩ := hid.1.before hid.2
  obtain ⟨z,hz,hlisted,-⟩ := hs.covered p hp x hx
  rw [Redis.members,hz]
  exact hlisted

theorem trimScope_aside (k : Key) :
    (trimScope cfg k).Calls fun op => Leaves op ∧ Skips (.index fp) op := by
  refine trimScope_calls ⟨trivial,trivial⟩ (fun _ => ⟨trivial,trivial⟩) (fun ids ks hks => ?_)
    (fun _ => ⟨trivial,by simp [Skips]⟩) cfg
  refine ⟨trivial,fun hmem => ?_⟩
  simpa using hks hmem

theorem put_leads (hn : cfg.maxCandidates = n) (hpos : 0 < n)
    (hnew : ∀ q ∈ ps,q.score < d.filed.score) (T : Int) :
    Leads (Until T (Shelf fp (1000*formatSec d.ttl) T ps ps (d.others n ps) (d.others n ps)))
      (putCommands cfg d.key d.entry (d.entry.createdAt.getD d.clock) d.ttl)
      (Until T (Bucket fp n (d.filed :: ps))) := by
  have hsec : 0 < formatSec d.ttl := one_le_formatSec d.pos
  have hstable : ∀ {vs os : List Shelved} {listed bounded : String → Prop},
      Stable (Until T (Shelf fp (1000*formatSec d.ttl) T vs os listed bounded)) :=
    stable_until fun s now hnow hT h => h.tick hnow hT
  have hall : (fun id => d.others n ps id ∨ id = d.filed.member) = Newest n (d.filed :: ps) :=
    funext fun id => propext (newest_cons hpos d.filed ps id).symm
  have hnot : ¬d.others n ps d.filed.member := fun h => h.2 rfl
  simp only [putCommands,List.cons_append,List.nil_append,d.fingerprint,hn]
  refine Leads.cons ?_ hstable fun s hs => hs.after fun h => h.hSet (p := d.filed) rfl hnot hnot _
  refine Leads.cons ?_ hstable fun s hs => hs.after fun h => h.expireEntry hsec d.filed.member
  refine Leads.cons ?_ hstable fun s hs => hs.after fun h => h.zAdd d.filed hnew
  rw [hall]
  refine Leads.cons ?_ hstable fun s hs => hs.after fun h => h.trim fun _ hid => hid
  refine Leads.cons ?_ hstable fun s hs => hs.after fun h => h.expireIndex hsec
  refine leads_keep (stable_until fun _ now _ _ h => h.tick now) fun op hop s hs =>
    hs.after fun h => ?_
  -- the team's and the scope's index
  have haside : Leaves op ∧ Skips (.index fp) op := by
    rw [List.mem_append] at hop
    obtain hop | hop := hop
    · split at hop
      · obtain rfl | rfl := by simpa using hop
        · exact ⟨trivial,by simp [Skips]⟩
        · exact ⟨trivial,by simp [Skips]⟩
      · simp at hop
    · split at hop
      · obtain rfl := by simpa using hop
        exact ⟨trivial,by simp [Skips]⟩
      · simp at hop
  exact h.aside haside.1 haside.2

theorem put_keeps (hn : cfg.maxCandidates = n) (hpos : 0 < n)
    (hnew : ∀ q ∈ ps,q.score < d.filed.score) (hreach : Reaching n ps d)
    (hs : Bucket fp n ps d.before) : Bucket fp n (d.filed :: ps) d.after := by
  obtain ⟨a,b,htrace,hops,hex,htrim⟩ := put_trims d.returns
  have hran := d.ran
  rw [htrace] at hran
  obtain ⟨m,hpipeline,hrest⟩ := ran_append hran
  have hshelf : Until d.after.now _ d.before := fun _ => hreach.shelf hs
  have hm := put_leads hn hpos hnew d.after.now _ _ _ hops hex hpipeline hshelf (ran_now hrest)
  obtain ⟨-,rfl⟩ | ⟨-,r,hret⟩ := htrim
  · exact bucket_stable.ran hrest (by simp) hm
  · refine bucket_stable.ran hrest (fun e he s h => ?_) hm
    obtain ⟨hleaves,hskips⟩ := hret.calls (trimScope_aside d.key) e he
    exact h.aside hleaves hskips

end Put

def unpacked (found : List (String × Option (List UInt8))) : List (String × List UInt32) :=
  found.filterMap fun p => p.2.map fun v => (p.1,unpackVector v)

def Shelved.candidate (p : Shelved) : String × List UInt32 := (p.member,p.data)

/-- What the HMGETs of a read tell about the records whose entries they ask for,
between the states s and u. -/
structure ReadBack (s u : Redis) (rs : List Shelved) (found : List (String × Option (List UInt8))) :
    Prop where
  order : (unpacked found).Sublist (rs.map Shelved.candidate)
  there : ∀ c ∈ unpacked found,s.entries c.1 ≠ none
  complete : ∀ p ∈ rs,u.entries p.member ≠ none → p.candidate ∈ unpacked found
  stale : ∀ id ∈ (found.filter fun p => p.2.isNone).map Prod.fst,u.entries id = none

section Candidates

variable {ps : List Shelved} {s u : Redis} {tr : List (Event Op Ans)}

theorem embedding_read {m : Redis} {p : Shelved} (hv : Vectors ps m) (hp : p ∈ latest ps) :
    (m.hash p.member).get? "embedding" =
      if m.entries p.member = none then none else some (packVector p.data) := by
  cases hm : m.entries p.member with
  | none => simp [Redis.hash,hm,Hash.empty,Hash.get?]
  | some x =>
    obtain ⟨q,hq,hqp,hvector⟩ := hv p.member x hm
    rw [hash_of_entry hm,hvector,eq_of_mem_latest hq hp hqp]
    rfl

theorem readEmbeddings_ran {rs : List Shelved} {found : List (String × Option (List UInt8))}
    (hret : (readEmbeddings (rs.map Filed.member)).Returns tr (.ok found)) (hrun : Ran s tr u)
    (hv : Vectors ps s) (hrs : rs ⊆ latest ps) : ReadBack s u rs found := by
  induction rs generalizing s tr found with
  | nil =>
    obtain ⟨rfl,hfound⟩ := returns_pure.1 hret
    obtain rfl := Except.ok.inj hfound
    exact ⟨.slnil,by simp [unpacked],by simp,by simp⟩
  | cons p rs ih =>
    rw [List.map_cons,readEmbeddings] at hret
    obtain ⟨r,tr₂,rfl,hrest₁⟩ := returns_perform_bind.1 hret
    obtain ⟨tr₃,rest,tr₄,rfl,hreads,hlast⟩ := returns_bind.1 hrest₁
    cases r with
    | error f => cases (returns_pure.1 hlast).2
    | ok v =>
      cases rest with
      | error f => cases (returns_pure.1 hlast).2
      | ok vs =>
        obtain ⟨rfl,hfound⟩ := returns_pure.1 hlast
        obtain rfl := Except.ok.inj hfound
        obtain ⟨m,hidle,hreply,hrun₂⟩ := ran_cons hrun rfl
        rw [List.append_nil] at hrun₂
        have hshrinks : Shrinks s m := shrinks_ran hidle (by simp)
        have hm : Vectors ps m := hv.shrinks hshrinks.entries
        obtain ⟨hp,hrs⟩ := List.cons_subset.1 hrs
        have hread : v = _ := (hreply v rfl).trans (embedding_read hm hp)
        have hrest : ReadBack m u rs vs := ih hreads hrun₂ hm hrs
        have hlater : Shrinks m u :=
          shrinks_ran hrun₂ (hreads.calls (readEmbeddings_calls (fun _ => Shrinks.refl) _))
        have hthere : ∀ id,m.entries id ≠ none → s.entries id ≠ none :=
          fun id hid hs => hid (hshrinks.absent hs)
        by_cases hgone : m.entries p.member = none
        · -- the entry has expired: the record is stale
          rw [if_pos hgone] at hread
          subst hread
          refine ⟨hrest.order.cons _,fun c hc => hthere _ (hrest.there c hc),fun q hq hlive => ?_,
            ?_⟩
          · obtain rfl | hq := List.mem_cons.1 hq
            · exact absurd (hlater.absent hgone) hlive
            · exact hrest.complete q hq hlive
          · intro id hid
            obtain rfl | hid := List.mem_cons.1 hid
            · exact hlater.absent hgone
            · exact hrest.stale id hid
        · rw [if_neg hgone] at hread
          subst hread
          have hcons : unpacked ((p.member,some (packVector p.data)) :: vs) =
              p.candidate :: unpacked vs := by
            simp [unpacked,unpackVector_packVector,Shelved.candidate]
          refine ⟨hcons ▸ hrest.order.cons_cons _,fun c hc => ?_,fun q hq hlive => ?_,hrest.stale⟩
          · rw [hcons] at hc
            obtain rfl | hc := List.mem_cons.1 hc
            · exact hthere _ hgone
            · exact hthere _ (hrest.there c hc)
          · rw [hcons]
            obtain rfl | hq := List.mem_cons.1 hq
            · exact List.mem_cons_self
            · exact List.mem_cons_of_mem _ (hrest.complete q hq hlive)

theorem Bucket.prune {fp : String} {n : Nat} {stale : List String} (h : Bucket fp n ps s)
    (hstale : ∀ id ∈ stale,s.entries id = none) :
    Bucket fp n ps (s.after (.zRem (.index fp) stale)) := by
  have hmembers : (s.after (.zRem (.index fp) stale)).members (.index fp) =
      zRem (s.members (.index fp)) stale := members_setMembers _ _ _
  refine ⟨h.vectors,by rw [hmembers]; exact h.order.sublist List.filter_sublist,
    fun p hp x hx => ?_⟩
  obtain ⟨z,hz,hlisted,hout⟩ := h.covered p hp x hx
  obtain ⟨q,hq,hqp⟩ := List.mem_map.1 hlisted
  have hlive : p.member ∉ stale := by
    intro hmem
    have hnone : s.entries p.member = none := hstale _ hmem
    rw [show s.entries p.member = some x from hx] at hnone
    cases hnone
  have hkept : q ∈ zRem (s.members (.index fp)) stale := by
    have hmem : q ∈ s.members (.index fp) := by simpa [Redis.members,hz] using hq
    exact List.mem_filter.2 ⟨hmem,by simpa [hqp] using hlive⟩
  have hindex : (s.after (.zRem (.index fp) stale)).zsets (.index fp) =
      some ⟨zRem (s.members (.index fp)) stale,(s.zsets (.index fp)).bind Timed.deadline⟩ :=
    setMembers_index (List.ne_nil_of_mem hkept)
  refine ⟨_,hindex,hqp ▸ List.mem_map_of_mem hkept,?_⟩
  rw [hz]
  exact hout

theorem candidates_ran {cfg : StoreConfig} {k : Key} {n : Nat}
    {r : Except String (List (String × List UInt32))} (hn : cfg.maxCandidates = n) (hpos : 0 < n)
    (hret : (candidates cfg k).Returns tr r) (hrun : Ran s tr u)
    (hs : Bucket k.fingerprint n ps s) :
    Bucket k.fingerprint n ps u ∧ ∀ cs,r = .ok cs →
      cs.Sublist ((latest ps).map Shelved.candidate) ∧ (∀ c ∈ cs,s.entries c.1 ≠ none) ∧
      ∀ p ∈ (latest ps).take n,u.entries p.member ≠ none → Shelved.candidate p ∈ cs := by
  unfold candidates at hret
  obtain ⟨f,hfail,rfl⟩ | ⟨tr₁,ids,tr₂,rfl,hask,hret₂⟩ := returns_orFail_cases hret
  · obtain rfl := returns_perform.1 hfail
    exact ⟨bucket_stable.ran hrun (by simp [Redis.after]) hs,by simp⟩
  obtain rfl := returns_perform.1 hask
  obtain ⟨m,hidle,hreply,hrun₂⟩ := ran_cons hrun rfl
  have hm : Bucket k.fingerprint n ps m := bucket_stable.ran hidle (by simp) hs
  obtain ⟨rs,hrs,hrecords⟩ := hm.order.records
  have hids : ids = (rs.take n).map Filed.member := by
    have hreplied : ids = (slice (m.members (.index k.fingerprint)).reverse 0
      (cfg.maxCandidates-1)).map Prod.snd := hreply ids rfl
    rw [hn,slice_take _ hpos,hrecords,← List.map_take,List.map_map] at hreplied
    exact hreplied
  subst hids
  have hreadsOnly : ∀ {tr' : List (Event Op Ans)} {x : Except Fault _},
      (readEmbeddings ((rs.take n).map Filed.member)).Returns tr' x →
      ∀ e ∈ tr',∀ m : Redis,m.after e.op = m :=
    fun h => h.calls (readEmbeddings_calls (P := fun op => ∀ m : Redis,m.after op = m)
      (fun _ _ => rfl) _)
  obtain ⟨f,hfail,rfl⟩ | ⟨tr₃,found,tr₄,rfl,hreads,hret₄⟩ := returns_orFail_cases hret₂
  · refine ⟨bucket_stable.ran hrun₂ (fun e he w hw => ?_) hm,by simp⟩
    rwa [hreadsOnly hfail e he w]
  obtain ⟨w,hrun₃,hrun₄⟩ := ran_append (show Ran m (tr₃ ++ tr₄) u from hrun₂)
  have hw : Bucket k.fingerprint n ps w :=
    bucket_stable.ran hrun₃ (fun e he w' hw' => by rwa [hreadsOnly hreads e he w']) hm
  have hback := readEmbeddings_ran hreads hrun₃ hm.vectors
    (List.Subset.trans (List.take_subset _ _) hrs.subset)
  have hpruned : Bucket k.fingerprint n ps u ∧ Shrinks w u ∧ r = .ok (unpacked found) := by
    simp only [] at hret₄
    split at hret₄
    · obtain ⟨ans,tr₆,rfl,hlast⟩ := returns_perform_bind.1 hret₄
      obtain ⟨rfl,rfl⟩ := returns_pure.1 hlast
      have hstable : Stable fun x => Bucket k.fingerprint n ps x ∧
          ∀ id ∈ (found.filter fun p => p.2.isNone).map Prod.fst,x.entries id = none := by
        intro x now _ hx
        exact ⟨hx.1.tick now,fun id hid => (shrinks_at x now).absent (hx.2 id hid)⟩
      have hsheds : Shedding (.zRem (.index k.fingerprint)
          ((found.filter fun p => p.2.isNone).map Prod.fst)) :=
        fun s => shrinks_setMembers fun p hp => List.mem_of_mem_filter hp
      refine ⟨(hstable.ran hrun₄ ?_ ⟨hw,hback.stale⟩).1,shrinks_ran hrun₄ (by simpa using hsheds),
        rfl⟩
      intro e he x hx
      obtain rfl := List.mem_singleton.1 he
      exact ⟨hx.1.prune hx.2,hx.2⟩
    · obtain ⟨rfl,rfl⟩ := returns_pure.1 hret₄
      exact ⟨bucket_stable.ran hrun₄ (by simp) hw,shrinks_ran hrun₄ (by simp),rfl⟩
  obtain ⟨hu,hlater,rfl⟩ := hpruned
  refine ⟨hu,fun cs hcs => ?_⟩
  obtain rfl := Except.ok.inj hcs
  have hearlier : Shrinks s m := shrinks_ran hidle (by simp)
  refine ⟨hback.order.trans (((List.take_sublist _ _).trans hrs).map _),
    fun c hc hnone => hback.there c hc (hearlier.absent hnone),fun p hp hlive => ?_⟩
  have hlive₁ : w.entries p.member ≠ none := fun hnone => hlive (hlater.absent hnone)
  have hreadsShed : Shrinks m w :=
    shrinks_ran hrun₃ (hreads.calls (readEmbeddings_calls (fun _ => Shrinks.refl) _))
  obtain ⟨x,hx⟩ := Option.ne_none_iff_exists'.1 fun hnone => hlive₁ (hreadsShed.absent hnone)
  obtain ⟨z,hz,hlisted,-⟩ := hm.covered p hp x hx
  have hscored : p.scored ∈ (m.members (.index k.fingerprint)).reverse := by
    refine List.mem_reverse.2 (hm.order.scored_mem (List.mem_of_mem_take hp) ?_)
    simpa [Redis.members,hz] using hlisted
  rw [hrecords] at hscored
  obtain ⟨q,hq,hqp⟩ := List.mem_map.1 hscored
  obtain rfl := eq_of_mem_latest (hrs.subset hq) (List.mem_of_mem_take hp) (congrArg Prod.snd hqp)
  refine hback.complete q (mem_take_of_sublist hrs ?_ hq hp) hlive₁
  exact (latest_members_nodup ps).of_map _

end Candidates

/-- Puts, reads and expiries of one bucket in turn, from an empty cache. The scores
of the Puts increase, and each of them meets the condition. -/
inductive BucketRun (cfg : StoreConfig) (fp : String)
    (cond : List Shelved → BucketPut cfg fp → Prop) : List Shelved → Redis → Prop where
  | start : BucketRun cfg fp cond [] .empty
  | put {ps : List Shelved} (d : BucketPut cfg fp) : BucketRun cfg fp cond ps d.before →
      (∀ q ∈ ps,q.score < d.filed.score) → cond ps d → BucketRun cfg fp cond (d.filed :: ps) d.after
  | candidates {ps : List Shelved} {s u : Redis} {k : Key} {tr : List (Event Op Ans)}
      {r : Except String (List (String × List UInt32))} : BucketRun cfg fp cond ps s →
      k.fingerprint = fp → (candidates cfg k).Returns tr r → Ran s tr u → BucketRun cfg fp cond ps u
  | wait {ps : List Shelved} {s u : Redis} : BucketRun cfg fp cond ps s → Tick s u →
      BucketRun cfg fp cond ps u

theorem BucketRun.bucket {cfg : StoreConfig} {fp : String} {n : Nat} {ps : List Shelved} {s : Redis}
    (hn : cfg.maxCandidates = n) (hpos : 0 < n) (hrun : BucketRun cfg fp (Reaching n) ps s) :
    Bucket fp n ps s := by
  induction hrun with
  | start => exact ⟨by simp [Vectors,Redis.empty],.slnil,by simp [latest]⟩
  | put d _ hnew hreach ih => exact put_keeps hn hpos hnew hreach ih
  | candidates _ hk hret hread ih =>
    subst hk
    exact (candidates_ran hn hpos hret hread ih).1
  | wait _ htick ih =>
    obtain ⟨now,-,rfl⟩ := htick
    exact ih.tick now

/-- Where every Put reaches: Candidates returns entries of the bucket newest first,
each with the vector it was last put with, none that had expired before the
call, and every one that is there after it and among the n put last. -/
theorem candidates_find_newest {cfg : StoreConfig} {fp : String} {n : Nat} {ps : List Shelved}
    {s u : Redis} {k : Key} {tr : List (Event Op Ans)} {cs : List (String × List UInt32)}
    (hn : cfg.maxCandidates = n) (hpos : 0 < n) (hrun : BucketRun cfg fp (Reaching n) ps s)
    (hk : k.fingerprint = fp) (hret : (candidates cfg k).Returns tr (.ok cs)) (hread : Ran s tr u) :
    cs.Sublist ((latest ps).map Shelved.candidate) ∧ (∀ c ∈ cs,s.entries c.1 ≠ none) ∧
      ∀ p ∈ (latest ps).take n,u.entries p.member ≠ none → Shelved.candidate p ∈ cs := by
  subst hk
  exact (candidates_ran hn hpos hret hread (hrun.bucket hn hpos)).2 cs rfl

def shelfEntry (created : Int) : Entry := ⟨"answer",.stop,1,1,"m","p",some created,0,[7]⟩

theorem shelf_ttl_pos (seconds : Nat) : (0 : Int) < 1000000000*(seconds+1) := by omega

/-- A Put of the bucket on a Redis without failures, its TTL in seconds. -/
def shelfPut (id : String) (seconds : Nat) (created : Int) (s : Redis)
    (h : ((put ⟨100,1000⟩ (teamKey id) (shelfEntry created) (1000000000*(seconds+1)) 0).exec
      Redis.serve s).2.1 = .ok ()) : BucketPut ⟨100,1000⟩ "f" where
  key := teamKey id
  entry := shelfEntry created
  ttl := 1000000000*(seconds+1)
  clock := 0
  before := s
  trace := ((put ⟨100,1000⟩ (teamKey id) (shelfEntry created) (1000000000*(seconds+1)) 0).exec
    Redis.serve s).1
  after := ((put ⟨100,1000⟩ (teamKey id) (shelfEntry created) (1000000000*(seconds+1)) 0).exec
    Redis.serve s).2.2
  fingerprint := rfl
  pos := shelf_ttl_pos seconds
  returns := h ▸ returns_exec Redis.serve _ s
  ran := ran_serve _ s

def longShelf : BucketPut ⟨100,1000⟩ "f" := shelfPut "a" 99 0 .empty (by decide +kernel)

def shortShelf : BucketPut ⟨100,1000⟩ "f" := shelfPut "b" 0 1 longShelf.after (by decide +kernel)

def equalShelf : BucketPut ⟨100,1000⟩ "f" := shelfPut "b" 99 1 longShelf.after (by decide +kernel)

theorem candidates_find_two :
    ∃ tr cs u,(candidates ⟨100,1000⟩ (teamKey "a")).Returns tr (.ok cs) ∧
      Ran equalShelf.after tr u ∧ ("a",[7]) ∈ cs ∧ ("b",[7]) ∈ cs := by
  have hfirst : Reaching 100 [] longShelf := by
    refine ⟨fun id hid hne => ?_,fun z deadline hz => ?_⟩
    · have hself : id = longShelf.filed.member := by simpa [Newest,latest] using hid
      exact absurd hself hne
    · simp [longShelf,shelfPut,Redis.empty] at hz
  have hlatest :
      latest [equalShelf.filed,longShelf.filed] = [equalShelf.filed,longShelf.filed] := by
    decide +kernel
  have hsecond : Reaching 100 [longShelf.filed] equalShelf := by
    refine ⟨fun id hid hne x hx => ?_,fun z deadline hz hd => ?_⟩
    · have hid : id = equalShelf.filed.member ∨ id = longShelf.filed.member := by
        simpa [Newest,hlatest] using hid
      obtain rfl : id = "a" := hid.resolve_left hne
      exact ⟨100000,Timed.deadline_of_bind (by decide +kernel) hx,by decide +kernel⟩
    · have hindex : z.deadline = some 100000 := Timed.deadline_of_bind (by decide +kernel) hz
      obtain rfl := Option.some.inj (hindex.symm.trans hd)
      decide +kernel
  have hlong : BucketRun ⟨100,1000⟩ "f" (Reaching 100) [longShelf.filed] longShelf.after :=
    .put longShelf (show BucketRun _ _ _ [] longShelf.before from .start) (by simp) hfirst
  have hscores : longShelf.filed.score < equalShelf.filed.score := by decide +kernel
  have hrun : BucketRun ⟨100,1000⟩ "f" (Reaching 100) [equalShelf.filed,longShelf.filed]
      equalShelf.after :=
    .put equalShelf (show BucketRun _ _ _ _ equalShelf.before from hlong) (by simpa using hscores)
      hsecond
  let read := (candidates ⟨100,1000⟩ (teamKey "a")).exec Redis.serve equalShelf.after
  obtain ⟨hret,hread⟩ := returns_serve
    (by decide +kernel : read.2.1 = .ok [("b",[7]),("a",[7])])
  obtain ⟨-,-,hfound⟩ := candidates_find_newest (n := 100) rfl (by decide) hrun rfl hret hread
  have hthere : ∀ id ∈ ["a","b"],(read.2.2.entries id).isSome = true := by decide +kernel
  refine ⟨_,_,_,hret,hread,hfound longShelf.filed (by simp [hlatest]) ?_,
    hfound equalShelf.filed (by simp [hlatest]) ?_⟩
  · exact Option.isSome_iff_ne_none.1 (hthere "a" (by simp))
  · exact Option.isSome_iff_ne_none.1 (hthere "b" (by simp))

/-- Two seconds after the two Puts the index is gone: Candidates returns nothing,
and the first entry is still there. -/
theorem short_put_hides_candidate :
    BucketRun ⟨100,1000⟩ "f" (fun _ _ => True) [shortShelf.filed,longShelf.filed]
      (shortShelf.after.at 2000) ∧
    ∃ tr u,(candidates ⟨100,1000⟩ (teamKey "a")).Returns tr (.ok []) ∧
      Ran (shortShelf.after.at 2000) tr u ∧
      longShelf.filed ∈ (latest [shortShelf.filed,longShelf.filed]).take 100 ∧
      u.entries longShelf.filed.member ≠ none := by
  have hlong : BucketRun ⟨100,1000⟩ "f" (fun _ _ => True) [longShelf.filed] longShelf.after :=
    .put longShelf (show BucketRun _ _ _ [] longShelf.before from .start) (by simp) trivial
  have hscores : longShelf.filed.score < shortShelf.filed.score := by decide +kernel
  have hshort : BucketRun ⟨100,1000⟩ "f" (fun _ _ => True) [shortShelf.filed,longShelf.filed]
      shortShelf.after :=
    .put shortShelf (show BucketRun _ _ _ _ shortShelf.before from hlong) (by simpa using hscores)
      trivial
  have htick : Tick shortShelf.after (shortShelf.after.at 2000) := ⟨2000,by decide +kernel,rfl⟩
  let read := (candidates ⟨100,1000⟩ (teamKey "a")).exec Redis.serve (shortShelf.after.at 2000)
  obtain ⟨hret,hread⟩ := returns_serve (by decide +kernel : read.2.1 = .ok [])
  have hthere : (read.2.2.entries "a").isSome = true := by decide +kernel
  exact ⟨.wait hshort htick,_,_,hret,hread,by decide +kernel,Option.isSome_iff_ne_none.1 hthere⟩

end Switchyard.Cache
