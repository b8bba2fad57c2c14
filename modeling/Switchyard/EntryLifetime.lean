import Switchyard.TeamPurge
set_option autoImplicit false

/-!
How long an entry's hash lives: which commands make it, date it and end it, and
what a hit counted too late leaves behind (internal/cache/store.go).
-/

namespace Switchyard.Cache
open GoText RedisData CallTree

inductive EntryChange (s : Redis) (id : String) : Op → Option (Timed Hash) → Prop where
  | put (fields : List (String × List UInt8)) : EntryChange s id (.hSet id fields)
      (some ⟨(s.hash id).putAll fields,(s.entries id).bind Timed.deadline⟩)
  | counted {field : String} {n m : Int} : incremented (s.hash id) field n = some m →
      EntryChange s id (.hIncrBy id field n)
        (some ⟨(s.hash id).put field (bytes (formatInt m)),(s.entries id).bind Timed.deadline⟩)
  | dated {ttl : Int} : 0 < formatSec ttl → EntryChange s id (.expire (.entry id) ttl)
      ((s.entries id).map fun t => ⟨t.value,some (s.now+1000*formatSec ttl)⟩)
  | gone (op : Op) : EntryChange s id op none
  | kept {op : Op} : (∀ fields,op ≠ .hSet id fields) → (∀ ttl,op ≠ .expire (.entry id) ttl) →
      EntryChange s id op (s.entries id)

def Passes (id : String) : Op → Prop
  | .hSet j _ => j ≠ id
  | .hIncrBy j _ _ => j ≠ id
  | .expire (.entry j) _ => j ≠ id
  | .del keys => .entry id ∉ keys
  | _ => True

variable {id : String}

theorem entries_passes {op : Op} (h : Passes id op) (s : Redis) :
    (s.after op).entries id = s.entries id := by
  cases op with
  | hSet j fields => exact Function.update_of_ne (Ne.symm h) _ _
  | hIncrBy j field n =>
    simp only [Redis.after]
    split
    · rfl
    · exact Function.update_of_ne (Ne.symm h) _ _
  | expire key ttl =>
    simp only [Redis.after,Redis.expire]
    cases key with
    | zset key => split <;> rfl
    | entry j =>
      split
      · exact Function.update_of_ne (Ne.symm h) _ _
      · exact Function.update_of_ne (Ne.symm h) _ _
  | del keys => exact deleteAll_other h
  | _ => rfl

theorem entryChange_after (s : Redis) (op : Op) (id : String) :
    EntryChange s id op ((s.after op).entries id) := by
  by_cases hpass : Passes id op
  · rw [entries_passes hpass]
    refine .kept (fun fields heq => ?_) (fun ttl heq => ?_)
    · subst heq
      exact hpass rfl
    · subst heq
      exact hpass rfl
  cases op with
  | hSet j fields =>
    obtain rfl : j = id := not_not.1 hpass
    have hafter : (s.after (.hSet j fields)).entries j =
        some ⟨(s.hash j).putAll fields,(s.entries j).bind Timed.deadline⟩ :=
      Function.update_self _ _ _
    rw [hafter]
    exact .put fields
  | hIncrBy j field n =>
    obtain rfl : j = id := not_not.1 hpass
    simp only [Redis.after]
    cases hm : incremented (s.hash j) field n with
    | none => exact .kept (by simp) (by simp)
    | some m =>
      have hafter : (s.setHash j ((s.hash j).put field (bytes (formatInt m)))).entries j =
          some ⟨(s.hash j).put field (bytes (formatInt m)),(s.entries j).bind Timed.deadline⟩ :=
        Function.update_self _ _ _
      simp only [hafter]
      exact .counted hm
  | expire key ttl =>
    cases key with
    | zset key => exact absurd trivial hpass
    | entry j =>
      obtain rfl : j = id := not_not.1 hpass
      simp only [Redis.after,Redis.expire]
      split
      · have hgone : (s.delete (.entry j)).entries j = none := Function.update_self _ _ _
        rw [hgone]
        exact .gone _
      · rename_i hsec
        have hafter : (s.setDeadline (.entry j) (s.now+1000*formatSec ttl)).entries j = _ :=
          Function.update_self _ _ _
        rw [hafter]
        exact .dated (by omega)
  | del keys =>
    have hgone : (s.after (.del keys)).entries id = none := deleteAll_entry (not_not.1 hpass)
    rw [hgone]
    exact .gone _
  | _ => exact absurd trivial hpass

def FindsEntry (s : Redis) (e : Event Op Ans) : Prop :=
  ∀ id field n,e.op = .hIncrBy id field n → executed e = true → s.entries id ≠ none

/-- One command, none of them a hit counted too late. -/
def Punctual (s : Redis) (e : Event Op Ans) (t : Redis) : Prop := Exec s e t ∧ FindsEntry s e

def Undated (past : List (Step Op Ans)) (id : String) : Prop :=
  ∃ a x b,past = a ++ x :: b ∧ (∃ fields,x.event.op = .hSet id fields) ∧
    executed x.event = true ∧ ∀ y ∈ b,executed y.event = true →
      (∀ fields,y.event.op ≠ .hSet id fields) ∧ ∀ ttl,y.event.op ≠ .expire (.entry id) ttl

theorem Undated.snoc {past : List (Step Op Ans)} {x : Step Op Ans}
    (h : Undated past id) (hx : executed x.event = true →
      (∀ fields,x.event.op ≠ .hSet id fields) ∧ ∀ ttl,x.event.op ≠ .expire (.entry id) ttl) :
    Undated (past ++ [x]) id := by
  obtain ⟨a,y,b,rfl,hop,hex,hb⟩ := h
  refine ⟨a,y,b ++ [x],by simp,hop,hex,fun z hz => ?_⟩
  obtain hz | hz := List.mem_append.1 hz
  · exact hb z hz
  · obtain rfl := List.mem_singleton.1 hz
    exact hx

/-- An entry that is no stub, and has a deadline ahead unless its last Put has not
dated it yet. -/
structure Dated (past : List (Step Op Ans)) (now : Int) (id : String) (x : Timed Hash) : Prop where
  created : x.value.get? "created_at" ≠ none
  undated : x.deadline = none → Undated past id
  ahead : ∀ d,x.deadline = some d → now < d

def AllDated (past : List (Step Op Ans)) (s : Redis) : Prop :=
  ∀ id x,s.entries id = some x → Dated past s.now id x

variable {s : Redis}

theorem hash_of_entry {x : Timed Hash} (h : s.entries id = some x) : s.hash id = x.value := by
  simp [Redis.hash,h]

section Steps

variable {Owner : Nat → KeySource → Entry → Int → Prop} {past : List (Step Op Ans)} {s t : Redis}
  {x : Step Op Ans}

theorem Permitted.hits {field : String} {n : Int} (h : Permitted Owner x)
    (hop : x.event.op = .hIncrBy id field n) : field = "hits" := by
  obtain hharm | ⟨src,e,now,-,-,heq | ⟨score,heq⟩⟩ := h
  · rw [hop] at hharm
    exact hharm
  · rw [hop] at heq
    cases heq
  · rw [hop] at heq
    cases heq

theorem Permitted.fields {fs : List (String × List UInt8)} (h : Permitted Owner x)
    (hop : x.event.op = .hSet id fs) : ∃ e now,fs = putFields e now := by
  obtain hharm | ⟨src,e,now,-,-,heq | ⟨score,heq⟩⟩ := h
  · rw [hop] at hharm
    exact hharm.elim
  · rw [hop] at heq
    obtain ⟨-,rfl⟩ := Op.hSet.inj heq
    exact ⟨e,now,rfl⟩
  · rw [hop] at heq
    cases heq

theorem created_putFields (h : Hash) (e : Entry) (now : Int) :
    (h.putAll (putFields e now)).get? "created_at" ≠ none := by
  have hholds := holds_putAll h e now ("created_at",bytes (formatInt now)) (by simp [putFields])
    (by simp)
  simp [hholds]

theorem AllDated.step (h : AllDated past s) (hx : Permitted Owner x)
    (hstep : Punctual s x.event t) : AllDated (past ++ [x]) t := by
  obtain ⟨⟨-,rfl⟩,hfinds⟩ := hstep
  intro id y hy
  by_cases hex : executed x.event = true
  · rw [if_pos hex] at hy ⊢
    rw [after_now]
    have hchange := entryChange_after s x.event.op id
    rw [hy] at hchange
    generalize hop : x.event.op = op at hchange
    generalize hv : some y = v at hchange
    cases hchange with
    | put fields =>
      obtain rfl := Option.some.inj hv
      obtain ⟨e,now,rfl⟩ := hx.fields hop
      refine ⟨created_putFields _ e now,fun _ => ⟨past,x,[],rfl,⟨_,hop⟩,hex,by simp⟩,fun d hd => ?_⟩
      obtain ⟨z,hz,hzd⟩ := Option.bind_eq_some_iff.1 hd
      exact (h id z hz).ahead d hzd
    | counted hm =>
      obtain rfl := Option.some.inj hv
      obtain rfl := hx.hits hop
      cases hs : s.entries id with
      | none => exact absurd hs (hfinds id _ _ hop hex)
      | some z =>
        have hz := h id z hs
        refine ⟨?_,fun hd => (hz.undated hd).snoc fun _ => by simp [hop],hz.ahead⟩
        rw [Hash.get?_put,if_neg (by simp),hash_of_entry hs]
        exact hz.created
    | dated hpos =>
      obtain ⟨z,hz,rfl⟩ := Option.map_eq_some_iff.1 hv.symm
      refine ⟨(h id z hz).created,by simp,fun d hd => ?_⟩
      obtain rfl := Option.some.inj hd
      omega
    | gone op => cases hv
    | kept hset hexpire =>
      have hz := h id y hv.symm
      exact ⟨hz.created,fun hd => (hz.undated hd).snoc fun _ => hop ▸ ⟨hset,hexpire⟩,hz.ahead⟩
  · rw [if_neg hex] at hy ⊢
    have hz := h id y hy
    exact ⟨hz.created,fun hd => (hz.undated hd).snoc fun hex' => absurd hex' hex,hz.ahead⟩

theorem AllDated.tick (h : AllDated past s) (hticks : Tick s t) : AllDated past t := by
  obtain ⟨now,-,rfl⟩ := hticks
  intro id x hx
  obtain ⟨hx,halive⟩ := Option.filter_eq_some_iff.1 hx
  have hz := h id x hx
  refine ⟨hz.created,hz.undated,fun d hd => ?_⟩
  simpa [Redis.at,Timed.aliveAt,hd] using halive

end Steps

variable {Owner : Nat → KeySource → Entry → Int → Prop}

theorem allDated_served {h : List (Step Op Ans)}
    (hrun : Served Punctual Tick Redis.empty h s) (hok : ∀ x ∈ h,Permitted Owner x) :
    AllDated h s := by
  have hempty : AllDated [] Redis.empty := by simp [AllDated,Redis.empty]
  have hinv := hrun.invariant (fun _ _ _ _ hs hx hstep => hs.step hx hstep)
    (fun _ _ _ hs htick => hs.tick htick) hok hempty
  simpa using hinv

theorem last_split {α : Type} {P : α → Prop} {x y : α} {a b a' b' : List α}
    (h : a ++ x :: b = a' ++ y :: b') (hx : P x) (hy : P y) (hb : ∀ z ∈ b,¬P z)
    (hb' : ∀ z ∈ b',¬P z) : a = a' ∧ x = y ∧ b = b' := by
  obtain ⟨c,rfl,hc⟩ | ⟨c,rfl,hc⟩ := List.append_eq_append_iff.1 h
  · cases c with
    | nil =>
      obtain ⟨rfl,rfl⟩ := List.cons.inj hc
      simp
    | cons z c =>
      obtain ⟨-,rfl⟩ := List.cons.inj hc
      exact absurd hy (hb y (by simp))
  · cases c with
    | nil =>
      obtain ⟨rfl,rfl⟩ := List.cons.inj hc
      simp
    | cons z c =>
      obtain ⟨-,rfl⟩ := List.cons.inj hc
      exact absurd hx (hb' x (by simp))

theorem LastPut.undated {past : List (Step Op Ans)} {j : Nat} {e : Entry} {now : Int}
    (h : LastPut past id j e now) (hun : Undated past id) :
    ∃ a x b,past = a ++ x :: b ∧ x.thread = j ∧ x.event.op = .hSet id (putFields e now) ∧
      ∀ y ∈ b,executed y.event = true → ∀ ttl,y.event.op ≠ .expire (.entry id) ttl := by
  obtain ⟨a,x,b,rfl,hj,hop,hex,hb⟩ := h
  obtain ⟨a',x',b',hsplit,⟨fs,hop'⟩,hex',hb'⟩ := hun
  obtain ⟨rfl,rfl,rfl⟩ := last_split
    (P := fun y => executed y.event = true ∧ ∃ fs,y.event.op = .hSet id fs) hsplit
    ⟨hex,_,hop⟩ ⟨hex',fs,hop'⟩ (fun y hy hP => hP.2.elim fun fs => hb y hy hP.1 fs)
    (fun y hy hP => hP.2.elim fun fs => (hb' y hy hP.1).1 fs)
  exact ⟨a,x,b,rfl,hj,hop,fun y hy hey => (hb' y hy hey).2⟩

def NoWrite (op : Op) : Prop := ∀ id fields,op ≠ .hSet id fields

theorem pipeline_opens {P : Op → Prop} {op : Op} {ops : List Op} (h : ∀ o ∈ ops,P o) :
    (pipeline (op :: ops)).Opens op P := by
  have hfirst : (perform op : Program (Ans op)).Opens op P := ⟨rfl,fun _ => trivial⟩
  refine opens_bind hfirst fun r => calls_bind (pipeline_calls h) fun rest => ?_
  cases r <;> exact calls_pure _

theorem put_opens (cfg : StoreConfig) (k : Key) (e : Entry) (ttl clock : Int) :
    (put cfg k e ttl clock).Opens (.hSet k.entryID (putFields e (e.createdAt.getD clock)))
      NoWrite := by
  have htail : ∀ op ∈ (putCommands cfg k e (e.createdAt.getD clock) ttl).tail,NoWrite op := by
    intro op hop id fields heq
    subst heq
    simp only [putCommands,List.cons_append,List.tail_cons,List.mem_cons,List.mem_append] at hop
    split at hop <;> split at hop <;> simp at hop
  refine opens_orFail (pipeline_opens htail) fun _ => ?_
  split
  · exact calls_bind (trimScope_calls (by simp [NoWrite]) (by simp [NoWrite]) (by simp [NoWrite])
      (by simp [NoWrite]) cfg) fun _ => calls_pure _
  · exact calls_pure _

theorem noWrite_of_harmless {op : Op} (h : Harmless op) : NoWrite op := by
  intro id fields heq
  rw [heq] at h
  exact h

theorem hSet_first {c : Setup} {tasks : List Task} {a b : List (Step Op Ans)} {x : Step Op Ans}
    (hint : Interleaves (tasks.map (Task.program c)) (a ++ x :: b))
    {fields : List (String × List UInt8)} (hop : x.event.op = .hSet id fields) :
    traceOf x.thread a = [] := by
  obtain ⟨p,hp,q,hafter⟩ := hint x (by simp)
  rw [traceOf_append,traceOf_cons_self] at hafter
  rw [List.getElem?_map] at hp
  obtain ⟨task,htask,rfl⟩ := Option.map_eq_some_iff.1 hp
  have hwrites : ¬NoWrite x.event.op := fun h => h id fields hop
  obtain hcalls | ⟨src,embedding,e,ttl,clock,fits,rfl⟩ := task.harmless_or_store c
  · exact absurd (noWrite_of_harmless (hafter.calls hcalls x.event (by simp))) hwrites
  · exact (opens_bind (opens_bind (put_opens c.store src.key { e with embedding } ttl clock)
      fun _ => calls_pure ()) fun _ => calls_pure (none : Option Result)).head hafter hwrites

theorem Dated.deadline {c : Setup} {tasks : List Task} {h : List (Step Op Ans)} {now' : Int}
    {x : Timed Hash} {j : Nat} {e : Entry} {now ttl : Int} {y : Step Op Ans}
    (hx : Dated h now' id x) (hint : Interleaves (tasks.map (Task.program c)) h)
    (hlast : LastPut h id j e now) (hy : y ∈ h) (hj : y.thread = j)
    (hop : y.event.op = .expire (.entry id) ttl) (hex : executed y.event = true) :
    ∃ d,x.deadline = some d ∧ now' < d := by
  cases hd : x.deadline with
  | some d => exact ⟨d,rfl,hx.ahead d hd⟩
  | none =>
    obtain ⟨a,z,b,rfl,rfl,hput,hb⟩ := hlast.undated (hx.undated hd)
    have hfirst := hSet_first hint hput
    simp only [List.mem_append,List.mem_cons] at hy
    obtain hy | rfl | hy := hy
    · have hmem : y.event ∈ traceOf z.thread a := mem_traceOf.2 (by rw [← hj]; exact hy)
      simp [hfirst] at hmem
    · rw [hop] at hput
      cases hput
    · exact absurd hop (hb y hy hex ttl)

section Later

variable {s u : Redis} {h : List (Step Op Ans)} {id : String}

theorem absent_served (hrun : Served Punctual Tick s h u)
    (hno : ∀ x ∈ h,executed x.event = true → ∀ fields,x.event.op ≠ .hSet id fields)
    (hs : s.entries id = none) : u.entries id = none := by
  refine hrun.keeps (I := fun s => s.entries id = none) ?_ ?_ hno hs
  · intro m x t hm hx hstep
    obtain ⟨⟨-,rfl⟩,hfinds⟩ := hstep
    by_cases hex : executed x.event = true
    · rw [if_pos hex]
      have hchange := entryChange_after m x.event.op id
      generalize hop : x.event.op = op at hchange
      generalize (m.after op).entries id = v at hchange
      cases hchange with
      | put fields => exact absurd hop (hx hex fields)
      | counted hsum => exact absurd hm (hfinds id _ _ hop hex)
      | dated hpos => rw [hm]; rfl
      | gone op => rfl
      | kept hset hexpire => exact hm
    · rwa [if_neg hex]
  · intro m t hm htick
    obtain ⟨now,-,rfl⟩ := htick
    simp [Redis.at,hm]

theorem ends_served {d : Int} (hrun : Served Punctual Tick s h u)
    (hno : ∀ x ∈ h,executed x.event = true → (∀ fields,x.event.op ≠ .hSet id fields) ∧
      ∀ ttl,x.event.op ≠ .expire (.entry id) ttl)
    (hs : ∀ x,s.entries id = some x → x.deadline = some d ∧ s.now < d) :
    ∀ x,u.entries id = some x → x.deadline = some d ∧ u.now < d := by
  refine hrun.keeps (I := fun s => ∀ x,s.entries id = some x → x.deadline = some d ∧ s.now < d)
    ?_ ?_ hno hs
  · intro m x t hm hx hstep y hy
    obtain ⟨⟨-,rfl⟩,hfinds⟩ := hstep
    by_cases hex : executed x.event = true
    · rw [if_pos hex] at hy ⊢
      rw [after_now]
      have hchange := entryChange_after m x.event.op id
      rw [hy] at hchange
      generalize hop : x.event.op = op at hchange
      generalize hv : some y = v at hchange
      cases hchange with
      | put fields => exact absurd hop ((hx hex).1 fields)
      | counted hsum =>
        obtain rfl := Option.some.inj hv
        cases hz : m.entries id with
        | none => exact absurd hz (hfinds id _ _ hop hex)
        | some z => exact hm z hz
      | dated hpos => exact absurd hop ((hx hex).2 _)
      | gone op => cases hv
      | kept hset hexpire => exact hm y hv.symm
    · rw [if_neg hex] at hy ⊢
      exact hm y hy
  · intro m t hm htick y hy
    obtain ⟨now,-,rfl⟩ := htick
    obtain ⟨hy,halive⟩ := Option.filter_eq_some_iff.1 hy
    have hd := (hm y hy).1
    exact ⟨hd,by simpa [Redis.at,Timed.aliveAt,hd] using halive⟩

end Later

theorem hIncrBy_absent (hnone : s.entries id = none) (n : Int) :
    (s.after (.hIncrBy id "hits" n)).entries id =
      some ⟨Hash.empty.put "hits" (bytes (formatInt n)),none⟩ := by
  simp [Redis.after,incremented,Redis.hash,Redis.setHash,hnone,Hash.get?,Hash.empty]

theorem stub_undecodable (v : List UInt8) (e : Entry) :
    decodeEntry (Hash.empty.put "hits" v) ≠ .ok e := by
  apply decodeEntry_no_created
  rw [Hash.get?_put,if_neg (by simp)]
  rfl

theorem late_hit_stub {t : Redis} {x : Step Op Ans}
    (hx : Permitted Owner x) (hexec : Exec s x.event t) (hlate : ¬FindsEntry s x.event) :
    ∃ id y,t.entries id = some y ∧ y.deadline = none ∧ ∀ e,decodeEntry y.value ≠ .ok e := by
  simp only [FindsEntry,not_forall,not_not] at hlate
  obtain ⟨id,field,n,hop,hex,hnone⟩ := hlate
  obtain rfl := hx.hits hop
  obtain ⟨-,rfl⟩ := hexec
  rw [if_pos hex,hop]
  exact ⟨id,_,hIncrBy_absent hnone n,rfl,stub_undecodable _⟩

/-- In every history without a late hit: each entry decodes, holds its last Put and
has a deadline ahead once that Put's EXPIRE was executed; an entry that is gone
comes back only by another Put; none is there past its TTL. The first late hit
leaves an entry that does not decode and has no deadline. -/
theorem entries_expire {c : Setup} {tasks : List Task} {h : List (Step Op Ans)} {s : Redis}
    (hint : Interleaves (tasks.map (Task.program c)) h)
    (hrun : Served Punctual Tick Redis.empty h s) :
    (∀ id x,s.entries id = some x → (∃ e,decodeEntry x.value = .ok e) ∧
      ∃ j src e now,TaskOwner tasks j src e now ∧ src.key.entryID = id ∧ LastPut h id j e now ∧
        Holds x.value e now ∧ ((∃ ttl,∃ y ∈ h,y.thread = j ∧
          y.event.op = .expire (.entry id) ttl ∧ executed y.event = true) →
          ∃ d,x.deadline = some d ∧ s.now < d)) ∧
    (∀ a b t id,h = a ++ b → Served Punctual Tick Redis.empty a t → Served Punctual Tick t b s →
      t.entries id = none → s.entries id ≠ none →
      ∃ x ∈ b,executed x.event = true ∧ ∃ fields,x.event.op = .hSet id fields) ∧
    (∀ a x b t t' id ttl,h = a ++ x :: b → Served Punctual Tick Redis.empty a t →
      x.event.op = .expire (.entry id) ttl → executed x.event = true → Punctual t x.event t' →
      Served Punctual Tick t' b s →
      (∀ y ∈ b,executed y.event = true → (∀ fields,y.event.op ≠ .hSet id fields) ∧
        ∀ ttl',y.event.op ≠ .expire (.entry id) ttl') →
      s.entries id ≠ none → s.now < t.now+1000*formatSec ttl) ∧
    (∀ x t,Interleaves (tasks.map (Task.program c)) (h ++ [x]) → Exec s x.event t →
      ¬FindsEntry s x.event →
      ∃ id y,t.entries id = some y ∧ y.deadline = none ∧ ∀ e,decodeEntry y.value ≠ .ok e) := by
  have hpermitted := permitted_of_interleaves hint
  have hdated := allDated_served hrun hpermitted
  have hplain : Served Exec Tick Redis.empty h s := hrun.imp fun _ _ _ hstep => hstep.1
  refine ⟨?_,?_,?_,?_⟩
  · intro id x hx
    obtain hstub | ⟨j,src,e,now,hown,hfit,hid,hlast,hholds⟩ :=
      (provenance_served hplain hpermitted).entries id x hx
    · exact absurd hstub (hdated id x hx).created
    · refine ⟨⟨_,decodeEntry_holds hholds hfit⟩,j,src,e,now,hown,hid,hlast,hholds,?_⟩
      rintro ⟨ttl,y,hy,hj,hop,hex⟩
      exact (hdated id x hx).deadline hint hlast hy hj hop hex
  · intro a b t id _ _ hlater hgone hback
    by_contra hno
    refine hback (absent_served hlater (fun x hx hex fields hop => ?_) hgone)
    exact hno ⟨x,hx,hex,fields,hop⟩
  · intro a x b t t' id ttl _ _ hop hex hstep hlater hno hthere
    obtain ⟨⟨-,rfl⟩,-⟩ := hstep
    obtain ⟨y,hy⟩ := Option.ne_none_iff_exists'.1 hthere
    refine (ends_served hlater hno (fun z hz => ?_) y hy).2
    rw [if_pos hex,hop] at hz ⊢
    rw [after_now]
    have hchange := entryChange_after t (.expire (.entry id) ttl) id
    rw [hz] at hchange
    generalize hv : some z = v at hchange
    cases hchange with
    | dated hpos =>
      obtain ⟨w,-,rfl⟩ := Option.map_eq_some_iff.1 hv.symm
      exact ⟨rfl,by omega⟩
    | gone => cases hv
    | kept _ hexpire => exact absurd rfl (hexpire ttl)
  · intro x t hnext hexec hlate
    exact late_hit_stub (permitted_of_interleaves hnext x (by simp)) hexec hlate

def minuteSetup : Setup :=
  ⟨⟨fun _ _ => 0,fun _ _ => 0,fun _ _ => false⟩,newStore ⟨0,0⟩,⟨true,0⟩,true⟩

def minuteEntry : Entry := ⟨"hello",.stop,1,2,"m","p",some 5,0,[]⟩

theorem minuteEntry_fits : minuteEntry.Fits 5 := by constructor <;> decide

def minuteStore (src : KeySource) : Task :=
  .store src [] minuteEntry 60000000000 0 minuteEntry_fits

def minuteHash : Hash := Hash.empty.putAll (putFields minuteEntry 5)

theorem minute_lookup (src : KeySource) : ∃ r,((Task.lookup src).program minuteSetup).Returns
    [⟨.hGetAll src.key.entryID,.ok minuteHash⟩,⟨.hIncrBy src.key.entryID "hits" 1,.ok 1⟩] r :=
  ⟨_,returns_bind.2 ⟨_,_,[],rfl,lookup_exact _ _ _ _
    (decodeEntry_holds (holds_putAll Hash.empty minuteEntry 5) minuteEntry_fits) 1,
    returns_pure.2 ⟨rfl,rfl⟩⟩⟩

theorem timely_hit (h : s.entries id = some ⟨minuteHash,some 60000⟩) :
    ∃ t x,Served Punctual Tick s
        [⟨1,⟨.hGetAll id,.ok minuteHash⟩⟩,⟨1,⟨.hIncrBy id "hits" 1,.ok 1⟩⟩] t ∧
      t.entries id = some x := by
  have hhash : s.hash id = minuteHash := hash_of_entry h
  have hone : incremented minuteHash "hits" 1 = some 1 := by decide +kernel
  have hcounts : incremented (s.hash id) "hits" 1 = some 1 := by rw [hhash,hone]
  have hread : Punctual s ⟨.hGetAll id,.ok minuteHash⟩ s :=
    ⟨exec_ok hhash.symm,by simp [FindsEntry]⟩
  have hcount : Punctual s ⟨.hIncrBy id "hits" 1,.ok 1⟩ (s.after (.hIncrBy id "hits" 1)) := by
    refine ⟨exec_ok hcounts,?_⟩
    rintro i field n heq -
    cases heq
    simp [h]
  refine ⟨_,⟨minuteHash.put "hits" (bytes (formatInt 1)),some 60000⟩,
    .call hread (.call hcount (.done _)),?_⟩
  simp [Redis.after,hone,Redis.setHash,hhash,h]

theorem minute_history (src : KeySource) :
    ∃ h s x d,Interleaves ([minuteStore src,.lookup src].map (Task.program minuteSetup)) h ∧
      Served Punctual Tick Redis.empty h s ∧ s.entries src.key.entryID = some x ∧
      (∃ y ∈ h,y.event.op = .hIncrBy src.key.entryID "hits" 1 ∧ executed y.event = true) ∧
      ∃ y ∈ h,y.thread = 0 ∧ y.event.op = .expire (.entry src.key.entryID) d ∧
        executed y.event = true := by
  let id := src.key.entryID
  let put : Event Op Ans := ⟨.hSet id (putFields minuteEntry 5),.ok ()⟩
  let date : Event Op Ans := ⟨.expire (.entry id) 60000000000,.ok ()⟩
  let s₁ := Redis.empty.after put.op
  have hthere : (s₁.after date.op).entries id = some ⟨minuteHash,some 60000⟩ := by
    simp [date,Redis.after,Redis.expire,Redis.setDeadline,formatSec,s₁,put,Redis.setHash,
      Redis.hash,Redis.empty,minuteHash]
  obtain ⟨t,x,hlater,hkept⟩ := timely_hit hthere
  obtain ⟨r,hlooks⟩ := minute_lookup src
  obtain ⟨q,hputs⟩ : ∃ q,((minuteStore src).program minuteSetup).After [put,date] q :=
    ⟨_,.next (.next (.start _))⟩
  have hrun : Served Punctual Tick Redis.empty ([put,date].map (Step.mk 0) ++ _) t :=
    .call ⟨exec_ok trivial,by simp [FindsEntry,put]⟩
      (.call ⟨exec_ok trivial,by simp [FindsEntry,date]⟩ hlater)
  exact ⟨_,t,x,_,interleaves_inTurn hputs hlooks,hrun,hkept,
    ⟨⟨1,⟨.hIncrBy id "hits" 1,.ok 1⟩⟩,by simp [id],rfl,rfl⟩,⟨0,date⟩,by simp,rfl,rfl,rfl⟩

theorem entries_expire_minute :
    ∃ src h s x,Interleaves ([minuteStore src,.lookup src].map (Task.program minuteSetup)) h ∧
      Served Punctual Tick Redis.empty h s ∧ s.entries src.key.entryID = some x ∧
      (∃ y ∈ h,y.event.op = .hIncrBy src.key.entryID "hits" 1 ∧ executed y.event = true) ∧
      (∃ e,decodeEntry x.value = .ok e) ∧ ∃ d,x.deadline = some d ∧ s.now < d := by
  obtain ⟨h,s,x,ttl,hint,hrun,hthere,hcounted,hdates⟩ :=
    minute_history (singleMessage .user false).toKeySource
  obtain ⟨hdecodes,j,src,e,now,⟨_,_,_,_,_,htask,-⟩,-,-,-,hdeadline⟩ :=
    (entries_expire hint hrun).1 _ x hthere
  obtain rfl : j = 0 := by
    match j with
    | 0 => rfl
    | 1 => simp at htask
    | j+2 => simp at htask
  exact ⟨_,h,s,x,hint,hrun,hthere,hcounted,hdecodes,hdeadline ⟨ttl,hdates⟩⟩

theorem put_serve_empty {k : Key} (hteam : k.teamID ≠ "") (hscope : k.scopeID ≠ "") (e : Entry)
    (clock : Int) :
    let s := ((put (newStore ⟨0,0⟩) k e 60000000000 clock).exec Redis.serve .empty).2.2
    s.now = 0 ∧ s.entries k.entryID =
      some ⟨Hash.empty.putAll (putFields e (e.createdAt.getD clock)),some 60000⟩ := by
  have hone : ∀ (score : ℚ) (member : String),zAdd [] score member = [(score,member)] :=
    fun _ _ => rfl
  simp [put,putCommands,pipeline,orFail,perform,Prog.exec,Redis.serve,Redis.answer,executed,
    Redis.after,trimScope,Redis.setHash,Redis.hash,Redis.members,Redis.empty,Redis.setMembers,
    Redis.expire,Redis.setDeadline,formatSec,newStore,bind,Prog.bind,pure,hteam,hscope,hone]

theorem late_hit (hnow : s.now = 0) (h : s.entries id = some ⟨minuteHash,some 60000⟩) :
    ∃ t x,Served Exec Tick s
        [⟨1,⟨.hGetAll id,.ok minuteHash⟩⟩,⟨1,⟨.hIncrBy id "hits" 1,.ok 1⟩⟩] t ∧
      t.entries id = some x ∧ x.deadline = none ∧ ∀ e,decodeEntry x.value ≠ .ok e := by
  have hgone : (s.at 60000).entries id = none := by simp [Redis.at,h,Timed.aliveAt]
  have hread : Exec s ⟨.hGetAll id,.ok minuteHash⟩ s := exec_ok (hash_of_entry h).symm
  have hexpired : (s.at 60000).hash id = Hash.empty := by simp [Redis.hash,hgone]
  have hcounts : incremented ((s.at 60000).hash id) "hits" 1 = some 1 := by rw [hexpired]; rfl
  have hwait : Tick s (s.at 60000) := ⟨60000,by rw [hnow]; decide,rfl⟩
  exact ⟨_,_,.call hread (.env hwait (.call (exec_ok hcounts) (.done _))),hIncrBy_absent hgone 1,
    rfl,stub_undecodable _⟩

/-- The store returns, a lookup reads its entry, the minute passes, and the lookup
counts its hit: an entry without a creation time that never expires. -/
theorem late_hit_history {src : KeySource} (hteam : src.key.teamID ≠ "")
    (hscope : src.key.scopeID ≠ "") :
    ∃ h s x,Interleaves ([minuteStore src,.lookup src].map (Task.program minuteSetup)) h ∧
      Served Exec Tick Redis.empty h s ∧
      ((minuteStore src).program minuteSetup).Returns (traceOf 0 h) none ∧
      s.entries src.key.entryID = some x ∧ x.deadline = none ∧
      ∀ e,decodeEntry x.value ≠ .ok e := by
  let stored := ((minuteStore src).program minuteSetup).exec Redis.serve .empty
  have hstored : Served Exec Tick Redis.empty (stored.1.map (Step.mk 0)) stored.2.2 :=
    served_exec 0 (I := fun _ => True)
      (fun s op _ => ⟨trivial,_,exec_serve s op,.inl rfl⟩) _ trivial
  have hend : stored.2.2 =
      ((put (newStore ⟨0,0⟩) src.key minuteEntry 60000000000 0).exec Redis.serve .empty).2.2 := by
    simp only [stored,minuteStore,Task.program,store,exec_bind]
    rfl
  obtain ⟨hnow,hput⟩ := put_serve_empty hteam hscope minuteEntry 0
  rw [← hend] at hnow hput
  obtain ⟨t,x,hlater,hstub⟩ := late_hit hnow hput
  obtain ⟨r,hlooks⟩ := minute_lookup src
  have hresult : stored.2.1 = none := congrArg Prod.fst
    (exec_bind Redis.serve (store _ _ _ _ _ _) (fun _ => pure none) .empty)
  have hstores : ((minuteStore src).program minuteSetup).Returns stored.1 none :=
    hresult ▸ returns_exec Redis.serve ((minuteStore src).program minuteSetup) .empty
  exact ⟨_,t,x,interleaves_inTurn hstores hlooks,hstored.append hlater,
    (traceOf_inTurn stored.1 _).1.symm ▸ hstores,hstub⟩

theorem late_hit_revives :
    ∃ src h s x,Interleaves ([minuteStore src,.lookup src].map (Task.program minuteSetup)) h ∧
      Served Exec Tick Redis.empty h s ∧
      ((minuteStore src).program minuteSetup).Returns (traceOf 0 h) none ∧
      s.entries src.key.entryID = some x ∧ x.deadline = none ∧
      ∀ e,decodeEntry x.value ≠ .ok e := by
  have hteam : (singleMessage .user false).toKeySource.key.teamID ≠ "" := by decide
  have hscope : (singleMessage .user false).toKeySource.key.scopeID ≠ "" := by decide
  exact ⟨_,late_hit_history hteam hscope⟩

end Switchyard.Cache
