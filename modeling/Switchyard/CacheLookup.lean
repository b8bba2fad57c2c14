import Switchyard.CacheStore
set_option autoImplicit false

/-! The two-tier lookup over the store (internal/cache/lookup.go). -/

namespace Switchyard.Cache
open GoText RedisData CallTree

/-- The float32 operations of the similarity scan, on bit patterns. -/
structure Float32Unit where
  add : UInt32 → UInt32 → UInt32
  mul : UInt32 → UInt32 → UInt32
  lt : UInt32 → UInt32 → Bool

def similarity (u : Float32Unit) (a b : List UInt32) : UInt32 :=
  if a.length ≠ b.length then 0
  else (a.zip b).foldl (fun dot p => u.add dot (u.mul p.1 p.2)) 0

/-- One candidate of the scan; the best so far starts at -2. -/
def nearer (u : Float32Unit) (query : List UInt32) (best : String × UInt32)
    (c : String × List UInt32) : String × UInt32 :=
  if c.2.length ≠ query.length then best
  else if u.lt best.2 (similarity u query c.2) then (c.1,similarity u query c.2) else best

def nearest (u : Float32Unit) (query : List UInt32) (cs : List (String × List UInt32)) :
    String × UInt32 :=
  let best := cs.foldl (nearer u query) ("",0xC0000000)
  if best.1 = "" then ("",0) else best

inductive Tier where
  | none
  | exact
  | semantic
  deriving DecidableEq, Repr

structure LookupConfig where
  semanticEnabled : Bool
  threshold : UInt32
  deriving DecidableEq, Repr

structure Result where
  hit : Bool
  tier : Tier
  entry : Option Entry
  similarity : UInt32
  embedding : List UInt32
  threshold : UInt32
  deriving DecidableEq, Repr

def Result.miss (tier : Tier) : Result := ⟨false,tier,none,0,[],0⟩

def finish (cfg : LookupConfig) (r : Result) : Result := { r with threshold := cfg.threshold }

/-- `Lookup`, for a cache that has an embedder or not. A similarity of one is
0x3F800000. -/
def lookup (u : Float32Unit) (store : StoreConfig) (cfg : LookupConfig) (embedder : Bool)
    (k : Key) : Program Result := do
  match ← fetch k.entryID with
  | .error _ => pure (finish cfg (.miss .exact))
  | .ok (some entry) =>
    let _ ← recordHit k.entryID
    pure (finish cfg ⟨true,.exact,some entry,0x3F800000,[],0⟩)
  | .ok none =>
    if !cfg.semanticEnabled || !embedder then pure (finish cfg (.miss .exact))
    else
      match ← perform (.embed k.query) with
      | .error _ => pure (finish cfg (.miss .semantic))
      | .ok vector =>
        match ← candidates store k with
        | .error _ => pure (finish cfg { Result.miss .semantic with embedding := vector })
        | .ok cs =>
          let best := nearest u vector cs
          let missed := { Result.miss .semantic with embedding := vector, similarity := best.2 }
          if best.1 = "" ∨ u.lt best.2 cfg.threshold then pure (finish cfg missed)
          else
            match ← fetch best.1 with
            | .ok (some entry) =>
              let _ ← recordHit best.1
              pure (finish cfg ⟨true,.semantic,some entry,best.2,vector,0⟩)
            | _ => pure (finish cfg missed)

/-- `Store` puts the entry with the embedding the lookup paid for. -/
def store (cfg : StoreConfig) (k : Key) (embedding : List UInt32) (e : Entry) (ttl clock : Int) :
    Program Unit := do
  let _ ← put cfg k { e with embedding } ttl clock
  pure ()

theorem nearest_mem {u : Float32Unit} {query : List UInt32} {cs : List (String × List UInt32)}
    (h : (nearest u query cs).1 ≠ "") : (nearest u query cs).1 ∈ cs.map Prod.fst := by
  have scan : ∀ (cs : List (String × List UInt32)) (best : String × UInt32),
      (cs.foldl (nearer u query) best).1 = best.1 ∨
      (cs.foldl (nearer u query) best).1 ∈ cs.map Prod.fst := by
    intro cs
    induction cs with
    | nil => intro best; exact .inl rfl
    | cons c cs ih =>
      intro best
      obtain h | h := ih (nearer u query best c)
      · have hone : (nearer u query best c).1 = best.1 ∨ (nearer u query best c).1 = c.1 := by
          unfold nearer
          split_ifs <;> simp
        obtain hone | hone := hone
        · exact .inl (h.trans hone)
        · exact .inr (by simp [h,hone])
      · exact .inr (by simp at h ⊢; exact .inr h)
  simp only [nearest] at h ⊢
  by_cases hbest : (cs.foldl (nearer u query) ("",0xC0000000)).1 = ""
  · simp [hbest] at h
  · rw [if_neg hbest] at h ⊢
    obtain hs | hs := scan cs ("",0xC0000000)
    · exact absurd hs hbest
    · exact hs

variable {tr : List (Event Op Ans)}

theorem fetch_returns {id : String} {e : Entry} (h : (fetch id).Returns tr (.ok (some e))) :
    ∃ fields,tr = [⟨.hGetAll id,.ok fields⟩] ∧ decodeEntry fields = .ok e := by
  obtain ⟨tr₁,fields,tr₂,rfl,h₁,h₂⟩ := returns_orFail h
  obtain rfl := returns_perform.1 h₁
  refine ⟨fields,?_⟩
  by_cases he : fields = Hash.empty
  · simp [he] at h₂
  · rw [if_neg he] at h₂
    obtain ⟨rfl,hd⟩ := returns_pure.1 h₂
    cases hf : decodeEntry fields with
    | error err => simp [hf,Except.map] at hd
    | ok entry => simpa [hf,Except.map] using hd

theorem readEmbeddings_returns {ids : List String} {found : List (String × Option (List UInt8))}
    (h : (readEmbeddings ids).Returns tr (.ok found)) : found.map Prod.fst = ids := by
  induction ids generalizing tr found with
  | nil => simp [readEmbeddings] at h; simp [h.2]
  | cons id ids ih =>
    unfold readEmbeddings at h
    obtain ⟨tr₁,r,tr₂,rfl,h₁,h₂⟩ := returns_bind.1 h
    obtain ⟨tr₃,rest,tr₄,rfl,h₃,h₄⟩ := returns_bind.1 h₂
    cases r with
    | error e => simp at h₄
    | ok v =>
      cases rest with
      | error e => simp at h₄
      | ok vs =>
        simp at h₄
        rw [← h₄.2,List.map_cons,ih h₃]

theorem candidates_returns {cfg : StoreConfig} {k : Key}
    {cs : List (String × List UInt32)} (h : (candidates cfg k).Returns tr (.ok cs)) :
    ∃ start stop ids,⟨.zRevRange (.index k.fingerprint) start stop,.ok ids⟩ ∈ tr ∧
      ∀ id ∈ cs.map Prod.fst,id ∈ ids := by
  obtain ⟨tr₁,ids,tr₂,rfl,h₁,h₂⟩ := returns_orFail h
  obtain rfl := returns_perform.1 h₁
  obtain ⟨tr₃,found,tr₄,rfl,h₃,h₄⟩ := returns_orFail h₂
  have hids := readEmbeddings_returns h₃
  have hcs : cs = found.filterMap fun p => p.2.map fun v => (p.1,unpackVector v) := by
    simp only [] at h₄
    split at h₄
    · obtain ⟨_,_,_,_,-,h₅⟩ := returns_bind.1 h₄
      simp at h₅
      exact h₅.2.symm
    · simp at h₄
      exact h₄.2.symm
  refine ⟨_,_,ids,by simp,fun id hid => ?_⟩
  rw [hcs] at hid
  simp only [List.mem_map,List.mem_filterMap,Option.map_eq_some_iff] at hid
  obtain ⟨_,⟨p,hp,v,-,rfl⟩,rfl⟩ := hid
  rw [← hids]
  exact List.mem_map_of_mem hp

/-- A hit decodes one hash that was read, under the key's own entry ID or under
one its fingerprint's index listed. -/
theorem lookup_hit {u : Float32Unit} {st : StoreConfig} {cfg : LookupConfig} {embedder : Bool}
    {k : Key} {r : Result} (h : (lookup u st cfg embedder k).Returns tr r) (hit : r.hit = true) :
    ∃ id fields e,⟨.hGetAll id,.ok fields⟩ ∈ tr ∧ decodeEntry fields = .ok e ∧
      r.entry = some e ∧ (id = k.entryID ∨ ∃ start stop ids,
        ⟨.zRevRange (.index k.fingerprint) start stop,.ok ids⟩ ∈ tr ∧ id ∈ ids) := by
  unfold lookup at h
  obtain ⟨tr₁,found,tr₂,rfl,h₁,h₂⟩ := returns_bind.1 h
  cases found with
  | error e => simp at h₂; simp [← h₂.2,finish,Result.miss] at hit
  | ok found =>
    cases found with
    | some entry =>
      obtain ⟨fields,rfl,hd⟩ := fetch_returns h₁
      obtain ⟨_,_,_,rfl,-,h₃⟩ := returns_bind.1 h₂
      obtain ⟨rfl,rfl⟩ := returns_pure.1 h₃
      exact ⟨_,fields,entry,by simp,hd,rfl,.inl rfl⟩
    | none =>
      by_cases hsem : (!cfg.semanticEnabled || !embedder) = true
      · simp only [hsem,ite_true,returns_pure] at h₂
        simp [← h₂.2,finish,Result.miss] at hit
      simp only [hsem] at h₂
      obtain ⟨tr₃,vector,tr₄,rfl,-,h₄⟩ := returns_bind.1 h₂
      cases vector with
      | error e => simp at h₄; simp [← h₄.2,finish,Result.miss] at hit
      | ok vector =>
        obtain ⟨tr₅,cs,tr₆,rfl,h₅,h₆⟩ := returns_bind.1 h₄
        cases cs with
        | error e => simp at h₆; simp [← h₆.2,finish,Result.miss] at hit
        | ok cs =>
          by_cases hbest : (nearest u vector cs).1 = "" ∨
              u.lt (nearest u vector cs).2 cfg.threshold = true
          · simp only [hbest,ite_true,returns_pure] at h₆
            simp [← h₆.2,finish,Result.miss] at hit
          simp only [hbest,ite_false] at h₆
          obtain ⟨tr₇,found,tr₈,rfl,h₇,h₈⟩ := returns_bind.1 h₆
          obtain ⟨start,stop,ids,hmem,hids⟩ := candidates_returns h₅
          cases found with
          | error e => simp at h₈; simp [← h₈.2,finish,Result.miss] at hit
          | ok found =>
            cases found with
            | none => simp at h₈; simp [← h₈.2,finish,Result.miss] at hit
            | some entry =>
              obtain ⟨fields,rfl,hd⟩ := fetch_returns h₇
              obtain ⟨_,_,_,rfl,-,h₉⟩ := returns_bind.1 h₈
              obtain ⟨rfl,rfl⟩ := returns_pure.1 h₉
              refine ⟨(nearest u vector cs).1,fields,entry,?_,hd,rfl,
                .inr ⟨start,stop,ids,?_,hids _ (nearest_mem (not_or.1 hbest).1)⟩⟩
              · simp only [List.mem_append,List.mem_singleton,true_or,or_true]
              · simp only [List.mem_append,hmem,true_or,or_true]

end Switchyard.Cache
