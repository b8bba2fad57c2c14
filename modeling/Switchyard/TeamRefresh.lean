import Switchyard.TeamTable
set_option autoImplicit false

/-!
What a refresh makes of the table, on any replica and after any history of
calls on all of them.
-/

namespace Switchyard.TeamStore
open Auth StepRuns

structure Database.Sound (db : Database) : Prop where
  ids : (db.rows.map (·.team.id)).Nodup
  hashes : ∀ a ∈ db.rows,∀ b ∈ db.rows,a.team.keyHash ≠ "" →
    a.team.keyHash = b.team.keyHash → a.team.id = b.team.id

inductive Database.Writes (db : Database) : Database → Prop where
  | nothing : Writes db db
  | insert {t : Team} : db.insertRefused t = none → Writes db (db.insert t)
  | limits (id : String) (limits : RateLimits) (budget : Int) : Writes db (db.rewrite id fun row =>
      { row with team := { row.team with rateLimits := limits,monthlyBudgetMicros := budget } })
  | mutation {m : Mutation} (now : Int) : m.violates (db.rows.map Row.team) = none →
      Writes db (db.rewrite m.id (m.onRow now))

theorem Database.exec_cases (db : Database) (id : String) (encode refused : Option String)
    (f : Row → Row) (fault : Option SqlFault) : (db.exec id encode refused f fault).2 = db ∨
      refused = none ∧ (db.exec id encode refused f fault).2 = db.rewrite id f := by
  unfold Database.exec
  cases encode with
  | some text => exact .inl rfl
  | none =>
    simp only []
    split
    · split_ifs
      · exact .inr ⟨rfl,rfl⟩
      · exact .inl rfl
    · exact .inl rfl
    · exact .inl rfl
    · exact .inl rfl
    · exact .inr ⟨rfl,rfl⟩

theorem Store.update_writes (s : Store) (id : String) (patch : TeamPatch)
    (fault : Option SqlFault) : s.db.Writes (s.update id patch fault).2.db := by
  unfold Store.update
  split
  · exact .nothing
  split
  · exact .nothing
  rename_i updated _
  simp only []
  have hdb := s.db.exec_cases id
    ((encodeInt4 1 updated.rateLimits.rpm).or (encodeInt4 2 updated.rateLimits.tpm)) none
    (fun row => { row with team := { row.team with
      rateLimits := updated.rateLimits,monthlyBudgetMicros := updated.monthlyBudgetMicros } }) fault
  split <;> rename_i hexec <;> rw [hexec] at hdb <;> simp only [] at hdb ⊢
  · obtain rfl | ⟨-,rfl⟩ := hdb
    · exact .nothing
    · exact .limits _ _ _
  · obtain rfl | ⟨-,rfl⟩ := hdb
    · exact .nothing
    · exact .limits _ _ _

theorem Store.mutate_writes (s : Store) (m : Mutation) (now : Int) (fault : Option SqlFault) :
    s.db.Writes (s.mutate m now fault).2.db := by
  unfold Store.mutate
  split
  · exact .nothing
  have hdb := s.db.exec_cases m.id none (m.violates (s.db.rows.map Row.team)) (m.onRow now) fault
  split <;> rename_i hexec <;> rw [hexec] at hdb <;> simp only [] at hdb ⊢
  · obtain rfl | ⟨hv,rfl⟩ := hdb
    · exact .nothing
    · exact .mutation now hv
  · obtain rfl | ⟨hv,rfl⟩ := hdb
    · exact .nothing
    · exact .mutation now hv

theorem Store.create_writes (s : Store) (t : Team) (now : Int) (fault : Option SqlFault) :
    s.db.Writes (s.create t now fault).2.db := by
  unfold Store.create
  split
  · exact .nothing
  simp only []
  split
  · exact .nothing
  split
  · rename_i hnone
    simp only []
    split_ifs
    · exact .insert hnone
    · exact .nothing
  · exact .nothing
  · exact .nothing
  · exact .nothing
  · exact .nothing
  · rename_i hnone
    exact .insert hnone

variable {db : Database}

theorem Database.Sound.insert (h : db.Sound) {t : Team} (ht : db.insertRefused t = none) :
    (db.insert t).Sound := by
  unfold Database.insertRefused at ht
  split_ifs at ht with _ _ hid hhash
  simp only [List.any_eq_true,decide_eq_true_eq,not_exists,not_and] at hid hhash
  have hfree : t.keyHash ≠ "" → ∀ row ∈ db.rows,row.team.keyHash ≠ t.keyHash :=
    fun hne row hrow heq => hhash hne row hrow heq
  constructor
  · rw [Database.insert,List.map_append,List.nodup_append]
    refine ⟨h.ids,by simp,fun a ha b hb => ?_⟩
    obtain ⟨row,hrow,rfl⟩ := List.mem_map.1 ha
    obtain rfl : b = t.id := by simpa using hb
    exact hid row hrow
  · intro a ha b hb hne heq
    simp only [Database.insert,List.mem_append,List.mem_singleton] at ha hb
    obtain ha | rfl := ha
    · obtain hb | rfl := hb
      · exact h.hashes a ha b hb hne heq
      · exact absurd heq (hfree (heq ▸ hne) a ha)
    · obtain hb | rfl := hb
      · exact absurd heq.symm (hfree hne b hb)
      · rfl

/-- A rewritten row keeps its ID and its hash, loses the hash or takes one that
no other row has. -/
theorem Database.Sound.rewrite (h : db.Sound) {id : String} {f : Row → Row}
    (hf : ∀ row,(f row).team.id = row.team.id)
    (hhash : ∀ row,(f row).team.keyHash = row.team.keyHash ∨ (f row).team.keyHash = "" ∨
      ∀ b ∈ db.rows,b.team.id ≠ id → b.team.keyHash ≠ (f row).team.keyHash) :
    (db.rewrite id f).Sound := by
  have hid : ∀ row,
      (if row.team.id = id ∧ !row.deleted then f row else row).team.id = row.team.id := by
    intro row
    split_ifs
    · exact hf row
    · rfl
  constructor
  · have hmap : (db.rewrite id f).rows.map (·.team.id) = db.rows.map (·.team.id) := by
      simp only [Database.rewrite,List.map_map]
      exact List.map_congr_left fun row _ => hid row
    rw [hmap]
    exact h.ids
  · intro a ha b hb hne heq
    obtain ⟨x,hx,rfl⟩ := List.mem_map.1 ha
    obtain ⟨y,hy,rfl⟩ := List.mem_map.1 hb
    rw [hid,hid]
    -- a hash the rewrite brought is on no row of another team
    have hbrought : ∀ u ∈ db.rows,∀ v ∈ db.rows,u.team.id = id → v.team.id ≠ id →
        (f u).team.keyHash ≠ "" → (f u).team.keyHash ≠ v.team.keyHash := by
      intro u hu v hv huid hvid hne heq
      rcases hhash u with hsame | hempty | hfree
      · exact hvid ((h.hashes u hu v hv (hsame ▸ hne) (hsame.symm.trans heq)).symm.trans huid)
      · exact hne hempty
      · exact hfree v hv hvid heq.symm
    by_cases hxid : x.team.id = id <;> by_cases hyid : y.team.id = id
    · rw [hxid,hyid]
    · simp only [hyid,false_and,if_false] at heq
      split_ifs at heq hne with hlive
      · exact absurd heq (hbrought x hx y hy hxid hyid hne)
      · exact h.hashes x hx y hy hne heq
    · simp only [hxid,false_and,if_false] at heq hne
      split_ifs at heq with hlive
      · exact absurd heq.symm (hbrought y hy x hx hyid hxid (heq ▸ hne))
      · exact h.hashes x hx y hy hne heq
    · simp only [hxid,hyid,false_and,if_false] at heq hne
      exact h.hashes x hx y hy hne heq

theorem Database.Sound.writes {db' : Database} (h : db.Sound) (hw : db.Writes db') : db'.Sound := by
  cases hw with
  | nothing => exact h
  | insert ht => exact h.insert ht
  | limits id limits budget => exact h.rewrite (fun _ => rfl) fun _ => .inl rfl
  | mutation now hv =>
    rename_i m
    refine h.rewrite (fun row => ?_) fun row => ?_
    · cases m <;> rfl
    · cases m with
      | revokeKey id => exact .inr (.inl rfl)
      | delete id => exact .inr (.inl rfl)
      | rotateKey id newHash newMasked =>
        refine .inr (.inr fun b hb hid hsame => ?_)
        simp only [Mutation.violates] at hv
        split_ifs at hv with _ hany
        refine hany (List.any_eq_true.2 ⟨b.team,List.mem_map_of_mem hb,?_⟩)
        simpa using ⟨hid,hsame⟩

theorem Database.Sound.live_ids (h : db.Sound) : (db.live.map Team.id).Nodup := by
  have hsub : (db.live.map Team.id).Sublist (db.rows.map (·.team.id)) := by
    rw [Database.live,List.map_map]
    exact (List.filter_sublist).map _
  exact h.ids.sublist hsub

theorem Database.mem_live {t : Team} :
    t ∈ db.live ↔ ∃ row ∈ db.rows,row.deleted = false ∧ row.team = t := by
  simp [Database.live,and_assoc]

theorem foldlM_index_ok {teams : List Team} {r : Registry} (hr : r.Coherent)
    (hnew : ∀ t ∈ teams,r.byID.lookup t.id = none) (hd : (teams.map Team.id).Nodup)
    (hfree : ∀ t ∈ teams,t.keyHash ≠ "" → r.byHash.lookup t.keyHash = none)
    (hkeys : ∀ t ∈ teams,∀ u ∈ teams,t.keyHash ≠ "" → t.keyHash = u.keyHash → t.id = u.id) :
    ∃ r',teams.foldlM Registry.index r = .ok r' := by
  induction teams generalizing r with
  | nil => exact ⟨r,rfl⟩
  | cons t teams ih =>
    simp only [List.map_cons,List.nodup_cons] at hd
    have hne : ∀ u ∈ teams,u.id ≠ t.id := fun u hu heq => hd.1 (heq ▸ List.mem_map_of_mem hu)
    obtain ⟨r₁,hstep,hhash⟩ : ∃ r₁,r.index t = .ok r₁ ∧
        ∀ h,h ≠ t.keyHash → r₁.byHash.lookup h = r.byHash.lookup h := by
      unfold Registry.index
      by_cases hempty : t.keyHash = ""
      · exact ⟨_,if_pos hempty,fun _ _ => rfl⟩
      · rw [if_neg hempty,hfree t (by simp) hempty]
        exact ⟨_,rfl,fun h hh => AList.lookup_insert_ne hh⟩
    obtain ⟨hr₁,hbyID⟩ := hr.index (hnew t (by simp)) hstep
    obtain ⟨r',hrest⟩ := ih hr₁
      (fun u hu => by rw [hbyID,AList.lookup_insert_ne (hne u hu)]; exact hnew u (by simp [hu]))
        hd.2
      (fun u hu hk => by
        rw [hhash _ fun heq => hne u hu (hkeys u (by simp [hu]) t (by simp) hk heq)]
        exact hfree u (by simp [hu]) hk)
      fun u hu v hv => hkeys u (by simp [hu]) v (by simp [hv])
    exact ⟨r',by simpa [List.foldlM_cons,hstep,bind,Except.bind] using hrest⟩

theorem Database.Sound.load (h : db.Sound) (hlive : db.live ≠ []) :
    ∃ r,newRegistry db.live = .ok r ∧ loadRegistry db.live = .ok r := by
  have hempty : Registry.Coherent ⟨∅,∅⟩ := by constructor <;> simp
  obtain ⟨r,hr⟩ := foldlM_index_ok hempty (by simp) h.live_ids (by simp) fun t ht u hu hne heq => by
    obtain ⟨a,ha,-,rfl⟩ := Database.mem_live.1 ht
    obtain ⟨b,hb,-,rfl⟩ := Database.mem_live.1 hu
    exact h.hashes a ha b hb hne heq
  refine ⟨r,hr,?_⟩
  have hcons : db.live.isEmpty = false := by simpa using hlive
  rw [loadRegistry,hcons,if_neg Bool.false_ne_true,newRegistry,hr]

/-- A key is accepted exactly when a row that is not deleted has its hash, and as
that row's team. -/
def Serves (r : Registry) (db : Database) : Prop :=
  ∀ rawKey t,r.authenticate rawKey = .ok t ↔
    ∃ row ∈ db.rows,row.deleted = false ∧ row.team.keyHash = hashKey rawKey ∧ row.team = t

theorem Database.Sound.serves (h : db.Sound) {r : Registry} (hr : newRegistry db.live = .ok r) :
    Serves r db := by
  obtain ⟨hcoherent,hall⟩ := newRegistry_spec h.live_ids hr
  intro rawKey t
  have hget : ∀ id,r.get id = .ok t ↔ t ∈ db.live ∧ id = t.id := by
    intro id
    rw [← hall,Registry.get]
    cases r.byID.lookup id <;> simp
  rw [hcoherent.authenticate_iff]
  simp only [hget,Database.mem_live]
  constructor
  · intro hx
    obtain ⟨id,⟨⟨row,hrow,hlive,rfl⟩,-⟩,hkey⟩ := hx
    exact ⟨row,hrow,hlive,hkey,rfl⟩
  · intro hx
    obtain ⟨row,hrow,hlive,hkey,rfl⟩ := hx
    exact ⟨_,⟨⟨row,hrow,hlive,rfl⟩,rfl⟩,hkey⟩

structure Replica where
  registry : Registry
  loadedAt : Int
  degraded : Bool

/-- Several gateways over one database; none is a replica that does not run. -/
structure Cluster where
  db : Database
  replicas : Nat → Option Replica

inductive Request where
  | boot
  | refresh
  | create (t : Team)
  | update (id : String) (patch : TeamPatch)
  | mutate (m : Mutation)
  deriving DecidableEq, Repr

structure ReplicaCall where
  replica : Nat
  request : Request
  now : Int
  fault : Option SqlFault
  deriving DecidableEq, Repr

/-- `loadRegistry` with its query; none when an error came back. -/
def Database.query (db : Database) (fault : Option SqlFault) : Option Registry :=
  match fault with
  | some _ => none
  | none => (loadRegistry db.live).toOption

def Cluster.put (c : Cluster) (i : Nat) (r : Replica) : Cluster :=
  { c with replicas := Function.update c.replicas i (some r) }

/-- `Refresh`, with `markDegraded` after an error. -/
def Cluster.refresh (c : Cluster) (i : Nat) (rep : Replica) (now : Int) (fault : Option SqlFault) :
    Cluster :=
  match c.db.query fault with
  | some registry => c.put i ⟨registry,now,false⟩
  | none => c.put i { rep with degraded := true }

def Cluster.written (c : Cluster) (i : Nat) (rep : Replica) (s : Store) : Cluster :=
  { c with db := s.db }.put i { rep with registry := s.registry }

/-- One call on one replica. A replica that fails to boot does not run. -/
def Cluster.step (c : Cluster) (a : ReplicaCall) : Option Cluster :=
  match a.request,c.replicas a.replica with
  | .boot,_ => (c.db.query a.fault).map fun registry => c.put a.replica ⟨registry,a.now,false⟩
  | _,none => none
  | .refresh,some rep => some (c.refresh a.replica rep a.now a.fault)
  | .create t,some rep =>
    some (c.written a.replica rep (Store.create ⟨c.db,rep.registry⟩ t a.now a.fault).2)
  | .update id patch,some rep =>
    some (c.written a.replica rep (Store.update ⟨c.db,rep.registry⟩ id patch a.fault).2)
  | .mutate m,some rep =>
    some (c.written a.replica rep (Store.mutate ⟨c.db,rep.registry⟩ m a.now a.fault).2)

theorem Cluster.step_writes {c c' : Cluster} {a : ReplicaCall} (h : c.step a = some c') :
    c.db.Writes c'.db := by
  unfold Cluster.step at h
  split at h
  · obtain ⟨registry,-,rfl⟩ := Option.map_eq_some_iff.1 h
    exact .nothing
  · cases h
  · obtain rfl := Option.some.inj h
    unfold Cluster.refresh
    split <;> exact .nothing
  · obtain rfl := Option.some.inj h
    exact Store.create_writes ⟨c.db,_⟩ _ _ _
  · obtain rfl := Option.some.inj h
    exact Store.update_writes ⟨c.db,_⟩ _ _ _
  · obtain rfl := Option.some.inj h
    exact Store.mutate_writes ⟨c.db,_⟩ _ _ _

/-- A table as the seed leaves it, before any gateway runs. -/
structure Database.Seeded (db : Database) : Prop where
  rows : db.rows ≠ []
  sound : db.Sound
  undeleted : ∀ row ∈ db.rows,row.deleted = false

/-- A refresh that the database answers leaves the keys of the table's live rows
exactly when there is such a row, or the replica accepted no key before. -/
theorem refresh_serves_iff {db : Database} (hseed : db.Seeded) {calls : List ReplicaCall}
    {c : Cluster} (hrun : Reaches Cluster.step (fun _ _ => True) ⟨db,fun _ => none⟩ calls c)
    {i : Nat} {rep : Replica} (hrep : c.replicas i = some rep) (now : Int) :
    ∃ c' rep',c.step ⟨i,.refresh,now,none⟩ = some c' ∧ c'.replicas i = some rep' ∧ c'.db = c.db ∧
      (Serves rep'.registry c.db ↔ (∃ row ∈ c.db.rows,row.deleted = false) ∨
        ∀ rawKey t,rep.registry.authenticate rawKey ≠ .ok t) := by
  have hsound : c.db.Sound := hrun.invariant (I := fun c => c.db.Sound)
    (fun _ _ _ hs _ hstep => hs.writes (Cluster.step_writes hstep)) hseed.sound
  have hstep : c.step ⟨i,.refresh,now,none⟩ = some (c.refresh i rep now none) := by
    simp only [Cluster.step,hrep]
  by_cases hlive : c.db.live = []
  · have hnone : ¬∃ row ∈ c.db.rows,row.deleted = false := by
      intro h
      obtain ⟨row,hrow,hdel⟩ := h
      have hmem := Database.mem_live.2 ⟨row,hrow,hdel,rfl⟩
      simp [hlive] at hmem
    refine ⟨_,{ rep with degraded := true },hstep,?_,?_,?_⟩
    · simp [Cluster.refresh,Database.query,hlive,loadRegistry,Except.toOption,Cluster.put]
    · simp [Cluster.refresh,Database.query,hlive,loadRegistry,Except.toOption,Cluster.put]
    · simp only [hnone,false_or]
      constructor
      · intro hserves rawKey t hauth
        obtain ⟨row,hrow,hdel,-⟩ := (hserves rawKey t).1 hauth
        exact hnone ⟨row,hrow,hdel⟩
      · intro hrefuses rawKey t
        refine ⟨fun hauth => absurd hauth (hrefuses rawKey t),fun h => ?_⟩
        obtain ⟨row,hrow,hdel,-⟩ := h
        exact absurd ⟨row,hrow,hdel⟩ hnone
  · obtain ⟨r,hnew,hload⟩ := hsound.load hlive
    refine ⟨_,⟨r,now,false⟩,hstep,?_,?_,?_⟩
    · simp [Cluster.refresh,Database.query,hload,Except.toOption,Cluster.put]
    · simp [Cluster.refresh,Database.query,hload,Except.toOption,Cluster.put]
    · refine ⟨fun _ => .inl ?_,fun _ => hsound.serves hnew⟩
      obtain ⟨t,ht⟩ := List.exists_mem_of_ne_nil _ hlive
      obtain ⟨row,hrow,hdel,-⟩ := Database.mem_live.1 ht
      exact ⟨row,hrow,hdel⟩

def seededWith (keys : List String) : Database where
  organizations := ["o"]
  rows := keys.map fun k => ⟨{ keyedTeam with id := k,keyHash := hashKey k },false⟩

def deletion (id : String) : List ReplicaCall :=
  [⟨0,.boot,0,none⟩,⟨1,.boot,0,none⟩,⟨0,.mutate (.delete id),0,none⟩]

def afterDeletion (keys : List String) (id : String) : Option Cluster :=
  run Cluster.step (fun _ _ => True) ⟨seededWith keys,fun _ => none⟩ (deletion id)

theorem seededWith_seeded {keys : List String} (hne : keys ≠ [])
    (hkeys : (keys.map hashKey).Nodup) : (seededWith keys).Seeded := by
  have hinj : ∀ a ∈ keys,∀ b ∈ keys,hashKey a = hashKey b → a = b :=
    fun a ha b hb heq => List.inj_on_of_nodup_map hkeys ha hb heq
  refine ⟨by simpa [seededWith] using hne,⟨?_,?_⟩,?_⟩
  · simpa [seededWith,List.map_map,Function.comp_def] using hkeys.of_map
  · intro a ha b hb _ heq
    obtain ⟨x,hx,rfl⟩ := List.mem_map.1 ha
    obtain ⟨y,hy,rfl⟩ := List.mem_map.1 hb
    exact hinj x hx y hy heq
  · intro row hrow
    obtain ⟨x,-,rfl⟩ := List.mem_map.1 hrow
    rfl

/-- The other replica drops a deleted team at its next refresh, if a team is
left. -/
theorem refresh_serves_deleted :
    ∃ c c' rep',afterDeletion ["a","b"] "a" = some c ∧ c.step ⟨1,.refresh,5,none⟩ = some c' ∧
      c'.replicas 1 = some rep' ∧ Serves rep'.registry c.db := by
  have hrun : ((afterDeletion ["a","b"] "a").bind fun c => (c.replicas 1).map fun _ =>
      c.db.rows.any fun row => row.deleted = false) = some true := by decide +kernel
  obtain ⟨c,hc,hrep⟩ := Option.bind_eq_some_iff.1 hrun
  obtain ⟨rep,hrep,hlive⟩ := Option.map_eq_some_iff.1 hrep
  obtain ⟨c',rep',hstep,hrep',-,hiff⟩ := refresh_serves_iff
    (seededWith_seeded (by decide) (by decide +kernel)) (Reaches.of_run hc) hrep 5
  exact ⟨c,c',rep',hc,hstep,hrep',hiff.2 (.inl (by simpa using hlive))⟩

/-- The key of the last team works on after its deletion. -/
theorem last_deletion_unseen :
    ∃ c c' rep',(seededWith ["a"]).Seeded ∧
      Reaches Cluster.step (fun _ _ => True) ⟨seededWith ["a"],fun _ => none⟩ (deletion "a") c ∧
      c.step ⟨1,.refresh,5,none⟩ = some c' ∧ c'.replicas 1 = some rep' ∧
      (rep'.registry.authenticate "a").isOk = true ∧ ∀ row ∈ c.db.rows,row.deleted = true := by
  have hrun : ((afterDeletion ["a"] "a").bind fun c => (c.step ⟨1,.refresh,5,none⟩).bind fun c' =>
      (c'.replicas 1).map fun rep' => (rep'.registry.authenticate "a").isOk &&
        c.db.rows.all fun row => row.deleted = true) = some true := by decide +kernel
  obtain ⟨c,hc,hstep⟩ := Option.bind_eq_some_iff.1 hrun
  obtain ⟨c',hstep,hrep⟩ := Option.bind_eq_some_iff.1 hstep
  obtain ⟨rep',hrep,hboth⟩ := Option.map_eq_some_iff.1 hrep
  obtain ⟨hauth,hdel⟩ := Bool.and_eq_true_iff.1 hboth
  exact ⟨c,c',rep',seededWith_seeded (by decide) (by decide +kernel),Reaches.of_run hc,hstep,hrep,
    hauth,by simpa using hdel⟩

end Switchyard.TeamStore
