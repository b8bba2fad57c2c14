import Switchyard.StepRuns
import Switchyard.TeamRegistry
set_option autoImplicit false

/-!
What the registry is for: a map from ID to team, in which a key belongs to the
one team that holds its hash.
-/

namespace Switchyard.Auth
open GoText StepRuns

inductive Change where
  | add (t : Team)
  | update (id : String) (patch : TeamPatch)
  | rotateKey (id newHash newMasked : String) (now : Int)
  | revokeKey (id : String)
  | remove (id : String)
  deriving DecidableEq, Repr

def Registry.perform (r : Registry) : Change → Except AuthError (Option Team) × Registry
  | .add t => ((r.add t).1.map fun _ => none,(r.add t).2)
  | .update id patch => ((r.update id patch).1.map some,(r.update id patch).2)
  | .rotateKey id newHash newMasked now =>
    ((r.rotateKey id newHash newMasked now).1.map some,(r.rotateKey id newHash newMasked now).2)
  | .revokeKey id => ((r.revokeKey id).1.map some,(r.revokeKey id).2)
  | .remove id => ((r.remove id).1.map some,(r.remove id).2)

abbrev Directory := String → Option Team

def Directory.ofTeams (teams : List Team) : Directory := fun id => teams.find? (·.id = id)

open Classical in
noncomputable def Directory.holder (m : Directory) (hash : String) : Option Team :=
  if h : ∃ t,m t.id = some t ∧ t.keyHash = hash then some h.choose else none

/-- A key that would be brought to id but is another team's. -/
noncomputable def Directory.taken (m : Directory) (id hash : String) : Option Team :=
  if hash = "" then none else (m.holder hash).filter (·.id ≠ id)

noncomputable def Directory.perform (m : Directory) :
    Change → Except AuthError (Option Team) × Directory
  | .add t =>
    match m t.id,m.taken t.id t.keyHash with
    | some _,_ => (.error .teamExists,m)
    | none,some other =>
      (.error (.other s!"add {t.id}: key already belongs to team {quote other.id}"),m)
    | none,none => (.ok none,Function.update m t.id (some t))
  | .update id patch =>
    match m id with
    | none => (.error .unknownTeam,m)
    | some t =>
      match patch.apply t with
      | .error e => (.error e,m)
      | .ok u => (.ok (some u),Function.update m id (some u))
  | .rotateKey id newHash newMasked now =>
    match m id,m.taken id newHash with
    | none,_ => (.error .unknownTeam,m)
    | some t,other =>
      if newHash = "" then (.error (.other s!"rotate {id}: new key hash is empty"),m)
      else
        match other with
        | some other =>
          (.error (.other s!"rotate {id}: new key already belongs to team {quote other.id}"),m)
        | none =>
          let u := { t with
            keyHash := newHash, keySource := keySourceRotated
            keyMasked := newMasked, keyCreatedAt := some now }
          (.ok (some u),Function.update m id (some u))
  | .revokeKey id =>
    match m id with
    | none => (.error .unknownTeam,m)
    | some t =>
      let u := { t with
        keyHash := "", keySource := keySourceRevoked, keyMasked := "", keyCreatedAt := none }
      (.ok (some u),Function.update m id (some u))
  | .remove id =>
    match m id with
    | none => (.error .unknownTeam,m)
    | some t => (.ok (some t),Function.update m id none)

def Registry.directory (r : Registry) : Directory := fun id => r.byID.lookup id

variable {r : Registry}

theorem directory_insert (byHash byID : AList fun _ : String => Team) (id : String) (t : Team) :
    Registry.directory ⟨byHash,byID.insert id t⟩ =
      Function.update (Registry.directory ⟨byHash,byID⟩) id (some t) := by
  funext i
  by_cases hi : i = id
  · subst hi
    simp [Registry.directory]
  · simp [Registry.directory,AList.lookup_insert_ne hi,hi]

theorem directory_erase (byHash byID : AList fun _ : String => Team) (id : String) :
    Registry.directory ⟨byHash,byID.erase id⟩ =
      Function.update (Registry.directory ⟨byHash,byID⟩) id none := by
  funext i
  by_cases hi : i = id
  · subst hi
    simp [Registry.directory]
  · simp [Registry.directory,AList.lookup_erase_ne hi,hi]

theorem Registry.Coherent.holder_eq (hr : r.Coherent) {hash : String} (hne : hash ≠ "") :
    r.directory.holder hash = r.byHash.lookup hash := by
  unfold Directory.holder
  split_ifs with h
  · obtain ⟨hown,hkey⟩ := h.choose_spec
    have hindexed := hr.keys _ _ hown (by rw [hkey]; exact hne)
    rw [hkey] at hindexed
    exact hindexed.symm
  · cases hl : r.byHash.lookup hash with
    | none => rfl
    | some t =>
      obtain ⟨hkey,hown⟩ := hr.hashes hash t hne hl
      exact absurd ⟨t,hown,hkey⟩ h

theorem Registry.Coherent.taken_eq (hr : r.Coherent) {id hash : String} (hne : hash ≠ "") :
    r.directory.taken id hash = (r.byHash.lookup hash).filter (·.id ≠ id) := by
  rw [Directory.taken,if_neg hne,hr.holder_eq hne]

theorem Registry.Coherent.taken_of_unknown (hr : r.Coherent) {id hash : String} (hne : hash ≠ "")
    (hid : r.byID.lookup id = none) : r.directory.taken id hash = r.byHash.lookup hash := by
  rw [hr.taken_eq hne]
  cases hl : r.byHash.lookup hash with
  | none => rfl
  | some t => simp [hr.id_ne_of_unknown hid hne hl]

theorem Registry.Coherent.perform (hr : r.Coherent) (c : Change) : (r.perform c).2.Coherent := by
  cases c with
  | add t => exact hr.add t
  | update id patch => exact hr.update id patch
  | rotateKey id newHash newMasked now => exact hr.rotateKey id newHash newMasked now
  | revokeKey id => exact hr.revokeKey id
  | remove id => exact hr.remove id

theorem Registry.Coherent.perform_directory (hr : r.Coherent) (c : Change) :
    (r.perform c).1 = (r.directory.perform c).1 ∧
      (r.perform c).2.directory = (r.directory.perform c).2 := by
  have hmap : ∀ id,r.directory id = r.byID.lookup id := fun _ => rfl
  cases c with
  | add t =>
    simp only [Registry.perform,Registry.add,Directory.perform,hmap]
    cases hid : r.byID.lookup t.id with
    | some existing => exact ⟨rfl,rfl⟩
    | none =>
      by_cases hempty : t.keyHash = ""
      · simp only [hempty,Directory.taken,if_true]
        exact ⟨rfl,directory_insert _ _ _ _⟩
      · simp only [hempty,if_false,hr.taken_of_unknown hempty hid]
        cases hl : r.byHash.lookup t.keyHash with
        | some other => exact ⟨rfl,rfl⟩
        | none => exact ⟨rfl,directory_insert _ _ _ _⟩
  | update id patch =>
    simp only [Registry.perform,Registry.update,Directory.perform,hmap]
    cases hid : r.byID.lookup id with
    | none => exact ⟨rfl,rfl⟩
    | some existing =>
      cases happly : patch.apply existing with
      | error e =>
        simp only [happly]
        exact ⟨rfl,trivial⟩
      | ok updated =>
        simp only [happly]
        exact ⟨rfl,directory_insert _ _ _ _⟩
  | rotateKey id newHash newMasked now =>
    simp only [Registry.perform,Registry.rotateKey,Directory.perform,hmap]
    cases hid : r.byID.lookup id with
    | none => exact ⟨rfl,rfl⟩
    | some existing =>
      by_cases hempty : newHash = ""
      · simp only [hempty,if_true]
        exact ⟨rfl,trivial⟩
      · simp only [hempty,if_false,hr.taken_eq hempty]
        cases hl : (r.byHash.lookup newHash).filter (·.id ≠ id) with
        | some other => exact ⟨rfl,rfl⟩
        | none => exact ⟨rfl,directory_insert _ _ _ _⟩
  | revokeKey id =>
    simp only [Registry.perform,Registry.revokeKey,Directory.perform,hmap]
    cases hid : r.byID.lookup id with
    | none => exact ⟨rfl,rfl⟩
    | some existing => exact ⟨rfl,directory_insert _ _ _ _⟩
  | remove id =>
    simp only [Registry.perform,Registry.remove,Directory.perform,hmap]
    cases hid : r.byID.lookup id with
    | none => exact ⟨rfl,rfl⟩
    | some existing => exact ⟨rfl,directory_erase _ _ _⟩

theorem Registry.perform_error (c : Change) {e : AuthError} (h : (r.perform c).1 = .error e) :
    (r.perform c).2 = r := by
  revert h
  cases c with
  | add t =>
    simp only [Registry.perform,Registry.add]
    split
    · exact fun _ => rfl
    · split
      · exact fun h => nomatch h
      · split
        · exact fun _ => rfl
        · exact fun h => nomatch h
  | update id patch =>
    simp only [Registry.perform,Registry.update]
    split
    · exact fun _ => rfl
    · split
      · exact fun _ => rfl
      · exact fun h => nomatch h
  | rotateKey id newHash newMasked now =>
    simp only [Registry.perform,Registry.rotateKey]
    split
    · exact fun _ => rfl
    · split
      · exact fun _ => rfl
      · split
        · exact fun _ => rfl
        · exact fun h => nomatch h
  | revokeKey id =>
    simp only [Registry.perform,Registry.revokeKey]
    split
    · exact fun _ => rfl
    · exact fun h => nomatch h
  | remove id =>
    simp only [Registry.perform,Registry.remove]
    split
    · exact fun _ => rfl
    · exact fun h => nomatch h

theorem Registry.Coherent.authenticate_iff (hr : r.Coherent) (rawKey : String) (t : Team) :
    r.authenticate rawKey = .ok t ↔ ∃ id,r.get id = .ok t ∧ t.keyHash = hashKey rawKey := by
  have hget : ∀ id,r.get id = .ok t ↔ r.byID.lookup id = some t := by
    intro id
    unfold Registry.get
    cases r.byID.lookup id <;> simp
  have hne := hashKey_ne_empty rawKey
  simp only [hget]
  constructor
  · intro h
    unfold Registry.authenticate at h
    cases hl : r.byHash.lookup (hashKey rawKey) with
    | none => simp [hl] at h
    | some u =>
      obtain ⟨hkey,hown⟩ := hr.hashes _ u hne hl
      have hu : u.keyHash ≠ "" := by rw [hkey]; exact hne
      simp only [hl,hu,if_false,Except.ok.injEq] at h
      subst h
      exact ⟨u.id,hown,hkey⟩
  · intro h
    obtain ⟨id,hown,hkey⟩ := h
    have ht : t.keyHash ≠ "" := by rw [hkey]; exact hne
    have hl := hr.keys id t hown ht
    rw [hkey] at hl
    simp [Registry.authenticate,hl,ht]

theorem Registry.mem_list {t : Team} : t ∈ r.list ↔ ∃ id,r.byID.lookup id = some t := by
  simp only [Registry.list,List.mem_map,← Option.mem_def,AList.mem_lookup_iff]
  constructor
  · intro h
    obtain ⟨⟨id,u⟩,hmem,rfl⟩ := h
    exact ⟨id,hmem⟩
  · intro h
    obtain ⟨id,hmem⟩ := h
    exact ⟨⟨id,t⟩,hmem,rfl⟩

/-- What it is for a registry to be the map m. -/
structure Registry.Is (r : Registry) (m : Directory) : Prop where
  get : ∀ id,r.get id = (m id).elim (.error .unknownTeam) .ok
  list : ∀ t,t ∈ r.list ↔ m t.id = some t
  once : (r.list.map Team.id).Nodup
  failed : ∀ c e,(r.perform c).1 = .error e → (r.perform c).2 = r
  keys : ∀ i j t u,m i = some t → m j = some u → t.keyHash ≠ "" → t.keyHash = u.keyHash → i = j
  authenticate : ∀ rawKey t,r.authenticate rawKey = .ok t ↔
    ∃ id,r.get id = .ok t ∧ t.keyHash = hashKey rawKey

theorem Registry.Coherent.is (hr : r.Coherent) : r.Is r.directory where
  get id := by
    unfold Registry.get Registry.directory
    cases r.byID.lookup id <;> rfl
  list t := by
    rw [Registry.mem_list]
    constructor
    · intro h
      obtain ⟨id,hid⟩ := h
      rw [hr.ids id t hid]
      exact hid
    · exact fun h => ⟨t.id,h⟩
  once := by
    have hkeys : r.list.map Team.id = r.byID.keys := by
      unfold Registry.list AList.keys List.keys
      rw [List.map_map]
      refine List.map_congr_left fun x hx => ?_
      exact hr.ids x.1 x.2 (AList.mem_lookup_iff.2 hx)
    rw [hkeys]
    exact r.byID.keys_nodup
  failed c e := Registry.perform_error c
  keys i j t u ht hu hne heq := hr.id_unique ht hu hne heq
  authenticate := hr.authenticate_iff

theorem Directory.ofTeams_iff {teams : List Team} (hd : (teams.map Team.id).Nodup) {id : String}
    {t : Team} : Directory.ofTeams teams id = some t ↔ t ∈ teams ∧ id = t.id := by
  unfold Directory.ofTeams
  constructor
  · intro hf
    have hid := List.find?_some (p := fun t : Team => t.id = id) hf
    exact ⟨List.mem_of_find?_eq_some hf,(of_decide_eq_true hid).symm⟩
  · intro hm
    obtain ⟨ht,rfl⟩ := hm
    cases hf : teams.find? (·.id = t.id) with
    | none => simpa using List.find?_eq_none.1 hf t ht
    | some u =>
      have hid : u.id = t.id := by simpa using List.find?_some hf
      rw [List.inj_on_of_nodup_map hd (List.mem_of_find?_eq_some hf) ht hid]

theorem newRegistry_directory {teams : List Team} (hd : (teams.map Team.id).Nodup)
    (h : newRegistry teams = .ok r) : r.Coherent ∧ r.directory = Directory.ofTeams teams := by
  obtain ⟨hr,hall⟩ := newRegistry_spec hd h
  refine ⟨hr,funext fun id => Option.ext fun t => ?_⟩
  rw [Registry.directory,hall,Directory.ofTeams_iff hd]

/-- Any history of calls on a registry is that history on the plain map, reply
by reply, and the registry is that map at the end of it. -/
theorem registry_is_directory {teams : List Team} (hd : (teams.map Team.id).Nodup)
    (h : newRegistry teams = .ok r) (changes : List Change) :
    (replies Registry.perform r changes).1 =
        (replies Directory.perform (.ofTeams teams) changes).1 ∧
      (replies Registry.perform r changes).2.Is
        (replies Directory.perform (.ofTeams teams) changes).2 ∧
      ∀ rawKey,(hashKey rawKey).length = 64 := by
  have hstart := newRegistry_directory hd h
  obtain ⟨hreplies,hr,hend⟩ := replies_related (f := Registry.perform) (g := Directory.perform)
    (R := fun r m => r.Coherent ∧ r.directory = m) (fun r m c hrm => by
      obtain ⟨hr,rfl⟩ := hrm
      obtain ⟨hreply,hnext⟩ := hr.perform_directory c
      exact ⟨hreply,hr.perform c,hnext⟩) hstart changes
  exact ⟨hreplies,hend ▸ hr.is,hashKey_length⟩

def keyedTeam : Team :=
  ⟨"t","t","o",hashKey "old",["p"],["m"],⟨1,1⟩,1,priorityRealtime,false,false,"","",none⟩

def revokedHistory : List Change :=
  [.revokeKey "t",.update "t" ⟨some 5,none,none⟩,.rotateKey "t" (hashKey "new") "" 7]

theorem registry_is_directory_revoked :
    ∃ r,newRegistry [keyedTeam] = .ok r ∧
      (replies Registry.perform r revokedHistory).1 =
        (replies Directory.perform (.ofTeams [keyedTeam]) revokedHistory).1 ∧
      (∀ id,(replies Registry.perform r revokedHistory).2.get id ≠ .ok keyedTeam) ∧
      ((replies Registry.perform r revokedHistory).2.authenticate "new").isOk = true := by
  have hrun : (newRegistry [keyedTeam]).toOption.map (fun r =>
      ((replies Registry.perform r revokedHistory).2.authenticate "old").isOk ||
        !((replies Registry.perform r revokedHistory).2.authenticate "new").isOk) = some false := by
    decide +kernel
  cases hr : newRegistry [keyedTeam] with
  | error e => simp [hr,Except.toOption] at hrun
  | ok r =>
    simp only [hr,Except.toOption,Option.map_some,Option.some.injEq,Bool.or_eq_false_iff,
      Bool.not_eq_false'] at hrun
    obtain ⟨hreplies,his,-⟩ := registry_is_directory (by simp) hr revokedHistory
    refine ⟨r,rfl,hreplies,fun id hget => ?_,hrun.2⟩
    have hauth := (his.authenticate "old" keyedTeam).2 ⟨id,hget,rfl⟩
    rw [hauth] at hrun
    exact absurd hrun.1 (by decide)

end Switchyard.Auth
