import Mathlib.Data.List.AList
import Switchyard.GoText
import Switchyard.Sha256
set_option autoImplicit false

/-!
Teams and the in-memory registry that authenticates them. The registry's mutex
makes each method one step, so a method is a function from registry to registry.
-/

namespace Switchyard.Auth
open GoText

structure Priority where
  text : String
  deriving DecidableEq, Repr

def priorityRealtime : Priority := ⟨"realtime"⟩
def priorityBatch : Priority := ⟨"batch"⟩

structure RateLimits where
  rpm : Int
  tpm : Int
  deriving DecidableEq, Repr

structure Team where
  id : String
  name : String
  organizationID : String
  keyHash : String
  allowedProviders : List String
  allowedModels : List String
  rateLimits : RateLimits
  monthlyBudgetMicros : Int
  priority : Priority
  isAdmin : Bool
  cacheIsolated : Bool
  keySource : String
  keyMasked : String
  keyCreatedAt : Option Int
  deriving DecidableEq, Repr

def keySourceCreated : String := "created"
def keySourceRotated : String := "rotated"
def keySourceRevoked : String := "revoked"

def Team.allowsModel (t : Team) (model : String) : Bool := t.allowedModels.any (· == model)

def Team.allowsProvider (t : Team) (provider : String) : Bool :=
  t.allowedProviders.any (· == provider)

def hashKey (raw : String) : String := hexEncode (Sha256.sha256 (bytes raw))

theorem hashKey_length (raw : String) : (hashKey raw).length = 64 := by
  rw [hashKey,← String.length_toList,hexEncode_length,Sha256.sha256_length]

theorem hashKey_ne_empty (raw : String) : hashKey raw ≠ "" := by
  intro h
  have := hashKey_length raw
  simp [h] at this

inductive AuthError where
  | unknownKey
  | unknownTeam
  | teamExists
  | unknownOrganization
  | other (text : String)
  deriving DecidableEq, Repr

def AuthError.text : AuthError → String
  | .unknownKey => "unknown api key"
  | .unknownTeam => "unknown team id"
  | .teamExists => "team id already exists"
  | .unknownOrganization => "unknown organization id"
  | .other text => text

/-- The two indexes. Both map to the same team values; a change replaces the
value in each of them. -/
structure Registry where
  byHash : AList fun _ : String => Team
  byID : AList fun _ : String => Team

def Registry.index (r : Registry) (t : Team) : Except AuthError Registry :=
  let byID := r.byID.insert t.id t
  if t.keyHash = "" then .ok { r with byID }
  else
    match r.byHash.lookup t.keyHash with
    | some existing =>
      .error (.other s!"teams {quote existing.id} and {quote t.id} share the same api_key_hash")
    | none => .ok ⟨r.byHash.insert t.keyHash t,byID⟩

def newRegistry (teams : List Team) : Except AuthError Registry :=
  teams.foldlM Registry.index ⟨∅,∅⟩

def Registry.authenticate (r : Registry) (rawKey : String) : Except AuthError Team :=
  match r.byHash.lookup (hashKey rawKey) with
  | none => .error .unknownKey
  | some team => if team.keyHash = "" then .error .unknownKey else .ok team

def Registry.get (r : Registry) (id : String) : Except AuthError Team :=
  match r.byID.lookup id with
  | none => .error .unknownTeam
  | some t => .ok t

def Registry.rotateKey (r : Registry) (id newHash newMasked : String) (now : Int) :
    Except AuthError Team × Registry :=
  match r.byID.lookup id with
  | none => (.error .unknownTeam,r)
  | some existing =>
    if newHash = "" then (.error (.other s!"rotate {id}: new key hash is empty"),r)
    else
      match (r.byHash.lookup newHash).filter (·.id ≠ id) with
      | some other =>
        (.error (.other s!"rotate {id}: new key already belongs to team {quote other.id}"),r)
      | none =>
        let updated := { existing with
          keyHash := newHash, keySource := keySourceRotated
          keyMasked := newMasked, keyCreatedAt := some now }
        (.ok updated,⟨(r.byHash.erase existing.keyHash).insert newHash updated,
          r.byID.insert id updated⟩)

def Registry.revokeKey (r : Registry) (id : String) : Except AuthError Team × Registry :=
  match r.byID.lookup id with
  | none => (.error .unknownTeam,r)
  | some existing =>
    let updated := { existing with
      keyHash := "", keySource := keySourceRevoked, keyMasked := "", keyCreatedAt := none }
    (.ok updated,⟨r.byHash.erase existing.keyHash,r.byID.insert id updated⟩)

def Registry.remove (r : Registry) (id : String) : Except AuthError Team × Registry :=
  match r.byID.lookup id with
  | none => (.error .unknownTeam,r)
  | some existing =>
    let byHash := if existing.keyHash = "" then r.byHash else r.byHash.erase existing.keyHash
    (.ok existing,⟨byHash,r.byID.erase id⟩)

/-- Values as copies; Go gives them in any order. -/
def Registry.list (r : Registry) : List Team := r.byID.entries.map Sigma.snd

structure TeamPatch where
  rpm : Option Int
  tpm : Option Int
  monthlyBudgetMicros : Option Int
  deriving DecidableEq, Repr

def validateLimits (t : Team) : Except AuthError Unit :=
  if t.rateLimits.rpm ≤ 0 then
    .error (.other ("rpm must be a positive integer, got " ++ formatInt t.rateLimits.rpm))
  else if t.rateLimits.tpm ≤ 0 then
    .error (.other ("tpm must be a positive integer, got " ++ formatInt t.rateLimits.tpm))
  else if t.monthlyBudgetMicros ≤ 0 then
    .error (.other (s!"monthly budget must be positive, got {formatInt t.monthlyBudgetMicros} " ++
      "micro-dollars"))
  else .ok ()

def TeamPatch.merge (p : TeamPatch) (t : Team) : Team :=
  { t with
    rateLimits := ⟨p.rpm.getD t.rateLimits.rpm,p.tpm.getD t.rateLimits.tpm⟩
    monthlyBudgetMicros := p.monthlyBudgetMicros.getD t.monthlyBudgetMicros }

def TeamPatch.apply (p : TeamPatch) (t : Team) : Except AuthError Team :=
  match validateLimits (p.merge t) with
  | .error e => .error e
  | .ok () => .ok (p.merge t)

/-- The hash cannot change here, so the hash index is written without a delete;
a revoked team lands in the slot of the empty hash. -/
def Registry.update (r : Registry) (id : String) (patch : TeamPatch) :
    Except AuthError Team × Registry :=
  match r.byID.lookup id with
  | none => (.error .unknownTeam,r)
  | some existing =>
    match patch.apply existing with
    | .error e => (.error e,r)
    | .ok updated =>
      (.ok updated,⟨r.byHash.insert updated.keyHash updated,r.byID.insert id updated⟩)

def Registry.add (r : Registry) (t : Team) : Except AuthError Unit × Registry :=
  match r.byID.lookup t.id with
  | some _ => (.error .teamExists,r)
  | none =>
    if t.keyHash = "" then (.ok (),{ r with byID := r.byID.insert t.id t })
    else
      match r.byHash.lookup t.keyHash with
      | some other =>
        (.error (.other s!"add {t.id}: key already belongs to team {quote other.id}"),r)
      | none => (.ok (),⟨r.byHash.insert t.keyHash t,r.byID.insert t.id t⟩)

/-- The slot of the empty hash is outside the invariant: no raw key hashes to
it, so what stands there is never read. -/
structure Registry.Coherent (r : Registry) : Prop where
  ids : ∀ id t,r.byID.lookup id = some t → t.id = id
  hashes : ∀ h t,h ≠ "" → r.byHash.lookup h = some t →
    t.keyHash = h ∧ r.byID.lookup t.id = some t
  keys : ∀ id t,r.byID.lookup id = some t → t.keyHash ≠ "" →
    r.byHash.lookup t.keyHash = some t

variable {t : Team}

theorem lookup_insert_iff {h k : String} {u : Team} {m : AList fun _ : String => Team} :
    (m.insert k t).lookup h = some u ↔ h = k ∧ t = u ∨ h ≠ k ∧ m.lookup h = some u := by
  by_cases hk : h = k
  · subst hk
    simp
  · simp [AList.lookup_insert_ne hk,hk]

theorem lookup_erase_iff {h k : String} {u : Team} {m : AList fun _ : String => Team} :
    (m.erase k).lookup h = some u ↔ h ≠ k ∧ m.lookup h = some u := by
  by_cases hk : h = k
  · subst hk
    simp
  · simp [AList.lookup_erase_ne hk,hk]

variable {r : Registry}

theorem Registry.Coherent.id_unique (hr : r.Coherent) {i j : String} {u : Team}
    (ht : r.byID.lookup i = some t) (hu : r.byID.lookup j = some u) (hne : t.keyHash ≠ "")
    (heq : t.keyHash = u.keyHash) : i = j := by
  have h1 := hr.keys i t ht hne
  have h2 := hr.keys j u hu (heq ▸ hne)
  rw [heq,h2,Option.some.injEq] at h1
  rw [← hr.ids i t ht,← hr.ids j u hu,h1]

variable {id : String}

theorem Registry.Coherent.id_ne (hr : r.Coherent) {h : String} {existing : Team}
    (hid : r.byID.lookup id = some existing) (hold : h ≠ existing.keyHash) (hne : h ≠ "")
    (ht : r.byHash.lookup h = some t) : t.id ≠ id := by
  obtain ⟨hkey,hown⟩ := hr.hashes h t hne ht
  rintro rfl
  rw [hid,Option.some.injEq] at hown
  exact hold (hown ▸ hkey.symm)

theorem Registry.Coherent.rotateKey (hr : r.Coherent) (id newHash newMasked : String) (now : Int) :
    (r.rotateKey id newHash newMasked now).2.Coherent := by
  unfold Registry.rotateKey
  cases hid : r.byID.lookup id with
  | none => exact hr
  | some existing =>
    have hexisting := hr.ids id existing hid
    by_cases hempty : newHash = ""
    · simpa [hempty] using hr
    simp only [hempty,if_false]
    cases htaken : (r.byHash.lookup newHash).filter (·.id ≠ id) with
    | some other => exact hr
    | none =>
      constructor
      · intro i t ht
        rcases lookup_insert_iff.1 ht with ⟨rfl,rfl⟩ | ⟨_,ht⟩
        · exact hexisting
        · exact hr.ids i t ht
      · intro h t hne ht
        rcases lookup_insert_iff.1 ht with ⟨rfl,rfl⟩ | ⟨_,ht⟩
        · exact ⟨rfl,lookup_insert_iff.2 (.inl ⟨hexisting,rfl⟩)⟩
        · obtain ⟨hold,ht⟩ := lookup_erase_iff.1 ht
          obtain ⟨hkey,hown⟩ := hr.hashes h t hne ht
          exact ⟨hkey,lookup_insert_iff.2 (.inr ⟨hr.id_ne hid hold hne ht,hown⟩)⟩
      · intro i t ht hne
        rcases lookup_insert_iff.1 ht with ⟨rfl,rfl⟩ | ⟨hi,ht⟩
        · exact lookup_insert_iff.2 (.inl ⟨rfl,rfl⟩)
        · have hown := hr.keys i t ht hne
          refine lookup_insert_iff.2 (.inr ⟨?_,lookup_erase_iff.2 ⟨?_,hown⟩⟩)
          · intro hnew
            simp [hnew ▸ hown,hr.ids i t ht,hi] at htaken
          · intro hold
            exact hi (hr.id_unique ht hid hne hold)

theorem Registry.Coherent.revokeKey (hr : r.Coherent) (id : String) :
    (r.revokeKey id).2.Coherent := by
  unfold Registry.revokeKey
  cases hid : r.byID.lookup id with
  | none => exact hr
  | some existing =>
    constructor
    · intro i t ht
      rcases lookup_insert_iff.1 ht with ⟨rfl,rfl⟩ | ⟨_,ht⟩
      · exact hr.ids i existing hid
      · exact hr.ids i t ht
    · intro h t hne ht
      obtain ⟨hold,ht⟩ := lookup_erase_iff.1 ht
      obtain ⟨hkey,hown⟩ := hr.hashes h t hne ht
      exact ⟨hkey,lookup_insert_iff.2 (.inr ⟨hr.id_ne hid hold hne ht,hown⟩)⟩
    · intro i t ht hne
      rcases lookup_insert_iff.1 ht with ⟨rfl,rfl⟩ | ⟨hi,ht⟩
      · exact absurd rfl hne
      · refine lookup_erase_iff.2 ⟨?_,hr.keys i t ht hne⟩
        intro hold
        exact hi (hr.id_unique ht hid hne hold)

theorem Registry.Coherent.remove (hr : r.Coherent) (id : String) : (r.remove id).2.Coherent := by
  unfold Registry.remove
  cases hid : r.byID.lookup id with
  | none => exact hr
  | some existing =>
    -- with an empty hash nothing is erased, and no non-empty hash equals it
    have herase : ∀ h t,h ≠ "" → ((if existing.keyHash = "" then r.byHash
        else r.byHash.erase existing.keyHash).lookup h = some t ↔
        h ≠ existing.keyHash ∧ r.byHash.lookup h = some t) := by
      intro h t hne
      split_ifs with hempty
      · simp [hempty,hne]
      · exact lookup_erase_iff
    constructor
    · intro i t ht
      exact hr.ids i t (lookup_erase_iff.1 ht).2
    · intro h t hne ht
      obtain ⟨hold,ht⟩ := (herase h t hne).1 ht
      obtain ⟨hkey,hown⟩ := hr.hashes h t hne ht
      exact ⟨hkey,lookup_erase_iff.2 ⟨hr.id_ne hid hold hne ht,hown⟩⟩
    · intro i t ht hne
      obtain ⟨hi,ht⟩ := lookup_erase_iff.1 ht
      refine (herase _ t hne).2 ⟨?_,hr.keys i t ht hne⟩
      intro hold
      exact hi (hr.id_unique ht hid hne hold)

theorem TeamPatch.apply_ok {p : TeamPatch} {u : Team} (h : p.apply t = .ok u) :
    u = p.merge t ∧ validateLimits u = .ok () := by
  unfold TeamPatch.apply at h
  cases hv : validateLimits (p.merge t) with
  | error e => simp [hv] at h
  | ok x =>
    simp only [hv,Except.ok.injEq] at h
    exact ⟨h.symm,by rw [← h,hv]⟩

theorem Registry.Coherent.update (hr : r.Coherent) (id : String) (patch : TeamPatch) :
    (r.update id patch).2.Coherent := by
  unfold Registry.update
  cases hid : r.byID.lookup id with
  | none => exact hr
  | some existing =>
    have hexisting := hr.ids id existing hid
    cases happly : patch.apply existing with
    | error e => simpa [happly] using hr
    | ok updated =>
      obtain ⟨hmerge,-⟩ := TeamPatch.apply_ok happly
      have hsame : updated.id = id ∧ updated.keyHash = existing.keyHash := by
        rw [hmerge]
        exact ⟨hexisting,rfl⟩
      simp only [happly]
      constructor
      · intro i t ht
        rcases lookup_insert_iff.1 ht with ⟨rfl,rfl⟩ | ⟨_,ht⟩
        · exact hsame.1
        · exact hr.ids i t ht
      · intro h t hne ht
        rcases lookup_insert_iff.1 ht with ⟨rfl,rfl⟩ | ⟨hold,ht⟩
        · exact ⟨rfl,lookup_insert_iff.2 (.inl ⟨hsame.1,rfl⟩)⟩
        · rw [hsame.2] at hold
          obtain ⟨hkey,hown⟩ := hr.hashes h t hne ht
          exact ⟨hkey,lookup_insert_iff.2 (.inr ⟨hr.id_ne hid hold hne ht,hown⟩)⟩
      · intro i t ht hne
        rcases lookup_insert_iff.1 ht with ⟨rfl,rfl⟩ | ⟨hi,ht⟩
        · exact lookup_insert_iff.2 (.inl ⟨rfl,rfl⟩)
        · refine lookup_insert_iff.2 (.inr ⟨fun hold => ?_,hr.keys i t ht hne⟩)
          exact hi (hr.id_unique ht hid hne (hold.trans hsame.2))

theorem Registry.Coherent.id_ne_of_unknown (hr : r.Coherent) {h : String}
    (hid : r.byID.lookup id = none) (hne : h ≠ "") (ht : r.byHash.lookup h = some t) :
    t.id ≠ id := by
  obtain ⟨_,hown⟩ := hr.hashes h t hne ht
  rintro rfl
  rw [hid] at hown
  cases hown

theorem Registry.Coherent.rotateKey_lookup (hr : r.Coherent)
    {newHash newMasked h : String} {now : Int} (hnew : newHash ≠ "")
    (hfree : ∀ other,r.byHash.lookup newHash = some other → other.id = id) (hne : h ≠ "")
    (ht : (r.rotateKey id newHash newMasked now).2.byHash.lookup h = some t) :
    h = newHash ∧ t.id = id ∨ t.id ≠ id ∧ r.byHash.lookup h = some t := by
  unfold Registry.rotateKey at ht
  cases hid : r.byID.lookup id with
  | none =>
    rw [hid] at ht
    exact .inr ⟨hr.id_ne_of_unknown hid hne ht,ht⟩
  | some existing =>
    have htaken : (r.byHash.lookup newHash).filter (·.id ≠ id) = none := by
      simpa using hfree
    simp only [hid,hnew,if_false,htaken] at ht
    rcases lookup_insert_iff.1 ht with ⟨rfl,rfl⟩ | ⟨_,ht⟩
    · exact .inl ⟨rfl,hr.ids id existing hid⟩
    · obtain ⟨hold,ht⟩ := lookup_erase_iff.1 ht
      exact .inr ⟨hr.id_ne hid hold hne ht,ht⟩

theorem Registry.Coherent.revokeKey_lookup (hr : r.Coherent) {h : String}
    (hne : h ≠ "") (ht : (r.revokeKey id).2.byHash.lookup h = some t) :
    t.id ≠ id ∧ r.byHash.lookup h = some t := by
  unfold Registry.revokeKey at ht
  cases hid : r.byID.lookup id with
  | none =>
    rw [hid] at ht
    exact ⟨hr.id_ne_of_unknown hid hne ht,ht⟩
  | some existing =>
    simp only [hid] at ht
    obtain ⟨hold,ht⟩ := lookup_erase_iff.1 ht
    exact ⟨hr.id_ne hid hold hne ht,ht⟩

theorem Registry.Coherent.remove_lookup (hr : r.Coherent) {h : String}
    (hne : h ≠ "") (ht : (r.remove id).2.byHash.lookup h = some t) :
    t.id ≠ id ∧ r.byHash.lookup h = some t := by
  unfold Registry.remove at ht
  cases hid : r.byID.lookup id with
  | none =>
    rw [hid] at ht
    exact ⟨hr.id_ne_of_unknown hid hne ht,ht⟩
  | some existing =>
    simp only [hid] at ht
    have hkept : h ≠ existing.keyHash ∧ r.byHash.lookup h = some t := by
      split_ifs at ht with hempty
      · exact ⟨hempty ▸ hne,ht⟩
      · exact lookup_erase_iff.1 ht
    exact ⟨hr.id_ne hid hkept.1 hne hkept.2,hkept.2⟩

theorem Registry.Coherent.index {r' : Registry} (hr : r.Coherent)
    (hnew : r.byID.lookup t.id = none) (h : r.index t = .ok r') :
    r'.Coherent ∧ r'.byID = r.byID.insert t.id t := by
  have hother : ∀ i u,r.byID.lookup i = some u → i ≠ t.id := by
    rintro i u hu rfl
    simp [hnew] at hu
  have hids : ∀ i u,(r.byID.insert t.id t).lookup i = some u → u.id = i := by
    intro i u hu
    rcases lookup_insert_iff.1 hu with ⟨rfl,rfl⟩ | ⟨_,hu⟩
    · rfl
    · exact hr.ids i u hu
  have hold : ∀ g u,g ≠ "" → r.byHash.lookup g = some u →
      u.keyHash = g ∧ (r.byID.insert t.id t).lookup u.id = some u := by
    intro g u hg hu
    obtain ⟨hkey,hown⟩ := hr.hashes g u hg hu
    exact ⟨hkey,lookup_insert_iff.2 (.inr ⟨hother _ _ hown,hown⟩)⟩
  unfold Registry.index at h
  by_cases hempty : t.keyHash = ""
  · simp only [hempty,if_true,Except.ok.injEq] at h
    subst h
    refine ⟨⟨hids,hold,?_⟩,rfl⟩
    intro i u hu hne
    rcases lookup_insert_iff.1 hu with ⟨rfl,rfl⟩ | ⟨_,hu⟩
    · exact absurd hempty hne
    · exact hr.keys i u hu hne
  · simp only [hempty,if_false] at h
    cases htaken : r.byHash.lookup t.keyHash with
    | some existing => simp [htaken] at h
    | none =>
      simp only [htaken,Except.ok.injEq] at h
      subst h
      refine ⟨⟨hids,?_,?_⟩,rfl⟩
      · intro g u hg hu
        rcases lookup_insert_iff.1 hu with ⟨rfl,rfl⟩ | ⟨_,hu⟩
        · exact ⟨rfl,lookup_insert_iff.2 (.inl ⟨rfl,rfl⟩)⟩
        · exact hold g u hg hu
      · intro i u hu hne
        rcases lookup_insert_iff.1 hu with ⟨rfl,rfl⟩ | ⟨_,hu⟩
        · exact lookup_insert_iff.2 (.inl ⟨rfl,rfl⟩)
        · have hown := hr.keys i u hu hne
          refine lookup_insert_iff.2 (.inr ⟨?_,hown⟩)
          intro hsame
          rw [hsame,htaken] at hown
          cases hown

theorem Registry.Coherent.add (hr : r.Coherent) (t : Team) : (r.add t).2.Coherent := by
  unfold Registry.add
  cases hid : r.byID.lookup t.id with
  | some existing => exact hr
  | none =>
    by_cases hempty : t.keyHash = ""
    · simp only [hempty,if_true]
      exact (hr.index hid (by simp only [Registry.index,hempty,if_true])).1
    · simp only [hempty,if_false]
      cases htaken : r.byHash.lookup t.keyHash with
      | some other => exact hr
      | none =>
        exact (hr.index hid (by simp only [Registry.index,hempty,if_false,htaken])).1

theorem Registry.Coherent.foldlM_index {teams : List Team} {r' : Registry} (hr : r.Coherent)
    (hnew : ∀ t ∈ teams,r.byID.lookup t.id = none) (hd : (teams.map Team.id).Nodup)
    (h : teams.foldlM Registry.index r = .ok r') :
    r'.Coherent ∧ ∀ id t,r'.byID.lookup id = some t ↔
      (t ∈ teams ∧ id = t.id) ∨ r.byID.lookup id = some t := by
  induction teams generalizing r with
  | nil =>
    cases h
    simpa using hr
  | cons t teams ih =>
    rw [List.foldlM_cons] at h
    cases hstep : r.index t with
    | error e => simp [hstep,bind,Except.bind] at h
    | ok r1 =>
      simp only [hstep,bind,Except.bind] at h
      obtain ⟨hr1,hbyID⟩ := hr.index (hnew t (by simp)) hstep
      simp only [List.map_cons,List.nodup_cons] at hd
      have hnew1 : ∀ u ∈ teams,r1.byID.lookup u.id = none := by
        intro u hu
        have hne : u.id ≠ t.id := fun heq => hd.1 (heq ▸ List.mem_map_of_mem hu)
        rw [hbyID,AList.lookup_insert_ne hne]
        exact hnew u (by simp [hu])
      obtain ⟨hr',hall⟩ := ih hr1 hnew1 hd.2 h
      refine ⟨hr',fun id u => ?_⟩
      rw [hall,hbyID,lookup_insert_iff]
      have hfirst := hnew t (by simp)
      constructor
      · rintro (⟨hu,rfl⟩ | ⟨rfl,rfl⟩ | ⟨_,hu⟩)
        · exact .inl ⟨by simp [hu],rfl⟩
        · exact .inl ⟨by simp,rfl⟩
        · exact .inr hu
      · rintro (⟨hu,rfl⟩ | hu)
        · rcases List.mem_cons.1 hu with rfl | hu
          · exact .inr (.inl ⟨rfl,rfl⟩)
          · exact .inl ⟨hu,rfl⟩
        · refine .inr (.inr ⟨?_,hu⟩)
          rintro rfl
          rw [hfirst] at hu
          cases hu

theorem newRegistry_spec {teams : List Team} (hd : (teams.map Team.id).Nodup)
    (h : newRegistry teams = .ok r) :
    r.Coherent ∧ ∀ id t,r.byID.lookup id = some t ↔ t ∈ teams ∧ id = t.id := by
  have hempty : Registry.Coherent ⟨∅,∅⟩ := by constructor <;> simp
  simpa using hempty.foldlM_index (by simp) hd h

end Switchyard.Auth
