import Mathlib.Data.List.Pairwise
import Switchyard.GoText
import Switchyard.StepRuns
set_option autoImplicit false

/-!
Google sign-in and the bootstrap of the first superadmin
(internal/identity/store.go, user.go). A sign-in is one transaction: an error
anywhere before the commit leaves the tables as they were.
-/

namespace Switchyard.Identity
open GoText StepRuns

structure Profile where
  sub : String
  email : String
  emailVerified : Bool
  name : String
  picture : String
  deriving DecidableEq, Repr

structure User where
  id : String
  organizationID : String
  email : String
  name : String
  avatarURL : String
  googleSub : String
  isSuperadmin : Bool
  createdAt : Int
  lastLoginAt : Int
  deriving DecidableEq, Repr

/-- An owner that is NULL is the empty string. -/
structure Organization where
  id : String
  name : String
  ownerUserID : String
  deriving DecidableEq, Repr

/-- The two changes the bootstrap files: `user.superadmin.grant` and
`organization.owner.set`. -/
inductive AuditAction where
  | superadminGrant
  | ownerSet
  deriving DecidableEq, Repr

structure AuditEntry where
  actor : String
  action : AuditAction
  deriving DecidableEq, Repr

structure Tables where
  users : List User
  organizations : List Organization
  audit : List AuditEntry
  deriving DecidableEq, Repr

/-- `lower` is `strings.ToLower`, `sqlLower` what the database computes for
`lower(email)`. -/
structure Store where
  superadminEmail : String
  defaultOrgID : String
  defaultOrgName : String
  lower : String → String
  sqlLower : String → String

def normalizeEmail (lower : String → String) (email : String) : String := lower (trimSpace email)

def newStore (superadminEmail defaultOrgID defaultOrgName : String)
    (lower sqlLower : String → String) : Store :=
  ⟨normalizeEmail lower superadminEmail,defaultOrgID,defaultOrgName,lower,sqlLower⟩

def orgNameFor (name email : String) : String :=
  if trimSpace name ≠ "" then trimSpace name
  else
    let mailbox := email.toList.takeWhile (· ≠ '@')
    if '@' ∈ email.toList ∧ mailbox ≠ [] then String.ofList mailbox else "Personal"

inductive Stage where
  | begin
  | signIn
  | checkEmail
  | newUserID
  | newOrgID
  | createOrganization
  | createUser
  | setOwner
  | auditID (action : AuditAction)
  | audit (action : AuditAction)
  | grant
  | readOwner
  | adoptOwner
  deriving DecidableEq, Repr

/-- A sign-in and what happens to its statements. A commit may take effect
although its error is reported. -/
structure SignIn where
  profile : Profile
  now : Int
  userID : String
  orgID : String
  fault : Stage → Option String
  commitFault : Option (String × Bool)

def SignIn.stage (a : SignIn) (st : Stage) (op : String) : Except String Unit :=
  match a.fault st with
  | some e => .error (op ++ ": " ++ e)
  | none => .ok ()

def Tables.setUser (t : Tables) (id : String) (f : User → User) : Tables :=
  { t with users := t.users.map fun u => if u.id = id then f u else u }

def Tables.setOwner (t : Tables) (orgID userID : String) : Tables :=
  { t with organizations := t.organizations.map fun o =>
      if o.id = orgID ∧ o.ownerUserID = "" then { o with ownerUserID := userID } else o }

def audit (a : SignIn) (actor : String) (action : AuditAction) (t : Tables) :
    Except String Tables := do
  a.stage (.auditID action) "generating id"
  a.stage (.audit action) "writing audit entry"
  .ok { t with audit := t.audit ++ [⟨actor,action⟩] }

def grantSuperadmin (a : SignIn) (u : User) (t : Tables) : Except String (User × Tables) :=
  if u.isSuperadmin then .ok (u,t)
  else do
    let t ← audit a u.id .superadminGrant t
    a.stage .grant "granting superadmin"
    .ok ({ u with isSuperadmin := true },t.setUser u.id fun v => { v with isSuperadmin := true })

/-- The second: the default organisation is adopted while it has no owner. -/
def adoptDefault (s : Store) (a : SignIn) (u : User) (t : Tables) :
    Except String (User × Tables) := do
  a.stage .readOwner "reading default organization owner"
  match t.organizations.find? (·.id = s.defaultOrgID) with
  | none => .ok (u,t)
  | some o =>
    if o.ownerUserID ≠ "" then .ok (u,t)
    else do
      let t ← audit a u.id .ownerSet t
      a.stage .adoptOwner "setting default organization owner"
      .ok (u,t.setOwner s.defaultOrgID u.id)

def applyBootstrap (s : Store) (a : SignIn) (u : User) (t : Tables) :
    Except String (User × Tables) :=
  if s.superadminEmail = "" ∨ u.email ≠ s.superadminEmail then .ok (u,t)
  else do
    let (u,t) ← grantSuperadmin a u t
    adoptDefault s a u t

/-- `signInExisting`; none when no user has the subject. The stored email stays
what it was at sign-up. -/
def signInExisting (a : SignIn) (t : Tables) : Except String (Option (User × Tables)) := do
  a.stage .signIn "recording sign-in"
  match t.users.find? (·.googleSub = a.profile.sub) with
  | none => .ok none
  | some u =>
    let seen (u : User) : User := { u with
      name := a.profile.name, avatarURL := a.profile.picture, lastLoginAt := a.now }
    .ok (some (seen u,t.setUser u.id seen))

/-- The constraints on a new row of the users table. -/
def Tables.userRefused (s : Store) (t : Tables) (u : User) : Option String :=
  if u.email = "" ∨ u.email ≠ s.sqlLower u.email then some "constraint users_email_check (23514)"
  else if t.users.any (·.id = u.id) then some "constraint users_pkey (23505)"
  else if t.users.any (·.googleSub = u.googleSub) then
    some "constraint users_google_sub_key (23505)"
  else if t.users.any (·.email = u.email) then some "constraint users_email_idx (23505)"
  else none

/-- The bootstrap operator joins the default organisation, everyone else gets
one of their own. -/
def organizationFor (s : Store) (a : SignIn) (email : String) : Except String (String × String) :=
  if s.superadminEmail ≠ "" ∧ email = s.superadminEmail then
    .ok (s.defaultOrgID,s.defaultOrgName)
  else do
    a.stage .newOrgID "generating org_id"
    .ok (a.orgID,orgNameFor a.profile.name email)

def Tables.insertOrganization (t : Tables) (id name : String) : Tables :=
  if t.organizations.any (·.id = id) then t
  else { t with organizations := t.organizations ++ [⟨id,name,""⟩] }

def create (s : Store) (a : SignIn) (email : String) (t : Tables) :
    Except String (User × Tables) := do
  a.stage .newUserID "generating usr_id"
  let (orgID,orgName) ← organizationFor s a email
  a.stage .createOrganization "creating organization"
  let t := t.insertOrganization orgID orgName
  let u : User :=
    ⟨a.userID,orgID,email,a.profile.name,a.profile.picture,a.profile.sub,false,a.now,a.now⟩
  a.stage .createUser "creating user"
  match t.userRefused s u with
  | some text => .error ("creating user: " ++ text)
  | none =>
    let t := { t with users := t.users ++ [u] }
    if s.superadminEmail ≠ "" ∧ email = s.superadminEmail then .ok (u,t)
    else do
      a.stage .setOwner "setting organization owner"
      .ok (u,t.setOwner orgID u.id)

/-- The transaction up to its commit. -/
def resolveGoogleUser (s : Store) (a : SignIn) (t : Tables) :
    Except String ((User × Bool) × Tables) :=
  if a.profile.sub = "" ∨ a.profile.emailVerified = false then
    .error "refusing to resolve an unverified google profile"
  else do
    let email := normalizeEmail s.lower a.profile.email
    a.stage .begin "beginning identity transaction"
    match ← signInExisting a t with
    | some (u,t) =>
      let (u,t) ← applyBootstrap s a u t
      .ok ((u,false),t)
    | none =>
      a.stage .checkEmail "checking email"
      if t.users.any (·.email = email) then
        .error "email already registered to a different account"
      else do
        let (u,t) ← create s a email t
        let (u,t) ← applyBootstrap s a u t
        .ok ((u,true),t)

def findOrCreateGoogleUser (s : Store) (t : Tables) (a : SignIn) :
    Except String (User × Bool) × Tables :=
  match resolveGoogleUser s a t with
  | .error e => (.error e,t)
  | .ok (res,t') =>
    match a.commitFault with
    | some (e,took) =>
      (.error ((if res.2 then "committing signup: " else "committing sign-in: ") ++ e),
        if took then t' else t)
    | none => (.ok res,t')

theorem bind_eq_ok {α β : Type} {x : Except String α} {f : α → Except String β} {b : β}
    (h : x >>= f = .ok b) : ∃ a,x = .ok a ∧ f a = .ok b := by
  cases x with
  | error e => cases h
  | ok a => exact ⟨a,rfl,h⟩

def Tables.Keyed (t : Tables) : Prop :=
  t.users.Pairwise fun u v => u.id ≠ v.id ∧ u.googleSub ≠ v.googleSub

/-- Whoever can sign in and has the bootstrap address stored is superadmin already. -/
def Settled (s : Store) (t : Tables) : Prop :=
  s.superadminEmail ≠ "" → ∀ u ∈ t.users,u.googleSub ≠ "" → u.email = s.superadminEmail →
    u.isSuperadmin = true

/-- Whether the bootstrap raises a user: it goes by the address stored. -/
def boosts (s : Store) (u : User) : Bool :=
  decide (s.superadminEmail ≠ "" ∧ u.email = s.superadminEmail) && !u.isSuperadmin

def boosted (s : Store) (u v : User) : User :=
  if v.id = u.id ∧ boosts s u = true then { v with isSuperadmin := true } else v

def Same (u u' : User) : Prop :=
  u'.id = u.id ∧ u'.googleSub = u.googleSub ∧ u'.email = u.email

/-- All that a sign-in's transaction does to the users: the subject's own row may be
raised, or there is one more row, of the sign-in's own address. -/
inductive Resolved (s : Store) (a : SignIn) (t t' : Tables) : Prop where
  | existing (v : User) (f : User → User) : v ∈ t.users → v.googleSub = a.profile.sub →
      (∀ u,Same u (f u) ∧
        (f u).isSuperadmin = (u.isSuperadmin || decide (u.id = v.id) && boosts s v)) →
      t'.users = t.users.map f → Resolved s a t t'
  | created (u : User) : (∀ v ∈ t.users,v.id ≠ u.id ∧ v.googleSub ≠ u.googleSub) →
      u.googleSub = a.profile.sub → u.email = normalizeEmail s.lower a.profile.email →
      u.isSuperadmin = false → t'.users = t.users ++ [{ u with isSuperadmin := boosts s u }] →
        Resolved s a t t'

variable {a : SignIn} {s : Store} {t t' : Tables}

theorem audit_users {actor : String} {action : AuditAction} (h : audit a actor action t = .ok t') :
    t'.users = t.users := by
  obtain ⟨-,-,h⟩ := bind_eq_ok h
  obtain ⟨-,-,h⟩ := bind_eq_ok h
  cases h
  rfl

variable {u : User}

theorem adoptDefault_users {u' : User} (h : adoptDefault s a u t = .ok (u',t')) :
    t'.users = t.users := by
  obtain ⟨-,-,h⟩ := bind_eq_ok h
  split at h
  · cases h
    rfl
  · split at h
    · cases h
      rfl
    · obtain ⟨t₁,haudit,h⟩ := bind_eq_ok h
      obtain ⟨-,-,h⟩ := bind_eq_ok h
      cases h
      exact (audit_users haudit : t₁.users = t.users)

theorem grantSuperadmin_users {u' : User} (h : grantSuperadmin a u t = .ok (u',t')) :
    t'.users = if u.isSuperadmin then t.users
      else (t.setUser u.id fun v => { v with isSuperadmin := true }).users := by
  unfold grantSuperadmin at h
  split at h <;> rename_i hrank
  · cases h
    rw [if_pos hrank]
  · obtain ⟨t₁,haudit,h⟩ := bind_eq_ok h
    obtain ⟨-,-,h⟩ := bind_eq_ok h
    cases h
    simp only [if_neg hrank,Tables.setUser,audit_users haudit]

theorem boosted_row (s : Store) (u v : User) : Same v (boosted s u v) ∧
    (boosted s u v).isSuperadmin = (v.isSuperadmin || decide (v.id = u.id) && boosts s u) := by
  unfold boosted
  split <;> simp_all [Same]

theorem applyBootstrap_users {u' : User} (h : applyBootstrap s a u t = .ok (u',t')) :
    t'.users = t.users.map (boosted s u) := by
  have hkept : boosts s u = false → t.users = t.users.map (boosted s u) := by
    intro hno
    refine (List.map_id' t.users).symm.trans (List.map_congr_left fun v _ => ?_)
    simp [boosted,hno]
  unfold applyBootstrap at h
  split at h
  · rename_i hno
    cases h
    exact hkept (by obtain hno | hno := hno <;> simp [boosts,hno])
  · rename_i hyes
    obtain ⟨hne,hother⟩ := not_or.1 hyes
    have hemail := Decidable.not_not.1 hother
    obtain ⟨⟨u₁,t₁⟩,hgrant,h⟩ := bind_eq_ok h
    rw [adoptDefault_users h,grantSuperadmin_users hgrant]
    split <;> rename_i hrank
    · exact hkept (by simp [boosts,hrank])
    · simp [boosted,boosts,hne,hemail,hrank,Tables.setUser]

theorem userRefused_none (h : t.userRefused s u = none) :
    ∀ v ∈ t.users,v.id ≠ u.id ∧ v.googleSub ≠ u.googleSub := by
  unfold Tables.userRefused at h
  split_ifs at h with _ hid hsub
  intro v hv
  exact ⟨fun heq => hid (List.any_eq_true.2 ⟨v,hv,decide_eq_true heq⟩),
    fun heq => hsub (List.any_eq_true.2 ⟨v,hv,decide_eq_true heq⟩)⟩

theorem insertOrganization_users (t : Tables) (id name : String) :
    (t.insertOrganization id name).users = t.users := by
  unfold Tables.insertOrganization
  split <;> rfl

theorem create_ok {email : String} (h : create s a email t = .ok (u,t')) :
    t'.users = t.users ++ [u] ∧ u.googleSub = a.profile.sub ∧ u.email = email ∧
      u.isSuperadmin = false ∧ ∀ v ∈ t.users,v.id ≠ u.id ∧ v.googleSub ≠ u.googleSub := by
  obtain ⟨-,-,h⟩ := bind_eq_ok h
  obtain ⟨⟨orgID,orgName⟩,-,h⟩ := bind_eq_ok h
  obtain ⟨-,-,h⟩ := bind_eq_ok h
  obtain ⟨-,-,h⟩ := bind_eq_ok h
  split at h
  · cases h
  · rename_i hnone
    have hfree := userRefused_none hnone
    rw [insertOrganization_users] at hfree
    split at h
    · cases h
      exact ⟨by rw [insertOrganization_users],rfl,rfl,rfl,hfree⟩
    · obtain ⟨-,-,h⟩ := bind_eq_ok h
      cases h
      exact ⟨congrArg (· ++ [_]) (insertOrganization_users t orgID orgName),rfl,rfl,rfl,hfree⟩

/-- A user found by subject is judged by the address stored at sign-up. -/
theorem existing_resolved {u' : User} {t₁ : Tables}
    (hfound : signInExisting a t = .ok (some (u,t₁)))
    (hboot : applyBootstrap s a u t₁ = .ok (u',t')) : Resolved s a t t' := by
  obtain ⟨-,-,h⟩ := bind_eq_ok hfound
  split at h
  · cases h
  · rename_i v hfind
    cases h
    have husers := applyBootstrap_users hboot
    simp only [Tables.setUser,List.map_map] at husers
    refine .existing v _ (List.mem_of_find?_eq_some hfind) (by simpa using List.find?_some hfind)
      (fun w => ?_) husers
    simp only [Function.comp]
    split <;> exact boosted_row s _ _

theorem resolveGoogleUser_resolved {r : User × Bool} (h : resolveGoogleUser s a t = .ok (r,t')) :
    a.profile.sub ≠ "" ∧ a.profile.emailVerified = true ∧ Resolved s a t t' := by
  unfold resolveGoogleUser at h
  split at h
  · cases h
  · rename_i hguard
    obtain ⟨hsub,hverified⟩ := not_or.1 hguard
    refine ⟨hsub,by simpa using hverified,?_⟩
    obtain ⟨-,-,h⟩ := bind_eq_ok h
    obtain ⟨found,hfound,h⟩ := bind_eq_ok h
    split at h
    · obtain ⟨⟨u',t₂⟩,hboot,h⟩ := bind_eq_ok h
      cases h
      exact existing_resolved hfound hboot
    · obtain ⟨-,-,h⟩ := bind_eq_ok h
      split at h
      · cases h
      · obtain ⟨⟨u,t₁⟩,hcreate,h⟩ := bind_eq_ok h
        obtain ⟨⟨u',t₂⟩,hboot,h⟩ := bind_eq_ok h
        cases h
        obtain ⟨husers,hsub,hemail,hrank,hfree⟩ := create_ok hcreate
        refine .created u hfree hsub hemail hrank ?_
        rw [applyBootstrap_users hboot,husers,List.map_append]
        congr 1
        · refine (List.map_congr_left fun v hv => ?_).trans (List.map_id' _)
          exact if_neg fun hsame => (hfree v hv).1 hsame.1
        · cases u
          cases hb : boosts s _ <;> simp_all [boosted]

theorem findOrCreateGoogleUser_tables (s : Store) (t : Tables) (a : SignIn) :
    (findOrCreateGoogleUser s t a).2 = t ∨ a.profile.sub ≠ "" ∧ a.profile.emailVerified = true ∧
      Resolved s a t (findOrCreateGoogleUser s t a).2 := by
  unfold findOrCreateGoogleUser
  split
  · exact .inl rfl
  · rename_i hres
    split
    · rename_i took _
      cases took with
      | true => exact .inr (resolveGoogleUser_resolved hres)
      | false => exact .inl rfl
    · exact .inr (resolveGoogleUser_resolved hres)

def signIns (t : Tables) (history : List (Store × SignIn)) : Tables :=
  (replies (fun t e => findOrCreateGoogleUser e.1 t e.2) t history).2

theorem signIns_keyed (h : t.Keyed) (history : List (Store × SignIn)) :
    (signIns t history).Keyed := by
  induction history generalizing t with
  | nil => exact h
  | cons e rest ih =>
    refine ih ?_
    obtain hkept | ⟨-,-,hres⟩ := findOrCreateGoogleUser_tables e.1 t e.2
    · rwa [hkept]
    unfold Tables.Keyed
    cases hres with
    | existing v f hv hown hf husers =>
      rw [husers,List.pairwise_map]
      refine h.imp fun {u w} huw => ?_
      obtain ⟨⟨hid,hsub,-⟩,-⟩ := hf u
      obtain ⟨⟨hid',hsub',-⟩,-⟩ := hf w
      rwa [hid,hsub,hid',hsub']
    | created u hfree hown hmail hrank husers =>
      rw [husers,List.pairwise_append]
      exact ⟨h,List.pairwise_singleton _ _,fun v hv w hw => List.mem_singleton.1 hw ▸ hfree v hv⟩

def Raises (t t' : Tables) : Prop :=
  ∃ u' ∈ t'.users,u'.isSuperadmin = true ∧ ∀ u ∈ t.users,u.id = u'.id → u.isSuperadmin = false

def signInOf (sub email userID : String) (now : Int) : SignIn :=
  ⟨⟨sub,email,true,"",""⟩,now,userID,"org_" ++ userID,fun _ => none,none⟩

theorem ok_bind {α β : Type} (x : α) (f : α → Except String β) : (.ok x >>= f) = f x := rfl

theorem applyBootstrap_ok (hstage : ∀ st op,a.stage st op = .ok ()) (s : Store) (u : User)
    (t : Tables) : ∃ r,applyBootstrap s a u t = .ok r := by
  have hadopt : ∀ u t,∃ r,adoptDefault s a u t = .ok r := by
    intro u t
    simp only [adoptDefault,audit,hstage,ok_bind]
    split
    · exact ⟨_,rfl⟩
    · split <;> exact ⟨_,rfl⟩
  simp only [applyBootstrap,grantSuperadmin,audit,hstage,ok_bind]
  split
  · exact ⟨_,rfl⟩
  · split <;> exact hadopt _ _

/-- Any sign-in of the subject raises the user who has the bootstrap address stored. -/
theorem raises_stored (hkeyed : t.Keyed) (hne : s.superadminEmail ≠ "") (hu : u ∈ t.users)
    (hsub : u.googleSub ≠ "") (hemail : u.email = s.superadminEmail)
    (hplain : u.isSuperadmin = false) (email : String) :
    Raises t (findOrCreateGoogleUser s t (signInOf u.googleSub email "" 0)).2 := by
  have hown : ∀ v ∈ t.users,v.id = u.id ∨ v.googleSub = u.googleSub → v = u := by
    intro v hv hsame
    by_contra hother
    have : Std.Symm fun u v : User => u.id ≠ v.id ∧ u.googleSub ≠ v.googleSub :=
      ⟨fun _ _ hxy => ⟨hxy.1.symm,hxy.2.symm⟩⟩
    have hsep := List.Pairwise.forall hkeyed hv hu hother
    exact hsame.elim hsep.1 hsep.2
  have hfind : t.users.find? (·.googleSub = u.googleSub) = some u := by
    cases hfind : t.users.find? (·.googleSub = u.googleSub) with
    | none => exact absurd (List.find?_eq_none.1 hfind u hu) (by simp)
    | some v =>
      rw [hown v (List.mem_of_find?_eq_some hfind) (.inr (by simpa using List.find?_some hfind))]
  generalize ha : signInOf u.googleSub email "" 0 = a
  have hprofile : a.profile = ⟨u.googleSub,email,true,"",""⟩ := by rw [← ha]; rfl
  have hstage : ∀ st op,a.stage st op = .ok () := by
    intro st op
    rw [← ha]
    rfl
  obtain ⟨v,t₁,hseen⟩ : ∃ v t₁,signInExisting a t = .ok (some (v,t₁)) := by
    simp only [signInExisting,hstage,ok_bind,hprofile,hfind]
    exact ⟨_,_,rfl⟩
  obtain ⟨⟨u',t'⟩,hboot⟩ := applyBootstrap_ok hstage s v t₁
  have hend : (findOrCreateGoogleUser s t a).2 = t' := by
    have hcommit : a.commitFault = none := by rw [← ha]; rfl
    simp only [findOrCreateGoogleUser,resolveGoogleUser,hstage,ok_bind,hseen,hboot,hprofile,hcommit]
    simp [hsub]
  rw [hend]
  cases existing_resolved hseen hboot with
  | created w hfree hown' _ _ _ => exact absurd (hown'.trans (by rw [hprofile])).symm (hfree u hu).2
  | existing w f hw hwsub hf husers =>
    obtain rfl := hown w hw (.inr (by rw [hwsub,hprofile]))
    refine ⟨f w,husers ▸ List.mem_map_of_mem hw,?_,fun x hx hid => ?_⟩
    · simp [(hf w).2,boosts,hne,hemail,hplain]
    · rw [hown x hx (.inl (hid.trans (hf w).1.1)),hplain]

/-- Whatever addresses were configured before, the next sign-ins raise only by their
own verified address exactly when nobody has the address stored without its rank. -/
theorem superadmin_by_own_address_iff {t₀ : Tables} (hkeyed : t₀.Keyed)
    (history : List (Store × SignIn)) (address orgID orgName : String)
    (lower sqlLower : String → String) {other : String}
    (hother : normalizeEmail lower other ≠ normalizeEmail lower address) :
    let s := newStore address orgID orgName lower sqlLower
    let t := signIns t₀ history
    (∀ a : SignIn,Raises t (findOrCreateGoogleUser s t a).2 → a.profile.emailVerified = true ∧
        normalizeEmail lower a.profile.email = normalizeEmail lower address) ↔ Settled s t := by
  intro s t
  constructor
  · intro hlaw hne u hu hsub hemail
    by_contra hplain
    have hraises := raises_stored (signIns_keyed hkeyed history) hne hu hsub hemail
      (by simpa using hplain) other
    exact hother (hlaw _ hraises).2
  · intro hsettled a hraises
    obtain ⟨u',hu',hsuper,hbefore⟩ := hraises
    have hstored : u' ∉ t.users := fun hold => by simp [hbefore u' hold rfl] at hsuper
    obtain hkept | ⟨hsub,hverified,hres⟩ := findOrCreateGoogleUser_tables s t a
    · exact (hstored (hkept ▸ hu')).elim
    cases hres with
    | existing v f hv hown hf husers =>
      rw [husers] at hu'
      obtain ⟨u,hu,rfl⟩ := List.mem_map.1 hu'
      obtain ⟨⟨hid,-,-⟩,hrank⟩ := hf u
      rw [hrank,hbefore u hu hid.symm,Bool.false_or,Bool.and_eq_true] at hsuper
      have hboosts := hsuper.2
      simp only [boosts,Bool.and_eq_true,decide_eq_true_eq,Bool.not_eq_true'] at hboosts
      obtain ⟨⟨hne,hemail⟩,hplain⟩ := hboosts
      rw [hsettled hne v hv (hown ▸ hsub) hemail] at hplain
      cases hplain
    | created u hfree hown hmail hrank husers =>
      rw [husers] at hu'
      obtain hold | hnew := List.mem_append.1 hu'
      · exact (hstored hold).elim
      · obtain rfl := List.mem_singleton.1 hnew
        simp only [boosts,Bool.and_eq_true,decide_eq_true_eq] at hsuper
        exact ⟨hverified,hmail.symm.trans hsuper.1.2⟩

def asciiLower (s : String) : String := String.ofList (s.toList.map Char.toLower)

def configured (address : String) : Store :=
  newStore address "personal" "Personal" asciiLower asciiLower

/-- Two sign-ups, the second with the bootstrap address. -/
theorem superadmin_by_own_address_two :
    let s := configured "root@example.com"
    let t := signIns ⟨[],[],[]⟩ [(s,signInOf "1" "ann@example.com" "usr_1" 10),
      (s,signInOf "2" " Root@example.com" "usr_2" 20)]
    t.users.map User.isSuperadmin = [false,true] ∧
      ∀ a : SignIn,Raises t (findOrCreateGoogleUser s t a).2 →
        a.profile.emailVerified = true ∧ normalizeEmail asciiLower a.profile.email =
          normalizeEmail asciiLower "root@example.com" := by
  refine ⟨by decide +kernel,(@superadmin_by_own_address_iff ⟨[],[],[]⟩ .nil _ _ _ _ _ _ ""
    (by decide +kernel)).2 fun _ => ?_⟩
  decide +kernel

/-- Subject 1 signs up, gives the address up and keeps it stored: when the address
is made the bootstrap address, it is subject 1 who is raised. -/
theorem stored_address_raised :
    let t := signIns ⟨[],[],[]⟩
      [(configured "root@example.com",signInOf "1" "ann@example.com" "usr_1" 10)]
    let a := signInOf "1" "bea@example.com" "usr_2" 20
    Raises t (findOrCreateGoogleUser (configured "ann@example.com") t a).2 ∧
      normalizeEmail asciiLower a.profile.email ≠ normalizeEmail asciiLower "ann@example.com" := by
  refine ⟨⟨⟨"usr_1","org_usr_1","ann@example.com","","","1",true,10,20⟩,?_,rfl,?_⟩,?_⟩
  · decide +kernel
  · decide +kernel
  · decide +kernel

end Switchyard.Identity
