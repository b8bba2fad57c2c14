import Mathlib.Data.Multiset.MapFold
import Switchyard.LiveConfig
import Switchyard.TeamTable
set_option autoImplicit false

/-!
The admin handlers that read and change teams (internal/admin/gate.go, teams.go,
cache.go). They run behind the session middleware, so there is always a caller.
A float64 is the rational it stands for.
-/

namespace Switchyard.Admin
open Auth GoText TeamStore

/-- Claims without an organisation are refused when a session is verified. -/
structure Caller where
  userID : String
  orgID : String
  isSuperadmin : Bool
  inOrg : orgID ≠ ""

structure KeyView where
  source : String
  masked : String
  createdAt : Option Int
  deriving DecidableEq, Repr

structure TeamView where
  id : String
  name : String
  organizationID : String
  allowedProviders : List String
  allowedModels : List String
  rateLimits : RateLimits
  monthlyBudgetUSD : ℚ
  spentUSD : Option ℚ
  budgetUtilization : Option ℚ
  priority : Priority
  isAdmin : Bool
  key : KeyView
  deriving DecidableEq, Repr

def usdToMicros (usd : ℚ) : Int := Config.usdToMicros usd

def quotient (n d : Int) : ℚ := Binary64.round (Binary64.round n/Binary64.round d)

def microsToUSD (micros : Int) : ℚ := quotient micros 1000000

def keyViewOf (t : Team) : KeyView :=
  ⟨if t.keySource = "" then "config" else t.keySource,t.keyMasked,t.keyCreatedAt⟩

def newTeamView (t : Team) (spent : Option Int) : TeamView :=
  { id := t.id, name := t.name, organizationID := t.organizationID
    allowedProviders := t.allowedProviders, allowedModels := t.allowedModels
    rateLimits := t.rateLimits, monthlyBudgetUSD := microsToUSD t.monthlyBudgetMicros
    spentUSD := spent.map microsToUSD
    budgetUtilization :=
      if 0 < t.monthlyBudgetMicros then spent.map (quotient · t.monthlyBudgetMicros) else none
    priority := t.priority, isAdmin := t.isAdmin, key := keyViewOf t }

structure Limits where
  rpm : Int
  tpm : Int
  monthlyBudgetUSD : ℚ
  deriving DecidableEq, Repr

def limitsDelta (t : Team) : Limits :=
  ⟨t.rateLimits.rpm,t.rateLimits.tpm,microsToUSD t.monthlyBudgetMicros⟩

/-- A team without its key; an empty organisation is left out. -/
structure Settings where
  limits : Limits
  name : String
  priority : Priority
  allowedProviders : List String
  allowedModels : List String
  isAdmin : Bool
  organizationID : Option String
  deriving DecidableEq, Repr

def teamSettings (t : Team) : Settings :=
  ⟨limitsDelta t,t.name,t.priority,t.allowedProviders,t.allowedModels,t.isAdmin,
    if t.organizationID ≠ "" then some t.organizationID else none⟩

inductive Delta where
  | limits (l : Limits)
  | spentUSD (usd : ℚ)
  | keySource (source : String)
  | settings (s : Settings)
  | deleted
  | empty
  deriving DecidableEq, Repr

structure AuditEntry where
  actorUserID : String
  actorAddr : String
  action : String
  organizationID : String
  superadmin : Bool
  targetTeamID : String
  before : Delta
  after : Delta
  deriving DecidableEq, Repr

structure PurgeResult where
  scope : String
  target : String
  entries : Nat
  indexes : Nat
  deriving DecidableEq, Repr

structure CacheTuner (ρ : Type) where
  purgeTeam : ρ → String → Except String PurgeResult × ρ
  purgePrefix : ρ → String → Except String PurgeResult × ρ
  purgeAll : ρ → Except String PurgeResult × ρ

/-- What the package takes from others: spend, the audit log, the names and
models of the configured providers and the cache, over a state ρ of their own.
`lower` is `strings.ToLower`. -/
structure Services (ρ : Type) where
  spent : ρ → String → Option Int
  reset : ρ → String → Bool × ρ
  recordAudit : ρ → AuditEntry → Bool × ρ
  configs : List (String × List String)
  tuner : Option (CacheTuner ρ)
  lower : String → String

structure World (ρ : Type) where
  store : Store
  outside : ρ

/-- A list comes in any order. -/
inductive Response where
  | error (status : Nat) (type message : String)
  | teams (views : Multiset TeamView)
  | team (view : TeamView)
  | rotated (apiKey : String) (key : KeyView) (warning : String)
  | created (team : TeamView) (apiKey : String) (key : KeyView) (warning : String)
  | purged (result : PurgeResult)
  | noContent
  deriving DecidableEq

structure PatchBody where
  rpm : Option Int
  tpm : Option Int
  monthlyBudgetUSD : Option ℚ
  deriving DecidableEq, Repr

structure CreateBody where
  name : String
  organizationID : String
  priority : String
  rpm : Int
  tpm : Int
  monthlyBudgetUSD : ℚ
  allowedProviders : List String
  allowedModels : List String
  isAdmin : Bool
  deriving DecidableEq, Repr

/-- A body that does not decode is the decoder's text. -/
inductive Op where
  | list
  | get (id : String)
  | patch (id : String) (body : Except String PatchBody)
  | resetBudget (id : String)
  | rotateKey (id : String)
  | revokeKey (id : String)
  | delete (id : String)
  | create (body : Except String CreateBody)
  | purge (team entries : String) (all : Bool)
  deriving DecidableEq

/-- A request with what chance and the database bring to it: the 16 random bytes
of a key in hex, if there are any, and the fault of its statement. -/
structure Request where
  op : Op
  addr : String
  now : Int
  random : Option String
  fault : Option SqlFault
  deriving DecidableEq

def isAlnum (c : Char) : Bool := ('a' ≤ c && c ≤ 'z') || ('0' ≤ c && c ≤ '9')

/-- The loop of `Slug`; the bytes written so far are reversed. -/
def slugFrom : List Char → Bool → List Char → List Char
  | out,_,[] => out.reverse
  | out,pendingHyphen,c :: cs =>
    if isAlnum c then slugFrom (c :: if pendingHyphen then '-' :: out else out) false cs
    else slugFrom out (!out.isEmpty) cs

def maxIDLength : Nat := 48

def slug (lower : String → String) (name : String) : String :=
  let id := slugFrom [] false (lower name).toList
  String.ofList (if maxIDLength < id.length then
    ((id.take maxIDLength).reverse.dropWhile (· = '-')).reverse else id)

def generateKey (teamID random : String) : String := "sk-switchyard-" ++ teamID ++ "-" ++ random

def maskKey (raw : String) : String :=
  let n := (bytes raw).length
  if n < 4 then "sk-…" else "sk-…" ++ textOf ((bytes raw).drop (n - 4))

def teamNotFound (id : String) : Response := .error 404 "team_not_found" ("no such team " ++ id)

def invalidRequest (message : String) : Response := .error 400 "invalid_request_error" message

def auditUnavailable : Response :=
  .error 503 "audit_unavailable" ("the change was not applied because it could not be recorded " ++
    "to the audit log; try again shortly")

def notJSON (text : String) :
    Response := invalidRequest ("request body is not valid JSON: " ++ text)

def teamLookupError (id : String) (e : AuthError) : Response :=
  if e = .unknownTeam then teamNotFound id
  else .error 500 "internal_error" "the gateway could not resolve this team"

def teamInScope (c : Caller) (r : Registry) (id : String) : Except Response Team :=
  match r.get id with
  | .error e => .error (teamLookupError id e)
  | .ok team =>
    if c.isSuperadmin = false ∧ team.organizationID ≠ c.orgID then .error (teamNotFound id)
    else .ok team

variable {ρ : Type} (svc : Services ρ) (c : Caller)

/-- `recordAudit` with `stampActor`; without an entry there is no change. -/
def audited (q : Request) (action : String) (t : Team) (before after : Delta) (w : World ρ)
    (next : World ρ → Response × World ρ) : Response × World ρ :=
  let entry : AuditEntry :=
    ⟨if c.userID = "" then "unknown" else c.userID,q.addr,action,t.organizationID,c.isSuperadmin,
      t.id,before,after⟩
  match svc.recordAudit w.outside entry with
  | (false,outside) => (auditUnavailable,{ w with outside })
  | (true,outside) => next { w with outside }

def inScope (w : World ρ) (id : String) (next : Team → Response × World ρ) : Response × World ρ :=
  match teamInScope c w.store.registry id with
  | .error resp => (resp,w)
  | .ok team => next team

def answered (w : World ρ) (done : Except AuthError Team × Store) (failed : AuthError → Response)
    (succeeded : Team → Response) : Response × World ρ :=
  (match done.1 with
    | .error e => failed e
    | .ok team => succeeded team,{ w with store := done.2 })

def listTeams (w : World ρ) : Response × World ρ :=
  let visible := w.store.registry.list.filter fun t =>
    c.isSuperadmin || decide (t.organizationID = c.orgID)
  (.teams (visible.map fun t => newTeamView t (svc.spent w.outside t.id)),w)

def getTeam (w : World ρ) (id : String) : Response × World ρ :=
  inScope c w id fun team => (.team (newTeamView team (svc.spent w.outside team.id)),w)

def PatchBody.patch (body : PatchBody) : TeamPatch :=
  ⟨body.rpm,body.tpm,body.monthlyBudgetUSD.map usdToMicros⟩

def PatchBody.requested (body : PatchBody) (t : Team) : Limits :=
  let l := limitsDelta t
  ⟨body.rpm.getD l.rpm,body.tpm.getD l.tpm,body.monthlyBudgetUSD.getD l.monthlyBudgetUSD⟩

def changeError (id : String) (otherwise : Response) (e : AuthError) : Response :=
  if e = .unknownTeam then teamNotFound id else otherwise

def patchTeam (q : Request) (w : World ρ) (id : String) (body : Except String PatchBody) :
    Response × World ρ :=
  inScope c w id fun before =>
    match body with
    | .error text => (notJSON text,w)
    | .ok body =>
      audited svc c q "team.patch" before (.limits (limitsDelta before))
        (.limits (body.requested before)) w fun w =>
          answered w (w.store.update before.id body.patch q.fault)
            (fun e => changeError before.id (invalidRequest e.text) e)
            fun after => .team (newTeamView after (svc.spent w.outside before.id))

def resetBudget (q : Request) (w : World ρ) (id : String) : Response × World ρ :=
  inScope c w id fun team =>
    audited svc c q "team.budget_reset" team
      (.spentUSD (((svc.spent w.outside team.id).map microsToUSD).getD 0)) (.spentUSD 0) w fun w =>
        match svc.reset w.outside team.id with
        | (false,outside) =>
            (.error 503 "budget_reset_failed" ("the gateway could not reset this " ++
            "team's budget; try again shortly"),{ w with outside })
        | (true,outside) => (.team (newTeamView team (some 0)),{ w with outside })

def rotationWarning : String :=
  "Copy this key now — it is shown once and never again. The rotation is durable: it survives a " ++
    "gateway restart and a POST /admin/reload. On a multi-replica deployment the previous key can "
    ++ "still authenticate on other replicas until their next team-snapshot refresh."

def internalError (message : String) : Response := .error 500 "internal_error" message

def rotateKey (q : Request) (w : World ρ) (id : String) : Response × World ρ :=
  inScope c w id fun before =>
    match q.random with
    | none => (internalError "the gateway could not generate a new key",w)
    | some random =>
      let raw := generateKey before.id random
      audited svc c q "key.rotate" before (.keySource (keyViewOf before).source)
        (.keySource keySourceRotated) w fun w =>
          answered w
            (w.store.mutate (.rotateKey before.id (hashKey raw) (maskKey raw)) q.now q.fault)
            (changeError before.id (internalError "the key could not be rotated"))
            fun after => .rotated raw (keyViewOf after) rotationWarning

def revokeKey (q : Request) (w : World ρ) (id : String) : Response × World ρ :=
  inScope c w id fun before =>
    audited svc c q "key.revoke" before (.keySource (keyViewOf before).source)
      (.keySource keySourceRevoked) w fun w =>
        answered w (w.store.mutate (.revokeKey before.id) q.now q.fault)
          (changeError before.id (internalError "the key could not be revoked"))
          fun after => .team (newTeamView after none)

def deleteTeam (q : Request) (w : World ρ) (id : String) : Response × World ρ :=
  inScope c w id fun before =>
    audited svc c q "team.delete" before (.settings (teamSettings before)) .deleted w fun w =>
      answered w (w.store.mutate (.delete before.id) q.now q.fault)
        (changeError before.id (internalError "the team could not be deleted"))
        fun _ => .noContent

def validateAllowlists (configs : List (String × List String))
    (allowedProviders allowedModels : List String) : Option String :=
  match allowedProviders.find? fun p => !configs.any fun cfg => cfg.1 = p with
  | some p => some s!"allowed provider {quote p} is not configured in providers.yaml"
  | none =>
    (allowedModels.find? fun m => !configs.any fun cfg => m ∈ cfg.2).map fun m =>
      s!"allowed model {quote m} is not served by any configured provider"

def createOrgFor (requested : String) : Except Response String :=
  if c.isSuperadmin then .ok (if requested ≠ "" then requested else c.orgID)
  else if requested ≠ "" ∧ requested ≠ c.orgID then
    .error (invalidRequest
      "a team can only be created in your own organization; omit organization_id")
  else .ok c.orgID

def creationWarning : String :=
  "Copy this key now — it is shown once and never again. It works immediately and survives a " ++
    "gateway restart."

def teamExists (id : String) : Response :=
  .error 409 "team_exists" ("a team with id " ++ id ++ " exists or once existed; team IDs come " ++
    "from the name and are never reused, so choose a different name")

def CreateBody.team (body : CreateBody) (id orgID : String) : Team :=
  ⟨id,trimSpace body.name,orgID,"",body.allowedProviders,body.allowedModels,⟨body.rpm,body.tpm⟩,
    usdToMicros body.monthlyBudgetUSD,⟨body.priority⟩,body.isAdmin,false,"","",none⟩

def createError (id orgID : String) : AuthError → Response
  | .teamExists => teamExists id
  | .unknownOrganization => invalidRequest ("no such organization " ++ orgID)
  | _ => internalError "the team could not be created"

def createTeam (q : Request) (w : World ρ) (body : Except String CreateBody) : Response × World ρ :=
  match body with
  | .error text => (notJSON text,w)
  | .ok body =>
    let id := slug svc.lower body.name
    if id = "" then (invalidRequest "name must contain at least one ASCII letter or digit",w)
    else
      match createOrgFor c body.organizationID with
      | .error resp => (resp,w)
      | .ok orgID =>
        let team := body.team id orgID
        match validateTeam team with
        | .error e => (invalidRequest e.text,w)
        | .ok () =>
          match validateAllowlists svc.configs team.allowedProviders team.allowedModels with
          | some text => (invalidRequest text,w)
          | none =>
            match w.store.registry.get id with
            | .ok _ => (teamExists id,w)
            | .error _ =>
              match q.random with
              | none => (internalError "the gateway could not generate a key",w)
              | some random =>
                let raw := generateKey id random
                let team := { team with
                  keyHash := hashKey raw, keyMasked := maskKey raw
                  keySource := keySourceCreated, keyCreatedAt := some q.now }
                audited svc c q "team.create" team .empty (.settings (teamSettings team)) w fun w =>
                  answered w (w.store.create team q.now q.fault) (createError id orgID)
                    fun created =>
                      .created (newTeamView created none) raw (keyViewOf created) creationWarning

def ownTeam (r : Registry) (id : String) : Bool :=
  match r.get id with
  | .error _ => false
  | .ok t => t.organizationID = c.orgID

def purgeCache (w : World ρ) (team entries : String) (all : Bool) : Response × World ρ :=
  match svc.tuner with
  | none => (.error 404 "cache_disabled" "the semantic cache is not enabled on this gateway",w)
  | some tuner =>
    if [decide (team ≠ ""),decide (entries ≠ ""),all].count true ≠ 1 then
      (.error 400 "invalid_request" "specify exactly one of team, prefix, or all=true",w)
    else if (entries ≠ "" ∨ all) ∧ c.isSuperadmin = false then
      (.error 403 "superadmin_required" ("purging by prefix or purging everything reaches every " ++
        "organization and is superadmin-only"),w)
    else if team ≠ "" ∧ c.isSuperadmin = false ∧ ownTeam c w.store.registry team = false then
      (teamNotFound team,w)
    else
      let done := if team ≠ "" then tuner.purgeTeam w.outside team
        else if entries ≠ "" then tuner.purgePrefix w.outside entries
        else tuner.purgeAll w.outside
      match done with
      | (.error text,outside) => (.error 400 "invalid_request" text,{ w with outside })
      | (.ok result,outside) => (.purged result,{ w with outside })

def handle (w : World ρ) (q : Request) : Response × World ρ :=
  match q.op with
  | .list => listTeams svc c w
  | .get id => getTeam svc c w id
  | .patch id body => patchTeam svc c q w id body
  | .resetBudget id => resetBudget svc c q w id
  | .rotateKey id => rotateKey svc c q w id
  | .revokeKey id => revokeKey svc c q w id
  | .delete id => deleteTeam svc c q w id
  | .create body => createTeam svc c q w body
  | .purge team entries all => purgeCache svc c w team entries all

def Agree (id : String) (s s' : Store) : Prop :=
  s'.registry.byID.lookup id = s.registry.byID.lookup id ∧
    s'.db.rows.filter (·.team.id = id) = s.db.rows.filter (·.team.id = id)

section Frames

variable {id other : String} (hne : id ≠ other)
include hne

theorem rewrite_rows (db : Database) {f : Row → Row} (hf : ∀ row,(f row).team.id = row.team.id) :
    (db.rewrite other f).rows.filter (·.team.id = id) = db.rows.filter (·.team.id = id) := by
  simp only [Database.rewrite]
  induction db.rows with
  | nil => rfl
  | cons row rows ih => grind

theorem update_agree (s : Store) (patch : TeamPatch) (fault : Option SqlFault) :
    Agree id s (s.update other patch fault).2 := by
  have hupdate : (s.registry.update other patch).2.byID.lookup id = s.registry.byID.lookup id := by
    grind [Registry.update,AList.lookup_insert_ne]
  have hrewrite := @rewrite_rows id other hne s.db
  simp only [Agree,Store.update,writeThrough,Database.exec]
  grind

theorem mutate_agree (s : Store) {m : Mutation} (hm : m.id = other) (now : Int)
    (fault : Option SqlFault) : Agree id s (s.mutate m now fault).2 := by
  subst hm
  have happly : (m.apply now s.registry).2.byID.lookup id = s.registry.byID.lookup id := by
    cases m <;> grind [Mutation.apply,Mutation.id,Registry.rotateKey,Registry.revokeKey,
      Registry.remove,AList.lookup_insert_ne,AList.lookup_erase_ne]
  have hrow (row : Row) : (m.onRow now row).team.id = row.team.id := by cases m <;> rfl
  have hrewrite := rewrite_rows hne s.db hrow
  simp only [Agree,Store.mutate,writeThrough,Database.exec]
  grind

theorem create_agree (s : Store) {t : Team} (ht : t.id = other) (now : Int)
    (fault : Option SqlFault) : Agree id s (s.create t now fault).2 := by
  subst ht
  simp only [Agree,Store.create,writeThrough]
  grind [withDefaults,addOrGet,Registry.add,Database.insert,AList.lookup_insert_ne]

end Frames

/-- An audit log that holds what was recorded, and which nothing else writes. A
failed call may have recorded its entry. -/
structure AuditLog (svc : Services ρ) (log : ρ → List AuditEntry) : Prop where
  record : ∀ s e,log (svc.recordAudit s e).2 = e :: log s ∨
    (svc.recordAudit s e).1 = false ∧ log (svc.recordAudit s e).2 = log s
  reset : ∀ s id,log (svc.reset s id).2 = log s
  purge : ∀ tuner,svc.tuner = some tuner → ∀ s,log (tuner.purgeAll s).2 = log s ∧
    ∀ x,log (tuner.purgeTeam s x).2 = log s ∧ log (tuner.purgePrefix s x).2 = log s

/-- The entry names who asked, and a member's is about a team of their own
organisation. -/
def Attributed (c : Caller) (q : Request) (e : AuditEntry) : Prop :=
  e.actorUserID = (if c.userID = "" then "unknown" else c.userID) ∧ e.actorAddr = q.addr ∧
    (c.isSuperadmin = false → e.organizationID = c.orgID)

/-- Between the two worlds the log gained entries of a kind, and a team that
none of them names is as it was. -/
def Recorded (log : ρ → List AuditEntry) (kind : AuditEntry → Prop) (w w' : World ρ) : Prop :=
  ∃ entries,log w'.outside = entries ++ log w.outside ∧ (∀ e ∈ entries,kind e) ∧
    ∀ id,(∀ e ∈ entries,e.targetTeamID ≠ id) → Agree id w.store w'.store

section Trail

variable {svc c} {log : ρ → List AuditEntry} {q : Request} {w w' : World ρ} {id : String}

theorem Recorded.quiet (hlog : log w'.outside = log w.outside) (hstore : w'.store = w.store) :
    Recorded log (Attributed c q) w w' :=
  ⟨[],hlog,by simp,fun id _ => by rw [hstore]; exact ⟨rfl,rfl⟩⟩

theorem inScope_recorded {next : Team → Response × World ρ}
    (h : ∀ t : Team,(c.isSuperadmin = false → t.organizationID = c.orgID) →
      Recorded log (Attributed c q) w (next t).2) :
    Recorded log (Attributed c q) w (inScope c w id next).2 := by
  unfold inScope
  split
  · exact .quiet rfl rfl
  · rename_i t hscope
    exact h t (by grind [teamInScope])

variable (hlog : AuditLog svc log)
include hlog

theorem audited_recorded {action : String} {t : Team} {before after : Delta}
    {next : World ρ → Response × World ρ}
    (hscope : c.isSuperadmin = false → t.organizationID = c.orgID)
    (hnext : ∀ outside,log (next { w with outside }).2.outside = log outside ∧
      ∀ id,id ≠ t.id → Agree id w.store (next { w with outside }).2.store) :
    Recorded log (Attributed c q) w (audited svc c q action t before after w next).2 := by
  simp only [audited]
  generalize hentry : AuditEntry.mk _ _ _ _ _ _ _ _ = e
  have hsaid : ∀ e' ∈ [e],Attributed c q e' := by simpa [← hentry] using ⟨rfl,rfl,hscope⟩
  have hadd := hlog.record w.outside e
  cases hrecord : svc.recordAudit w.outside e with | mk done outside
  rw [hrecord] at hadd
  obtain hadd | ⟨rfl,hsame⟩ := hadd
  · obtain ⟨hkept,hagree⟩ := hnext outside
    cases done with
    | false => exact ⟨[e],hadd,hsaid,fun _ _ => ⟨rfl,rfl⟩⟩
    | true =>
      subst hentry
      exact ⟨_,hkept.trans hadd,hsaid,fun id hid => hagree id (hid _ List.mem_cons_self).symm⟩
  · exact .quiet hsame rfl

theorem createTeam_recorded (body : Except String CreateBody) :
    Recorded log (Attributed c q) w (createTeam svc c q w body).2 := by
  simp only [createTeam]
  repeat' split
  all_goals try exact .quiet rfl rfl
  refine audited_recorded hlog ?_ fun outside =>
    ⟨rfl,fun id hne => create_agree hne w.store rfl _ _⟩
  grind [createOrgFor,CreateBody.team]

theorem purgeCache_recorded (team entries : String) (all : Bool) :
    Recorded log (Attributed c q) w (purgeCache svc c w team entries all).2 := by
  unfold purgeCache
  split
  · exact .quiet rfl rfl
  · rename_i tuner htuner
    obtain ⟨hall,hpurge⟩ := hlog.purge tuner htuner w.outside
    dsimp only
    generalize hdone : ite (team ≠ "") _ _ = done
    have hkept : log done.2 = log w.outside := by grind
    obtain ⟨res,outside⟩ := done
    split_ifs
    all_goals try exact .quiet rfl rfl
    cases res <;> exact .quiet hkept rfl

theorem handle_recorded : Recorded log (Attributed c q) w (handle svc c w q).2 := by
  unfold handle
  cases q.op with
  | list => exact .quiet rfl rfl
  | get id => exact inScope_recorded fun t _ => .quiet rfl rfl
  | patch id body =>
    refine inScope_recorded fun t ht => ?_
    cases body with
    | error text => exact .quiet rfl rfl
    | ok body =>
      exact audited_recorded hlog ht fun outside => ⟨rfl,fun id hne => update_agree hne w.store _ _⟩
  | resetBudget id =>
    refine inScope_recorded fun t ht => audited_recorded hlog ht fun outside => ?_
    have hreset := hlog.reset outside t.id
    dsimp only
    split <;> rename_i hdone <;> rw [hdone] at hreset <;> exact ⟨hreset,fun _ _ => ⟨rfl,rfl⟩⟩
  | rotateKey id =>
    refine inScope_recorded fun t ht => ?_
    cases q.random with
    | none => exact .quiet rfl rfl
    | some random =>
      exact audited_recorded hlog ht fun outside =>
        ⟨rfl,fun id hne => mutate_agree hne w.store rfl _ _⟩
  | revokeKey id | delete id =>
    exact inScope_recorded fun t ht => audited_recorded hlog ht fun outside =>
      ⟨rfl,fun id hne => mutate_agree hne w.store rfl _ _⟩
  | create body => exact createTeam_recorded hlog body
  | purge team entries all => exact purgeCache_recorded hlog team entries all

/-- The audit trail is complete over every sequence of requests by any callers. -/
theorem team_changes_recorded (calls : List (Caller × Request)) :
    Recorded log (fun e => ∃ a ∈ calls,Attributed a.1 a.2 e) w
      (StepRuns.replies (fun w a => handle svc a.1 w a.2) w calls).2 := by
  induction calls generalizing w with
  | nil => exact ⟨[],rfl,by simp,fun id _ => ⟨rfl,rfl⟩⟩
  | cons a calls ih =>
    obtain ⟨entries,hlast,htold,hkeep⟩ := ih (w := (handle svc a.1 w a.2).2)
    obtain ⟨first,hfirst,hsaid,hkept⟩ := handle_recorded (c := a.1) (q := a.2) (w := w) hlog
    refine ⟨entries ++ first,by rw [StepRuns.replies,hlast,hfirst,List.append_assoc],by grind,?_⟩
    intro id hid
    have hone := hkept id fun e he => hid e (List.mem_append_right _ he)
    have hrest := hkeep id fun e he => hid e (List.mem_append_left _ he)
    exact ⟨hrest.1.trans hone.1,hrest.2.trans hone.2⟩

end Trail

def listServices : Services (List AuditEntry) :=
  ⟨fun _ _ => none,fun s _ => (true,s),fun s e => (true,e :: s),[],none,id⟩

def oneTeam : World (List AuditEntry) :=
  ⟨⟨⟨["o"],[⟨keyedTeam,false⟩]⟩,⟨∅,AList.insert "t" keyedTeam ∅⟩⟩,[]⟩

/-- A member deletes the team: the one entry names them and the team, which is
gone, and no other team is touched. -/
theorem team_changes_recorded_deletion :
    let c : Caller := ⟨"u","o",false,by decide⟩
    let q : Request := ⟨.delete "t","",0,none,none⟩
    let w := (handle listServices c oneTeam q).2
    w.store.db.rows.map (·.deleted) = [true] ∧ ∃ e,w.outside = [e] ∧ e.targetTeamID = "t" ∧
      Attributed c q e ∧ ∀ id,id ≠ "t" → Agree id oneTeam.store w.store := by
  intro c q w
  have hlog : AuditLog listServices id := ⟨fun _ _ => .inl rfl,fun _ _ => rfl,nofun⟩
  obtain ⟨entries,hadded,htold,hkept⟩ := team_changes_recorded (w := oneTeam) hlog [(c,q)]
  have hadded : w.outside = entries := hadded.trans (List.append_nil entries)
  have hone : w.outside.map (·.targetTeamID) = ["t"] := by decide +kernel
  rw [hadded] at hone
  obtain ⟨e,rfl,hteam⟩ := List.map_eq_singleton_iff.1 hone
  refine ⟨by decide +kernel,e,hadded,hteam,?_,fun id hid =>
    hkept id (by simpa [hteam] using hid.symm)⟩
  simpa using htold e (by simp)

end Switchyard.Admin
