import Switchyard.TeamDirectory
import Switchyard.TeamStore
set_option autoImplicit false

/-!
The teams table and the stores of several replicas over it
(internal/teamstore/store.go, migrations/0008_teams.sql), one call at a time. The
rows of a query come in some order, which the registry does not keep.
-/

namespace Switchyard.TeamStore
open Auth GoText

/-- A NULL `key_hash` is the empty string; the column's check excludes an empty
digest. -/
structure Row where
  team : Team
  deleted : Bool
  deriving DecidableEq, Repr

structure Database where
  organizations : List String
  rows : List Row
  deriving DecidableEq, Repr

/-- What `selectTeamsSQL` returns. -/
def Database.live (db : Database) : List Team := (db.rows.filter (!·.deleted)).map Row.team

def Database.find (db : Database) (id : String) : Option Team := db.live.find? (·.id = id)

/-- `UPDATE ... WHERE id = $1 AND deleted_at IS NULL`. -/
def Database.rewrite (db : Database) (id : String) (f : Row → Row) : Database :=
  { db with rows := db.rows.map fun row => if row.team.id = id ∧ !row.deleted then f row else row }

def defaultOrgID : String := "personal"

def checkViolation (constraint : String) : String :=
  "ERROR: new row for relation \"teams\" violates check constraint " ++
    s!"{quote constraint} (SQLSTATE 23514)"

def hashTaken : String :=
  "ERROR: duplicate key value violates unique constraint \"teams_key_hash_idx\" (SQLSTATE 23505)"

/-- The columns rpm and tpm are four bytes wide; the driver refuses a wider
argument before it sends the statement. -/
def encodeInt4 (arg : Nat) (n : Int) : Option String :=
  if 2147483647 < n then
    some (s!"failed to encode args[{arg}]: unable to encode {formatInt n} into binary format for "
      ++ s!"int4 (OID 23): {formatInt n} is greater than maximum value for int4")
  else none

inductive Refusal where
  | idExists
  | noOrganization
  | other (text : String)
  deriving DecidableEq, Repr

/-- The constraints of the table in the order they are checked; the remaining
checks restate `Validate`. -/
def Database.insertRefused (db : Database) (t : Team) : Option Refusal :=
  if t.keyHash ≠ "" ∧ isKeyHash t.keyHash = false then
    some (.other (checkViolation "teams_key_hash_check"))
  else if t.keySource ∉ ["config","rotated","revoked","created"] then
    some (.other (checkViolation "teams_key_source_check"))
  else if db.rows.any (·.team.id = t.id) then some .idExists
  else if t.keyHash ≠ "" ∧ db.rows.any (·.team.keyHash = t.keyHash) then some (.other hashTaken)
  else if t.organizationID ∉ db.organizations then some .noOrganization
  else none

def Database.insert (db : Database) (t : Team) : Database :=
  { db with rows := db.rows ++ [⟨t,false⟩] }

/-- The row a mutation leaves; DELETE clears the key as well. -/
def Mutation.onRow (m : Mutation) (now : Int) (row : Row) : Row :=
  match m.change now row.team with
  | some t => { row with team := t }
  | none => ⟨{ row.team with
      keyHash := "", keySource := keySourceRevoked, keyMasked := "", keyCreatedAt := none },true⟩

/-- `exec`: the text of a refusal or a fault is wrapped, and a statement that met
no row is an unknown team. A fault may come after the statement took effect. -/
def Database.exec (db : Database) (id : String) (encode refused : Option String) (f : Row → Row)
    (fault : Option SqlFault) : Except AuthError Unit × Database :=
  let failed (text : String) : AuthError := .other s!"updating team {quote id}: {text}"
  match encode with
  | some text => (.error (failed text),db)
  | none =>
    match db.find id,refused,fault with
    | some _,none,some e => (.error (failed e.text),if e.executed then db.rewrite id f else db)
    | _,_,some e => (.error (failed e.text),db)
    | none,_,none => (.error .unknownTeam,db)
    | some _,some text,none => (.error (failed text),db)
    | some _,none,none => (.ok (),db.rewrite id f)

/-- A failed registry method is answered from the registry, and the change stays
for the next refresh. -/
def writeThrough (id : String) (applied : Except AuthError Team × Registry) :
    Except AuthError Team × Registry :=
  match applied.1 with
  | .ok team => (.ok team,applied.2)
  | .error _ => (applied.2.get id,applied.2)

structure Store where
  db : Database
  registry : Registry

def Store.update (s : Store) (id : String) (patch : TeamPatch) (fault : Option SqlFault) :
    Except AuthError Team × Store :=
  match s.registry.get id with
  | .error e => (.error e,s)
  | .ok current =>
    match patch.apply current with
    | .error e => (.error e,s)
    | .ok updated =>
      let encode := (encodeInt4 1 updated.rateLimits.rpm).or (encodeInt4 2 updated.rateLimits.tpm)
      let write (row : Row) : Row := { row with team := { row.team with
        rateLimits := updated.rateLimits, monthlyBudgetMicros := updated.monthlyBudgetMicros } }
      match s.db.exec id encode none write fault with
      | (.error e,db) => (.error e,{ s with db })
      | (.ok (),db) =>
        let (res,registry) := writeThrough id (s.registry.update id patch)
        (res,⟨db,registry⟩)

/-- `RotateKey`, `RevokeKey` and `Delete`. -/
def Store.mutate (s : Store) (m : Mutation) (now : Int) (fault : Option SqlFault) :
    Except AuthError Team × Store :=
  if m.newHash? = some "" then (.error (.other s!"rotate {m.id}: new key hash is empty"),s)
  else
    match s.db.exec m.id none (m.violates (s.db.rows.map Row.team)) (m.onRow now) fault with
    | (.error e,db) => (.error e,{ s with db })
    | (.ok (),db) =>
      let (res,registry) := writeThrough m.id (m.apply now s.registry)
      (res,⟨db,registry⟩)

def validateTeam (t : Team) : Except AuthError Unit :=
  if t.id = "" then .error (.other "id is required")
  else if t.name.toList.all isSpace then .error (.other "name is required")
  else if t.allowedProviders = [] then
    .error (.other "at least one allowed provider is required")
  else if t.allowedModels = [] then .error (.other "at least one allowed model is required")
  else
    match validateLimits t with
    | .error e => .error e
    | .ok () =>
      if t.priority ≠ priorityRealtime ∧ t.priority ≠ priorityBatch then
        .error (.other (s!"priority must be {priorityRealtime.text} or {priorityBatch.text}, " ++
          s!"got {quote t.priority.text}"))
      else .ok ()

def withDefaults (t : Team) (now : Int) : Team :=
  { t with
    organizationID := if t.organizationID = "" then defaultOrgID else t.organizationID
    keySource := if t.keySource = "" then keySourceCreated else t.keySource
    keyCreatedAt := t.keyCreatedAt.or (some now) }

/-- A team that a refresh brought into the registry already is read from there. -/
def addOrGet (r : Registry) (t : Team) : Except AuthError Team × Registry :=
  match r.add t with
  | (.error .teamExists,r) => (r.get t.id,r)
  | (.error e,r) => (.error e,r)
  | (.ok (),r) => (.ok t,r)

def Store.create (s : Store) (t : Team) (now : Int) (fault : Option SqlFault) :
    Except AuthError Team × Store :=
  match validateTeam t with
  | .error e => (.error e,s)
  | .ok () =>
    let t := withDefaults t now
    let failed (text : String) : AuthError := .other s!"creating team {quote t.id}: {text}"
    match (encodeInt4 4 t.rateLimits.rpm).or (encodeInt4 5 t.rateLimits.tpm) with
    | some text => (.error (failed text),s)
    | none =>
      match s.db.insertRefused t,fault with
      | none,some e =>
        (.error (failed e.text),{ s with db := if e.executed then s.db.insert t else s.db })
      | some _,some e => (.error (failed e.text),s)
      | some .idExists,none => (.error .teamExists,s)
      | some .noOrganization,none => (.error .unknownOrganization,s)
      | some (.other text),none => (.error (failed text),s)
      | none,none =>
        let (res,registry) := writeThrough t.id (addOrGet s.registry t)
        (res,⟨s.db.insert t,registry⟩)

end Switchyard.TeamStore
