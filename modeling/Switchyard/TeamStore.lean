import Switchyard.TeamRegistry
import Switchyard.StepRuns
set_option autoImplicit false

/-!
The Postgres-backed team store of one replica: any number of `Refresh`,
`RotateKey`, `RevokeKey`, `Delete` and `Authenticate` calls, interleaved at their
SQL statements, snapshot pointer loads and stores, and registry methods.
-/

namespace Switchyard.TeamStore
open Auth GoText

/-- What the atomic pointer holds. A registry is shared and changed in place, so
the snapshot refers to it by its address. -/
structure Snapshot where
  registry : Nat
  loadedAt : Int
  degraded : Bool
  deriving DecidableEq, Repr

inductive Mutation where
  | rotateKey (id newHash newMasked : String)
  | revokeKey (id : String)
  | delete (id : String)
  deriving DecidableEq, Repr

def Mutation.id : Mutation → String
  | .rotateKey id _ _ => id
  | .revokeKey id => id
  | .delete id => id

def Mutation.newHash? : Mutation → Option String
  | .rotateKey _ newHash _ => some newHash
  | _ => none

/-- The row after the UPDATE; none once `deleted_at` is set. -/
def Mutation.change (now : Int) (t : Team) : Mutation → Option Team
  | .rotateKey _ newHash newMasked => some { t with
      keyHash := newHash, keySource := keySourceRotated
      keyMasked := newMasked, keyCreatedAt := some now }
  | .revokeKey _ => some { t with
      keyHash := "", keySource := keySourceRevoked, keyMasked := "", keyCreatedAt := none }
  | .delete _ => none

def Mutation.update (m : Mutation) (now : Int) (rows : List Team) : List Team :=
  rows.filterMap fun t => if t.id = m.id then m.change now t else some t

def isKeyHash (h : String) : Bool :=
  h.length == 64 && h.toList.all fun c => c.isDigit || ('a' ≤ c && c ≤ 'f')

/-- The constraints on `key_hash` that the UPDATE of a present row can break. -/
def Mutation.violates (m : Mutation) (rows : List Team) : Option String :=
  match m with
  | .rotateKey id newHash _ =>
    if isKeyHash newHash = false then
      some "ERROR: new row for relation \"teams\" violates check constraint \"teams_key_hash_check\" (SQLSTATE 23514)"
    else if rows.any fun t => t.id ≠ id && t.keyHash = newHash then
      some "ERROR: duplicate key value violates unique constraint \"teams_key_hash_idx\" (SQLSTATE 23505)"
    else none
  | _ => none

/-- The closure `writeThrough` runs on the registry. -/
def Mutation.apply (m : Mutation) (now : Int) (r : Registry) : Except AuthError Team × Registry :=
  match m with
  | .rotateKey id newHash newMasked => r.rotateKey id newHash newMasked now
  | .revokeKey id => r.revokeKey id
  | .delete id =>
    match r.remove id with
    | (.error .unknownTeam,r') =>
      (.ok ⟨id,"","","",[],[],⟨0,0⟩,0,⟨""⟩,false,false,"","",none⟩,r')
    | done => done

def loadRegistry (rows : List Team) : Except AuthError Registry :=
  if rows.isEmpty then .error (.other "no teams in the database: has cmd/migrate run?")
  else
    match newRegistry rows with
    | .error e => .error (.other s!"indexing teams: {e.text}")
    | .ok r => .ok r

/-- What an executed UPDATE of a mutation did: its place in the order of the
table's UPDATEs, and the hash its row held before. Not program state. -/
structure Update where
  version : Nat
  held : String
  deriving DecidableEq, Repr

/-- How far a mutation has come. `writeThrough` re-reads the team when the
registry method failed. -/
inductive MutationPoint where
  | start
  | persisted (u : Update)
  | applying (u : Update) (registry : Nat)
  | rereading (u : Update)
  | rereadFrom (u : Update) (registry : Nat)
  | returned (u : Option Update) (res : Except AuthError Team)

/-- How far a refresh has come; `asOf` counts the UPDATEs its query saw. -/
inductive RefreshPoint where
  | start
  | loaded (reg : Registry) (asOf : Nat)
  | failed (e : AuthError)
  | degrading (prev : Snapshot) (e : AuthError)
  | returned (e : Option AuthError)

inductive AuthPoint where
  | start
  | loaded (registry : Nat)
  | returned (res : Except AuthError Team)

inductive Call where
  | refresh (p : RefreshPoint)
  | mutate (m : Mutation) (p : MutationPoint)
  | authenticate (rawKey : String) (p : AuthPoint)

/-- `updates` and `issued` (each hash the table has held, with its team) record
history; no call reads them. -/
structure State where
  rows : List Team
  heap : List Registry
  current : Snapshot
  calls : Nat → Call
  updates : Nat
  issued : List (String × String)

/-- An error Postgres answers with; the statement may have been executed. -/
structure SqlFault where
  text : String
  executed : Bool
  deriving DecidableEq, Repr

structure Action where
  call : Nat
  now : Int
  fault : Option SqlFault
  deriving DecidableEq, Repr

def State.goto (s : State) (i : Nat) (c : Call) : State :=
  { s with calls := Function.update s.calls i c }

def State.execute (s : State) (m : Mutation) (now : Int) : State :=
  { s with
    rows := m.update now s.rows
    updates := s.updates+1
    issued := (m.newHash?.map (·,m.id)).toList ++ s.issued }

/-- The check of `RotateKey` and `exec`. -/
def State.persist (s : State) (a : Action) (m : Mutation) : State :=
  let fail (s : State) (e : AuthError) := s.goto a.call (.mutate m (.returned none (.error e)))
  if m.newHash? = some "" then fail s (.other s!"rotate {m.id}: new key hash is empty")
  else
    match s.rows.find? (·.id = m.id),m.violates s.rows,a.fault with
    | some _,none,some f =>
      fail (if f.executed then s.execute m a.now else s)
        (.other s!"updating team {quote m.id}: {f.text}")
    | _,_,some f => fail s (.other s!"updating team {quote m.id}: {f.text}")
    | none,_,none => fail s .unknownTeam
    | some _,some text,none => fail s (.other s!"updating team {quote m.id}: {text}")
    | some row,none,none =>
      (s.execute m a.now).goto a.call (.mutate m (.persisted ⟨s.updates+1,row.keyHash⟩))

def State.mutate (s : State) (a : Action) (m : Mutation) : MutationPoint → Option State
  | .start => some (s.persist a m)
  | .persisted u => some (s.goto a.call (.mutate m (.applying u s.current.registry)))
  | .applying u registry => do
    let r ← s.heap[registry]?
    let s := { s with heap := s.heap.set registry (m.apply a.now r).2 }
    match (m.apply a.now r).1 with
    | .ok team => some (s.goto a.call (.mutate m (.returned (some u) (.ok team))))
    | .error _ => some (s.goto a.call (.mutate m (.rereading u)))
  | .rereading u => some (s.goto a.call (.mutate m (.rereadFrom u s.current.registry)))
  | .rereadFrom u registry => do
    let r ← s.heap[registry]?
    some (s.goto a.call (.mutate m (.returned (some u) (r.get m.id))))
  | .returned _ _ => none

def State.refresh (s : State) (a : Action) : RefreshPoint → Option State
  | .start =>
    match a.fault with
    | some f => some (s.goto a.call (.refresh (.failed (.other f.text))))
    | none =>
      match loadRegistry s.rows with
      | .error e => some (s.goto a.call (.refresh (.failed e)))
      | .ok reg => some (s.goto a.call (.refresh (.loaded reg s.updates)))
  | .loaded reg _ =>
    let s := { s with heap := s.heap ++ [reg], current := ⟨s.heap.length,a.now,false⟩ }
    some (s.goto a.call (.refresh (.returned none)))
  | .failed e => some (s.goto a.call (.refresh (.degrading s.current e)))
  | .degrading prev e =>
    let s := { s with current := { prev with degraded := true } }
    some (s.goto a.call (.refresh (.returned (some e))))
  | .returned _ => none

def State.authenticate (s : State) (a : Action) (rawKey : String) : AuthPoint → Option State
  | .start => some (s.goto a.call (.authenticate rawKey (.loaded s.current.registry)))
  | .loaded registry => do
    let r ← s.heap[registry]?
    some (s.goto a.call (.authenticate rawKey (.returned (r.authenticate rawKey))))
  | .returned _ => none

def step (s : State) (a : Action) : Option State :=
  match s.calls a.call with
  | .refresh p => s.refresh a p
  | .mutate m p => s.mutate a m p
  | .authenticate rawKey p => s.authenticate a rawKey p

structure State.Initial (s : State) : Prop where
  ids : (s.rows.map Team.id).Nodup
  registry : ∃ r,loadRegistry s.rows = .ok r ∧ s.heap = [r] ∧ s.current.registry = 0
  issued : s.issued = (s.rows.filter (·.keyHash ≠ "")).map fun t => (t.keyHash,t.id)
  idle : ∀ i,s.calls i = .refresh .start ∨ (∃ m,s.calls i = .mutate m .start) ∨
    ∃ rawKey,s.calls i = .authenticate rawKey .start

end Switchyard.TeamStore
