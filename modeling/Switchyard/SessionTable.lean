import Mathlib.Data.List.FinRange
import Mathlib.Logic.Function.Basic
import Switchyard.GoText
import Switchyard.Sha256
import Switchyard.StepRuns
set_option autoImplicit false

/-!
Refresh sessions (internal/identity/session.go) in Postgres at READ COMMITTED.
Any number of `RotateSession` calls are interleaved at their statements, with
`CreateSession` and `RevokeSession`, which are one statement each. A statement
sees the rows committed when it starts; a row locked by an open transaction is
waited for and read again, and what a transaction writes is seen when it commits.
-/

namespace Switchyard.Identity
open GoText StepRuns

def hashToken (raw : String) : String := hexEncode (Sha256.sha256 (bytes raw))

structure SessionRow where
  id : String
  userID : String
  refreshTokenHash : String
  expiresAt : Int
  revokedAt : Option Int
  rotatedTo : Option String
  deriving DecidableEq, Repr

def SessionRow.spent (r : SessionRow) : Bool := r.revokedAt.isSome || r.rotatedTo.isSome

/-- `expires_at < now()` in a transaction that began at now. -/
def SessionRow.expired (r : SessionRow) (now : Int) : Bool := decide (r.expiresAt < now)

inductive RotateError where
  | noSession
  | sessionExpired
  | database (text : String)
  deriving DecidableEq, Repr

/-- Which statement of a rotation was the last: the INSERT of the successor, the
UPDATE of the old session, or the SELECT of the user. -/
inductive Progress where
  | inserted
  | marked
  | loaded
  deriving DecidableEq, Repr

/-- How far a `RotateSession` has come. `now` is when its transaction began, `old`
what SELECT FOR UPDATE returned. The mass revocation has still to visit the rows
todo of its snapshot and has updated hit. -/
inductive RotatePoint where
  | idle
  | begun (now : Int)
  | held (now : Int) (old : SessionRow)
  | sweeping (now : Int) (old : SessionRow) (todo hit : List String)
  | rotating (p : Progress) (now : Int) (old next : SessionRow)
  | rotated (old next : SessionRow)
  | reused (old : SessionRow)
  | failed (e : RotateError)
  deriving DecidableEq, Repr

def RotatePoint.locks : RotatePoint → List String
  | .held _ old => [old.id]
  | .sweeping _ old _ hit => old.id :: hit
  | .rotating _ _ old _ => [old.id]
  | _ => []

def RotatePoint.pending : RotatePoint → Option SessionRow
  | .rotating _ _ _ next => some next
  | _ => none

def RotatePoint.running : RotatePoint → Bool
  | .begun _ | .held _ _ | .sweeping _ _ _ _ | .rotating _ _ _ _ => true
  | _ => false

structure Sessions (n : Nat) where
  clock : Int
  rows : List SessionRow
  calls : Fin n → RotatePoint

/-- A commit may take effect although the caller gets an error (lost). -/
inductive SessionAction (n : Nat) where
  | tick (d : Nat)
  | create (id userID token : String) (ttl : Int)
  | revoke (token : String) (now : Int)
  | begin (c : Fin n)
  | select (c : Fin n)
  | scan (c : Fin n)
  | visit (c : Fin n) (id : String)
  | commitSweep (c : Fin n) (lost : Option String)
  | expire (c : Fin n)
  | insert (c : Fin n) (id token : String) (ttl : Int)
  | mark (c : Fin n)
  | load (c : Fin n)
  | commit (c : Fin n) (lost : Option String)
  | abort (c : Fin n) (e : RotateError)
  deriving DecidableEq, Repr

variable {n : Nat}

def Sessions.goto (s : Sessions n) (c : Fin n) (p : RotatePoint) : Sessions n :=
  { s with calls := Function.update s.calls c p }

def Sessions.locked (s : Sessions n) (c : Option (Fin n)) (id : String) : Bool :=
  (List.finRange n).any fun k => decide (c ≠ some k) && decide (id ∈ (s.calls k).locks)

/-- The primary key and the unique token hash, against committed rows and
those of open transactions. -/
def Sessions.taken (s : Sessions n) (id hash : String) : Bool :=
  let clashes (r : SessionRow) : Bool := decide (r.id = id) || decide (r.refreshTokenHash = hash)
  s.rows.any clashes || (List.finRange n).any fun k => (s.calls k).pending.any clashes

def Sessions.byToken (s : Sessions n) (token : String) : Option SessionRow :=
  s.rows.find? fun r => decide (r.refreshTokenHash = hashToken token)

/-- `UPDATE sessions SET revoked_at = now() WHERE ... AND revoked_at IS NULL` -/
def SessionRow.revoke (now : Int) (r : SessionRow) : SessionRow :=
  if r.revokedAt = none then { r with revokedAt := some now } else r

/-- `UPDATE sessions SET rotated_to = $2, revoked_at = now()` -/
def SessionRow.rotate (now : Int) (next : String) (r : SessionRow) : SessionRow :=
  { r with rotatedTo := some next, revokedAt := some now }

def Sessions.rewrite (s : Sessions n) (p : SessionRow → Bool) (f : SessionRow → SessionRow)
    (new : List SessionRow) : Sessions n :=
  { s with rows := s.rows.map (fun r => if p r then f r else r) ++ new }

def Sessions.snapshot (s : Sessions n) (userID : String) : List String :=
  (s.rows.filter fun r => decide (r.userID = userID) && r.revokedAt.isNone).map SessionRow.id

def Sessions.live (s : Sessions n) (id : String) : Bool :=
  s.rows.any fun r => decide (r.id = id) && r.revokedAt.isNone

def lostOr (lost : Option String) (p : RotatePoint) : RotatePoint :=
  match lost with
  | some text => .failed (.database text)
  | none => p

/-- One statement, of a system in which call c presents the token raw c. -/
def Sessions.step (raw : Fin n → String) (s : Sessions n) : SessionAction n → Option (Sessions n)
  | .tick d => some { s with clock := s.clock + d }
  | .create id userID token ttl =>
    if s.taken id (hashToken token) then none
    else some { s with rows := s.rows ++ [⟨id,userID,hashToken token,s.clock + ttl,none,none⟩] }
  | .revoke token now =>
    match s.byToken token with
    | none => some s
    | some r =>
      if s.locked none r.id then none
      else some (s.rewrite (fun r' => r'.id = r.id) (SessionRow.revoke now) [])
  | .begin c =>
    match s.calls c with
    | .idle => some (s.goto c (.begun s.clock))
    | _ => none
  | .select c =>
    match s.calls c with
    | .begun now =>
      match s.byToken (raw c) with
      | none => some (s.goto c (.failed .noSession))
      | some r => if s.locked (some c) r.id then none else some (s.goto c (.held now r))
    | _ => none
  | .scan c =>
    match s.calls c with
    | .held now old =>
      if old.spent then some (s.goto c (.sweeping now old (s.snapshot old.userID) [])) else none
    | _ => none
  | .visit c id =>
    match s.calls c with
    | .sweeping now old todo hit =>
      if id ∈ todo ∧ s.locked (some c) id = false then
        some (s.goto c (.sweeping now old (todo.erase id) (if s.live id then id :: hit else hit)))
      else none
    | _ => none
  | .commitSweep c lost =>
    match s.calls c with
    | .sweeping now old [] hit =>
      some ((s.rewrite (fun r => r.id ∈ hit) (SessionRow.revoke now) []).goto c
        (lostOr lost (.reused old)))
    | _ => none
  | .expire c =>
    match s.calls c with
    | .held now old =>
      if old.spent = false ∧ old.expired now then some (s.goto c (.failed .sessionExpired))
        else none
    | _ => none
  | .insert c id token ttl =>
    match s.calls c with
    | .held now old =>
      if old.spent = false ∧ old.expired now = false ∧ s.taken id (hashToken token) = false then
        some (s.goto c (.rotating .inserted now old
          ⟨id,old.userID,hashToken token,now + ttl,none,none⟩))
      else none
    | _ => none
  | .mark c =>
    match s.calls c with
    | .rotating .inserted now old next => some (s.goto c (.rotating .marked now old next))
    | _ => none
  | .load c =>
    match s.calls c with
    | .rotating .marked now old next => some (s.goto c (.rotating .loaded now old next))
    | _ => none
  | .commit c lost =>
    match s.calls c with
    | .rotating .loaded now old next =>
      some ((s.rewrite (fun r => r.id = old.id) (SessionRow.rotate now next.id) [next]).goto c
        (lostOr lost (.rotated old next)))
    | _ => none
  | .abort c e => if (s.calls c).running then some (s.goto c (.failed e)) else none

def Sessions.start (n : Nat) (clock : Int) : Sessions n := ⟨clock,[],fun _ => .idle⟩

variable {s : Sessions n}

theorem Sessions.not_locked {c : Option (Fin n)} {id : String}
    (h : s.locked c id = false) {k : Fin n} (hk : c ≠ some k) : id ∉ (s.calls k).locks := by
  intro hid
  have := List.any_eq_false.1 h k (List.mem_finRange k)
  simp [hk,hid] at this

def Distinct (r r' : SessionRow) : Prop :=
  r.id ≠ r'.id ∧ r.refreshTokenHash ≠ r'.refreshTokenHash

theorem Sessions.not_taken {row : SessionRow} (h : s.taken row.id row.refreshTokenHash = false) :
    (∀ r ∈ s.rows,Distinct r row) ∧ ∀ k,∀ next ∈ (s.calls k).pending,Distinct next row := by
  obtain ⟨hrows,hcalls⟩ := Bool.or_eq_false_iff.1 h
  constructor
  · intro r hr
    simpa [Distinct] using List.any_eq_false.1 hrows r hr
  · intro k next hnext
    have := List.any_eq_false.1 hcalls k (List.mem_finRange k)
    rw [Option.mem_def.1 hnext] at this
    simpa [Distinct] using this

theorem Sessions.byToken_some {token : String} {r : SessionRow} (h : s.byToken token = some r) :
    r ∈ s.rows ∧ r.refreshTokenHash = hashToken token :=
  ⟨List.mem_of_find?_eq_some h,by simpa using List.find?_some h⟩

/-- The steps of call c that write no row, from a point to the next. -/
inductive Advance (raw : Fin n → String) (s : Sessions n) (c : Fin n) :
    RotatePoint → RotatePoint → Prop where
  | begin : Advance raw s c .idle (.begun s.clock)
  | select {now : Int} {r : SessionRow} : r ∈ s.rows →
      r.refreshTokenHash = hashToken (raw c) → s.locked (some c) r.id = false →
      Advance raw s c (.begun now) (.held now r)
  | scan {now : Int} {old : SessionRow} : old.spent = true →
      Advance raw s c (.held now old) (.sweeping now old (s.snapshot old.userID) [])
  | visit {now : Int} {old : SessionRow} {todo hit : List String} {id : String} : id ∈ todo →
      s.locked (some c) id = false → Advance raw s c (.sweeping now old todo hit)
        (.sweeping now old (todo.erase id) (if s.live id then id :: hit else hit))
  | insert {now : Int} {old next : SessionRow} : old.spent = false → old.expired now = false →
      next.userID = old.userID → next.rotatedTo = none →
      s.taken next.id next.refreshTokenHash = false →
      Advance raw s c (.held now old) (.rotating .inserted now old next)
  | proceed {p p' : Progress} {now : Int} {old next : SessionRow} :
      Advance raw s c (.rotating p now old next) (.rotating p' now old next)
  | fail {p : RotatePoint} {e : RotateError} : p.running = true → Advance raw s c p (.failed e)

inductive Effect (raw : Fin n → String) (s : Sessions n) : Option (Fin n) → Sessions n → Prop where
  | pass {clock : Int} : s.clock ≤ clock → Effect raw s none { s with clock := clock }
  | create {row : SessionRow} : row.rotatedTo = none →
      s.taken row.id row.refreshTokenHash = false →
      Effect raw s none { s with rows := s.rows ++ [row] }
  | revoke {id : String} {now : Int} : s.locked none id = false →
      Effect raw s none (s.rewrite (fun r => r.id = id) (SessionRow.revoke now) [])
  | advance {c : Fin n} {p : RotatePoint} : Advance raw s c (s.calls c) p →
      Effect raw s (some c) (s.goto c p)
  | sweep {c : Fin n} {now : Int} {old : SessionRow} {hit : List String} {lost : Option String} :
      s.calls c = .sweeping now old [] hit → Effect raw s (some c)
        ((s.rewrite (fun r => r.id ∈ hit) (SessionRow.revoke now) []).goto c
          (lostOr lost (.reused old)))
  | rotate {c : Fin n} {now : Int} {old next : SessionRow} {lost : Option String} :
      s.calls c = .rotating .loaded now old next → Effect raw s (some c)
        ((s.rewrite (fun r => r.id = old.id) (SessionRow.rotate now next.id) [next]).goto c
          (lostOr lost (.rotated old next)))

def SessionAction.call : SessionAction n → Option (Fin n)
  | .tick _ | .create _ _ _ _ | .revoke _ _ => none
  | .begin c | .select c | .scan c | .visit c _ | .commitSweep c _ | .expire c | .insert c _ _ _
  | .mark c | .load c | .commit c _ | .abort c _ => some c

theorem Sessions.step_effect {raw : Fin n → String} {t : Sessions n} {a : SessionAction n}
    (h : s.step raw a = some t) : Effect raw s a.call t := by
  cases a with
  | tick d =>
    cases h
    exact .pass (Int.le_add_of_nonneg_right (Int.natCast_nonneg d))
  | create id userID token ttl =>
    simp only [step] at h
    split at h
    · cases h
    · rename_i hfree
      cases h
      exact .create rfl (by simpa using hfree)
  | revoke token now =>
    simp only [step] at h
    split at h
    · cases h
      exact .pass (Int.le_refl _)
    · split at h
      · cases h
      · rename_i hfree
        cases h
        exact .revoke (by simpa using hfree)
  | begin c =>
    simp only [step] at h
    split at h
    · rename_i hp
      cases h
      exact .advance (hp ▸ .begin)
    · cases h
  | select c =>
    simp only [step] at h
    split at h
    · rename_i now hp
      split at h
      · cases h
        exact .advance (hp ▸ .fail rfl)
      · rename_i r hr
        split at h
        · cases h
        · rename_i hfree
          cases h
          obtain ⟨hmem,hhash⟩ := byToken_some hr
          exact .advance (hp ▸ .select hmem hhash (by simpa using hfree))
    · cases h
  | scan c =>
    simp only [step] at h
    split at h
    · rename_i now old hp
      split at h
      · rename_i hspent
        cases h
        exact .advance (hp ▸ .scan hspent)
      · cases h
    · cases h
  | visit c id =>
    simp only [step] at h
    split at h
    · rename_i now old todo hit hp
      split at h
      · rename_i hid
        cases h
        exact .advance (hp ▸ .visit hid.1 hid.2)
      · cases h
    · cases h
  | commitSweep c lost =>
    simp only [step] at h
    split at h
    · rename_i now old hit hp
      cases h
      exact .sweep hp
    · cases h
  | expire c =>
    simp only [step] at h
    split at h
    · rename_i now old hp
      split at h
      · cases h
        exact .advance (hp ▸ .fail rfl)
      · cases h
    · cases h
  | insert c id token ttl =>
    simp only [step] at h
    split at h
    · rename_i now old hp
      split at h
      · rename_i hok
        cases h
        exact .advance (hp ▸ .insert hok.1 hok.2.1 rfl rfl hok.2.2)
      · cases h
    · cases h
  | mark c =>
    simp only [step] at h
    split at h
    · rename_i now old next hp
      cases h
      exact .advance (hp ▸ .proceed)
    · cases h
  | load c =>
    simp only [step] at h
    split at h
    · rename_i now old next hp
      cases h
      exact .advance (hp ▸ .proceed)
    · cases h
  | commit c lost =>
    simp only [step] at h
    split at h
    · rename_i now old next hp
      cases h
      exact .rotate hp
    · cases h
  | abort c e =>
    simp only [step] at h
    split at h
    · rename_i hrun
      cases h
      exact .advance (.fail hrun)
    · cases h

end Switchyard.Identity
