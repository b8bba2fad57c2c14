import Switchyard.TeamRefresh
set_option autoImplicit false

/-!
Updates of teams' limits by several replicas at once (internal/teamstore/store.go,
Update and Refresh). An Update merges its patch into the team of the replica's
snapshot and writes all three columns; SQL statements and registry methods are
atomic, and any other call may come between two steps.
-/

namespace Switchyard.TeamStore
open Auth StepRuns

/-- How far an Update has come. n is the place of its statement among those
Postgres has executed. -/
inductive UpdatePoint (patch : TeamPatch) where
  | start
  | reading (registry : Nat)
  | merged (current updated : Team) (applied : patch.apply current = .ok updated)
  | persisted (n : Nat)
  | applying (n registry : Nat)
  | rereading (n : Nat)
  | rereadFrom (n registry : Nat)
  | returned (n : Nat) (res : Except AuthError Team)
  | failed (e : AuthError)

inductive LimitCall where
  | refresh (p : RefreshPoint)
  | update (id : String) (patch : TeamPatch) (p : UpdatePoint patch)

/-- An UPDATE that was executed: the team its call had read, and the row before
and after it. Not program state. -/
structure Written where
  id : String
  patch : TeamPatch
  current : Team
  before : Team
  after : Team
  deriving DecidableEq

/-- The gateways over one table. A registry is changed in place, so snapshots
refer to it by its address; a call runs on its replica. -/
structure Fleet where
  db : Database
  heap : List Registry
  current : Nat → Snapshot
  calls : Nat → Nat × LimitCall
  executed : List Written

def Fleet.goto (s : Fleet) (i : Nat) (c : LimitCall) : Fleet :=
  { s with calls := Function.update s.calls i ((s.calls i).1,c) }

def Fleet.snapshot (s : Fleet) (i : Nat) : Snapshot := s.current (s.calls i).1

def setLimits (updated t : Team) : Team :=
  { t with
    rateLimits := updated.rateLimits
    monthlyBudgetMicros := updated.monthlyBudgetMicros }

def writeLimits (updated : Team) (row : Row) :
    Row := { row with team := setLimits updated row.team }

/-- The row a statement changes, if it reaches Postgres and meets one. -/
def Database.met (db : Database) (id : String) (encode : Option String) (fault : Option SqlFault) :
    Option Team :=
  if encode = none ∧ fault.all SqlFault.executed then db.find id else none

def Fleet.persist (s : Fleet) (a : Action) (id : String) (patch : TeamPatch)
    (current updated : Team) : Fleet :=
  let encode := (encodeInt4 1 updated.rateLimits.rpm).or (encodeInt4 2 updated.rateLimits.tpm)
  let done := s.db.exec id encode none (writeLimits updated) a.fault
  let written := (s.db.met id encode a.fault).map fun t =>
    (⟨id,patch,current,t,setLimits updated t⟩ : Written)
  let next := { s with db := done.2, executed := s.executed ++ written.toList }
  match done.1 with
  | .error e => next.goto a.call (.update id patch (.failed e))
  | .ok () => next.goto a.call (.update id patch (.persisted s.executed.length))

def mergedPoint (patch : TeamPatch) (r : Registry) (id : String) : UpdatePoint patch :=
  match r.get id with
  | .error e => .failed e
  | .ok current =>
    match h : patch.apply current with
    | .error e => .failed e
    | .ok updated => .merged current updated h

def Fleet.update (s : Fleet) (a : Action) (id : String) (patch : TeamPatch) :
    UpdatePoint patch → Option Fleet
  | .start => some (s.goto a.call (.update id patch (.reading (s.snapshot a.call).registry)))
  | .reading registry => do
    let r ← s.heap[registry]?
    some (s.goto a.call (.update id patch (mergedPoint patch r id)))
  | .merged current updated _ => some (s.persist a id patch current updated)
  | .persisted n =>
    some (s.goto a.call (.update id patch (.applying n (s.snapshot a.call).registry)))
  | .applying n registry => do
    let r ← s.heap[registry]?
    let s := { s with heap := s.heap.set registry (r.update id patch).2 }
    match (r.update id patch).1 with
    | .ok team => some (s.goto a.call (.update id patch (.returned n (.ok team))))
    | .error _ => some (s.goto a.call (.update id patch (.rereading n)))
  | .rereading n =>
    some (s.goto a.call (.update id patch (.rereadFrom n (s.snapshot a.call).registry)))
  | .rereadFrom n registry => do
    let r ← s.heap[registry]?
    some (s.goto a.call (.update id patch (.returned n (r.get id))))
  | .returned _ _ => none
  | .failed _ => none

def Fleet.setSnapshot (s : Fleet) (i : Nat) (snap : Snapshot) : Fleet :=
  { s with current := Function.update s.current (s.calls i).1 snap }

def Fleet.refresh (s : Fleet) (a : Action) : RefreshPoint → Option Fleet
  | .start =>
    match a.fault with
    | some f => some (s.goto a.call (.refresh (.failed (.other f.text))))
    | none =>
      match loadRegistry s.db.live with
      | .error e => some (s.goto a.call (.refresh (.failed e)))
      | .ok reg => some (s.goto a.call (.refresh (.loaded reg s.executed.length)))
  | .loaded reg _ =>
    let s' := { s with heap := s.heap ++ [reg] }.setSnapshot a.call ⟨s.heap.length,a.now,false⟩
    some (s'.goto a.call (.refresh (.returned none)))
  | .failed e => some (s.goto a.call (.refresh (.degrading (s.snapshot a.call) e)))
  | .degrading prev e =>
    let s' := s.setSnapshot a.call { prev with degraded := true }
    some (s'.goto a.call (.refresh (.returned (some e))))
  | .returned _ => none

def Fleet.step (s : Fleet) (a : Action) : Option Fleet :=
  match (s.calls a.call).2 with
  | .refresh p => s.refresh a p
  | .update id patch p => s.update a id patch p

/-- Replicas that have just loaded the table, each into a registry of its own,
and no call under way. -/
structure Fleet.Initial (s : Fleet) : Prop where
  sound : s.db.Sound
  executed : s.executed = []
  replicas : ∃ n r,loadRegistry s.db.live = .ok r ∧ s.heap = List.replicate n r ∧
    (∀ i,(s.current i).registry = i) ∧ ∀ i,(s.calls i).1 < n
  idle : ∀ i,(s.calls i).2 = .refresh .start ∨
    ∃ id patch,(s.calls i).2 = .update id patch .start

inductive Limit where
  | rpm
  | tpm
  | monthlyBudget
  deriving DecidableEq, Repr

def Limit.ofTeam : Limit → Team → Int
  | .rpm,t => t.rateLimits.rpm
  | .tpm,t => t.rateLimits.tpm
  | .monthlyBudget,t => t.monthlyBudgetMicros

def Limit.ofPatch : Limit → TeamPatch → Option Int
  | .rpm,p => p.rpm
  | .tpm,p => p.tpm
  | .monthlyBudget,p => p.monthlyBudgetMicros

theorem ofTeam_merge (l : Limit) (p : TeamPatch) (t : Team) :
    l.ofTeam (p.merge t) = (l.ofPatch p).getD (l.ofTeam t) := by
  cases l <;> rfl

theorem ofTeam_setLimits (l : Limit) (updated t : Team) :
    l.ofTeam (setLimits updated t) = l.ofTeam updated := by
  cases l <;> rfl

/-- The UPDATE left what its patch does not name as it was. -/
def Written.Keeps (w : Written) : Prop :=
  ∀ l : Limit,l.ofPatch w.patch = none → l.ofTeam w.after = l.ofTeam w.before

/-- What the patch does not name was, in the team the call had read, as it was
in the row when the UPDATE came. -/
def Written.Current (w : Written) : Prop :=
  ∀ l : Limit,l.ofPatch w.patch = none → l.ofTeam w.current = l.ofTeam w.before

theorem Limit.mem_all (l : Limit) : l ∈ [Limit.rpm,.tpm,.monthlyBudget] := by
  cases l <;> simp

instance (w : Written) : Decidable w.Current :=
  decidable_of_iff (∀ l ∈ [Limit.rpm,.tpm,.monthlyBudget],l.ofPatch w.patch = none →
    l.ofTeam w.current = l.ofTeam w.before) ⟨fun h l => h l l.mem_all,fun h l _ => h l⟩

theorem Database.exec_snd (db : Database) (id : String) (encode : Option String) (f : Row → Row)
    (fault : Option SqlFault) : (db.exec id encode none f fault).2 =
      if (db.met id encode fault).isSome then db.rewrite id f else db := by
  unfold Database.exec Database.met
  cases encode with
  | some text => simp
  | none =>
    cases db.find id with
    | none => cases fault <;> simp
    | some t =>
      cases fault with
      | none => simp
      | some e => cases he : e.executed <;> simp [he]

theorem Database.met_of_exec_ok {db : Database} {id : String} {encode : Option String}
    {f : Row → Row} {fault : Option SqlFault} (h : (db.exec id encode none f fault).1 = .ok ()) :
    ∃ t,db.met id encode fault = some t := by
  unfold Database.exec at h
  unfold Database.met
  cases encode with
  | some text => simp at h
  | none =>
    cases hfind : db.find id with
    | none => cases fault <;> simp [hfind] at h
    | some t =>
      cases fault with
      | none => exact ⟨t,by simp⟩
      | some e => simp [hfind] at h

theorem Database.live_rewrite (db : Database) (id : String) (updated : Team) :
    (db.rewrite id (writeLimits updated)).live =
      db.live.map fun t => if t.id = id then setLimits updated t else t := by
  simp only [Database.live,Database.rewrite]
  induction db.rows with
  | nil => rfl
  | cons row rows ih =>
    cases hdel : row.deleted with
    | true => simpa [hdel] using ih
    | false =>
      by_cases hid : row.team.id = id
      · simpa [hdel,hid,writeLimits] using ih
      · simpa [hdel,hid] using ih

theorem Database.find_rewrite (db : Database) (id j : String) (updated : Team) :
    (db.rewrite id (writeLimits updated)).find j =
      (db.find j).map fun t => if j = id then setLimits updated t else t := by
  rw [Database.find,Database.find,Database.live_rewrite,List.find?_map]
  have hsame : (fun t : Team => decide (t.id = j)) ∘
      (fun t => if t.id = id then setLimits updated t else t) = fun t => decide (t.id = j) := by
    funext t
    simp only [Function.comp_apply]
    split <;> rfl
  rw [hsame]
  cases hfind : db.live.find? fun t => decide (t.id = j) with
  | none => rfl
  | some t =>
    obtain rfl : t.id = j := by simpa using List.find?_some hfind
    rfl

inductive Fleet.Wrote (s s' : Fleet) : Prop where
  | nothing : s'.db = s.db → s'.executed = s.executed → Wrote s s'
  | statement {id : String} {patch : TeamPatch} {current updated t : Team} :
      patch.apply current = .ok updated → s.db.find id = some t →
      s'.db = s.db.rewrite id (writeLimits updated) →
      s'.executed = s.executed ++ [⟨id,patch,current,t,setLimits updated t⟩] → Wrote s s'

theorem Fleet.persist_db (s : Fleet) (a : Action) (id : String) (patch : TeamPatch)
    (current updated : Team) :
    let encode := (encodeInt4 1 updated.rateLimits.rpm).or (encodeInt4 2 updated.rateLimits.tpm)
    (s.persist a id patch current updated).db =
        (s.db.exec id encode none (writeLimits updated) a.fault).2 ∧
      (s.persist a id patch current updated).executed = s.executed ++
        ((s.db.met id encode a.fault).map fun t =>
          (⟨id,patch,current,t,setLimits updated t⟩ : Written)).toList := by
  unfold Fleet.persist
  simp only []
  split <;> exact ⟨rfl,rfl⟩

variable {s : Fleet}

variable {a : Action}

theorem Fleet.persist_wrote {id : String} {patch : TeamPatch} {current updated : Team}
    (happlied : patch.apply current = .ok updated) :
    s.Wrote (s.persist a id patch current updated) := by
  obtain ⟨hdb,hexec⟩ := s.persist_db a id patch current updated
  rw [Database.exec_snd] at hdb
  cases hmet : s.db.met id
      ((encodeInt4 1 updated.rateLimits.rpm).or (encodeInt4 2 updated.rateLimits.tpm)) a.fault with
  | none =>
    refine .nothing ?_ ?_
    · simpa [hmet] using hdb
    · simpa [hmet] using hexec
  | some t =>
    have hfind : s.db.find id = some t := by
      unfold Database.met at hmet
      split at hmet
      · exact hmet
      · simp at hmet
    refine .statement happlied hfind ?_ ?_
    · simpa [hmet] using hdb
    · simpa [hmet] using hexec

/-- A column of a team after some UPDATEs, if each changed what its patch names
and nothing else. -/
def named (l : Limit) (id : String) (ws : List Written) (v : Int) : Int :=
  ws.foldl (fun v w => if w.id = id then (l.ofPatch w.patch).getD v else v) v

theorem named_snoc (l : Limit) (id : String) (ws : List Written) (w : Written) (v : Int) :
    named l id (ws ++ [w]) v =
      if w.id = id then (l.ofPatch w.patch).getD (named l id ws v) else named l id ws v := by
  simp [named]

variable {ws : List Written}

theorem named_unnamed {l : Limit} {id : String} (v : Int)
    (h : ∀ w ∈ ws,w.id = id → l.ofPatch w.patch = none) : named l id ws v = v := by
  induction ws generalizing v with
  | nil => rfl
  | cons w ws ih =>
    have hrest := ih v fun w' hw' => h w' (by simp [hw'])
    by_cases hid : w.id = id
    · simpa [named,hid,h w (by simp) hid] using hrest
    · simpa [named,hid] using hrest

theorem named_last {l : Limit} {n : Nat} {w : Written} {v : Int} (x : Int)
    (hn : ws[n]? = some w) (hv : l.ofPatch w.patch = some v)
    (hlater : ∀ m w',n < m → ws[m]? = some w' → w'.id = w.id → l.ofPatch w'.patch = none) :
    named l w.id ws x = v := by
  obtain ⟨hlt,hw⟩ := List.getElem?_eq_some_iff.1 hn
  have hsplit : ws = ws.take n ++ w :: ws.drop (n+1) := by
    rw [← hw,← List.drop_eq_getElem_cons hlt,List.take_append_drop]
  have hrest : named l w.id (ws.drop (n+1)) v = v := by
    refine named_unnamed v fun w' hw' hid => ?_
    obtain ⟨k,hk⟩ := List.mem_iff_getElem?.1 hw'
    rw [List.getElem?_drop] at hk
    exact hlater (n+1+k) w' (by omega) hk hid
  rw [hsplit]
  simpa [named,List.foldl_append,hv] using hrest

/-- The records against the table the run began with. -/
structure Fleet.Ledger (db₀ : Database) (s : Fleet) : Prop where
  after : ∀ w ∈ s.executed,∀ l : Limit,
    l.ofTeam w.after = (l.ofPatch w.patch).getD (l.ofTeam w.current)
  known : ∀ w ∈ s.executed,(db₀.find w.id).isSome
  found : ∀ id,(s.db.find id).isSome = (db₀.find id).isSome
  columns : (∀ w ∈ s.executed,w.Keeps) → ∀ id t₀ t,db₀.find id = some t₀ →
    s.db.find id = some t → ∀ l : Limit,l.ofTeam t = named l id s.executed (l.ofTeam t₀)

variable {s' : Fleet}

theorem Fleet.Ledger.wrote {db₀ : Database}
    (h : s.Ledger db₀) (hw : s.Wrote s') : s'.Ledger db₀ := by
  cases hw with
  | nothing hdb hexec =>
    refine ⟨?_,?_,?_,?_⟩
    · rw [hexec]
      exact h.after
    · rw [hexec]
      exact h.known
    · rw [hdb]
      exact h.found
    · rw [hexec,hdb]
      exact h.columns
  | @statement id patch current updated t happly hfind hdb hexec =>
    have hmerge : ∀ l : Limit,l.ofTeam updated = (l.ofPatch patch).getD (l.ofTeam current) := by
      intro l
      rw [(TeamPatch.apply_ok happly).1,ofTeam_merge]
    refine ⟨?_,?_,fun j => ?_,fun hkeeps j t₀ u ht₀ hu l => ?_⟩
    · rw [hexec]
      intro w hw l
      obtain hw | hw := List.mem_append.1 hw
      · exact h.after w hw l
      · obtain rfl := List.mem_singleton.1 hw
        rw [ofTeam_setLimits,hmerge]
    · rw [hexec]
      intro w hw
      obtain hw | hw := List.mem_append.1 hw
      · exact h.known w hw
      · obtain rfl := List.mem_singleton.1 hw
        rw [← h.found,hfind]
        rfl
    · rw [hdb,Database.find_rewrite,Option.isSome_map]
      exact h.found j
    · rw [hexec] at hkeeps
      rw [hdb,Database.find_rewrite] at hu
      obtain ⟨u₀,hu₀,rfl⟩ := Option.map_eq_some_iff.1 hu
      have hold := h.columns (fun w hw => hkeeps w (by simp [hw])) j t₀ u₀ ht₀ hu₀ l
      rw [hexec,named_snoc]
      by_cases hj : j = id
      · subst hj
        obtain rfl := Option.some.inj (hfind.symm.trans hu₀)
        rw [if_pos rfl,if_pos rfl,ofTeam_setLimits,hmerge]
        cases hp : l.ofPatch patch with
        | some v => rfl
        | none =>
          have hkept := hkeeps ⟨j,patch,current,t,setLimits updated t⟩ (by simp) l hp
          rw [ofTeam_setLimits,hmerge,hp] at hkept
          rw [← hold]
          exact hkept
      · rw [if_neg hj,if_neg (fun hid => hj hid.symm)]
        exact hold

def UpdatePoint.statement {patch : TeamPatch} : UpdatePoint patch → Option Nat
  | .persisted n => some n
  | .applying n _ => some n
  | .rereading n => some n
  | .rereadFrom n _ => some n
  | .returned n _ => some n
  | _ => none

def LimitCall.succeeded : LimitCall → Option (String × TeamPatch × Nat)
  | .update id patch (.returned n (.ok _)) => some (id,patch,n)
  | _ => none

def LimitCall.Placed (executed : List Written) : LimitCall → Prop
  | .refresh _ => True
  | .update id patch p => ∀ n,p.statement = some n →
      ∃ w,executed[n]? = some w ∧ w.id = id ∧ w.patch = patch

theorem LimitCall.Placed.succeeded {c : LimitCall} (h : c.Placed ws)
    {id : String} {patch : TeamPatch} {n : Nat} (hc : c.succeeded = some (id,patch,n)) :
    ∃ w,ws[n]? = some w ∧ w.id = id ∧ w.patch = patch := by
  unfold LimitCall.succeeded at hc
  split at hc
  · obtain ⟨rfl,rfl,rfl⟩ := by simpa using hc
    exact h _ rfl
  · simp at hc

theorem LimitCall.Placed.append {c : LimitCall} (h : c.Placed ws)
    (more : List Written) : c.Placed (ws ++ more) := by
  cases c with
  | refresh p => trivial
  | update id patch p =>
    intro n hn
    obtain ⟨w,hw,hrest⟩ := h n hn
    refine ⟨w,?_,hrest⟩
    rw [List.getElem?_append_left (List.getElem?_eq_some_iff.1 hw).1]
    exact hw

def Fleet.Placed (s : Fleet) : Prop := ∀ i,(s.calls i).2.Placed s.executed

theorem Fleet.Placed.goto {i : Nat} {c : LimitCall} {more : List Written}
    (h : s.Placed) (hcalls : s'.calls = s.calls) (hexec : s'.executed = s.executed ++ more)
    (hc : c.Placed s'.executed) : (s'.goto i c).Placed := by
  intro j
  simp only [Fleet.goto,hcalls]
  by_cases hj : j = i
  · subst hj
    simpa using hc
  · simp only [Function.update_of_ne hj,hexec]
    exact (h j).append more

theorem mergedPoint_statement (patch : TeamPatch) (r : Registry) (id : String) :
    (mergedPoint patch r id).statement = none := by
  unfold mergedPoint
  split
  · rfl
  · split <;> rfl

theorem Fleet.Placed.persist (h : s.Placed) (a : Action) (id : String)
    (patch : TeamPatch) (current updated : Team) :
    (s.persist a id patch current updated).Placed := by
  unfold Fleet.persist
  simp only []
  split
  · exact h.goto rfl rfl (fun n hn => by simp [UpdatePoint.statement] at hn)
  · rename_i hok
    obtain ⟨t,ht⟩ := Database.met_of_exec_ok hok
    refine h.goto rfl rfl fun n hn => ?_
    obtain rfl : s.executed.length = n := by simpa [UpdatePoint.statement] using hn
    exact ⟨⟨id,patch,current,t,setLimits updated t⟩,by simp [ht],rfl,rfl⟩

/-- All a step can do: its call goes on, pointing to no statement but the one it
has executed, or it executes one. -/
inductive Fleet.Moved (s : Fleet) (a : Action) : Fleet → Prop where
  | on {u : Fleet} {c : LimitCall} : u.calls = s.calls → u.db = s.db → u.executed = s.executed →
      ((s.calls a.call).2.Placed s.executed → c.Placed s.executed) → Moved s a (u.goto a.call c)
  | persist {id : String} {patch : TeamPatch} {current updated : Team} :
      patch.apply current = .ok updated → Moved s a (s.persist a id patch current updated)

theorem Fleet.update_moved {id : String} {patch : TeamPatch} {p : UpdatePoint patch}
    (hp : (s.calls a.call).2 = .update id patch p)
    (h : s.update a id patch p = some s') : s.Moved a s' := by
  -- a point that names no statement is placed
  have hnone : ∀ {q : UpdatePoint patch},q.statement = none →
      (LimitCall.update id patch q).Placed s.executed := by
    intro q hq n hn
    rw [hq] at hn
    cases hn
  have hkeep : ∀ {q : UpdatePoint patch},q.statement = p.statement →
      (s.calls a.call).2.Placed s.executed → (LimitCall.update id patch q).Placed s.executed := by
    intro q hq hmine n hn
    rw [hp] at hmine
    exact hmine n (hq ▸ hn)
  cases p with
  | start =>
    obtain rfl := Option.some.inj h
    exact .on rfl rfl rfl fun _ => hnone rfl
  | reading registry =>
    obtain ⟨r,-,h⟩ := Option.bind_eq_some_iff.1 h
    obtain rfl := Option.some.inj h
    exact .on rfl rfl rfl fun _ => hnone (mergedPoint_statement patch r id)
  | merged current updated happlied =>
    obtain rfl := Option.some.inj h
    exact .persist happlied
  | persisted n | rereading n =>
    obtain rfl := Option.some.inj h
    exact .on rfl rfl rfl (hkeep rfl)
  | applying n registry =>
    obtain ⟨r,-,h⟩ := Option.bind_eq_some_iff.1 h
    simp only [] at h
    split at h
    · obtain rfl := Option.some.inj h
      exact .on rfl rfl rfl (hkeep rfl)
    · obtain rfl := Option.some.inj h
      exact .on rfl rfl rfl (hkeep rfl)
  | rereadFrom n registry =>
    obtain ⟨r,-,h⟩ := Option.bind_eq_some_iff.1 h
    obtain rfl := Option.some.inj h
    exact .on rfl rfl rfl (hkeep rfl)
  | returned n res => cases h
  | failed e => cases h

theorem Fleet.refresh_moved {p : RefreshPoint} (h : s.refresh a p = some s') : s.Moved a s' := by
  cases p with
  | start =>
    simp only [Fleet.refresh] at h
    split at h
    · obtain rfl := Option.some.inj h
      exact .on rfl rfl rfl fun _ => trivial
    · split at h
      · obtain rfl := Option.some.inj h
        exact .on rfl rfl rfl fun _ => trivial
      · obtain rfl := Option.some.inj h
        exact .on rfl rfl rfl fun _ => trivial
  | loaded | failed | degrading =>
    obtain rfl := Option.some.inj h
    exact .on rfl rfl rfl fun _ => trivial
  | returned e => cases h

theorem Fleet.step_moved (h : s.step a = some s') : s.Moved a s' := by
  unfold Fleet.step at h
  split at h
  · exact Fleet.refresh_moved h
  · rename_i id patch p hp
    exact Fleet.update_moved hp h

theorem Fleet.Moved.wrote (h : s.Moved a s') : s.Wrote s' := by
  cases h with
  | on _ hdb hexec _ => exact .nothing hdb hexec
  | persist happlied => exact Fleet.persist_wrote happlied

theorem Fleet.Placed.moved (h : s.Placed) (hm : s.Moved a s') : s'.Placed := by
  cases hm with
  | on hcalls _ hexec hc =>
    refine h.goto hcalls (hexec.trans (List.append_nil _).symm) ?_
    rw [hexec]
    exact hc (h a.call)
  | persist _ => exact h.persist a _ _ _ _

theorem Fleet.Initial.ledger (h : s.Initial) : s.Ledger s.db := by
  refine ⟨by simp [h.executed],by simp [h.executed],fun _ => rfl,fun _ id t₀ t ht₀ ht l => ?_⟩
  obtain rfl := Option.some.inj (ht₀.symm.trans ht)
  simp [h.executed,named]

theorem Fleet.Initial.placed (h : s.Initial) : s.Placed := by
  intro i
  obtain hi | ⟨id,patch,hi⟩ := h.idle i
  · rw [hi]
    trivial
  · rw [hi]
    intro n hn
    simp [UpdatePoint.statement] at hn

/-- Over every interleaving: no UPDATE changes a column its patch does not name
exactly when each call had read those columns as the UPDATE finds them; and
then a column named by a successful Update and by none after it ends up with
that value. -/
theorem updates_kept_iff {s₀ s : Fleet} {as : List Action} (hinit : s₀.Initial)
    (hrun : Reaches Fleet.step (fun _ _ => True) s₀ as s) :
    ((∀ w ∈ s.executed,w.Keeps) ↔ ∀ w ∈ s.executed,w.Current) ∧
    ((∀ w ∈ s.executed,w.Current) → ∀ i id patch n,∀ (l : Limit) (v : Int),
      (s.calls i).2.succeeded = some (id,patch,n) → l.ofPatch patch = some v →
      (∀ m w,n < m → s.executed[m]? = some w → w.id = id → l.ofPatch w.patch = none) →
      ∃ t,s.db.find id = some t ∧ l.ofTeam t = v) := by
  have hledger : s.Ledger s₀.db := hrun.invariant (I := fun s => s.Ledger s₀.db)
    (fun _ _ _ hs _ hstep => hs.wrote (Fleet.step_moved hstep).wrote) hinit.ledger
  have hplaced : s.Placed :=
    hrun.invariant (fun _ _ _ hs _ hstep => hs.moved (Fleet.step_moved hstep)) hinit.placed
  have hiff : ∀ w ∈ s.executed,(w.Keeps ↔ w.Current) := by
    intro w hw
    refine forall_congr' fun l => forall_congr' fun hnone => ?_
    rw [hledger.after w hw l,hnone,Option.getD_none]
  refine ⟨forall₂_congr hiff,fun hcurrent i id patch n l v hcall hv hlater => ?_⟩
  obtain ⟨w,hw,rfl,rfl⟩ := (hplaced i).succeeded hcall
  have hmem : w ∈ s.executed := List.mem_of_getElem? hw
  obtain ⟨t₀,ht₀⟩ := Option.isSome_iff_exists.1 (hledger.known w hmem)
  obtain ⟨t,ht⟩ : ∃ t,s.db.find w.id = some t := by
    rw [← Option.isSome_iff_exists,hledger.found,ht₀]
    rfl
  refine ⟨t,ht,?_⟩
  rw [hledger.columns (fun w hw => (hiff w hw).2 (hcurrent w hw)) w.id t₀ t ht₀ ht l]
  exact named_last _ hw hv hlater

def twoReplicas : Fleet where
  db := seededWith ["t"]
  heap := ((loadRegistry (seededWith ["t"]).live).toOption.toList.flatMap fun r => [r,r])
  current i := ⟨i,0,false⟩
  calls
    | 0 => (0,.update "t" ⟨some 5,none,none⟩ .start)
    | 1 => (1,.update "t" ⟨none,some 7,none⟩ .start)
    | _ => (1,.refresh .start)
  executed := []

theorem twoReplicas_initial : twoReplicas.Initial := by
  have hseed : (seededWith ["t"]).Seeded := seededWith_seeded (by decide) (by decide +kernel)
  have hload : (loadRegistry (seededWith ["t"]).live).isOk = true := by decide +kernel
  refine ⟨hseed.sound,rfl,?_,fun i => ?_⟩
  · cases hr : loadRegistry (seededWith ["t"]).live with
    | error e => simp [hr,Except.isOk,Except.toBool] at hload
    | ok r =>
      refine ⟨2,r,hr,by simp [twoReplicas,hr,Except.toOption,List.replicate],fun _ => rfl,?_⟩
      intro i
      simp only [twoReplicas]
      split <;> decide
  · simp only [twoReplicas]
    split
    · exact .inr ⟨_,_,rfl⟩
    · exact .inr ⟨_,_,rfl⟩
    · exact .inl rfl

def steps (i n : Nat) : List Action := List.replicate n ⟨i,0,none⟩

/-- A refresh between the two Updates keeps both. -/
theorem updates_kept_refreshed :
    ∃ s t,Reaches Fleet.step (fun _ _ => True) twoReplicas (steps 0 5 ++ steps 2 2 ++ steps 1 5) s ∧
      (∀ w ∈ s.executed,w.Current) ∧ s.db.find "t" = some t ∧ Limit.rpm.ofTeam t = 5 := by
  obtain ⟨s,hrun,hcurrent,hcall,hpatches⟩ : ∃ s,
      Reaches Fleet.step (fun _ _ => True) twoReplicas (steps 0 5 ++ steps 2 2 ++ steps 1 5) s ∧
      (∀ w ∈ s.executed,w.Current) ∧
      (s.calls 0).2.succeeded = some ("t",⟨some 5,none,none⟩,0) ∧
      s.executed.map Written.patch = [⟨some 5,none,none⟩,⟨none,some 7,none⟩] :=
    Reaches.exists_of_run (by decide +kernel)
  have hlater : ∀ m w,0 < m → s.executed[m]? = some w → w.id = "t" →
      Limit.rpm.ofPatch w.patch = none := by
    intro m w hm hw _
    have hpatch := congrArg (·[m]?) hpatches
    simp only [List.getElem?_map,hw,Option.map_some] at hpatch
    match m,hm with
    | 1,_ =>
      obtain hpatch : w.patch = ⟨none,some 7,none⟩ := by simpa using hpatch
      rw [hpatch]
      rfl
    | m+2,_ => simp at hpatch
  obtain ⟨t,ht,hrpm⟩ := (updates_kept_iff twoReplicas_initial hrun).2 hcurrent 0 "t"
    ⟨some 5,none,none⟩ 0 .rpm 5 hcall rfl hlater
  exact ⟨s,t,hrun,hcurrent,ht,hrpm⟩

/-- Without it the second replica writes back the old RPM: both Updates succeed,
they name different columns, and the first one's value is gone. -/
theorem stale_update_restores :
    twoReplicas.Initial ∧ ∃ s,
      Reaches Fleet.step (fun _ _ => True) twoReplicas (steps 0 5 ++ steps 1 5) s ∧
      (s.calls 0).2.succeeded = some ("t",⟨some 5,none,none⟩,0) ∧
      (s.calls 1).2.succeeded = some ("t",⟨none,some 7,none⟩,1) ∧ s.executed.length = 2 ∧
      (s.db.find "t").map Team.rateLimits = some ⟨1,7⟩ := by
  exact ⟨twoReplicas_initial,Reaches.exists_of_run (by decide +kernel)⟩

end Switchyard.TeamStore
