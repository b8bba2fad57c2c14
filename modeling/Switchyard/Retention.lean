import Mathlib.Algebra.BigOperators.Finsupp.Basic
import Switchyard.LogAccounts
import Switchyard.LogPages
import Switchyard.TeamStore
set_option autoImplicit false

/-!
Retention of the request log (internal/logstore/retention.go, Sweep) by several
replicas, and the spend read from both tables (query.go, `SpendByTeamSince`). A
sweep's statement reads one snapshot and commits later; inserts and scores may
come between. Times are Unix nanoseconds; the session's time zone is UTC.
-/

namespace Switchyard.Logstore
open StepRuns TeamStore

def bigintRange : String := "ERROR: bigint out of range (SQLSTATE 22003)"

def Totals.fits (t : Totals) : Bool :=
  [t.requests,t.errors,t.inputTokens,t.outputTokens,t.costMicros,t.fallbackCostDeltaMicros,
    t.routingSavingsMicros].all (fitsInt 64)

def inGroup (rows : List Record) (key : DayKey) : List Record :=
  rows.filter fun r => decide (r.dayKey = key)

/-- `rolled`, which fails when a sum does not fit its column. -/
def rolled (daily : Summary) (doomed : List Record) : Option Summary :=
  if (doomed.map Record.dayKey).all (fun key => (totalsOf (inGroup doomed key)).fits) &&
      (rollUp daily doomed).all (fun e => e.2.fits) then some (rollUp daily doomed)
  else none

structure RetentionConfig where
  window : Int
  batchSize : Int
  maxBatches : Int
  deriving DecidableEq, Repr

def RetentionConfig.withDefaults (c : RetentionConfig) : RetentionConfig :=
  { c with
    batchSize := if c.batchSize ≤ 0 then 5000 else c.batchSize
    maxBatches := if c.maxBatches ≤ 0 then 200 else c.maxBatches }

/-- How far a Sweep has come. The lock is held from `locked` to `unlocking`;
in `sweeping` the statement has read the rows it will roll up. -/
inductive SweepPoint where
  | start
  | connected
  | locked (cutoff : Int) (left : Nat) (total : Int)
  | sweeping (cutoff : Int) (left : Nat) (total : Int) (doomed : List Record)
  | unlocking (total : Int) (err : Option String)
  | returned (total : Int) (err : Option String)
  deriving DecidableEq, Repr

/-- The tables, the advisory lock and the passes of all replicas. `inserted` are
the rows that inserts have added; no step reads it. -/
structure Store where
  rows : List Record
  daily : Summary
  lock : Option Nat
  passes : Nat → RetentionConfig × SweepPoint
  inserted : List Record

/-- One step: an insert of the log writer, a score, or the next step of a pass,
with the time, the rows its statement reads and the error it gets. -/
inductive StoreAction where
  | insert (batch : List Record)
  | score (id : String) (score : Int) (reason : String)
  | sweep (pass : Nat) (now : Int) (doomed : List Record) (fault : Option SqlFault)
  deriving DecidableEq, Repr

def Store.goto (s : Store) (i : Nat) (p : SweepPoint) : Store :=
  { s with passes := Function.update s.passes i ((s.passes i).1,p) }

def sweepFailed (text : String) : String := "sweeping expired request log rows: " ++ text

/-- `sweepSQL` commits: what it read is rolled up and deleted. -/
def Store.commit (s : Store) (daily : Summary) (doomed : List Record) : Store :=
  { s with
    rows := s.rows.filter fun r => decide (r.id ∉ doomed.map Record.id)
    daily := daily }

def Store.removed (s : Store) (doomed : List Record) : Nat :=
  (s.rows.filter fun r => decide (r.id ∈ doomed.map Record.id)).length

def Store.sweep (s : Store) (i : Nat) (cfg : RetentionConfig) (now : Int) (doomed : List Record)
    (fault : Option SqlFault) : SweepPoint → Option Store
  | .start =>
    if cfg.window ≤ 0 then some (s.goto i (.returned 0 none))
    else
      match fault with
      | some f =>
        some (s.goto i (.returned 0 (some ("acquiring connection for retention: " ++ f.text))))
      | none => some (s.goto i .connected)
  | .connected =>
    match fault with
    | some f => some (s.goto i (.returned 0 (some ("acquiring retention lock: " ++ f.text))))
    | none =>
      if s.lock = none then
        some ({ s with lock := some i }.goto i
          (.locked (now-cfg.window) cfg.maxBatches.toNat 0))
      else some (s.goto i (.returned 0 none))
  | .locked _ 0 total => some (s.goto i (.unlocking total none))
  | .locked cutoff (left+1) total =>
    match timestamptz cutoff with
    | none => some (s.goto i (.unlocking total (some (sweepFailed timestampRange))))
    | some ts =>
      if sweepable s.rows ts cfg.batchSize.toNat doomed then
        some (s.goto i (.sweeping cutoff left total doomed))
      else none
  | .sweeping cutoff left total doomed =>
    match fault with
    | some ⟨text,false⟩ => some (s.goto i (.unlocking total (some (sweepFailed text))))
    | _ =>
      match rolled s.daily doomed with
      | none => some (s.goto i (.unlocking total (some (sweepFailed bigintRange))))
      | some daily =>
        match fault with
        | some f =>
          -- the answer was lost after the commit
          some ((s.commit daily doomed).goto i (.unlocking total (some (sweepFailed f.text))))
        | none =>
          let n : Int := s.removed doomed
          some ((s.commit daily doomed).goto i
            (if n < cfg.batchSize then .unlocking (total+n) none
              else .locked cutoff left (total+n)))
  | .unlocking total err => some ({ s with lock := none }.goto i (.returned total err))
  | .returned _ _ => none

def Store.step (s : Store) : StoreAction → Option Store
  | .insert batch => do
    let rows ← insertBatch s.rows batch
    some { s with rows := rows, inserted := s.inserted ++ rows.drop s.rows.length }
  | .score id score reason => some { s with rows := setQualityScore s.rows id score reason }
  | .sweep i now doomed fault =>
    s.sweep i (s.passes i).1.withDefaults now doomed fault (s.passes i).2

def spendTexts : ReadTexts where
  query := "summing request-log spend by team: "
  scan := "scanning request-log spend row: "
  rows := "reading request-log spend rows: "

/-- The rows of both tables, since is in microseconds. -/
def spendRows (rows : List Record) (daily : Summary) (since : Int) : List (String × Int) :=
  ((rows.filter fun r => decide (since ≤ r.timestamp)).map fun r => (r.teamID,r.costMicros)) ++
    (daily.filter fun e => decide (since/86400000000 ≤ e.1.day)).map fun e =>
      (e.1.teamID,e.2.costMicros)

def sums (l : List (String × Int)) : List (String × Int) :=
  (l.map Prod.fst).dedup.map fun team =>
    (team,((l.filter fun e => decide (e.1 = team)).map Prod.snd).sum)

def spendSQL (rows : List Record) (daily : Summary) (since : Int) :
    Except String (List (String × Int)) :=
  match timestamptz since with
  | none => .error timestampRange
  | some ts =>
    let out := sums (spendRows rows daily ts)
    if out.all fun e => fitsInt 64 e.2 then .ok out else .error bigintRange

def spendByTeamSince (rows : List Record) (daily : Summary) (since : Int)
    (fault : Option ReadFault) : Except ReadError (List (String × Int)) :=
  match spendSQL rows daily since with
  | .error text => runQuery spendTexts [.time since] (fault.or (some (.rows text))) []
  | .ok out => runQuery spendTexts [.time since] fault out

def SweepPoint.holds : SweepPoint → Bool
  | .locked .. | .sweeping .. | .unlocking .. => true
  | _ => false

def SweepPoint.snapshot : SweepPoint → Option (List Record)
  | .sweeping _ _ _ doomed => some doomed
  | _ => none

variable {doomed : List Record}

theorem SweepPoint.holds_of_snapshot {p : SweepPoint} (h : p.snapshot = some doomed) :
    p.holds = true := by
  cases p <;> first | rfl | cases h

inductive Store.Moved (s : Store) (i : Nat) : Store → Prop where
  | free {p : SweepPoint} : p.holds = false → (s.passes i).2.holds = false →
      Moved s i (s.goto i p)
  | take (cutoff : Int) (left : Nat) (total : Int) : s.lock = none →
      Moved s i ({ s with lock := some i }.goto i (.locked cutoff left total))
  | hold {p : SweepPoint} : (s.passes i).2.holds = true → p.snapshot = none →
      Moved s i (s.goto i p)
  | read {cutoff : Int} {left : Nat} {total : Int} {doomed : List Record} {ts : Int} {limit : Nat} :
      (s.passes i).2.holds = true → sweepable s.rows ts limit doomed = true →
      Moved s i (s.goto i (.sweeping cutoff left total doomed))
  | commit {p : SweepPoint} {doomed : List Record} :
      (s.passes i).2.snapshot = some doomed → p.snapshot = none →
      Moved s i ((s.commit (rollUp s.daily doomed) doomed).goto i p)
  | release {p : SweepPoint} : (s.passes i).2.holds = true → p.holds = false →
      Moved s i ({ s with lock := none }.goto i p)

theorem rolled_eq {daily daily' : Summary} (h : rolled daily doomed = some daily') :
    daily' = rollUp daily doomed := by
  unfold rolled at h
  split at h
  · exact (Option.some.inj h).symm
  · cases h

variable {s t : Store}

theorem Store.sweep_moved {i : Nat} {cfg : RetentionConfig} {now : Int} {fault : Option SqlFault}
    {p : SweepPoint} (hp : (s.passes i).2 = p) (h : s.sweep i cfg now doomed fault p = some t) :
    s.Moved i t := by
  cases p with
  | start =>
    have hfree : (s.passes i).2.holds = false := by rw [hp]; rfl
    simp only [Store.sweep] at h
    split at h
    · obtain rfl := Option.some.inj h
      exact .free rfl hfree
    · split at h
      · obtain rfl := Option.some.inj h
        exact .free rfl hfree
      · obtain rfl := Option.some.inj h
        exact .free rfl hfree
  | connected =>
    have hfree : (s.passes i).2.holds = false := by rw [hp]; rfl
    simp only [Store.sweep] at h
    split at h
    · obtain rfl := Option.some.inj h
      exact .free rfl hfree
    · split at h
      · rename_i hunlocked
        obtain rfl := Option.some.inj h
        exact .take _ _ _ hunlocked
      · obtain rfl := Option.some.inj h
        exact .free rfl hfree
  | locked cutoff left total =>
    have hholds : (s.passes i).2.holds = true := by rw [hp]; rfl
    cases left with
    | zero =>
      obtain rfl := Option.some.inj h
      exact .hold hholds rfl
    | succ left =>
      simp only [Store.sweep] at h
      split at h
      · obtain rfl := Option.some.inj h
        exact .hold hholds rfl
      · split at h
        · rename_i hsweep
          obtain rfl := Option.some.inj h
          exact .read hholds hsweep
        · cases h
  | sweeping cutoff left total doomed' =>
    have hholds : (s.passes i).2.holds = true := by rw [hp]; rfl
    have hsnap : (s.passes i).2.snapshot = some doomed' := by rw [hp]; rfl
    simp only [Store.sweep] at h
    split at h
    · obtain rfl := Option.some.inj h
      exact .hold hholds rfl
    · split at h
      · obtain rfl := Option.some.inj h
        exact .hold hholds rfl
      · rename_i daily hrolled
        obtain rfl := rolled_eq hrolled
        split at h
        · obtain rfl := Option.some.inj h
          exact .commit hsnap rfl
        · obtain rfl := Option.some.inj h
          refine .commit hsnap ?_
          split <;> rfl
  | unlocking total err =>
    obtain rfl := Option.some.inj h
    exact .release (by rw [hp]; rfl) rfl
  | returned total err => cases h

@[simp] theorem goto_same (s : Store) (i : Nat) (p : SweepPoint) :
    ((s.goto i p).passes i).2 = p := by
  simp [Store.goto]

theorem goto_other (s : Store) {i j : Nat} (p : SweepPoint) (h : j ≠ i) :
    (s.goto i p).passes j = s.passes j := by
  simp [Store.goto,h]

/-- The rows a statement has read are there, but for their scores. -/
structure Pending (rows doomed : List Record) : Prop where
  nodup : (doomed.map Record.id).Nodup
  live : ∀ d ∈ doomed,d.entry ∈ rows.map Record.entry

/-- The primary key, the lock, and the snapshot of the pass that holds it. -/
structure Store.Sound (s : Store) : Prop where
  ids : (s.rows.map Record.id).Nodup
  lock : ∀ i,(s.passes i).2.holds = true → s.lock = some i
  pending : ∀ i doomed,(s.passes i).2.snapshot = some doomed → Pending s.rows doomed

theorem Store.Sound.goto {u : Store} {i : Nat} {p : SweepPoint} (hs : s.Sound)
    (hpasses : u.passes = s.passes) (hids : (u.rows.map Record.id).Nodup)
    (hother : ∀ j,j ≠ i → (s.passes j).2.holds = true → u.lock = s.lock ∧ u.rows = s.rows)
    (hlock : p.holds = true → u.lock = some i)
    (hpending : ∀ doomed,p.snapshot = some doomed → Pending u.rows doomed) :
    (u.goto i p).Sound := by
  refine ⟨hids,fun j hj => ?_,fun j doomed hj => ?_⟩
  · by_cases hji : j = i
    · subst hji
      rw [goto_same] at hj
      exact hlock hj
    · rw [goto_other _ _ hji,hpasses] at hj
      exact (hother j hji hj).1.trans (hs.lock j hj)
  · by_cases hji : j = i
    · subst hji
      rw [goto_same] at hj
      exact hpending doomed hj
    · rw [goto_other _ _ hji,hpasses] at hj
      have hrows := (hother j hji (SweepPoint.holds_of_snapshot hj)).2
      exact hrows ▸ hs.pending j doomed hj

theorem Store.Sound.alone {i j : Nat} (hs : s.Sound)
    (hi : (s.passes i).2.holds = true) (hj : (s.passes j).2.holds = true) : j = i := by
  have heq := (hs.lock j hj).symm.trans (hs.lock i hi)
  exact Option.some.inj heq

theorem pending_of_sweepable {rows : List Record} {ts : Int} {limit : Nat}
    (hd : (rows.map Record.id).Nodup) (h : sweepable rows ts limit doomed = true) :
    Pending rows doomed := by
  simp only [sweepable,Bool.and_eq_true,decide_eq_true_eq,List.all_eq_true] at h
  obtain ⟨⟨⟨hnodup,hmem⟩,-⟩,-⟩ := h
  have hin : ∀ d ∈ doomed,d ∈ rows := fun d hdoomed => (List.mem_filter.1 (hmem d hdoomed)).1
  refine ⟨hnodup.map_on fun d hdoomed d' hdoomed' heq => ?_,fun d hdoomed => ?_⟩
  · exact List.inj_on_of_nodup_map hd (hin d hdoomed) (hin d' hdoomed') heq
  · exact List.mem_map_of_mem (hin d hdoomed)

theorem Store.Moved.sound {i : Nat} (h : s.Moved i t) (hs : s.Sound) : t.Sound := by
  cases h with
  | @free p hp hfree =>
    refine hs.goto rfl hs.ids (fun _ _ _ => ⟨rfl,rfl⟩) (fun h => ?_) fun doomed h => ?_
    · simp [hp] at h
    · simpa [hp] using SweepPoint.holds_of_snapshot h
  | take cutoff left total hfree =>
    refine hs.goto rfl hs.ids (fun j _ hj => ?_) (fun _ => rfl) fun doomed h => ?_
    · have hheld := hs.lock j hj
      rw [hfree] at hheld
      cases hheld
    · cases h
  | hold hi hp =>
    refine hs.goto rfl hs.ids (fun _ _ _ => ⟨rfl,rfl⟩) (fun _ => hs.lock i hi) fun doomed h => ?_
    rw [hp] at h
    cases h
  | read hi hsweep =>
    refine hs.goto rfl hs.ids (fun _ _ _ => ⟨rfl,rfl⟩) (fun _ => hs.lock i hi) fun doomed h => ?_
    obtain rfl := Option.some.inj h
    exact pending_of_sweepable hs.ids hsweep
  | commit hsnap hp =>
    have hi := SweepPoint.holds_of_snapshot hsnap
    refine hs.goto rfl (hs.ids.sublist (List.filter_sublist.map _)) (fun j hji hj => ?_)
      (fun _ => hs.lock i hi) fun doomed h => ?_
    · exact absurd (hs.alone hi hj) hji
    · rw [hp] at h
      cases h
  | release hi hp =>
    refine hs.goto rfl hs.ids (fun j hji hj => ?_) (fun h => ?_) fun doomed h => ?_
    · exact absurd (hs.alone hi hj) hji
    · simp [hp] at h
    · simpa [hp] using SweepPoint.holds_of_snapshot h

theorem insertRows_append (rows batch : List Record) :
    ∃ added,batch.foldl insertRow rows = rows ++ added := by
  induction batch generalizing rows with
  | nil => exact ⟨[],by simp⟩
  | cons r batch ih =>
    rw [List.foldl_cons]
    by_cases hr : r.id ∈ rows.map Record.id
    · rw [insertRow_old hr]
      exact ih rows
    · obtain ⟨added,hadded⟩ := ih (rows ++ [r.stored])
      rw [insertRow_new hr]
      exact ⟨r.stored :: added,by rw [hadded,List.append_assoc]; rfl⟩

theorem Store.insert_cases {batch : List Record}
    (hd : (s.rows.map Record.id).Nodup) (h : s.step (.insert batch) = some t) :
    ∃ added,((s.rows ++ added).map Record.id).Nodup ∧
      t = { s with rows := s.rows ++ added, inserted := s.inserted ++ added } := by
  obtain ⟨rows,hins,h⟩ := Option.bind_eq_some_iff.1 h
  obtain ⟨-,hrows⟩ := insertBatch_some hins
  obtain ⟨added,hadded⟩ := insertRows_append s.rows batch
  have hids := insertRows_ids hd batch
  rw [hadded] at hrows hids
  subst hrows
  refine ⟨added,hids,?_⟩
  rw [← Option.some.inj h,List.drop_left]

theorem Store.Sound.grow (hs : s.Sound) (hpasses : t.passes = s.passes)
    (hlock : t.lock = s.lock) (hids : (t.rows.map Record.id).Nodup)
    (hrows : s.rows.map Record.entry ⊆ t.rows.map Record.entry) : t.Sound := by
  refine ⟨hids,?_,fun i doomed hi => ?_⟩
  · rw [hpasses,hlock]
    exact hs.lock
  · rw [hpasses] at hi
    obtain ⟨hnodup,hlive⟩ := hs.pending i doomed hi
    exact ⟨hnodup,fun d hd => hrows (hlive d hd)⟩

theorem Store.Sound.step {a : StoreAction} (hs : s.Sound) (h : s.step a = some t) : t.Sound := by
  cases a with
  | insert batch =>
    obtain ⟨added,hids,rfl⟩ := Store.insert_cases hs.ids h
    refine hs.grow rfl rfl hids ?_
    rw [List.map_append]
    exact List.subset_append_left _ _
  | score id score reason =>
    obtain rfl := Option.some.inj h
    obtain ⟨hids,hentries⟩ := setQualityScore_same s.rows id score reason
    refine hs.grow rfl rfl ?_ ?_
    · exact hids ▸ hs.ids
    · exact hentries ▸ List.Subset.refl _
  | sweep i now doomed fault => exact (Store.sweep_moved rfl h).sound hs

def Store.totals (s : Store) (w : DayKey → Bool) : Totals :=
  totalsOf (s.rows.filter fun r => w r.dayKey) + Summary.totals s.daily w

theorem Store.totals_commit (hs : s.Sound) (hp : Pending s.rows doomed) (w : DayKey → Bool) :
    (s.commit (rollUp s.daily doomed) doomed).totals w = s.totals w := by
  have hids : ((s.rows.map Record.entry).map Record.id).Nodup := by
    rw [List.map_map]
    exact hs.ids
  have hnodup : (doomed.map Record.entry).Nodup := by
    refine List.Nodup.of_map Record.id ?_
    rw [List.map_map]
    exact hp.nodup
  have hsplit := sweep_perm hids hnodup fun r hr => by
    obtain ⟨d,hd,rfl⟩ := List.mem_map.1 hr
    exact hp.live d hd
  have hleft : ((s.rows.map Record.entry).filter fun r =>
      decide (r.id ∉ (doomed.map Record.entry).map Record.id)) =
        (s.commit (rollUp s.daily doomed) doomed).rows.map Record.entry := by
    rw [List.filter_map,List.map_map]
    rfl
  rw [hleft] at hsplit
  have hsum := ((hsplit.filter fun r => w r.dayKey).map Record.totals).sum_eq
  rw [List.filter_append,List.map_append,List.sum_append] at hsum
  change totalsOf _ + totalsOf _ = totalsOf _ at hsum
  rw [totalsOf_entries,totalsOf_entries,totalsOf_entries] at hsum
  rw [Store.totals,Store.totals,← hsum,add_assoc]
  congr 1
  exact (rollUp_totals ..).trans (add_comm _ _)

theorem Store.Moved.totals {i : Nat} (h : s.Moved i t) (hs : s.Sound) (w : DayKey → Bool) :
    t.totals w = s.totals w ∧ t.inserted = s.inserted := by
  cases h with
  | commit hsnap => exact ⟨Store.totals_commit hs (hs.pending i _ hsnap) w,rfl⟩
  | _ => exact ⟨rfl,rfl⟩

/-- The tables hold what they held at the start, and the rows inserted since. -/
def Store.Conserves (start s : Store) : Prop :=
  ∀ w,s.totals w = start.totals w + totalsOf (s.inserted.filter fun r => w r.dayKey)

theorem Store.Conserves.step {start : Store} {a : StoreAction} (h : start.Conserves s)
    (hs : s.Sound) (hstep : s.step a = some t) : start.Conserves t := by
  intro w
  cases a with
  | insert batch =>
    obtain ⟨added,-,rfl⟩ := Store.insert_cases hs.ids hstep
    have hbefore := h w
    simp only [Store.totals,List.filter_append,totalsOf_append] at hbefore ⊢
    rw [add_right_comm,hbefore,add_assoc]
  | score id score reason =>
    obtain rfl := Option.some.inj hstep
    have hsame : totalsOf ((setQualityScore s.rows id score reason).filter fun r => w r.dayKey) =
        totalsOf (s.rows.filter fun r => w r.dayKey) := by
      rw [← totalsOf_entries,(setQualityScore_same ..).2,totalsOf_entries]
    rw [← h w]
    exact congrArg (· + Summary.totals s.daily w) hsame
  | sweep i now doomed fault =>
    obtain ⟨htotals,hinserted⟩ := (Store.sweep_moved rfl hstep).totals hs w
    rw [htotals,hinserted]
    exact h w

structure Store.Idle (s : Store) : Prop where
  ids : (s.rows.map Record.id).Nodup
  lock : s.lock = none
  passes : ∀ i,(s.passes i).2 = .start
  inserted : s.inserted = []

theorem Store.Idle.sound (h : s.Idle) : s.Sound := by
  refine ⟨h.ids,fun i hi => ?_,fun i doomed hi => ?_⟩
  · rw [h.passes i] at hi
    cases hi
  · rw [h.passes i] at hi
    cases hi

theorem Store.conserves_of_run {start : Store} {as : List StoreAction} (hidle : start.Idle)
    (hrun : Reaches Store.step (fun _ _ => True) start as s) : start.Conserves s := by
  have hstart : start.Sound ∧ start.Conserves start := by
    refine ⟨hidle.sound,fun w => ?_⟩
    rw [hidle.inserted]
    exact (add_zero _).symm
  exact (hrun.invariant (I := fun s => s.Sound ∧ start.Conserves s)
    (fun s a t hs _ hstep => ⟨hs.1.step hstep,hs.2.step hs.1 hstep⟩) hstart).2

section Balance

variable {κ M : Type} [AddCommMonoid M]

noncomputable def balance (l : List (κ × M)) : κ →₀ M :=
  (l.map fun e => Finsupp.single e.1 e.2).sum

theorem balance_apply [DecidableEq κ] (l : List (κ × M)) (k : κ) :
    balance l k = ((l.filter fun e => decide (e.1 = k)).map Prod.snd).sum := by
  induction l with
  | nil => rfl
  | cons e l ih =>
    have hcons : balance (e :: l) k = Finsupp.single e.1 e.2 k + balance l k := rfl
    rw [hcons,ih]
    by_cases hk : e.1 = k
    · simp [hk]
    · simp [hk,Finsupp.single_eq_of_ne' hk]

theorem balance_sum (l : List (κ × M)) (w : κ → Bool) :
    ((balance l).sum fun k v => if w k then v else 0) =
      ((l.filter fun e => w e.1).map Prod.snd).sum := by
  classical
  induction l with
  | nil => rfl
  | cons e l ih =>
    have hcons : balance (e :: l) = Finsupp.single e.1 e.2 + balance l := rfl
    rw [hcons,Finsupp.sum_add_index',Finsupp.sum_single_index,ih]
    · cases hw : w e.1 <;> simp [hw]
    · simp
    · simp
    · intro k v v'
      cases w k <;> simp

end Balance

theorem totals_eq_of_groups {l l' : Summary}
    (h : ∀ key,l.totals (fun k => decide (k = key)) = l'.totals fun k => decide (k = key))
    (w : DayKey → Bool) : l.totals w = l'.totals w := by
  have heq : balance l = balance l' := by
    ext key : 1
    rw [balance_apply,balance_apply]
    exact h key
  rw [Summary.totals,Summary.totals,← balance_sum,← balance_sum,heq]

theorem totals_rows (rows : List Record) (w : DayKey → Bool) :
    Summary.totals (rows.map fun r => (r.dayKey,r.totals)) w =
      totalsOf (rows.filter fun r => w r.dayKey) := by
  rw [Summary.totals,List.filter_map,List.map_map]
  rfl

def Store.group (s : Store) (key : DayKey) : Totals :=
  totalsOf (inGroup s.rows key) + Summary.totals s.daily fun k => decide (k = key)

def Store.Accounts (s : Store) (rows : List Record) : Prop :=
  ∀ key,s.group key = totalsOf (inGroup rows key)

theorem Store.Accounts.totals {rows : List Record} (h : s.Accounts rows) (w : DayKey → Bool) :
    s.totals w = totalsOf (rows.filter fun r => w r.dayKey) := by
  have hentries : ∀ w,s.totals w =
      Summary.totals ((s.rows.map fun r => (r.dayKey,r.totals)) ++ s.daily) w := by
    intro w
    rw [Store.totals,← totals_rows]
    simp only [Summary.totals,List.filter_append,List.map_append,List.sum_append]
  rw [hentries,← totals_rows]
  refine totals_eq_of_groups (fun key => ?_) w
  rw [← hentries,totals_rows]
  exact h key

def since (day : Int) (team : String) (key : DayKey) : Bool :=
  decide (day ≤ key.day ∧ key.teamID = team)

def midnight (day : Int) : Int := 86400000000000*day

theorem midnight_le (day micros : Int) : midnight day ≤ 1000*micros ↔ day ≤ micros/86400000000 := by
  unfold midnight
  omega

theorem midnight_micros (day : Int) : midnight day/1000 = 86400000000*day := by
  unfold midnight
  omega

def costSince (rows : List Record) (nanos : Int) (team : String) : Int :=
  ((rows.filter fun r => decide (nanos ≤ 1000*r.timestamp ∧ r.teamID = team)).map
    Record.costMicros).sum

theorem totals_cost (daily : Summary) (w : DayKey → Bool) :
    (Summary.totals daily w).costMicros =
      ((daily.filter fun e => w e.1).map fun e => e.2.costMicros).sum := by
  unfold Summary.totals
  induction daily.filter fun e => w e.1 with
  | nil => rfl
  | cons e l ih =>
    rw [List.map_cons,List.map_cons,List.sum_cons,List.sum_cons,← ih]
    rfl

theorem costSince_midnight (rows : List Record) (day : Int) (team : String) :
    costSince rows (midnight day) team =
      (totalsOf (rows.filter fun r => since day team r.dayKey)).costMicros := by
  rw [totalsOf_cost,costSince]
  congr 2
  apply List.filter_congr
  intro r _
  exact decide_eq_decide.2 (and_congr_left fun _ => midnight_le day r.timestamp)

/-- The query's rows of a team, from a midnight on, are the groups from that day on. -/
theorem spendRows_midnight (s : Store) (day : Int) (team : String) :
    (((spendRows s.rows s.daily (midnight day/1000)).filter fun e =>
      decide (e.1 = team)).map Prod.snd).sum = (s.totals (since day team)).costMicros := by
  have hrows : (((s.rows.filter fun r => decide (midnight day/1000 ≤ r.timestamp)).map fun r =>
      (r.teamID,r.costMicros)).filter fun e => decide (e.1 = team)).map Prod.snd =
        (s.rows.filter fun r => since day team r.dayKey).map Record.costMicros := by
    rw [List.filter_map,List.map_map,List.filter_filter]
    congr 1
    apply List.filter_congr
    intro r _
    have hday : midnight day/1000 ≤ r.timestamp ↔ day ≤ r.timestamp/86400000000 := by
      rw [midnight_micros]
      omega
    simp [since,Record.dayKey,hday,and_comm]
  have hdaily : (((s.daily.filter fun e => decide (midnight day/1000/86400000000 ≤ e.1.day)).map
      fun e => (e.1.teamID,e.2.costMicros)).filter fun e => decide (e.1 = team)).map Prod.snd =
        (s.daily.filter fun e => since day team e.1).map fun e => e.2.costMicros := by
    rw [List.filter_map,List.map_map,List.filter_filter]
    congr 1
    apply List.filter_congr
    intro e _
    have hday : midnight day/1000/86400000000 = day := by
      rw [midnight_micros]
      omega
    simp [since,hday,and_comm]
  rw [spendRows,List.filter_append,List.map_append,List.sum_append,hrows,hdaily,← totalsOf_cost,
    ← totals_cost]
  rfl

theorem lookup_sums_none {l : List (String × Int)} {team : String} (h : team ∉ l.map Prod.fst) :
    (sums l).lookup team = none := by
  refine List.lookup_eq_none_iff.2 fun e he => ?_
  obtain ⟨team',hteam',rfl⟩ := List.mem_map.1 he
  refine bne_iff_ne.2 fun heq => h ?_
  exact heq ▸ List.mem_dedup.1 hteam'

theorem lookup_sums (l : List (String × Int)) (team : String) :
    ((sums l).lookup team).getD 0 =
      ((l.filter fun e => decide (e.1 = team)).map Prod.snd).sum := by
  by_cases hteam : team ∈ l.map Prod.fst
  · rw [sums,List.lookup_graph _ (List.mem_dedup.2 hteam)]
    rfl
  · have hnone : l.filter (fun e => decide (e.1 = team)) = [] := by
      refine List.filter_eq_nil_iff.2 fun e he heq => hteam ?_
      exact of_decide_eq_true heq ▸ List.mem_map_of_mem he
    rw [lookup_sums_none hteam,hnone]
    rfl

theorem fits_sums (l : List (String × Int)) :
    ((sums l).all fun e => fitsInt 64 e.2) = true ↔
      ∀ team,fitsInt 64 (((sums l).lookup team).getD 0) = true := by
  constructor
  · intro h team
    by_cases hteam : team ∈ l.map Prod.fst
    · rw [lookup_sums]
      exact List.all_eq_true.1 h _ (List.mem_map_of_mem (List.mem_dedup.2 hteam))
    · rw [lookup_sums_none hteam]
      decide
  · intro h
    refine List.all_eq_true.2 fun e he => ?_
    obtain ⟨team,-,rfl⟩ := List.mem_map.1 he
    exact lookup_sums l team ▸ h team

/-- What `SpendByTeamSince` answers for these costs: exactly them, or an error when
one is no bigint. -/
structure Answers (res : Except ReadError (List (String × Int))) (cost : String → Int) : Prop where
  exactly : (∀ team,fitsInt 64 (cost team) = true) →
    ∃ out,res = .ok out ∧ ∀ team,(out.lookup team).getD 0 = cost team
  refused : (∃ team,fitsInt 64 (cost team) = false) →
    res = .error (.failed (spendTexts.rows ++ bigintRange))

theorem spend_answers {day : Int} {cost : String → Int}
    (hheld : timestamptz (midnight day) = some (midnight day/1000))
    (hcost : ∀ team,(s.totals (since day team)).costMicros = cost team) :
    Answers (spendByTeamSince s.rows s.daily (midnight day) none) cost := by
  have hlookup : ∀ team,((sums (spendRows s.rows s.daily (midnight day/1000))).lookup team).getD 0 =
      cost team := fun team => by rw [lookup_sums,spendRows_midnight,hcost]
  have hfits := fits_sums (spendRows s.rows s.daily (midnight day/1000))
  simp only [hlookup] at hfits
  constructor
  · intro hall
    refine ⟨_,?_,hlookup⟩
    simp only [spendByTeamSince,spendSQL,hheld,hfits.2 hall,if_true]
    exact runQuery_ok spendTexts _ (by simp [Arg.Taken,Arg.encodeError,Arg.serverError,hheld])
  · rintro ⟨team,hteam⟩
    have hno : ((sums (spendRows s.rows s.daily (midnight day/1000))).all fun e =>
        fitsInt 64 e.2) = false := by
      rw [Bool.eq_false_iff]
      intro hall
      exact absurd ((hfits.1 hall team).symm.trans hteam) (by decide)
    simp [spendByTeamSince,spendSQL,hheld,hno,runQuery,Arg.encodeError,Arg.serverError]

/-- Whatever inserts and sweeps, of any replicas, have run and wherever they were
interrupted: each group holds, in both tables together, what it held at the start
and the rows inserted since. If it held the rows inserted before, it holds all
rows ever inserted, and `SpendByTeamSince` a midnight answers what they cost. -/
theorem sweeps_conserve {start s : Store} {as : List StoreAction} (hidle : start.Idle)
    (hrun : Reaches Store.step (fun _ _ => True) start as s) :
    (∀ key,s.group key = start.group key + totalsOf (inGroup s.inserted key)) ∧
    ∀ past,start.Accounts past → s.Accounts (past ++ s.inserted) ∧
      ∀ day,timestamptz (midnight day) = some (midnight day/1000) →
        Answers (spendByTeamSince s.rows s.daily (midnight day) none)
          (costSince (past ++ s.inserted) (midnight day)) := by
  have hgroup : ∀ key,s.group key = start.group key + totalsOf (inGroup s.inserted key) :=
    fun key => Store.conserves_of_run hidle hrun fun k => decide (k = key)
  refine ⟨hgroup,fun past hpast => ?_⟩
  have hall : s.Accounts (past ++ s.inserted) := by
    intro key
    rw [hgroup,hpast,inGroup,inGroup,inGroup,List.filter_append,totalsOf_append]
  refine ⟨hall,fun day hheld => spend_answers hheld fun team => ?_⟩
  rw [costSince_midnight,hall.totals]

def emptyStore : Store where
  rows := []
  daily := []
  lock := none
  passes := fun _ => (⟨1,1,2⟩,.start)
  inserted := []

theorem emptyStore_idle : emptyStore.Idle := ⟨List.nodup_nil,rfl,fun _ => rfl,rfl⟩

/-- Two passes; a row of the day that is rolled up arrives, and the row being
rolled up gets a score, while the statement runs. -/
def lateRow : List StoreAction :=
  [.insert [loggedAt 5 "a"],.sweep 0 0 [] none,.sweep 1 0 [] none,.sweep 0 1000000 [] none,
    .sweep 1 1000000 [] none,.sweep 0 0 [loggedAt 5 "a"] none,.insert [loggedAt 6 "b"],
    .score "a" 90 "random",.sweep 0 0 [] none,.sweep 0 0 [loggedAt 6 "b"] none,
    .sweep 0 0 [] none]

theorem sweeps_conserve_late : ∃ s,
    Reaches Store.step (fun _ _ => True) emptyStore lateRow s ∧
      (s.rows = [] ∧ s.daily = [(⟨0,"t","p","m"⟩,⟨2,0,2,2,2,0,0⟩)]) ∧
      s.Accounts s.inserted ∧
      Answers (spendByTeamSince s.rows s.daily (midnight 0) none)
        (costSince s.inserted (midnight 0)) := by
  obtain ⟨s,hrun,htables⟩ : ∃ s,Reaches Store.step (fun _ _ => True) emptyStore lateRow s ∧
      (s.rows = [] ∧ s.daily = [(⟨0,"t","p","m"⟩,⟨2,0,2,2,2,0,0⟩)]) :=
    Reaches.exists_of_run (by decide +kernel)
  obtain ⟨-,hall⟩ := sweeps_conserve emptyStore_idle hrun
  obtain ⟨haccounts,hanswers⟩ := hall [] fun key => rfl
  exact ⟨s,hrun,htables,haccounts,hanswers 0 (by decide +kernel)⟩

def dearRows : List Record :=
  [{ loggedAt 5 "a" with costMicros := 9223372036854775807 },loggedAt 6 "b"]

/-- The sum over a team is cast to bigint, which fails. -/
theorem dear_team_refused : ∃ s,
    Reaches Store.step (fun _ _ => True) emptyStore [.insert dearRows] s ∧
      s.inserted = dearRows ∧ spendByTeamSince s.rows s.daily (midnight 0) none =
        .error (.failed ("reading request-log spend rows: " ++
          "ERROR: bigint out of range (SQLSTATE 22003)")) :=
  Reaches.exists_of_run (by decide +kernel)

end Switchyard.Logstore
