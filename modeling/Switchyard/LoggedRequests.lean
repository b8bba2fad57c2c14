import Switchyard.LogAccounts
set_option autoImplicit false

/-!
What the request log says of the requests served: one row for each, as long as
no two share an ID and no batch mixes rows Postgres takes with one it refuses.
-/

namespace Switchyard.Logstore
open StepRuns

def LogAction.records : LogAction → List Record
  | .serve q => q.record.toList
  | _ => []

def requestRecords (as : List LogAction) : List Record := as.flatMap LogAction.records

/-- Nothing is dropped by the queue and the batch of the step is written. -/
def Smooth (cfg : Config) (s : Log) (a : LogAction) : Bool :=
  a.available && (s.sends cfg a).all Record.storable &&
    (a.records.isEmpty || decide (s.queue.length < cfg.queueSize))

variable {cfg : Config} {s : Log} {a : LogAction}

theorem smooth_available (h : Smooth cfg s a = true) : a.available = true := by
  simp only [Smooth,Bool.and_eq_true] at h
  exact h.1.1

theorem smooth_storable (h : Smooth cfg s a = true) : ∀ r ∈ s.sends cfg a,r.storable = true := by
  simp only [Smooth,Bool.and_eq_true] at h
  exact List.all_eq_true.1 h.1.2

def Log.taken (s : Log) : List Record := s.settled ++ (s.batch ++ s.queue)

theorem flush_taken (s : Log) (batch : List Record) (down : Bool) :
    (s.flush batch down).taken = s.settled ++ (batch ++ s.queue) := by
  unfold Log.flush
  cases down with
  | true => simp [Log.taken]
  | false =>
    simp only [Bool.false_eq_true,if_false]
    split <;> simp [Log.taken]

theorem step_taken {t : Log} (h : s.step cfg a = some t) (hsmooth : Smooth cfg s a = true) :
    t.taken = s.taken ++ a.records := by
  cases a with
  | serve q =>
    simp only [Log.step] at h
    split at h
    · rename_i hq
      cases h
      simp [LogAction.records,hq]
    · rename_i r hq
      cases h
      have hroom : s.queue.length < cfg.queueSize := by
        simpa [Smooth,LogAction.records,hq,LogAction.available,Log.sends] using hsmooth
      simp [LogAction.records,hq,Log.write,hroom,Log.taken]
  | take down =>
    simp only [Log.step] at h
    split at h
    · rename_i r queue _ hqueue
      cases h
      split
      · rw [flush_taken]
        simp [Log.taken,hqueue,LogAction.records]
      · simp [Log.taken,hqueue,LogAction.records]
    · cases h
  | tick down =>
    simp only [Log.step] at h
    split at h
    · cases h
    · cases h
      rw [flush_taken]
      simp [Log.taken,LogAction.records]
  | stop down =>
    simp only [Log.step] at h
    split at h
    · cases h
    · cases h
      rw [flush_taken]
      simp [Log.taken,LogAction.records]
  | score id score reason =>
    cases h
    simp [Log.taken,LogAction.records]
  | sweep cutoff limit doomed =>
    simp only [Log.step] at h
    split at h
    · cases h
      simp [Log.taken,LogAction.records]
    · cases h

theorem reaches_taken {t : Log} {as : List LogAction}
    (h : Reaches (Log.step cfg) (fun s a => Smooth cfg s a = true) s as t) :
    t.taken = s.taken ++ requestRecords as := by
  induction h with
  | stop s => simp [requestRecords]
  | next hok hstep _ ih =>
    rw [ih,step_taken hstep hok]
    simp [requestRecords]

theorem reaches_storable {t : Log} {as : List LogAction}
    (h : Reaches (Log.step cfg) (fun s a => Smooth cfg s a = true) s as t)
    (hs : ∀ r ∈ s.settled,r.storable = true) : ∀ r ∈ t.settled,r.storable = true := by
  apply h.invariant (I := fun s => ∀ r ∈ s.settled,r.storable = true) ?_ hs
  intro s a t hs hok hstep r hr
  rw [(Log.step_change hstep (smooth_available hok)).settled] at hr
  exact (List.mem_append.1 hr).elim (hs r) (smooth_storable hok r)

instance (rows batch : List Record) : Decidable (Fresh rows batch) :=
  inferInstanceAs (Decidable (_ ∧ _))

/-- The log holds each request once, and shows each team the cost of its own. -/
def Exact (s : Log) (records : List Record) : Prop :=
  Logged s records ∧ ∀ teamID,s.teamCost teamID =
    ((records.filter fun r => decide (r.teamID = teamID)).map Record.costMicros).sum

def Sourced (s : Log) : Prop := ∀ row ∈ s.rows,row.id ∈ s.settled.map Record.id

theorem insertRows_sourced {rows batch : List Record} {row : Record}
    (h : row ∈ batch.foldl insertRow rows) :
    row.id ∈ rows.map Record.id ∨ row.id ∈ batch.map Record.id := by
  induction batch generalizing rows with
  | nil => exact .inl (List.mem_map_of_mem h)
  | cons r batch ih =>
    rw [List.map_cons]
    cases ih h with
    | inr hrest => exact .inr (List.mem_cons_of_mem _ hrest)
    | inl hrow =>
      by_cases hr : r.id ∈ rows.map Record.id
      · rw [insertRow_old hr] at hrow
        exact .inl hrow
      · rw [insertRow_new hr,List.map_append] at hrow
        cases List.mem_append.1 hrow with
        | inl hold => exact .inl hold
        | inr hnew => exact .inr (List.mem_singleton.1 hnew ▸ List.mem_cons_self)

theorem Change.sourced {t : Log} {batch : List Record} (h : Change s t batch) (hs : Sourced s) :
    Sourced t := by
  intro row hrow
  rw [h.settled,List.map_append]
  have hold : row.id ∈ s.rows.map Record.id → row.id ∈ s.settled.map Record.id := by
    intro hid
    obtain ⟨r,hr,heq⟩ := List.mem_map.1 hid
    exact heq ▸ hs r hr
  cases h with
  | still hrows => exact List.mem_append_left _ (hs row (hrows ▸ hrow))
  | sent hrows =>
    rw [hrows] at hrow
    cases hins : insertBatch s.rows batch with
    | none =>
      rw [hins] at hrow
      exact List.mem_append_left _ (hs row hrow)
    | some rows =>
      rw [hins,Option.getD_some,(insertBatch_some hins).2] at hrow
      exact List.mem_append.2 ((insertRows_sourced hrow).imp_left hold)
  | scored id score reason hrows =>
    have hid : row.id ∈ (setQualityScore s.rows id score reason).map Record.id :=
      hrows ▸ List.mem_map_of_mem hrow
    rw [(setQualityScore_same ..).1] at hid
    exact List.mem_append_left _ (hold hid)
  | swept _ _ hrows =>
    rw [hrows] at hrow
    exact List.mem_append_left _ (hs row (List.mem_filter.1 hrow).1)

theorem sends_pending (cfg : Config) (s : Log) (a : LogAction) :
    (s.sends cfg a).Sublist (s.batch ++ s.queue) := by
  cases a with
  | take down =>
    simp only [Log.sends]
    split
    · rename_i r queue hqueue
      split
      · rw [hqueue]
        exact List.Sublist.append_left (List.Sublist.cons_cons r (List.nil_sublist queue)) s.batch
      · exact List.nil_sublist _
    · exact List.nil_sublist _
  | tick down => exact List.sublist_append_left _ _
  | stop down => exact List.Sublist.refl _
  | _ => exact List.nil_sublist _

theorem fresh_of_distinct (hs : Sourced s) (hd : (s.taken.map Record.id).Nodup) :
    Fresh s.rows (s.sends cfg a) := by
  rw [Log.taken,List.map_append] at hd
  obtain ⟨-,hpending,hdisjoint⟩ := List.nodup_append'.1 hd
  have hsub := (sends_pending cfg s a).map Record.id
  refine ⟨hpending.sublist hsub,?_⟩
  intro r hr hid
  obtain ⟨row,hrow,heq⟩ := List.mem_map.1 hid
  exact hdisjoint (heq ▸ hs row hrow) (hsub.subset (List.mem_map_of_mem hr))

theorem reaches_fresh {t : Log} {as : List LogAction}
    (h : Reaches (Log.step cfg) (fun s a => Smooth cfg s a = true) s as t) (hs : Sourced s)
    (hd : ((s.taken ++ requestRecords as).map Record.id).Nodup) :
    Reaches (Log.step cfg) (fun s a => Smooth cfg s a = true ∧ Fresh s.rows (s.sends cfg a))
      s as t := by
  induction h with
  | stop s => exact .stop s
  | next hok hstep _ ih =>
    have hnow := hd
    rw [List.map_append] at hnow
    refine .next ⟨hok,fresh_of_distinct hs (List.nodup_append'.1 hnow).1⟩ hstep (ih ?_ ?_)
    · exact (Log.step_change hstep (smooth_available hok)).sourced hs
    · rw [step_taken hstep hok,List.append_assoc]
      exact hd

def costing (header teamID : String) (start cost : Int) : Served :=
  ⟨header,"0123456789abcdef",teamID,start,200,"",
    { Proxy.Metrics.zero with requestedModel := "m", servedModel := "m", providerName := "p"
                              costMicros := cost }⟩

def defaults : Config := (⟨0,0⟩ : Config).withDefaults

def twoTeams : List LogAction :=
  [.serve (costing "a-1" "a" 0 5),.serve (costing "b-1" "b" 10 7),.take false,.take false,
    .tick false,.sweep 5 100 ((costing "a-1" "a" 0 5).record.toList)]

def sharedID : List LogAction :=
  [.serve (costing "x" "b" 0 5),.serve (costing "x" "a" 10 7),.take false,.take false,.tick false]

/-- For every grouping into batches, the storable records that were sent are in
the log exactly when each batch was stored whole or had nothing to store. -/
theorem storable_logged_iff (cfg : Config) (as : List LogAction) (s : Log)
    (h : Reaches (Log.step cfg) (fun _ a => a.available = true) Log.start as s) :
    Logged s (s.settled.filter Record.storable) ↔
      Reaches (Log.step cfg) (fun s a => a.available = true ∧ Clean s.rows (s.sends cfg a))
        Log.start as s := logged_iff_settles (fun _ _ ha => ha) h

def nulModel : Served :=
  ⟨"n","0123456789abcdef","b",0,403,"",{ Proxy.Metrics.zero with requestedModel := "m\x00" }⟩

def apartBatches : List LogAction :=
  [.serve nulModel,.take false,.tick false,.serve (costing "a-1" "a" 10 7),.take false,.tick false]

instance (rows batch : List Record) : Decidable (Clean rows batch) :=
  inferInstanceAs (Decidable (_ ∨ _))

theorem storable_logged_iff_apart :
    ∃ s,Reaches (Log.step defaults) (fun _ a => a.available = true) Log.start apartBatches s ∧
      s.rows.length = 1 ∧ Logged s (s.settled.filter Record.storable) := by
  obtain ⟨s,hclean,hrows⟩ : ∃ s,Reaches (Log.step defaults) (fun s a => a.available = true ∧
      Clean s.rows (s.sends defaults a)) Log.start apartBatches s ∧ s.rows.length = 1 :=
    Reaches.exists_of_run (by decide +kernel)
  have hreach := hclean.mono fun _ _ ha => ha.1
  exact ⟨s,hreach,hrows,(storable_logged_iff defaults apartBatches s hreach).2 hclean⟩

def mixedBatch : List LogAction :=
  [.serve nulModel,.serve (costing "a-1" "a" 10 7),.take false,.take false,.tick false]

theorem mixed_batch_lost :
    ∃ s,Reaches (Log.step defaults) (fun _ a => a.available = true) Log.start mixedBatch s ∧
      s.queue = [] ∧ s.batch = [] ∧ s.rows = [] ∧ s.daily = [] ∧
      (s.settled.filter Record.storable).map Record.teamID = ["a"] ∧
      ¬Logged s (s.settled.filter Record.storable) := by
  obtain ⟨s,hreach,hqueue,hbatch,hrows,hdaily,hteams⟩ : ∃ s,Reaches (Log.step defaults)
      (fun _ a => a.available = true) Log.start mixedBatch s ∧ s.queue = [] ∧ s.batch = [] ∧
      s.rows = [] ∧ s.daily = [] ∧ (s.settled.filter Record.storable).map Record.teamID = ["a"] :=
    Reaches.exists_of_run (by decide +kernel)
  refine ⟨s,hreach,hqueue,hbatch,hrows,hdaily,hteams,?_⟩
  intro hlog
  have hone := congrArg List.length hteams
  rw [List.length_map] at hone
  have hcount := hlog.count
  rw [hone,Log.count,hrows,hdaily] at hcount
  exact absurd hcount (by decide)

end Switchyard.Logstore
