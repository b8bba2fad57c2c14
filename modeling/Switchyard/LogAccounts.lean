import Mathlib.Algebra.BigOperators.Group.List.Basic
import Mathlib.Data.List.Dedup
import Switchyard.RequestLog
set_option autoImplicit false

/-!
The request log as an account of what was served: when the table and the daily
summary hold each record once, and which records are missing from them.
-/

namespace Switchyard.Logstore
open StepRuns

instance : AddCommMonoid Totals where
  add_assoc a b c := by ext <;> exact Int.add_assoc ..
  zero_add a := by ext <;> exact Int.zero_add _
  add_zero a := by ext <;> exact Int.add_zero _
  add_comm a b := by ext <;> exact Int.add_comm ..
  nsmul := nsmulRec

def Summary.totals (daily : Summary) (w : DayKey → Bool) : Totals :=
  ((daily.filter fun e => w e.1).map Prod.snd).sum

theorem upsert_totals (daily : Summary) (key : DayKey) (t : Totals) (w : DayKey → Bool) :
    Summary.totals (upsert daily key t) w = Summary.totals daily w + if w key then t else 0 := by
  induction daily with
  | nil =>
    cases hw : w key with
    | true => simp [upsert,Summary.totals,hw]
    | false => simp [upsert,Summary.totals,hw]
  | cons e rest ih =>
    obtain ⟨key',t'⟩ := e
    by_cases hkey : key' = key
    · subst hkey
      cases hw : w key' with
      | true => simp [upsert,Summary.totals,hw,add_assoc,add_comm]
      | false => simp [upsert,Summary.totals,hw]
    · have hrest : upsert ((key',t') :: rest) key t = (key',t') :: upsert rest key t := by
        simp [upsert,hkey]
      rw [hrest]
      unfold Summary.totals at ih ⊢
      cases hw : w key' with
      | true => simp [hw,ih,add_assoc]
      | false => simp [hw,ih]

theorem upserts_totals (g : DayKey → Totals) (keys : List DayKey) (daily : Summary)
    (w : DayKey → Bool) :
    Summary.totals (keys.foldl (fun daily key => upsert daily key (g key)) daily) w =
      Summary.totals daily w + (keys.map fun key => if w key then g key else 0).sum := by
  induction keys generalizing daily with
  | nil => simp
  | cons key keys ih => rw [List.foldl_cons,ih,upsert_totals,List.map_cons,List.sum_cons,add_assoc]

theorem sum_single (keys : List DayKey) (hd : keys.Nodup) (key : DayKey) (hkey : key ∈ keys)
    (f : DayKey → Totals) : (keys.map fun k => if key = k then f k else 0).sum = f key := by
  induction keys with
  | nil => cases hkey
  | cons k keys ih =>
    obtain ⟨hnot,hd⟩ := List.nodup_cons.1 hd
    by_cases hk : key = k
    · subst hk
      have hrest : (keys.map fun k => if key = k then f k else 0) = keys.map fun _ => 0 := by
        apply List.map_congr_left
        intro k hk
        exact if_neg fun he : key = k => hnot (he ▸ hk)
      simp [hrest]
    · simp [hk,ih hd ((List.mem_cons.1 hkey).resolve_left hk)]

theorem groups_totals (rows : List Record) (keys : List DayKey) (hd : keys.Nodup)
    (hkeys : ∀ r ∈ rows,r.dayKey ∈ keys) (w : DayKey → Bool) :
    (keys.map fun key => if w key then
        totalsOf (rows.filter fun r => decide (r.dayKey = key)) else 0).sum =
      totalsOf (rows.filter fun r => w r.dayKey) := by
  induction rows with
  | nil => simp [totalsOf]
  | cons r rows ih =>
    have hsplit : ∀ key,(if w key then
          totalsOf ((r :: rows).filter fun r => decide (r.dayKey = key)) else 0) =
        (if r.dayKey = key then (if w key then r.totals else 0) else 0) +
          if w key then totalsOf (rows.filter fun r => decide (r.dayKey = key)) else 0 := by
      intro key
      by_cases hkey : r.dayKey = key
      · cases hw : w key with
        | true => simp [hkey,totalsOf]
        | false => simp
      · simp [hkey]
    rw [List.map_congr_left fun key _ => hsplit key,List.sum_map_add,
      ih fun r' hr' => hkeys r' (List.mem_cons_of_mem _ hr'),
      sum_single keys hd r.dayKey (hkeys r List.mem_cons_self)]
    cases hw : w r.dayKey with
    | true => simp [hw,totalsOf]
    | false => simp [hw]

theorem rollUp_totals (daily : Summary) (doomed : List Record) (w : DayKey → Bool) :
    Summary.totals (rollUp daily doomed) w =
      Summary.totals daily w + totalsOf (doomed.filter fun r => w r.dayKey) := by
  rw [rollUp,upserts_totals,groups_totals]
  · exact List.nodup_dedup _
  · intro r hr
    exact List.mem_dedup.2 (List.mem_map_of_mem hr)

def Record.entry (r : Record) : Record := { r with qualityScore := none, qualitySampleReason := "" }

/-- The table and the summary hold each of the records once: those in gone are
rolled up, and every set of groups has their totals; the others are rows. -/
def Logged (s : Log) (records : List Record) : Prop :=
  ∃ gone,(s.rows.map Record.entry ++ gone).Perm (records.map Record.entry) ∧
    ∀ w,Summary.totals s.daily w = totalsOf (gone.filter fun r => w r.dayKey)

def Log.count (s : Log) : Int :=
  s.rows.length + (Summary.totals s.daily fun _ => true).requests

theorem totalsOf_requests (rows : List Record) : (totalsOf rows).requests = rows.length := by
  induction rows with
  | nil => rfl
  | cons r rows ih =>
    have hsum : (totalsOf (r :: rows)).requests = 1 + (totalsOf rows).requests := rfl
    rw [hsum,ih,List.length_cons]
    omega

theorem totalsOf_cost (rows : List Record) :
    (totalsOf rows).costMicros = (rows.map Record.costMicros).sum := by
  induction rows with
  | nil => rfl
  | cons r rows ih =>
    have hsum : (totalsOf (r :: rows)).costMicros = r.costMicros + (totalsOf rows).costMicros := rfl
    rw [hsum,ih,List.map_cons,List.sum_cons]

theorem totalsOf_append (rows rows' : List Record) :
    totalsOf (rows ++ rows') = totalsOf rows + totalsOf rows' := by
  simp only [totalsOf,List.map_append,List.sum_append]

theorem totalsOf_entries (rows : List Record) (w : DayKey → Bool) :
    totalsOf ((rows.map Record.entry).filter fun r => w r.dayKey) =
      totalsOf (rows.filter fun r => w r.dayKey) := by
  rw [List.filter_map,totalsOf,List.map_map]
  rfl

variable {s : Log}

theorem Logged.count {records : List Record} (h : Logged s records) : s.count = records.length := by
  obtain ⟨gone,hperm,htotals⟩ := h
  have hlen := hperm.length_eq
  rw [List.length_append,List.length_map,List.length_map] at hlen
  rw [Log.count,htotals,totalsOf_requests]
  simp only [List.filter_true]
  omega

def Log.teamCost (s : Log) (teamID : String) : Int :=
  ((s.rows.filter fun r => decide (r.teamID = teamID)).map Record.costMicros).sum +
    (Summary.totals s.daily fun key => decide (key.teamID = teamID)).costMicros

theorem map_entry_cost (rows : List Record) (teamID : String) :
    (((rows.map Record.entry).filter fun r => decide (r.teamID = teamID)).map
      Record.costMicros) =
      (rows.filter fun r => decide (r.teamID = teamID)).map Record.costMicros := by
  induction rows with
  | nil => rfl
  | cons r rows ih =>
    by_cases hteam : r.teamID = teamID
    · simp only [List.map_cons,Record.entry,hteam,decide_true,List.filter_cons_of_pos]
      rw [← ih]
    · simp only [List.map_cons,Record.entry,hteam,decide_false,Bool.false_eq_true,
        not_false_eq_true,List.filter_cons_of_neg]
      rw [← ih]

theorem Logged.teamCost {records : List Record} (h : Logged s records) (teamID : String) :
    s.teamCost teamID =
      ((records.filter fun r => decide (r.teamID = teamID)).map Record.costMicros).sum := by
  obtain ⟨gone,hperm,htotals⟩ := h
  have hsum := ((hperm.filter fun r => decide (r.teamID = teamID)).map Record.costMicros).sum_eq
  rw [List.filter_append,List.map_append,List.sum_append,map_entry_cost,map_entry_cost] at hsum
  rw [Log.teamCost,htotals,totalsOf_cost]
  exact hsum

/-- No record of the batch meets a row of its ID, in the table or in the batch. -/
def Fresh (rows batch : List Record) : Prop :=
  (batch.map Record.id).Nodup ∧ ∀ r ∈ batch,r.id ∉ rows.map Record.id

@[simp] theorem stored_id (r : Record) : r.stored.id = r.id := rfl

@[simp] theorem stored_entry (r : Record) : r.stored.entry = r.entry := rfl

variable {rows : List Record}

theorem insertRow_ids (hd : (rows.map Record.id).Nodup) (r : Record) :
    ((insertRow rows r).map Record.id).Nodup := by
  unfold insertRow
  split
  · exact hd
  · rename_i hfree
    rw [List.map_append]
    apply hd.append (List.nodup_singleton _)
    intro id hid hid'
    obtain rfl := List.mem_singleton.1 hid'
    obtain ⟨row,hrow,heq⟩ := List.mem_map.1 hid
    exact hfree (List.any_eq_true.2 ⟨row,hrow,decide_eq_true heq⟩)

theorem insertRow_new {r : Record} (h : r.id ∉ rows.map Record.id) :
    insertRow rows r = rows ++ [r.stored] := by
  unfold insertRow
  split
  · rename_i hany
    obtain ⟨row,hrow,heq⟩ := List.any_eq_true.1 hany
    exact (h (of_decide_eq_true heq ▸ List.mem_map_of_mem hrow)).elim
  · rfl

theorem insertRow_old {r : Record} (h : r.id ∈ rows.map Record.id) : insertRow rows r = rows := by
  obtain ⟨row,hrow,heq⟩ := List.mem_map.1 h
  exact if_pos (List.any_eq_true.2 ⟨row,hrow,decide_eq_true heq⟩)

theorem insertRows_ids (hd : (rows.map Record.id).Nodup) (batch : List Record) :
    ((batch.foldl insertRow rows).map Record.id).Nodup := by
  induction batch generalizing rows with
  | nil => exact hd
  | cons r batch ih => exact ih (insertRow_ids hd r)

variable {batch : List Record}

theorem fresh_cons {r : Record} :
    Fresh rows (r :: batch) ↔
      r.id ∉ rows.map Record.id ∧ Fresh (rows ++ [r.stored]) batch := by
  simp only [Fresh,List.map_cons,List.nodup_cons,List.mem_cons,List.map_append,List.map_nil,
    stored_id,List.mem_append,List.not_mem_nil,or_false,not_or,forall_eq_or_imp]
  constructor
  · intro h
    exact ⟨h.2.1,h.1.2,fun r' hr' => ⟨h.2.2 r' hr',
      fun he => h.1.1 (he ▸ List.mem_map_of_mem hr')⟩⟩
  · intro h
    refine ⟨⟨?_,h.2.1⟩,h.1,fun r' hr' => (h.2.2 r' hr').1⟩
    intro hin
    obtain ⟨r',hr',heq⟩ := List.mem_map.1 hin
    exact (h.2.2 r' hr').2 heq

theorem insertRows_fresh (h : Fresh rows batch) :
    batch.foldl insertRow rows = rows ++ batch.map Record.stored := by
  induction batch generalizing rows with
  | nil => simp
  | cons r batch ih =>
    obtain ⟨hr,hrest⟩ := fresh_cons.1 h
    rw [List.foldl_cons,insertRow_new hr,ih hrest,List.append_assoc,List.map_cons,
      List.singleton_append]

theorem insertRows_length (rows batch : List Record) :
    (batch.foldl insertRow rows).length ≤ rows.length + batch.length ∧
      ((batch.foldl insertRow rows).length = rows.length + batch.length → Fresh rows batch) := by
  induction batch generalizing rows with
  | nil =>
    constructor
    · exact Nat.le_refl _
    · intro _
      exact ⟨List.nodup_nil,fun r hr => absurd hr List.not_mem_nil⟩
  | cons r batch ih =>
    rw [List.foldl_cons,List.length_cons]
    by_cases hr : r.id ∈ rows.map Record.id
    · rw [insertRow_old hr]
      obtain ⟨hle,-⟩ := ih rows
      exact ⟨by omega,fun heq => by omega⟩
    · rw [insertRow_new hr]
      obtain ⟨hle,heq⟩ := ih (rows ++ [r.stored])
      rw [List.length_append,List.length_singleton] at hle heq
      exact ⟨by omega,fun h => fresh_cons.2 ⟨hr,heq (by omega)⟩⟩

def LogAction.available : LogAction → Bool
  | .take down | .tick down | .stop down => !down
  | _ => true

/-- All a step does to the tables and the history, with the batch it sends. -/
inductive Change (s t : Log) : List Record → Prop where
  | still : t.rows = s.rows → t.daily = s.daily → t.settled = s.settled → Change s t []
  | sent {batch : List Record} : t.rows = (insertBatch s.rows batch).getD s.rows →
      t.daily = s.daily → t.settled = s.settled ++ batch → Change s t batch
  | scored (id : String) (score : Int) (reason : String) :
      t.rows = setQualityScore s.rows id score reason → t.daily = s.daily →
      t.settled = s.settled → Change s t []
  | swept {doomed : List Record} : doomed.Nodup → (∀ r ∈ doomed,r ∈ s.rows) →
      t.rows = (s.rows.filter fun r => decide (r.id ∉ doomed.map Record.id)) →
      t.daily = rollUp s.daily doomed → t.settled = s.settled → Change s t []

variable {t : Log}

theorem flush_change (hrows : t.rows = s.rows) (hdaily : t.daily = s.daily)
    (hsettled : t.settled = s.settled) (batch : List Record) :
    Change s (t.flush batch false) batch := by
  unfold Log.flush
  simp only [Bool.false_eq_true,if_false]
  cases hins : insertBatch t.rows batch with
  | none => exact .sent (by rw [← hrows,hins]; rfl) hdaily (congrArg (· ++ batch) hsettled)
  | some rows => exact .sent (by rw [← hrows,hins]; rfl) hdaily (congrArg (· ++ batch) hsettled)

theorem write_same (cfg : Config) (s : Log) (r : Record) : (s.write cfg r).rows = s.rows ∧
    (s.write cfg r).daily = s.daily ∧ (s.write cfg r).settled = s.settled := by
  unfold Log.write
  split <;> exact ⟨rfl,rfl,rfl⟩

theorem Log.step_change {cfg : Config} {a : LogAction} (h : s.step cfg a = some t)
    (ha : a.available = true) : Change s t (s.sends cfg a) := by
  cases a with
  | serve q =>
    simp only [step] at h
    split at h
    · cases h
      exact .still rfl rfl rfl
    · rename_i r _
      cases h
      obtain ⟨hrows,hdaily,hsettled⟩ := write_same cfg s r
      exact .still hrows hdaily hsettled
  | take down =>
    obtain rfl : down = false := by simpa [LogAction.available] using ha
    simp only [step] at h
    split at h
    · rename_i r queue _ hqueue
      cases h
      simp only [sends,hqueue]
      split
      · apply flush_change <;> rfl
      · exact .still rfl rfl rfl
    · cases h
  | tick down =>
    obtain rfl : down = false := by simpa [LogAction.available] using ha
    simp only [step] at h
    split at h
    · cases h
    · cases h
      apply flush_change <;> rfl
  | stop down =>
    obtain rfl : down = false := by simpa [LogAction.available] using ha
    simp only [step] at h
    split at h
    · cases h
    · cases h
      apply flush_change <;> rfl
  | score id score reason =>
    cases h
    exact .scored id score reason rfl rfl rfl
  | sweep cutoff limit doomed =>
    simp only [step] at h
    split at h
    · rename_i hsweep
      cases h
      simp only [sweepable,Bool.and_eq_true,decide_eq_true_eq,List.all_eq_true] at hsweep
      obtain ⟨⟨⟨hd,hmem⟩,-⟩,-⟩ := hsweep
      exact .swept hd (fun r hr => (List.mem_filter.1 (hmem r hr)).1) rfl rfl rfl
    · cases h

theorem setQualityScore_same (rows : List Record) (id : String) (score : Int) (reason : String) :
    (setQualityScore rows id score reason).map Record.id = rows.map Record.id ∧
      (setQualityScore rows id score reason).map Record.entry = rows.map Record.entry := by
  simp only [setQualityScore,List.map_map]
  constructor <;>
  · apply List.map_congr_left
    intro r _
    simp only [Function.comp_apply]
    split <;> rfl

theorem insertBatch_ids (hd : (rows.map Record.id).Nodup) (batch : List Record) :
    (((insertBatch rows batch).getD rows).map Record.id).Nodup := by
  unfold insertBatch
  split
  · exact insertRows_ids hd batch
  · exact hd

theorem Change.ids (h : Change s t batch) (hd : (s.rows.map Record.id).Nodup) :
    (t.rows.map Record.id).Nodup := by
  cases h with
  | still hrows => rwa [hrows]
  | sent hrows =>
    rw [hrows]
    exact insertBatch_ids hd batch
  | scored id score reason hrows => rwa [hrows,(setQualityScore_same ..).1]
  | swept _ _ hrows =>
    rw [hrows]
    exact hd.sublist (List.filter_sublist.map _)

theorem sweep_perm {doomed : List Record} (hd : (rows.map Record.id).Nodup)
    (hnodup : doomed.Nodup) (hmem : ∀ r ∈ doomed,r ∈ rows) :
    ((rows.filter fun r => decide (r.id ∉ doomed.map Record.id)) ++ doomed).Perm rows := by
  have hin : ∀ r ∈ rows,r.id ∈ doomed.map Record.id ↔ r ∈ doomed := by
    intro r hr
    constructor
    · intro hid
      obtain ⟨d,hdoomed,heq⟩ := List.mem_map.1 hid
      exact List.inj_on_of_nodup_map hd (hmem d hdoomed) hr heq ▸ hdoomed
    · exact List.mem_map_of_mem
  have htaken : (rows.filter fun r => decide (r.id ∈ doomed.map Record.id)).Perm doomed := by
    apply (List.perm_ext_iff_of_nodup (hd.of_map.filter _) hnodup).2
    intro r
    constructor
    · intro hr
      obtain ⟨hrow,hid⟩ := List.mem_filter.1 hr
      exact (hin r hrow).1 (of_decide_eq_true hid)
    · intro hr
      exact List.mem_filter.2 ⟨hmem r hr,decide_eq_true (List.mem_map_of_mem hr)⟩
  have hsplit := List.filter_append_perm (fun r => decide (r.id ∈ doomed.map Record.id)) rows
  refine (List.perm_append_comm.trans (htaken.symm.append_right _)).trans ?_
  simpa only [decide_not] using hsplit

/-- A batch that is stored whole, or of which nothing could be stored. -/
def Clean (rows batch : List Record) : Prop :=
  (∀ r ∈ batch,r.storable = true) ∧ Fresh rows batch ∨ ∀ r ∈ batch,r.storable = false

def Log.debt (s : Log) : Int := (s.settled.filter Record.storable).length - s.count

theorem insertBatch_none (h : insertBatch rows batch = none) : ∃ r ∈ batch,r.storable = false := by
  unfold insertBatch at h
  split at h
  · cases h
  · rename_i hall
    simpa using hall

theorem insertBatch_some {rows' : List Record} (h : insertBatch rows batch = some rows') :
    (∀ r ∈ batch,r.storable = true) ∧ rows' = batch.foldl insertRow rows := by
  unfold insertBatch at h
  split at h
  · rename_i hall
    cases h
    exact ⟨List.all_eq_true.1 hall,rfl⟩
  · cases h

theorem setQualityScore_length (rows : List Record) (id : String) (score : Int) (reason : String) :
    (setQualityScore rows id score reason).length = rows.length := List.length_map ..

theorem Change.count (h : Change s t batch) (hd : (s.rows.map Record.id).Nodup) :
    t.count = s.count + (((insertBatch s.rows batch).getD s.rows).length - s.rows.length) := by
  cases h with
  | still hrows hdaily =>
    simp only [Log.count,hrows,hdaily,insertBatch,List.all_nil,if_true,List.foldl_nil,
      Option.getD_some]
    omega
  | sent hrows hdaily =>
    simp only [Log.count,hrows,hdaily]
    omega
  | scored id score reason hrows hdaily =>
    simp only [Log.count,hrows,hdaily,setQualityScore_length,insertBatch,List.all_nil,if_true,
      List.foldl_nil,Option.getD_some]
    omega
  | @swept doomed hnodup hmem hrows hdaily =>
    have hlen := (sweep_perm hd hnodup hmem).length_eq
    rw [List.length_append] at hlen
    have hsum : (Summary.totals (rollUp s.daily doomed) fun _ => true).requests =
        (Summary.totals s.daily fun _ => true).requests + doomed.length := by
      rw [rollUp_totals,List.filter_true,← totalsOf_requests]
      rfl
    simp only [Log.count,hrows,hdaily,hsum,insertBatch,List.all_nil,if_true,List.foldl_nil,
      Option.getD_some]
    omega

theorem Change.settled (h : Change s t batch) : t.settled = s.settled ++ batch := by
  cases h with
  | still _ _ hsettled => rw [hsettled,List.append_nil]
  | sent _ _ hsettled => exact hsettled
  | scored _ _ _ _ _ hsettled => rw [hsettled,List.append_nil]
  | swept _ _ _ _ hsettled => rw [hsettled,List.append_nil]

/-- The debt never shrinks, and it stays the same only over clean batches. -/
theorem Change.debt (h : Change s t batch) (hd : (s.rows.map Record.id).Nodup) :
    s.debt ≤ t.debt ∧ (t.debt = s.debt → Clean s.rows batch) := by
  have hcount := h.count hd
  simp only [Log.debt,h.settled,List.filter_append,List.length_append]
  cases hins : insertBatch s.rows batch with
  | none =>
    rw [hins] at hcount
    simp only [Option.getD_none] at hcount
    constructor
    · omega
    · intro heq
      have hnil : (batch.filter Record.storable).length = 0 := by omega
      right
      intro r hr
      by_contra hyes
      have hin : r ∈ batch.filter Record.storable := List.mem_filter.2 ⟨hr,by simpa using hyes⟩
      rw [List.length_eq_zero_iff.1 hnil] at hin
      cases hin
  | some rows =>
    rw [hins] at hcount
    simp only [Option.getD_some] at hcount
    obtain ⟨hall,rfl⟩ := insertBatch_some hins
    obtain ⟨hle,hfresh⟩ := insertRows_length s.rows batch
    rw [List.filter_eq_self.2 hall]
    constructor
    · omega
    · intro heq
      exact .inl ⟨hall,hfresh (by omega)⟩

theorem fresh_of_clean (h : Clean rows batch) (hall : ∀ r ∈ batch,r.storable = true) :
    Fresh rows batch := by
  cases h with
  | inl hyes => exact hyes.2
  | inr hnone =>
    cases batch with
    | nil => exact ⟨List.nodup_nil,fun r hr => absurd hr List.not_mem_nil⟩
    | cons r rest =>
      have hr : r ∈ r :: rest := List.mem_cons_self
      exact absurd ((hall r hr).symm.trans (hnone r hr)) (by decide)

theorem Change.logged (h : Change s t batch) (hd : (s.rows.map Record.id).Nodup)
    (hclean : Clean s.rows batch) (hlog : Logged s (s.settled.filter Record.storable)) :
    Logged t (t.settled.filter Record.storable) := by
  obtain ⟨gone,hperm,htotals⟩ := hlog
  cases h with
  | still hrows hdaily hsettled => exact ⟨gone,by rwa [hrows,hsettled],by rwa [hdaily]⟩
  | scored id score reason hrows hdaily hsettled =>
    exact ⟨gone,by rwa [hrows,hsettled,(setQualityScore_same ..).2],by rwa [hdaily]⟩
  | sent hrows hdaily hsettled =>
    refine ⟨gone,?_,by rwa [hdaily]⟩
    rw [hsettled,List.filter_append,List.map_append]
    cases hins : insertBatch s.rows batch with
    | some rows =>
      obtain ⟨hall,hinserted⟩ := insertBatch_some hins
      have hfresh := fresh_of_clean hclean hall
      have hentries : (batch.map Record.stored).map Record.entry = batch.map Record.entry := by
        rw [List.map_map]
        rfl
      rw [hrows,hins,Option.getD_some,hinserted,insertRows_fresh hfresh,List.map_append,hentries,
        List.filter_eq_self.2 hall,List.append_assoc]
      exact (List.Perm.append_left _ List.perm_append_comm).trans
        ((List.append_assoc ..).symm ▸ hperm.append_right _)
    | none =>
      obtain ⟨r,hr,hno⟩ := insertBatch_none hins
      have hnil : batch.filter Record.storable = [] := by
        cases hclean with
        | inl hyes => exact absurd ((hyes.1 r hr).symm.trans hno) (by decide)
        | inr hnone => exact List.filter_eq_nil_iff.2 fun r hr => by simp [hnone r hr]
      rw [hrows,hins,Option.getD_none,hnil,List.map_nil,List.append_nil]
      exact hperm
  | @swept doomed hnodup hmem hrows hdaily hsettled =>
    refine ⟨gone ++ doomed.map Record.entry,?_,?_⟩
    · rw [hrows,hsettled]
      have hsplit := (sweep_perm hd hnodup hmem).map Record.entry
      rw [List.map_append] at hsplit
      refine List.Perm.trans ?_ hperm
      refine List.Perm.trans ?_ (hsplit.append_right gone)
      rw [List.append_assoc]
      exact List.Perm.append_left _ List.perm_append_comm
    · intro w
      rw [hdaily,rollUp_totals,htotals,List.filter_append,totalsOf_append,totalsOf_entries]

theorem start_logged : Logged Log.start (Log.start.settled.filter Record.storable) :=
  ⟨[],List.Perm.refl _,fun _ => rfl⟩

def Log.Settles (cfg : Config) (s : Log) (a : LogAction) : Prop := Clean s.rows (s.sends cfg a)

theorem reaches_debt {cfg : Config} {ok : Log → LogAction → Prop} {as : List LogAction}
    (hok : ∀ s a,ok s a → a.available = true) (h : Reaches (Log.step cfg) ok s as t)
    (hd : (s.rows.map Record.id).Nodup) :
    s.debt ≤ t.debt ∧ (t.debt = s.debt →
      Reaches (Log.step cfg) (fun s a => ok s a ∧ s.Settles cfg a) s as t) := by
  induction h with
  | stop s => exact ⟨Int.le_refl _,fun _ => .stop s⟩
  | next ha hstep _ ih =>
    have hchange := Log.step_change hstep (hok _ _ ha)
    obtain ⟨hle,hclean⟩ := hchange.debt hd
    obtain ⟨hrest,hruns⟩ := ih (hchange.ids hd)
    exact ⟨Int.le_trans hle hrest,fun heq => .next ⟨ha,hclean (by omega)⟩ hstep (hruns (by omega))⟩

/-- Over a run whose batches find the database, the log is exact for the storable
records sent if and only if every batch was clean. -/
theorem logged_iff_settles {cfg : Config} {ok : Log → LogAction → Prop} {as : List LogAction}
    (hok : ∀ s a,ok s a → a.available = true) (h : Reaches (Log.step cfg) ok Log.start as s) :
    Logged s (s.settled.filter Record.storable) ↔
      Reaches (Log.step cfg) (fun s a => ok s a ∧ s.Settles cfg a) Log.start as s := by
  constructor
  · intro hlog
    have hzero : s.debt = Log.start.debt := by
      rw [Log.debt,hlog.count,Int.sub_self]
      rfl
    exact (reaches_debt hok h List.nodup_nil).2 hzero
  · intro hrun
    have hend := hrun.invariant (I := fun s => (s.rows.map Record.id).Nodup ∧
      Logged s (s.settled.filter Record.storable)) ?_ ⟨List.nodup_nil,start_logged⟩
    · exact hend.2
    · intro s a t hs ha hstep
      have hchange := Log.step_change hstep (hok s a ha.1)
      exact ⟨hchange.ids hs.1,hchange.logged hs.1 ha.2 hs.2⟩

end Switchyard.Logstore
