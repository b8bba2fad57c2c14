import Mathlib.Data.List.Nodup
import Switchyard.RequestLog
set_option autoImplicit false

/-!
Quality scores on the request log (internal/proxy/quality.go,
internal/quality/worker.go). A record waits in the writer and a sample in the
worker; each may get to the database at any time after its request, or never.
-/

namespace Switchyard.Quality
open StepRuns Logstore

inductive Reason where
  | flagged
  | downgraded
  | nearThreshold
  | routedSample
  deriving DecidableEq, Repr

def Reason.text : Reason → String
  | .flagged => "flagged"
  | .downgraded => "downgraded"
  | .nearThreshold => "near_threshold_cache_hit"
  | .routedSample => "routed_sample"

structure Sample where
  requestID : String
  teamID : String
  model : String
  provider : String
  reason : Reason
  prompt : List Provider.Message
  response : String
  deriving DecidableEq, Repr

/-- What the handler hands to `considerQuality`; decision is what `Decide` says. -/
structure Finished where
  servedModel : String
  servedProvider : String
  prompt : List Provider.Message
  response : String
  decision : Option Reason
  deriving DecidableEq, Repr

def considerQuality (q : Served) (c : Finished) : Option Sample :=
  if c.response = "" ∨ q.teamID = "" then none
  else c.decision.map fun reason =>
    ⟨q.requestID,q.teamID,c.servedModel,c.servedProvider,reason,c.prompt,c.response⟩

/-- Which request: the team's own count of them. Not program state. -/
structure Label where
  teamID : String
  number : Nat
  deriving DecidableEq, Repr

/-- A row, with the request it describes and the one whose response its score was
computed from. -/
structure Row where
  label : Label
  record : Record
  scoredFrom : Option Label
  deriving DecidableEq, Repr

/-- `issued` are the IDs that requests had; no step of the gateway reads it. -/
structure Scoring where
  issued : List (Label × String)
  pending : List (Label × Record)
  samples : List (Label × Sample)
  rows : List Row
  deriving DecidableEq, Repr

/-- `lose` is a record that is dropped or whose batch fails, `discard` a sample
that is dropped or not graded, `retire` the retention sweep. -/
inductive Event where
  | serve (q : Served) (c : Finished)
  | insert
  | lose
  | finish (score : Int)
  | discard
  | retire
  deriving DecidableEq, Repr

structure Action where
  label : Label
  event : Event
  deriving DecidableEq, Repr

def Row.score (n : Label) (sample : Sample) (score : Int) (row : Row) : Row :=
  if row.record.id = sample.requestID then
    { row with
      record := { row.record with
        qualityScore := some score, qualitySampleReason := sample.reason.text }
      scoredFrom := some n }
  else row

def Scoring.step (s : Scoring) (a : Action) : Option Scoring :=
  match a.event with
  | .serve q c =>
    match q.record with
    | none => none
    | some r =>
      if q.teamID = a.label.teamID ∧ s.issued.all (fun e => decide (e.1 ≠ a.label)) then
        some { s with
          issued := s.issued ++ [(a.label,q.requestID)]
          pending := s.pending ++ [(a.label,r)]
          samples := s.samples ++ (considerQuality q c).toList.map fun sample => (a.label,sample) }
      else none
  | .insert =>
    match s.pending.find? fun e => decide (e.1 = a.label) with
    | none => none
    | some e => some { s with
        pending := s.pending.filter fun e => decide (e.1 ≠ a.label)
        rows := if s.rows.any fun row => decide (row.record.id = e.2.id) then s.rows
          else s.rows ++ [⟨a.label,e.2.stored,none⟩] }
  | .lose => some { s with pending := s.pending.filter fun e => decide (e.1 ≠ a.label) }
  | .finish score =>
    match s.samples.find? fun e => decide (e.1 = a.label) with
    | none => none
    | some e => some { s with
        samples := s.samples.filter fun e => decide (e.1 ≠ a.label)
        rows := s.rows.map (Row.score a.label e.2 score) }
  | .discard => some { s with samples := s.samples.filter fun e => decide (e.1 ≠ a.label) }
  | .retire => some { s with rows := s.rows.filter fun row => decide (row.label ≠ a.label) }

def Scoring.start : Scoring := ⟨[],[],[],[]⟩

def FreshID (s : Scoring) (a : Action) : Bool :=
  match a.event with
  | .serve q _ => s.issued.all fun e => decide (e.2 ≠ q.requestID)
  | _ => true

def Attributed (s : Scoring) : Prop := ∀ row ∈ s.rows,∀ m ∈ row.scoredFrom,m = row.label

/-- IDs belong to one request each, and all that is kept of a request has its ID. -/
structure Sound (s : Scoring) : Prop where
  once : ∀ e ∈ s.issued,∀ e' ∈ s.issued,e.2 = e'.2 → e.1 = e'.1
  pending : ∀ e ∈ s.pending,(e.1,e.2.id) ∈ s.issued
  samples : ∀ e ∈ s.samples,(e.1,e.2.requestID) ∈ s.issued
  rows : ∀ row ∈ s.rows,(row.label,row.record.id) ∈ s.issued

theorem find_label {β : Type} {l : List (Label × β)} {n : Label} {e : Label × β}
    (h : l.find? (fun e => decide (e.1 = n)) = some e) : e ∈ l ∧ e.1 = n :=
  ⟨List.mem_of_find?_eq_some h,by simpa using List.find?_some h⟩

theorem Row.score_label (n : Label) (sample : Sample) (score : Int) (row : Row) :
    (row.score n sample score).label = row.label := by
  unfold Row.score
  split <;> rfl

theorem Row.score_id (n : Label) (sample : Sample) (score : Int) (row : Row) :
    (row.score n sample score).record.id = row.record.id := by
  unfold Row.score
  split <;> rfl

variable {s : Scoring}

theorem Sound.label_of_id (hs : Sound s) {e : Label × Sample} (he : e ∈ s.samples)
    {row : Row} (hrow : row ∈ s.rows) (hid : row.record.id = e.2.requestID) : row.label = e.1 :=
  hs.once _ (hs.rows row hrow) _ (hs.samples e he) hid

theorem record_requestID {q : Served} {r : Record} (h : q.record = some r) :
    r.id = q.requestID := by
  unfold Served.record at h
  split at h
  · cases h
  · cases h
    rfl

theorem considerQuality_id {q : Served} {c : Finished} {sample : Sample}
    (h : considerQuality q c = some sample) : sample.requestID = q.requestID := by
  unfold considerQuality at h
  split at h
  · cases h
  · obtain ⟨reason,-,rfl⟩ := Option.map_eq_some_iff.1 h
    rfl

theorem Sound.step {t : Scoring} {a : Action} (hs : Sound s) (hok : FreshID s a = true)
    (h : s.step a = some t) : Sound t := by
  unfold Scoring.step at h
  cases he : a.event with
  | serve q c =>
    simp only [he] at h
    split at h
    · cases h
    · rename_i r hr
      split at h
      · cases h
        have hnew : ∀ e ∈ s.issued,e.2 ≠ q.requestID := by
          simpa [FreshID,he] using hok
        constructor
        · intro e hmem e' hmem' heq
          cases List.mem_append.1 hmem with
          | inl hold =>
            cases List.mem_append.1 hmem' with
            | inl hold' => exact hs.once e hold e' hold' heq
            | inr hlast =>
              obtain rfl := List.mem_singleton.1 hlast
              exact (hnew e hold heq).elim
          | inr hlast =>
            obtain rfl := List.mem_singleton.1 hlast
            cases List.mem_append.1 hmem' with
            | inl hold' => exact (hnew e' hold' heq.symm).elim
            | inr hlast' =>
              obtain rfl := List.mem_singleton.1 hlast'
              rfl
        · intro e hmem
          cases List.mem_append.1 hmem with
          | inl hold => exact List.mem_append_left _ (hs.pending e hold)
          | inr hlast =>
            obtain rfl := List.mem_singleton.1 hlast
            exact List.mem_append_right _ (List.mem_singleton.2 (by rw [record_requestID hr]))
        · intro e hmem
          cases List.mem_append.1 hmem with
          | inl hold => exact List.mem_append_left _ (hs.samples e hold)
          | inr hlast =>
            obtain ⟨sample,hsample,rfl⟩ := List.mem_map.1 hlast
            have hid := considerQuality_id (Option.mem_toList.1 hsample)
            exact List.mem_append_right _ (List.mem_singleton.2 (by rw [hid]))
        · intro row hrow
          exact List.mem_append_left _ (hs.rows row hrow)
      · cases h
  | insert =>
    simp only [he] at h
    split at h
    · cases h
    · rename_i e hfind
      obtain ⟨hmem,hlabel⟩ := find_label hfind
      cases h
      refine ⟨hs.once,fun e he => hs.pending e (List.mem_filter.1 he).1,hs.samples,?_⟩
      intro row hrow
      dsimp only at hrow
      split at hrow
      · exact hs.rows row hrow
      · cases List.mem_append.1 hrow with
        | inl hold => exact hs.rows row hold
        | inr hlast =>
          obtain rfl := List.mem_singleton.1 hlast
          exact hlabel ▸ hs.pending e hmem
  | lose =>
    simp only [he] at h
    cases h
    exact ⟨hs.once,fun e he => hs.pending e (List.mem_filter.1 he).1,hs.samples,hs.rows⟩
  | finish score =>
    simp only [he] at h
    split at h
    · cases h
    · rename_i e hfind
      cases h
      refine ⟨hs.once,hs.pending,fun e he => hs.samples e (List.mem_filter.1 he).1,?_⟩
      intro row hrow
      obtain ⟨row₀,hrow₀,rfl⟩ := List.mem_map.1 hrow
      rw [Row.score_label,Row.score_id]
      exact hs.rows row₀ hrow₀
  | discard =>
    simp only [he] at h
    cases h
    exact ⟨hs.once,hs.pending,fun e he => hs.samples e (List.mem_filter.1 he).1,hs.rows⟩
  | retire =>
    simp only [he] at h
    cases h
    exact ⟨hs.once,hs.pending,hs.samples,fun row hrow => hs.rows row (List.mem_filter.1 hrow).1⟩

theorem Attributed.step {t : Scoring} {a : Action} (hattr : Attributed s) (hs : Sound s)
    (h : s.step a = some t) : Attributed t := by
  unfold Scoring.step at h
  cases he : a.event with
  | serve q c =>
    simp only [he] at h
    split at h
    · cases h
    · split at h
      · cases h
        exact hattr
      · cases h
  | insert =>
    simp only [he] at h
    split at h
    · cases h
    · cases h
      intro row hrow m hm
      dsimp only at hrow
      split at hrow
      · exact hattr row hrow m hm
      · cases List.mem_append.1 hrow with
        | inl hold => exact hattr row hold m hm
        | inr hlast =>
          obtain rfl := List.mem_singleton.1 hlast
          cases hm
  | finish score =>
    simp only [he] at h
    split at h
    · cases h
    · rename_i e hfind
      obtain ⟨hmem,hlabel⟩ := find_label hfind
      cases h
      intro row hrow m hm
      obtain ⟨row₀,hrow₀,rfl⟩ := List.mem_map.1 hrow
      rw [Row.score_label]
      unfold Row.score at hm
      split at hm
      · rename_i hid
        cases hm
        exact hlabel ▸ (hs.label_of_id hmem hrow₀ hid).symm
      · exact hattr row₀ hrow₀ m hm
  | retire =>
    simp only [he] at h
    cases h
    exact fun row hrow => hattr row (List.mem_filter.1 hrow).1
  | lose =>
    simp only [he] at h
    cases h
    exact hattr
  | discard =>
    simp only [he] at h
    cases h
    exact hattr

def Scoring.ofTeam (teamID : String) (s : Scoring) : Scoring :=
  ⟨s.issued.filter fun e => decide (e.1.teamID = teamID),
    s.pending.filter fun e => decide (e.1.teamID = teamID),
    s.samples.filter fun e => decide (e.1.teamID = teamID),
    s.rows.filter fun row => decide (row.label.teamID = teamID)⟩

section Teams

variable {teamID : String} {n : Label} {β : Type}

theorem find_own (hn : n.teamID = teamID) (l : List (Label × β)) :
    (l.filter fun e => decide (e.1.teamID = teamID)).find? (fun e => decide (e.1 = n)) =
      l.find? fun e => decide (e.1 = n) := by
  rw [List.find?_filter]
  congr 1
  funext e
  by_cases he : e.1 = n
  · simp [he,hn]
  · simp [he]

theorem filter_without (g : β → Label) (l : List β) :
    (l.filter fun e => decide (g e ≠ n)).filter (fun e => decide ((g e).teamID = teamID)) =
      (l.filter fun e => decide ((g e).teamID = teamID)).filter fun e => decide (g e ≠ n) := by
  simp only [List.filter_filter,Bool.and_comm]

theorem filter_foreign (hn : n.teamID ≠ teamID) (g : β → Label) (l : List β) :
    (l.filter fun e => decide (g e ≠ n)).filter (fun e => decide ((g e).teamID = teamID)) =
      l.filter fun e => decide ((g e).teamID = teamID) := by
  rw [filter_without,List.filter_eq_self]
  intro e he
  have hteam := of_decide_eq_true (List.mem_filter.1 he).2
  exact decide_eq_true fun hlabel => hn (hlabel ▸ hteam)

theorem any_own {rows : List Row} {id : String}
    (h : ∀ row ∈ rows,row.record.id = id → row.label.teamID = teamID) :
    (rows.filter fun row => decide (row.label.teamID = teamID)).any
        (fun row => decide (row.record.id = id)) =
      rows.any fun row => decide (row.record.id = id) := by
  rw [Bool.eq_iff_iff,List.any_eq_true,List.any_eq_true]
  constructor
  · intro hex
    obtain ⟨row,hrow,hid⟩ := hex
    exact ⟨row,(List.mem_filter.1 hrow).1,hid⟩
  · intro hex
    obtain ⟨row,hrow,hid⟩ := hex
    exact ⟨row,List.mem_filter.2 ⟨hrow,decide_eq_true (h row hrow (of_decide_eq_true hid))⟩,hid⟩

theorem filter_score (sample : Sample) (score : Int) (rows : List Row) :
    (rows.map (Row.score n sample score)).filter (fun row => decide (row.label.teamID = teamID)) =
      (rows.filter fun row => decide (row.label.teamID = teamID)).map
        (Row.score n sample score) := by
  rw [List.filter_map]
  congr 1
  apply List.filter_congr
  intro row _
  simp only [Function.comp_apply,Row.score_label]

end Teams

theorem Sound.step_own {t : Scoring} {a : Action} {teamID : String} (hs : Sound s)
    (h : s.step a = some t) (ha : a.label.teamID = teamID) :
    (s.ofTeam teamID).step a = some (t.ofTeam teamID) := by
  unfold Scoring.step at h ⊢
  cases he : a.event with
  | serve q c =>
    simp only [he] at h ⊢
    split at h
    · cases h
    · rename_i r hr
      split at h
      · rename_i hguard
        cases h
        have hguard' : q.teamID = a.label.teamID ∧
            (s.ofTeam teamID).issued.all (fun e => decide (e.1 ≠ a.label)) = true :=
          ⟨hguard.1,List.all_eq_true.2 fun e he =>
            List.all_eq_true.1 hguard.2 e (List.mem_filter.1 he).1⟩
        have hsamples : ((considerQuality q c).toList.map fun sample => (a.label,sample)).filter
            (fun e => decide (e.1.teamID = teamID)) =
            (considerQuality q c).toList.map fun sample => (a.label,sample) := by
          rw [List.filter_eq_self]
          intro e he
          obtain ⟨sample,-,rfl⟩ := List.mem_map.1 he
          exact decide_eq_true ha
        rw [if_pos hguard']
        simp only [Scoring.ofTeam,List.filter_append,hsamples]
        simp [ha]
      · cases h
  | insert =>
    simp only [he] at h ⊢
    simp only [Scoring.ofTeam,find_own ha]
    split at h
    · cases h
    · rename_i e hfind
      cases h
      obtain ⟨hmem,hlabel⟩ := find_label hfind
      have hteam : ∀ row ∈ s.rows,row.record.id = e.2.id → row.label.teamID = teamID := by
        intro row hrow hid
        have hsame : row.label = e.1 := hs.once _ (hs.rows row hrow) _ (hs.pending e hmem) hid
        rw [hsame,hlabel]
        exact ha
      simp only [filter_without Prod.fst,any_own hteam]
      split
      · rfl
      · simp [ha]
  | lose =>
    simp only [he] at h ⊢
    cases h
    simp only [Scoring.ofTeam,filter_without Prod.fst]
  | finish score =>
    simp only [he] at h ⊢
    simp only [Scoring.ofTeam,find_own ha]
    split at h
    · cases h
    · rename_i e hfind
      cases h
      simp only [filter_without Prod.fst,filter_score]
  | discard =>
    simp only [he] at h ⊢
    cases h
    simp only [Scoring.ofTeam,filter_without Prod.fst]
  | retire =>
    simp only [he] at h ⊢
    cases h
    simp only [Scoring.ofTeam,filter_without Row.label]

theorem Sound.step_other {t : Scoring} {a : Action} {teamID : String} (hs : Sound s)
    (h : s.step a = some t) (ha : a.label.teamID ≠ teamID) : t.ofTeam teamID = s.ofTeam teamID := by
  unfold Scoring.step at h
  cases he : a.event with
  | serve q c =>
    simp only [he] at h
    split at h
    · cases h
    · split at h
      · cases h
        have hsamples : ((considerQuality q c).toList.map fun sample => (a.label,sample)).filter
            (fun e => decide (e.1.teamID = teamID)) = [] := by
          rw [List.filter_eq_nil_iff]
          intro e he
          obtain ⟨sample,-,rfl⟩ := List.mem_map.1 he
          simpa using ha
        simp only [Scoring.ofTeam,List.filter_append,hsamples]
        simp [ha]
      · cases h
  | insert =>
    simp only [he] at h
    split at h
    · cases h
    · cases h
      simp only [Scoring.ofTeam,filter_foreign ha Prod.fst]
      split
      · rfl
      · simp [ha]
  | lose =>
    simp only [he] at h
    cases h
    simp only [Scoring.ofTeam,filter_foreign ha Prod.fst]
  | finish score =>
    simp only [he] at h
    split at h
    · cases h
    · rename_i e hfind
      obtain ⟨hmem,hlabel⟩ := find_label hfind
      cases h
      have hrows : (s.rows.filter fun row => decide (row.label.teamID = teamID)).map
          (Row.score a.label e.2 score) =
          s.rows.filter fun row => decide (row.label.teamID = teamID) := by
        rw [List.map_congr_left,List.map_id]
        intro row hrow
        obtain ⟨hmem',hteam⟩ := List.mem_filter.1 hrow
        apply if_neg
        intro hid
        exact ha (hlabel ▸ hs.label_of_id hmem hmem' hid ▸ of_decide_eq_true hteam)
      simp only [Scoring.ofTeam,filter_foreign ha Prod.fst,filter_score,hrows]
  | discard =>
    simp only [he] at h
    cases h
    simp only [Scoring.ofTeam,filter_foreign ha Prod.fst]
  | retire =>
    simp only [he] at h
    cases h
    simp only [Scoring.ofTeam,filter_foreign ha Row.label]

theorem start_sound : Sound Scoring.start where
  once _ he := absurd he List.not_mem_nil
  pending _ he := absurd he List.not_mem_nil
  samples _ he := absurd he List.not_mem_nil
  rows _ hrow := absurd hrow List.not_mem_nil

def Action.of (teamID : String) (a : Action) : Bool := decide (a.label.teamID = teamID)

theorem reaches_ofTeam {teamID : String} {as : List Action}
    (h : Reaches Scoring.step (fun s a => FreshID s a = true) Scoring.start as s) :
    Reaches Scoring.step (fun _ _ => True) Scoring.start (as.filter (Action.of teamID))
      (s.ofTeam teamID) := by
  apply Reaches.project (I := Sound) (p := Scoring.ofTeam teamID) ?_ ?_ ?_ h start_sound
  · intro s a t hs hok hstep
    exact hs.step hok hstep
  · intro s a t hs _ hstep ha
    exact hs.step_own hstep (of_decide_eq_true ha)
  · intro s a t hs _ hstep ha
    exact hs.step_other hstep (of_decide_eq_false ha)

/-- Over requests with distinct IDs every score is its own row's, and two histories
that agree on a team's own events agree on the rows and scores of the team. -/
theorem scores_attributed (teamID : String) (as bs : List Action) (s t : Scoring)
    (h : Reaches Scoring.step (fun s a => FreshID s a = true) Scoring.start as s)
    (h' : Reaches Scoring.step (fun s a => FreshID s a = true) Scoring.start bs t)
    (hsame : as.filter (Action.of teamID) = bs.filter (Action.of teamID)) :
    Attributed s ∧ (s.rows.filter fun row => decide (row.label.teamID = teamID)) =
      t.rows.filter fun row => decide (row.label.teamID = teamID) := by
  constructor
  · have hend := h.invariant (I := fun s => Sound s ∧ Attributed s)
      (fun s a t hs hok hstep => ⟨hs.1.step hok hstep,hs.2.step hs.1 hstep⟩)
      ⟨start_sound,fun row hrow => absurd hrow List.not_mem_nil⟩
    exact hend.2
  · have hs := (reaches_ofTeam h : Reaches Scoring.step _ _ (as.filter (Action.of teamID)) _)
    rw [hsame] at hs
    exact congrArg Scoring.rows (hs.unique (reaches_ofTeam h'))

def callerID (header teamID : String) : Served :=
  ⟨header,"0123456789abcdef",teamID,0,200,"",Proxy.Metrics.zero⟩

def answered (decision : Option Reason) : Finished := ⟨"m","p",[],"hello",decision⟩

def twoRequests (headerA headerB : String) : List Action :=
  [⟨⟨"a",1⟩,.serve (callerID headerA "a") (answered none)⟩,⟨⟨"a",1⟩,.insert⟩,
    ⟨⟨"b",1⟩,.serve (callerID headerB "b") (answered (some .downgraded))⟩,⟨⟨"b",1⟩,.insert⟩,
    ⟨⟨"b",1⟩,.finish 100⟩]

def alone (headerA : String) : List Action :=
  [⟨⟨"a",1⟩,.serve (callerID headerA "a") (answered none)⟩,⟨⟨"a",1⟩,.insert⟩]

theorem scores_attributed_distinct :
    ∃ s t,Reaches Scoring.step (fun s a => FreshID s a = true) Scoring.start
      (twoRequests "x" "y") s ∧
      Reaches Scoring.step (fun s a => FreshID s a = true) Scoring.start (alone "x") t ∧
      s.rows.map (fun row => (row.label.teamID,row.record.qualityScore)) =
        [("a",none),("b",some 100)] ∧ Attributed s ∧
      (s.rows.filter fun row => decide (row.label.teamID = "a")) =
        t.rows.filter fun row => decide (row.label.teamID = "a") := by
  obtain ⟨s,hs,hscores⟩ : ∃ s,Reaches Scoring.step (fun s a => FreshID s a = true) Scoring.start
      (twoRequests "x" "y") s ∧ s.rows.map (fun row =>
        (row.label.teamID,row.record.qualityScore)) = [("a",none),("b",some 100)] :=
    Reaches.exists_of_run (by decide +kernel)
  obtain ⟨t,ht,-⟩ : ∃ t,Reaches Scoring.step (fun s a => FreshID s a = true) Scoring.start
      (alone "x") t ∧ t.rows.length = 1 := Reaches.exists_of_run (by decide +kernel)
  exact ⟨s,t,hs,ht,hscores,scores_attributed "a" _ _ s t hs ht (by decide +kernel)⟩

/-- Team b sends the ID of team a's request: its score goes onto team a's row. -/
theorem score_on_foreign_row :
    ∃ s t,Reaches Scoring.step (fun _ _ => True) Scoring.start (twoRequests "x" "x") s ∧
      Reaches Scoring.step (fun _ _ => True) Scoring.start (alone "x") t ∧
      (twoRequests "x" "x").filter (Action.of "a") = (alone "x").filter (Action.of "a") ∧
      s.rows.map (fun row => (row.label.teamID,row.record.qualityScore)) = [("a",some 100)] ∧
      t.rows.map (fun row => (row.label.teamID,row.record.qualityScore)) = [("a",none)] ∧
      ¬Attributed s := by
  obtain ⟨s,hs,hscores,hfrom⟩ : ∃ s,Reaches Scoring.step (fun _ _ => True) Scoring.start
      (twoRequests "x" "x") s ∧ s.rows.map (fun row =>
        (row.label.teamID,row.record.qualityScore)) = [("a",some 100)] ∧
      s.rows.any (fun row => row.label = ⟨"a",1⟩ ∧ row.scoredFrom = some ⟨"b",1⟩) = true :=
    Reaches.exists_of_run (by decide +kernel)
  obtain ⟨t,ht,hunscored⟩ : ∃ t,Reaches Scoring.step (fun _ _ => True) Scoring.start (alone "x") t ∧
      t.rows.map (fun row => (row.label.teamID,row.record.qualityScore)) = [("a",none)] :=
    Reaches.exists_of_run (by decide +kernel)
  refine ⟨s,t,hs,ht,by decide +kernel,hscores,hunscored,fun hattr => ?_⟩
  obtain ⟨row,hrow,hforeign⟩ := List.any_eq_true.1 hfrom
  obtain ⟨hlabel,hscored⟩ := of_decide_eq_true hforeign
  have hwrong := hattr row hrow ⟨"b",1⟩ hscored
  rw [hlabel] at hwrong
  exact absurd hwrong (by decide)

end Switchyard.Quality
