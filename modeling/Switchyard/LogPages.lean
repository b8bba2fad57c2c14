import Mathlib.Data.Prod.Lex
import Mathlib.Data.String.Basic
import Switchyard.AdminTeams
import Switchyard.Keyset
import Switchyard.RawURL
import Switchyard.RequestLog
set_option autoImplicit false

/-!
The paginated reads of the request log and the audit log
(internal/logstore/query.go, `Query`, and audit.go, `ListAudit`), both in the order
(ts DESC, id DESC) and continued by an opaque cursor.
-/

namespace Switchyard.Logstore
open MachineInt GoText

def zeroTime : Int := -62135596800000000000

/-- A position in the order; ts is in Unix nanoseconds. -/
structure Cursor where
  ts : Int
  id : String
  deriving DecidableEq, Repr

def Cursor.zero : Cursor := ⟨zeroTime,""⟩

def Cursor.isZero (c : Cursor) : Bool := c.id = "" && c.ts = zeroTime

def Cursor.encode (c : Cursor) : String :=
  if c.isZero then ""
  else RawURL.encode (bytes (formatInt (wrap c.ts) ++ "|" ++ c.id))

inductive CursorError where
  | notBase64
  | malformed
  | timestamp (cause : String)
  deriving DecidableEq, Repr

def decodeCursor (s : String) : Except CursorError Cursor :=
  if s = "" then .ok .zero
  else
    match RawURL.decode s with
    | none => .error .notBase64
    | some raw =>
      match cut (textOf raw) '|' with
      | none => .error .malformed
      | some (nanos,id) =>
        if id = "" then .error .malformed
        else
          match parseInt nanos with
          | (_,some cause) => .error (.timestamp cause)
          | (n,none) => .ok ⟨n,id⟩

theorem decodeCursor_encode {c : Cursor} (hid : c.id ≠ "") (hts : InRange c.ts) :
    c.encode ≠ "" ∧ decodeCursor c.encode = .ok c := by
  have hzero : c.isZero = false := by simp [Cursor.isZero,hid]
  have henc : c.encode = RawURL.encode (bytes (formatInt c.ts ++ "|" ++ c.id)) := by
    rw [Cursor.encode,hzero,if_neg Bool.false_ne_true,wrap_eq hts]
  have hcut : cut (formatInt c.ts ++ "|" ++ c.id) '|' = some (formatInt c.ts,c.id) := by
    refine cut_iff.2 ⟨by simp,fun hmem => ?_⟩
    obtain hminus | hdigit := mem_formatInt hts.1 hts.2 hmem
    · exact absurd hminus (by decide)
    · exact absurd hdigit (by decide)
  have hne : c.encode ≠ "" := by
    intro hempty
    have hlen := congrArg String.length (henc.symm.trans hempty)
    rw [RawURL.encode_length,bytes_length] at hlen
    have hpos : 0 < (formatInt c.ts ++ "|" ++ c.id).utf8ByteSize := by
      simp only [String.utf8ByteSize_append]
      have hbar : ("|" : String).utf8ByteSize = 1 := by decide
      omega
    have hnone : ("" : String).length = 0 := rfl
    omega
  refine ⟨hne,?_⟩
  rw [decodeCursor,if_neg hne,henc,RawURL.decode_encode]
  simp only [textOf_bytes,hcut,if_neg hid,parseInt_formatInt hts.1 hts.2]

def y2kMicros : Int := 946684800000000

/-- The microseconds Postgres gets for a time. The driver sends them in 64 bits,
counted from 2000; the two infinities are the ends of that range. -/
def timestamptz (nanos : Int) : Option Int :=
  let sent := wrap (nanos/1000-y2kMicros)
  if (-211813488000000000 ≤ sent ∧ sent < 9223371331200000000) ∨
      sent = -9223372036854775808 ∨ sent = 9223372036854775807 then some (sent+y2kMicros)
  else none

def timestampRange : String := "ERROR: timestamp out of range (SQLSTATE 22008)"

theorem timestamptz_eq {nanos : Int} (h : InRange nanos) :
    timestamptz nanos = some (nanos/1000) := by
  unfold InRange at h
  have hsent : wrap (nanos/1000-y2kMicros) = nanos/1000-y2kMicros :=
    wrap_eq (by unfold InRange y2kMicros; omega)
  unfold timestamptz
  rw [hsent,if_pos (.inl (by unfold y2kMicros; omega))]
  simp

inductive Arg where
  | texts (l : List String)
  | text (s : String)
  | int2 (n : Int)
  | bool (b : Bool)
  | time (nanos : Int)
  deriving DecidableEq, Repr

/-- The driver does not send an integer its column cannot hold. -/
def Arg.encodeError (i : Nat) : Arg → Option String
  | .int2 n =>
    let failed := s!"failed to encode args[{i}]: unable to encode {formatInt n} into binary " ++
      s!"format for int2 (OID 21): {formatInt n} is "
    if 32767 < n then some (failed ++ "greater than maximum value for int2")
    else if n < -32768 then some (failed ++ "less than minimum value for int2")
    else none
  | _ => none

/-- Postgres refuses a text with a NUL, and a time out of its range. -/
def Arg.serverError : Arg → Option String
  | .text s => if storableText s then none else some invalidText
  | .texts l => if l.all storableText then none else some invalidText
  | .time nanos => if (timestamptz nanos).isSome then none else some timestampRange
  | _ => none
where invalidText := "ERROR: invalid byte sequence for encoding \"UTF8\": 0x00 (SQLSTATE 22021)"

def Arg.Taken (a : Arg) : Prop := a.encodeError 0 = none ∧ a.serverError = none

instance (a : Arg) : Decidable a.Taken := inferInstanceAs (Decidable (_ ∧ _))

inductive ReadFault where
  | query (text : String)
  | scan (text : String)
  | rows (text : String)
  deriving DecidableEq, Repr

structure ReadTexts where
  query : String
  scan : String
  rows : String

inductive ReadError where
  | cursor (e : CursorError)
  | failed (text : String)
  deriving DecidableEq, Repr

def runQuery {α : Type} (t : ReadTexts) (args : List Arg) (fault : Option ReadFault) (result : α) :
    Except ReadError α :=
  match fault with
  | some (.query text) => .error (.failed (t.query ++ text))
  | _ =>
    match args.zipIdx.findSome? fun a => a.1.encodeError a.2 with
    | some text => .error (.failed (t.query ++ text))
    | none =>
      match args.findSome? Arg.serverError,fault with
      | some text,_ => .error (.failed (t.rows ++ text))
      | none,some (.scan text) => .error (.failed (t.scan ++ text))
      | none,some (.rows text) => .error (.failed (t.rows ++ text))
      | none,_ => .ok result

theorem encodeError_eq_none {a : Arg} {i j : Nat} (h : a.encodeError i = none) :
    a.encodeError j = none := by
  cases a with
  | int2 n =>
    unfold Arg.encodeError at h ⊢
    simp only [] at h ⊢
    split_ifs at h ⊢
    rfl
  | _ => rfl

theorem runQuery_ok {α : Type} (t : ReadTexts) {args : List Arg} (result : α)
    (h : ∀ a ∈ args,a.Taken) : runQuery t args none result = .ok result := by
  have hencode : (args.zipIdx.findSome? fun a => a.1.encodeError a.2) = none := by
    refine List.findSome?_eq_none_iff.2 fun a ha => ?_
    exact encodeError_eq_none (h a.1 (List.fst_mem_of_mem_zipIdx ha)).1
  have hserver : args.findSome? Arg.serverError = none :=
    List.findSome?_eq_none_iff.2 fun a ha => (h a ha).2
  simp only [runQuery,hencode,hserver]

theorem runQuery_refused {α : Type} (t : ReadTexts) {args : List Arg} (result : α)
    (h : ¬∀ a ∈ args,a.Taken) : ∃ e,runQuery t args none result = .error e := by
  cases hencode : args.zipIdx.findSome? fun a => a.1.encodeError a.2 with
  | some text => exact ⟨.failed (t.query ++ text),by simp only [runQuery,hencode]⟩
  | none =>
    cases hserver : args.findSome? Arg.serverError with
    | some text => exact ⟨.failed (t.rows ++ text),by simp only [runQuery,hencode,hserver]⟩
    | none =>
      refine absurd (fun a ha => ⟨?_,List.findSome?_eq_none_iff.1 hserver a ha⟩) h
      obtain ⟨i,hi⟩ := List.mem_iff_getElem?.1 ha
      exact encodeError_eq_none
        (List.findSome?_eq_none_iff.1 hencode (a,i) (List.mem_zipIdx_iff_getElem?.2 hi))

/-- How Postgres orders texts: some total order on them. -/
structure Collation (κ : Type) [LinearOrder κ] where
  sortKey : String → κ
  injective : Function.Injective sortKey

variable {κ : Type} [LinearOrder κ] (c : Collation κ)

/-- What `ORDER BY ts, id` and `(ts, id) < ($1, $2)` compare: the time in
microseconds and the id. -/
def Collation.key (place : Int × String) : Int ×ₗ κ := toLex (place.1,c.sortKey place.2)

/-- The bound of a cursor; the driver sends microseconds. -/
def Cursor.bound (cur : Cursor) : Option (Int ×ₗ κ) :=
  if cur.isZero then none else some (c.key (cur.ts/1000,cur.id))

def Cursor.args (cur : Cursor) : List Arg :=
  if cur.isZero then [] else [.time cur.ts,.text cur.id]

def defaultPageSize : Int := 50
def maxPageSize : Int := 500

def pageLimit (limit : Int) : Nat :=
  let limit := if limit ≤ 0 then defaultPageSize else limit
  (if limit > maxPageSize then maxPageSize else limit).toNat

theorem pageLimit_pos (limit : Int) : 0 < pageLimit limit := by
  simp only [pageLimit,defaultPageSize,maxPageSize]
  split_ifs <;> omega

/-- `NextCursor` for the last row of a page that another one follows. -/
def nextCursor (last : Option (Int × String)) : String :=
  (last.map fun place => Cursor.encode ⟨1000*place.1,place.2⟩).getD ""

structure Page (ρ : Type) where
  records : List ρ
  nextCursor : String
  deriving DecidableEq, Repr

/-- The zero time of since and till bounds nothing. -/
structure Filter where
  teamIDs : Option (List String)
  provider : String
  model : String
  statusCode : Int
  statusMin : Int
  statusMax : Int
  cacheHit : Option Bool
  fallback : Option Bool
  since : Int
  till : Int
  limit : Int
  cursor : Cursor
  deriving DecidableEq, Repr

structure Clause where
  args : List Arg
  holds : Record → Bool

def Filter.clauses (f : Filter) : List Clause :=
  (f.teamIDs.toList.map fun ids => ⟨[.texts ids],fun r => ids.contains r.teamID⟩) ++
  (if f.provider ≠ "" then [⟨[.text f.provider],fun r => r.provider == f.provider⟩] else []) ++
  (if f.model ≠ "" then
    [⟨[.text f.model],fun r => r.requestedModel == f.model || r.servedModel == f.model⟩]
    else []) ++
  (if f.statusCode ≠ 0 then [⟨[.int2 f.statusCode],fun r => r.statusCode == f.statusCode⟩]
    else []) ++
  (if f.statusMin ≠ 0 then [⟨[.int2 f.statusMin],fun r => f.statusMin ≤ r.statusCode⟩] else []) ++
  (if f.statusMax ≠ 0 then [⟨[.int2 f.statusMax],fun r => r.statusCode ≤ f.statusMax⟩] else []) ++
  (f.cacheHit.toList.map fun b => ⟨[.bool b],fun r => r.cacheHit == some b⟩) ++
  (f.fallback.toList.map fun b => ⟨[.bool b],fun r => r.fallback == b⟩) ++
  (if f.since ≠ zeroTime then
    [⟨[.time f.since],fun r => (timestamptz f.since).any (· ≤ r.timestamp)⟩] else []) ++
  (if f.till ≠ zeroTime then
    [⟨[.time f.till],fun r => (timestamptz f.till).any (r.timestamp < ·)⟩] else [])

def Filter.matches (f : Filter) (r : Record) : Bool := f.clauses.all fun clause => clause.holds r

def Filter.args (f : Filter) : List Arg := f.clauses.flatMap Clause.args ++ f.cursor.args

def requestTexts : ReadTexts :=
  ⟨"querying request log: ","scanning request log row: ","reading request log rows: "⟩

def Record.place (r : Record) : Int × String := (r.timestamp,r.id)

/-- `Query`: one row beyond the limit tells whether there is a next page. -/
def query (rows : List Record) (f : Filter) (fault : Option ReadFault) :
    Except ReadError (Page Record) :=
  let found := Keyset.page (fun r => c.key (Record.place r)) (pageLimit f.limit)
    (f.cursor.bound c) (rows.filter f.matches)
  runQuery requestTexts f.args fault ⟨found.1,nextCursor (found.2.map Record.place)⟩

def actorPlatformOperator : String := "platform-operator"

structure AuditRow where
  id : String
  timestamp : Int
  entry : Admin.AuditEntry
  deriving DecidableEq, Repr

structure AuditQuery where
  orgID : String
  unscoped : Bool
  limit : Int
  cursor : String
  deriving DecidableEq, Repr

/-- A tenant does not learn which operator acted. -/
def AuditQuery.view (q : AuditQuery) (r : AuditRow) : AuditRow :=
  if !q.unscoped && r.entry.superadmin then
    { r with entry := { r.entry with actorUserID := actorPlatformOperator, actorAddr := "" } }
  else r

/-- An entry without an organisation is NULL there, which equals nothing. -/
def AuditQuery.matches (q : AuditQuery) (r : AuditRow) : Bool :=
  q.unscoped || (r.entry.organizationID ≠ "" && r.entry.organizationID == q.orgID)

def AuditQuery.args (q : AuditQuery) : List Arg :=
  if q.unscoped then [] else [.text actorPlatformOperator,.text q.orgID]

def auditTexts : ReadTexts :=
  ⟨"querying audit log: ","scanning audit row: ","reading audit rows: "⟩

def AuditRow.place (r : AuditRow) : Int × String := (r.timestamp,r.id)

def listAudit (rows : List AuditRow) (q : AuditQuery) (fault : Option ReadFault) :
    Except ReadError (Page AuditRow) :=
  match decodeCursor q.cursor with
  | .error e => .error (.cursor e)
  | .ok cur =>
    let found := Keyset.page (fun r => c.key (AuditRow.place r)) (pageLimit q.limit)
      (cur.bound c) ((rows.filter q.matches).map q.view)
    runQuery auditTexts (q.args ++ cur.args) fault
      ⟨found.1,nextCursor (found.2.map AuditRow.place)⟩

structure ValidPlace (place : Int × String) : Prop where
  named : place.2 ≠ ""
  text : storableText place.2 = true
  time : InRange (1000*place.1)

structure Table {ρ : Type} (place : ρ → Int × String) where
  rows : List ρ
  ids : (rows.map fun r => (place r).2).Nodup
  places : ∀ r ∈ rows,ValidPlace (place r)

theorem Table.keys_nodup {ρ : Type} {place : ρ → Int × String} (T : Table place) {rows : List ρ}
    (hrows : rows.Sublist T.rows) : (rows.map fun r => c.key (place r)).Nodup := by
  have hids : (rows.map fun r => (place r).2).Nodup := T.ids.sublist (hrows.map _)
  have hsort := hids.map c.injective
  rw [List.map_map] at hsort
  refine List.Nodup.of_map (fun k => (ofLex k).2) ?_
  rw [List.map_map]
  exact hsort

theorem decodeCursor_nextCursor {last : Option (Int × String)}
    (h : ∀ place ∈ last,ValidPlace place) :
    ∃ cur,decodeCursor (nextCursor last) = .ok cur ∧ cur.bound c = last.map c.key ∧
      ∀ a ∈ cur.args,a.Taken := by
  cases last with
  | none => exact ⟨.zero,rfl,by simp [Cursor.bound,Cursor.isZero,Cursor.zero],
      by simp [Cursor.args,Cursor.isZero,Cursor.zero]⟩
  | some place =>
    have hplace := h place rfl
    let cur : Cursor := ⟨1000*place.1,place.2⟩
    have hzero : cur.isZero = false := by simp [Cursor.isZero,cur,hplace.named]
    refine ⟨cur,(decodeCursor_encode hplace.named hplace.time).2,?_,?_⟩
    · simp [Cursor.bound,hzero,cur]
    · simp [Cursor.args,hzero,cur,Arg.Taken,Arg.encodeError,Arg.serverError,hplace.text,
        timestamptz_eq hplace.time]

theorem nextCursor_ne {place : Int × String} (h : ValidPlace place) :
    nextCursor (some place) ≠ nextCursor none :=
  (decodeCursor_encode (c := ⟨1000*place.1,place.2⟩) h.named h.time).1

/-- A reader of pages: from the empty cursor on, each walk that comes to an end
is complete, and walks end if no more than finitely many rows ever appear. -/
structure Paged {ρ τ : Type} (read : τ → String → Except ReadError (List ρ × String))
    (table : τ → List ρ) (key : ρ → Int ×ₗ κ) (limit : Nat) : Prop where
  complete : ∀ ts pages,Keyset.Follows read "" "" ts pages →
    Keyset.Complete key limit (ts.map table) pages
  ends : ∀ T : Nat → τ,(∃ K : Finset (Int ×ₗ κ),∀ i,∀ r ∈ table (T i),key r ∈ K) →
    ∃ n pages,Keyset.Follows read "" "" ((List.range (n+1)).map T) pages

theorem paged {ρ τ : Type} {read : τ → String → Except ReadError (List ρ × String)}
    {table : τ → List ρ} {place : ρ → Int × String} {limit : Nat} (hpos : 0 < limit)
    (hplaces : ∀ t,∀ r ∈ table t,ValidPlace (place r))
    (hkeys : ∀ t,((table t).map fun r => c.key (place r)).Nodup)
    (hread : ∀ t last cur,decodeCursor (nextCursor last) = .ok cur →
      (∀ a ∈ cur.args,a.Taken) → cur.bound c = last.map c.key →
      let found := Keyset.page (fun r => c.key (place r)) limit (last.map c.key) (table t)
      read t (nextCursor last) = .ok (found.1,nextCursor (found.2.map place))) :
    Paged read table (fun r => c.key (place r)) limit := by
  have hiff : ∀ {ts : List τ} {pages : List (List ρ)},Keyset.Follows read "" "" ts pages ↔
      Keyset.Walk (fun r => c.key (place r)) limit none (ts.map table) pages := by
    intro ts pages
    refine Keyset.follows_iff_walk (fun o => nextCursor (o.map place)) hplaces (fun t o ho => ?_)
      (fun r hr => nextCursor_ne hr) (c := none) (by simp)
    have hlast : ∀ p ∈ o.map place,ValidPlace p := by
      intro p hp
      obtain ⟨r,hr,rfl⟩ := Option.map_eq_some_iff.1 hp
      exact ho r hr
    obtain ⟨cur,hcur,hbound,hargs⟩ := decodeCursor_nextCursor c hlast
    have hpage := hread t (o.map place) cur hcur hargs hbound
    rw [Option.map_map] at hpage
    exact hpage
  constructor
  · intro ts pages h
    refine (hiff.1 h).complete hpos fun rows hrows => ?_
    obtain ⟨t,-,rfl⟩ := List.mem_map.1 hrows
    exact hkeys t
  · intro T hK
    obtain ⟨K,hK⟩ := hK
    obtain ⟨n,pages,hwalk⟩ := Keyset.exists_walk limit K hK none
    refine ⟨n,pages,hiff.2 ?_⟩
    rw [List.map_map]
    exact hwalk

abbrev RequestTable := Table Record.place
abbrev AuditTable := Table AuditRow.place

def readRequests (f : Filter) (T : RequestTable) (token : String) :
    Except ReadError (List Record × String) :=
  match decodeCursor token with
  | .error e => .error (.cursor e)
  | .ok cursor =>
    (query c T.rows { f with cursor } none).map fun p => (p.records,p.nextCursor)

def readAudit (q : AuditQuery) (T : AuditTable) (token : String) :
    Except ReadError (List AuditRow × String) :=
  (listAudit c T.rows { q with cursor := token } none).map fun p => (p.records,p.nextCursor)

def Filter.Taken (f : Filter) : Prop := ∀ a ∈ f.clauses.flatMap Clause.args,a.Taken

def AuditQuery.Taken (q : AuditQuery) : Prop := ∀ a ∈ q.args,a.Taken

theorem requests_paged (f : Filter) (hf : f.Taken) :
    Paged (readRequests c f) (fun T => T.rows.filter f.matches) (fun r => c.key r.place)
      (pageLimit f.limit) := by
  refine paged c (pageLimit_pos _) (fun T r hr => T.places r (List.mem_of_mem_filter hr))
    (fun T => T.keys_nodup c List.filter_sublist) fun T last cur hcur hargs hbound => ?_
  have htaken : ∀ a ∈ ({ f with cursor := cur } : Filter).args,a.Taken := by
    intro a ha
    obtain ha | ha := List.mem_append.1 ha
    · exact hf a ha
    · exact hargs a ha
  simp only [readRequests,hcur,query,runQuery_ok _ _ htaken,hbound,Except.map]
  rfl

theorem view_place (q : AuditQuery) (r : AuditRow) : (q.view r).place = r.place := by
  unfold AuditQuery.view
  split <;> rfl

theorem audit_paged (q : AuditQuery) (hq : q.Taken) :
    Paged (readAudit c q) (fun T => (T.rows.filter q.matches).map q.view)
      (fun r => c.key r.place) (pageLimit q.limit) := by
  refine paged c (pageLimit_pos _) (fun T r hr => ?_) (fun T => ?_)
    fun T last cur hcur hargs hbound => ?_
  · obtain ⟨a,ha,rfl⟩ := List.mem_map.1 hr
    rw [view_place]
    exact T.places a (List.mem_of_mem_filter ha)
  · have hnodup : ((T.rows.filter q.matches).map fun r => c.key r.place).Nodup :=
      T.keys_nodup c List.filter_sublist
    simpa only [List.map_map,Function.comp_def,view_place] using hnodup
  · have htaken : ∀ a ∈ ({ q with cursor := nextCursor last } : AuditQuery).args ++ cur.args,
        a.Taken := by
      intro a ha
      obtain ha | ha := List.mem_append.1 ha
      · exact hq a ha
      · exact hargs a ha
    simp only [readAudit,listAudit,hcur,hbound,runQuery_ok _ _ htaken,Except.map]
    rfl

/-- Every walk over the request log or the audit log is complete, with pages of
at most `pageLimit` rows, whatever is inserted and deleted between its reads;
a filter with an argument the database does not take is refused. -/
theorem pages_complete :
    (∀ f : Filter,f.Taken → Paged (readRequests c f) (fun T => T.rows.filter f.matches)
      (fun r => c.key r.place) (pageLimit f.limit)) ∧
    (∀ f : Filter,¬f.Taken → ∀ T,∃ e,readRequests c f T "" = .error e) ∧
    (∀ q : AuditQuery,q.Taken → Paged (readAudit c q)
      (fun T => (T.rows.filter q.matches).map q.view) (fun r => c.key r.place)
      (pageLimit q.limit)) ∧
    ∀ q : AuditQuery,¬q.Taken → ∀ T,∃ e,readAudit c q T "" = .error e := by
  refine ⟨requests_paged c,fun f hf T => ?_,audit_paged c,fun q hq T => ?_⟩
  · have hrefused : ¬∀ a ∈ ({ f with cursor := .zero } : Filter).args,a.Taken :=
      fun h => hf fun a ha => h a (List.mem_append_left _ ha)
    obtain ⟨e,he⟩ : ∃ e,query c T.rows { f with cursor := .zero } none = .error e := by
      unfold query
      exact runQuery_refused _ _ hrefused
    exact ⟨e,by simp only [readRequests,decodeCursor,if_pos,he,Except.map]⟩
  · have hrefused : ¬∀ a ∈ ({ q with cursor := "" } : AuditQuery).args ++ Cursor.zero.args,
        a.Taken := fun h => hq fun a ha => h a (List.mem_append_left _ ha)
    obtain ⟨e,he⟩ : ∃ e,listAudit c T.rows { q with cursor := "" } none = .error e := by
      simp only [listAudit,decodeCursor,if_pos]
      exact runQuery_refused _ _ hrefused
    exact ⟨e,by simp only [readAudit,he,Except.map]⟩

def plainOrder : Collation String := ⟨id,Function.injective_id⟩

def loggedAt (timestamp : Int) (id : String) : Record :=
  ⟨id,timestamp,"t","m","m","p",200,1,1,1,false,none,none,"",none,"","",none,""⟩

def twoRows : RequestTable where
  rows := [loggedAt 5 "a",loggedAt 5 "b"]
  ids := by decide
  places := by
    intro r hr
    simp only [List.mem_cons,List.not_mem_nil,or_false] at hr
    obtain rfl | rfl := hr
    · exact ⟨by decide,by decide,by decide⟩
    · exact ⟨by decide,by decide,by decide⟩

def anyRequest (limit : Int) : Filter :=
  ⟨none,"","",0,0,0,none,none,zeroTime,zeroTime,limit,.zero⟩

theorem pages_complete_two :
    (anyRequest 1).Taken ∧ Keyset.Complete (fun r => plainOrder.key (Record.place r)) 1
      [twoRows.rows,twoRows.rows] [[loggedAt 5 "b"],[loggedAt 5 "a"]] := by
  have htaken : (anyRequest 1).Taken := by
    intro a ha
    simp [anyRequest,Filter.clauses] at ha
  have hfirst : readRequests plainOrder (anyRequest 1) twoRows "" =
      .ok ([loggedAt 5 "b"],nextCursor (some (5,"b"))) := by decide +kernel
  have hsecond : readRequests plainOrder (anyRequest 1) twoRows (nextCursor (some (5,"b"))) =
      .ok ([loggedAt 5 "a"],"") := by decide +kernel
  have hpaged := (pages_complete plainOrder).1 (anyRequest 1) htaken
  exact ⟨htaken,hpaged.complete [twoRows,twoRows] _
    (.next hfirst (by decide +kernel) (.last hsecond))⟩

/-- Asking for zero rows, or fewer, gets a page of the default size. -/
theorem zero_limit_page :
    ∃ p,query plainOrder twoRows.rows (anyRequest 0) none = .ok p ∧
      min (anyRequest 0).limit maxPageSize < p.records.length :=
  ⟨⟨[loggedAt 5 "b",loggedAt 5 "a"],""⟩,by decide +kernel,by decide⟩

end Switchyard.Logstore
