import Switchyard.GoText
import Switchyard.LineScan
set_option autoImplicit false

/-!
Server-sent events as the adapters read them (internal/provider/sse.go), and the
streams an upstream may write. Text that is not UTF-8 is not represented.
-/

namespace Switchyard.Provider
open GoText LineScan

def maxStreamLineBytes : Nat := 1048576

/-- One event: its name, if it has one, and its data. -/
structure SseEvent where
  event : String
  data : String
  deriving DecidableEq, Repr

inductive NextErr where
  | eof
  | scan (text : String)
  deriving DecidableEq, Repr

structure SseReader where
  scanner : Scanner
  deriving DecidableEq, Repr

def newSSEReader (text : List Char) (readErr : Option String) : SseReader :=
  ⟨LineScan.scanner maxStreamLineBytes text readErr⟩

/-- The loop of `Next` over the lines left, with what it has read of a block. -/
def nextFrom (err : Option String) (event : String) (dataLines : List String) (sawAny : Bool) :
    List String → Except NextErr SseEvent × List String
  | [] =>
    match err with
    | some e => (.error (.scan e),[])
    | none =>
      if sawAny then (.ok ⟨event,"\n".intercalate dataLines⟩,[]) else (.error .eof,[])
  | line :: rest =>
    if line = "" then
      if sawAny then (.ok ⟨event,"\n".intercalate dataLines⟩,rest)
      else nextFrom err event dataLines sawAny rest
    else if hasPrefix line "event:" then
      nextFrom err (trimSpace (trimPrefix line "event:")) dataLines true rest
    else if hasPrefix line "data:" then
      nextFrom err event (dataLines ++ [trimPrefix (trimPrefix line "data:") " "]) true rest
    else nextFrom err event dataLines true rest

def SseReader.next (r : SseReader) : Except NextErr SseEvent × SseReader :=
  let found := nextFrom r.scanner.err "" [] false r.scanner.tokens
  (found.1,⟨⟨found.2,r.scanner.err⟩⟩)

def SseReader.nexts : Nat → SseReader → List (Except NextErr SseEvent)
  | 0,_ => []
  | n+1,r => r.next.1 :: SseReader.nexts n r.next.2

variable {ev : SseEvent}

theorem nextFrom_length {err : Option String} {event : String} {dataLines : List String}
    {sawAny : Bool} {lines : List String} {rest : List String}
    (h : nextFrom err event dataLines sawAny lines = (.ok ev,rest)) :
    rest.length ≤ lines.length ∧ (sawAny = false → rest.length < lines.length) := by
  induction lines generalizing event dataLines sawAny with
  | nil =>
    unfold nextFrom at h
    split at h
    · cases h
    · split at h
      · rename_i hsaw
        cases h
        simp [hsaw]
      · cases h
  | cons line lines ih =>
    unfold nextFrom at h
    split_ifs at h with hblank hsaw
    · cases h
      simp [hsaw]
    all_goals
      have := ih h
      simp only [List.length_cons]
      omega

theorem SseReader.next_length {r r' : SseReader} (h : r.next = (.ok ev,r')) :
    r'.scanner.tokens.length < r.scanner.tokens.length := by
  unfold SseReader.next at h
  obtain ⟨hres,rfl⟩ := Prod.mk.inj h
  exact (nextFrom_length (Prod.ext hres rfl)).2 rfl

structure Decoded (γ ε : Type) where
  chunk : Option γ
  done : Bool
  err : Option ε
  deriving DecidableEq, Repr

/-- A decoder; one that is a closure keeps its variables in the state. -/
abbrev Decoder (σ γ ε : Type) := σ → SseEvent → σ × Decoded γ ε

inductive RecvErr (ε : Type) where
  | eof
  | scan (text : String)
  | decode (e : ε)
  deriving DecidableEq, Repr

structure SseStreamReader (σ : Type) where
  events : SseReader
  state : σ
  deriving DecidableEq, Repr

section Stream
variable {σ γ ε : Type} (decode : Decoder σ γ ε)

def SseStreamReader.recv (r : SseStreamReader σ) : Except (RecvErr ε) γ × SseStreamReader σ :=
  match _hnext : r.events.next with
  | (.error .eof,events) => (.error .eof,⟨events,r.state⟩)
  | (.error (.scan e),events) => (.error (.scan e),⟨events,r.state⟩)
  | (.ok ev,events) =>
    let found := decode r.state ev
    match found.2.err with
    | some e => (.error (.decode e),⟨events,found.1⟩)
    | none =>
      if found.2.done then (.error .eof,⟨events,found.1⟩)
      else
        match found.2.chunk with
        | none => SseStreamReader.recv ⟨events,found.1⟩
        | some c => (.ok c,⟨events,found.1⟩)
termination_by r.events.scanner.tokens.length
decreasing_by exact SseReader.next_length _hnext

def SseStreamReader.recvs : Nat → SseStreamReader σ → List (Except (RecvErr ε) γ)
  | 0,_ => []
  | n+1,r => (r.recv decode).1 :: SseStreamReader.recvs n (r.recv decode).2

/-- The chunks that decode makes of the events in order, up to the first one at
which it is done or fails, and what ends them. -/
def decoded : σ → List SseEvent → List γ × RecvErr ε
  | _,[] => ([],.eof)
  | s,ev :: evs =>
    let found := decode s ev
    match found.2.err with
    | some e => ([],.decode e)
    | none =>
      if found.2.done then ([],.eof)
      else
        let rest := decoded found.1 evs
        (found.2.chunk.toList ++ rest.1,rest.2)

end Stream

/-- The events a reader has left, when it then reports `io.EOF`. -/
def SseReader.Yields : SseReader → List SseEvent → Prop
  | r,[] => r.next = (.error .eof,⟨⟨[],none⟩⟩)
  | r,ev :: evs => ∃ r',r.next = (.ok ev,r') ∧ r'.Yields evs

theorem SseReader.nexts_ended (n : Nat) :
    SseReader.nexts n ⟨⟨[],none⟩⟩ = List.replicate n (.error .eof) := by
  induction n with
  | zero => rfl
  | succ n ih => exact congrArg _ ih

variable {evs : List SseEvent}

theorem SseReader.Yields.nexts {r : SseReader} (h : r.Yields evs) (n : Nat) :
    r.nexts (evs.length+n) = evs.map .ok ++ List.replicate n (.error .eof) := by
  induction evs generalizing r with
  | nil =>
    unfold SseReader.Yields at h
    cases n with
    | zero => rfl
    | succ n => simp [SseReader.nexts,h,SseReader.nexts_ended,List.replicate_succ]
  | cons ev evs ih =>
    obtain ⟨r',hnext,hrest⟩ := h
    have hlen : (ev :: evs).length+n = evs.length+n+1 := by simp only [List.length_cons]; omega
    rw [hlen,SseReader.nexts,hnext,ih hrest]
    rfl

section Stream
variable {σ γ ε : Type} (decode : Decoder σ γ ε)

theorem SseStreamReader.recv_of_next {s : σ} {r r' : SseReader} (h : r.next = (.ok ev,r')) :
    SseStreamReader.recv decode ⟨r,s⟩ =
      match (decode s ev).2.err with
      | some e => (.error (.decode e),⟨r',(decode s ev).1⟩)
      | none =>
        if (decode s ev).2.done then (.error .eof,⟨r',(decode s ev).1⟩)
        else
          match (decode s ev).2.chunk with
          | none => SseStreamReader.recv decode ⟨r',(decode s ev).1⟩
          | some c => (.ok c,⟨r',(decode s ev).1⟩) := by
  rw [SseStreamReader.recv]
  split
  · rename_i heq
    rw [h] at heq
    cases heq
  · rename_i heq
    rw [h] at heq
    cases heq
  · rename_i heq
    rw [h] at heq
    cases heq
    rfl

theorem SseStreamReader.recv_of_eof {s : σ} {r r' : SseReader} (h : r.next = (.error .eof,r')) :
    SseStreamReader.recv decode ⟨r,s⟩ = (.error .eof,⟨r',s⟩) := by
  rw [SseStreamReader.recv]
  split
  · rename_i heq
    rw [h] at heq
    cases heq
    rfl
  · rename_i heq
    rw [h] at heq
    cases heq
  · rename_i heq
    rw [h] at heq
    cases heq

theorem SseStreamReader.recvs_yields {r : SseReader} (h : r.Yields evs) (s : σ) :
    SseStreamReader.recvs decode ((decoded decode s evs).1.length+1) ⟨r,s⟩ =
      (decoded decode s evs).1.map .ok ++ [.error (decoded decode s evs).2] := by
  induction evs generalizing r s with
  | nil =>
    have hrecv := SseStreamReader.recv_of_eof decode (s := s) h
    simp only [decoded,List.length_nil,SseStreamReader.recvs,hrecv,List.map_nil,List.nil_append]
  | cons ev evs ih =>
    obtain ⟨r',hnext,hrest⟩ := h
    have hrecv := SseStreamReader.recv_of_next decode (s := s) hnext
    have hlater := ih hrest (decode s ev).1
    cases herr : (decode s ev).2.err with
    | some e =>
      rw [herr] at hrecv
      simp only [decoded,herr,List.length_nil,SseStreamReader.recvs,hrecv,List.map_nil,
        List.nil_append]
    | none =>
      by_cases hdone : (decode s ev).2.done = true
      · simp only [herr,hdone,if_true] at hrecv
        simp only [decoded,herr,hdone,if_true,List.length_nil,SseStreamReader.recvs,hrecv,
          List.map_nil,List.nil_append]
      · simp only [decoded,herr,hdone]
        cases hchunk : (decode s ev).2.chunk with
        | none =>
          -- The event is skipped inside the same call.
          simp only [herr,hdone,hchunk] at hrecv
          rw [SseStreamReader.recvs] at hlater ⊢
          rw [hrecv]
          exact hlater
        | some c =>
          simp only [herr,hdone,hchunk] at hrecv
          simp only [Option.toList_some,List.cons_append]
          rw [SseStreamReader.recvs,hrecv]
          exact congrArg _ hlater

end Stream

/-- A line of a block as an upstream may write it: the event's name within white
space, one line of its data, or a comment or field of another name. -/
inductive BlockLine where
  | event (lead : List Char) (name : String) (trail : List Char)
  | data (space : Bool) (text : List Char)
  | other (text : List Char)
  deriving DecidableEq, Repr

def BlockLine.text : BlockLine → List Char
  | .event lead name trail => "event:".toList ++ (lead ++ name.toList ++ trail)
  | .data space text => "data:".toList ++ (if space then ' ' :: text else text)
  | .other text => text

def BlockLine.names : List BlockLine → List String :=
  List.filterMap fun | .event _ name _ => some name | _ => none

def BlockLine.texts : List BlockLine → List (List Char) :=
  List.filterMap fun | .data _ text => some text | _ => none

section Gathered
variable (lead trail text : List Char) (name : String) (space : Bool) (b : List BlockLine)

@[simp] theorem BlockLine.names_event :
    BlockLine.names (.event lead name trail :: b) = name :: BlockLine.names b := rfl

@[simp] theorem BlockLine.names_data :
    BlockLine.names (.data space text :: b) = BlockLine.names b := rfl

@[simp] theorem BlockLine.names_other :
    BlockLine.names (.other text :: b) = BlockLine.names b := rfl

@[simp] theorem BlockLine.texts_event :
    BlockLine.texts (.event lead name trail :: b) = BlockLine.texts b := rfl

@[simp] theorem BlockLine.texts_data :
    BlockLine.texts (.data space text :: b) = text :: BlockLine.texts b := rfl

@[simp] theorem BlockLine.texts_other :
    BlockLine.texts (.other text :: b) = BlockLine.texts b := rfl

end Gathered

/-- The choices a line leaves open. Without the space after the colon a data line
must not begin with one. -/
def BlockLine.Allowed : BlockLine → Prop
  | .event lead _ trail =>
    (∀ c ∈ lead,isSpace c) ∧ (∀ c ∈ trail,isSpace c) ∧ Unbroken lead ∧ Unbroken trail
  | .data space text => space = false → text.head? ≠ some ' '
  | .other text => text ≠ [] ∧ Unbroken text ∧
    hasPrefix (String.ofList text) "event:" = false ∧
    hasPrefix (String.ofList text) "data:" = false

/-- An event that can be written: its name is trimmed and on one line, and its
data holds no carriage return. -/
structure SseEvent.Writable (ev : SseEvent) : Prop where
  trimmed : trimSpace ev.event = ev.event
  name : Unbroken ev.event.toList
  data : '\r' ∉ ev.data.toList

instance (ev : SseEvent) : Decidable ev.Writable :=
  decidable_of_iff (trimSpace ev.event = ev.event ∧ Unbroken ev.event.toList ∧
    '\r' ∉ ev.data.toList)
    ⟨fun h => ⟨h.1,h.2.1,h.2.2⟩,fun h => ⟨h.trimmed,h.name,h.data⟩⟩

/-- The lines are a block for the event: its name at most once, one data line for
each line of its data, at least one of the two, and anything the reader skips. -/
structure SseEvent.Block (ev : SseEvent) (lines : List BlockLine) : Prop where
  names : BlockLine.names lines = [ev.event] ∨ BlockLine.names lines = [] ∧ ev.event = ""
  texts : BlockLine.texts lines = ev.data.toList.splitOn '\n' ∨
    BlockLine.texts lines = [] ∧ ev.data = ""
  present : BlockLine.names lines ≠ [] ∨ BlockLine.texts lines ≠ []
  allowed : ∀ l ∈ lines,l.Allowed

/-- The lines of a stream: blocks with blank lines between them, the last of which
may be missing. -/
inductive Serialises : List SseEvent → List (List Char) → Prop
  | nil : Serialises [] []
  | blank {evs : List SseEvent} {ls : List (List Char)} : Serialises evs ls →
      Serialises evs ([] :: ls)
  | last {ev : SseEvent} {b : List BlockLine} : ev.Block b → Serialises [ev] (b.map BlockLine.text)
  | block {ev : SseEvent} {b : List BlockLine} {evs : List SseEvent} {ls : List (List Char)} :
      ev.Block b → Serialises evs ls →
      Serialises (ev :: evs) (b.map BlockLine.text ++ [] :: ls)

section Lines
variable (err : Option String) (event : String) (dataLines : List String) (sawAny : Bool)
variable (rest : List String)

theorem nextFrom_event (s : String) :
    nextFrom err event dataLines sawAny (("event:" ++ s) :: rest) =
      nextFrom err (trimSpace s) dataLines true rest := by
  rw [nextFrom,if_neg (by simp),if_pos (hasPrefix_append _ _),trimPrefix_append]

theorem nextFrom_data (s : String) :
    nextFrom err event dataLines sawAny (("data:" ++ s) :: rest) =
      nextFrom err event (dataLines ++ [trimPrefix s " "]) true rest := by
  have hevent : hasPrefix ("data:" ++ s) "event:" = false := by
    simp [hasPrefix,List.isPrefixOf]
  rw [nextFrom,if_neg (by simp),hevent,if_neg (by simp),if_pos (hasPrefix_append _ _),
    trimPrefix_append]

theorem nextFrom_other {s : String} (hne : s ≠ "") (hevent : hasPrefix s "event:" = false)
    (hdata : hasPrefix s "data:" = false) :
    nextFrom err event dataLines sawAny (s :: rest) = nextFrom err event dataLines true rest := by
  rw [nextFrom,if_neg hne,hevent,if_neg (by simp),hdata,if_neg (by simp)]

end Lines

theorem trimPrefix_space {space : Bool} {cs : List Char} (h : space = false → cs.head? ≠ some ' ') :
    trimPrefix (String.ofList (if space then ' ' :: cs else cs)) " " = String.ofList cs := by
  cases space with
  | true =>
    have hcons : String.ofList (' ' :: cs) = " " ++ String.ofList cs := String.ofList_cons
    simp [hcons]
  | false =>
    have hhead := h rfl
    rw [if_neg (by simp),trimPrefix,if_neg]
    cases cs with
    | nil => decide
    | cons c cs =>
      simp at hhead
      simp [hasPrefix,Ne.symm hhead]

variable {b : List BlockLine}

theorem nextFrom_block (hallowed : ∀ l ∈ b,l.Allowed)
    (htrim : ∀ name ∈ BlockLine.names b,trimSpace name = name) (err : Option String)
    (event : String) (dataLines : List String) (sawAny : Bool) (rest : List String) :
    nextFrom err event dataLines sawAny ((b.map fun l => String.ofList l.text) ++ rest) =
      nextFrom err ((BlockLine.names b).getLastD event)
        (dataLines ++ (BlockLine.texts b).map String.ofList) (sawAny || !b.isEmpty) rest := by
  induction b generalizing event dataLines sawAny with
  | nil => simp [BlockLine.names,BlockLine.texts]
  | cons l b ih =>
    have hl := hallowed l List.mem_cons_self
    have hb := fun m hm => hallowed m (List.mem_cons_of_mem _ hm)
    rw [List.map_cons,List.cons_append]
    cases l with
    | event lead name trail =>
      have hname := htrim name List.mem_cons_self
      have hrest : ∀ n ∈ BlockLine.names b,trimSpace n = n :=
        fun n hn => htrim n (List.mem_cons_of_mem _ hn)
      rw [BlockLine.text,String.ofList_append,String.ofList_toList,nextFrom_event,
        trimSpace_padded name hl.1 hl.2.1,hname,ih hb hrest]
      simp [-List.getLastD_eq_getLast?,List.getLastD_cons]
    | data space text =>
      have hrest : ∀ n ∈ BlockLine.names b,trimSpace n = n := htrim
      rw [BlockLine.text,String.ofList_append,String.ofList_toList,nextFrom_data,
        trimPrefix_space hl,ih hb hrest]
      simp
    | other text =>
      have hrest : ∀ n ∈ BlockLine.names b,trimSpace n = n := htrim
      obtain ⟨hne,-,hevent,hdata⟩ := hl
      have htext : String.ofList text ≠ "" := by simpa using hne
      rw [BlockLine.text,nextFrom_other _ _ _ _ _ htext hevent hdata,ih hb hrest]
      simp

theorem SseEvent.Block.ne_nil (h : ev.Block b) : b ≠ [] := by
  rintro rfl
  obtain hn | ht := h.present
  · exact hn rfl
  · exact ht rfl

theorem SseEvent.Block.event_eq (h : ev.Block b) : (BlockLine.names b).getLastD "" = ev.event := by
  obtain hn | ⟨hn,he⟩ := h.names
  · rw [hn]
    rfl
  · rw [hn,he]
    rfl

theorem SseEvent.Block.data_eq (h : ev.Block b) :
    "\n".intercalate ((BlockLine.texts b).map String.ofList) = ev.data := by
  obtain ht | ⟨ht,hd⟩ := h.texts
  · apply String.toList_injective
    rw [ht,String.toList_intercalate,List.map_map]
    have hid : String.toList ∘ String.ofList = id := by
      funext cs
      exact String.toList_ofList
    rw [hid,List.map_id]
    exact List.intercalate_splitOn '\n'
  · rw [ht,hd]
    rfl

theorem SseEvent.Block.nextFrom_eq (h : ev.Block b)
    (hev : ev.Writable) (err : Option String) (rest : List String) :
    nextFrom err "" [] false ((b.map fun l => String.ofList l.text) ++ rest) =
      nextFrom err ev.event ((BlockLine.texts b).map String.ofList) true rest := by
  have htrim : ∀ name ∈ BlockLine.names b,trimSpace name = name := by
    intro name hname
    obtain hn | ⟨hn,-⟩ := h.names
    · rw [hn,List.mem_singleton] at hname
      rw [hname,hev.trimmed]
    · rw [hn] at hname
      cases hname
  have hne : (!b.isEmpty) = true := by simpa using h.ne_nil
  rw [nextFrom_block h.allowed htrim,h.event_eq,hne]
  rfl

theorem Serialises.yields {ls : List (List Char)} (h : Serialises evs ls)
    (hevs : ∀ ev ∈ evs,ev.Writable) : SseReader.Yields ⟨⟨ls.map String.ofList,none⟩⟩ evs := by
  induction h with
  | nil => rfl
  | @blank evs ls hs ih =>
    have hskip : SseReader.next ⟨⟨([] :: ls).map String.ofList,none⟩⟩ =
        SseReader.next ⟨⟨ls.map String.ofList,none⟩⟩ := by
      simp [SseReader.next,nextFrom]
    cases evs with
    | nil => exact hskip.trans (ih hevs)
    | cons ev evs =>
      obtain ⟨r,hnext,hrest⟩ := ih hevs
      exact ⟨r,hskip.trans hnext,hrest⟩
  | @last ev b hb =>
    have hread := hb.nextFrom_eq (hevs ev List.mem_cons_self) none []
    rw [List.append_nil] at hread
    refine ⟨⟨⟨[],none⟩⟩,?_,rfl⟩
    simp only [SseReader.next,List.map_map,Function.comp_def,hread,nextFrom,hb.data_eq,if_true]
  | @block ev b evs ls hb _ ih =>
    have hread := hb.nextFrom_eq (hevs ev List.mem_cons_self) none (([] :: ls).map String.ofList)
    refine ⟨_,?_,ih fun e he => hevs e (List.mem_cons_of_mem _ he)⟩
    simp only [SseReader.next,List.map_append,List.map_map,Function.comp_def,hread]
    simp [nextFrom,hb.data_eq]

theorem SseEvent.Block.unbroken (h : ev.Block b) (hev : ev.Writable) : ∀ l ∈ b,Unbroken l.text := by
  intro l hl
  have hallowed := h.allowed l hl
  cases l with
  | event lead name trail =>
    have hname : Unbroken name.toList := by
      have hmem : name ∈ BlockLine.names b := List.mem_filterMap.2 ⟨_,hl,rfl⟩
      obtain hn | ⟨hn,-⟩ := h.names
      · rw [hn,List.mem_singleton] at hmem
        rw [hmem]
        exact hev.name
      · rw [hn] at hmem
        cases hmem
    have hfield : Unbroken "event:".toList := by decide
    exact hfield.append ((hallowed.2.2.1.append hname).append hallowed.2.2.2)
  | data space text =>
    have htext : Unbroken text := by
      have hmem : text ∈ BlockLine.texts b := List.mem_filterMap.2 ⟨_,hl,rfl⟩
      obtain ht | ⟨ht,-⟩ := h.texts
      · rw [ht] at hmem
        exact unbroken_of_mem_splitOn hev.data hmem
      · rw [ht] at hmem
        cases hmem
    have hfield : Unbroken "data:".toList := by decide
    cases space with
    | false => exact hfield.append htext
    | true =>
      have hspace : Unbroken [' '] := by decide
      exact hfield.append (hspace.append htext)
  | other text => exact hallowed.2.1

theorem Serialises.unbroken {ls : List (List Char)} (h : Serialises evs ls)
    (hevs : ∀ ev ∈ evs,ev.Writable) : ∀ l ∈ ls,Unbroken l := by
  have hblank : Unbroken [] := by decide
  have hblock : ∀ {ev : SseEvent} {b : List BlockLine},ev.Block b → ev.Writable →
      ∀ l ∈ b.map BlockLine.text,Unbroken l := by
    intro ev b hb hev l hl
    obtain ⟨m,hm,rfl⟩ := List.mem_map.1 hl
    exact hb.unbroken hev m hm
  induction h with
  | nil => simp
  | blank _ ih =>
    intro l hl
    obtain rfl | hl := List.mem_cons.1 hl
    · exact hblank
    · exact ih hevs l hl
  | last hb => exact hblock hb (hevs _ List.mem_cons_self)
  | block hb _ ih =>
    intro l hl
    obtain hl | hl := List.mem_append.1 hl
    · exact hblock hb (hevs _ List.mem_cons_self) l hl
    · obtain rfl | hl := List.mem_cons.1 hl
      · exact hblank
      · exact ih (fun e he => hevs e (List.mem_cons_of_mem _ he)) l hl

/-- The bytes of a stream that writes the events, in lines the reader's buffer
holds. -/
structure Streams (evs : List SseEvent) (text : List Char) : Prop where
  writable : ∀ ev ∈ evs,ev.Writable
  lines : ∃ ls,Serialises evs ls ∧ Prints ls text
  short : ∀ l ∈ rawLines text,byteSize l < maxStreamLineBytes

theorem Streams.yields {text : List Char} (h : Streams evs text) :
    (newSSEReader text none).Yields evs := by
  obtain ⟨ls,hser,hprints⟩ := h.lines
  rw [newSSEReader,scanner_prints hprints (hser.unbroken h.writable) h.short]
  exact hser.yields h.writable

def SseEvent.block (ev : SseEvent) : List BlockLine :=
  .event [' '] ev.event [] :: (ev.data.toList.splitOn '\n').map (.data true)

/-- The plainest stream of events: every line ended by LF and every block closed. -/
def writeLines (evs : List SseEvent) : List (List Char) :=
  evs.flatMap fun ev => ev.block.map BlockLine.text ++ [[]]

def writeEvents (evs : List SseEvent) : List Char := (writeLines evs).flatMap (· ++ ['\n'])

theorem SseEvent.block_of (ev : SseEvent) : ev.Block ev.block := by
  have hnames : BlockLine.names ((ev.data.toList.splitOn '\n').map (.data true)) = [] := by
    simp [BlockLine.names,List.filterMap_map]
  have htexts : BlockLine.texts ((ev.data.toList.splitOn '\n').map (.data true)) =
      ev.data.toList.splitOn '\n' := by
    rw [BlockLine.texts,List.filterMap_map]
    exact List.filterMap_some
  refine ⟨.inl ?_,.inl ?_,.inl ?_,?_⟩
  · rw [SseEvent.block,BlockLine.names_event,hnames]
  · rw [SseEvent.block,BlockLine.texts_event,htexts]
  · simp [SseEvent.block]
  · intro l hl
    obtain rfl | hl := List.mem_cons.1 hl
    · simp [BlockLine.Allowed,isSpace,Unbroken]
    · obtain ⟨text,-,rfl⟩ := List.mem_map.1 hl
      simp [BlockLine.Allowed]

theorem prints_ended (ls : List (List Char)) : Prints ls (ls.flatMap (· ++ ['\n'])) := by
  induction ls with
  | nil => exact .nil
  | cons l ls ih =>
    rw [List.flatMap_cons,List.append_assoc]
    exact .lf ih

theorem serialises_writeLines (evs : List SseEvent) : Serialises evs (writeLines evs) := by
  induction evs with
  | nil => exact .nil
  | cons ev evs ih =>
    rw [writeLines,List.flatMap_cons,List.append_assoc]
    exact .block ev.block_of ih

theorem streams_writeEvents (h : ∀ ev ∈ evs,ev.Writable)
    (hshort : ∀ l ∈ rawLines (writeEvents evs),byteSize l < maxStreamLineBytes) :
    Streams evs (writeEvents evs) := ⟨h,⟨_,serialises_writeLines evs,prints_ended _⟩,hshort⟩

/-- A stream is read back as the events written to it, then `io.EOF`, and `Recv`
returns what decode makes of them in order. -/
theorem streams_read_back {evs : List SseEvent} {text : List Char} (h : Streams evs text) :
    (∀ n,(newSSEReader text none).nexts (evs.length+n) =
      evs.map .ok ++ List.replicate n (.error .eof)) ∧
    ∀ {σ γ ε : Type} (decode : Decoder σ γ ε) (s : σ),
      SseStreamReader.recvs decode ((decoded decode s evs).1.length+1) ⟨newSSEReader text none,s⟩ =
        (decoded decode s evs).1.map .ok ++ [.error (decoded decode s evs).2] :=
  ⟨h.yields.nexts,fun decode s => SseStreamReader.recvs_yields decode h.yields s⟩

/-- A comment, mixed line endings, data on two lines and no final line feed. -/
theorem streams_read_back_mixed :
    (newSSEReader (": hi".toList ++ '\n' :: ("event: a".toList ++ '\r' :: '\n' ::
      ("data:x".toList ++
      '\r' :: '\n' :: ("data: ".toList ++ '\n' :: ([] ++ '\n' :: ([] ++ '\r' :: '\n' ::
        "data: y".toList)))))) none).nexts 3 =
      [.ok ⟨"a","x\n"⟩,.ok ⟨"","y"⟩,.error .eof] := by
  have hfirst : SseEvent.Block ⟨"a","x\n"⟩
      [.other ": hi".toList,.event [' '] "a" [],.data false ['x'],.data true []] := by
    refine ⟨.inl rfl,.inl (by decide +kernel),.inl (by decide),?_⟩
    simp [BlockLine.Allowed,Unbroken,hasPrefix,List.isPrefixOf,isSpace]
  have hsecond : SseEvent.Block ⟨"","y"⟩ [.data true ['y']] := by
    refine ⟨.inr ⟨rfl,rfl⟩,.inl (by decide +kernel),.inr (by decide),?_⟩
    simp [BlockLine.Allowed]
  have hwritable : ∀ ev ∈ [(⟨"a","x\n"⟩ : SseEvent),⟨"","y"⟩],ev.Writable := by decide +kernel
  have hprints := Prints.lf (l := ": hi".toList) (.crlf (l := "event: a".toList)
    (.crlf (l := "data:x".toList) (.lf (l := "data: ".toList) (.lf (l := [])
      (.crlf (l := []) (.last (l := "data: y".toList) (by decide)))))))
  have hstream := Streams.mk hwritable
    ⟨_,.block hfirst (.blank (.last hsecond)),hprints⟩ (by decide +kernel)
  exact (streams_read_back hstream).1 1

end Switchyard.Provider
