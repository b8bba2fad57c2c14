import Switchyard.StreamEvents
set_option autoImplicit false

/-!
A cached completion replayed as a stream, against the same completion as one
response and against the live stream it was stored from (internal/proxy/cache.go).
-/

namespace Switchyard.Proxy
open GoText CallTree Provider Resilience

structure Gathered where
  role : String
  content : String
  finishReason : Option String
  deriving DecidableEq, Repr

def Gathered.start : Gathered := ⟨"","",none⟩

/-- A delta is appended; a role or a finish reason replaces the earlier one. -/
def Gathered.add (g : Gathered) (c : ChatChunk) : Gathered where
  role := if c.role = "" then g.role else c.role
  content := g.content ++ c.content
  finishReason := c.finishReason <|> g.finishReason

def Gathered.take (g : Gathered) : Output → Gathered
  | .event (.chunk c) => g.add c
  | .reply _ (.completion resp) => ⟨resp.role,resp.content,some resp.finishReason⟩
  | _ => g

def gather (os : List Output) : Gathered := os.foldl Gathered.take .start

theorem gathered_chatChunks (g : Gathered) (id : String) (created : Int) (model : String)
    (first : Bool) (cs : List Chunk) :
    ((chatChunks id created model first cs).map Output.chunk).foldl Gathered.take g =
      ⟨if first = true ∧ cs ≠ [] then "assistant" else g.role,
        g.content ++ String.join (cs.map (·.content)),
        (lastFinish cs).map wireFinishReason <|> g.finishReason⟩ := by
  induction cs generalizing g first with
  | nil => simp [chatChunks,lastFinish]
  | cons c cs ih =>
    rw [chatChunks,List.map_cons,List.foldl_cons,ih]
    simp only [Output.chunk,Gathered.take,Gathered.add,Gathered.mk.injEq]
    refine ⟨?_,?_,?_⟩
    · cases first <;> simp [toChatChunk]
    · simp [toChatChunk,String.append_assoc]
    · rw [lastFinish_cons]
      cases lastFinish cs with
      | some f => rfl
      | none =>
        by_cases hc : c.finishReason.text = ""
        · simp [toChatChunk,hc]
        · simp [toChatChunk,hc]

theorem mem_chatChunks {id model : String} {created : Int} {first : Bool} {cs : List Chunk}
    {c : ChatChunk} (h : c ∈ chatChunks id created model first cs) :
    ∃ d ∈ cs,c.content = d.content ∧ c.finishReason =
      if d.finishReason.text = "" then none else some (wireFinishReason d.finishReason) := by
  induction cs generalizing first with
  | nil => simp [chatChunks] at h
  | cons d cs ih =>
    obtain rfl | h := List.mem_cons.1 h
    · exact ⟨d,List.mem_cons_self,rfl,rfl⟩
    · obtain ⟨d',hd',hsame⟩ := ih h
      exact ⟨d',List.mem_cons_of_mem _ hd',hsame⟩

theorem splitRunes_join {rounds : Nat} {cs : List Char} (h : cs.length ≤ rounds) :
    (splitRunes rounds cs).flatMap String.toList = cs := by
  induction rounds generalizing cs with
  | zero =>
    obtain rfl := List.length_eq_zero_iff.1 (Nat.le_zero.1 h)
    rfl
  | succ rounds ih =>
    cases cs with
    | nil => rfl
    | cons c cs =>
      have hdrop : ((c :: cs).drop replayChunkRunes).length ≤ rounds := by
        simp only [List.length_drop,List.length_cons,replayChunkRunes] at h ⊢
        omega
      rw [splitRunes,List.flatMap_cons,ih hdrop,String.toList_ofList,List.take_append_drop]

theorem splitForReplay_join (content : String) :
    String.join (splitForReplay content) = content := by
  apply String.toList_injective
  rw [String.toList_join,splitForReplay,splitRunes_join (Nat.le_of_eq String.length_toList)]

theorem splitRunes_piece {rounds : Nat} {cs : List Char} {part : String}
    (h : part ∈ splitRunes rounds cs) : part ≠ "" ∧ part.length ≤ replayChunkRunes := by
  induction rounds generalizing cs with
  | zero => simp [splitRunes] at h
  | succ rounds ih =>
    cases cs with
    | nil => simp [splitRunes] at h
    | cons c cs =>
      obtain rfl | h := List.mem_cons.1 h
      · rw [String.length_ofList,List.length_take]
        exact ⟨by simp [replayChunkRunes],Nat.min_le_left _ _⟩
      · exact ih h

/-- The chunks a replay of the entry consists of: its text in pieces, then the
finish reason. -/
def replayed (e : Cache.Entry) : List Chunk :=
  (splitForReplay e.response).map (fun part => ⟨part,⟨""⟩,none⟩) ++ [⟨"",e.finishReason,none⟩]

theorem chatChunks_append (id : String) (created : Int) (model : String) (first : Bool)
    (cs ds : List Chunk) :
    chatChunks id created model first (cs ++ ds) =
      chatChunks id created model first cs ++
        chatChunks id created model (first && cs.isEmpty) ds := by
  induction cs generalizing first with
  | nil => simp [chatChunks]
  | cons c cs ih =>
    rw [List.cons_append,chatChunks,ih]
    simp [chatChunks]

theorem replayParts_shown {id model : String} {created : Int} {first first' written : Bool}
    {parts : List String} {tr : History}
    (hret : (replayParts id created model first parts).Returns tr (written,first'))
    (hr : Reached tr) :
    written = true ∧ first' = (first && parts.isEmpty) ∧
      shown tr = (chatChunks id created model first
        (parts.map fun part => ⟨part,⟨""⟩,none⟩)).map .chunk := by
  induction parts generalizing first tr with
  | nil =>
    obtain ⟨rfl,heq⟩ := returns_pure.1 hret
    obtain ⟨rfl,rfl⟩ := Prod.mk.inj heq
    simp [chatChunks]
  | cons part parts ih =>
    unfold replayParts at hret
    obtain ⟨ans,tr₂,rfl,hrest⟩ := returns_perform_bind.1 hret
    obtain rfl := hr _ ans List.mem_cons_self
    obtain ⟨hwritten,hfirst,hshown⟩ := ih hrest (hr.sub (List.subset_append_right _ _))
    refine ⟨hwritten,by simp [hfirst],?_⟩
    rw [shown_append,hshown]
    rfl

variable {e : Cache.Entry}

theorem serveStreamFromCache_shown {r : Inbound} {v : Vars} {tr : History}
    {out : Except String Unit × Vars} (hflusher : r.flusher = true)
    (hrun : (serveStreamFromCache r e v).Returns tr out) (hr : Reached tr) :
    ∃ created,shown tr = (chatChunks (chatCompletionID r.requestID) created e.model true
      (replayed e)).map .chunk ++ [.event .done] := by
  rw [serveStreamFromCache,hflusher] at hrun
  replace hrun := Act.returns_modify_seq hrun
  obtain ⟨u,-,-,hbody⟩ := Act.returns_lift hrun
  obtain ⟨tr₁,u₁,tr₂,rfl,hheaders,hrun₁⟩ := returns_bind.1 hbody
  obtain ⟨now,tr₄,rfl,hrun₂⟩ := returns_perform_bind.1 hrun₁
  obtain ⟨tr₅,⟨written,first⟩,tr₆,rfl,hparts,hrun₃⟩ := returns_bind.1 hrun₂
  obtain ⟨rfl,rfl,hshown⟩ := replayParts_shown hparts (hr.sub fun e he => by simp [he])
  obtain ⟨ans,tr₈,rfl,hrun₄⟩ := returns_perform_bind.1 hrun₃
  obtain rfl := hr _ ans (by simp)
  obtain ⟨ans₂,tr₁₀,rfl,hrun₅⟩ := returns_perform_bind.1 hrun₄
  obtain ⟨rfl,-⟩ := returns_pure.1 hrun₅
  refine ⟨unix now,?_⟩
  rw [replayed,chatChunks_append,shown_append,(streamHeaders_returns hheaders).1]
  simp only [shown_append,hshown]
  simp [shown,output,chatChunks,Output.chunk]

theorem serveFromCache_shown {r : Inbound} {v : Vars} {tr : History}
    {out : Except String Unit × Vars} (hrun : (serveFromCache r e v).Returns tr out) :
    ∃ created,shown tr =
      [.reply 200 (.completion (toChatResponse r.requestID created (entryResponse e)))] := by
  replace hrun := Act.returns_modify_seq hrun
  obtain ⟨u,-,-,hbody⟩ := Act.returns_lift hrun
  obtain ⟨now,tr₂,rfl,hrun₁⟩ := returns_perform_bind.1 hbody
  obtain ⟨u₁,tr₄,rfl,hreply⟩ := returns_perform_bind.1 hrun₁
  obtain rfl := returns_perform.1 hreply
  exact ⟨unix now,rfl⟩

theorem lastFinish_replayed (h : e.finishReason.text ≠ "") :
    lastFinish (replayed e) = some e.finishReason := by
  simp [lastFinish,replayed,h]

theorem join_replayed (e : Cache.Entry) :
    String.join ((replayed e).map (·.content)) = e.response := by
  have hjoin := splitForReplay_join e.response
  simp [replayed,Function.comp_def,hjoin]

theorem gather_replayed (h : e.finishReason.text ≠ "") (id : String)
    (created : Int) (model : String) :
    gather ((chatChunks id created model true (replayed e)).map .chunk ++ [.event .done]) =
      ⟨"assistant",e.response,some (wireFinishReason e.finishReason)⟩ := by
  rw [gather,List.foldl_append,gathered_chatChunks,lastFinish_replayed h,join_replayed]
  simp [Gathered.take,Gathered.start,replayed]

theorem lastFinish_visible (cs : List Chunk) : lastFinish (cs.filter visible) = lastFinish cs := by
  induction cs with
  | nil => rfl
  | cons c cs ih =>
    cases hc : visible c with
    | true => rw [List.filter_cons_of_pos hc,lastFinish_cons,lastFinish_cons,ih]
    | false =>
      have hempty := (not_not.1 (of_decide_eq_false hc)).2
      rw [List.filter_cons_of_neg (by simp [hc]),lastFinish_cons,ih,if_pos hempty]
      simp

/-- A clean live stream leaves its client with the text and the finish reason it
delivered. -/
theorem gather_live (stream : StreamReader) (r : Inbound) (served : Candidate) (created : Int) :
    let g := gather ((stream.written r served created).map .chunk ++ [.event .done])
    g.content = stream.relay.content ∧
      g.finishReason = (lastFinish stream.chunks).map wireFinishReason := by
  simp only [gather,List.foldl_append,StreamReader.written,gathered_chatChunks,join_visible,
    lastFinish_visible,StreamReader.relay_content]
  simp [Gathered.take,Gathered.start]

theorem decodeEntry_texts {h : RedisData.Hash} (hd : Cache.decodeEntry h = .ok e) :
    e.response = Cache.fieldText h "response" ∧
      e.finishReason = ⟨Cache.fieldText h "finish_reason"⟩ := by
  unfold Cache.decodeEntry at hd
  split at hd
  · cases hd
  · cases hd
    exact ⟨rfl,rfl⟩

theorem decodeEntry_of_stored {h : RedisData.Hash} {e₀ : Cache.Entry} {now : Int}
    (hholds : Cache.Holds h e₀ now) (hd : Cache.decodeEntry h = .ok e) :
    e.response = e₀.response ∧ e.finishReason = e₀.finishReason := by
  obtain ⟨hresponse,hfinish⟩ := decodeEntry_texts hd
  have h₁ := hholds ("response",bytes e₀.response) (by simp [Cache.putFields]) (by simp)
  have h₂ := hholds ("finish_reason",bytes e₀.finishReason.text) (by simp [Cache.putFields])
    (by simp)
  simp only [Cache.fieldText,Cache.fieldBytes,h₁,h₂,Option.getD_some,
    textOf_bytes] at hresponse hfinish
  exact ⟨hresponse,hfinish⟩

/-- The client of a replay gathers what one response would have told it. It gets
the text in pieces, the role with the first event and the finish reason with the
last. Where the entry was stored from a live stream, the replay tells its client
what the live stream told its own. -/
theorem replay_faithful {e : Cache.Entry} (hfinish : e.finishReason = .stop) {r : Inbound}
    (hflusher : r.flusher = true) {v : Vars} {tr : History} {out : Except String Unit × Vars}
    (hreplay : (serveStreamFromCache r e v).Returns tr out) (hr : Reached tr) :
    (∀ {r' : Inbound} {v' : Vars} {tr' : History} {out' : Except String Unit × Vars},
      (serveFromCache r' e v').Returns tr' out' → gather (shown tr) = gather (shown tr')) ∧
    (∃ cs : List ChatChunk,∃ last : ChatChunk,
      shown tr = (cs ++ [last]).map .chunk ++ [.event .done] ∧
      String.join (cs.map (·.content)) = e.response ∧
      (∀ c ∈ cs,c.content ≠ "" ∧ c.content.length ≤ replayChunkRunes ∧ c.finishReason = none) ∧
      last.content = "" ∧ last.finishReason = some "stop" ∧
      ∀ i c,(cs ++ [last])[i]? = some c → c.role = if i = 0 then "assistant" else "") ∧
    (∀ {r₀ : Inbound} {req : ChatRequest} {requested served : Candidate} {consulted : Consulted}
      {stream : StreamReader} {v₀ : Vars} {tr₀ : History} {out₀ : Except String Int × Vars},
      (relayStream r₀ req requested consulted (stream,served) v₀).Returns tr₀ out₀ → Reached tr₀ →
      ∀ id fields ans,(⟨.cache (.hSet id fields),ans⟩ : Event Op Ans) ∈ tr₀ →
      ∀ h : RedisData.Hash,(∀ p ∈ fields,p.1 ≠ "hits" → h.get? p.1 = some p.2) →
        Cache.decodeEntry h = .ok e →
        (gather (shown tr)).content = (gather (shown tr₀)).content ∧
        (gather (shown tr)).finishReason = (gather (shown tr₀)).finishReason) := by
  have htext : e.finishReason.text ≠ "" := by simp [hfinish,FinishReason.stop]
  obtain ⟨created,hshown⟩ := serveStreamFromCache_shown hflusher hreplay hr
  have hgather := gather_replayed htext (chatCompletionID r.requestID) created e.model
  rw [← hshown] at hgather
  refine ⟨?_,?_,?_⟩
  · intro r' v' tr' out' hwhole
    obtain ⟨created',hwholeShown⟩ := serveFromCache_shown hwhole
    rw [hgather,hwholeShown]
    rfl
  · have hparts : ∀ part ∈ splitForReplay e.response,part ≠ "" ∧ part.length ≤ replayChunkRunes :=
      fun part hpart => splitRunes_piece hpart
    have hjoin := splitForReplay_join e.response
    have hroles := fun i c => @chatChunks_role (chatCompletionID r.requestID) e.model created true
      (replayed e) i c
    rw [replayed,chatChunks_append] at hshown hroles
    refine ⟨_,_,hshown,?_,?_,rfl,?_,?_⟩
    · rw [chatChunks_content]
      simpa [Function.comp_def] using hjoin
    · intro c hc
      obtain ⟨d,hd,hcontent,hnone⟩ := mem_chatChunks hc
      obtain ⟨part,hpart,rfl⟩ := List.mem_map.1 hd
      rw [hcontent,hnone]
      exact ⟨(hparts part hpart).1,(hparts part hpart).2,rfl⟩
    · simp [toChatChunk,hfinish,FinishReason.stop,wireFinishReason,FinishReason.length,
        FinishReason.contentFilter]
    · intro i c hc
      simpa using hroles i c hc
  · intro r₀ req requested served consulted stream v₀ tr₀ out₀ hlive hr₀ id fields ans hstored h
      hfields hd
    obtain ⟨created₀,gone,-,hliveShown,hcache⟩ := relayStream_shown hlive hr₀
    obtain ⟨hend,-,e₀,now,hput,hcontent,hstop⟩ := hcache _ _ hstored
    obtain ⟨hsame,hsameFinish⟩ := decodeEntry_of_stored (by rw [hput] at hfields; exact hfields) hd
    have hclosed : closing stream gone = [.event .done] := by rw [closing,hend]
    rw [hclosed] at hliveShown
    obtain ⟨hliveContent,hliveFinish⟩ := gather_live stream r₀ served created₀
    rw [← hliveShown] at hliveContent hliveFinish
    have hstopped : stream.relay.finish = .stop := by
      rw [← hfinish,hsameFinish,hstop]
      rfl
    rw [hgather,hliveContent,hliveFinish,StreamReader.lastFinish_of_stop hstopped,hsame,hcontent,
      hfinish]
    exact ⟨rfl,rfl⟩

def longReply : String := "hello, caller of the model; this reply is replayed in pieces"

def helloEntry : Cache.Entry := ⟨longReply,.stop,10,20,"m2","openai",some 7,0,[]⟩

/-- The entry replayed in several pieces and the entry sent whole. -/
theorem replay_faithful_hello :
    ∃ tr out tr' out',(serveStreamFromCache (greeting true) helloEntry .zero).Returns tr out ∧
      (serveFromCache (greeting true) helloEntry .zero).Returns tr' out' ∧
      gather (shown tr) = gather (shown tr') ∧
      ∃ cs : List ChatChunk,∃ last : ChatChunk,
        shown tr = (cs ++ [last]).map .chunk ++ [.event .done] ∧ 1 < cs.length ∧
        String.join (cs.map (·.content)) = longReply := by
  let world := answering (openingWorld helloStream)
  have hreplay := returns_exec world (serveStreamFromCache (greeting true) helloEntry .zero) ()
  have hwhole := returns_exec world (serveFromCache (greeting true) helloEntry .zero) ()
  obtain ⟨hsame,⟨cs,last,hshown,hjoin,-⟩,-⟩ :=
    replay_faithful (e := helloEntry) rfl rfl hreplay (openingWorld_reached _ _)
  have hcount : (shown ((serveStreamFromCache (greeting true) helloEntry .zero).exec world
      ()).1).length = 5 := by decide +kernel
  rw [hshown] at hcount
  exact ⟨_,_,_,_,hreplay,hwhole,hsame hwhole,cs,last,hshown,by simp at hcount; omega,hjoin⟩

end Switchyard.Proxy
