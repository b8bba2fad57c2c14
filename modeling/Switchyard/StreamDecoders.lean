import Switchyard.ChatFootprint
import Switchyard.SseReader
set_option autoImplicit false

/-!
The stream decoders of the adapters whose upstreams send server-sent events
(internal/provider: openai.go, anthropic.go, gemini.go), and what the relay loop
gathers from a completion that one of them streams.
-/

namespace Switchyard.Provider
open GoText Resilience

/-- `json.Unmarshal` into one type. Neither text is JSON. -/
structure Unmarshal (α : Type) where
  read : String → Except String α
  empty : ∀ w,read "" ≠ .ok w
  done : ∀ w,read "[DONE]" ≠ .ok w

structure OaiStreamChoice where
  content : String
  finishReason : Option String
  deriving DecidableEq, Repr

structure OaiStreamChunk where
  choices : List OaiStreamChoice
  usage : Option Usage
  deriving DecidableEq, Repr

structure AnthropicMessageStartEvent where
  inputTokens : Int
  deriving DecidableEq, Repr

structure AnthropicContentBlockDeltaEvent where
  type : String
  text : String
  deriving DecidableEq, Repr

structure AnthropicMessageDeltaEvent where
  stopReason : String
  outputTokens : Int
  deriving DecidableEq, Repr

structure AnthropicErrorEnvelope where
  message : String
  deriving DecidableEq, Repr

structure StreamJSON where
  oaiStreamChunk : Unmarshal OaiStreamChunk
  messageStart : Unmarshal AnthropicMessageStartEvent
  contentBlockDelta : Unmarshal AnthropicContentBlockDeltaEvent
  messageDelta : Unmarshal AnthropicMessageDeltaEvent
  errorEnvelope : Unmarshal AnthropicErrorEnvelope
  geminiResponse : Unmarshal GeminiResponse

def Decoded.skip : Decoded Chunk Fault := ⟨none,false,none⟩
def Decoded.finished : Decoded Chunk Fault := ⟨none,true,none⟩
def Decoded.send (c : Chunk) : Decoded Chunk Fault := ⟨some c,false,none⟩
def Decoded.fail (f : Fault) : Decoded Chunk Fault := ⟨none,false,some f⟩

variable (json : StreamJSON) (p : Adapter) (model : String)

def oaiDecodeStreamEvent : Decoder Unit Chunk Fault := fun _ ev =>
  let data := trimSpace ev.data
  if data = "" then ((),.skip)
  else if data = "[DONE]" then ((),.finished)
  else
    match json.oaiStreamChunk.read data with
    | .error e => ((),.fail (.other s!"decoding {p.name} stream chunk: {e}"))
    | .ok wire =>
      match wire.choices with
      | [] => ((),.send ⟨"",⟨""⟩,wire.usage⟩)
      | choice :: _ =>
        ((),.send ⟨choice.content,(choice.finishReason.map oaiFinishReason).getD ⟨""⟩,wire.usage⟩)

/-- The closure of `Anthropic.newStreamDecoder`; its state is inputTokens. -/
def anthropicStreamDecoder : Decoder Int Chunk Fault := fun inputTokens ev =>
  let data := trimSpace ev.data
  let undecoded := fun e => Decoded.fail (.other s!"decoding {p.name} stream event: {e}")
  if data = "" then (inputTokens,.skip)
  else if ev.event = "message_start" then
    match json.messageStart.read data with
    | .error e => (inputTokens,undecoded e)
    | .ok wire => (wire.inputTokens,.skip)
  else if ev.event = "content_block_delta" then
    match json.contentBlockDelta.read data with
    | .error e => (inputTokens,undecoded e)
    | .ok wire =>
      if wire.type ≠ "text_delta" then (inputTokens,.skip)
      else (inputTokens,.send ⟨wire.text,⟨""⟩,none⟩)
  else if ev.event = "message_delta" then
    match json.messageDelta.read data with
    | .error e => (inputTokens,undecoded e)
    | .ok wire =>
      let finish := if wire.stopReason ≠ "" then anthropicFinishReason wire.stopReason else ⟨""⟩
      (inputTokens,.send ⟨"",finish,some ⟨inputTokens,wire.outputTokens⟩⟩)
  else if ev.event = "message_stop" then (inputTokens,.finished)
  else if ev.event = "error" then
    let message := match json.errorEnvelope.read data with
      | .error _ => ""
      | .ok wire => wire.message
    (inputTokens,.fail (.provider
      ⟨.serverError,p.name,model,0,true,0,truncateMessage message,none⟩))
  else (inputTokens,.skip)

def geminiDecodeStreamEvent : Decoder Unit Chunk Fault := fun _ ev =>
  let data := trimSpace ev.data
  if data = "" then ((),.skip)
  else
    match json.geminiResponse.read data with
    | .error e => ((),.fail (.other s!"decoding {p.name} stream chunk: {e}"))
    | .ok wire =>
      if wire.blockReason ≠ "" then
        ((),.fail (.provider ⟨.contentPolicy,p.name,model,200,false,0,
          "prompt blocked: " ++ truncateMessage wire.blockReason,none⟩))
      else
        let usage := if wire.promptTokenCount ≠ 0 ∨ wire.candidatesTokenCount ≠ 0 then
          some ⟨wire.promptTokenCount,wire.candidatesTokenCount⟩ else none
        match wire.candidates with
        | [] => ((),.send ⟨"",⟨""⟩,usage⟩)
        | candidate :: _ =>
          let finish :=
            if candidate.finishReason ≠ "" then geminiFinishReason candidate.finishReason
            else ⟨""⟩
          ((),.send ⟨String.join candidate.parts,finish,usage⟩)

/-- What an upstream has to send: the text, why it stopped and what it counted. -/
structure Generation where
  text : String
  reason : String
  usage : Usage
  deriving DecidableEq, Repr

def GeminiResponse.usage (w : GeminiResponse) : Usage := ⟨w.promptTokenCount,w.candidatesTokenCount⟩

def OaiChatResponse.Sends (b : OaiChatResponse) (g : Generation) : Prop :=
  (∃ more,b.choices = ⟨g.text,g.reason⟩ :: more) ∧
    (⟨b.promptTokens,b.completionTokens⟩ : Usage) = g.usage

def AnthropicResponse.Sends (b : AnthropicResponse) (g : Generation) : Prop :=
  b.content ≠ [] ∧ String.join ((b.content.filter (·.type = "text")).map (·.text)) = g.text ∧
    b.stopReason = g.reason ∧ (⟨b.inputTokens,b.outputTokens⟩ : Usage) = g.usage

def GeminiResponse.Sends (b : GeminiResponse) (g : Generation) : Prop :=
  b.blockReason = "" ∧
    (∃ parts more,b.candidates = ⟨parts,g.reason⟩ :: more ∧ String.join parts = g.text) ∧
    b.usage = g.usage

def SseEvent.Holds {α : Type} (ev : SseEvent) (u : Unmarshal α) (w : α) : Prop :=
  u.read (trimSpace ev.data) = .ok w

theorem SseEvent.Holds.text {α : Type} {ev : SseEvent} {u : Unmarshal α} {w : α}
    (h : ev.Holds u w) : trimSpace ev.data ≠ "" ∧ trimSpace ev.data ≠ "[DONE]" := by
  unfold SseEvent.Holds at h
  constructor
  · intro he
    rw [he] at h
    exact u.empty w h
  · intro he
    rw [he] at h
    exact u.done w h

/-- An event that says nothing about the completion: no data, or an object without
choices or usage. -/
def OaiIdle (ev : SseEvent) : Prop :=
  trimSpace ev.data = "" ∨ ev.Holds json.oaiStreamChunk ⟨[],none⟩

/-- From the stop reason to `[DONE]`, with the usage last reported. -/
inductive OaiClosing (u : Usage) : Option Usage → List SseEvent → Prop
  | idle {ev : SseEvent} {v : Option Usage} {evs : List SseEvent} :
      OaiIdle json ev → OaiClosing u v evs → OaiClosing u v (ev :: evs)
  | usage {ev : SseEvent} {v : Option Usage} {w : Usage} {evs : List SseEvent} :
      ev.Holds json.oaiStreamChunk ⟨[],some w⟩ → OaiClosing u (some w) evs →
      OaiClosing u v (ev :: evs)
  | done {ev : SseEvent} {evs : List SseEvent} :
      trimSpace ev.data = "[DONE]" → OaiClosing u (some u) (ev :: evs)

/-- The OpenAI event stream of a completion whose text is cut into the pieces. -/
inductive OaiStream (reason : String) (u : Usage) : List String → List SseEvent → Prop
  | idle {ev : SseEvent} {ps : List String} {evs : List SseEvent} :
      OaiIdle json ev → OaiStream reason u ps evs → OaiStream reason u ps (ev :: evs)
  | delta {ev : SseEvent} {piece : String} {more : List OaiStreamChoice} {v : Option Usage}
      {ps : List String} {evs : List SseEvent} :
      ev.Holds json.oaiStreamChunk ⟨⟨piece,none⟩ :: more,v⟩ → OaiStream reason u ps evs →
      OaiStream reason u (piece :: ps) (ev :: evs)
  | stop {ev : SseEvent} {piece : String} {more : List OaiStreamChoice} {v : Option Usage}
      {evs : List SseEvent} :
      ev.Holds json.oaiStreamChunk ⟨⟨piece,some reason⟩ :: more,v⟩ → OaiClosing json u v evs →
      OaiStream reason u [piece] (ev :: evs)

/-- No data, a name the decoder does not know, or a delta that is not text. -/
def AnthropicIdle (ev : SseEvent) : Prop :=
  trimSpace ev.data = "" ∨
    ev.event ∉ ["message_start","content_block_delta","message_delta","message_stop","error"] ∨
    ev.event = "content_block_delta" ∧
      ∃ w,ev.Holds json.contentBlockDelta w ∧ w.type ≠ "text_delta"

inductive AnthropicClosing : List SseEvent → Prop
  | idle {ev : SseEvent} {evs : List SseEvent} :
      AnthropicIdle json ev → AnthropicClosing evs → AnthropicClosing (ev :: evs)
  | stop {ev : SseEvent} {evs : List SseEvent} :
      ev.event = "message_stop" → trimSpace ev.data ≠ "" → AnthropicClosing (ev :: evs)

/-- The Anthropic event stream of a completion, before or after its message_start. -/
inductive AnthropicStream (reason : String) (u : Usage) :
    Bool → List String → List SseEvent → Prop
  | idle {ev : SseEvent} {started : Bool} {ps : List String} {evs : List SseEvent} :
      AnthropicIdle json ev → AnthropicStream reason u started ps evs →
      AnthropicStream reason u started ps (ev :: evs)
  | start {ev : SseEvent} {ps : List String} {evs : List SseEvent} :
      ev.event = "message_start" → ev.Holds json.messageStart ⟨u.inputTokens⟩ →
      AnthropicStream reason u true ps evs → AnthropicStream reason u false ps (ev :: evs)
  | delta {ev : SseEvent} {piece : String} {ps : List String} {evs : List SseEvent} :
      ev.event = "content_block_delta" → ev.Holds json.contentBlockDelta ⟨"text_delta",piece⟩ →
      AnthropicStream reason u true ps evs → AnthropicStream reason u true (piece :: ps) (ev :: evs)
  | stop {ev : SseEvent} {evs : List SseEvent} :
      ev.event = "message_delta" → ev.Holds json.messageDelta ⟨reason,u.outputTokens⟩ →
      AnthropicClosing json evs → AnthropicStream reason u true [] (ev :: evs)

/-- No data, or an object without candidates or counts. -/
def GeminiIdle (ev : SseEvent) : Prop :=
  trimSpace ev.data = "" ∨ ∃ w,ev.Holds json.geminiResponse w ∧ w.blockReason = "" ∧
    w.candidates = [] ∧ w.usage = ⟨0,0⟩

/-- From the stop reason to the end of the stream, with the counts last reported. -/
inductive GeminiClosing (u : Usage) : Usage → List SseEvent → Prop
  | idle {ev : SseEvent} {v : Usage} {evs : List SseEvent} :
      GeminiIdle json ev → GeminiClosing u v evs → GeminiClosing u v (ev :: evs)
  | usage {ev : SseEvent} {v : Usage} {w : GeminiResponse} {evs : List SseEvent} :
      ev.Holds json.geminiResponse w → w.blockReason = "" → w.candidates = [] →
      w.usage ≠ ⟨0,0⟩ → GeminiClosing u w.usage evs → GeminiClosing u v (ev :: evs)
  | ended : GeminiClosing u u []

/-- The Gemini event stream of a completion. Counts may come with every event, but
not where the completion has none. -/
inductive GeminiStream (reason : String) (u : Usage) : List String → List SseEvent → Prop
  | idle {ev : SseEvent} {ps : List String} {evs : List SseEvent} :
      GeminiIdle json ev → GeminiStream reason u ps evs → GeminiStream reason u ps (ev :: evs)
  | delta {ev : SseEvent} {w : GeminiResponse} {parts : List String}
      {more : List GeminiCandidate} {ps : List String} {evs : List SseEvent} :
      ev.Holds json.geminiResponse w → w.blockReason = "" → w.candidates = ⟨parts,""⟩ :: more →
      (u = ⟨0,0⟩ → w.usage = ⟨0,0⟩) → GeminiStream reason u ps evs →
      GeminiStream reason u (String.join parts :: ps) (ev :: evs)
  | stop {ev : SseEvent} {w : GeminiResponse} {parts : List String}
      {more : List GeminiCandidate} {evs : List SseEvent} :
      ev.Holds json.geminiResponse w → w.blockReason = "" →
      w.candidates = ⟨parts,reason⟩ :: more → GeminiClosing json u w.usage evs →
      GeminiStream reason u [String.join parts] (ev :: evs)

end Switchyard.Provider

namespace Switchyard.Proxy
open GoText Provider Resilience

section Relayed
variable {σ : Type} (decode : Decoder σ Chunk Fault) {s t : σ} (acc : Relay)
  {ev : Provider.SseEvent}

/-- The relay after everything the decoder makes of the events, and what ended it. -/
def relayed (s : σ) (acc : Relay) (evs : List Provider.SseEvent) : Relay × RecvErr Fault :=
  let read := decoded decode s evs
  (read.1.foldl Relay.receive acc,read.2)

variable (evs : List Provider.SseEvent)

theorem relayed_nil : relayed decode s acc [] = (acc,.eof) := rfl

theorem relayed_skip (h : decode s ev = (t,.skip)) :
    relayed decode s acc (ev :: evs) = relayed decode t acc evs := by
  simp [relayed,decoded,h,Decoded.skip]

theorem relayed_send {c : Chunk} (h : decode s ev = (t,.send c)) :
    relayed decode s acc (ev :: evs) = relayed decode t (acc.receive c) evs := by
  simp [relayed,decoded,h,Decoded.send]

theorem relayed_finished (h : decode s ev = (t,.finished)) :
    relayed decode s acc (ev :: evs) = (acc,.eof) := by
  simp [relayed,decoded,h,Decoded.finished]

end Relayed

@[simp] theorem Relay.receive_nothing (acc : Relay) : acc.receive ⟨"",⟨""⟩,none⟩ = acc := by
  simp [Relay.receive]

variable (json : StreamJSON) (p : Adapter) (model : String) {ev : Provider.SseEvent}
  {evs : List Provider.SseEvent} {reason : String} {u : Usage} {ps : List String}

section OpenAI

theorem oaiFinishReason_ne (r : String) : (oaiFinishReason r).text ≠ "" := by
  unfold oaiFinishReason
  split_ifs <;> decide

def oaiChunk (w : OaiStreamChunk) : Chunk :=
  match w.choices with
  | [] => ⟨"",⟨""⟩,w.usage⟩
  | choice :: _ => ⟨choice.content,(choice.finishReason.map oaiFinishReason).getD ⟨""⟩,w.usage⟩

theorem oaiDecode_holds {w : OaiStreamChunk} (h : ev.Holds json.oaiStreamChunk w) :
    oaiDecodeStreamEvent json p () ev = ((),.send (oaiChunk w)) := by
  obtain ⟨hne,hdone⟩ := h.text
  simp only [oaiDecodeStreamEvent,if_neg hne,if_neg hdone]
  rw [show json.oaiStreamChunk.read (trimSpace ev.data) = .ok w from h]
  simp only [oaiChunk]
  split <;> rfl

theorem relayed_oaiIdle (h : OaiIdle json ev) (acc : Relay) (evs : List Provider.SseEvent) :
    relayed (oaiDecodeStreamEvent json p) () acc (ev :: evs) =
      relayed (oaiDecodeStreamEvent json p) () acc evs := by
  obtain hblank | hobject := h
  · exact relayed_skip _ _ _ (by simp [oaiDecodeStreamEvent,hblank])
  · rw [relayed_send _ _ _ (oaiDecode_holds json p hobject)]
    simp [oaiChunk]

theorem relayed_oaiClosing {v : Option Usage} (h : OaiClosing json u v evs) (acc : Relay)
    (hv : ∀ w,v = some w → acc.usage = w) :
    relayed (oaiDecodeStreamEvent json p) () acc evs = ({ acc with usage := u },.eof) := by
  induction h generalizing acc with
  | idle hidle _ ih => rw [relayed_oaiIdle json p hidle,ih acc hv]
  | usage hholds _ ih =>
    rw [relayed_send _ _ _ (oaiDecode_holds json p hholds),ih]
    · simp [oaiChunk,Relay.receive]
    · intro w hw
      obtain rfl := Option.some.inj hw
      rfl
  | done hdata =>
    rw [relayed_finished _ _ _ (t := ()) (by simp [oaiDecodeStreamEvent,hdata]),← hv u rfl]

theorem relayed_oaiStream (h : OaiStream json reason u ps evs) (acc : Relay) :
    relayed (oaiDecodeStreamEvent json p) () acc evs =
      ({ acc with content := acc.content ++ String.join ps, finish := oaiFinishReason reason,
                  usage := u },.eof) := by
  induction h generalizing acc with
  | idle hidle _ ih => rw [relayed_oaiIdle json p hidle,ih acc]
  | delta hholds _ ih =>
    rw [relayed_send _ _ _ (oaiDecode_holds json p hholds),ih]
    simp [oaiChunk,Relay.receive,String.append_assoc]
  | stop hholds hclosing =>
    rw [relayed_send _ _ _ (oaiDecode_holds json p hholds),relayed_oaiClosing json p hclosing]
    · simp [oaiChunk,Relay.receive,oaiFinishReason_ne]
    · intro w hw
      simp [oaiChunk,Relay.receive,hw]

end OpenAI

section Anthropic

theorem anthropicFinishReason_ne (r : String) : (anthropicFinishReason r).text ≠ "" := by
  unfold anthropicFinishReason
  split_ifs <;> decide

theorem relayed_anthropicIdle (h : AnthropicIdle json ev) (n : Int)
    (acc : Relay) (evs : List Provider.SseEvent) :
    relayed (anthropicStreamDecoder json p model) n acc (ev :: evs) =
      relayed (anthropicStreamDecoder json p model) n acc evs := by
  apply relayed_skip
  obtain hblank | hname | ⟨hname,w,hholds,htype⟩ := h
  · simp [anthropicStreamDecoder,hblank]
  · simp only [List.mem_cons,List.not_mem_nil,or_false,not_or] at hname
    obtain ⟨h₁,h₂,h₃,h₄,h₅⟩ := hname
    simp [anthropicStreamDecoder,h₁,h₂,h₃,h₄,h₅]
  · unfold SseEvent.Holds at hholds
    simp [anthropicStreamDecoder,hname,hholds,htype]

theorem relayed_anthropicClosing (h : AnthropicClosing json evs) (n : Int) (acc : Relay) :
    relayed (anthropicStreamDecoder json p model) n acc evs = (acc,.eof) := by
  induction h with
  | idle hidle _ ih => rw [relayed_anthropicIdle json p model hidle,ih]
  | stop hname hdata =>
    exact relayed_finished _ _ _ (t := n) (by simp [anthropicStreamDecoder,hname,hdata])

theorem relayed_anthropicStream (hreason : reason ≠ "") {started : Bool}
    (h : AnthropicStream json reason u started ps evs) (n : Int)
    (hn : started = true → n = u.inputTokens) (acc : Relay) :
    relayed (anthropicStreamDecoder json p model) n acc evs =
      ({ acc with content := acc.content ++ String.join ps, finish := anthropicFinishReason reason,
                  usage := u },.eof) := by
  induction h generalizing n acc with
  | idle hidle _ ih => rw [relayed_anthropicIdle json p model hidle,ih n hn acc]
  | @start ev ps evs hname hholds _ ih =>
    have hne := hholds.text.1
    unfold SseEvent.Holds at hholds
    have hdecode : anthropicStreamDecoder json p model n ev = (u.inputTokens,.skip) := by
      simp [anthropicStreamDecoder,hname,hne,hholds]
    rw [relayed_skip _ _ _ hdecode,ih _ fun _ => rfl]
  | @delta ev piece ps evs hname hholds _ ih =>
    have hne := hholds.text.1
    unfold SseEvent.Holds at hholds
    have hdecode : anthropicStreamDecoder json p model n ev = (n,.send ⟨piece,⟨""⟩,none⟩) := by
      simp [anthropicStreamDecoder,hname,hne,hholds]
    rw [relayed_send _ _ _ hdecode,ih n hn]
    simp [Relay.receive,String.append_assoc]
  | @stop ev evs hname hholds hclosing =>
    have hne := hholds.text.1
    unfold SseEvent.Holds at hholds
    have hdecode : anthropicStreamDecoder json p model n ev =
        (n,.send ⟨"",anthropicFinishReason reason,some ⟨n,u.outputTokens⟩⟩) := by
      simp [anthropicStreamDecoder,hname,hne,hholds,hreason]
    rw [relayed_send _ _ _ hdecode,relayed_anthropicClosing json p model hclosing]
    simp [Relay.receive,anthropicFinishReason_ne,hn rfl]

end Anthropic

section Gemini

theorem geminiFinishReason_ne (r : String) : (geminiFinishReason r).text ≠ "" := by
  unfold geminiFinishReason
  split_ifs <;> decide

def geminiChunk (w : GeminiResponse) : Chunk :=
  let usage := if w.usage = ⟨0,0⟩ then none else some w.usage
  match w.candidates with
  | [] => ⟨"",⟨""⟩,usage⟩
  | candidate :: _ =>
    let finish := if candidate.finishReason ≠ "" then geminiFinishReason candidate.finishReason
      else ⟨""⟩
    ⟨String.join candidate.parts,finish,usage⟩

theorem geminiDecode_holds {w : GeminiResponse}
    (h : ev.Holds json.geminiResponse w) (hblock : w.blockReason = "") :
    geminiDecodeStreamEvent json p model () ev = ((),.send (geminiChunk w)) := by
  have hne := h.text.1
  have husage : (if w.promptTokenCount ≠ 0 ∨ w.candidatesTokenCount ≠ 0 then
      some (⟨w.promptTokenCount,w.candidatesTokenCount⟩ : Usage) else none) =
      if w.usage = ⟨0,0⟩ then none else some w.usage := by
    simp only [GeminiResponse.usage,Usage.mk.injEq]
    split_ifs <;> simp_all
  unfold SseEvent.Holds at h
  simp only [geminiDecodeStreamEvent,if_neg hne,h,hblock,ne_eq,not_true,if_false,geminiChunk]
  simp only [ne_eq] at husage
  rw [husage]
  split <;> rfl

theorem relayed_geminiIdle (h : GeminiIdle json ev) (acc : Relay) (evs : List Provider.SseEvent) :
    relayed (geminiDecodeStreamEvent json p model) () acc (ev :: evs) =
      relayed (geminiDecodeStreamEvent json p model) () acc evs := by
  obtain hblank | ⟨w,hholds,hblock,hnone,hzero⟩ := h
  · exact relayed_skip _ _ _ (by simp [geminiDecodeStreamEvent,hblank])
  · rw [relayed_send _ _ _ (geminiDecode_holds json p model hholds hblock)]
    simp [geminiChunk,hnone,hzero]

theorem relayed_geminiClosing {v : Usage} (h : GeminiClosing json u v evs) (acc : Relay)
    (hv : acc.usage = v ∨ v = ⟨0,0⟩ ∧ u ≠ ⟨0,0⟩) :
    relayed (geminiDecodeStreamEvent json p model) () acc evs = ({ acc with usage := u },.eof) := by
  induction h generalizing acc with
  | idle hidle _ ih => rw [relayed_geminiIdle json p model hidle,ih acc hv]
  | usage hholds hblock hnone hcount _ ih =>
    rw [relayed_send _ _ _ (geminiDecode_holds json p model hholds hblock),ih]
    · simp [geminiChunk,hnone,Relay.receive]
    · exact .inl (by simp [geminiChunk,hnone,hcount,Relay.receive])
  | ended =>
    obtain hv | ⟨hzero,hne⟩ := hv
    · rw [relayed_nil,← hv]
    · exact absurd hzero hne

theorem relayed_geminiStream (hreason : reason ≠ "") (h : GeminiStream json reason u ps evs)
    (acc : Relay) (hu : u = ⟨0,0⟩ → acc.usage = ⟨0,0⟩) :
    relayed (geminiDecodeStreamEvent json p model) () acc evs =
      ({ acc with content := acc.content ++ String.join ps, finish := geminiFinishReason reason,
                  usage := u },.eof) := by
  induction h generalizing acc with
  | idle hidle _ ih => rw [relayed_geminiIdle json p model hidle,ih acc hu]
  | delta hholds hblock hcand hcount _ ih =>
    rw [relayed_send _ _ _ (geminiDecode_holds json p model hholds hblock),ih]
    · simp [geminiChunk,hcand,Relay.receive,String.append_assoc]
    · intro hz
      simp [geminiChunk,hcand,Relay.receive,hcount hz,hu hz]
  | @stop ev w parts more evs hholds hblock hcand hclosing =>
    rw [relayed_send _ _ _ (geminiDecode_holds json p model hholds hblock),
      relayed_geminiClosing json p model hclosing]
    · simp [geminiChunk,hcand,Relay.receive,hreason,geminiFinishReason_ne]
    · -- counts that are zero leave the earlier ones standing
      by_cases hzero : w.usage = ⟨0,0⟩
      · by_cases hz : u = ⟨0,0⟩
        · exact .inl (by simp [geminiChunk,hcand,Relay.receive,hzero,hu hz])
        · exact .inr ⟨hzero,hz⟩
      · exact .inl (by simp [geminiChunk,hcand,Relay.receive,hzero])

end Gemini

/-- The stream, read by `Recv` to its end, leaves the relay with the response that
the body is translated to. -/
def Agrees {σ : Type} (whole : Except Provider.Error Response) (decode : Decoder σ Chunk Fault)
    (s : σ) (text : List Char) : Prop :=
  ∃ resp chunks,whole = .ok resp ∧
    SseStreamReader.recvs decode (chunks.length+1) ⟨newSSEReader text none,s⟩ =
      chunks.map .ok ++ [.error .eof] ∧
    let relay := StreamReader.relay ⟨chunks,.eof⟩
    relay.content = resp.content ∧ relay.finish = resp.finishReason ∧ relay.usage = resp.usage

theorem agrees_of_relayed {σ : Type} {whole : Except Provider.Error Response}
    {decode : Decoder σ Chunk Fault} {s : σ} {evs : List Provider.SseEvent} {text : List Char}
    {resp : Response} {relay : Relay} (hwhole : whole = .ok resp) (hstreams : Streams evs text)
    (hrelayed : relayed decode s .start evs = (relay,.eof))
    (hcontent : relay.content = resp.content) (hfinish : relay.finish = resp.finishReason)
    (husage : relay.usage = resp.usage) : Agrees whole decode s text := by
  obtain ⟨hrelay,hend⟩ := Prod.mk.inj hrelayed
  have hrecvs := SseStreamReader.recvs_yields decode hstreams.yields s
  rw [hend] at hrecvs
  refine ⟨resp,_,hwhole,hrecvs,?_⟩
  simp only [StreamReader.relay,hrelay]
  exact ⟨hcontent,hfinish,husage⟩

/-- A completion comes out the same streamed and whole, for the adapters that read
server-sent events. -/
theorem streamed_as_whole (json : StreamJSON) (cfg : Provider.Config) (model : String)
    (g : Generation) (hreason : g.reason ≠ "") {ps : List String} (hps : String.join ps = g.text)
    {evs : List Provider.SseEvent} {text : List Char} (hstreams : Streams evs text) :
    (∀ b : OaiChatResponse,b.Sends g → OaiStream json g.reason g.usage ps evs →
      Agrees (translateResponse ⟨cfg,.openAICompatible⟩ model (.ok b))
        (oaiDecodeStreamEvent json ⟨cfg,.openAICompatible⟩) () text) ∧
    (∀ b : AnthropicResponse,b.Sends g → AnthropicStream json g.reason g.usage false ps evs →
      Agrees (translateResponse ⟨cfg,.anthropic⟩ model (.ok b))
        (anthropicStreamDecoder json ⟨cfg,.anthropic⟩ model) 0 text) ∧
    (∀ b : GeminiResponse,b.Sends g → GeminiStream json g.reason g.usage ps evs →
      Agrees (translateResponse ⟨cfg,.gemini⟩ model (.ok b))
        (geminiDecodeStreamEvent json ⟨cfg,.gemini⟩ model) () text) := by
  have hcontent : "" ++ String.join ps = g.text := by rw [hps,String.empty_append]
  refine ⟨?_,?_,?_⟩
  · rintro b ⟨⟨more,hchoices⟩,husage⟩ hstream
    have hwhole : translateResponse ⟨cfg,.openAICompatible⟩ model (.ok b) =
        .ok ⟨g.text,oaiFinishReason g.reason,g.usage,servedName b.model model,cfg.name⟩ := by
      simp [translateResponse,hchoices,Body.usage,husage,Body.model,Adapter.name]
    exact agrees_of_relayed hwhole hstreams (relayed_oaiStream json _ hstream .start)
      hcontent rfl rfl
  · rintro b ⟨hne,htext,hstop,husage⟩ hstream
    have hwhole : translateResponse ⟨cfg,.anthropic⟩ model (.ok b) =
        .ok ⟨g.text,anthropicFinishReason g.reason,g.usage,servedName b.model model,cfg.name⟩ := by
      obtain ⟨block,blocks,hblocks⟩ := List.exists_cons_of_ne_nil hne
      rw [hblocks] at htext
      simp [translateResponse,hblocks,htext,hstop,Body.usage,husage,Body.model,Adapter.name]
    exact agrees_of_relayed hwhole hstreams
      (relayed_anthropicStream json _ model hreason hstream 0 (by simp) .start) hcontent rfl rfl
  · rintro b ⟨hblock,⟨parts,more,hcand,htext⟩,husage⟩ hstream
    have hwhole : translateResponse ⟨cfg,.gemini⟩ model (.ok b) =
        .ok ⟨g.text,geminiFinishReason g.reason,g.usage,servedName b.modelVersion model,
          cfg.name⟩ := by
      have hcounts : (⟨b.promptTokenCount,b.candidatesTokenCount⟩ : Usage) = g.usage := husage
      simp [translateResponse,hblock,hcand,htext,Body.usage,hcounts,Body.model,Adapter.name]
    exact agrees_of_relayed hwhole hstreams
      (relayed_geminiStream json _ model hreason hstream .start fun _ => rfl) hcontent rfl rfl

def tableJSON {α : Type} (l : List (String × α)) (hempty : l.lookup "" = none)
    (hdone : l.lookup "[DONE]" = none) : Unmarshal α where
  read t := match l.lookup t with
    | some w => .ok w
    | none => .error "invalid character"
  empty w := by simp [hempty]
  done w := by simp [hdone]

def jsonObject (members : List (String × String)) : String :=
  "\x7b" ++ ",".intercalate (members.map fun m => "\"" ++ m.1 ++ "\":" ++ m.2) ++ "\x7d"

def oaiPiece (text reason : String) : String :=
  jsonObject [("choices","[" ++ jsonObject [("delta",jsonObject [("content",text)]),
    ("finish_reason",reason)] ++ "]")]

def oaiUsage : String := jsonObject [("choices","[]"),
  ("usage",jsonObject [("prompt_tokens","3"),("completion_tokens","2")])]

def anthropicStart : String :=
  jsonObject [("message",jsonObject [("usage",jsonObject [("input_tokens","3")])])]

def anthropicPiece (text : String) : String :=
  jsonObject [("delta",jsonObject [("type","\"text_delta\""),("text",text)])]

def anthropicStop : String := jsonObject [("delta",jsonObject [("stop_reason","\"end_turn\"")]),
  ("usage",jsonObject [("output_tokens","2")])]

def geminiPiece (text : String) (finish usage : List (String × String)) : String :=
  jsonObject (("candidates","[" ++ jsonObject (("content",jsonObject [("parts","[" ++
    jsonObject [("text",text)] ++ "]")]) :: finish) ++ "]") :: usage)

def geminiHi : String := geminiPiece "\"Hi\"" [] []

def geminiStop : String := geminiPiece "\"!\"" [("finishReason","\"STOP\"")]
  [("usageMetadata",jsonObject [("promptTokenCount","3"),("candidatesTokenCount","2")])]

def greetingJSON : StreamJSON where
  oaiStreamChunk := tableJSON [(oaiPiece "\"Hi\"" "null",⟨[⟨"Hi",none⟩],none⟩),
    (oaiPiece "\"!\"" "\"stop\"",⟨[⟨"!",some "stop"⟩],none⟩),(oaiUsage,⟨[],some ⟨3,2⟩⟩)]
    (by decide +kernel) (by decide +kernel)
  messageStart := tableJSON [(anthropicStart,⟨3⟩)] (by decide +kernel) (by decide +kernel)
  contentBlockDelta := tableJSON [(anthropicPiece "\"Hi\"",⟨"text_delta","Hi"⟩),
    (anthropicPiece "\"!\"",⟨"text_delta","!"⟩)] (by decide +kernel) (by decide +kernel)
  messageDelta := tableJSON [(anthropicStop,⟨"end_turn",2⟩)] (by decide +kernel) (by decide +kernel)
  errorEnvelope := tableJSON [] rfl rfl
  geminiResponse := tableJSON [(geminiHi,⟨[⟨["Hi"],""⟩],"",0,0,""⟩),
    (geminiStop,⟨[⟨["!"],"STOP"⟩],"",3,2,""⟩)]
    (by decide +kernel) (by decide +kernel)

def greeter : Provider.Config := ⟨"p","","u","k",1,["m"],1,""⟩

def hello (reason : String) : Generation := ⟨"Hi!",reason,⟨3,2⟩⟩

def oaiGreeting : List Provider.SseEvent := [⟨"",oaiPiece "\"Hi\"" "null"⟩,⟨"ping",""⟩,
  ⟨"",oaiPiece "\"!\"" "\"stop\""⟩,⟨"",oaiUsage⟩,⟨"","[DONE]"⟩]

def anthropicGreeting : List Provider.SseEvent :=
  [⟨"message_start",anthropicStart⟩,⟨"content_block_delta",anthropicPiece "\"Hi\""⟩,
    ⟨"ping",jsonObject [("type","\"ping\"")]⟩,⟨"content_block_delta",anthropicPiece "\"!\""⟩,
    ⟨"message_delta",anthropicStop⟩,⟨"message_stop",jsonObject [("type","\"message_stop\"")]⟩]

def geminiGreeting : List Provider.SseEvent := [⟨"",geminiHi⟩,⟨"ping",""⟩,⟨"",geminiStop⟩]

/-- A greeting in two pieces, with a ping between them, in each of the dialects. -/
theorem streamed_as_whole_greeting :
    Agrees (translateResponse ⟨greeter,.openAICompatible⟩ "m" (.ok ⟨"m",[⟨"Hi!","stop"⟩],3,2⟩))
      (oaiDecodeStreamEvent greetingJSON ⟨greeter,.openAICompatible⟩) ()
      (writeEvents oaiGreeting) ∧
    Agrees (translateResponse ⟨greeter,.anthropic⟩ "m"
        (.ok ⟨"m",[⟨"text","Hi"⟩,⟨"text","!"⟩],"end_turn",3,2⟩))
      (anthropicStreamDecoder greetingJSON ⟨greeter,.anthropic⟩ "m") 0
      (writeEvents anthropicGreeting) ∧
    Agrees (translateResponse ⟨greeter,.gemini⟩ "m" (.ok ⟨[⟨["Hi!"],"STOP"⟩],"",3,2,"m"⟩))
      (geminiDecodeStreamEvent greetingJSON ⟨greeter,.gemini⟩ "m") ()
        (writeEvents geminiGreeting) := by
  have hpieces : String.join ["Hi","!"] = "Hi!" := by decide
  have hparts : String.join [String.join ["Hi"],String.join ["!"]] = (hello "STOP").text := by
    decide
  have hoai : Streams oaiGreeting _ := streams_writeEvents (by decide +kernel) (by decide +kernel)
  have hanthropic : Streams anthropicGreeting _ :=
    streams_writeEvents (by decide +kernel) (by decide +kernel)
  have hgemini : Streams geminiGreeting _ :=
    streams_writeEvents (by decide +kernel) (by decide +kernel)
  have hhi : SseEvent.Holds ⟨"",geminiHi⟩ greetingJSON.geminiResponse
    ⟨[⟨["Hi"],""⟩],"",0,0,""⟩ := by
    unfold SseEvent.Holds
    decide +kernel
  have hstop : SseEvent.Holds ⟨"",geminiStop⟩ greetingJSON.geminiResponse
    ⟨[⟨["!"],"STOP"⟩],"",3,2,""⟩ := by
    unfold SseEvent.Holds
    decide +kernel
  have hwhole := fun reason => streamed_as_whole greetingJSON greeter "m" (hello reason)
  refine ⟨(hwhole "stop" (by decide) hpieces hoai).1 _ ?_ ?_,
    (hwhole "end_turn" (by decide) hpieces hanthropic).2.1 _ ?_ ?_,
    (hwhole "STOP" (by decide) hparts hgemini).2.2 _ ?_ ?_⟩
  · exact ⟨⟨_,rfl⟩,rfl⟩
  · exact .delta rfl (.idle (.inl rfl) (.stop rfl (.usage rfl (.done rfl))))
  · exact ⟨by decide,by decide,rfl,rfl⟩
  · exact .start rfl rfl (.delta rfl rfl (.idle (.inr (.inl (by decide))) (.delta rfl rfl
      (.stop rfl rfl (.stop rfl (by decide))))))
  · exact ⟨rfl,⟨["Hi!"],_,rfl,by decide⟩,rfl⟩
  · exact .delta hhi rfl rfl (by decide) (.idle (.inl rfl) (.stop hstop rfl rfl .ended))

end Switchyard.Proxy
