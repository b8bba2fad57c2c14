import Mathlib.Algebra.Order.Ring.Rat
import Switchyard.MachineInt
import Switchyard.GoText
import Switchyard.ProviderTypes
set_option autoImplicit false

/-! The public chat-completions wire format (internal/proxy/wire.go). -/

namespace Switchyard.Proxy
open MachineInt GoText Provider

structure ChatMessage where
  role : String
  content : String
  deriving DecidableEq, Repr

/-- A decoded request body; the temperature is a finite float32's bits. -/
structure ChatRequest where
  model : String
  messages : List ChatMessage
  temperature : Option UInt32
  maxTokens : Int
  stream : Bool
  stop : List String
  deriving DecidableEq, Repr

def float32Value (bits : UInt32) : ℚ :=
  let exponent : Nat := (bits.toNat/2^23)%2^8
  let fraction : Nat := bits.toNat%2^23
  let magnitude : ℚ := if exponent = 0 then (fraction : ℚ)*2^(-149 : Int)
    else ((2^23+fraction : Nat) : ℚ)*2^((exponent : Int)-150)
  if bits.toNat/2^31 = 0 then magnitude else -magnitude

def validateRole (i : Nat) (m : ChatMessage) : Except String Unit :=
  if m.role = "system" ∨ m.role = "user" ∨ m.role = "assistant" then .ok ()
  else if m.role = "" then .error s!"messages[{i}]: role is required"
  else .error s!"messages[{i}]: unknown role {quote m.role} (want system, user, or assistant)"

/-- `validate`, given how a float32 is printed. -/
def ChatRequest.validate (r : ChatRequest) (printFloat : UInt32 → String) : Except String Unit := do
  if r.model = "" then .error "model is required"
  if r.messages = [] then .error "messages must contain at least one message"
  r.messages.zipIdx.forM fun p => validateRole p.2 p.1
  if r.maxTokens < 0 then .error "max_tokens cannot be negative"
  match r.temperature with
  | none => pure ()
  | some t =>
    if float32Value t < 0 ∨ 2 < float32Value t then
      .error s!"temperature {printFloat t} is outside the supported range 0 to 2"

def maxRequestBytes : Nat := 1048576

/-- What a JSON body of this request takes at least: two bytes of braces for
each message, and one byte for every three of its content, since the decoder
turns an invalid byte into the three of U+FFFD. -/
def ChatRequest.leastBody (r : ChatRequest) : Nat :=
  (r.messages.map fun m => 2+((bytes m.content).length+2)/3).sum

def charsPerToken : Int := 4

def perMessageTokenOverhead : Int := 4

def estimateMessage (total : Int) (m : ChatMessage) : Int :=
  add (add total
    (quo ((bytes m.content).length+charsPerToken-1) charsPerToken))
    perMessageTokenOverhead

def ChatRequest.estimateInputTokens (r : ChatRequest) : Int := r.messages.foldl estimateMessage 0

def ChatRequest.estimateOutputCeiling (r : ChatRequest) (defaultMaxTokens : Int) : Int :=
  if r.maxTokens > 0 then r.maxTokens else defaultMaxTokens

def ChatRequest.estimateTokens (r : ChatRequest) (defaultMaxTokens : Int) : Int :=
  add r.estimateInputTokens (r.estimateOutputCeiling defaultMaxTokens)

def ChatRequest.toProviderRequest (r : ChatRequest) : Request where
  model := r.model
  messages := r.messages.map fun m => ⟨⟨m.role⟩,m.content⟩
  temperature := r.temperature
  maxTokens := r.maxTokens
  stream := r.stream
  stop := r.stop

def chatCompletionID (requestID : String) : String := "chatcmpl-" ++ requestID

def wireFinishReason (r : FinishReason) : String :=
  if r = .length then "length" else if r = .contentFilter then "content_filter" else "stop"

structure ChatResponse where
  id : String
  created : Int
  model : String
  role : String
  content : String
  finishReason : String
  promptTokens : Int
  completionTokens : Int
  totalTokens : Int
  deriving DecidableEq, Repr

/-- The object and index fields are constants and are left out. -/
def toChatResponse (id : String) (created : Int) (resp : Response) : ChatResponse where
  id := chatCompletionID id
  created
  model := resp.model
  role := Role.assistant.text
  content := resp.content
  finishReason := wireFinishReason resp.finishReason
  promptTokens := resp.usage.inputTokens
  completionTokens := resp.usage.outputTokens
  totalTokens := add resp.usage.inputTokens resp.usage.outputTokens

structure ChatChunk where
  id : String
  created : Int
  model : String
  role : String
  content : String
  finishReason : Option String
  deriving DecidableEq, Repr

def toChatChunk (id : String) (created : Int) (model : String) (chunk : Chunk)
    (includeRole : Bool) : ChatChunk where
  id
  created
  model
  role := if includeRole then "assistant" else ""
  content := chunk.content
  finishReason := if chunk.finishReason.text = "" then none
    else some (wireFinishReason chunk.finishReason)

def ChatRequest.exactInputTokens (r : ChatRequest) : Int :=
  (r.messages.map fun m => (((bytes m.content).length+3)/4+4 : Int)).sum

theorem exactInputTokens_nonneg (r : ChatRequest) : 0 ≤ r.exactInputTokens := by
  unfold ChatRequest.exactInputTokens
  induction r.messages with
  | nil => simp
  | cons m ms ih =>
    simp only [List.map_cons,List.sum_cons]
    omega

theorem exactInputTokens_le (r : ChatRequest) (h : r.leastBody ≤ maxRequestBytes) :
    r.exactInputTokens ≤ 4*1048576 := by
  have hsum : ∀ ms : List ChatMessage,
      (ms.map fun m => (((bytes m.content).length+3)/4+4 : Int)).sum ≤
        4*((ms.map fun m => 2+((bytes m.content).length+2)/3).sum : Nat) := by
    intro ms
    induction ms with
    | nil => simp
    | cons m ms ih =>
      simp only [List.map_cons,List.sum_cons,Nat.cast_add]
      omega
  have := hsum r.messages
  unfold ChatRequest.leastBody maxRequestBytes at h
  unfold ChatRequest.exactInputTokens
  omega

theorem contentTokens_eq {n : Nat} (h : ((n+3)/4 : Int) ≤ 2^62) :
    quo (n+charsPerToken-1) charsPerToken = (n+3)/4 := by
  rw [quo,Int.tdiv_eq_ediv_of_nonneg (by unfold charsPerToken; omega)]
  unfold charsPerToken
  rw [show (n : Int)+4-1 = n+3 by omega]
  exact wrap_eq (by unfold InRange; omega)

theorem estimateMessage_eq {total : Int} (m : ChatMessage) (h0 : 0 ≤ total)
    (h : total+(((bytes m.content).length+3)/4+4 : Int) ≤ 2^62) :
    estimateMessage total m = total+(((bytes m.content).length+3)/4+4 : Int) := by
  have hin : add total (((bytes m.content).length+3)/4) =
      total+((bytes m.content).length+3)/4 := add_eq (by unfold InRange; omega)
  rw [estimateMessage,contentTokens_eq (by omega),hin,perMessageTokenOverhead,
    add_eq (by unfold InRange; omega)]
  omega

theorem estimateInputTokens_eq (r : ChatRequest) (h : r.leastBody ≤ maxRequestBytes) :
    r.estimateInputTokens = r.exactInputTokens := by
  have hfold : ∀ (ms : List ChatMessage) (total : Int),0 ≤ total →
      total+(ms.map fun m => (((bytes m.content).length+3)/4+4 : Int)).sum ≤ 2^62 →
      ms.foldl estimateMessage total =
        total+(ms.map fun m => (((bytes m.content).length+3)/4+4 : Int)).sum := by
    intro ms
    induction ms with
    | nil => simp
    | cons m ms ih =>
      intro total h0 hle
      have hrest : 0 ≤ (ms.map fun m => (((bytes m.content).length+3)/4+4 : Int)).sum :=
        exactInputTokens_nonneg { r with messages := ms }
      simp only [List.map_cons,List.sum_cons,List.foldl_cons] at hle ⊢
      rw [estimateMessage_eq m h0 (by omega),ih _ (by omega) (by omega)]
      omega
  have hle := exactInputTokens_le r h
  have := hfold r.messages 0 (by omega) (by unfold ChatRequest.exactInputTokens at hle; omega)
  simpa [ChatRequest.estimateInputTokens,ChatRequest.exactInputTokens] using this

end Switchyard.Proxy
