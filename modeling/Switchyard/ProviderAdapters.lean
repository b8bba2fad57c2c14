import Switchyard.GoText
import Switchyard.ProviderTypes
set_option autoImplicit false

/-!
Provider instances and how the four dialects read an upstream answer
(internal/provider). JSON decoding itself is outside the model: a body is the
struct it decodes to, or the decoder's error.
-/

namespace Switchyard.Provider
open GoText

structure Config where
  name : String
  type : String
  baseURL : String
  apiKey : String
  timeout : Int
  models : List String
  defaultMaxTokens : Int
  pingModel : String
  deriving DecidableEq, Repr

inductive Dialect where
  | openAICompatible
  | anthropic
  | gemini
  | ollama
  deriving DecidableEq, Repr

def Dialect.type : Dialect → String
  | .openAICompatible => "openai-compatible"
  | .anthropic => "anthropic"
  | .gemini => "gemini"
  | .ollama => "ollama"

/-- A `Provider`: one configured instance of a dialect. -/
structure Adapter where
  cfg : Config
  dialect : Dialect
  deriving DecidableEq, Repr

def Adapter.name (p : Adapter) : String := p.cfg.name

def validateConfig (cfg : Config) : Except String Unit :=
  if cfg.name = "" then .error "provider config: name is required"
  else if cfg.baseURL = "" then .error s!"provider {cfg.name}: base_url is required"
  else if cfg.timeout ≤ 0 then .error s!"provider {cfg.name}: timeout must be positive"
  else if cfg.models = [] then .error s!"provider {cfg.name}: at least one model must be listed"
  else if cfg.defaultMaxTokens ≤ 0 then
    .error s!"provider {cfg.name}: default_max_tokens must be positive"
  else .ok ()

def newBase (cfg : Config) (dialect : Dialect) : Except String Adapter :=
  match validateConfig cfg with
  | .error e => .error e
  | .ok () => .ok ⟨cfg,dialect⟩

def newAdapter (cfg : Config) : Except String Adapter :=
  if cfg.type = "openai-compatible" then newBase cfg .openAICompatible
  else if cfg.type = "anthropic" then newBase cfg .anthropic
  else if cfg.type = "gemini" then newBase cfg .gemini
  else if cfg.type = "ollama" then newBase cfg .ollama
  else .error (s!"provider {quote cfg.name}: unknown type {quote cfg.type} (want one of " ++
    "openai-compatible, anthropic, gemini, ollama)")

theorem newAdapter_cfg {cfg : Config} {p : Adapter} (h : newAdapter cfg = .ok p) : p.cfg = cfg := by
  have hbase : ∀ d,newBase cfg d = .ok p → p.cfg = cfg := by
    intro d hd
    unfold newBase at hd
    cases hv : validateConfig cfg with
    | error e => simp [hv] at hd
    | ok u =>
      simp only [hv,Except.ok.injEq] at hd
      exact hd ▸ rfl
  unfold newAdapter at h
  repeat' split at h
  all_goals first
    | exact hbase _ h
    | cases h

structure OaiChoice where
  content : String
  finishReason : String
  deriving DecidableEq, Repr

structure OaiChatResponse where
  model : String
  choices : List OaiChoice
  promptTokens : Int
  completionTokens : Int
  deriving DecidableEq, Repr

structure AnthropicBlock where
  type : String
  text : String
  deriving DecidableEq, Repr

structure AnthropicResponse where
  model : String
  content : List AnthropicBlock
  stopReason : String
  inputTokens : Int
  outputTokens : Int
  deriving DecidableEq, Repr

structure GeminiCandidate where
  parts : List String
  finishReason : String
  deriving DecidableEq, Repr

structure GeminiResponse where
  candidates : List GeminiCandidate
  blockReason : String
  promptTokenCount : Int
  candidatesTokenCount : Int
  modelVersion : String
  deriving DecidableEq, Repr

structure OllamaResponse where
  model : String
  content : String
  doneReason : String
  promptEvalCount : Int
  evalCount : Int
  deriving DecidableEq, Repr

abbrev Body : Dialect → Type
  | .openAICompatible => OaiChatResponse
  | .anthropic => AnthropicResponse
  | .gemini => GeminiResponse
  | .ollama => OllamaResponse

def Body.model : {d : Dialect} → Body d → String
  | .openAICompatible,b => OaiChatResponse.model b
  | .anthropic,b => AnthropicResponse.model b
  | .gemini,b => GeminiResponse.modelVersion b
  | .ollama,b => OllamaResponse.model b

def Body.usage : {d : Dialect} → Body d → Usage
  | .openAICompatible,b => ⟨OaiChatResponse.promptTokens b,OaiChatResponse.completionTokens b⟩
  | .anthropic,b => ⟨AnthropicResponse.inputTokens b,AnthropicResponse.outputTokens b⟩
  | .gemini,b => ⟨GeminiResponse.promptTokenCount b,GeminiResponse.candidatesTokenCount b⟩
  | .ollama,b => ⟨OllamaResponse.promptEvalCount b,OllamaResponse.evalCount b⟩

def malformedResponse (providerName model message : String) (cause : Option String) : Error :=
  ⟨.serverError,providerName,model,0,true,0,message,cause⟩

def oaiFinishReason (s : String) : FinishReason :=
  if s = "stop" then .stop else if s = "length" then .length
  else if s = "content_filter" then .contentFilter else .other

def anthropicFinishReason (s : String) : FinishReason :=
  if s = "end_turn" ∨ s = "stop_sequence" then .stop else if s = "max_tokens" then .length
  else if s = "refusal" then .contentFilter else .other

def geminiFinishReason (s : String) : FinishReason :=
  if s = "STOP" then .stop else if s = "MAX_TOKENS" then .length
  else if s ∈ ["SAFETY","RECITATION","BLOCKLIST","PROHIBITED_CONTENT","SPII"] then .contentFilter
  else .other

def ollamaFinishReason (s : String) : FinishReason :=
  if s = "stop" then .stop else if s = "length" then .length else .other

def maxErrorMessageBytes : Nat := 256

/-- The longest prefix of whole characters within n bytes. -/
def takeBytes : Nat → List Char → List Char
  | _,[] => []
  | n,c :: cs => if c.utf8Size ≤ n then c :: takeBytes (n-c.utf8Size) cs else []

def truncateMessage (s : String) : String :=
  let trimmed := ((s.toList.dropWhile isSpace).reverse.dropWhile isSpace).reverse
  let s := String.ofList trimmed
  if s.utf8ByteSize ≤ maxErrorMessageBytes then s
  else String.ofList (takeBytes maxErrorMessageBytes trimmed) ++ "…"

/-- The name reported as served: the upstream's own, or the requested one when
the body names none. -/
def servedName (upstream requested : String) : String :=
  if upstream = "" then requested else upstream

/-- `translateResponse` of the four dialects. -/
def translateResponse (p : Adapter) (model : String) :
    (body : Except String (Body p.dialect)) → Except Error Response :=
  match p.dialect with
  | .openAICompatible => fun
    | .error e => .error (malformedResponse p.name model
        "upstream returned a body that is not valid chat-completion JSON" (some e))
    | .ok out =>
      match OaiChatResponse.choices out with
      | [] => .error (malformedResponse p.name model "upstream returned no choices" none)
      | choice :: _ => .ok ⟨choice.content,oaiFinishReason choice.finishReason,Body.usage out,
          servedName (Body.model out) model,p.name⟩
  | .anthropic => fun
    | .error e => .error (malformedResponse p.name model
        "upstream returned a body that is not a valid message" (some e))
    | .ok out =>
      match AnthropicResponse.content out with
      | [] => .error (malformedResponse p.name model "upstream returned no content blocks" none)
      | block :: blocks =>
        let text := String.join (((block :: blocks).filter (·.type = "text")).map (·.text))
        .ok ⟨text,anthropicFinishReason (AnthropicResponse.stopReason out),Body.usage out,
          servedName (Body.model out) model,p.name⟩
  | .gemini => fun
    | .error e => .error (malformedResponse p.name model
        "upstream returned a body that is not a valid generateContent response" (some e))
    | .ok out =>
      if GeminiResponse.blockReason out ≠ "" then
        .error ⟨.contentPolicy,p.name,model,200,false,0,
          "prompt blocked: " ++ truncateMessage (GeminiResponse.blockReason out),none⟩
      else
        match GeminiResponse.candidates out with
        | [] => .error (malformedResponse p.name model "upstream returned no candidates" none)
        | candidate :: _ => .ok ⟨String.join candidate.parts,
            geminiFinishReason candidate.finishReason,Body.usage out,
            servedName (Body.model out) model,p.name⟩
  | .ollama => fun
    | .error e => .error (malformedResponse p.name model
        "upstream returned a body that is not a valid chat response" (some e))
    | .ok out => .ok ⟨OllamaResponse.content out,ollamaFinishReason (OllamaResponse.doneReason out),
        Body.usage out,servedName (Body.model out) model,p.name⟩

theorem translateResponse_ok {p : Adapter} {model : String} {raw : Except String (Body p.dialect)}
    {resp : Response} (h : translateResponse p model raw = .ok resp) :
    ∃ b,raw = .ok b ∧ resp.model = servedName (Body.model b) model ∧
      resp.usage = Body.usage b ∧ resp.provider = p.name := by
  obtain ⟨cfg,dialect⟩ := p
  cases dialect <;> cases raw <;> simp only [translateResponse] at h <;> repeat' split at h
  all_goals cases h
  all_goals exact ⟨_,rfl,rfl,rfl,rfl⟩

end Switchyard.Provider
