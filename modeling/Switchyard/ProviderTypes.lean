set_option autoImplicit false

/-! The canonical request, response and error types (internal/provider). -/

namespace Switchyard.Provider

structure Role where
  text : String
  deriving DecidableEq, Repr

def Role.system : Role := ⟨"system"⟩
def Role.user : Role := ⟨"user"⟩
def Role.assistant : Role := ⟨"assistant"⟩

structure Message where
  role : Role
  content : String
  deriving DecidableEq, Repr

/-- A temperature is kept as its float32 bit pattern. -/
structure Request where
  model : String
  messages : List Message
  temperature : Option UInt32
  maxTokens : Int
  stream : Bool
  stop : List String
  deriving DecidableEq, Repr

structure FinishReason where
  text : String
  deriving DecidableEq, Repr

def FinishReason.stop : FinishReason := ⟨"stop"⟩
def FinishReason.length : FinishReason := ⟨"length"⟩
def FinishReason.contentFilter : FinishReason := ⟨"content_filter"⟩
def FinishReason.other : FinishReason := ⟨"other"⟩

structure Usage where
  inputTokens : Int
  outputTokens : Int
  deriving DecidableEq, Repr

structure Response where
  content : String
  finishReason : FinishReason
  usage : Usage
  model : String
  provider : String
  deriving DecidableEq, Repr

structure Chunk where
  content : String
  finishReason : FinishReason
  usage : Option Usage
  deriving DecidableEq, Repr

inductive Kind where
  | rateLimited
  | timeout
  | authFailed
  | contentPolicy
  | serverError
  | networkError
  | invalidRequest
  deriving DecidableEq, Repr

def Kind.defaultRetryable : Kind → Bool
  | .rateLimited => true
  | .timeout => true
  | .serverError => true
  | .networkError => true
  | _ => false

def Kind.text : Kind → String
  | .rateLimited => "rate_limited"
  | .timeout => "timeout"
  | .authFailed => "auth_failed"
  | .contentPolicy => "content_policy"
  | .serverError => "server_error"
  | .networkError => "network_error"
  | .invalidRequest => "invalid_request"

/-- A classified failure; `cause` is the wrapped error's text. -/
structure Error where
  kind : Kind
  provider : String
  model : String
  statusCode : Int
  retryable : Bool
  retryAfter : Int
  message : String
  cause : Option String
  deriving DecidableEq, Repr

def Error.text (e : Error) : String :=
  let target := if e.model = "" then e.provider else e.provider ++ "/" ++ e.model
  let status := if e.statusCode = 0 then "" else s!" (http {e.statusCode})"
  let message := if e.message = "" then "" else ": " ++ e.message
  let cause := match e.cause with
    | none => ""
    | some c => ": " ++ c
  s!"provider {target}: {e.kind.text}{status}{message}{cause}"

end Switchyard.Provider
