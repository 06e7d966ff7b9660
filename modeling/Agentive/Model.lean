import Agentive.Message

/-! The provider-neutral boundary: requests, responses, stream events and errors. -/

namespace Agentive

structure ModelTokenUsage where
  input : Option U64
  output : Option U64
  cachedInput : Option U64
  reasoning : Option U64
  providerTotal : Option U64
deriving DecidableEq

inductive AllOrError
  | exact
  | conservative
deriving DecidableEq

structure ProviderToolDescriptor where
  name : ToolName
  description : String
  schema : Value
  idempotent : Bool
deriving DecidableEq

inductive StructuredOutputSupport
  | none
  | json
  | jsonSchema
deriving DecidableEq

inductive ModelOutputFormat
  | text
  | json
  | jsonSchema (schema : Value)
deriving DecidableEq

structure ModelRequest where
  instructions : CompiledInstructions
  messages : List Message
  tools : List ProviderToolDescriptor
  includeContext : Bool
  model : Option String
  maxOutputTokens : U64
  outputFormat : ModelOutputFormat
  invocationId : String
deriving DecidableEq

/-- The length of `serde_json::to_vec` of a request, when it can be rendered. -/
class RequestText where
  len : ModelRequest → Option Nat

inductive ModelFinishReason
  | stop
  | toolCalls
  | error (description : String)
deriving DecidableEq

structure ModelToolCall where
  callId : String
  name : ToolName
  arguments : Value
  providerCallId : Option String
deriving DecidableEq

/-- The canonical call that a provider call becomes in the history. -/
def ModelToolCall.toToolCall (call : ModelToolCall) : ToolCall :=
  { id := call.callId, name := call.name, arguments := call.arguments }

structure ModelResponse where
  text : Option String
  toolCalls : List ModelToolCall
  usage : Option ModelTokenUsage
  finishReason : ModelFinishReason
deriving DecidableEq

inductive ModelStreamEvent
  | textChunk (text : String)
  | toolCallChunk (callId : String) (name : ToolName) (argumentsFragment : String)
  | usage (usage : ModelTokenUsage)
  | done (response : ModelResponse)
deriving DecidableEq

structure ModelCapabilities where
  supportsToolCalls : Bool
  supportsStreaming : Bool
  supportsImages : Bool
  maxContextTokens : Option U64
deriving DecidableEq

structure ProviderRetryAdvice where
  retryable : Bool
  safeBeforeOutput : Bool
deriving DecidableEq

inductive ProviderErrorKind
  | timeout
  | authentication
  | rateLimited
  | transport
  | invalidRequest
  | unavailable
  | protocol
  | unknown
deriving DecidableEq

structure ProviderError where
  kind : ProviderErrorKind
  message : String
  retryAdvice : ProviderRetryAdvice
  usage : Option ModelTokenUsage
deriving DecidableEq

namespace ProviderError

def new (kind : ProviderErrorKind) (message : String) (retryable : Bool) : ProviderError :=
  { kind, message, retryAdvice := { retryable, safeBeforeOutput := retryable }, usage := none }

def terminal (kind : ProviderErrorKind) (message : String) : ProviderError :=
  new kind message false

def isRetryable (e : ProviderError) : Bool := e.retryAdvice.retryable

def isSafeBeforeOutput (e : ProviderError) : Bool := e.retryAdvice.safeBeforeOutput

end ProviderError

structure ToolError where
  code : String
  message : String
  retryable : Bool
deriving DecidableEq

inductive RunError
  | config (reason : String)
  | contextLimit (reason : String)
  | capability (reason : String)
  | providerProtocol (reason : String)
  | cancelled
deriving DecidableEq

/-- The text of an error, as its `Display` renders it. -/
def RunError.toText : RunError → String
  | .config reason => "invalid configuration: " ++ reason
  | .contextLimit reason => "context admission failed: " ++ reason
  | .capability reason => "provider capability requirement not met: " ++ reason
  | .providerProtocol reason => "provider protocol invalid: " ++ reason
  | .cancelled => "run cancelled"

/-- What the runtime asks of a provider besides the calls themselves. -/
structure Provider where
  routingAttempts : U8
  capabilities : ModelCapabilities
  structuredOutputSupport : StructuredOutputSupport
  conservativeContextTokenBound : ModelRequest → Except String (Option U64)
  exactContextTokenCount : ModelRequest → Except String (Option U64)

end Agentive
