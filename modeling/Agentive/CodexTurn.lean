import Agentive.FedLoop
import Agentive.ToolEffect
import Agentive.ToolSchema

/-! A turn of the Codex App Server: the loop that collects what the server says about it, answers
the tool requests of the server, and interrupts the turn when it is cancelled. -/

namespace Agentive

open DriverLoop

namespace Value

/-- `Value::pointer`, for pointers whose tokens are the names of members. -/
def pointer : Value → List String → Option Value
  | v, [] => some v
  | v, name :: path => (v.get name).bind (·.pointer path)

def stringAt (v : Value) (path : List String) : Option String := (v.pointer path).bind asStr

def asU64 : Value → Option U64
  | .number (.posInt n) => some (Capped.clamp n.toNat)
  | _ => none

def asI64 : Value → Option Int
  | .number (.posInt n) => if n.toNat < 2 ^ 63 then some n.toNat else none
  | .number (.negInt n) => some n.toInt
  | _ => none

end Value

/-- `str::contains`. -/
def containsText (text part : String) : Bool :=
  text.toList.tails.any fun rest => part.toList.isPrefixOf rest

namespace Codex

def transportError : ProviderError := .new .transport "codex app server transport failed" true

def protocolError : ProviderError := .terminal .protocol "unsupported codex app server protocol"

def phaseTimeoutError : ProviderError :=
  .new .timeout "codex app server protocol phase timed out" true

def loginRequired : ProviderError := .terminal .authentication "codex login is required"

def classifyServerError (message : Value) : ProviderError :=
  let code := (message.pointer ["error", "code"]).bind Value.asI64
  let text := (message.stringAt ["error", "message"]).getD ""
  if code = some (-32001) then .new .rateLimited "codex app server is overloaded" true
  else if containsText text "unauthorized" || containsText text "login" then loginRequired
  else .terminal .protocol "codex app server rejected the request"

def classifyTurnFailure (params : Value) : ProviderError :=
  if params.stringAt ["turn", "error", "codexErrorInfo", "code"] = some "unauthorized" then
    loginRequired
  else .terminal .unavailable "codex turn failed"

def usageFrom (params : Value) : Option ModelTokenUsage :=
  (params.get "tokenUsage").map fun usage =>
    let number (key : String) := (usage.get key).bind Value.asU64
    { input := number "inputTokens"
      output := number "outputTokens"
      cachedInput := number "cachedInputTokens"
      reasoning := number "reasoningTokens"
      providerTotal := number "totalTokens" }

/-- A tool and the one declaration of it that is used for a turn. -/
structure FrozenTool where
  tool : ToolHandle
  definition : ToolDefinition

/-- What the call of a tool comes to. The cancellation of the turn ends a call that goes on. -/
inductive ToolRun
  | pending
  | cancelled
  | panicked
  | output (output : Value)
  | failed (error : ToolError)

/-- What ends a wait for the next message: a message, the end of the stream, an error, or the
cancellation of the turn. -/
inductive Received
  | message (message : Value)
  | closed
  | failed (error : ProviderError)
  | woken
  | pending

/-- What one iteration of the loop meets: whether the turn is cancelled by then, how the interrupt
is sent if one is, what is received, and for a tool request the identity of its invocation, how
the tool goes, and how the answer is sent. A phase that takes too long ends in an error. -/
structure TurnIteration where
  cancelled : Bool
  interruptSent : Except ProviderError Unit
  received : Received
  invocationId : ToolInvocationId
  tool : ToolRun
  replySent : Option (Except ProviderError Unit)

/-- The loop between two messages, with what it has sent and the tools that it has called. -/
structure TurnLoop where
  text : String
  usage : Option ModelTokenUsage
  interrupted : Bool
  sent : List Value
  called : List (ToolInvocation × Value)

def TurnLoop.start : TurnLoop :=
  { text := "", usage := none, interrupted := false, sent := [], called := [] }

/-- The turn that the loop collects. -/
structure Collector where
  threadId : String
  turnId : String
  tools : List FrozenTool

def paramsOf (message : Value) : Value := (message.get "params").getD .null

def methodOf (message : Value) : Option String := (message.get "method").bind Value.asStr

/-- The members of a tool request, as far as they have the right types. -/
structure ToolRequest where
  id : Value
  tool : String
  threadId : String
  turnId : String
  callId : String
  arguments : Value

def toolRequest (message : Value) : Option ToolRequest := do
  let id ← message.get "id"
  let params ← message.get "params"
  let tool ← (params.get "tool").bind Value.asStr
  let threadId ← (params.get "threadId").bind Value.asStr
  let turnId ← (params.get "turnId").bind Value.asStr
  let callId ← (params.get "callId").bind Value.asStr
  some { id, tool, threadId, turnId, callId, arguments := (params.get "arguments").getD .null }

def toolResult [JsonText] (content : Value) (success : Bool) : Value :=
  .object
    [("contentItems",
        .array [.object [("text", .string (JsonText.toText content)),
          ("type", .string "inputText")]]),
      ("success", .bool success)]

def safeToolFailure [JsonText] (code message : String) : Value :=
  toolResult (.ofError code message) false

/-- `execute_tool`, with the answer that its result becomes. -/
def executeTool [JsonText] : ToolRun → Option Value
  | .pending => none
  | .cancelled => some (safeToolFailure "tool_cancelled" "tool execution was cancelled")
  | .panicked => some (safeToolFailure "tool_panicked" "tool execution panicked")
  | .output output => some (toolResult output true)
  | .failed error => some (safeToolFailure error.code error.message)

def toolReply (id result : Value) : Value := .object [("id", id), ("result", result)]

/-- A notification names another thread or turn, at a place where the loop looks for it. -/
def namesOther (params : Value) (path : List String) (own : String) : Bool :=
  (params.stringAt path).any fun id => decide (id ≠ own)

namespace Collector

variable (c : Collector)

def interruptRequest : Value :=
  .object
    [("id", .number (.posInt 4)), ("method", .string "turn/interrupt"),
      ("params", .object [("threadId", .string c.threadId), ("turnId", .string c.turnId)])]

def toolFor (r : ToolRequest) : Option FrozenTool :=
  c.tools.find? fun tool => tool.definition.name.text = r.tool

def invocation (r : ToolRequest) (id : ToolInvocationId) (tool : FrozenTool) : ToolInvocation :=
  { runId := r.threadId
    invocationId := id
    providerCallId := some r.callId
    toolName := tool.definition.name
    modelRound := 0
    idempotencyKey := ⟨r.threadId ++ ":" ++ r.turnId ++ ":" ++ r.callId⟩ }

/-- The end of a turn that the server has completed. -/
def completed (l : TurnLoop) (params : Value) : Except ProviderError ModelResponse :=
  match params.stringAt ["turn", "status"] with
  | none => .error protocolError
  | some status =>
    if status = "completed" ∧ l.interrupted = false then
      .ok
        { text := if l.text = "" then none else some l.text
          toolCalls := []
          usage := l.usage
          finishReason := .stop }
    else if status = "interrupted" then .error (.terminal .timeout "codex turn was interrupted")
    else if status = "failed" then .error (classifyTurnFailure params)
    else .error protocolError

/-- A notification, by its method. -/
def notified (method : String) (params : Value) (l : TurnLoop) :
    Turn TurnLoop (Except ProviderError ModelResponse) :=
  if namesOther params ["threadId"] c.threadId || namesOther params ["turnId"] c.turnId then
    .next l
  else if method = "item/agentMessage/delta" then
    if l.interrupted then .next l
    else match (params.get "delta").bind Value.asStr with
      | none => .next l
      | some delta => .next { l with text := l.text ++ delta }
  else if method = "thread/tokenUsage/updated" then .next { l with usage := usageFrom params }
  else if method = "turn/completed" then .ended l (completed l params)
  else .next l

section

variable [JsonText] [ArgumentSchema]

/-- The answer to a tool request, and the call of the tool if there is one. -/
def answer (i : TurnIteration) (r : ToolRequest) : Option Value × List (ToolInvocation × Value) :=
  match c.toolFor r with
  | none => (some (safeToolFailure "tool_not_found" "tool not found"), [])
  | some tool =>
    if !validateToolArguments r.arguments tool.definition.schema then
      (some (safeToolFailure "invalid_arguments"
        "tool arguments do not match the declared schema"), [])
    else (executeTool i.tool, [(invocation r i.invocationId tool, r.arguments)])

def respond (i : TurnIteration) (message : Value) (l : TurnLoop) :
    Turn TurnLoop (Except ProviderError ModelResponse) :=
  match toolRequest message with
  | none => .ended l (.error protocolError)
  | some r =>
    if r.threadId ≠ c.threadId ∨ r.turnId ≠ c.turnId ∨ r.callId = "" then
      .ended l (.error protocolError)
    else
      let (result, calls) := c.answer i r
      let l := { l with called := l.called ++ calls }
      match result with
      | none => .blocked l
      | some result =>
        let l := { l with sent := l.sent ++ [toolReply r.id result] }
        match i.replySent with
        | none => .blocked l
        | some (.error e) => .ended l (.error e)
        | some (.ok ()) => .next l

/-- A message is an answer to the interrupt, a request of the server, or a notification. -/
def handle (i : TurnIteration) (message : Value) (l : TurnLoop) :
    Turn TurnLoop (Except ProviderError ModelResponse) :=
  if (message.get "id").bind Value.asU64 = some 4 ∧ l.interrupted = true then
    if (message.get "error").isSome then .ended l (.error (classifyServerError message))
    else .next l
  else if (message.get "id").isSome then
    if methodOf message = some "item/tool/call" then c.respond i message l
    else .ended l (.error protocolError)
  else match methodOf message with
    | none => .next l
    | some method => c.notified method (paramsOf message) l

/-- An interrupted turn does not wait longer than its phase may take. -/
def receive (i : TurnIteration) (l : TurnLoop) :
    Turn TurnLoop (Except ProviderError ModelResponse) :=
  match i.received with
  | .message message => c.handle i message l
  | .closed => .ended l (.error transportError)
  | .failed e => .ended l (.error e)
  | .woken => if l.interrupted then .ended l (.error phaseTimeoutError) else .next l
  | .pending => if l.interrupted then .ended l (.error phaseTimeoutError) else .blocked l

def iterate (i : TurnIteration) (l : TurnLoop) :
    Turn TurnLoop (Except ProviderError ModelResponse) :=
  if i.cancelled = true ∧ l.interrupted = false then
    let l := { l with sent := l.sent ++ [c.interruptRequest] }
    match i.interruptSent with
    | .error e => .ended l (.error e)
    | .ok () => c.receive i { l with interrupted := true }
  else c.receive i l

/-- `collect_turn`: what it returns, and what it has sent by then. -/
def collectTurn (script : List TurnIteration) :
    TurnLoop × Option (Except ProviderError ModelResponse) :=
  feed c.iterate script .start

end

end Collector

end Codex

end Agentive
