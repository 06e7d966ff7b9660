import Agentive.Commits

/-! The validators of the runtime: canonical history, effect snapshots, provider responses and
context admission. -/

namespace Agentive

def MessageRole.debugText : MessageRole → String
  | .system => "System"
  | .user => "User"
  | .assistant => "Assistant"
  | .tool => "Tool"

/-- The calls of a message that still wait for their results: id and name of each. -/
abbrev PendingCalls := List (String × String)

section

variable [JsonText]

def validToolContent : List MessageContent → Bool
  | [.text text] => JsonText.parses text
  | _ => false

def validateMessageShape (message : Message) : Except RunError Unit :=
  let invalid : RunError :=
    .providerProtocol ("invalid canonical " ++ message.role.debugText ++ " message shape")
  match message.role with
  | .system =>
    .error (.providerProtocol "trusted instructions cannot appear in canonical history")
  | .user =>
    if message.content.isEmpty || message.toolCalls.isSome || message.toolCallId.isSome ||
        message.name.isSome then .error invalid
    else .ok ()
  | .assistant =>
    let calls := message.toolCalls.getD []
    if message.toolCallId.isSome || message.name.isSome ||
        (!message.content.isEmpty) == (!calls.isEmpty) ||
        calls.any (fun call => isBlank call.id || !call.arguments.isObject) then .error invalid
    else .ok ()
  | .tool =>
    if !validToolContent message.content || message.toolCalls.isSome ||
        message.toolCallId.all isBlank || message.name.isNone then .error invalid
    else .ok ()

def enqueueCalls : List ToolCall → PendingCalls → Except RunError PendingCalls
  | [], pending => .ok pending
  | call :: calls, pending =>
    if pending.any (fun p => p.1 = call.id) then
      .error (.providerProtocol "duplicate tool call correlation id")
    else enqueueCalls calls (pending ++ [(call.id, call.name.text)])

def resolveHistoryCall (message : Message) (pending : PendingCalls) :
    Except RunError PendingCalls :=
  match message.toolCallId with
  | none => .error (.providerProtocol "tool result is missing correlation id")
  | some id =>
    match pending with
    | [] => .error (.providerProtocol "tool result has unknown correlation id")
    | (expectedId, expectedName) :: rest =>
      if id ≠ expectedId then
        .error (.providerProtocol
          "tool result did not resolve the next provider-ordered tool call")
      else if message.name.map (·.text) ≠ some expectedName then
        .error (.providerProtocol "tool result name does not match correlated call")
      else .ok rest

/-- The body of the loop over a history. -/
def stepHistory (pending : PendingCalls) (message : Message) : Except RunError PendingCalls :=
  match validateMessageShape message with
  | .error e => .error e
  | .ok () =>
    match message.role with
    | .system =>
      .error (.providerProtocol "trusted instructions cannot appear in canonical history")
    | .assistant =>
      if pending ≠ [] then
        .error (.providerProtocol "assistant message crossed unresolved tool calls")
      else enqueueCalls (message.toolCalls.getD []) pending
    | .tool => resolveHistoryCall message pending
    | .user =>
      if pending ≠ [] then
        .error (.providerProtocol "user message crossed unresolved tool calls")
      else .ok pending

def pendingHistoryCalls (history : List Message) : Except RunError PendingCalls :=
  history.foldlM stepHistory []

def validateHistory (history : List Message) : Except RunError Unit :=
  match pendingHistoryCalls history with
  | .error e => .error e
  | .ok pending =>
    if pending.isEmpty then .ok ()
    else .error (.providerProtocol "history ends with unresolved tool calls")

def validateEffectStateHistory (s : AgentRunState) : Except RunError Unit :=
  match pendingHistoryCalls s.history with
  | .error e => .error e
  | .ok pending =>
    if pending.length ≠ s.pendingTools.length ∨
        (s.pendingTools.zip pending).any (fun p => p.1.callId ≠ p.2.1 ∨ p.1.name.text ≠ p.2.2)
    then .error (.providerProtocol "state pending tools do not match canonical history")
    else .ok ()

end

/-- The loop over the calls of a response; `ids` are the ids seen so far. -/
def validateToolCalls (providerCallId : String) :
    List ModelToolCall → List String → Except RunError Unit
  | [], _ => .ok ()
  | call :: calls, ids =>
    if isBlank call.callId ∨ call.callId ∈ ids then
      .error (.providerProtocol "provider returned an invalid or duplicate tool-call id")
    else if call.providerCallId.any (fun value => value ≠ providerCallId) then
      .error (.providerProtocol "tool call was correlated to a different provider call")
    else validateToolCalls providerCallId calls (call.callId :: ids)

def validateModelResponse (response : ModelResponse) (providerCallId : String) :
    Except RunError Unit :=
  if response.text.any isBlank then
    .error (.providerProtocol "provider response contained blank final text")
  else if response.text.isSome && !response.toolCalls.isEmpty then
    .error (.providerProtocol "provider response mixed final text with tool calls")
  else match response.finishReason, response.toolCalls.isEmpty with
    | .toolCalls, true =>
      .error (.providerProtocol "tool-call finish reason contained no tool calls")
    | .stop, false | .error _, _ =>
      .error (.providerProtocol "provider finish reason did not match response content")
    | .stop, true | .toolCalls, false =>
      if response.finishReason = .stop ∧ response.text.isNone then
        .error (.providerProtocol "provider stop response contained no final text")
      else validateToolCalls providerCallId response.toolCalls []

/-- `UsageEstimator::can_admit`. -/
def canAdmit (mode : AllOrError) (request : ModelRequest) (capabilities : ModelCapabilities)
    (bound : Option U64) (optOut : Bool) : Except String Unit :=
  if optOut then .ok ()
  else match capabilities.maxContextTokens with
    | none => .error "provider context limit unknown"
    | some limit =>
      match bound, mode with
      | none, .exact => .error "exact provider/model context counter unavailable"
      | none, .conservative => .error "conservative provider context bound unavailable"
      | some promptTokens, _ =>
        let required := promptTokens.saturatingAdd request.maxOutputTokens
        if limit < required then
          .error ("required " ++ toString required.val ++ " tokens exceeds provider limit " ++
            toString limit.val)
        else .ok ()

def outputSupported : ModelOutputFormat → StructuredOutputSupport → Bool
  | .text, _ => true
  | .json, .json | .json, .jsonSchema => true
  | .jsonSchema _, .jsonSchema => true
  | _, _ => false

def promptTokenBound (provider : Provider) (mode : AllOrError) (optOut : Bool)
    (request : ModelRequest) : Except RunError (Option U64) :=
  if optOut then .ok none
  else
    let bound := match mode with
      | .exact => provider.exactContextTokenCount request
      | .conservative => provider.conservativeContextTokenBound request
    bound.mapError .contextLimit

def validateContext (provider : Provider) (mode : AllOrError) (optOut : Bool)
    (request : ModelRequest) : Except RunError (Option U64) :=
  if !request.tools.isEmpty && !provider.capabilities.supportsToolCalls then
    .error (.capability "tool calls are not supported")
  else if !outputSupported request.outputFormat provider.structuredOutputSupport then
    .error (.capability "requested structured output is not supported")
  else if request.messages.any (fun m => m.content.any (·.isImage)) &&
      !provider.capabilities.supportsImages then
    .error (.capability "images are not supported")
  else match promptTokenBound provider mode optOut request with
    | .error e => .error e
    | .ok bound =>
      match canAdmit mode request provider.capabilities bound optOut with
      | .error reason => .error (.contextLimit reason)
      | .ok () => .ok bound

theorem validateContext_ne_cancelled {provider : Provider} {mode : AllOrError} {optOut : Bool}
    {request : ModelRequest} :
    validateContext provider mode optOut request ≠ .error .cancelled := by
  have hbound : promptTokenBound provider mode optOut request ≠ .error .cancelled := by
    unfold promptTokenBound
    split
    · simp
    · cases mode <;> simp only [Except.mapError] <;> split <;> simp
  unfold validateContext
  split
  · simp
  · split
    · simp
    · split
      · simp
      · split
        · next e he =>
          rintro h
          cases h
          exact hbound he
        · split <;> simp

end Agentive
