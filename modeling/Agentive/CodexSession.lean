import Agentive.Exchange
import Agentive.FrozenTools
import Agentive.InstructionXml

/-! A session of the Codex App Server: the checks of a request before anything is opened, the
phases of the protocol up to the turn, and the shutdown. -/

namespace Agentive

namespace Codex

def cancelledError : ProviderError := .terminal .timeout "codex turn was cancelled"

def PreflightError.intoProviderError : PreflightError → ProviderError
  | .invalidToolConfiguration =>
    .terminal .invalidRequest "codex tool configuration is invalid"
  | .unsupported capability =>
    .terminal .invalidRequest
      ("codex app server does not support lossless " ++ capability ++ " input")

/-- The messages sent to a session and the tool calls made for it, and how often it was opened
and shut down. -/
structure Transcript where
  sent : List Value
  called : List (ToolInvocation × Value)
  opened : Nat
  shutdowns : Nat

def Transcript.empty : Transcript := { sent := [], called := [], opened := 0, shutdowns := 0 }

abbrev Session (α : Type) := Exchange Transcript ProviderError α

/-- What ends a phase whose future goes on: the cancellation of the turn, or the time of a
phase. -/
inductive PhaseCut
  | cancelled
  | timedOut
  | pending

def PhaseCut.outcome {α : Type} : PhaseCut → Option (Except ProviderError α)
  | .cancelled => some (.error cancelledError)
  | .timedOut => some (.error phaseTimeoutError)
  | .pending => none

/-- What a phase meets: whether the turn is cancelled when it begins, what its future meets, and
what ends it if the future does not. -/
structure PhaseScript (α : Type) where
  cancelled : Bool
  met : α
  cut : PhaseCut

/-- What a request meets: how the message is sent, and what is received after it. -/
structure RequestScript where
  sent : Option (Except ProviderError Unit)
  received : List Received

/-- What a session meets, phase by phase. -/
structure SessionScript where
  opening : PhaseScript (Option (Except ProviderError Unit))
  initialization : PhaseScript RequestScript
  initialized : PhaseScript (Option (Except ProviderError Unit))
  thread : PhaseScript RequestScript
  turn : PhaseScript RequestScript
  collect : List TurnIteration
  shutdown : Option (Except ProviderError Unit)

def send (message : Value) (outcome : Option (Except ProviderError Unit)) : Session Unit :=
  fun t => ({ t with sent := t.sent ++ [message] }, outcome)

/-- The loop of `request_response`: messages without an id are not for it. -/
def receiveResponse (id : U64) : List Received → Option (Except ProviderError Value)
  | [] | .pending :: _ | .woken :: _ => none
  | .closed :: _ => some (.error transportError)
  | .failed e :: _ => some (.error e)
  | .message message :: rest =>
    if (message.get "id").isSome ∧ (message.get "id").bind Value.asU64 ≠ some id then
      some (.error protocolError)
    else if (message.get "id").isNone then receiveResponse id rest
    else if (message.get "error").isSome then some (.error (classifyServerError message))
    else match message.get "result" with
      | none => some (.error protocolError)
      | some result => some (.ok result)

def requestMessage (id : U64) (method : String) (params : Value) : Value :=
  .object
    [("id", .number (.posInt (.ofNat id.val))), ("method", .string method), ("params", params)]

def requestResponse (id : U64) (method : String) (params : Value) (script : RequestScript) :
    Session Value := do
  send (requestMessage id method params) script.sent
  Exchange.done (receiveResponse id script.received)

def notificationMessage (method : String) (params : Value) : Value :=
  .object [("method", .string method), ("params", params)]

def notification (method : String) (params : Value)
    (outcome : Option (Except ProviderError Unit)) : Session Unit :=
  send (notificationMessage method params) outcome

/-- A phase whose turn is cancelled before it does not begin. -/
def cancellablePhase {α β : Type} (script : PhaseScript α) (future : α → Session β) :
    Session β := fun t =>
  if script.cancelled then (t, some (.error cancelledError))
  else match future script.met t with
    | (t, some outcome) => (t, some outcome)
    | (t, none) => (t, script.cut.outcome)

def orProtocolError {α : Type} : Option α → Session α
  | some a => pure a
  | none => .fail protocolError

def dynamicTools (tools : List FrozenTool) : List Value :=
  tools.map fun tool =>
    .object
      [("description", .string tool.definition.description),
        ("inputSchema", tool.definition.schema),
        ("name", .string tool.definition.name.text), ("type", .string "function")]

def modelValue (model : Option String) : Value := (model.map .string).getD .null

def inputText (text : String) : Value := .object [("text", .string text), ("type", .string "text")]

def inputImage (url : String) : Value := .object [("type", .string "image"), ("url", .string url)]

def contentInput : MessageContent → Except PreflightError Value
  | .text text => .ok (inputText text)
  | .image (.url url) _ => .ok (inputImage url)
  | .image (.inline _) _ => .error (.unsupported "inline image")

def messageInput (message : Message) : Except PreflightError (List Value) :=
  if message.role ≠ .user ∨ message.toolCalls.isSome ∨ message.toolCallId.isSome then
    .error (.unsupported "non-user history")
  else message.content.mapM contentInput

def compileInput (request : ModelRequest) : Except PreflightError (List Value) :=
  (request.messages.mapM messageInput).map List.flatten

def initializeParams (version : String) : Value :=
  .object
    [("capabilities", .object [("experimentalApi", .bool true)]),
      ("clientInfo", .object [("name", .string "agentive-codex"), ("version", .string version)])]

def threadParams (request : ModelRequest) (tools : List FrozenTool) : Value :=
  .object
    [("developerInstructions", .string request.instructions.renderXml),
      ("dynamicTools", .array (dynamicTools tools)), ("model", modelValue request.model)]

def turnParams (request : ModelRequest) (input : List Value) (threadId : String) : Value :=
  .object
    [("input", .array input), ("model", modelValue request.model), ("threadId", .string threadId)]

def supportedProtocolVersion : String := "2"

/-- The version of the protocol, where the server names one. -/
def protocolVersion (initialized : Value) : Option String :=
  ((initialized.get "protocolVersion").or (initialized.pointer ["serverInfo", "version"])).bind
    Value.asStr

def checkVersion (initialized : Value) : Session Unit :=
  if (protocolVersion initialized).any fun version => decide (version ≠ supportedProtocolVersion)
  then .fail protocolError
  else pure ()

section

variable [JsonText] [ArgumentSchema]

def collectTurn (c : Collector) (script : List TurnIteration) : Session ModelResponse := fun t =>
  let (l, result) := c.collectTurn script
  ({ t with sent := t.sent ++ l.sent, called := t.called ++ l.called }, result)

/-- The phases of an open session. -/
def converse (version : String) (request : ModelRequest) (tools : List FrozenTool)
    (input : List Value) (script : SessionScript) : Session ModelResponse := do
  let initialized ← cancellablePhase script.initialization
    (requestResponse 1 "initialize" (initializeParams version))
  checkVersion initialized
  cancellablePhase script.initialized (notification "initialized" (.object []))
  let thread ← cancellablePhase script.thread
    (requestResponse 2 "thread/start" (threadParams request tools))
  let threadId ← orProtocolError (thread.stringAt ["thread", "id"])
  let turn ← cancellablePhase script.turn
    (requestResponse 3 "turn/start" (turnParams request input threadId))
  let turnId ← orProtocolError (turn.stringAt ["turn", "id"])
  collectTurn { threadId, turnId, tools } script.collect

end

def openSession (outcome : Option (Except ProviderError Unit)) : Session Unit := fun t =>
  match outcome with
  | some (.ok ()) => ({ t with opened := t.opened + 1 }, some (.ok ()))
  | some (.error e) => (t, some (.error e))
  | none => (t, none)

/-- The session is shut down whatever its turn has come to; an error of the turn comes first. -/
def closing {α : Type} (shutdown : Option (Except ProviderError Unit)) (x : Session α) :
    Session α := fun t =>
  match x t with
  | (t, none) => (t, none)
  | (t, some result) =>
    ({ t with shutdowns := t.shutdowns + 1 },
      shutdown.map fun closed =>
        match result with
        | .error e => .error e
        | .ok response => closed.map fun () => response)

section

variable [SchemaCompiler]

/-- The checks before a session is opened; none when the steps of a validation run out. -/
def preflight (fuel : Nat) (request : ModelRequest) (tools : List CodexTool) :
    Option (Except ProviderError (List FrozenTool × List Value)) :=
  if request.outputFormat ≠ .text then
    some (.error (.terminal .invalidRequest
      "codex app server structured output is not supported losslessly"))
  else if !request.includeContext then
    some (.error (PreflightError.unsupported "context exclusion").intoProviderError)
  else if request.maxOutputTokens ≠ 0 then
    some (.error (PreflightError.unsupported "exact output-token limits").intoProviderError)
  else match freezeTools fuel request tools with
    | none => none
    | some (.error e) => some (.error e.intoProviderError)
    | some (.ok frozen) =>
      match compileInput request with
      | .error e => some (.error e.intoProviderError)
      | .ok input => some (.ok (frozen, input))

variable [JsonText] [ArgumentSchema]

/-- `run_cancellable`: what it leaves of the session, and what it returns. -/
def runCancellable (fuel : Nat) (version : String) (tools : List CodexTool)
    (request : ModelRequest) (script : SessionScript) :
    Option (Transcript × Option (Except ProviderError ModelResponse)) :=
  (preflight fuel request tools).map fun checked =>
    match checked with
    | .error e => (.empty, some (.error e))
    | .ok (tools, input) =>
      let run : Session ModelResponse := do
        cancellablePhase script.opening openSession
        closing script.shutdown (converse version request tools input script)
      run .empty

end

end Codex

end Agentive
