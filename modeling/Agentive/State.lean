import Agentive.Usage

/-! The serializable state of a run, and the effect it asks its runtime for next. -/

namespace Agentive

inductive RunStatus
  | pending
  | running
  | completed
  | incomplete
  | failed
  | cancelled
deriving DecidableEq

/-- The two statuses from which a run can still make progress. -/
def RunStatus.isActive : RunStatus → Bool
  | .pending | .running => true
  | _ => false

inductive StateTransitionError
  | unexpectedEffect (received : String) (expected : Option String)
deriving DecidableEq

/-- The text of the error. The expected id stands in quotes without the escapes that `Debug`
adds to quotes and unprintable characters. -/
def StateTransitionError.toText : StateTransitionError → String
  | .unexpectedEffect received none => "unexpected effect `" ++ received ++ "`; expected None"
  | .unexpectedEffect received (some expected) =>
    "unexpected effect `" ++ received ++ "`; expected Some(\"" ++ expected ++ "\")"

structure AgentRunBudget where
  modelCallLimit : U32
deriving DecidableEq

structure ToolRuntimePolicy where
  descriptor : ProviderToolDescriptor
  idempotent : Bool
  maxAttempts : U8
  parallelSafe : Bool
  delegation : Bool
deriving DecidableEq

structure AgentRunPlan where
  instructions : CompiledInstructions
  tools : List ToolRuntimePolicy
  model : Option String
  maxOutputTokens : U64
  outputFormat : ModelOutputFormat
  providerMaxAttempts : U8
  maxParallelToolCalls : U64
  contextEstimate : AllOrError
  providerEnforcedLimitOptOut : Bool
  deadlineMs : Option U64
  delegationDepth : U8
  maxDelegationDepth : U8
  tokenLimit : Option U64
deriving DecidableEq

def AgentRunPlan.toolPolicy (plan : AgentRunPlan) (name : ToolName) : Option ToolRuntimePolicy :=
  plan.tools.find? (fun policy => policy.descriptor.name = name)

structure AgentRunState where
  runId : String
  plan : AgentRunPlan
  history : List Message
  usage : RunUsage
  budget : AgentRunBudget
  modelCalls : U32
  providerCallsStarted : U32
  elapsedMs : U64
  reservedChildModelCalls : U32
  reservedTokens : U64
  pendingTools : List ModelToolCall
  status : RunStatus
  text : Option String
  error : Option String
deriving DecidableEq

structure DelegationBudget where
  modelCallLimit : U32
  tokenLimit : Option U64
deriving DecidableEq

structure ToolInvocationId where
  text : String
deriving DecidableEq

structure IdempotencyKey where
  text : String
deriving DecidableEq

structure ToolInvocation where
  runId : String
  invocationId : ToolInvocationId
  providerCallId : Option String
  toolName : ToolName
  modelRound : U32
  idempotencyKey : IdempotencyKey
deriving DecidableEq

structure ToolEffectCall where
  invocation : ToolInvocation
  arguments : Value
  policy : Option ToolRuntimePolicy
  delegationBudget : Option DelegationBudget
deriving DecidableEq

inductive AgentRunEffect
  | providerCall (effectId providerCallId : String) (round : U32) (request : ModelRequest)
  | toolCall (effectId : String) (invocation : ToolInvocation) (arguments : Value)
      (policy : Option ToolRuntimePolicy) (delegationBudget : Option DelegationBudget)
  | toolBatch (effectId : String) (calls : List ToolEffectCall)
deriving DecidableEq

def AgentRunEffect.effectId : AgentRunEffect → String
  | .providerCall id _ _ _ | .toolCall id _ _ _ _ | .toolBatch id _ => id

def AgentRunEffect.isProviderCall : AgentRunEffect → Bool
  | .providerCall _ _ _ _ => true
  | _ => false

/-- The tool calls of an effect. -/
def AgentRunEffect.calls : AgentRunEffect → List ToolEffectCall
  | .providerCall _ _ _ _ => []
  | .toolCall _ invocation arguments policy delegationBudget =>
    [{ invocation, arguments, policy, delegationBudget }]
  | .toolBatch _ calls => calls

namespace AgentRunState

/-- A state whose first requested effect is a provider call. -/
def withPlan (runId : String) (history : List Message) (budget : AgentRunBudget)
    (plan : AgentRunPlan) : AgentRunState :=
  { runId, plan, history, usage := .new, budget, modelCalls := 0, providerCallsStarted := 0,
    elapsedMs := 0, reservedChildModelCalls := 0, reservedTokens := 0, pendingTools := [],
    status := .pending, text := none, error := none }

/-- Provider calls charged to the run: its own transport calls and its children's shares. -/
def callsCharged (s : AgentRunState) : U32 :=
  (s.providerCallsStarted.max s.modelCalls).saturatingAdd s.reservedChildModelCalls

def isDelegation (s : AgentRunState) (call : ModelToolCall) : Bool :=
  (s.plan.toolPolicy call.name).any (·.delegation)

def isParallelSafe (s : AgentRunState) (call : ModelToolCall) : Bool :=
  (s.plan.toolPolicy call.name).any (·.parallelSafe)

/-- One more than the number of pending delegations. -/
def delegationDivisor (s : AgentRunState) : U32 :=
  Capped.clamp ((s.pendingTools.filter s.isDelegation).length + 1)

def delegationBudgetFor (s : AgentRunState) (call : ModelToolCall) : Option DelegationBudget :=
  if s.isDelegation call then
    some
      { modelCallLimit :=
          (s.budget.modelCallLimit.saturatingSub s.callsCharged).div s.delegationDivisor
        tokenLimit := s.plan.tokenLimit.map fun limit =>
          (limit.saturatingSub s.reservedTokens).div s.delegationDivisor.cast }
  else none

def noProviderBudget (s : AgentRunState) : Bool :=
  decide (s.budget.modelCallLimit ≤ s.callsCharged) ||
    s.plan.tokenLimit.any fun limit => decide (limit ≤ s.reservedTokens)

def nextModelRequest (s : AgentRunState) (effectId : String) : ModelRequest :=
  { instructions := s.plan.instructions
    messages := s.history
    tools := s.plan.tools.map (·.descriptor)
    includeContext := true
    model := s.plan.model
    maxOutputTokens := s.plan.maxOutputTokens
    outputFormat := s.plan.outputFormat
    invocationId := effectId }

def providerEffectId (runId : String) (round : U32) : String :=
  runId ++ ":provider:" ++ toString round.val

def toolEffectId (runId callId : String) : String := runId ++ ":tool:" ++ callId

def toolBatchEffectId (runId callId : String) : String := runId ++ ":tool-batch:" ++ callId

def idempotencyKey (runId callId : String) : IdempotencyKey := ⟨runId ++ ":" ++ callId⟩

def nextModelTokenReservation [RequestText] (s : AgentRunState) : U64 :=
  let request := s.nextModelRequest (providerEffectId s.runId s.modelCalls)
  let inputUpperBound : U64 := ((RequestText.len request).map Capped.clamp).getD Capped.top
  inputUpperBound.saturatingAdd s.plan.maxOutputTokens

def toolEffectCall (s : AgentRunState) (call : ModelToolCall) : ToolEffectCall :=
  { invocation :=
      { runId := s.runId
        invocationId := ⟨toolEffectId s.runId call.callId⟩
        providerCallId := call.providerCallId
        toolName := call.name
        modelRound := s.modelCalls.saturatingSub 1
        idempotencyKey := idempotencyKey s.runId call.callId }
    arguments := call.arguments
    policy := s.plan.toolPolicy call.name
    delegationBudget := s.delegationBudgetFor call }

def providerEffect (s : AgentRunState) : AgentRunEffect :=
  let id := providerEffectId s.runId s.modelCalls
  .providerCall id id s.modelCalls (s.nextModelRequest id)

def toolEffect (s : AgentRunState) (call : ModelToolCall) : AgentRunEffect :=
  .toolCall (toolEffectId s.runId call.callId) (s.toolEffectCall call).invocation call.arguments
    (s.plan.toolPolicy call.name) (s.delegationBudgetFor call)

/-- The batch of all pending calls, named after the first of them. -/
def toolBatchEffect (s : AgentRunState) (call : ModelToolCall) : AgentRunEffect :=
  .toolBatch (toolBatchEffectId s.runId call.callId) (s.pendingTools.map s.toolEffectCall)

def batchable (s : AgentRunState) : Bool :=
  decide (1 < s.pendingTools.length) && s.pendingTools.all s.isParallelSafe

/-- The next effect, without changing the state: asking again gives the same effect. -/
def nextEffect (s : AgentRunState) : Option AgentRunEffect :=
  if s.status.isActive then
    match s.pendingTools with
    | call :: _ =>
      if s.batchable then some (s.toolBatchEffect call) else some (s.toolEffect call)
    | [] => if s.noProviderBudget then none else some s.providerEffect
  else none

/-- Cancellation, unless the run has ended already. -/
def cancel (s : AgentRunState) : AgentRunState :=
  if s.status.isActive then
    { s with status := .cancelled, usage := { s.usage with complete := false } }
  else s

/-- Failure with a safe text, unless the run has ended already. -/
def fail (s : AgentRunState) (message : String) : AgentRunState :=
  if s.status.isActive then { s with status := .failed, error := some message } else s

def deadlineReached (s : AgentRunState) : Bool :=
  s.plan.deadlineMs.any fun deadline => decide (deadline ≤ s.elapsedMs)

def markIncomplete (s : AgentRunState) : AgentRunState :=
  { s with status := .incomplete, usage := { s.usage with complete := false } }

/-- The terminal transition of an exhausted run, and whether it was made. -/
def finishIfExhausted (s : AgentRunState) : AgentRunState × Bool :=
  if s.status.isActive && s.deadlineReached then (s.cancel, true)
  else if s.status.isActive && s.pendingTools.isEmpty && s.noProviderBudget then
    (s.markIncomplete, true)
  else (s, false)

def recordElapsed (s : AgentRunState) (elapsedMs : U64) : AgentRunState :=
  { s with elapsedMs := s.elapsedMs.saturatingAdd elapsedMs }

end AgentRunState

end Agentive
