import Agentive.State

/-! Effect completion. A commit takes the state by mutable reference in the source, so here it
returns the state it leaves behind next to its result, also when it fails. -/

namespace Agentive

structure ProviderAttempt where
  attempt : U8
  usage : Option ModelTokenUsage
  reservedTokens : U64
deriving DecidableEq

structure ToolEffectResult where
  output : Value
  attempts : U8
  childUsage : Option RunUsage
deriving DecidableEq

inductive AgentEffectOutcome
  | provider (response : ModelResponse) (attempts : List ProviderAttempt)
  | providerFailed (error : ProviderError) (attempts : List ProviderAttempt)
  | providerBudgetExhausted (requiredTokens : U64)
  | tool (output : Value) (attempts : U8) (childUsage : Option RunUsage)
  | toolBatch (outputs : List ToolEffectResult)
deriving DecidableEq

/-- What a commit leaves behind: the state, and whether the completion was accepted. -/
abbrev Commit := AgentRunState × Except StateTransitionError Unit

def providerCallCount (attempts : List ProviderAttempt) : U32 :=
  (Capped.clamp attempts.length).max 1

/-- The reservations of the attempts together, if every attempt carries one. -/
def attemptsReservation (attempts : List ProviderAttempt) : Option U64 :=
  if attempts.isEmpty then none
  else attempts.foldlM (fun total a =>
    if 0 < a.reservedTokens.val then some (total.saturatingAdd a.reservedTokens) else none) 0

namespace AgentRunState

def expectEffect (s : AgentRunState) (received : String) (provider : Bool) :
    Except StateTransitionError Unit :=
  let valid := match s.nextEffect, provider with
    | some (.providerCall id _ _ _), true => decide (id = received)
    | some (.toolCall id _ _ _ _), false => decide (id = received)
    | _, _ => false
  if valid then .ok ()
  else .error (.unexpectedEffect received (s.nextEffect.map (·.effectId)))

def expectBatch (s : AgentRunState) (received : String) (count : Nat) :
    Except StateTransitionError Unit :=
  let valid := match s.nextEffect with
    | some (.toolBatch id calls) => decide (id = received ∧ calls.length = count)
    | _ => false
  if valid then .ok ()
  else .error (.unexpectedEffect received (s.nextEffect.map (·.effectId)))

def recordProviderAttempts (s : AgentRunState) (attempts : List ProviderAttempt)
    (finalUsage : Option ModelTokenUsage) : AgentRunState :=
  if attempts.isEmpty then { s with usage := s.usage.addCall "model" finalUsage }
  else { s with usage := attempts.foldl (fun u a => u.addCall "model" a.usage) s.usage }

def chargeProviderCalls (s : AgentRunState) (attempts : List ProviderAttempt) : AgentRunState :=
  { s with
    providerCallsStarted :=
      (s.providerCallsStarted.max s.modelCalls).saturatingAdd (providerCallCount attempts)
    modelCalls := s.modelCalls.saturatingAdd 1 }

def reserveChild (s : AgentRunState) : Option DelegationBudget → AgentRunState
  | some reservation =>
    { s with
      reservedChildModelCalls :=
        s.reservedChildModelCalls.saturatingAdd reservation.modelCallLimit
      reservedTokens := s.reservedTokens.saturatingAdd (reservation.tokenLimit.getD 0) }
  | none => s

def mergeChildUsage (s : AgentRunState) : Option RunUsage → AgentRunState
  | some childUsage => { s with usage := s.usage.mergeChild childUsage }
  | none => s

section

variable [JsonText] [RequestText]

def reserveProviderAttemptTokens (s : AgentRunState) (attempts : List ProviderAttempt) :
    AgentRunState :=
  let reservation := (attemptsReservation attempts).getD
    (s.nextModelTokenReservation.saturatingMul (providerCallCount attempts).cast)
  { s with reservedTokens := s.reservedTokens.saturatingAdd reservation }

/-- The effect of an accepted response on history, pending tools, text and status. -/
def applyResponse (s : AgentRunState) (response : ModelResponse) : AgentRunState :=
  if response.toolCalls ≠ [] then
    { s with
      history := s.history ++
        [Message.assistantToolCalls (response.toolCalls.map (·.toToolCall))]
      pendingTools := response.toolCalls }
  else match response.text with
    | some text =>
      { s with
        history := s.history ++ [Message.assistantText text]
        text := some text
        status := .completed }
    | none => s.markIncomplete

/-- The ledger entries of a provider effect: tokens, calls and usage of its attempts. -/
def recordProviderEffect (s : AgentRunState) (attempts : List ProviderAttempt)
    (finalUsage : Option ModelTokenUsage) : AgentRunState :=
  ((s.reserveProviderAttemptTokens attempts).chargeProviderCalls attempts).recordProviderAttempts
    attempts finalUsage

def acceptResponse (s : AgentRunState) (response : ModelResponse)
    (attempts : List ProviderAttempt) : AgentRunState :=
  (recordProviderEffect { s with status := .running } attempts response.usage).applyResponse
    response

def commitProviderResponseWithAttempts (s : AgentRunState) (effectId : String)
    (response : ModelResponse) (attempts : List ProviderAttempt) : Commit :=
  match s.expectEffect effectId true with
  | .error e => (s, .error e)
  | .ok () => (s.acceptResponse response attempts, .ok ())

def commitProviderResponse (s : AgentRunState) (effectId : String) (response : ModelResponse) :
    Commit :=
  s.commitProviderResponseWithAttempts effectId response []

def commitProviderFailure (s : AgentRunState) (effectId : String) (error : ProviderError)
    (attempts : List ProviderAttempt) : Commit :=
  match s.expectEffect effectId true with
  | .error e => (s, .error e)
  | .ok () => ((s.recordProviderEffect attempts error.usage).fail error.message, .ok ())

def commitBudgetExhausted (s : AgentRunState) (effectId : String) : Commit :=
  match s.expectEffect effectId true with
  | .error e => (s, .error e)
  | .ok () => (s.markIncomplete, .ok ())

/-- The result of the first pending call: usage, reservation, history and pending list. -/
def resolveCall (s : AgentRunState) (call : ModelToolCall) (output : Value)
    (childUsage : Option RunUsage) (reservation : Option DelegationBudget) : AgentRunState :=
  let s := (s.mergeChildUsage childUsage).reserveChild reservation
  { s with
    history := s.history ++ [Message.toolResult call.callId call.name output]
    pendingTools := s.pendingTools.tail }

def commitToolResultWithUsage (s : AgentRunState) (effectId : String) (output : Value)
    (childUsage : Option RunUsage) : Commit :=
  let reservation := s.pendingTools.head?.bind s.delegationBudgetFor
  match s.expectEffect effectId false with
  | .error e => (s, .error e)
  | .ok () =>
    match s.pendingTools with
    | [] => (s, .error (.unexpectedEffect effectId none))
    | call :: _ => (s.resolveCall call output childUsage reservation, .ok ())

def commitToolResult (s : AgentRunState) (effectId : String) (output : Value) : Commit :=
  s.commitToolResultWithUsage effectId output none

def commitToolError (s : AgentRunState) (effectId code message : String) : Commit :=
  s.commitToolResult effectId (.ofError code message)

/-- The loop of a batch commit over outputs and the reservations made before it. -/
def commitOutputs (effectId : String) :
    List (ToolEffectResult × Option DelegationBudget) → AgentRunState → Commit
  | [], s => (s, .ok ())
  | (result, reservation) :: rest, s =>
    match s.pendingTools with
    | [] => (s, .error (.unexpectedEffect effectId none))
    | call :: _ => commitOutputs effectId rest
        (s.resolveCall call result.output result.childUsage reservation)

def commitToolBatch (s : AgentRunState) (effectId : String) (outputs : List ToolEffectResult) :
    Commit :=
  let reservations := match s.nextEffect with
    | some (.toolBatch _ calls) => calls.map (·.delegationBudget)
    | _ => []
  match s.expectBatch effectId outputs.length with
  | .error e => (s, .error e)
  | .ok () => commitOutputs effectId (outputs.zip reservations) s

def commitEffect (s : AgentRunState) (effectId : String) : AgentEffectOutcome → Commit
  | .provider response attempts =>
    s.commitProviderResponseWithAttempts effectId response attempts
  | .providerFailed error attempts => s.commitProviderFailure effectId error attempts
  | .providerBudgetExhausted _ => s.commitBudgetExhausted effectId
  | .tool output _ childUsage => s.commitToolResultWithUsage effectId output childUsage
  | .toolBatch outputs => s.commitToolBatch effectId outputs

end

end AgentRunState

end Agentive
