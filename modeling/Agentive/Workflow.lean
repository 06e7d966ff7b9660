import Agentive.Agent
import Agentive.Commits
import Agentive.DriverLoop

/-! The Temporal driver: the workflow that runs one activity for each effect, and the chain of
executions that it becomes by Continue-As-New. -/

namespace Agentive

open DriverLoop

def adapterSchemaVersion : Fin 65536 := 1

def workflowFingerprint : String := "agentive-temporal-workflow-v1"

structure TemporalRunConfig where
  schemaVersion : Fin 65536
  workflowFingerprint : String
  continueAsNewAfterEffects : U32
  durableIdempotentTools : List String
  durableIdempotentProvider : Bool
deriving DecidableEq

inductive TemporalRunConfigError
  | unsupportedSchemaVersion (received : Fin 65536)
  | zeroContinuationThreshold
  | unsafeDurableTool (name : String)
  | unsupportedWorkflowFingerprint (received : String)
deriving DecidableEq

/-- The tools that an effect calls. -/
def AgentRunEffect.toolNames : AgentRunEffect → List ToolName
  | .providerCall _ _ _ _ => []
  | .toolCall _ invocation _ _ _ => [invocation.toolName]
  | .toolBatch _ calls => calls.map (·.invocation.toolName)

namespace TemporalRunConfig

def allows (config : TemporalRunConfig) (name : ToolName) : Bool :=
  config.durableIdempotentTools.contains name.text

def validatesEffect (config : TemporalRunConfig) (effect : AgentRunEffect) :
    Except TemporalRunConfigError Unit :=
  match effect.toolNames.find? fun name => !config.allows name with
  | some name => .error (.unsafeDurableTool name.text)
  | none => .ok ()

def validate (config : TemporalRunConfig) : Except TemporalRunConfigError Unit :=
  if config.schemaVersion ≠ adapterSchemaVersion then
    .error (.unsupportedSchemaVersion config.schemaVersion)
  else if config.workflowFingerprint ≠ Agentive.workflowFingerprint then
    .error (.unsupportedWorkflowFingerprint config.workflowFingerprint)
  else if config.continueAsNewAfterEffects = 0 then .error .zeroContinuationThreshold
  else .ok ()

def activityMaxAttempts (config : TemporalRunConfig) (effect : AgentRunEffect) : U32 :=
  if effect.isProviderCall && !config.durableIdempotentProvider then 1 else 2

end TemporalRunConfig

structure TemporalWorkflowInput where
  state : AgentRunState
  config : TemporalRunConfig
  completedEffects : U64
  effectsInExecution : U32
deriving DecidableEq

def TemporalWorkflowInput.new (state : AgentRunState) (config : TemporalRunConfig) :
    TemporalWorkflowInput :=
  { state, config, completedEffects := 0, effectsInExecution := 0 }

/-- The snapshot of the workflow query; its cursor is the number of completed effects. -/
structure TemporalRunSnapshot where
  state : AgentRunState
  cursor : U64
deriving DecidableEq

structure EffectActivityInput where
  state : AgentRunState
  effect : AgentRunEffect

inductive EffectActivityOutput
  | reported (outcome : AgentEffectOutcome) (elapsedMs : U64)
  | legacy (outcome : AgentEffectOutcome)

def EffectActivityOutput.intoParts : EffectActivityOutput → AgentEffectOutcome × U64
  | .reported outcome elapsedMs => (outcome, elapsedMs)
  | .legacy outcome => (outcome, 0)

structure ActivityOptions where
  scheduleToCloseTimeout : Duration
  maximumAttempts : U32

inductive ActivityExecutionError
  | cancelled
  | other (message : String)

/-- What the activities of a run report, one after another. -/
abbrev Activities :=
  Nat → EffectActivityInput → ActivityOptions → Except ActivityExecutionError EffectActivityOutput

inductive WorkflowFailure
  | config (error : TemporalRunConfigError)
  | unsupportedHistoryMarker
  | state (error : StateTransitionError)
  | activity (message : String)
deriving DecidableEq

inductive WorkflowEnd
  | returned (state : AgentRunState)
  | failed (failure : WorkflowFailure)
  | continuedAsNew (input : TemporalWorkflowInput)

def unboundedEffectTimeout : Duration := .fromMillis Capped.top

def durableSafeInfrastructureMaxAttempts : U32 := 2

def effectDeadline (s : AgentRunState) : Duration :=
  match s.plan.deadlineMs with
  | none => unboundedEffectTimeout
  | some deadline => .fromMillis (deadline.saturatingSub s.elapsedMs)

/-- The loop of one execution, with the effects that the chain has selected so far and those that
this execution has committed. -/
structure ExecutionLoop where
  input : TemporalWorkflowInput
  snapshot : Option TemporalRunSnapshot
  selected : List AgentRunEffect
  committed : List (AgentRunEffect × AgentEffectOutcome)

namespace ExecutionLoop

def updateSnapshot (l : ExecutionLoop) : ExecutionLoop :=
  { l with
    snapshot := some { state := l.input.state, cursor := l.input.completedEffects } }

def setState (l : ExecutionLoop) (state : AgentRunState) : ExecutionLoop :=
  { l with input := { l.input with state } }

/-- The threshold after which the workflow continues as new. -/
def full (l : ExecutionLoop) : Bool :=
  decide (l.input.config.continueAsNewAfterEffects ≤ l.input.effectsInExecution)

/-- The end of `run`, after its loop. -/
def leave (l : ExecutionLoop) : Turn ExecutionLoop WorkflowEnd :=
  let state := l.input.state.finishIfExhausted.1
  .ended (l.setState state).updateSnapshot (.returned state)

section

variable [JsonText] [RequestText]

/-- The run after an effect has been completed: its commit, its time, and the counters. -/
def complete (l : ExecutionLoop) (effect : AgentRunEffect) (output : EffectActivityOutput) :
    Turn ExecutionLoop WorkflowEnd :=
  let (outcome, elapsedMs) := output.intoParts
  match l.input.state.commitEffect effect.effectId outcome with
  | (state, .error e) => .ended (l.setState state) (.failed (.state e))
  | (state, .ok ()) =>
    .next
      { l with
        input :=
          { l.input with
            state := (state.recordElapsed elapsedMs).finishIfExhausted.1
            completedEffects := l.input.completedEffects.saturatingAdd 1
            effectsInExecution := l.input.effectsInExecution.saturatingAdd 1 }
        committed := l.committed ++ [(effect, outcome)] }.updateSnapshot

/-- The execution of a selected effect by its activity. -/
def perform (activities : Activities) (l : ExecutionLoop) (effect : AgentRunEffect) :
    Turn ExecutionLoop WorkflowEnd :=
  let i := l.selected.length
  let l := { l with selected := l.selected ++ [effect] }
  match l.input.config.validatesEffect effect with
  | .error e => .ended l (.failed (.config e))
  | .ok () =>
    let options : ActivityOptions :=
      { scheduleToCloseTimeout := effectDeadline l.input.state
        maximumAttempts :=
          (l.input.config.activityMaxAttempts effect).min durableSafeInfrastructureMaxAttempts }
    match activities i { state := l.input.state, effect } options with
    | .error .cancelled =>
      let state := l.input.state.cancel
      .ended (l.setState state).updateSnapshot (.returned state)
    | .error (.other message) => .ended l (.failed (.activity message))
    | .ok output => l.complete effect output

/-- One iteration of the loop of `run`; `continues` says when it continues as new. -/
def iterate (continues : ExecutionLoop → Bool) (activities : Activities) (l : ExecutionLoop) :
    Turn ExecutionLoop WorkflowEnd :=
  let (state, exhausted) := l.input.state.finishIfExhausted
  let l := l.setState state
  if exhausted then l.leave
  else match state.nextEffect with
    | none => l.leave
    | some effect =>
      if continues l then .ended l (.continuedAsNew { l.input with effectsInExecution := 0 })
      else l.perform activities effect

def turn (activities : Activities) (l : ExecutionLoop) : Turn ExecutionLoop WorkflowEnd :=
  l.iterate full activities

end

end ExecutionLoop

/-- The start of `run`. Without the marker the workflow does not know its history. -/
def beginExecution (patched : Bool) (input : TemporalWorkflowInput)
    (selected : List AgentRunEffect) : Except WorkflowFailure ExecutionLoop :=
  match input.config.validate with
  | .error e => .error (.config e)
  | .ok () =>
    if !patched then .error .unsupportedHistoryMarker
    else .ok (ExecutionLoop.updateSnapshot { input, snapshot := none, selected, committed := [] })

/-- A chain of executions: the running one, and what each of the earlier ones has committed. -/
structure ContinuationChain where
  execution : ExecutionLoop
  earlier : List (List (AgentRunEffect × AgentEffectOutcome))

namespace ContinuationChain

variable [JsonText] [RequestText]

/-- One iteration of the running execution, or the start of the next one. -/
def turn (activities : Activities) (patched : Bool) (c : ContinuationChain) :
    Turn ContinuationChain (Except WorkflowFailure AgentRunState) :=
  match c.execution.turn activities with
  | .next l => .next { c with execution := l }
  | .blocked l => .blocked { c with execution := l }
  | .ended l (.returned state) => .ended { c with execution := l } (.ok state)
  | .ended l (.failed failure) => .ended { c with execution := l } (.error failure)
  | .ended l (.continuedAsNew input) =>
    match beginExecution patched input l.selected with
    | .error failure => .ended { c with execution := l } (.error failure)
    | .ok next => .next { execution := next, earlier := c.earlier ++ [l.committed] }

end ContinuationChain

/-- What a chain leaves behind: its result, the effects that it selected, its last state and
counter, and the commits of each of its executions. -/
structure ChainReport where
  result : Except WorkflowFailure AgentRunState
  selected : List AgentRunEffect
  state : AgentRunState
  completedEffects : U64
  executions : List (List (AgentRunEffect × AgentEffectOutcome))

def ContinuationChain.report (c : ContinuationChain)
    (result : Except WorkflowFailure AgentRunState) : ChainReport :=
  { result
    selected := c.execution.selected
    state := c.execution.input.state
    completedEffects := c.execution.input.completedEffects
    executions := c.earlier ++ [c.execution.committed] }

/-- `AgentiveWorkflow::run` and the executions that follow it, for `fuel` iterations. -/
def runChain [JsonText] [RequestText] (activities : Activities) (patched : Bool) (fuel : Nat)
    (input : TemporalWorkflowInput) : Option ChainReport :=
  match beginExecution patched input [] with
  | .error failure =>
    some
      { result := .error failure, selected := [], state := input.state
        completedEffects := input.completedEffects, executions := [[]] }
  | .ok l =>
    let (c, result) := drive (ContinuationChain.turn activities patched) fuel ⟨l, []⟩
    result.map c.report

namespace Sample

def temporalConfig : TemporalRunConfig :=
  { schemaVersion := adapterSchemaVersion, workflowFingerprint := Agentive.workflowFingerprint
    continueAsNewAfterEffects := Capped.top, durableIdempotentTools := ["lookup"]
    durableIdempotentProvider := false }

end Sample

end Agentive
