import Agentive.DriverLoop
import Agentive.RunTrace
import Agentive.ToolEffect

/-! The local driver: the loop of a run, the handle that watches it, and the tree of runs that
delegations start. A script says for each iteration what the runtime meets there. -/

namespace Agentive

open DriverLoop

/-- One iteration of the loop: whether the cancellation flag is seen at its head, what happens
to its effect, the time that the effect takes, and the time since the start of the run. -/
structure IterationScript where
  cancelled : Bool
  effect : EffectScript
  elapsedMs : U64
  sinceStart : Duration

/-- The variables of the loop, the status and the usage that the handle shows, and what the run
has done so far: its events, in turn with the statuses that it sets, committed effects, transport
calls and child runs. -/
structure LoopState where
  iteration : Nat
  state : AgentRunState
  records : List RunRecord
  status : RunStatus
  usage : RunUsage
  events : List RunEvent
  steps : List RunStep
  log : List (AgentRunEffect × AgentEffectOutcome)
  calls : List TransportCall
  children : TreeLog

def resultFromState (s : AgentRunState) (records : List RunRecord) : RunResult :=
  { runId := s.runId
    status := s.status
    text := s.text
    history := s.history
    usage := s.usage
    records
    error :=
      match s.status with
      | .incomplete => some "model call limit reached"
      | .cancelled => some "run was cancelled"
      | _ => s.error }

def startedEvents : AgentRunEffect → List RunEvent
  | .providerCall _ _ round _ => [.modelCallStarted round]
  | .toolCall _ invocation _ _ _ =>
    [.toolInvocationStarted invocation.toolName invocation.invocationId.text]
  | .toolBatch _ calls =>
    calls.map fun call =>
      .toolInvocationStarted call.invocation.toolName call.invocation.invocationId.text

def toolCompleted (invocation : ToolInvocation) (attempts : U8) (output : Value) : RunEvent :=
  .toolInvocationCompleted invocation.toolName invocation.invocationId.text attempts
    (output.get "error").isNone

def completedEvents : AgentRunEffect → AgentEffectOutcome → List RunEvent
  | .providerCall _ _ round _, .provider response _ =>
    [.modelCallCompleted round response.usage]
  | .toolCall _ invocation _ _ _, .tool output attempts _ =>
    [toolCompleted invocation attempts output]
  | .toolBatch _ calls, .toolBatch outputs =>
    (calls.zip outputs).map fun p => toolCompleted p.1.invocation p.2.attempts p.2.output
  | _, _ => []

/-- The record that a provider effect leaves. A tool outcome does not belong to it. -/
def effectRecords (elapsedMs : U64) :
    AgentRunEffect → AgentEffectOutcome → Except RunError (List RunRecord)
  | .providerCall _ _ round request, .provider response attempts =>
    .ok [{ modelCall := round, request, response := some response, error := none, attempts,
           elapsedMs }]
  | .providerCall _ _ round request, .providerFailed error attempts =>
    .ok [{ modelCall := round, request, response := none, error := some error, attempts,
           elapsedMs }]
  | .providerCall _ _ _ _, .tool _ _ _ | .providerCall _ _ _ _, .toolBatch _ =>
    .error (.providerProtocol "provider effect returned a tool outcome")
  | _, _ => .ok []

def AgentEffectOutcome.isProviderFailure : AgentEffectOutcome → Bool
  | .providerFailed _ _ => true
  | _ => false

/-- A turn of the loop. -/
abbrev LocalTurn := Turn LoopState (Except RunError RunResult)

namespace LoopState

def start (s : AgentRunState) : LoopState :=
  { iteration := 0, state := s, records := [], status := .running, usage := .new
    events := [.statusChanged .running]
    steps := [.set .running, .emit (.statusChanged .running)]
    log := [], calls := [], children := .empty }

def emit (l : LoopState) (events : List RunEvent) : LoopState :=
  { l with events := l.events ++ events, steps := l.steps ++ events.map .emit }

/-- The handle shows a new status, and then the event of it is emitted. -/
def announce (l : LoopState) (status : RunStatus) : LoopState :=
  { l with
    status, events := l.events ++ [.statusChanged status]
    steps := l.steps ++ [.set status, .emit (.statusChanged status)] }

def finishWithUsage (l : LoopState) : LocalTurn :=
  .ended { l with usage := l.state.usage } (.ok (resultFromState l.state l.records))

def finishCancelled (l : LoopState) : LocalTurn :=
  let state := l.state.cancel
  .ended (announce { l with state, usage := state.usage } .cancelled)
    (.ok (resultFromState state l.records))

def failWith (l : LoopState) (e : RunError) : LocalTurn :=
  let state := l.state.fail e.toText
  .ended (announce { l with state, usage := state.usage } .failed) (.error e)

/-- What the execution of an effect adds to the run. -/
def absorb (l : LoopState) (effect : AgentRunEffect) (report : EffectReport) : LoopState :=
  { l with
    events := l.events ++ startedEvents effect ++ report.events
    steps := l.steps ++ (startedEvents effect ++ report.events).map .emit
    calls := l.calls ++ report.calls
    children := l.children.append report.children }

/-- The run after an accepted completion that left the state `s`. -/
def commitTo (l : LoopState) (effect : AgentRunEffect) (outcome : AgentEffectOutcome)
    (records : List RunRecord) (s : AgentRunState) : LoopState :=
  { l with
    state := s, records := l.records ++ records, usage := s.usage
    log := l.log ++ [(effect, outcome)] }

def completedResult (l : LoopState) (text : String) : RunResult :=
  { runId := l.state.runId, status := .completed, text := some text, history := l.state.history
    usage := l.state.usage, records := l.records, error := none }

/-- The end of an iteration whose effect has been committed. -/
def afterCommit (deadline : Option Duration) (script : IterationScript) (l : LoopState) :
    LocalTurn :=
  if deadline.any fun d => d ≤ script.sinceStart then l.finishCancelled
  else match l.state.text with
    | none => .next { l with iteration := l.iteration + 1 }
    | some text =>
      .ended (announce { l with usage := l.state.usage } .completed)
        (.ok (l.completedResult text))

section

variable [JsonText] [RequestText]

def complete (deadline : Option Duration) (script : IterationScript) (l : LoopState)
    (effect : AgentRunEffect) (outcome : AgentEffectOutcome) : LocalTurn :=
  let l := l.emit (completedEvents effect outcome)
  match effectRecords script.elapsedMs effect outcome with
  | .error e => .ended l (.error e)
  | .ok records =>
    match (l.state.recordElapsed script.elapsedMs).commitEffect effect.effectId outcome with
    | (state, .error e) =>
      .ended { l with state, records := l.records ++ records }
        (.error (.providerProtocol e.toText))
    | (state, .ok ()) =>
      let l := l.commitTo effect outcome records state
      if outcome.isProviderFailure then (l.announce .failed).finishWithUsage
      else if !effect.isProviderCall && state.pendingTools.isEmpty then
        match validateHistory state.history with
        | .error e => .ended l (.error e)
        | .ok () => l.afterCommit deadline script
      else l.afterCommit deadline script

/-- One iteration of the loop. -/
def turn (execute : Nat → AgentRunState → AgentRunEffect → EffectReport)
    (scripts : Nat → IterationScript) (deadline : Option Duration) (l : LoopState) : LocalTurn :=
  let script := scripts l.iteration
  if script.cancelled then l.finishCancelled
  else
    let (state, exhausted) := l.state.finishIfExhausted
    if exhausted then (announce { l with state } state.status).finishWithUsage
    else match l.state.nextEffect with
      | none => l.finishWithUsage
      | some effect =>
        let report := execute l.iteration l.state effect
        let l := l.absorb effect report
        match report.outcome with
        | none => .blocked l
        | some (.error .cancelled) => l.finishCancelled
        | some (.error e) => l.failWith e
        | some (.ok outcome) => l.complete deadline script effect outcome

end

end LoopState

/-- The end of the task that runs `execute_run`: an error that has left the status active makes
the run failed. -/
def settle (status : RunStatus) (events : List RunEvent) (failed : Bool) :
    RunStatus × List RunEvent :=
  if failed && status.isActive then (.failed, events ++ [.statusChanged .failed])
  else (status, events)

/-- What that end adds to the steps of the run. -/
def settleSteps (status : RunStatus) (failed : Bool) : List RunStep :=
  if failed && status.isActive then [.set .failed, .emit (.statusChanged .failed)] else []

section

variable [JsonText] [RequestText]

/-- A run of an agent whose effects are executed by `execute`, watched for `fuel` iterations. -/
def startRun (agent : Agent) (execute : Nat → AgentRunState → AgentRunEffect → EffectReport)
    (scripts : Nat → IterationScript) (fuel : Nat) (runId userMessage : String)
    (options : RunOptions) : RunReport :=
  match agent.prepareState runId (Agent.compileMessages userMessage options) options with
  | .error e =>
    let (status, events) := settle .pending [] true
    { runId, result := some (.error e), status, usage := .new, events
      steps := settleSteps .pending true
      tree := ⟨[], [options.delegationDepth]⟩ }
  | .ok s =>
    let (l, result) := drive (LoopState.turn execute scripts options.deadline) fuel (.start s)
    let failed := result.any fun r => !r.isOk
    let (status, events) := settle l.status l.events failed
    { runId, result, status, usage := l.usage, events
      steps := l.steps ++ settleSteps l.status failed
      tree := ⟨l.calls ++ l.children.calls, options.delegationDepth :: l.children.depths⟩ }

variable [ArgumentSchema]

/-- The place of a run in the tree: iteration and call of each delegation above it. -/
abbrev RunPath := List (Nat × Nat)

/-- What the runs of a tree meet, and the identities allocated for them. -/
structure Environment where
  runId : RunPath → String
  script : RunPath → Nat → IterationScript

/-- The effects of the run at a place of the tree; `run` runs the children. -/
def Environment.execute (env : Environment)
    (run : RunPath → Agent → String → RunOptions → RunReport) (path : RunPath) (agent : Agent)
    (i : Nat) (s : AgentRunState) (effect : AgentRunEffect) : EffectReport :=
  executeEffect agent (fun j => run ((i, j) :: path)) (env.script path i).effect s effect

/-- `Agent::start`, with the runs that delegations start below it. -/
def runAgent (env : Environment) :
    Nat → RunPath → Agent → String → RunOptions → RunReport
  | 0, path, _, _, options =>
    { runId := env.runId path, result := none, status := .pending, usage := .new, events := []
      steps := []
      tree := ⟨[], [options.delegationDepth]⟩ }
  | fuel + 1, path, agent, userMessage, options =>
    startRun agent (env.execute (runAgent env fuel) path agent) (env.script path) fuel
      (env.runId path) userMessage options

end

/-! A small agent and its surroundings, for concrete runs. -/

namespace Sample

@[reducible] def argumentSchema : ArgumentSchema :=
  { accepts := fun _ _ => true, decodeTask := fun _ => .ok "task" }

def provider (streaming : Bool) : Provider :=
  { routingAttempts := 1
    capabilities :=
      { supportsToolCalls := true, supportsStreaming := streaming, supportsImages := false
        maxContextTokens := some 1000 }
    structuredOutputSupport := .none
    conservativeContextTokenBound := fun _ => .ok (some 10)
    exactContextTokenCount := fun _ => .ok (some 10) }

def agent (streaming : Bool) : Agent :=
  { name := "agent", provider := provider streaming, tools := [], agentInstructions := none }

def toolAgent : Agent :=
  { agent false with
    tools := [.ordinary { name := lookup, maxAttempts := 1, parallelSafe := false }
      { name := lookup, description := "looks up", schema := .null, idempotent := false }] }

def answering (response : ModelResponse) : AttemptScript :=
  { generated := .ok response, streamed := .ok [], ending := .finished false
    retryInterrupted := false }

/-- An iteration without cancellation in which a provider call meets `attempts`, and a tool call
`tries`. -/
def iteration (attempts : List AttemptScript) (tries : List ToolAttempt) : IterationScript :=
  { cancelled := false
    effect :=
      { attempts
        member := fun _ => { reached := true, attempts := tries, parentCancelled := false }
        failing := 0 }
    elapsedMs := 0
    sinceStart := 0 }

def environment (scripts : Nat → IterationScript) : Environment :=
  { runId := fun _ => "run", script := fun _ => scripts }

def started (streaming : Bool) : AgentRunState :=
  .withPlan "run" [.user "hello"] ⟨6⟩ ((agent streaming).runPlan {})

theorem prepareState_hello (a : Agent) :
    let _ := jsonText
    a.prepareState "run" (Agent.compileMessages "hello" {}) {} =
      .ok (.withPlan "run" [.user "hello"] ⟨6⟩ (a.runPlan {})) := by
  intro _
  refine Agent.prepareState_eq_ok_iff.mpr ⟨rfl, ?_, ?_⟩
  · decide +kernel
  · have hlimit : (6 : U32) = (6 : U64).cast := by decide
    rw [hlimit]
    rfl

theorem prepareState_agent (streaming : Bool) :
    let _ := jsonText
    (agent streaming).prepareState "run" (Agent.compileMessages "hello" {}) {} =
      .ok (started streaming) := prepareState_hello _

end Sample

end Agentive
