import Agentive.LocalRun

/-! A delegation tool in the registry of its parent. An agent that registers it as a delegation
runs its children by `execute`, within a budget; one that registers it like any other tool runs
them by `call`, with nothing but the context of a tool call. -/

namespace Agentive

open DriverLoop

def ToolError.terminal (code message : String) : ToolError :=
  { code, message, retryable := false }

/-- The methods of `AgentBuilder` that take a delegation tool. -/
inductive Registration
  | tool
  | delegate
  | delegateParallel
deriving DecidableEq

structure ToolContext where
  invocation : ToolInvocation
  attempt : U8
  remainingTime : Option Duration
  delegationDepth : U8
  maxDelegationDepth : U8

/-- A child run: its task, the options that it is started with, and how it goes. -/
structure ChildRun where
  task : String
  options : RunOptions
  report : RunReport

/-- The usage in the result of a child run, or what its handle shows without one. -/
def ChildRun.usage (child : ChildRun) : RunUsage :=
  match child.report.result with
  | some (.ok result) => result.usage
  | _ => child.report.usage

/-- What the attempt of a tool call meets: the time that its effect has taken before it, and
whether its run is cancelled or out of time before it starts, before it ends, or as `call` sees
it. -/
structure AttemptTiming where
  elapsed : Duration
  cancelledBefore : Bool
  interrupted : Bool
  cancelled : Bool

/-- A tool call by `DelegationTool::call`: its result, and the child run that it starts. -/
structure CallReport where
  result : Option (Except ToolError Value)
  started : Option ChildRun

def CallReport.failed (error : ToolError) : CallReport := ⟨some (.error error), none⟩

def CallReport.toAttempt (report : CallReport) : ToolAttempt :=
  match report.result with
  | none => .pending
  | some (.ok output) => .output output
  | some (.error e) => .error e false

namespace DelegationTool

def metadata (schema : Value) (tool : DelegationTool Agent) : ToolDefinition :=
  { name := tool.name, description := tool.description, schema, idempotent := false }

/-- The tool behind a registry handle, with the defaults of the `Tool` trait. -/
def handle (tool : DelegationTool Agent) : ToolHandle :=
  { name := tool.name, maxAttempts := 1, parallelSafe := tool.parallelSafe }

/-- The frozen entry that a registration comes to. -/
def freeze (schema : Value) (tool : DelegationTool Agent) : Registration → RegisteredTool Agent
  | .tool => .ordinary tool.handle (tool.metadata schema)
  | .delegate => .delegation { tool with parallelSafe := false } (tool.metadata schema)
  | .delegateParallel => .delegation { tool with parallelSafe := true } (tool.metadata schema)

def callOptions (context : ToolContext) : RunOptions :=
  { deadline := context.remainingTime
    maxDelegationDepth := context.maxDelegationDepth
    delegationDepth := context.delegationDepth.saturatingAdd 1 }

/-- What `call` answers about its child run. A cancelled call does not wait for it. -/
def callResult (child : Agent) (cancelled : Bool) (report : RunReport) :
    Option (Except ToolError Value) :=
  if cancelled then
    some (.error (.terminal "delegation_cancelled" "delegation was cancelled"))
  else match report.result with
    | none => none
    | some (.ok result) =>
      if result.status = .completed ∨ result.status = .incomplete then
        some (.ok (delegationResult child report.runId result))
      else some (.error
        (.terminal "delegation_failed" "delegated agent did not complete successfully"))
    | some (.error _) => some (.error (.terminal "delegation_failed" "delegated agent failed"))

theorem usage_of_childOutcome {child : ChildRun} {agent : Agent} {parentCancelled : Bool}
    {o : AgentEffectOutcome} (h : childOutcome agent parentCancelled child.report = some o) :
    ∃ output, o = .tool output 1 (some child.usage) := by
  unfold childOutcome at h
  cases hr : child.report.result with
  | none => simp [hr] at h
  | some result =>
    cases result with
    | error e =>
      have husage : child.usage = child.report.usage := by simp [ChildRun.usage, hr]
      rw [husage]
      simp only [hr] at h
      split at h <;> exact ⟨_, (Option.some.inj h).symm⟩
    | ok result =>
      have husage : child.usage = result.usage := by simp [ChildRun.usage, hr]
      rw [husage]
      simp only [hr] at h
      split at h
      · exact ⟨_, (Option.some.inj h).symm⟩
      · split at h <;> exact ⟨_, (Option.some.inj h).symm⟩

section

variable [ArgumentSchema] (tool : DelegationTool Agent)
  (runChild : Agent → String → RunOptions → RunReport)

def call (context : ToolContext) (cancelled : Bool) (arguments : Value) : CallReport :=
  match ArgumentSchema.decodeTask arguments with
  | .error e =>
    .failed (.terminal "invalid_arguments" ("invalid delegation arguments: " ++ e))
  | .ok task =>
    if isBlank task then
      .failed (.terminal "invalid_arguments" "delegation task must not be blank")
    else if context.maxDelegationDepth ≤ context.delegationDepth then
      .failed (.terminal "delegation_depth_exceeded" "delegation depth limit reached")
    else
      let report := runChild tool.child task (callOptions context)
      { result := callResult tool.child cancelled report
        started := some { task, options := callOptions context, report } }

/-- The first attempt of `execute_tool_effect` at a delegation tool, with the child run that it
starts. A terminal error is not retried, so it is the only one. -/
def attempt (s : AgentRunState) (timing : AttemptTiming) (call : ToolEffectCall) :
    ToolAttempt × Option ChildRun :=
  if timing.cancelledBefore then (.interrupted, none)
  else
    let context : ToolContext :=
      { invocation := call.invocation
        attempt := 1
        remainingTime := (remainingTime s).map fun remaining => Nat.sub remaining timing.elapsed
        delegationDepth := s.plan.delegationDepth
        maxDelegationDepth := s.plan.maxDelegationDepth }
    let report := tool.call runChild context timing.cancelled call.arguments
    (if timing.interrupted then .interrupted else report.toAttempt, report.started)

/-- The child run that `execute` starts. -/
def started (arguments : Value) (execution : DelegationExecution) : Option ChildRun :=
  match ArgumentSchema.decodeTask arguments with
  | .error _ => none
  | .ok task =>
    if isBlank task then none
    else if execution.delegation.2 ≤ execution.delegation.1 then none
    else match execution.budget with
      | none => none
      | some budget =>
        if budget.modelCallLimit = 0 ∨ budget.tokenLimit = some 0 then none
        else some
          { task
            options := childOptions execution budget
            report := runChild tool.child task (childOptions execution budget) }

variable {tool runChild} {arguments : Value} {execution : DelegationExecution} {child : ChildRun}

theorem of_started (h : tool.started runChild arguments execution = some child) :
    ∃ task budget, execution.budget = some budget ∧
      child = { task
                options := childOptions execution budget
                report := runChild tool.child task (childOptions execution budget) } := by
  unfold started at h
  split at h
  · cases h
  · next task _ =>
    split at h
    · cases h
    · split at h
      · cases h
      · split at h
        · cases h
        · next budget hb =>
          split at h
          · cases h
          · exact ⟨task, budget, hb, (Option.some.inj h).symm⟩

theorem options_of_started (h : tool.started runChild arguments execution = some child) :
    ∃ budget, execution.budget = some budget ∧ child.options = childOptions execution budget := by
  obtain ⟨_, budget, hbudget, rfl⟩ := of_started h
  exact ⟨budget, hbudget, rfl⟩

theorem report_of_started (h : tool.started runChild arguments execution = some child) :
    child.report = runChild tool.child child.task child.options := by
  obtain ⟨_, _, _, rfl⟩ := of_started h
  rfl

theorem execute_of_started (h : tool.started runChild arguments execution = some child)
    (parentCancelled : Bool) :
    tool.execute runChild parentCancelled arguments execution =
      { outcome := (childOutcome tool.child parentCancelled child.report).map .ok
        children := child.report.tree } := by
  unfold started at h
  unfold execute
  cases hd : ArgumentSchema.decodeTask arguments with
  | error e => simp [hd] at h
  | ok task =>
    simp only [hd] at h ⊢
    by_cases hblank : isBlank task = true
    · simp [hblank] at h
    · rw [if_neg hblank] at h ⊢
      by_cases hdepth : execution.delegation.2 ≤ execution.delegation.1
      · simp [hdepth] at h
      · rw [if_neg hdepth] at h ⊢
        cases hb : execution.budget with
        | none => simp [hb] at h
        | some budget =>
          simp only [hb] at h ⊢
          by_cases hzero : budget.modelCallLimit = 0 ∨ budget.tokenLimit = some 0
          · simp [hzero] at h
          · rw [if_neg hzero] at h ⊢
            obtain rfl := Option.some.inj h
            rfl

theorem children_of_not_started (h : tool.started runChild arguments execution = none)
    (parentCancelled : Bool) :
    (tool.execute runChild parentCancelled arguments execution).children = .empty := by
  unfold started at h
  unfold execute
  cases hd : ArgumentSchema.decodeTask arguments with
  | error e => rfl
  | ok task =>
    simp only [hd] at h ⊢
    by_cases hblank : isBlank task = true
    · rw [if_pos hblank]
      rfl
    · rw [if_neg hblank] at h ⊢
      by_cases hdepth : execution.delegation.2 ≤ execution.delegation.1
      · rw [if_pos hdepth]
        rfl
      · rw [if_neg hdepth] at h ⊢
        cases hb : execution.budget with
        | none => rfl
        | some budget =>
          simp only [hb] at h ⊢
          by_cases hzero : budget.modelCallLimit = 0 ∨ budget.tokenLimit = some 0
          · rw [if_pos hzero]
            rfl
          · rw [if_neg hzero] at h
            cases h

theorem execute_usage (h : tool.started runChild arguments execution = some child)
    {parentCancelled : Bool} {o : AgentEffectOutcome}
    (ho : (tool.execute runChild parentCancelled arguments execution).outcome = some (.ok o)) :
    ∃ output, o = .tool output 1 (some child.usage) := by
  rw [execute_of_started h] at ho
  obtain ⟨answer, hanswer, heq⟩ := Option.map_eq_some_iff.mp ho
  obtain rfl := Except.ok.inj heq
  exact usage_of_childOutcome hanswer

end

end DelegationTool

end Agentive
