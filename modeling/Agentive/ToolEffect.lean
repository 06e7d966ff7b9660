import Agentive.ProviderEffect
import Mathlib.Data.List.Forall2

/-! Tool effects: ordinary tools with their retries, delegations that start a child run, and
batches of both. The child runs are a parameter here; the driver supplies them. -/

namespace Agentive

/-- The JSON Schema libraries behind tool arguments: whether a schema accepts a value, and the
task that the arguments of a delegation decode to. -/
class ArgumentSchema where
  accepts : Value → Value → Bool
  decodeTask : Value → Except String String

def validateToolArguments [ArgumentSchema] (arguments schema : Value) : Bool :=
  ArgumentSchema.accepts ((schema.get "schema").getD schema) arguments

/-- One attempt of an ordinary tool. An interruption is a cancellation of the run or the end of
its time, before the attempt or during it. -/
inductive ToolAttempt
  | pending
  | interrupted
  | panicked
  | output (output : Value)
  | error (error : ToolError) (retryInterrupted : Bool)

def panickedToolOutcome (attempts : U8) : AgentEffectOutcome :=
  .tool (.ofError "tool_panicked" "tool execution failed") attempts none

def notFound : AgentEffectOutcome := .tool (.ofError "tool_not_found" "tool not found") 0 none

def invalidArguments : AgentEffectOutcome :=
  .tool (.ofError "invalid_arguments" "tool arguments do not match the declared schema") 0 none

/-- The retry loop of an ordinary tool. -/
def executeToolEffect (policy : ToolRuntimePolicy) :
    List ToolAttempt → U8 → Option (Except RunError AgentEffectOutcome)
  | [], _ | .pending :: _, _ => none
  | .interrupted :: _, _ => some (.error .cancelled)
  | .panicked :: _, attempt => some (.ok (panickedToolOutcome attempt))
  | .output output :: _, attempt => some (.ok (.tool output attempt none))
  | .error e retryInterrupted :: rest, attempt =>
    if e.retryable && policy.idempotent && decide (attempt < policy.maxAttempts) then
      if retryInterrupted then some (.error .cancelled)
      else executeToolEffect policy rest (attempt.saturatingAdd 1)
    else some (.ok (.tool (.ofError e.code e.message) attempt none))

/-- What the task of a run does where others see it: it sets the status that the handle shows,
and it emits an event, for which it may have to wait. -/
inductive RunStep
  | set (status : RunStatus)
  | emit (event : RunEvent)

/-- A run as its handle shows it, with what it and the runs below it have done. -/
structure RunReport where
  runId : String
  result : Option (Except RunError RunResult)
  status : RunStatus
  usage : RunUsage
  events : List RunEvent
  steps : List RunStep
  tree : TreeLog

def RunStatus.toText : RunStatus → String
  | .pending => "Pending"
  | .running => "Running"
  | .completed => "Completed"
  | .incomplete => "Incomplete"
  | .failed => "Failed"
  | .cancelled => "Cancelled"

def Value.ofOption {α : Type} (toValue : α → Value) : Option α → Value
  | none => .null
  | some a => toValue a

def Value.ofU64 (n : U64) : Value := .number (.posInt (UInt64.ofNat n.val))

def TokenUsage.toValue (u : TokenUsage) : Value :=
  .object
    [("cached_input", .ofOption .ofU64 u.cachedInput), ("input", .ofOption .ofU64 u.input),
      ("output", .ofOption .ofU64 u.output), ("provider_total", .ofOption .ofU64 u.providerTotal),
      ("reasoning", .ofOption .ofU64 u.reasoning)]

def ModelCallUsage.toValue (u : ModelCallUsage) : Value :=
  .object [("model", .string u.model), ("usage", u.usage.toValue)]

def RunUsage.toValue (u : RunUsage) : Value :=
  .object
    [("aggregate", u.aggregate.toValue), ("complete", .bool u.complete),
      ("model_calls", .array (u.modelCalls.map (·.toValue)))]

/-- `DelegationResult` as JSON. -/
def delegationResult (child : Agent) (runId : String) (result : RunResult) : Value :=
  .object
    [("agent", .string child.name), ("run_id", .string runId),
      ("status", .string result.status.toText), ("text", .ofOption .string result.text),
      ("usage", result.usage.toValue)]

structure DelegationExecution where
  remaining : Option Duration
  delegation : U8 × U8
  maxParallelToolCalls : U64
  budget : Option DelegationBudget

/-- The outcome of one tool call, and the runs below the delegation that it was. -/
structure MemberReport where
  outcome : Option (Except RunError AgentEffectOutcome)
  children : TreeLog

namespace MemberReport

def pending : MemberReport := ⟨none, .empty⟩

def ended (result : Except RunError AgentEffectOutcome) : MemberReport := ⟨some result, .empty⟩

end MemberReport

namespace DelegationTool

def safeError (code message : String) (childUsage : Option RunUsage) : AgentEffectOutcome :=
  .tool (.ofError code message) 1 childUsage

def childOptions (execution : DelegationExecution) (budget : DelegationBudget) : RunOptions :=
  { deadline := execution.remaining
    modelCallLimit := budget.modelCallLimit.cast
    tokenLimit := budget.tokenLimit
    maxParallelToolCalls := execution.maxParallelToolCalls
    maxDelegationDepth := execution.delegation.2
    delegationDepth := execution.delegation.1.saturatingAdd 1 }

/-- What the parent is told about a child run. When the parent is cancelled first, the child is
cancelled and its end awaited. -/
def childOutcome (child : Agent) (parentCancelled : Bool) (report : RunReport) :
    Option AgentEffectOutcome :=
  match report.result with
  | none => none
  | some result =>
    let usage := match result with
      | .ok result => result.usage
      | .error _ => report.usage
    if parentCancelled then
      some (safeError "delegation_cancelled" "delegation was cancelled" (some usage))
    else match result with
      | .ok result =>
        if result.status = .completed ∨ result.status = .incomplete then
          some (.tool (delegationResult child report.runId result) 1 (some result.usage))
        else some (safeError "delegation_failed" "delegated agent failed" (some usage))
      | .error _ => some (safeError "delegation_failed" "delegated agent failed" (some usage))

variable [ArgumentSchema] (tool : DelegationTool Agent)
  (runChild : Agent → String → RunOptions → RunReport)

def execute (parentCancelled : Bool) (arguments : Value) (execution : DelegationExecution) :
    MemberReport :=
  match ArgumentSchema.decodeTask arguments with
  | .error e => .ended (.error (.providerProtocol e))
  | .ok task =>
    if isBlank task then
      .ended (.ok (safeError "invalid_arguments" "delegation task must not be blank" none))
    else if execution.delegation.2 ≤ execution.delegation.1 then
      .ended (.ok (safeError "delegation_depth_exceeded" "delegation depth limit reached" none))
    else match execution.budget with
      | none =>
        .ended (.ok
          (safeError "delegation_budget_exceeded" "delegation budget is unavailable" none))
      | some budget =>
        if budget.modelCallLimit = 0 ∨ budget.tokenLimit = some 0 then
          .ended (.ok
            (safeError "delegation_budget_exceeded" "delegation budget is exhausted" none))
        else
          let report := runChild tool.child task (childOptions execution budget)
          { outcome := (childOutcome tool.child parentCancelled report).map .ok
            children := report.tree }

end DelegationTool

/-- What happens to one tool call: whether it is polled at all before its batch fails, its
attempts as an ordinary tool, and whether as a delegation it sees its run cancelled. -/
structure MemberScript where
  reached : Bool
  attempts : List ToolAttempt
  parentCancelled : Bool

/-- What happens to one effect: the attempts of a provider call, the calls of a tool effect by
their places, and which failing call of a batch fails first. -/
structure EffectScript where
  attempts : List AttemptScript
  member : Nat → MemberScript
  failing : Nat

/-- The rest of a list in chunks of `n`, after the elements `chunk` of the current one. -/
def chunksFrom {α : Type} (n : Nat) (chunk : List α) : List α → List (List α)
  | [] => if chunk.isEmpty then [] else [chunk]
  | a :: as =>
    if n ≤ chunk.length + 1 then (chunk ++ [a]) :: chunksFrom n [] as
    else chunksFrom n (chunk ++ [a]) as

/-- `slice::chunks`. -/
def chunks {α : Type} (n : Nat) (as : List α) : List (List α) := chunksFrom n [] as

theorem flatten_chunksFrom {α : Type} (n : Nat) (chunk as : List α) :
    (chunksFrom n chunk as).flatten = chunk ++ as := by
  induction as generalizing chunk with
  | nil => cases chunk <;> simp [chunksFrom]
  | cons a as ih =>
    unfold chunksFrom
    split <;> simp [ih]

theorem length_le_of_mem_chunksFrom {α : Type} {n : Nat} {as chunk c : List α}
    (hchunk : chunk.length < n) (h : c ∈ chunksFrom n chunk as) : c.length ≤ n := by
  induction as generalizing chunk with
  | nil =>
    unfold chunksFrom at h
    split at h
    · cases h
    · obtain rfl := List.mem_singleton.mp h
      omega
  | cons a as ih =>
    unfold chunksFrom at h
    split at h
    · rcases List.mem_cons.mp h with rfl | h
      · rw [List.length_append, List.length_singleton]
        omega
      · exact ih (by simp only [List.length_nil]; omega) h
    · refine ih ?_ h
      rw [List.length_append, List.length_singleton]
      omega

/-- The error of a call that has failed. -/
def callError : Option (Except RunError AgentEffectOutcome) → Option RunError
  | some (.error e) => some e
  | _ => none

/-- The outcome of a call that has answered. -/
def callAnswer : Option (Except RunError AgentEffectOutcome) → Option AgentEffectOutcome
  | some (.ok o) => some o
  | _ => none

/-- `try_join_all`: the error of the call that fails first, or all outcomes. -/
def tryJoinAll (failing : Nat) (members : List MemberReport) :
    Option (Except RunError (List AgentEffectOutcome)) :=
  let outcomes := members.map (·.outcome)
  match (callError (outcomes.getD failing none)).or (outcomes.findSome? callError) with
  | some e => some (.error e)
  | none => (outcomes.mapM callAnswer).map .ok

def toolOutputs : List AgentEffectOutcome → Except RunError (List ToolEffectResult)
  | [] => .ok []
  | .tool output attempts childUsage :: rest =>
    (toolOutputs rest).map fun outputs => { output, attempts, childUsage } :: outputs
  | _ :: _ => .error (.providerProtocol "tool batch member returned a non-tool outcome")

/-- The loop over the chunks of a batch; `outputs` are those of the earlier chunks. -/
def executeChunks {α : Type} (failing : Nat) (call : α → MemberReport) :
    List (List α) → List ToolEffectResult → MemberReport
  | [], outputs => .ended (.ok (.toolBatch outputs))
  | chunk :: rest, outputs =>
    let members := chunk.map call
    let children := TreeLog.concat (members.map (·.children))
    match tryJoinAll failing members with
    | none => { outcome := none, children }
    | some (.error e) => { outcome := some (.error e), children }
    | some (.ok outcomes) =>
      match toolOutputs outcomes with
      | .error e => { outcome := some (.error e), children }
      | .ok new =>
        let report := executeChunks failing call rest (outputs ++ new)
        { report with children := children.append report.children }

def remainingTime (s : AgentRunState) : Option Duration :=
  s.plan.deadlineMs.map fun deadline => .fromMillis (deadline.saturatingSub s.elapsedMs)

/-- The budget and the place in the tree that a delegation of the state `s` works with. -/
def delegationExecution (s : AgentRunState) (budget : Option DelegationBudget) :
    DelegationExecution :=
  { remaining := remainingTime s
    delegation := (s.plan.delegationDepth, s.plan.maxDelegationDepth)
    maxParallelToolCalls := s.plan.maxParallelToolCalls
    budget }

section

variable [JsonText] [RequestText] [ArgumentSchema] (agent : Agent)
  (runChild : Nat → Agent → String → RunOptions → RunReport) (script : EffectScript)
  (s : AgentRunState)

/-- `execute_one_tool` for the call at place `i` of an effect of the state `s`. -/
def executeOneTool (i : Nat) (call : ToolEffectCall) : MemberReport :=
  if !(script.member i).reached then .pending
  else match call.policy with
    | none => .ended (.ok notFound)
    | some policy =>
      match agent.tools.find? (fun tool => tool.tool.name = call.invocation.toolName) with
      | none => .ended (.ok notFound)
      | some tool =>
        if !validateToolArguments call.arguments policy.descriptor.schema then
          .ended (.ok invalidArguments)
        else match tool.asDelegation with
          | some childTool =>
            childTool.execute (runChild i) (script.member i).parentCancelled call.arguments
              (delegationExecution s call.delegationBudget)
          | none =>
            { outcome := executeToolEffect policy (script.member i).attempts 1
              children := .empty }

def executeToolBatch (calls : List ToolEffectCall) : MemberReport :=
  executeChunks script.failing
    (fun p => executeOneTool agent runChild script s p.2 p.1)
    (chunks (max s.plan.maxParallelToolCalls.val 1) calls.zipIdx) []

def MemberReport.toEffectReport (report : MemberReport) : EffectReport :=
  { outcome := report.outcome, calls := [], events := [], children := report.children }

/-- What the execution of an effect does once the effect has been admitted. -/
def executeAdmitted : AgentRunEffect → EffectReport
  | .providerCall _ providerCallId round request =>
    executeProvider agent s request providerCallId round script.attempts
  | .toolCall _ invocation arguments policy delegationBudget =>
    (executeOneTool agent runChild script s 0
      { invocation, arguments, policy, delegationBudget }).toEffectReport
  | .toolBatch _ calls => (executeToolBatch agent runChild script s calls).toEffectReport

/-- `execute_effect`. -/
def executeEffect (effect : AgentRunEffect) : EffectReport :=
  match validateEffectStateHistory s with
  | .error e => .ended (.error e)
  | .ok () =>
    match agent.validateStatePlan s with
    | .error e => .ended (.error e)
    | .ok () =>
      if s.nextEffect ≠ some effect then
        .ended (.error (.providerProtocol "effect does not match the state's next effect"))
      else executeAdmitted agent runChild script s effect

end

section

variable {α : Type} {failing : Nat} {call : α → MemberReport}

variable (failing call) in
/-- A batch spends no more than its calls do together, each of them executed once. -/
theorem executeChunks_weight (μ : TransportCall → Nat) (chunks : List (List α))
    (outputs : List ToolEffectResult) :
    (executeChunks failing call chunks outputs).children.weight μ ≤
      (chunks.flatten.map fun a => (call a).children.weight μ).sum := by
  induction chunks generalizing outputs with
  | nil => simp [executeChunks, MemberReport.ended]
  | cons chunk rest ih =>
    have hchunk : (TreeLog.concat ((chunk.map call).map (·.children))).weight μ =
        (chunk.map fun a => (call a).children.weight μ).sum := by
      simp [List.map_map, Function.comp_def]
    have hstop : (chunk.map fun a => (call a).children.weight μ).sum ≤
        ((chunk :: rest).flatten.map fun a => (call a).children.weight μ).sum := by simp
    simp only [executeChunks]
    split
    · simpa only [hchunk] using hstop
    · simpa only [hchunk] using hstop
    · split
      · simpa only [hchunk] using hstop
      · next outcomes _ new _ =>
        have hrest := ih (outputs ++ new)
        simp only [TreeLog.weight_append, hchunk, List.flatten_cons, List.map_append,
          List.sum_append]
        omega

theorem executeChunks_depths {chunks : List (List α)} {outputs : List ToolEffectResult} {d : U8}
    (h : d ∈ (executeChunks failing call chunks outputs).children.depths) :
    ∃ a ∈ chunks.flatten, d ∈ (call a).children.depths := by
  induction chunks generalizing outputs with
  | nil => simp [executeChunks, MemberReport.ended, TreeLog.empty] at h
  | cons chunk rest ih =>
    have hchunk (hd : d ∈ (TreeLog.concat ((chunk.map call).map (·.children))).depths) :
        ∃ a ∈ (chunk :: rest).flatten, d ∈ (call a).children.depths := by
      obtain ⟨log, hlog, hd⟩ := TreeLog.mem_depths_concat.mp hd
      simp only [List.map_map, List.mem_map, Function.comp_apply] at hlog
      obtain ⟨a, ha, rfl⟩ := hlog
      exact ⟨a, by simp [ha], hd⟩
    simp only [executeChunks] at h
    split at h
    · exact hchunk h
    · exact hchunk h
    · split at h
      · exact hchunk h
      · rcases List.mem_append.mp h with h | h
        · exact hchunk h
        · obtain ⟨a, ha, hd⟩ := ih h
          exact ⟨a, by simp only [List.flatten_cons, List.mem_append, ha, or_true], hd⟩

theorem forall₂_of_mapM_eq_some {β γ : Type} {f : β → Option γ} {bs : List β} {cs : List γ}
    (h : bs.mapM f = some cs) : List.Forall₂ (fun b c => f b = some c) bs cs := by
  induction bs generalizing cs with
  | nil =>
    obtain rfl : [] = cs := by simpa using h
    exact .nil
  | cons b bs ih =>
    simp only [List.mapM_cons, Option.bind_eq_bind, Option.bind_eq_some_iff, Option.pure_def,
      Option.some.injEq] at h
    obtain ⟨c, hc, rest, hrest, rfl⟩ := h
    exact .cons hc (ih hrest)

theorem callAnswer_eq_some {outcome : Option (Except RunError AgentEffectOutcome)}
    {o : AgentEffectOutcome} (h : callAnswer outcome = some o) : outcome = some (.ok o) := by
  rcases outcome with _ | (_ | answer)
  · cases h
  · cases h
  · rw [Option.some.inj h]

theorem forall₂_of_tryJoinAll {members : List MemberReport} {outcomes : List AgentEffectOutcome}
    (h : tryJoinAll failing members = some (.ok outcomes)) :
    List.Forall₂ (fun m o => m.outcome = some (.ok o)) members outcomes := by
  simp only [tryJoinAll] at h
  split at h
  · simp at h
  · cases hm : (members.map (·.outcome)).mapM callAnswer with
    | none => simp [hm] at h
    | some answers =>
      obtain rfl : answers = outcomes := by simpa [hm] using h
      have hall := forall₂_of_mapM_eq_some hm
      rw [List.forall₂_map_left_iff] at hall
      exact hall.imp fun _ _ => callAnswer_eq_some

/-- The outcome of a call whose result stands in a batch. -/
def ToolEffectResult.toOutcome (result : ToolEffectResult) : AgentEffectOutcome :=
  .tool result.output result.attempts result.childUsage

theorem eq_map_of_toolOutputs {outcomes : List AgentEffectOutcome}
    {outputs : List ToolEffectResult} (h : toolOutputs outcomes = .ok outputs) :
    outcomes = outputs.map (·.toOutcome) := by
  induction outcomes generalizing outputs with
  | nil =>
    obtain rfl := Except.ok.inj h
    rfl
  | cons o rest ih =>
    cases o with
    | tool output attempts usage =>
      cases hrest : toolOutputs rest with
      | error e => simp [toolOutputs, hrest, Except.map] at h
      | ok more =>
        simp only [toolOutputs, hrest, Except.map, Except.ok.injEq] at h
        rw [← h, List.map_cons, ← ih hrest]
        rfl
    | _ => simp [toolOutputs] at h

theorem executeChunks_outputs {chunks : List (List α)} {outputs : List ToolEffectResult}
    {o : AgentEffectOutcome}
    (h : (executeChunks failing call chunks outputs).outcome = some (.ok o)) :
    ∃ new, o = .toolBatch (outputs ++ new) ∧
      List.Forall₂ (fun a r => (call a).outcome = some (.ok r.toOutcome)) chunks.flatten new := by
  induction chunks generalizing outputs with
  | nil =>
    simp only [executeChunks, MemberReport.ended, Option.some.injEq, Except.ok.injEq] at h
    exact ⟨[], by simp [h], .nil⟩
  | cons chunk rest ih =>
    simp only [executeChunks] at h
    split at h
    · simp at h
    · simp at h
    · next outcomes hjoin =>
      split at h
      · simp at h
      · next new hnew =>
        obtain ⟨more, ho, hmore⟩ := ih h
        have hmembers := forall₂_of_tryJoinAll hjoin
        rw [eq_map_of_toolOutputs hnew, List.forall₂_map_left_iff, List.forall₂_map_right_iff]
          at hmembers
        refine ⟨new ++ more, by rw [ho, List.append_assoc], ?_⟩
        rw [List.flatten_cons]
        exact List.rel_append hmembers hmore

theorem executeChunks_outcome {chunks : List (List α)} {outputs : List ToolEffectResult}
    {o : AgentEffectOutcome}
    (h : (executeChunks failing call chunks outputs).outcome = some (.ok o)) :
    ∃ all : List ToolEffectResult, o = .toolBatch all ∧
      all.length = outputs.length + chunks.flatten.length := by
  obtain ⟨new, ho, hnew⟩ := executeChunks_outputs h
  exact ⟨outputs ++ new, ho, by rw [List.length_append, hnew.length_eq]⟩

theorem executeToolEffect_outcome {policy : ToolRuntimePolicy} {tries : List ToolAttempt}
    {attempt : U8} {o : AgentEffectOutcome}
    (h : executeToolEffect policy tries attempt = some (.ok o)) :
    ∃ output attempts, o = .tool output attempts none := by
  induction tries generalizing attempt with
  | nil => simp [executeToolEffect] at h
  | cons first rest ih =>
    cases first with
    | pending => simp [executeToolEffect] at h
    | interrupted => simp [executeToolEffect] at h
    | panicked =>
      simp only [executeToolEffect, Option.some.injEq, Except.ok.injEq] at h
      exact ⟨_, _, h.symm⟩
    | output output =>
      simp only [executeToolEffect, Option.some.injEq, Except.ok.injEq] at h
      exact ⟨_, _, h.symm⟩
    | error e retryInterrupted =>
      simp only [executeToolEffect] at h
      split at h
      · split at h
        · simp at h
        · exact ih h
      · simp only [Option.some.injEq, Except.ok.injEq] at h
        exact ⟨_, _, h.symm⟩

end

theorem DelegationTool.childOutcome_eq_some {child : Agent} {parentCancelled : Bool}
    {report : RunReport} {o : AgentEffectOutcome}
    (h : childOutcome child parentCancelled report = some o) :
    ∃ output usage, o = .tool output 1 usage := by
  simp only [childOutcome] at h
  cases hr : report.result with
  | none => simp [hr] at h
  | some result =>
    simp only [hr] at h
    cases parentCancelled with
    | true => exact ⟨_, _, (Option.some.inj h).symm⟩
    | false =>
      cases result with
      | error e => exact ⟨_, _, (Option.some.inj h).symm⟩
      | ok result =>
        simp only [Bool.false_eq_true, if_false] at h
        split at h <;> exact ⟨_, _, (Option.some.inj h).symm⟩

section

variable [ArgumentSchema]

/-- A delegation starts one child run, within its budget and one level below its own run, or
none. -/
theorem DelegationTool.execute_children (tool : DelegationTool Agent)
    (runChild : Agent → String → RunOptions → RunReport) (parentCancelled : Bool)
    (arguments : Value) (execution : DelegationExecution) :
    (tool.execute runChild parentCancelled arguments execution).children = .empty ∨
      ∃ task budget, execution.budget = some budget ∧ budget.modelCallLimit ≠ 0 ∧
        execution.delegation.1 < execution.delegation.2 ∧
        (tool.execute runChild parentCancelled arguments execution).children =
          (runChild tool.child task (childOptions execution budget)).tree := by
  unfold execute
  split
  · exact .inl rfl
  · next task _ =>
    split
    · exact .inl rfl
    · split
      · exact .inl rfl
      · next hdepth =>
        split
        · exact .inl rfl
        · next budget hb =>
          split
          · exact .inl rfl
          · next hzero =>
            exact .inr ⟨task, budget, hb, (not_or.mp hzero).1, Nat.not_le.mp hdepth, rfl⟩

variable (agent : Agent) (runChild : Nat → Agent → String → RunOptions → RunReport)
  (script : EffectScript) (s : AgentRunState)

theorem executeOneTool_children (i : Nat) (call : ToolEffectCall) :
    (executeOneTool agent runChild script s i call).children = .empty ∨
      ∃ child task budget, call.delegationBudget = some budget ∧ budget.modelCallLimit ≠ 0 ∧
        s.plan.delegationDepth < s.plan.maxDelegationDepth ∧
        (executeOneTool agent runChild script s i call).children =
          (runChild i child task
            (DelegationTool.childOptions (delegationExecution s call.delegationBudget)
              budget)).tree := by
  unfold executeOneTool
  split
  · exact .inl rfl
  · split
    · exact .inl rfl
    · split
      · exact .inl rfl
      · split
        · exact .inl rfl
        · split
          · next childTool _ =>
            rcases childTool.execute_children (runChild i) (script.member i).parentCancelled
              call.arguments (delegationExecution s call.delegationBudget) with
              h | ⟨task, budget, hb, hzero, hdepth, hlog⟩
            · exact .inl h
            · exact .inr ⟨childTool.child, task, budget, hb, hzero, hdepth, hlog⟩
          · exact .inl rfl

theorem DelegationTool.execute_outcome {tool : DelegationTool Agent}
    {runChild : Agent → String → RunOptions → RunReport} {parentCancelled : Bool}
    {arguments : Value} {execution : DelegationExecution} {o : AgentEffectOutcome}
    (h : (tool.execute runChild parentCancelled arguments execution).outcome = some (.ok o)) :
    ∃ output usage, o = .tool output 1 usage := by
  have ended {o' : AgentEffectOutcome} (ho : ∃ output usage, o' = .tool output 1 usage)
      (h : (MemberReport.ended (.ok o')).outcome = some (.ok o)) :
      ∃ output usage, o = .tool output 1 usage := by
    simp only [MemberReport.ended, Option.some.injEq, Except.ok.injEq] at h
    exact h ▸ ho
  unfold execute at h
  split at h
  · simp [MemberReport.ended] at h
  · split at h
    · exact ended ⟨_, _, rfl⟩ h
    · split at h
      · exact ended ⟨_, _, rfl⟩ h
      · split at h
        · exact ended ⟨_, _, rfl⟩ h
        · split at h
          · exact ended ⟨_, _, rfl⟩ h
          · simp only [Option.map_eq_some_iff, Except.ok.injEq, exists_eq_right] at h
            exact childOutcome_eq_some h

variable {agent runChild script s} in
theorem executeOneTool_outcome {i : Nat} {call : ToolEffectCall} {o : AgentEffectOutcome}
    (h : (executeOneTool agent runChild script s i call).outcome = some (.ok o)) :
    ∃ output attempts usage, o = .tool output attempts usage := by
  unfold executeOneTool at h
  split at h
  · simp [MemberReport.pending] at h
  · split at h
    · simp only [MemberReport.ended, Option.some.injEq, Except.ok.injEq] at h
      exact ⟨_, _, _, h.symm⟩
    · split at h
      · simp only [MemberReport.ended, Option.some.injEq, Except.ok.injEq] at h
        exact ⟨_, _, _, h.symm⟩
      · split at h
        · simp only [MemberReport.ended, Option.some.injEq, Except.ok.injEq] at h
          exact ⟨_, _, _, h.symm⟩
        · split at h
          · obtain ⟨output, usage, ho⟩ := DelegationTool.execute_outcome h
            exact ⟨output, 1, usage, ho⟩
          · obtain ⟨output, attempts, ho⟩ := executeToolEffect_outcome h
            exact ⟨output, attempts, none, ho⟩

variable [JsonText] [RequestText]

/-- An effect is refused, or executed under the checks of `execute_effect`. -/
theorem executeEffect_cases (effect : AgentRunEffect) :
    (∃ e, executeEffect agent runChild script s effect = .ended (.error e)) ∨
      (validateEffectStateHistory s = .ok () ∧ agent.validateStatePlan s = .ok () ∧
        s.nextEffect = some effect ∧
        executeEffect agent runChild script s effect =
          executeAdmitted agent runChild script s effect) := by
  unfold executeEffect
  split
  · exact .inl ⟨_, rfl⟩
  · next hv =>
    split
    · exact .inl ⟨_, rfl⟩
    · next hp =>
      split
      · exact .inl ⟨_, rfl⟩
      · next hn => exact .inr ⟨hv, hp, not_not.mp hn, rfl⟩

end

end Agentive
