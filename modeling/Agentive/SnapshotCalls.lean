import Agentive.DelegationPolicy

/-! The calls that an effect executes for a restored state. They are built from its pending tools,
which the check of the state compares with its history by id and name only. -/

namespace Agentive

open AgentRunState

/-- The tool call stands for a call of the history. -/
structure ToolEffectCall.Executes (runId : String) (call : ToolEffectCall) (c : ToolCall) :
    Prop where
  id : call.invocation.invocationId = ⟨toolEffectId runId c.id⟩
  name : call.invocation.toolName = c.name
  arguments : call.arguments = c.arguments

/-- What an effect has to pass before any of it is executed. -/
structure EffectAdmitted [JsonText] (agent : Agent) (s : AgentRunState)
    (effect : AgentRunEffect) : Prop where
  history : validateEffectStateHistory s = .ok ()
  plan : agent.validateStatePlan s = .ok ()
  next : s.nextEffect = some effect

/-- The pending tool at a place has the arguments of the call that waits at this place. -/
def AgentRunState.SameArguments (s : AgentRunState) (queue : List ToolCall) (i : Nat) : Prop :=
  (s.pendingTools[i]?).map (·.arguments) = (queue[i]?).map (·.arguments)

section

variable [ArgumentSchema] (agent : Agent)
  (runChild : Nat → Agent → String → RunOptions → RunReport) (script : EffectScript)
  (s : AgentRunState)

/-- The tool calls that an effect executes, with their places: a batch does not go on to another
chunk once a call has failed, and the failing call keeps those from executing that are not polled
before it. -/
def executedCalls : AgentRunEffect → List (ToolEffectCall × Nat)
  | .providerCall _ _ _ _ => []
  | .toolCall _ invocation arguments policy delegationBudget =>
    [({ invocation, arguments, policy, delegationBudget }, 0)].filter fun p =>
      (script.member p.2).reached
  | .toolBatch _ calls =>
    startedChunks script.failing (fun p => executeOneTool agent runChild script s p.2 p.1)
      (Option.guard fun p => (script.member p.2).reached)
      (chunks (max s.plan.maxParallelToolCalls.val 1) calls.zipIdx)

variable {agent runChild script s}

theorem getElem?_of_executed {effect : AgentRunEffect} {p : ToolEffectCall × Nat}
    (h : p ∈ executedCalls agent runChild script s effect) : effect.calls[p.2]? = some p.1 := by
  cases effect with
  | providerCall id providerCallId round request => simp [executedCalls] at h
  | toolCall id invocation arguments policy delegationBudget =>
    simp only [executedCalls, List.mem_filter, List.mem_singleton] at h
    rw [h.1]
    rfl
  | toolBatch id calls =>
    have hmem := (startedChunks_sublist _).subset h
    rw [chunks, flatten_chunksFrom, List.nil_append] at hmem
    obtain ⟨q, hq, hguard⟩ := List.mem_filterMap.mp hmem
    obtain ⟨rfl, _⟩ : q = p ∧ _ := Option.guard_eq_some_iff.mp hguard
    exact List.mem_zipIdx_iff_getElem?.mp hq

end

theorem executeEffect_of_admitted [JsonText] [RequestText] [ArgumentSchema] {agent : Agent}
    {s : AgentRunState} {effect : AgentRunEffect}
    (runChild : Nat → Agent → String → RunOptions → RunReport) (script : EffectScript)
    (h : EffectAdmitted agent s effect) :
    executeEffect agent runChild script s effect =
      executeAdmitted agent runChild script s effect := by
  simp [executeEffect, h.history, h.plan, h.next]

/-- A call of the effect has the id and the name of the call that waits at its place, so what is
left to compare are the arguments. -/
theorem executes_iff {s : AgentRunState} {effect : AgentRunEffect} {queue : List ToolCall}
    {call : ToolEffectCall} {i : Nat}
    (hpending : s.pendingTools.map (fun c => (c.callId, c.name)) =
      queue.map (fun c => (c.id, c.name)))
    (hnext : s.nextEffect = some effect) (hcall : effect.calls[i]? = some call) :
    (∃ c, queue[i]? = some c ∧ call.Executes s.runId c) ↔ s.SameArguments queue i := by
  obtain ⟨pending, hi, rfl⟩ := pending_of_calls hnext hcall
  have hat : (queue.map fun c => (c.id, c.name))[i]? = some (pending.callId, pending.name) := by
    rw [← hpending, List.getElem?_map, hi]
    rfl
  rw [List.getElem?_map, Option.map_eq_some_iff] at hat
  obtain ⟨c, hc, hsame⟩ := hat
  obtain ⟨hid, hname⟩ := Prod.mk.inj hsame
  have hargs : s.SameArguments queue i ↔ pending.arguments = c.arguments := by
    simp [AgentRunState.SameArguments, hi, hc]
  rw [hargs]
  constructor
  · rintro ⟨c', hc', hexec⟩
    obtain rfl : c = c' := Option.some.inj (hc.symm.trans hc')
    exact hexec.arguments
  · intro h
    exact ⟨c, hc, by rw [hid]; rfl, hname.symm, h⟩

/-- For every state, restored or not, and every tool effect that passes the checks: the executed
calls are those of the history exactly when their pending tools have the arguments that the
history has. -/
theorem executed_from_history_iff [JsonText] [ArgumentSchema] (agent : Agent)
    (runChild : Nat → Agent → String → RunOptions → RunReport) (script : EffectScript)
    (s : AgentRunState) (effect : AgentRunEffect) (queue : List ToolCall)
    (h : EffectAdmitted agent s effect) (hqueue : scanHistory s.history = some queue) :
    (∀ p ∈ executedCalls agent runChild script s effect,
        ∃ c, queue[p.2]? = some c ∧ p.1.Executes s.runId c) ↔
      ∀ p ∈ executedCalls agent runChild script s effect, s.SameArguments queue p.2 := by
  obtain ⟨_, queue', hscan, hpending⟩ := validateEffectStateHistory_eq_ok_iff.mp h.history
  obtain rfl : queue = queue' := Option.some.inj (hqueue.symm.trans hscan)
  constructor
  · intro hall p hp
    exact (executes_iff hpending h.next (getElem?_of_executed hp)).mp (hall p hp)
  · intro hall p hp
    exact (executes_iff hpending h.next (getElem?_of_executed hp)).mpr (hall p hp)

namespace Sample

def calledHistory : List Message :=
  [.user "hi", .assistantToolCalls [(call "c" (.object [])).toToolCall]]

def snapshot (arguments : Value) : AgentRunState :=
  { AgentRunState.withPlan "run" calledHistory ⟨6⟩ (toolAgent.runPlan {}) with
    pendingTools := [call "c" arguments]
    status := .running }

def altered : Value := .object [("path", .string "/")]

def answeringTool : EffectScript :=
  { attempts := []
    member := fun _ => { reached := true, attempts := [.output .null], parentCancelled := false }
    failing := 0 }

def noChild (_ : Nat) (_ : Agent) (_ : String) (_ : RunOptions) : RunReport :=
  { runId := "child", result := none, status := .pending, usage := .new, events := [], steps := []
    tree := .empty }

theorem scan_calledHistory :
    scanHistory calledHistory = some [(call "c" (.object [])).toToolCall] := by
  decide

theorem snapshot_admitted (arguments : Value) :
    @EffectAdmitted jsonText toolAgent (snapshot arguments)
      ((snapshot arguments).toolEffect (call "c" arguments)) :=
  let _ := jsonText
  have hshapes : ∀ m ∈ calledHistory, WellShaped m := by decide
  { history := validateEffectStateHistory_eq_ok_iff.mpr ⟨hshapes, _, scan_calledHistory, rfl⟩
    plan := by
      simp [Agent.validateStatePlan, snapshot, AgentRunState.withPlan, Agent.runPlan,
        Agent.compiledInstructions]
    next := rfl }

theorem executed_snapshot (arguments : Value) :
    @executedCalls argumentSchema toolAgent noChild answeringTool (snapshot arguments)
      ((snapshot arguments).toolEffect (call "c" arguments)) =
      [((snapshot arguments).toolEffectCall (call "c" arguments), 0)] :=
  rfl

def batchAgent : Agent :=
  { agent false with
    tools := [.ordinary { name := lookup, maxAttempts := 1, parallelSafe := true }
      { name := lookup, description := "looks up", schema := .null, idempotent := false }] }

def batchHistory : List Message :=
  [.user "hi",
    .assistantToolCalls [(call "c" (.object [])).toToolCall, (call "d" altered).toToolCall]]

def batchSnapshot : AgentRunState :=
  { AgentRunState.withPlan "run" batchHistory ⟨6⟩ (batchAgent.runPlan {}) with
    pendingTools := [call "c" (.object []), call "d" altered]
    status := .running }

def batchEffect : AgentRunEffect := batchSnapshot.toolBatchEffect (call "c" (.object []))

theorem scan_batchHistory :
    scanHistory batchHistory =
      some [(call "c" (.object [])).toToolCall, (call "d" altered).toToolCall] := by
  decide

theorem batchSnapshot_admitted : @EffectAdmitted jsonText batchAgent batchSnapshot batchEffect :=
  let _ := jsonText
  have hshapes : ∀ m ∈ batchHistory, WellShaped m := by decide
  { history := validateEffectStateHistory_eq_ok_iff.mpr ⟨hshapes, _, scan_batchHistory, rfl⟩
    plan := Agent.validateStatePlan_withPlan batchAgent "run" batchHistory ⟨6⟩ {}
    next := rfl }

end Sample

theorem executed_from_history_sample :
    let _ := Sample.argumentSchema
    let executed := executedCalls Sample.batchAgent Sample.noChild Sample.answeringTool
      Sample.batchSnapshot Sample.batchEffect
    executed.map (·.2) = [0, 1] ∧
      ∀ p ∈ executed, ∃ c, [(Sample.call "c" (.object [])).toToolCall,
          (Sample.call "d" Sample.altered).toToolCall][p.2]? = some c ∧
        p.1.Executes Sample.batchSnapshot.runId c := by
  let _ := Sample.jsonText
  intro _ executed
  have hplaces : executed.map (·.2) = [0, 1] := rfl
  refine ⟨hplaces, (executed_from_history_iff Sample.batchAgent Sample.noChild Sample.answeringTool
    Sample.batchSnapshot Sample.batchEffect _ Sample.batchSnapshot_admitted
    Sample.scan_batchHistory).mpr fun p hp => ?_⟩
  have hplace : p.2 ∈ executed.map (·.2) := List.mem_map_of_mem hp
  rw [hplaces, List.mem_cons, List.mem_singleton] at hplace
  rcases hplace with hplace | hplace <;> rw [hplace] <;> rfl

/-- A snapshot with altered arguments passes all checks, and the altered call is executed. -/
theorem altered_arguments_executed :
    let _ := Sample.jsonText
    let _ := Sample.requestText
    let _ := Sample.argumentSchema
    let s := Sample.snapshot Sample.altered
    let effect := s.toolEffect (Sample.call "c" Sample.altered)
    EffectAdmitted Sample.toolAgent s effect ∧
      (executeEffect Sample.toolAgent Sample.noChild Sample.answeringTool s effect).outcome =
        some (.ok (.tool .null 1 none)) ∧
      scanHistory s.history = some [(Sample.call "c" (.object [])).toToolCall] ∧
      ¬ ∀ p ∈ executedCalls Sample.toolAgent Sample.noChild Sample.answeringTool s effect,
        ∃ c, [(Sample.call "c" (.object [])).toToolCall][p.2]? = some c ∧
          p.1.Executes s.runId c := by
  intro _ _ _ s effect
  have hadmitted := Sample.snapshot_admitted Sample.altered
  refine ⟨hadmitted, ?_, Sample.scan_calledHistory, fun hall => ?_⟩
  · rw [executeEffect_of_admitted _ _ hadmitted]
    rfl
  · rw [Sample.executed_snapshot] at hall
    obtain ⟨c, hc, hexec⟩ := hall _ (List.mem_singleton.mpr rfl)
    obtain rfl := Option.some.inj hc
    have hargs := hexec.arguments
    revert hargs
    decide

end Agentive
