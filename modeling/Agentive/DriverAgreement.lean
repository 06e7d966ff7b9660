import Agentive.ContinueAsNew
import Agentive.RunHeads

/-! The local driver against the Temporal driver: both loops over the same state machine, which
differ in the checks around it and in the time that they record. -/

namespace Agentive

open AgentRunState DriverLoop

namespace AgentRunState

/-- The same state after another time. -/
def atTime (s : AgentRunState) (elapsedMs : U64) : AgentRunState := { s with elapsedMs }

variable {s s' t : AgentRunState}

theorem finishIfExhausted_atTime (hd : s.plan.deadlineMs = none) (elapsedMs : U64) :
    (s.atTime elapsedMs).finishIfExhausted =
      (s.finishIfExhausted.1.atTime elapsedMs, s.finishIfExhausted.2) := by
  have hs : s.deadlineReached = false := by simp [deadlineReached, hd]
  have ht : (s.atTime elapsedMs).deadlineReached = false := by simp [deadlineReached, atTime, hd]
  have hb : (s.atTime elapsedMs).noProviderBudget = s.noProviderBudget := rfl
  unfold finishIfExhausted
  rw [hs, ht, hb]
  cases s.noProviderBudget with
  | false => simp [atTime]
  | true =>
    by_cases hidle : (s.status.isActive && s.pendingTools.isEmpty) = true
    · simp [atTime, hidle, markIncomplete]
    · simp [atTime, hidle]

theorem finishIfExhausted_of_ended (h : s.status.isActive = false) :
    s.finishIfExhausted = (s, false) := by
  simp [finishIfExhausted, h]

theorem finishIfExhausted_idem (s : AgentRunState) :
    s.finishIfExhausted.1.finishIfExhausted = (s.finishIfExhausted.1, false) := by
  cases hx : s.finishIfExhausted.2 with
  | false =>
    have hself := finishIfExhausted_eq_self hx
    rw [hself, hself]
  | true =>
    have hended : s.finishIfExhausted.1.status.isActive = false := by
      rcases (finishIfExhausted_eq_true (t := s.finishIfExhausted.1) (by rw [← hx])).2 with
        ⟨_, _, hs⟩ | ⟨_, _, hs⟩ <;> simp [hs, RunStatus.isActive]
    exact finishIfExhausted_of_ended hended

theorem fail_atTime (message : String) (elapsedMs : U64) :
    (s.atTime elapsedMs).fail message = (s.fail message).atTime elapsedMs := by
  cases ha : s.status.isActive <;> simp [AgentRunState.fail, atTime, ha]

theorem recordProviderEffect_atTime [RequestText] (attempts : List ProviderAttempt)
    (usage : Option ModelTokenUsage) (elapsedMs : U64) :
    (s.atTime elapsedMs).recordProviderEffect attempts usage =
      (s.recordProviderEffect attempts usage).atTime elapsedMs := by
  unfold recordProviderEffect recordProviderAttempts
  split <;> rfl

theorem resolveItem_atTime [JsonText]
    (item : ModelToolCall × ToolEffectResult × Option DelegationBudget) (elapsedMs : U64) :
    (s.atTime elapsedMs).resolveItem item = (s.resolveItem item).atTime elapsedMs := by
  obtain ⟨call, result, reservation⟩ := item
  cases hu : result.childUsage <;> cases reservation <;>
    simp [resolveItem, resolveCall, hu, mergeChildUsage, reserveChild, atTime]

section

variable [JsonText] [RequestText] {e : AgentRunEffect} {o : AgentEffectOutcome}

theorem Committed.atTime (hc : Committed s e o s') (elapsedMs : U64) :
    Committed (s.atTime elapsedMs) e o (s'.atTime elapsedMs) := by
  cases hc with
  | response response attempts ht =>
    have hrecord := recordProviderEffect_atTime (s := { s with status := .running }) attempts
      response.usage elapsedMs
    have hstate : (s.atTime elapsedMs).acceptResponse response attempts =
        (s.acceptResponse response attempts).atTime elapsedMs := by
      unfold acceptResponse
      show applyResponse (recordProviderEffect (AgentRunState.atTime { s with status := .running }
        elapsedMs) attempts response.usage) response = _
      rw [hrecord]
      unfold applyResponse
      split
      · rfl
      · split <;> rfl
    rw [← hstate]
    exact .response response attempts ⟨ht.active, ht.idle, ht.budget⟩
  | failure error attempts ht =>
    have hstate : ((s.atTime elapsedMs).recordProviderEffect attempts error.usage).fail
        error.message =
        ((s.recordProviderEffect attempts error.usage).fail error.message).atTime elapsedMs := by
      rw [recordProviderEffect_atTime, fail_atTime]
    rw [← hstate]
    exact .failure error attempts ⟨ht.active, ht.idle, ht.budget⟩
  | exhausted required ht => exact .exhausted required ⟨ht.active, ht.idle, ht.budget⟩
  | tool call rest output attempts usage ht =>
    have hstate := resolveItem_atTime (s := s)
      (call, { output, attempts, childUsage := usage }, s.delegationBudgetFor call) elapsedMs
    have hstate : (s.resolveCall call output usage (s.delegationBudgetFor call)).atTime elapsedMs =
        (s.atTime elapsedMs).resolveCall call output usage (s.delegationBudgetFor call) :=
      hstate.symm
    rw [hstate]
    exact .tool call rest output attempts usage ⟨ht.active, ht.pending, ht.single⟩
  | batch call rest outputs ht hlen =>
    have hfold (items : List (ModelToolCall × ToolEffectResult × Option DelegationBudget))
        (t : AgentRunState) : items.foldl resolveItem (t.atTime elapsedMs) =
          (items.foldl resolveItem t).atTime elapsedMs := by
      induction items generalizing t with
      | nil => rfl
      | cons item items ih => rw [List.foldl_cons, List.foldl_cons, resolveItem_atTime, ih]
    rw [← hfold]
    exact .batch call rest outputs ⟨ht.active, ht.pending, ht.batch⟩ hlen

end

end AgentRunState

section

variable [JsonText] [RequestText] [ArgumentSchema] (agent : Agent)
  (runChild : Nat → Agent → String → RunOptions → RunReport) (script : EffectScript)

theorem executeEffect_atTime {s : AgentRunState} (hd : s.plan.deadlineMs = none) (elapsedMs : U64)
    (e : AgentRunEffect) :
    executeEffect agent runChild script (s.atTime elapsedMs) e =
      executeEffect agent runChild script s e := by
  have hremaining : remainingTime (s.atTime elapsedMs) = remainingTime s := by
    simp [remainingTime, atTime, hd]
  have hdelegation (budget : Option DelegationBudget) :
      delegationExecution (s.atTime elapsedMs) budget = delegationExecution s budget := by
    simp only [delegationExecution, hremaining]
    rfl
  have htool (i : Nat) (call : ToolEffectCall) :
      executeOneTool agent runChild script (s.atTime elapsedMs) i call =
        executeOneTool agent runChild script s i call := by
    simp only [executeOneTool, hdelegation]
  have hadmitted : executeAdmitted agent runChild script (s.atTime elapsedMs) e =
      executeAdmitted agent runChild script s e := by
    cases e with
    | providerCall => rfl
    | toolCall => simp only [executeAdmitted, htool]
    | toolBatch =>
      simp only [executeAdmitted, executeToolBatch, htool]
      rfl
  unfold executeEffect
  rw [hadmitted]
  rfl

end

/-- The values that a tool effect answers with. -/
def AgentEffectOutcome.outputs : AgentEffectOutcome → List Value
  | .tool output _ _ => [output]
  | .toolBatch outputs => outputs.map (·.output)
  | _ => []

section

variable [JsonText]

theorem wellShaped_toolResult {id : String} {name : ToolName} {output : Value}
    (hid : isBlank id = false) (hparse : JsonText.parses (JsonText.toText output) = true) :
    WellShaped (.toolResult id name output) := by
  simp [WellShaped, validateMessageShape, Message.toolResult, validToolContent, hid, hparse]

theorem history_foldl_resolveItem
    (items : List (ModelToolCall × ToolEffectResult × Option DelegationBudget))
    (s : AgentRunState) : (items.foldl resolveItem s).history =
      s.history ++ items.map fun item =>
        .toolResult item.1.callId item.1.name item.2.1.output := by
  induction items generalizing s with
  | nil => simp
  | cons item items ih =>
    have hitem : (s.resolveItem item).history =
        s.history ++ [.toolResult item.1.callId item.1.name item.2.1.output] :=
      resolveCall_history _ _ _ _ _
    rw [List.foldl_cons, ih, hitem, List.map_cons, List.append_assoc, List.singleton_append]

variable [RequestText] {s s' : AgentRunState} {e : AgentRunEffect} {o : AgentEffectOutcome}

/-- Outputs that can be read back leave well-shaped messages. -/
theorem AgentRunState.Committed.wellShaped_history (hc : Committed s e o s')
    (htool : e.isProviderCall = false) (hshaped : ∀ m ∈ s.history, WellShaped m)
    (hids : ∀ c ∈ s.pendingTools, isBlank c.callId = false)
    (hread : ∀ output ∈ o.outputs, JsonText.parses (JsonText.toText output) = true) :
    ∀ m ∈ s'.history, WellShaped m := by
  cases hc with
  | response => cases htool
  | failure => cases htool
  | exhausted => cases htool
  | tool call rest output attempts usage ht =>
    have hid : isBlank call.callId = false := hids call (by simp [ht.pending])
    rw [resolveCall_history, List.forall_mem_append]
    refine ⟨hshaped, ?_⟩
    simpa using wellShaped_toolResult hid (hread output (List.mem_singleton_self _))
  | batch call rest outputs ht hlen =>
    rw [history_foldl_resolveItem, List.forall_mem_append]
    refine ⟨hshaped, fun m hm => ?_⟩
    obtain ⟨item, hitem, rfl⟩ := List.mem_map.mp hm
    have hcall : item.1 ∈ s.pendingTools := by
      rw [← batchItems_calls hlen]
      exact List.mem_map_of_mem hitem
    have houtput : item.2.1 ∈ outputs := by
      rw [← batchItems_outputs hlen]
      exact List.mem_map_of_mem hitem
    exact wellShaped_toolResult (hids _ hcall) (hread _ (List.mem_map_of_mem houtput))

theorem Trace.pending_named {s₀ : AgentRunState} {log : List (AgentRunEffect × AgentEffectOutcome)}
    (h : Trace s₀ log s) (hidle : s₀.pendingTools = []) :
    ∀ c ∈ s.pendingTools, isBlank c.callId = false := by
  refine h.invariant (I := fun _ s => ∀ c ∈ s.pendingTools, isBlank c.callId = false)
    (by simp [hidle]) (fun log s e o s' hs ha hc c hmem => ?_) (fun log s s' hs hq c hmem => ?_)
  · rw [hc.pendingTools_eq] at hmem
    cases o with
    | provider response attempts =>
      have ha : ∃ id, validateModelResponse response id = .ok () := by
        cases hc with
        | response => exact ⟨_, ha⟩
      obtain ⟨id, ha⟩ := ha
      rcases validateModelResponse_cases ha with ⟨_, _, _, hnil⟩ | ⟨_, _, hcalls⟩
      · simp [callsAfter, hnil] at hmem
      · exact ((validateToolCalls_eq_ok_iff.mp hcalls).1 c hmem).1
    | tool => exact hs c (List.mem_of_mem_tail hmem)
    | _ => simp [callsAfter] at hmem
  · rw [hq.sameLedger.pendingTools] at hmem
    exact hs c hmem

end

/-- The activities of a worker with this agent. An effect that never ends runs into the timeout
of its activity. -/
def Environment.activities [JsonText] [RequestText] [ArgumentSchema] (env : Environment)
    (run : RunPath → Agent → String → RunOptions → RunReport) (path : RunPath) (agent : Agent)
    (elapsed : Nat → U64) : Activities := fun i input _ =>
  match (env.execute run path agent i input.state input.effect).outcome with
  | none => .error (.other "activity timed out")
  | some (.error e) => .error (.other e.toText)
  | some (.ok outcome) => .ok (.reported outcome (elapsed i))

namespace LoopState

variable [JsonText] [RequestText]

/-- The iterations at which the drivers part: a call for a tool that the agent does not have and
the allowlist does not name, or an output that does not read back, as the last one of a round
after which no provider call is left. -/
inductive Diverges (agent : Agent) (config : TemporalRunConfig)
    (execute : Nat → AgentRunState → AgentRunEffect → EffectReport)
    (scripts : Nat → IterationScript) (l : LoopState) : Prop
  | unlisted (e : AgentRunEffect) (o : AgentEffectOutcome) (name : ToolName) :
      l.state.nextEffect = some e → (execute l.iteration l.state e).outcome = some (.ok o) →
      name ∈ e.toolNames → agent.tools.find? (fun tool => tool.tool.name = name) = none →
      config.allows name = false → Diverges agent config execute scripts l
  | unreadable (e : AgentRunEffect) (o : AgentEffectOutcome) (output : Value)
      (s : AgentRunState) :
      l.state.nextEffect = some e → (execute l.iteration l.state e).outcome = some (.ok o) →
      output ∈ o.outputs → JsonText.parses (JsonText.toText output) = false →
      Committed (l.state.recordElapsed (scripts l.iteration).elapsedMs) e o s →
      s.pendingTools = [] → s.noProviderBudget = true → Diverges agent config execute scripts l

/-- Neither the run nor an effect of it is cancelled at this iteration. -/
structure Uncancelled (execute : Nat → AgentRunState → AgentRunEffect → EffectReport)
    (scripts : Nat → IterationScript) (l : LoopState) : Prop where
  flag : (scripts l.iteration).cancelled = false
  effect : ∀ e, l.state.nextEffect = some e →
    (execute l.iteration l.state e).outcome ≠ some (.error .cancelled)

end LoopState

/-- The result of a local run and the state that a workflow returns are the same to a caller. -/
structure SameResult (result : RunResult) (state : AgentRunState) : Prop where
  status : result.status = state.status
  text : result.text = state.text
  history : result.history = state.history
  usage : result.usage = state.usage

/-- How the last turn of a local run and the last turn of its workflow go together. -/
inductive Matches : LocalTurn → WorkflowEnd → Prop
  | same {l : LoopState} {result : RunResult} {state : AgentRunState} :
      SameResult result state → Matches (.ended l (.ok result)) (.returned state)
  | failed {l : LoopState} {error : RunError} {failure : WorkflowFailure} :
      Matches (.ended l (.error error)) (.failed failure)
  | blocked {l : LoopState} {failure : WorkflowFailure} : Matches (.blocked l) (.failed failure)

/-- The workflow has come as far as the local loop. -/
structure Tracks (config : TemporalRunConfig) (l : LoopState) (u : ExecutionLoop) : Prop where
  state : ∃ ms, u.input.state.finishIfExhausted.1 = l.state.finishIfExhausted.1.atTime ms
  index : u.selected.length = l.iteration
  config : u.input.config = config

section

variable [JsonText] [RequestText] {activities : Activities} {u : ExecutionLoop}
  {e : AgentRunEffect} {o : AgentEffectOutcome} {s : AgentRunState}

theorem ExecutionLoop.uncut_of_ended (activities : Activities)
    (h : u.input.state.finishIfExhausted.1.status.isActive = false) :
    ∃ v, u.uncut activities = .ended v (.returned u.input.state.finishIfExhausted.1) := by
  rcases iterate_cases (fun _ => false) activities u with ⟨hu, _⟩ | ⟨e, hx, he, _⟩
  · have hidem : u.input.state.finishIfExhausted.1.finishIfExhausted.1 =
        u.input.state.finishIfExhausted.1 := by rw [finishIfExhausted_idem]
    have hleave : (u.setState u.input.state.finishIfExhausted.1).leave = .ended
        (u.setState u.input.state.finishIfExhausted.1.finishIfExhausted.1).updateSnapshot
        (.returned u.input.state.finishIfExhausted.1.finishIfExhausted.1) := rfl
    rw [hidem] at hleave
    exact ⟨_, hu.trans hleave⟩
  · have hactive := active_of_nextEffect he
    rw [hx] at h
    simp [h] at hactive

theorem ExecutionLoop.uncut_of_nextEffect (hx : u.input.state.finishIfExhausted.2 = false)
    (he : u.input.state.nextEffect = some e) :
    u.uncut activities = u.perform activities e := by
  rcases iterate_cases (fun _ => false) activities u with ⟨_, hend⟩ | ⟨e', _, he', hu⟩
  · rcases hend with hend | hend
    · simp [hx] at hend
    · simp [he] at hend
  · obtain rfl := Option.some.inj (he.symm.trans he')
    rcases hu with ⟨hcontinues, _⟩ | ⟨_, hu⟩
    · cases hcontinues
    · exact hu

theorem ExecutionLoop.perform_failed (activities : Activities)
    (h : u.input.config.validatesEffect e ≠ .ok () ∨ ∃ message, ∀ options,
      activities u.selected.length ⟨u.input.state, e⟩ options = .error (.other message)) :
    ∃ v failure, u.perform activities e = .ended v (.failed failure) := by
  cases hv : u.input.config.validatesEffect e with
  | error err =>
    simp only [perform, hv]
    exact ⟨_, _, rfl⟩
  | ok =>
    obtain ⟨message, hm⟩ := h.resolve_left (fun hne => hne hv)
    simp only [perform, hv, hm]
    exact ⟨_, _, rfl⟩

theorem ExecutionLoop.perform_of_committed {ms : U64}
    (hv : u.input.config.validatesEffect e = .ok ())
    (ha : ∀ options, activities u.selected.length ⟨u.input.state, e⟩ options =
      .ok (.reported o ms))
    (hc : Committed u.input.state e o s) :
    ∃ v, u.perform activities e = .next v ∧
      v.input.state = (s.recordElapsed ms).finishIfExhausted.1 ∧
      v.selected = u.selected ++ [e] ∧ v.input.config = u.input.config := by
  simp only [perform, hv, ha, complete, EffectActivityOutput.intoParts, hc.commitEffect]
  exact ⟨_, rfl, rfl, rfl, rfl⟩

end

namespace AgentRunState

theorem finishIfExhausted_of_nextEffect {s : AgentRunState} {e : AgentRunEffect}
    (hd : s.plan.deadlineMs = none) (he : s.nextEffect = some e) :
    s.finishIfExhausted = (s, false) := by
  have ht : s.deadlineReached = false := by simp [deadlineReached, hd]
  rcases nextEffect_cases he with ⟨hturn, _⟩ | ⟨_, _, hturn, _⟩ | ⟨_, _, hturn, _⟩
  · simp [finishIfExhausted, ht, hturn.budget]
  · simp [finishIfExhausted, ht, hturn.pending]
  · simp [finishIfExhausted, ht, hturn.pending]

end AgentRunState

theorem Tracks.state_eq {config : TemporalRunConfig} {l : LoopState} {u : ExecutionLoop}
    {e : AgentRunEffect} (h : Tracks config l u) (hd : l.state.plan.deadlineMs = none)
    (he : l.state.nextEffect = some e) :
    u.input.state.finishIfExhausted.2 = false ∧ ∃ ms, u.input.state = l.state.atTime ms := by
  obtain ⟨ms, hstate⟩ := h.state
  rw [finishIfExhausted_of_nextEffect hd he] at hstate
  have hactive : u.input.state.finishIfExhausted.1.status.isActive = true := by
    rw [hstate]
    exact active_of_nextEffect he
  cases hx : u.input.state.finishIfExhausted.2 with
  | true =>
    rcases (finishIfExhausted_eq_true (t := u.input.state.finishIfExhausted.1)
      (by rw [← hx])).2 with ⟨_, _, hs⟩ | ⟨_, _, hs⟩ <;> simp [hs, RunStatus.isActive] at hactive
  | false =>
    rw [finishIfExhausted_eq_self hx] at hstate
    exact ⟨rfl, ms, hstate⟩

theorem validatesEffect_of_not_diverges [JsonText] [RequestText] {agent : Agent}
    {config : TemporalRunConfig} {scripts : Nat → IterationScript} {l : LoopState}
    {e : AgentRunEffect} {o : AgentEffectOutcome}
    {execute : Nat → AgentRunState → AgentRunEffect → EffectReport}
    (hallow : ∀ tool ∈ agent.tools, config.allows tool.tool.name = true)
    (hagrees : ¬ l.Diverges agent config execute scripts) (he : l.state.nextEffect = some e)
    (ho : (execute l.iteration l.state e).outcome = some (.ok o)) :
    config.validatesEffect e = .ok () := by
  have hall : e.toolNames.find? (fun name => !config.allows name) = none := by
    rw [List.find?_eq_none]
    intro name hname hrefused
    have hrefused : config.allows name = false := by simpa using hrefused
    cases hfind : agent.tools.find? (fun tool => tool.tool.name = name) with
    | none => exact hagrees (.unlisted e o name he ho hname hfind hrefused)
    | some tool =>
      have hsame : tool.tool.name = name := by simpa using List.find?_some hfind
      have hlisted := hallow tool (List.mem_of_find?_eq_some hfind)
      rw [hsame, hrefused] at hlisted
      cases hlisted
  simp only [TemporalRunConfig.validatesEffect, hall]

section

variable [JsonText] [RequestText] [ArgumentSchema] {env : Environment}
  {run : RunPath → Agent → String → RunOptions → RunReport} {path : RunPath} {agent : Agent}
  {config : TemporalRunConfig} {elapsed : Nat → U64} {s₀ : AgentRunState} {l l' : LoopState}
  {u : ExecutionLoop} {e : AgentRunEffect} {o : AgentEffectOutcome} {s : AgentRunState}

theorem Tracks.activity_eq {ms : U64} (h : Tracks config l u)
    (hd : l.state.plan.deadlineMs = none) (hstate : u.input.state = l.state.atTime ms)
    (options : ActivityOptions) :
    env.activities run path agent elapsed u.selected.length ⟨u.input.state, e⟩ options =
      match (env.execute run path agent l.iteration l.state e).outcome with
      | none => .error (.other "activity timed out")
      | some (.error e) => .error (.other e.toText)
      | some (.ok outcome) => .ok (.reported outcome (elapsed l.iteration)) := by
  have hreport : env.execute run path agent l.iteration (l.state.atTime ms) e =
      env.execute run path agent l.iteration l.state e := executeEffect_atTime _ _ _ hd ms e
  simp only [Environment.activities, h.index, hstate, hreport]

theorem Tracks.committed {ms : U64} (h : Tracks config l u) (elapsed : Nat → U64)
    (hd : l.state.plan.deadlineMs = none) (he : l.state.nextEffect = some e)
    (ho : (env.execute run path agent l.iteration l.state e).outcome = some (.ok o))
    (hv : config.validatesEffect e = .ok ()) (hc : Committed (l.state.recordElapsed ms) e o s) :
    ∃ v ms', u.uncut (env.activities run path agent elapsed) = .next v ∧
      v.input.state = s.finishIfExhausted.1.atTime ms' ∧
      v.selected.length = l.iteration + 1 ∧ v.input.config = config := by
  obtain ⟨hx, ms₀, hstate⟩ := h.state_eq hd he
  have hnext : u.input.state.nextEffect = some e := by
    rw [hstate]
    exact he
  have hcu : Committed u.input.state e o (s.atTime ms₀) := by
    rw [hstate]
    exact hc.atTime ms₀
  have hplan : s.plan.deadlineMs = none := by
    rw [hc.fixed.1]
    exact hd
  have hactivity (options : ActivityOptions) :
      env.activities run path agent elapsed u.selected.length ⟨u.input.state, e⟩ options =
        .ok (.reported o (elapsed l.iteration)) := by
    rw [h.activity_eq hd hstate options, ho]
  obtain ⟨v, hperform, hvstate, hselected, hconfig⟩ :=
    ExecutionLoop.perform_of_committed (h.config ▸ hv) hactivity hcu
  have htime : ((s.atTime ms₀).recordElapsed (elapsed l.iteration)).finishIfExhausted.1 =
      s.finishIfExhausted.1.atTime (ms₀.saturatingAdd (elapsed l.iteration)) :=
    congrArg Prod.fst (finishIfExhausted_atTime hplan _)
  refine ⟨v, _, (ExecutionLoop.uncut_of_nextEffect hx hnext).trans hperform,
    hvstate.trans htime, ?_, ?_⟩
  · rw [hselected, List.length_append, h.index]
    rfl
  · rw [hconfig, h.config]

theorem Tracks.next {scripts : Nat → IterationScript} (h : Tracks config l u)
    (hd : l.state.plan.deadlineMs = none)
    (hallow : ∀ tool ∈ agent.tools, config.allows tool.tool.name = true)
    (hagrees : ¬ l.Diverges agent config (env.execute run path agent) scripts)
    (hn : l.turn (env.execute run path agent) scripts none = .next l') :
    ∃ v, u.uncut (env.activities run path agent elapsed) = .next v ∧ Tracks config l' v := by
  have hstep := LoopState.advances_of_turn hn
  cases hstep with
  | intro e o records s _ _ he ho hcommit =>
    have hc : Committed (l.state.recordElapsed (scripts l.iteration).elapsedMs) e o s :=
      committed_of_nextEffect he hcommit
    have hv := validatesEffect_of_not_diverges hallow hagrees he ho
    obtain ⟨v, ms, hu, hstate, hindex, hconfig⟩ := h.committed elapsed hd he ho hv hc
    refine ⟨v, hu, ⟨ms, ?_⟩, hindex, hconfig⟩
    have hplan : s.finishIfExhausted.1.plan.deadlineMs = none := by
      rw [(sameLedger_finishIfExhausted s).plan, hc.fixed.1]
      exact hd
    show v.input.state.finishIfExhausted.1 = s.finishIfExhausted.1.atTime ms
    rw [hstate, finishIfExhausted_atTime hplan, finishIfExhausted_idem]

/-- A commit that ends the run ends the workflow one turn later. -/
theorem Tracks.ends_of_committed {ms : U64} (h : Tracks config l u) (elapsed : Nat → U64)
    (hd : l.state.plan.deadlineMs = none) (he : l.state.nextEffect = some e)
    (ho : (env.execute run path agent l.iteration l.state e).outcome = some (.ok o))
    (hv : config.validatesEffect e = .ok ()) (hc : Committed (l.state.recordElapsed ms) e o s)
    (hended : s.status.isActive = false) :
    ∃ t v ms', Reaches (ExecutionLoop.uncut (env.activities run path agent elapsed)) u t ∧
      t.uncut (env.activities run path agent elapsed) = .ended v (.returned (s.atTime ms')) := by
  obtain ⟨t, ms', hu, hstate, _⟩ := h.committed elapsed hd he ho hv hc
  rw [finishIfExhausted_of_ended hended] at hstate
  have hx : t.input.state.finishIfExhausted = (s.atTime ms', false) := by
    rw [hstate, finishIfExhausted_of_ended (s := s.atTime ms') hended]
  obtain ⟨v, hend⟩ := t.uncut_of_ended (env.activities run path agent elapsed)
    (by rw [hx]; exact hended)
  rw [hx] at hend
  exact ⟨t, v, ms', .single hu, hend⟩

/-- A round with an output that cannot be read back fails in the workflow at the next effect. -/
theorem Tracks.fails_of_invalid {scripts : Nat → IterationScript} {err : RunError}
    (h : Tracks config l u) (elapsed : Nat → U64) (hhead : RunHead s₀ l)
    (hidle : s₀.pendingTools = []) (hd : l.state.plan.deadlineMs = none)
    (he : l.state.nextEffect = some e)
    (ho : (env.execute run path agent l.iteration l.state e).outcome = some (.ok o))
    (hv : config.validatesEffect e = .ok ())
    (hc : Committed (l.state.recordElapsed (scripts l.iteration).elapsedMs) e o s)
    (hagrees : ¬ l.Diverges agent config (env.execute run path agent) scripts)
    (htool : e.isProviderCall = false) (hnone : s.pendingTools = [])
    (hinvalid : validateHistory s.history = .error err) :
    ∃ t v failure, Reaches (ExecutionLoop.uncut (env.activities run path agent elapsed)) u t ∧
      t.uncut (env.activities run path agent elapsed) = .ended v (.failed failure) := by
  have ha : Accepted e o := executeEffect_accepted ho
  have htracked : Tracked s :=
    (hhead.tracked.sameLedger (sameLedger_recordElapsed l.state _)).committed ha hc
  have hshaped : ∀ m ∈ l.state.history, WellShaped m := by
    rcases executeEffect_cases agent (fun j => run ((l.iteration, j) :: path))
      (env.script path l.iteration).effect l.state e with ⟨_, hx⟩ | ⟨hvalid, _⟩
    · have ho : (executeEffect agent (fun j => run ((l.iteration, j) :: path))
        (env.script path l.iteration).effect l.state e).outcome = some (.ok o) := ho
      simp [hx, EffectReport.ended] at ho
    · exact hhead.tracked.validateEffectStateHistory.mp hvalid
  have hmalformed : ¬ ∀ m ∈ s.history, WellShaped m := fun hall => by
    have hscan := htracked
    rw [Tracked, hnone] at hscan
    have hvalid := validateHistory_eq_ok_iff.mpr ⟨hall, hscan⟩
    rw [hinvalid] at hvalid
    cases hvalid
  obtain ⟨output, houtput, hparse⟩ : ∃ output ∈ o.outputs,
      JsonText.parses (JsonText.toText output) = false := by
    by_contra hall
    push Not at hall
    have hids := hhead.trace.pending_named hidle
    exact hmalformed (hc.wellShaped_history htool hshaped hids fun output hmem => by
      simpa using hall output hmem)
  have hbudget : s.noProviderBudget = false := by
    by_contra hspent
    exact hagrees (.unreadable e o output s he ho houtput hparse hc hnone (by simpa using hspent))
  have hplan : s.plan.deadlineMs = none := by
    rw [hc.fixed.1]
    exact hd
  have hactive : s.status.isActive = true := by
    rcases hc.progress with ⟨hcall, _⟩ | ⟨_, _, hsame, _⟩
    · simp [htool] at hcall
    · rw [hsame]
      exact active_of_nextEffect he
  have hturn : s.ProviderTurn := ⟨hactive, hnone, hbudget⟩
  obtain ⟨t, ms, hu, hstate, _⟩ := h.committed elapsed hd he ho hv hc
  rw [finishIfExhausted_of_nextEffect hplan hturn.nextEffect] at hstate
  have hnext : (s.atTime ms).nextEffect = some s.providerEffect := hturn.nextEffect
  have hexhausted : (s.atTime ms).finishIfExhausted = (s.atTime ms, false) :=
    finishIfExhausted_of_nextEffect hplan hnext
  have hrefused : ∃ err, validateEffectStateHistory (s.atTime ms) = .error err := by
    cases hx : validateEffectStateHistory (s.atTime ms) with
    | error err => exact ⟨err, rfl⟩
    | ok =>
      have htracked : Tracked (s.atTime ms) := htracked
      exact absurd (htracked.validateEffectStateHistory.mp hx) hmalformed
  obtain ⟨err, hrefused⟩ := hrefused
  obtain ⟨v, failure, hend⟩ : ∃ v failure,
      t.perform (env.activities run path agent elapsed) s.providerEffect =
        .ended v (.failed failure) := by
    refine ExecutionLoop.perform_failed _ (.inr ⟨err.toText, fun options => ?_⟩)
    simp only [Environment.activities, Environment.execute, hstate, executeEffect, hrefused,
      EffectReport.ended]
  exact ⟨t, v, failure, .single hu,
    (ExecutionLoop.uncut_of_nextEffect (by rw [hstate, hexhausted]) (hstate ▸ hnext)).trans hend⟩

/-- Where the local run has ended, the workflow returns its state. -/
theorem Tracks.returns (h : Tracks config l u) (elapsed : Nat → U64)
    (hs : l.state.finishIfExhausted.1 = s) (hended : s.status.isActive = false) :
    ∃ t v ms, Reaches (ExecutionLoop.uncut (env.activities run path agent elapsed)) u t ∧
      t.uncut (env.activities run path agent elapsed) = .ended v (.returned (s.atTime ms)) := by
  obtain ⟨ms, hstate⟩ := h.state
  rw [hs] at hstate
  obtain ⟨v, hend⟩ := u.uncut_of_ended (env.activities run path agent elapsed)
    (by rw [hstate]; exact hended)
  exact ⟨u, v, ms, .refl, by rw [hend, hstate]⟩

/-- An effect that the workflow refuses, or that has no outcome to commit, fails it. -/
theorem Tracks.fails (h : Tracks config l u) (elapsed : Nat → U64)
    (hd : l.state.plan.deadlineMs = none) (he : l.state.nextEffect = some e)
    (hnot : config.validatesEffect e ≠ .ok () ∨
      ∀ o, (env.execute run path agent l.iteration l.state e).outcome ≠ some (.ok o)) :
    ∃ t v failure, Reaches (ExecutionLoop.uncut (env.activities run path agent elapsed)) u t ∧
      t.uncut (env.activities run path agent elapsed) = .ended v (.failed failure) := by
  obtain ⟨hx, ms, hstate⟩ := h.state_eq hd he
  have hnext : u.input.state.nextEffect = some e := by
    rw [hstate]
    exact he
  obtain ⟨v, failure, hend⟩ : ∃ v failure,
      u.perform (env.activities run path agent elapsed) e = .ended v (.failed failure) := by
    refine ExecutionLoop.perform_failed _ (hnot.imp (fun hv => h.config ▸ hv) fun hout => ?_)
    cases ho : (env.execute run path agent l.iteration l.state e).outcome with
    | none => exact ⟨_, fun options => by rw [h.activity_eq hd hstate options, ho]⟩
    | some result =>
      cases result with
      | error err => exact ⟨_, fun options => by rw [h.activity_eq hd hstate options, ho]⟩
      | ok o => exact absurd ho (hout o)
  exact ⟨u, v, failure, .refl, (ExecutionLoop.uncut_of_nextEffect hx hnext).trans hend⟩

/-- Where the local loop comes to its end, the workflow comes to an end that goes with it. -/
theorem Tracks.stops {scripts : Nat → IterationScript} (h : Tracks config l u)
    (elapsed : Nat → U64) (hhead : RunHead s₀ l) (hidle : s₀.pendingTools = [])
    (hd : l.state.plan.deadlineMs = none)
    (hallow : ∀ tool ∈ agent.tools, config.allows tool.tool.name = true)
    (hrunning : l.Uncancelled (env.execute run path agent) scripts)
    (hagrees : ¬ l.Diverges agent config (env.execute run path agent) scripts)
    (hstop : ∀ l', l.turn (env.execute run path agent) scripts none ≠ .next l') :
    ∃ t v en, Reaches (ExecutionLoop.uncut (env.activities run path agent elapsed)) u t ∧
      t.uncut (env.activities run path agent elapsed) = .ended v en ∧
      Matches (l.turn (env.execute run path agent) scripts none) en := by
  have ht := LoopState.turns (env.execute run path agent) scripts none l
  generalize l.turn (env.execute run path agent) scripts none = turn at ht hstop
  cases ht with
  | cancelled hflag => simp [hrunning.flag] at hflag
  | exhausted s hx =>
    have hended : s.status.isActive = false := by
      rcases (finishIfExhausted_eq_true hx).2 with ⟨_, _, hs⟩ | ⟨_, _, hs⟩ <;>
        simp [hs, RunStatus.isActive]
    obtain ⟨t, v, ms, hr, hend⟩ := h.returns elapsed (by rw [hx]) hended
    exact ⟨t, v, _, hr, hend, .same ⟨rfl, rfl, rfl, rfl⟩⟩
  | idle hx hnone =>
    have hended : l.state.status.isActive = false := by
      by_contra hactive
      exact nextEffect_ne_none (by simpa using hactive) hx hnone
    obtain ⟨t, v, ms, hr, hend⟩ := h.returns elapsed (by rw [hx]) hended
    exact ⟨t, v, _, hr, hend, .same ⟨rfl, rfl, rfl, rfl⟩⟩
  | blocked e he ho =>
    have hnot : ∀ o,
        (env.execute run path agent l.iteration l.state e).outcome ≠ some (.ok o) := by
      simp [ho]
    obtain ⟨t, v, failure, hr, hend⟩ := h.fails elapsed hd he (.inr hnot)
    exact ⟨t, v, _, hr, hend, .blocked⟩
  | interrupted e he ho => exact absurd ho (hrunning.effect e he)
  | failed e err he ho =>
    have hnot : ∀ o,
        (env.execute run path agent l.iteration l.state e).outcome ≠ some (.ok o) := by
      simp [ho]
    obtain ⟨t, v, failure, hr, hend⟩ := h.fails elapsed hd he (.inr hnot)
    exact ⟨t, v, _, hr, hend, .failed⟩
  | completed e o t _ _ he ho hcompletes =>
    have hv := validatesEffect_of_not_diverges hallow hagrees he ho
    cases hcompletes with
    | refused records s err hrefused =>
      exact absurd hrefused (executeEffect_not_refused he ho)
    | invalid records s err hcommit htool hnone hinvalid =>
      have hc : Committed (l.state.recordElapsed (scripts l.iteration).elapsedMs) e o s :=
        committed_of_nextEffect he hcommit
      obtain ⟨t, v, failure, hr, hend⟩ := h.fails_of_invalid elapsed hhead hidle hd he
        ho hv hc hagrees htool hnone hinvalid
      exact ⟨t, v, _, hr, hend, .failed⟩
    | failed records s hcommit hfailure =>
      have hc : Committed (l.state.recordElapsed (scripts l.iteration).elapsedMs) e o s :=
        committed_of_nextEffect he hcommit
      have hended : s.status.isActive = false := by
        rcases hc.status_cases (executeEffect_accepted ho) with
          ⟨_, _, _, rfl, _⟩ | ⟨_, _, rfl, _⟩ | ⟨_, hs, _⟩ | ⟨_, rfl, _⟩ | ⟨_, hnot, _⟩
        · cases hfailure
        · cases hfailure
        · simp [hs, RunStatus.isActive]
        · cases hfailure
        · simp [hnot] at hfailure
      obtain ⟨t, v, ms, hr, hend⟩ := h.ends_of_committed elapsed hd he ho hv hc hended
      exact ⟨t, v, _, hr, hend, .same ⟨rfl, rfl, rfl, rfl⟩⟩
    | committed records s hcommit hfailure =>
      have hc : Committed (l.state.recordElapsed (scripts l.iteration).elapsedMs) e o s :=
        committed_of_nextEffect he hcommit
      rcases LoopState.afterCommit_cases none (scripts l.iteration)
          (((l.absorb e (env.execute run path agent l.iteration l.state e)).emit
            (completedEvents e o)).commitTo e o records s) with
        ⟨hpassed, _⟩ | ⟨_, _, hafter⟩ | ⟨_, text, htext, hafter⟩
      · cases hpassed
      · exact absurd hafter (hstop _)
      · have htext : s.text = some text := htext
        have hcompleted := (hc.completed_of_text (executeEffect_accepted ho) hhead.text htext).1
        obtain ⟨t, v, ms, hr, hend⟩ := h.ends_of_committed elapsed hd he ho hv hc
          (by simp [hcompleted, RunStatus.isActive])
        refine ⟨t, v, _, hr, hend, ?_⟩
        rw [hafter]
        exact .same ⟨hcompleted.symm, htext.symm, rfl, rfl⟩

end

theorem exists_local_stop [JsonText] [RequestText]
    (execute : Nat → AgentRunState → AgentRunEffect → EffectReport)
    (scripts : Nat → IterationScript) (deadline : Option Duration) (l : LoopState) :
    ∃ t, Reaches (LoopState.turn execute scripts deadline) l t ∧
      ∀ u, t.turn execute scripts deadline ≠ .next u := by
  obtain ⟨t, hr, _, hstop⟩ := exists_reaches_stop
    (InvImage.wf (fun l : LoopState => (l.state.fuel, l.state.pendingTools.length))
      (Prod.lex Nat.lt_wfRel Nat.lt_wfRel).wf)
    (I := fun _ => True) (fun l l' _ hn => by
      refine ⟨trivial, ?_⟩
      cases LoopState.advances_of_turn hn with
      | intro e o records s _ _ he _ hcommit =>
        have hc : Committed (l.state.recordElapsed (scripts l.iteration).elapsedMs) e o s :=
          committed_of_nextEffect he hcommit
        show Prod.Lex _ _ (s.fuel, s.pendingTools.length)
          (l.state.fuel, l.state.pendingTools.length)
        rcases hc.decreases with hlt | ⟨heq, hlt⟩
        · exact .left _ _ hlt
        · rw [heq]
          exact .right _ hlt) l trivial
  exact ⟨t, hr, hstop⟩

/-- With the same outcomes and without deadlines, cancellations and failures of the
infrastructure, the local driver returns a result exactly when the Temporal driver returns a state
with the same status, text, history and usage, unless the drivers part at some iteration. -/
theorem drivers_agree [JsonText] [RequestText] [ArgumentSchema] (env : Environment)
    (run : RunPath → Agent → String → RunOptions → RunReport) (path : RunPath) (agent : Agent)
    (runId : String) (messages : List Message) (options : RunOptions) (s₀ : AgentRunState)
    (config : TemporalRunConfig) (elapsed : Nat → U64)
    (hs : agent.prepareState runId messages options = .ok s₀) (hdeadline : options.deadline = none)
    (hvalid : config.validate = .ok ())
    (hallow : ∀ tool ∈ agent.tools, config.allows tool.tool.name = true)
    (hrunning : ∀ l, Reaches (LoopState.turn (env.execute run path agent) (env.script path)
      options.deadline) (.start s₀) l →
      l.Uncancelled (env.execute run path agent) (env.script path))
    (hagrees : ∀ l, Reaches (LoopState.turn (env.execute run path agent) (env.script path)
      options.deadline) (.start s₀) l →
      ¬ l.Diverges agent config (env.execute run path agent) (env.script path))
    (status : RunStatus) (text : Option String) (history : List Message) (usage : RunUsage) :
    (∃ fuel l result, drive (LoopState.turn (env.execute run path agent) (env.script path)
        options.deadline) fuel (.start s₀) = (l, some (.ok result)) ∧ result.status = status ∧
        result.text = text ∧ result.history = history ∧ result.usage = usage) ↔
      ∃ fuel report state, runChain (env.activities run path agent elapsed) true fuel
        (.new s₀ config) = some report ∧ report.result = .ok state ∧ state.status = status ∧
        state.text = text ∧ state.history = history ∧ state.usage = usage := by
  rw [hdeadline] at hrunning hagrees ⊢
  have hfresh := Agent.fresh_of_prepareState hs
  have hplan : s₀.plan.deadlineMs = none := by
    obtain ⟨_, _, rfl⟩ := Agent.prepareState_eq_ok_iff.mp hs
    simp [withPlan, Agent.runPlan, hdeadline]
  have hd {l : LoopState} (hl : RunHead s₀ l) : l.state.plan.deadlineMs = none := by
    rw [hl.plan]
    exact hplan
  let u₀ := ExecutionLoop.updateSnapshot
    { input := .new s₀ config, snapshot := none, selected := [], committed := [] }
  have hbegin : beginExecution true (.new s₀ config) [] = .ok u₀ := by
    simp only [beginExecution, TemporalWorkflowInput.new, hvalid, Bool.not_true,
      Bool.false_eq_true, if_false]
    rfl
  have hcounted : ContinuationChain.Counted config.continueAsNewAfterEffects ⟨u₀, []⟩ :=
    ⟨rfl, hvalid, Capped.val_zero, Nat.zero_le _, fun _ hnil => by cases hnil⟩
  -- the local loop stops, and the uncut workflow stops in a way that goes with it
  obtain ⟨l, hl, hstop⟩ :=
    exists_local_stop (env.execute run path agent) (env.script path) none (.start s₀)
  obtain ⟨u, hu, _, htracks⟩ : ∃ u,
      Reaches (ExecutionLoop.uncut (env.activities run path agent elapsed)) u₀ u ∧
      Reaches (LoopState.turn (env.execute run path agent) (env.script path) none) (.start s₀) l ∧
      Tracks config l u := by
    refine Reaches.simulate (R := fun l u =>
      Reaches (LoopState.turn (env.execute run path agent) (env.script path) none) (.start s₀) l ∧
        Tracks config l u) (fun l u l' hlu hn => ?_) ⟨.refl, ⟨_, rfl⟩, rfl, rfl⟩ hl
    obtain ⟨hl, htracks⟩ := hlu
    have hhead := RunHead.of_reaches hfresh hl
    obtain ⟨v, huncut, hnext⟩ := htracks.next (hd hhead) hallow (hagrees l hl) hn
    exact ⟨v, .single huncut, hl.tail hn, hnext⟩
  have hhead := RunHead.of_reaches hfresh hl
  obtain ⟨t, v, en, ht, hend, hmatches⟩ := htracks.stops elapsed hhead hfresh.idle
    (hd hhead) hallow (hrunning l hl) (hagrees l hl) hstop
  have hchain (fuel : Nat) (report : ChainReport)
      (hr : runChain (env.activities run path agent elapsed) true fuel (.new s₀ config) =
        some report) : en.result = some report.result := by
    obtain ⟨c, result, hdrive, rfl⟩ := (runChain_of_ok hbegin).mp hr
    obtain ⟨t', v', en', ht', hend', _, hresult⟩ :=
      hcounted.uncut_of_drive (u := u₀)
        ⟨rfl, rfl, rfl, config.continueAsNewAfterEffects, rfl⟩ hdrive
    have hut : Reaches (ExecutionLoop.uncut (env.activities run path agent elapsed)) u₀ t :=
      hu.trans ht
    obtain rfl := hut.eq_of_stops ht' (by simp [hend]) (by simp [hend'])
    obtain ⟨rfl, rfl⟩ := Turn.ended.inj (hend.symm.trans hend')
    exact hresult
  constructor
  · rintro ⟨fuel, l', result, hdrive, rfl, rfl, rfl, rfl⟩
    obtain ⟨l₂, hl₂, hturn⟩ := reaches_of_drive hdrive
    obtain rfl := hl.eq_of_stops hl₂ hstop (by simp [hturn])
    rw [hturn] at hmatches
    obtain ⟨fuel', c, result', hdrive'⟩ :=
      hcounted.exists_ended (env.activities run path agent elapsed)
    have hr := (runChain_of_ok hbegin).mpr ⟨c, result', hdrive', rfl⟩
    have hresult := hchain fuel' _ hr
    cases hmatches with
    | same hsame =>
      refine ⟨fuel', _, _, hr, (Option.some.inj hresult).symm, hsame.status.symm, hsame.text.symm,
        hsame.history.symm, hsame.usage.symm⟩
  · rintro ⟨fuel, report, state, hr, hok, rfl, rfl, rfl, rfl⟩
    have hresult := hchain fuel report hr
    rw [hok] at hresult
    generalize hturn : l.turn (env.execute run path agent) (env.script path) none = turn
      at hmatches
    cases hmatches with
    | same hsame =>
      obtain rfl := Except.ok.inj (Option.some.inj hresult)
      obtain ⟨fuel', hdrive⟩ := exists_drive_eq hl hturn
      exact ⟨fuel', _, _, hdrive, hsame.status, hsame.text, hsame.history, hsame.usage⟩
    | failed => cases hresult
    | blocked => cases hresult

namespace Sample

/-- Whether neither the run nor an effect of it is cancelled at a head. -/
def undisturbed [JsonText] [RequestText]
    (execute : Nat → AgentRunState → AgentRunEffect → EffectReport)
    (scripts : Nat → IterationScript) (l : LoopState) : Bool :=
  !(scripts l.iteration).cancelled && l.state.nextEffect.all fun e =>
    match (execute l.iteration l.state e).outcome with
    | some (.error .cancelled) => false
    | _ => true

theorem uncancelled_of_undisturbed [JsonText] [RequestText]
    {execute : Nat → AgentRunState → AgentRunEffect → EffectReport}
    {scripts : Nat → IterationScript} {fuel : Nat} {start l : LoopState}
    (hend : (drive (LoopState.turn execute scripts none) fuel start).2.isSome = true)
    (hall : ((visited (LoopState.turn execute scripts none) fuel start).all
      (undisturbed execute scripts)) = true)
    (hr : Reaches (LoopState.turn execute scripts none) start l) :
    l.Uncancelled execute scripts := by
  have hl := List.all_eq_true.mp hall l (hr.mem_visited hend)
  simp only [undisturbed, Bool.and_eq_true, Bool.not_eq_true'] at hl
  refine ⟨hl.1, fun e he ho => ?_⟩
  have heffect := hl.2
  simp [he, ho] at heffect

end Sample

/-- A round with a tool call and one with the answer, where every effect has an execution of its
own. -/
theorem drivers_agree_sample :
    let _ := Sample.jsonText
    let _ := Sample.requestText
    let _ := Sample.argumentSchema
    let env := Sample.environment fun i =>
      Sample.iteration [Sample.answering (if i = 0 then
        Sample.callsResponse [Sample.call "c" (.object [])] else Sample.textResponse "hi")]
        [.output .null]
    let config : TemporalRunConfig := { Sample.temporalConfig with continueAsNewAfterEffects := 1 }
    ∃ fuel report state,
      runChain (env.activities (runAgent env 1) [] Sample.toolAgent fun _ => 0) true fuel
        (.new (.withPlan "run" [.user "hello"] ⟨6⟩ (Sample.toolAgent.runPlan {})) config) =
          some report ∧
      report.result = .ok state ∧ state.status = .completed ∧ state.text = some "hi" ∧
      state.history =
        [.user "hello", .assistantToolCalls [(Sample.call "c" (.object [])).toToolCall],
          .toolResult "c" Sample.lookup .null, .assistantText "hi"] ∧
      state.usage = (RunUsage.new.addCall "model" none).addCall "model" none := by
  intro _ _ _ env config
  let start : AgentRunState := .withPlan "run" [.user "hello"] ⟨6⟩ (Sample.toolAgent.runPlan {})
  let turn := LoopState.turn (env.execute (runAgent env 1) [] Sample.toolAgent) (env.script []) none
  have hend : (drive turn 3 (.start start)).2.isSome = true := by decide +kernel
  refine (drivers_agree env (runAgent env 1) [] Sample.toolAgent "run"
    (Agent.compileMessages "hello" {}) {} start config (fun _ => 0)
    (Sample.prepareState_hello _) rfl (by decide) (by decide)
    (fun l hr => Sample.uncancelled_of_undisturbed hend (by decide +kernel) hr) ?_ .completed
    (some "hi") _ ((RunUsage.new.addCall "model" none).addCall "model" none)).mp ?_
  · intro l hr hdiverges
    have hoffers : ((visited turn 3 (.start start)).all fun l =>
        l.state.nextEffect.all fun e => (e.toolNames.all fun name => config.allows name) &&
          ((env.execute (runAgent env 1) [] Sample.toolAgent l.iteration l.state e).outcome.all
            fun result => result.toOption.all fun o => o.outputs.all fun output =>
              JsonText.parses (JsonText.toText output))) = true := by
      decide +kernel
    have hl := List.all_eq_true.mp hoffers l (Reaches.mem_visited hr hend)
    cases hdiverges with
    | unlisted e o name he ho hname => simp_all
    | unreadable e o output s he ho houtput => simp_all [Except.toOption]
  · have hresult : ((drive turn 3 (.start start)).2.any fun result =>
        result.toOption.any fun result =>
          decide (result.status = .completed ∧ result.text = some "hi" ∧
            result.history =
              [.user "hello", .assistantToolCalls [(Sample.call "c" (.object [])).toToolCall],
                .toolResult "c" Sample.lookup .null, .assistantText "hi"] ∧
            result.usage = (RunUsage.new.addCall "model" none).addCall "model" none)) = true := by
      decide +kernel
    obtain ⟨last, hlast⟩ : ∃ last, drive turn 3 (.start start) = last := ⟨_, rfl⟩
    obtain ⟨l, result⟩ := last
    rcases result with _ | (_ | result)
    · simp [hlast] at hresult
    · simp [hlast, Except.toOption] at hresult
    · exact ⟨3, l, result, hlast, by simpa [hlast, Except.toOption] using hresult⟩

/-- A call for a tool that the agent does not have and the allowlist does not name: the local
run tells the model and goes on, the workflow fails. -/
theorem drivers_differ_at_unlisted_tool :
    ¬ ∀ (_ : JsonText) (_ : RequestText) (_ : ArgumentSchema) (env : Environment)
      (run : RunPath → Agent → String → RunOptions → RunReport) (path : RunPath) (agent : Agent)
      (runId : String) (messages : List Message) (options : RunOptions) (s₀ : AgentRunState)
      (config : TemporalRunConfig) (elapsed : Nat → U64),
      agent.prepareState runId messages options = .ok s₀ → options.deadline = none →
      config.validate = .ok () → (∀ tool ∈ agent.tools, config.allows tool.tool.name = true) →
      (∀ l, Reaches (LoopState.turn (env.execute run path agent) (env.script path)
        options.deadline) (.start s₀) l →
        l.Uncancelled (env.execute run path agent) (env.script path)) →
      ∀ (status : RunStatus) (text : Option String) (history : List Message) (usage : RunUsage),
        (∃ fuel l result, drive (LoopState.turn (env.execute run path agent) (env.script path)
            options.deadline) fuel (.start s₀) = (l, some (.ok result)) ∧ result.status = status ∧
            result.text = text ∧ result.history = history ∧ result.usage = usage) ↔
          ∃ fuel report state, runChain (env.activities run path agent elapsed) true fuel
            (.new s₀ config) = some report ∧ report.result = .ok state ∧ state.status = status ∧
            state.text = text ∧ state.history = history ∧ state.usage = usage := by
  intro claim
  let _ := Sample.jsonText
  let _ := Sample.requestText
  let _ := Sample.argumentSchema
  let env := Sample.environment fun i =>
    Sample.iteration [Sample.answering (if i = 0 then
      Sample.callsResponse [Sample.call "c" (.object [])] else Sample.textResponse "hi")] []
  let config : TemporalRunConfig := { Sample.temporalConfig with durableIdempotentTools := [] }
  let turn := LoopState.turn (env.execute (runAgent env 1) [] (Sample.agent false)) (env.script [])
    none
  have hlocal : ((drive turn 3 (.start (Sample.started false))).2.any (·.isOk)) = true := by
    decide +kernel
  obtain ⟨last, hlast⟩ : ∃ last, drive turn 3 (.start (Sample.started false)) = last := ⟨_, rfl⟩
  obtain ⟨l, result⟩ := last
  obtain ⟨result, rfl⟩ : ∃ r, result = some (.ok r) := by
    rcases result with _ | (_ | r)
    · simp [hlast] at hlocal
    · simp [hlast, Except.isOk, Except.toBool] at hlocal
    · exact ⟨r, rfl⟩
  have hchain : ((runChain (env.activities (runAgent env 1) [] (Sample.agent false) fun _ => 0)
      true 3 (.new (Sample.started false) config)).any fun report =>
        report.result.toOption.isNone) = true := by
    decide +kernel
  obtain ⟨fuel, report, state, hreport, hok, _⟩ := (claim _ _ _ env (runAgent env 1) []
    (Sample.agent false) "run" (Agent.compileMessages "hello" {}) {} (Sample.started false) config
    (fun _ => 0) (Sample.prepareState_agent false) rfl (by decide) (by simp [Sample.agent])
    (fun l hr => Sample.uncancelled_of_undisturbed (by rw [hlast]; rfl) (by decide +kernel) hr)
    result.status result.text result.history result.usage).mp
    ⟨3, l, result, hlast, rfl, rfl, rfl, rfl⟩
  obtain ⟨report', hreport', hfailed⟩ := (Option.any_eq_true _ _).mp hchain
  obtain rfl := runChain_unique hreport hreport'
  simp [hok, Except.toOption] at hfailed

end Agentive
