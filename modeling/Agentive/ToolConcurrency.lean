import Agentive.DelegationPolicy
import Agentive.ForkJoin

/-! What is in flight in a tree of runs. Each run cuts its own batches, so runs that go on at the
same time do not share the limit. -/

namespace Agentive

open DriverLoop ForkJoin

section

variable [ArgumentSchema] (agent : Agent)
  (runChild : Nat → Agent → String → RunOptions → RunReport)
  (childWork : Nat → Agent → String → RunOptions → Work ToolInvocation) (script : EffectScript)
  (s : AgentRunState)

/-- What a call comes to: an invocation of an ordinary tool, the child run of a delegation, or
nothing. -/
def callWork (i : Nat) (call : ToolEffectCall) : Work ToolInvocation :=
  if !(script.member i).reached then .done
  else match call.policy with
    | none => .done
    | some policy =>
      match agent.tools.find? (fun tool => tool.tool.name = call.invocation.toolName) with
      | none => .done
      | some tool =>
        if !validateToolArguments call.arguments policy.descriptor.schema then .done
        else match tool.asDelegation with
          | some childTool =>
            match childTool.started (runChild i) call.arguments
              (delegationExecution s call.delegationBudget) with
            | none => .done
            | some child => .run (childWork i childTool.child child.task child.options)
          | none => .task call.invocation false

/-- The calls of a chunk go on together, and the chunks one after another as long as all calls
answer. When one fails, the others are dropped. -/
def chunksWork {α : Type} (failing : Nat) (call : α → MemberReport)
    (work : α → Work ToolInvocation) : List (List α) → Work ToolInvocation
  | [] => .done
  | chunk :: rest =>
    let together := Work.parAll (chunk.map work)
    match tryJoinAll failing (chunk.map call) with
    | none => together
    | some (.error _) => .failing together
    | some (.ok outcomes) =>
      match toolOutputs outcomes with
      | .error _ => together
      | .ok _ => .seq together (chunksWork failing call work rest)

def batchWork (calls : List ToolEffectCall) : Work ToolInvocation :=
  chunksWork script.failing (fun p => executeOneTool agent runChild script s p.2 p.1)
    (fun p => callWork agent runChild childWork script s p.2 p.1)
    (chunks (max s.plan.maxParallelToolCalls.val 1) calls.zipIdx)

def admittedWork : AgentRunEffect → Work ToolInvocation
  | .providerCall _ _ _ _ => .done
  | .toolCall _ invocation arguments policy delegationBudget =>
    callWork agent runChild childWork script s 0
      { invocation, arguments, policy, delegationBudget }
  | .toolBatch _ calls => batchWork agent runChild childWork script s calls

def effectWork [JsonText] [RequestText] (effect : AgentRunEffect) : Work ToolInvocation :=
  match validateEffectStateHistory s with
  | .error _ => .done
  | .ok () =>
    match agent.validateStatePlan s with
    | .error _ => .done
    | .ok () =>
      if s.nextEffect ≠ some effect then .done
      else admittedWork agent runChild childWork script s effect

end

section

variable [JsonText] [RequestText] [ArgumentSchema]

def turnWork (env : Environment) (run : RunPath → Agent → String → RunOptions → RunReport)
    (work : RunPath → Agent → String → RunOptions → Work ToolInvocation) (path : RunPath)
    (agent : Agent) (l : LoopState) : Work ToolInvocation :=
  match l.offered (env.script path) with
  | none => .done
  | some effect =>
    effectWork agent (fun j => run ((l.iteration, j) :: path))
      (fun j => work ((l.iteration, j) :: path)) (env.script path l.iteration).effect l.state
      effect

/-- The tool calls of a run and of the runs below it. The turns of one run follow each other. -/
def runWork (env : Environment) :
    Nat → RunPath → Agent → String → RunOptions → Work ToolInvocation
  | 0, _, _, _, _ => .done
  | fuel + 1, path, agent, userMessage, options =>
    match agent.prepareState (env.runId path) (Agent.compileMessages userMessage options)
      options with
    | .error _ => .done
    | .ok s =>
      .seqAll ((visited (LoopState.turn (env.execute (runAgent env fuel) path agent)
        (env.script path) options.deadline) fuel (.start s)).map
          (turnWork env (runAgent env fuel) (runWork env fuel) path agent))

end

/-! The runs of the work are those of the tree log. -/

theorem runs_chunksWork {α : Type} {failing : Nat} {call : α → MemberReport}
    {work : α → Work ToolInvocation}
    (hcall : ∀ a, (work a).runs = (call a).children.depths.length) (chunks : List (List α))
    (outputs : List ToolEffectResult) :
    (chunksWork failing call work chunks).runs =
      (executeChunks failing call chunks outputs).children.depths.length := by
  induction chunks generalizing outputs with
  | nil => rfl
  | cons chunk rest ih =>
    have htogether : (Work.parAll (chunk.map work)).runs =
        (TreeLog.concat ((chunk.map call).map (·.children))).depths.length := by
      rw [Work.runs_parAll, TreeLog.length_depths_concat, List.map_map, List.map_map, List.map_map]
      exact congrArg List.sum (List.map_congr_left fun a _ => hcall a)
    rw [chunksWork, executeChunks]
    cases hjoin : tryJoinAll failing (chunk.map call) with
    | none => exact htogether
    | some result =>
      cases result with
      | error e => exact htogether
      | ok outcomes =>
        cases houtputs : toolOutputs outcomes with
        | error e =>
          simp only [houtputs]
          exact htogether
        | ok new =>
          simp only [houtputs, Work.runs, TreeLog.append, List.length_append]
          rw [htogether, ih (outputs ++ new)]

section

variable [ArgumentSchema] {agent : Agent}
  {runChild : Nat → Agent → String → RunOptions → RunReport}
  {childWork : Nat → Agent → String → RunOptions → Work ToolInvocation} {script : EffectScript}
  {s : AgentRunState}

/-- A call comes to nothing, to a task, or to a child run with the limit of its parent. -/
inductive CallWork (agent : Agent) (runChild : Nat → Agent → String → RunOptions → RunReport)
    (childWork : Nat → Agent → String → RunOptions → Work ToolInvocation) (script : EffectScript)
    (s : AgentRunState) (i : Nat) (call : ToolEffectCall) : Work ToolInvocation → Prop
  | done (h : (executeOneTool agent runChild script s i call).children = .empty) :
      CallWork agent runChild childWork script s i call .done
  | task (h : (executeOneTool agent runChild script s i call).children = .empty) :
      CallWork agent runChild childWork script s i call (.task call.invocation false)
  | run (childAgent : Agent) (task : String) (options : RunOptions)
      (parallel : options.maxParallelToolCalls = s.plan.maxParallelToolCalls)
      (h : (executeOneTool agent runChild script s i call).children =
        (runChild i childAgent task options).tree) :
      CallWork agent runChild childWork script s i call (.run (childWork i childAgent task options))

theorem callWork_cases (i : Nat) (call : ToolEffectCall) :
    CallWork agent runChild childWork script s i call
      (callWork agent runChild childWork script s i call) := by
  unfold callWork
  split
  · next hreached => exact .done (by rw [executeOneTool, if_pos hreached]; rfl)
  · next hreached =>
    split
    · next hpolicy => exact .done (by rw [executeOneTool, if_neg hreached, hpolicy]; rfl)
    · next policy hpolicy =>
      split
      · next hfind =>
        exact .done (by simp only [executeOneTool, if_neg hreached, hpolicy, hfind]; rfl)
      · next tool hfind =>
        split
        · next hargs =>
          exact .done (by
            simp only [executeOneTool, if_neg hreached, hpolicy, hfind, if_pos hargs]; rfl)
        · next hargs =>
          split
          · next childTool htool =>
            have heq : executeOneTool agent runChild script s i call =
                childTool.execute (runChild i) (script.member i).parentCancelled call.arguments
                  (delegationExecution s call.delegationBudget) := by
              simp only [executeOneTool, if_neg hreached, hpolicy, hfind, if_neg hargs, htool]
            cases hstarted : childTool.started (runChild i) call.arguments
                (delegationExecution s call.delegationBudget) with
            | none => exact .done (by rw [heq, childTool.children_of_not_started hstarted])
            | some child =>
              obtain ⟨budget, _, hoptions⟩ := DelegationTool.options_of_started hstarted
              refine .run childTool.child child.task child.options (by rw [hoptions]; rfl) ?_
              rw [heq, DelegationTool.execute_of_started hstarted,
                DelegationTool.report_of_started hstarted]
          · next htool =>
            exact .task (by
              simp only [executeOneTool, if_neg hreached, hpolicy, hfind, if_neg hargs, htool])

theorem runs_callWork
    (hrun : ∀ i child task options, (childWork i child task options).runs + 1 =
      (runChild i child task options).tree.depths.length) (i : Nat) (call : ToolEffectCall) :
    (callWork agent runChild childWork script s i call).runs =
      (executeOneTool agent runChild script s i call).children.depths.length := by
  have hwork : CallWork agent runChild childWork script s i call
      (callWork agent runChild childWork script s i call) := callWork_cases i call
  generalize callWork agent runChild childWork script s i call = w at hwork ⊢
  cases hwork with
  | done h => rw [h]; rfl
  | task h => rw [h]; rfl
  | run childAgent task options parallel h => rw [h, ← hrun, Work.runs]

theorem runs_effectWork [JsonText] [RequestText]
    (hrun : ∀ i child task options, (childWork i child task options).runs + 1 =
      (runChild i child task options).tree.depths.length) (e : AgentRunEffect) :
    (effectWork agent runChild childWork script s e).runs =
      (executeEffect agent runChild script s e).children.depths.length := by
  unfold effectWork executeEffect
  cases validateEffectStateHistory s with
  | error e => rfl
  | ok =>
    cases agent.validateStatePlan s with
    | error e => rfl
    | ok =>
      by_cases hnext : s.nextEffect = some e
      · simp only [hnext, ne_eq, not_true, if_false]
        cases e with
        | providerCall id providerCallId round request =>
          rw [executeAdmitted, children_executeProvider]
          rfl
        | toolCall id invocation arguments policy delegationBudget =>
          exact runs_callWork hrun 0 _
        | toolBatch id calls =>
          exact runs_chunksWork (fun p : ToolEffectCall × Nat => runs_callWork hrun p.2 p.1) _ []
      · simp only [ne_eq, hnext, not_false_eq_true, if_true]
        rfl

end

section

variable [JsonText] [RequestText] [ArgumentSchema] (env : Environment)
  {run : RunPath → Agent → String → RunOptions → RunReport}
  {work : RunPath → Agent → String → RunOptions → Work ToolInvocation}

theorem runs_turnWork
    (hrun : ∀ path child task options, (work path child task options).runs + 1 =
      (run path child task options).tree.depths.length) (path : RunPath) (agent : Agent)
    (deadline : Option Duration) (l : LoopState) :
    (l.turn (env.execute run path agent) (env.script path) deadline).state.children.depths.length =
      l.children.depths.length + (turnWork env run work path agent l).runs := by
  rw [turnWork]
  rcases LoopState.turn_log (env.execute run path agent) (env.script path) deadline l with
    ⟨hoffered, _, hchildren⟩ | ⟨e, hoffered, _, hchildren⟩
  · rw [hoffered, hchildren]
    rfl
  · rw [hoffered, hchildren]
    have heffect : (effectWork agent (fun j => run ((l.iteration, j) :: path))
        (fun j => work ((l.iteration, j) :: path)) (env.script path l.iteration).effect l.state
          e).runs = _ := runs_effectWork (fun j => hrun ((l.iteration, j) :: path)) e
    simp only [LoopState.absorb, TreeLog.append, List.length_append, heffect]
    rfl

theorem runs_visited
    (hrun : ∀ path child task options, (work path child task options).runs + 1 =
      (run path child task options).tree.depths.length) (path : RunPath) (agent : Agent)
    (deadline : Option Duration) (fuel : Nat) (l : LoopState) :
    (drive (LoopState.turn (env.execute run path agent) (env.script path) deadline) fuel
        l).1.children.depths.length =
      l.children.depths.length +
        ((visited (LoopState.turn (env.execute run path agent) (env.script path) deadline) fuel
          l).map fun l => (turnWork env run work path agent l).runs).sum := by
  induction fuel generalizing l with
  | zero => rfl
  | succ fuel ih =>
    have hturn := runs_turnWork env hrun path agent deadline l
    rw [drive, visited, List.map_cons, List.sum_cons]
    cases ht : l.turn (env.execute run path agent) (env.script path) deadline with
    | next l' =>
      rw [ht] at hturn
      have hrest := ih l'
      simp only [Turn.state] at hturn
      simp only
      omega
    | ended l' result =>
      rw [ht] at hturn
      exact hturn
    | blocked l' =>
      rw [ht] at hturn
      exact hturn

/-- The work of a tree has a run for each run of its log but the first. -/
theorem runs_runWork (fuel : Nat) (path : RunPath) (agent : Agent)
    (userMessage : String) (options : RunOptions) :
    (runWork env fuel path agent userMessage options).runs + 1 =
      (runAgent env fuel path agent userMessage options).tree.depths.length := by
  induction fuel generalizing path agent userMessage options with
  | zero => rfl
  | succ fuel ih =>
    rw [runWork, runAgent, startRun]
    cases agent.prepareState (env.runId path) (Agent.compileMessages userMessage options)
        options with
    | error e => rfl
    | ok s =>
      have hvisited := runs_visited env ih path agent options.deadline fuel (.start s)
      simp only [Work.runs_seqAll, List.map_map, List.length_cons, hvisited]
      simp [LoopState.start, TreeLog.empty, Function.comp_def]

end

/-! Where delegations go on alone, the limit of each run is a limit of the tree. -/

/-- Each invocation in flight counts the same. -/
abbrev perInvocation (_ : ToolInvocation) : Nat := 1

theorem peak_chunksWork_le {α : Type} {failing n : Nat} {call : α → MemberReport}
    {work : α → Work ToolInvocation}
    (hone : ∀ a, (work a).runless = true → (work a).peak perInvocation ≤ 1)
    (hle : ∀ a, (work a).alone = true → (work a).peak perInvocation ≤ n)
    {chunks : List (List α)} (hlen : ∀ chunk ∈ chunks, chunk.length ≤ n)
    (h : (chunksWork failing call work chunks).alone = true) :
    (chunksWork failing call work chunks).peak perInvocation ≤ n := by
  induction chunks with
  | nil => exact Nat.zero_le _
  | cons chunk rest ih =>
    have hchunk : (chunk.map work).length ≤ n := by
      rw [List.length_map]
      exact hlen chunk List.mem_cons_self
    have hones : ∀ w ∈ chunk.map work, w.runless = true → w.peak perInvocation ≤ 1 :=
      List.forall_mem_map.mpr fun a _ => hone a
    have htogether (ha : (Work.parAll (chunk.map work)).alone = true) :
        (Work.parAll (chunk.map work)).peak perInvocation ≤ n :=
      Work.peak_parAll_le _ ha hchunk hones (List.forall_mem_map.mpr fun a _ => hle a)
    rw [chunksWork] at h ⊢
    cases hjoin : tryJoinAll failing (chunk.map call) with
    | none =>
      simp only [hjoin] at h ⊢
      exact htogether h
    | some result =>
      cases result with
      | error e =>
        simp only [hjoin] at h ⊢
        exact Nat.le_trans (Work.peak_parAll_of_runless _ h hones) hchunk
      | ok outcomes =>
        cases houtputs : toolOutputs outcomes with
        | error e =>
          simp only [hjoin, houtputs] at h ⊢
          exact htogether h
        | ok new =>
          simp only [hjoin, houtputs, Work.alone, Bool.and_eq_true] at h ⊢
          have hrest := ih (fun c hc => hlen c (List.mem_cons_of_mem _ hc)) h.2
          have hfirst := htogether h.1
          have hresidue := Work.residue_of_alone perInvocation h.1
          simp only [Work.peak]
          omega

section

variable [ArgumentSchema] {agent : Agent}
  {runChild : Nat → Agent → String → RunOptions → RunReport}
  {childWork : Nat → Agent → String → RunOptions → Work ToolInvocation} {script : EffectScript}
  {s : AgentRunState}

theorem peak_callWork_le
    (hchild : ∀ i child task options, (childWork i child task options).alone = true →
      (childWork i child task options).peak perInvocation ≤ max options.maxParallelToolCalls.val 1)
    (i : Nat) (call : ToolEffectCall) :
    ((callWork agent runChild childWork script s i call).runless = true →
        (callWork agent runChild childWork script s i call).peak perInvocation ≤ 1) ∧
      ((callWork agent runChild childWork script s i call).alone = true →
        (callWork agent runChild childWork script s i call).peak perInvocation ≤
          max s.plan.maxParallelToolCalls.val 1) := by
  have hwork : CallWork agent runChild childWork script s i call
      (callWork agent runChild childWork script s i call) := callWork_cases i call
  generalize callWork agent runChild childWork script s i call = w at hwork ⊢
  cases hwork with
  | done => exact ⟨fun _ => Nat.zero_le _, fun _ => Nat.zero_le _⟩
  | task => exact ⟨fun _ => Nat.le_refl _, fun _ => Nat.le_max_right _ _⟩
  | run childAgent task options parallel =>
    refine ⟨fun h => (by cases h), fun h => ?_⟩
    rw [← parallel]
    exact hchild i childAgent task options h

theorem peak_effectWork_le [JsonText] [RequestText]
    (hchild : ∀ i child task options, (childWork i child task options).alone = true →
      (childWork i child task options).peak perInvocation ≤ max options.maxParallelToolCalls.val 1)
    {e : AgentRunEffect} (h : (effectWork agent runChild childWork script s e).alone = true) :
    (effectWork agent runChild childWork script s e).peak perInvocation ≤
      max s.plan.maxParallelToolCalls.val 1 := by
  unfold effectWork at h ⊢
  cases hv : validateEffectStateHistory s with
  | error err => exact Nat.zero_le _
  | ok =>
    cases hp : agent.validateStatePlan s with
    | error err => exact Nat.zero_le _
    | ok =>
      simp only [hv, hp] at h ⊢
      by_cases hnext : s.nextEffect = some e
      · simp only [hnext, ne_eq, not_true, if_false] at h ⊢
        cases e with
        | providerCall id providerCallId round request => exact Nat.zero_le _
        | toolCall id invocation arguments policy delegationBudget =>
          exact (peak_callWork_le hchild 0 _).2 h
        | toolBatch id calls =>
          refine peak_chunksWork_le
            (fun p : ToolEffectCall × Nat => (peak_callWork_le hchild p.2 p.1).1)
            (fun p => (peak_callWork_le hchild p.2 p.1).2) (fun chunk hc => ?_) h
          exact length_le_of_mem_chunksFrom (by simp) hc
      · simp only [ne_eq, hnext, not_false_eq_true, if_true]
        exact Nat.zero_le _

end

section

variable [JsonText] [RequestText] [ArgumentSchema]

theorem peak_runWork_le (env : Environment) {fuel : Nat} {path : RunPath} {agent : Agent}
    {userMessage : String} {options : RunOptions}
    (h : (runWork env fuel path agent userMessage options).alone = true) :
    (runWork env fuel path agent userMessage options).peak perInvocation ≤
      max options.maxParallelToolCalls.val 1 := by
  induction fuel generalizing path agent userMessage options with
  | zero => exact Nat.zero_le _
  | succ fuel ih =>
    rw [runWork] at h ⊢
    cases hs : agent.prepareState (env.runId path) (Agent.compileMessages userMessage options)
        options with
    | error e => exact Nat.zero_le _
    | ok s =>
      simp only [hs] at h ⊢
      refine Work.peak_seqAll_le _ h (List.forall_mem_map.mpr fun l hl ha => ?_)
      have hplan : l.state.plan = s.plan :=
        (reaches_of_mem_visited hl).invariant (I := fun l => l.state.plan = s.plan) rfl
          fun u v hu hv => (LoopState.plan_of_next hv).trans hu
      have hlimit : max l.state.plan.maxParallelToolCalls.val 1 =
          max options.maxParallelToolCalls.val 1 := by
        obtain ⟨_, _, rfl⟩ := Agent.prepareState_eq_ok_iff.mp hs
        rw [hplan]
        simp [AgentRunState.withPlan, Agent.runPlan]
      rw [turnWork] at ha ⊢
      cases hoffered : l.offered (env.script path) with
      | none => exact Nat.zero_le _
      | some e =>
        simp only [hoffered] at ha ⊢
        rw [← hlimit]
        exact peak_effectWork_le (fun i child task options ha => ih ha) ha

/-- For every tree of runs, at every moment of every schedule, at most as many tool invocations
are in flight as the root may have in parallel: exactly where the peak of the tree is within this
limit, so wherever no delegation goes on beside another call. The work whose schedules these are
has a run for each run of the tree. -/
theorem tree_concurrency_iff (env : Environment) (fuel : Nat) (path : RunPath) (agent : Agent)
    (userMessage : String) (options : RunOptions) :
    ((∀ c, Config.Reaches ⟨runWork env fuel path agent userMessage options, 0⟩ c →
        c.inFlight perInvocation ≤ max options.maxParallelToolCalls.val 1) ↔
      (runWork env fuel path agent userMessage options).peak perInvocation ≤
        max options.maxParallelToolCalls.val 1) ∧
    ((runWork env fuel path agent userMessage options).alone = true →
      (runWork env fuel path agent userMessage options).peak perInvocation ≤
        max options.maxParallelToolCalls.val 1) ∧
    (runWork env fuel path agent userMessage options).runs + 1 =
      (runAgent env fuel path agent userMessage options).tree.depths.length :=
  ⟨Config.inFlight_le_iff, peak_runWork_le env,
    runs_runWork env fuel path agent userMessage options⟩

end

namespace Sample

def worker : Agent :=
  { agent false with
    tools := [.ordinary { name := lookup, maxAttempts := 1, parallelSafe := true }
      { name := lookup, description := "Looks up.", schema := .null, idempotent := false }] }

def manager (how : Registration) : Agent :=
  { agent false with tools := [DelegationTool.freeze .null { helper with child := worker } how] }

def askTwice : Environment :=
  let _ := jsonText
  environment fun i => iteration [answering (if i = 0 then
    callsResponse [call "a" (.object []), call "b" (.object [])] else textResponse "done")]
    [.output .null]

def twoAtOnce : RunOptions := { modelCallLimit := 20, maxParallelToolCalls := 2 }

end Sample

/-- The children go on one after another, each with two tools at a time. -/
theorem serial_children_within_limit :
    let _ := Sample.jsonText
    let _ := Sample.requestText
    let _ := Sample.argumentSchema
    let work := runWork Sample.askTwice 5 [] (Sample.manager .delegate) "hello" Sample.twoAtOnce
    work.peak perInvocation = 2 ∧
      ∀ c, Config.Reaches ⟨work, 0⟩ c → c.inFlight perInvocation ≤ 2 := by
  intro _ _ _ work
  have halone : work.alone = true := by decide +kernel
  have hiff := tree_concurrency_iff Sample.askTwice 5 [] (Sample.manager .delegate) "hello"
    Sample.twoAtOnce
  exact ⟨by decide +kernel, hiff.1.mpr (hiff.2.1 halone)⟩

/-- Two children go on at the same time, each with two tools at a time. -/
theorem parallel_children_exceed_limit :
    ¬ ∀ (_ : JsonText) (_ : RequestText) (_ : ArgumentSchema) (env : Environment) (fuel : Nat)
      (path : RunPath) (agent : Agent) (userMessage : String) (options : RunOptions)
      (c : Config ToolInvocation),
      Config.Reaches ⟨runWork env fuel path agent userMessage options, 0⟩ c →
      c.inFlight perInvocation ≤ max options.maxParallelToolCalls.val 1 := by
  intro claim
  let _ := Sample.jsonText
  let _ := Sample.requestText
  let _ := Sample.argumentSchema
  have hpeak : (runWork Sample.askTwice 5 [] (Sample.manager .delegateParallel) "hello"
      Sample.twoAtOnce).peak perInvocation = 4 := by decide +kernel
  have hle := Config.inFlight_le_iff.mp (claim Sample.jsonText Sample.requestText
    Sample.argumentSchema Sample.askTwice 5 [] (Sample.manager .delegateParallel) "hello"
    Sample.twoAtOnce)
  rw [hpeak] at hle
  exact absurd hle (by decide)

end Agentive
