import Agentive.SnapshotCalls

/-! How often the code of a tool runs: the calls that a tool effect enters, attempt after attempt,
and what each of them meets. -/

namespace Agentive

/-- How the wait before a retry ends. -/
inductive RetryWait
  | cancelled
  | deadline
  | elapsed
deriving DecidableEq

/-- How the future of a call ends in `select!`, or that it never does. -/
inductive CallEnd
  | pending
  | cancelled
  | deadline
  | panicked
  | output (output : Value)
  | error (error : ToolError) (wait : RetryWait)

/-- What an attempt meets: a cancellation before its call, a call that unwinds without a future, or
the end of the future that it polls. -/
inductive ToolAttemptEnd
  | cancelledBefore
  | unwound
  | polled (ending : CallEnd)

structure ToolBehaviour where
  elapsed : Duration
  ending : ToolAttemptEnd

def ToolAttemptEnd.toAttempt : ToolAttemptEnd → ToolAttempt
  | .cancelledBefore | .polled .cancelled | .polled .deadline => .interrupted
  | .unwound | .polled .panicked => .panicked
  | .polled .pending => .pending
  | .polled (.output output) => .output output
  | .polled (.error e wait) => .error e (wait != .elapsed)

/-- The attempt meets a cancellation of its run or the end of its time. -/
def ToolAttemptEnd.cancels : ToolAttemptEnd → Bool
  | .cancelledBefore | .polled .cancelled | .polled .deadline => true
  | .polled (.error _ wait) => wait != .elapsed
  | _ => false

/-- A call of `Tool::call` that has been entered. -/
structure ToolEntry where
  context : ToolContext
  arguments : Value
  ending : ToolAttemptEnd

structure ToolTrace where
  outcome : Option (Except RunError AgentEffectOutcome)
  entries : List ToolEntry

def ToolTrace.entering (entry : ToolEntry) (trace : ToolTrace) : ToolTrace :=
  { trace with entries := entry :: trace.entries }

/-- The context that an attempt calls its tool with. -/
def ToolBehaviour.context (behaviour : ToolBehaviour) (invocation : ToolInvocation)
    (remaining : Option Duration) (delegation : U8 × U8) (attempt : U8) : ToolContext :=
  { invocation
    attempt
    remainingTime := remaining.map fun value => Nat.sub value behaviour.elapsed
    delegationDepth := delegation.1
    maxDelegationDepth := delegation.2 }

/-- The retry loop of an ordinary tool with the calls that it enters. -/
def executeToolEffectTraced (policy : ToolRuntimePolicy) (invocation : ToolInvocation)
    (arguments : Value) (remaining : Option Duration) (delegation : U8 × U8) :
    List ToolBehaviour → U8 → ToolTrace
  | [], _ => { outcome := none, entries := [] }
  | behaviour :: rest, attempt =>
    let context := behaviour.context invocation remaining delegation attempt
    let entry : ToolEntry := { context, arguments, ending := behaviour.ending }
    let entered outcome : ToolTrace := { outcome, entries := [entry] }
    match behaviour.ending with
    | .cancelledBefore => { outcome := some (.error .cancelled), entries := [] }
    | .unwound => entered (some (.ok (panickedToolOutcome attempt)))
    | .polled .pending => entered none
    | .polled .cancelled | .polled .deadline => entered (some (.error .cancelled))
    | .polled .panicked => entered (some (.ok (panickedToolOutcome attempt)))
    | .polled (.output output) => entered (some (.ok (.tool output attempt none)))
    | .polled (.error e wait) =>
      if e.retryable && policy.idempotent && decide (attempt < policy.maxAttempts) then
        match wait with
        | .cancelled | .deadline => entered (some (.error .cancelled))
        | .elapsed =>
          (executeToolEffectTraced policy invocation arguments remaining delegation rest
            (attempt.saturatingAdd 1)).entering entry
      else entered (some (.ok (.tool (.ofError e.code e.message) attempt none)))

structure MemberBehaviour where
  reached : Bool
  attempts : List ToolBehaviour
  parentCancelled : Bool

structure EffectBehaviour where
  attempts : List AttemptScript
  member : Nat → MemberBehaviour
  failing : Nat

def MemberBehaviour.toScript (b : MemberBehaviour) : MemberScript :=
  { reached := b.reached
    attempts := b.attempts.map (·.ending.toAttempt)
    parentCancelled := b.parentCancelled }

def EffectBehaviour.toScript (b : EffectBehaviour) : EffectScript :=
  { attempts := b.attempts, member := fun i => (b.member i).toScript, failing := b.failing }

section

variable [ArgumentSchema] (agent : Agent)
  (runChild : Nat → Agent → String → RunOptions → RunReport) (behaviour : EffectBehaviour)
  (s : AgentRunState)

/-- `execute_one_tool` with the calls that it enters. A delegation is not called as a tool. -/
def executeOneToolTraced (i : Nat) (call : ToolEffectCall) : MemberReport × List ToolEntry :=
  if !(behaviour.member i).reached then (.pending, [])
  else match call.policy with
    | none => (.ended (.ok notFound), [])
    | some policy =>
      match agent.tools.find? (fun tool => tool.tool.name = call.invocation.toolName) with
      | none => (.ended (.ok notFound), [])
      | some tool =>
        if !validateToolArguments call.arguments policy.descriptor.schema then
          (.ended (.ok invalidArguments), [])
        else match tool.asDelegation with
          | some childTool =>
            (childTool.execute (runChild i) (behaviour.member i).parentCancelled call.arguments
              (delegationExecution s call.delegationBudget), [])
          | none =>
            let trace := executeToolEffectTraced policy call.invocation call.arguments
              (remainingTime s) (s.plan.delegationDepth, s.plan.maxDelegationDepth)
              (behaviour.member i).attempts 1
            ({ outcome := trace.outcome, children := .empty }, trace.entries)

/-- The calls that an effect enters, each with the place of its tool call. -/
def enteredCalls (effect : AgentRunEffect) : List (Nat × ToolEntry) :=
  (executedCalls agent runChild behaviour.toScript s effect).flatMap fun p =>
    (executeOneToolTraced agent runChild behaviour s p.2 p.1).2.map (Prod.mk p.2)

/-- Those that it enters for the tool call at a place. -/
def enteredAt (effect : AgentRunEffect) (i : Nat) : List ToolEntry :=
  ((enteredCalls agent runChild behaviour s effect).filter fun p => p.1 = i).map Prod.snd

end

section

variable {policy : ToolRuntimePolicy} {invocation : ToolInvocation} {arguments : Value}
  {remaining : Option Duration} {delegation : U8 × U8} {behaviour : ToolBehaviour}
  {rest behaviours : List ToolBehaviour} {attempt : U8}

/-- The error of an attempt that is followed by another one. -/
structure ToolBehaviour.Retried (behaviour : ToolBehaviour) (policy : ToolRuntimePolicy)
    (attempt : U8) : Prop where
  error : ∃ e, behaviour.ending = .polled (.error e .elapsed) ∧ e.retryable = true
  idempotent : policy.idempotent = true
  room : attempt < policy.maxAttempts

/-- An attempt ends before its call, or it enters its call: the last one, or one that is retried. -/
theorem executeToolEffectTraced_cases (policy : ToolRuntimePolicy) (invocation : ToolInvocation)
    (arguments : Value) (remaining : Option Duration) (delegation : U8 × U8)
    (behaviour : ToolBehaviour) (rest : List ToolBehaviour) (attempt : U8) :
    let trace := executeToolEffectTraced policy invocation arguments remaining delegation
      (behaviour :: rest) attempt
    let entry : ToolEntry :=
      ⟨behaviour.context invocation remaining delegation attempt, arguments, behaviour.ending⟩
    (behaviour.ending = .cancelledBefore ∧ trace = ⟨some (.error .cancelled), []⟩) ∨
      (trace.entries = [entry] ∧
        (behaviour.ending = .polled .pending ∧ trace.outcome = none ∨
          behaviour.ending.cancels = true ∧ trace.outcome = some (.error .cancelled) ∨
          ∃ output, trace.outcome = some (.ok (.tool output attempt none)))) ∨
      behaviour.Retried policy attempt ∧
        trace = (executeToolEffectTraced policy invocation arguments remaining delegation rest
          (attempt.saturatingAdd 1)).entering entry := by
  obtain ⟨elapsed, ending⟩ := behaviour
  cases ending with
  | cancelledBefore => exact .inl ⟨rfl, rfl⟩
  | unwound => exact .inr (.inl ⟨rfl, .inr (.inr ⟨_, rfl⟩)⟩)
  | polled ending =>
    cases ending with
    | pending => exact .inr (.inl ⟨rfl, .inl ⟨rfl, rfl⟩⟩)
    | cancelled => exact .inr (.inl ⟨rfl, .inr (.inl ⟨rfl, rfl⟩)⟩)
    | deadline => exact .inr (.inl ⟨rfl, .inr (.inl ⟨rfl, rfl⟩)⟩)
    | panicked => exact .inr (.inl ⟨rfl, .inr (.inr ⟨_, rfl⟩)⟩)
    | output output => exact .inr (.inl ⟨rfl, .inr (.inr ⟨_, rfl⟩)⟩)
    | error e wait =>
      simp only [executeToolEffectTraced]
      by_cases hretry : (e.retryable && policy.idempotent && decide (attempt < policy.maxAttempts))
          = true
      · rw [if_pos hretry]
        simp only [Bool.and_eq_true, decide_eq_true_eq] at hretry
        cases wait with
        | cancelled => exact .inr (.inl ⟨rfl, .inr (.inl ⟨rfl, rfl⟩)⟩)
        | deadline => exact .inr (.inl ⟨rfl, .inr (.inl ⟨rfl, rfl⟩)⟩)
        | elapsed =>
          exact .inr (.inr ⟨⟨⟨e, rfl, hretry.1.1⟩, hretry.1.2, hretry.2⟩, rfl⟩)
      · rw [if_neg hretry]
        exact .inr (.inl ⟨rfl, .inr (.inr ⟨_, rfl⟩)⟩)

theorem executeToolEffectTraced_outcome (behaviours : List ToolBehaviour) (attempt : U8) :
    (executeToolEffectTraced policy invocation arguments remaining delegation behaviours
      attempt).outcome =
      executeToolEffect policy (behaviours.map (·.ending.toAttempt)) attempt := by
  induction behaviours generalizing attempt with
  | nil => rfl
  | cons behaviour rest ih =>
    obtain ⟨elapsed, ending⟩ := behaviour
    rw [List.map_cons]
    cases ending with
    | cancelledBefore => rfl
    | unwound => rfl
    | polled ending =>
      cases ending with
      | pending => rfl
      | cancelled => rfl
      | deadline => rfl
      | panicked => rfl
      | output output => rfl
      | error e wait =>
        simp only [executeToolEffectTraced, ToolAttemptEnd.toAttempt, executeToolEffect]
        cases e.retryable && policy.idempotent && decide (attempt < policy.maxAttempts) with
        | false => rfl
        | true =>
          cases wait with
          | cancelled => rfl
          | deadline => rfl
          | elapsed => exact ih (attempt.saturatingAdd 1)

theorem ToolBehaviour.Retried.next (h : behaviour.Retried policy attempt) :
    (attempt.saturatingAdd 1).val = attempt.val + 1 := by
  have hlt := h.room
  have hle := policy.maxAttempts.le_cap
  rw [Capped.lt_def] at hlt
  rw [Capped.val_saturatingAdd, Capped.val_one]
  omega

theorem executeToolEffectTraced_numbers (behaviours : List ToolBehaviour) (attempt : U8) :
    let entries := (executeToolEffectTraced policy invocation arguments remaining delegation
      behaviours attempt).entries
    entries.map (·.context.attempt.val) = List.range' attempt.val entries.length := by
  induction behaviours generalizing attempt with
  | nil => rfl
  | cons behaviour rest ih =>
    rcases executeToolEffectTraced_cases policy invocation arguments remaining delegation behaviour
      rest attempt with ⟨_, htrace⟩ | ⟨hentries, _⟩ | ⟨hretried, htrace⟩
    · simp only [htrace]
      rfl
    · simp only [hentries]
      rfl
    · have hrest := ih (attempt.saturatingAdd 1)
      rw [hretried.next] at hrest
      simp only [htrace, ToolTrace.entering, List.map_cons, List.length_cons, List.range'_succ,
        hrest]
      rfl

theorem executeToolEffectTraced_same (behaviours : List ToolBehaviour) (attempt : U8)
    {entry : ToolEntry}
    (h : entry ∈ (executeToolEffectTraced policy invocation arguments remaining delegation
      behaviours attempt).entries) :
    entry.context.invocation = invocation ∧ entry.arguments = arguments := by
  induction behaviours generalizing attempt with
  | nil => cases h
  | cons behaviour rest ih =>
    rcases executeToolEffectTraced_cases policy invocation arguments remaining delegation behaviour
      rest attempt with ⟨_, htrace⟩ | ⟨hentries, _⟩ | ⟨_, htrace⟩
    · rw [htrace] at h
      cases h
    · rw [hentries, List.mem_singleton] at h
      exact h ▸ ⟨rfl, rfl⟩
    · rw [htrace] at h
      rcases List.mem_cons.mp h with rfl | hmem
      · exact ⟨rfl, rfl⟩
      · exact ih _ hmem

theorem executeToolEffectTraced_retried (behaviours : List ToolBehaviour) (attempt : U8)
    {entry : ToolEntry}
    (h : entry ∈ (executeToolEffectTraced policy invocation arguments remaining delegation
      behaviours attempt).entries.dropLast) :
    ∃ e, entry.ending = .polled (.error e .elapsed) ∧ e.retryable = true := by
  induction behaviours generalizing attempt with
  | nil => cases h
  | cons behaviour rest ih =>
    rcases executeToolEffectTraced_cases policy invocation arguments remaining delegation behaviour
      rest attempt with ⟨_, htrace⟩ | ⟨hentries, _⟩ | ⟨hretried, htrace⟩
    · rw [htrace] at h
      cases h
    · rw [hentries] at h
      cases h
    · generalize hnext : executeToolEffectTraced policy invocation arguments remaining delegation
        rest (attempt.saturatingAdd 1) = next at htrace
      rw [htrace] at h
      obtain ⟨outcome, entries⟩ := next
      cases entries with
      | nil => cases h
      | cons second later =>
        simp only [ToolTrace.entering, List.dropLast_cons_cons, List.mem_cons] at h
        rcases h with rfl | hmem
        · exact hretried.error
        · exact ih (attempt.saturatingAdd 1) (by rw [hnext]; exact hmem)

/-- The calls that a policy allows. -/
def ToolRuntimePolicy.allowedCalls (policy : ToolRuntimePolicy) : Nat :=
  if policy.idempotent then Nat.max 1 policy.maxAttempts.val else 1

/-- Those that are left to a loop which is at an attempt. -/
def ToolRuntimePolicy.allowedFrom (policy : ToolRuntimePolicy) (attempt : U8) : Nat :=
  if policy.idempotent then Nat.max 1 (policy.maxAttempts.val + 1 - attempt.val) else 1

theorem ToolRuntimePolicy.allowedFrom_one (policy : ToolRuntimePolicy) :
    policy.allowedFrom 1 = policy.allowedCalls := rfl

theorem ToolRuntimePolicy.allowedFrom_pos (policy : ToolRuntimePolicy) (attempt : U8) :
    0 < policy.allowedFrom attempt := by
  unfold allowedFrom
  split
  · exact Nat.le_max_left _ _
  · exact Nat.one_pos

theorem ToolBehaviour.Retried.allowedFrom (h : behaviour.Retried policy attempt) :
    policy.allowedFrom attempt = policy.allowedFrom (attempt.saturatingAdd 1) + 1 := by
  have hroom := h.room
  rw [Capped.lt_def] at hroom
  have hmax {n : Nat} (hn : 1 ≤ n) : Nat.max 1 n = n := Nat.max_eq_right hn
  simp only [ToolRuntimePolicy.allowedFrom, if_pos h.idempotent, h.next]
  rw [hmax (by omega), hmax (by omega)]
  omega

theorem executeToolEffectTraced_length (behaviours : List ToolBehaviour) (attempt : U8) :
    (executeToolEffectTraced policy invocation arguments remaining delegation behaviours
      attempt).entries.length ≤ policy.allowedFrom attempt := by
  induction behaviours generalizing attempt with
  | nil => exact Nat.zero_le _
  | cons behaviour rest ih =>
    rcases executeToolEffectTraced_cases policy invocation arguments remaining delegation behaviour
      rest attempt with ⟨_, htrace⟩ | ⟨hentries, _⟩ | ⟨hretried, htrace⟩
    · rw [htrace]
      exact Nat.zero_le _
    · rw [hentries]
      exact policy.allowedFrom_pos attempt
    · rw [htrace, hretried.allowedFrom]
      exact Nat.succ_le_succ (ih (attempt.saturatingAdd 1))

theorem executeToolEffectTraced_none (behaviours : List ToolBehaviour) (attempt : U8)
    (h : (executeToolEffectTraced policy invocation arguments remaining delegation behaviours
      attempt).outcome = none) :
    (∃ b ∈ behaviours, b.ending = .polled .pending) ∨
      behaviours.length < policy.allowedFrom attempt := by
  induction behaviours generalizing attempt with
  | nil => exact .inr (policy.allowedFrom_pos attempt)
  | cons behaviour rest ih =>
    rcases executeToolEffectTraced_cases policy invocation arguments remaining delegation behaviour
      rest attempt with
      ⟨_, htrace⟩ | ⟨_, ⟨hpending, _⟩ | ⟨_, hcancelled⟩ | ⟨_, houtcome⟩⟩ | ⟨hretried, htrace⟩
    · rw [htrace] at h
      cases h
    · exact .inl ⟨behaviour, List.mem_cons_self, hpending⟩
    · rw [hcancelled] at h
      cases h
    · rw [houtcome] at h
      cases h
    · rw [htrace] at h
      rcases ih _ h with ⟨b, hb, hpending⟩ | hshort
      · exact .inl ⟨b, List.mem_cons_of_mem _ hb, hpending⟩
      · refine .inr ?_
        rw [List.length_cons, hretried.allowedFrom]
        exact Nat.succ_lt_succ hshort

theorem executeToolEffectTraced_error (behaviours : List ToolBehaviour) (attempt : U8)
    {e : RunError}
    (h : (executeToolEffectTraced policy invocation arguments remaining delegation behaviours
      attempt).outcome = some (.error e)) :
    e = .cancelled ∧ ∃ b ∈ behaviours, b.ending.cancels = true := by
  induction behaviours generalizing attempt with
  | nil => cases h
  | cons behaviour rest ih =>
    rcases executeToolEffectTraced_cases policy invocation arguments remaining delegation behaviour
      rest attempt with
      ⟨hbefore, htrace⟩ | ⟨_, ⟨_, hnone⟩ | ⟨hcancels, hcancelled⟩ | ⟨_, houtcome⟩⟩ |
        ⟨_, htrace⟩
    · rw [htrace] at h
      cases h
      exact ⟨rfl, behaviour, List.mem_cons_self, by rw [hbefore]; rfl⟩
    · rw [hnone] at h
      cases h
    · rw [hcancelled] at h
      cases h
      exact ⟨rfl, behaviour, List.mem_cons_self, hcancels⟩
    · rw [houtcome] at h
      cases h
    · rw [htrace] at h
      obtain ⟨he, b, hb, hcancels⟩ := ih _ h
      exact ⟨he, b, List.mem_cons_of_mem _ hb, hcancels⟩

end

/-- Of a log by distinct places, what belongs to one place. -/
theorem log_at_place {α β : Type} {as : List (α × Nat)} (h : (as.map Prod.snd).Nodup)
    (log : α × Nat → List β) (i : Nat) :
    (((as.flatMap fun a => (log a).map (Prod.mk a.2)).filter fun p => p.1 = i).map Prod.snd = [] ∨
      ∃ a ∈ as, a.2 = i ∧
        ((as.flatMap fun a => (log a).map (Prod.mk a.2)).filter fun p => p.1 = i).map Prod.snd =
          log a) := by
  induction as with
  | nil => exact .inl rfl
  | cons a as ih =>
    rw [List.map_cons, List.nodup_cons] at h
    simp only [List.flatMap_cons, List.filter_append, List.map_append]
    by_cases hplace : a.2 = i
    · have hhead : ((log a).map (Prod.mk a.2)).filter (fun p => p.1 = i) =
          (log a).map (Prod.mk a.2) := List.filter_eq_self.mpr (by simp [hplace])
      have htail : ((as.flatMap fun a => (log a).map (Prod.mk a.2)).filter
          fun p => p.1 = i) = [] := by
        rw [List.filter_eq_nil_iff]
        intro p hp
        obtain ⟨b, hb, hp⟩ := List.mem_flatMap.mp hp
        obtain ⟨entry, _, rfl⟩ := List.mem_map.mp hp
        simp only [decide_eq_true_eq]
        intro hsame
        exact h.1 (List.mem_map.mpr ⟨b, hb, hsame.trans hplace.symm⟩)
      refine .inr ⟨a, List.mem_cons_self, hplace, ?_⟩
      rw [hhead, htail]
      simp [Function.comp_def]
    · have hhead : ((log a).map (Prod.mk a.2)).filter (fun p => p.1 = i) = [] := by
        rw [List.filter_eq_nil_iff]
        intro p hp
        obtain ⟨entry, _, rfl⟩ := List.mem_map.mp hp
        simpa using hplace
      rw [hhead, List.map_nil, List.nil_append]
      rcases ih h.2 with hnil | ⟨b, hb, hi, hlog⟩
      · exact .inl hnil
      · exact .inr ⟨b, List.mem_cons_of_mem _ hb, hi, hlog⟩

/-- What the entered calls of a tool call have in common, and why there is more than one. -/
structure Entered [ArgumentSchema] (agent : Agent) (call : ToolEffectCall)
    (entries : List ToolEntry) : Prop where
  numbers : entries.map (·.context.attempt.val) = List.range' 1 entries.length
  same : ∀ entry ∈ entries,
    entry.context.invocation = call.invocation ∧ entry.arguments = call.arguments
  retried : ∀ entry ∈ entries.dropLast,
    ∃ e, entry.ending = .polled (.error e .elapsed) ∧ e.retryable = true
  bounded : ∀ policy, call.policy = some policy → entries.length ≤ policy.allowedCalls
  gated : entries ≠ [] → ∃ policy tool, call.policy = some policy ∧
    agent.tools.find? (fun tool => tool.tool.name = call.invocation.toolName) = some tool ∧
    tool.asDelegation = none ∧
    validateToolArguments call.arguments policy.descriptor.schema = true

section

variable [ArgumentSchema] {agent : Agent}
  {runChild : Nat → Agent → String → RunOptions → RunReport} {behaviour : EffectBehaviour}
  {s : AgentRunState} {i : Nat} {call : ToolEffectCall}

theorem Entered.nil (agent : Agent) (call : ToolEffectCall) : Entered agent call [] :=
  { numbers := rfl
    same := fun _ h => by cases h
    retried := fun _ h => by cases h
    bounded := fun _ _ => Nat.zero_le _
    gated := fun h => absurd rfl h }

theorem executeOneToolTraced_fst (i : Nat) (call : ToolEffectCall) :
    (executeOneToolTraced agent runChild behaviour s i call).1 =
      executeOneTool agent runChild behaviour.toScript s i call := by
  have hreached : (behaviour.toScript.member i).reached = (behaviour.member i).reached := rfl
  unfold executeOneToolTraced executeOneTool
  rw [hreached]
  cases (behaviour.member i).reached with
  | false => rfl
  | true =>
    cases call.policy with
    | none => rfl
    | some policy =>
      cases hfind : agent.tools.find? fun tool => tool.tool.name = call.invocation.toolName with
      | none => rfl
      | some tool =>
        dsimp only
        cases validateToolArguments call.arguments policy.descriptor.schema with
        | false => rfl
        | true =>
          cases tool.asDelegation with
          | some childTool => rfl
          | none =>
            simp only [executeToolEffectTraced_outcome]
            rfl

variable (agent runChild behaviour s) in
/-- Calls are entered only behind the policy, the registry and the schema. -/
theorem executeOneToolTraced_cases (i : Nat) (call : ToolEffectCall) :
    (executeOneToolTraced agent runChild behaviour s i call).2 = [] ∨
      ∃ policy tool, call.policy = some policy ∧
        agent.tools.find? (fun tool => tool.tool.name = call.invocation.toolName) = some tool ∧
        validateToolArguments call.arguments policy.descriptor.schema = true ∧
        tool.asDelegation = none ∧
        (executeOneToolTraced agent runChild behaviour s i call).2 =
          (executeToolEffectTraced policy call.invocation call.arguments (remainingTime s)
            (s.plan.delegationDepth, s.plan.maxDelegationDepth)
            (behaviour.member i).attempts 1).entries := by
  unfold executeOneToolTraced
  cases (behaviour.member i).reached with
  | false => exact .inl rfl
  | true =>
    cases hpolicy : call.policy with
    | none => exact .inl rfl
    | some policy =>
      cases hfind : agent.tools.find? fun tool => tool.tool.name = call.invocation.toolName with
      | none => exact .inl rfl
      | some tool =>
        cases hvalid : validateToolArguments call.arguments policy.descriptor.schema with
        | false => exact .inl (by simp [hvalid])
        | true =>
          cases hdelegation : tool.asDelegation with
          | some childTool => exact .inl (by simp [hvalid, hdelegation])
          | none =>
            exact .inr ⟨policy, tool, rfl, rfl, hvalid, hdelegation,
              by simp [hvalid, hdelegation]⟩

theorem executeOneToolTraced_entered (i : Nat) (call : ToolEffectCall) :
    Entered agent call (executeOneToolTraced agent runChild behaviour s i call).2 := by
  rcases executeOneToolTraced_cases agent runChild behaviour s i call with
    hnil | ⟨policy, tool, hpolicy, hfind, hvalid, hdelegation, hentries⟩
  · rw [hnil]
    exact .nil agent call
  · rw [hentries]
    refine ⟨executeToolEffectTraced_numbers _ 1, fun entry => executeToolEffectTraced_same _ 1,
      fun entry => executeToolEffectTraced_retried _ 1, fun policy' hpolicy' => ?_,
      fun _ => ⟨policy, tool, hpolicy, hfind, hdelegation, hvalid⟩⟩
    obtain rfl := Option.some.inj (hpolicy.symm.trans hpolicy')
    exact executeToolEffectTraced_length _ 1

theorem executedCalls_places (script : EffectScript) (effect : AgentRunEffect) :
    ((executedCalls agent runChild script s effect).map Prod.snd).Nodup := by
  cases effect with
  | providerCall id providerCallId round request => exact List.nodup_nil
  | toolCall id invocation arguments policy delegationBudget =>
    exact (List.filter_sublist.map Prod.snd).nodup (List.nodup_singleton _)
  | toolBatch id calls =>
    have hsub : (executedCalls agent runChild script s (.toolBatch id calls)).Sublist _ :=
      startedChunks_sublist (chunks (max s.plan.maxParallelToolCalls.val 1) calls.zipIdx)
    rw [List.filterMap_eq_filter, chunks, flatten_chunksFrom, List.nil_append] at hsub
    have hplaces : (calls.zipIdx.map Prod.snd).Nodup := by
      rw [List.zipIdx_map_snd]
      exact List.nodup_range' _
    exact ((hsub.trans List.filter_sublist).map Prod.snd).nodup hplaces

variable (agent runChild behaviour s) in
theorem enteredAt_cases (effect : AgentRunEffect) (i : Nat) :
    enteredAt agent runChild behaviour s effect i = [] ∨
      ∃ call, effect.calls[i]? = some call ∧
        enteredAt agent runChild behaviour s effect i =
          (executeOneToolTraced agent runChild behaviour s i call).2 := by
  rcases log_at_place (executedCalls_places behaviour.toScript effect)
    (fun p => (executeOneToolTraced agent runChild behaviour s p.2 p.1).2) i with
    hnil | ⟨⟨call, j⟩, hp, rfl, hlog⟩
  · exact .inl hnil
  · exact .inr ⟨call, getElem?_of_executed hp, hlog⟩

end

section

variable {α : Type} {failing : Nat} {call : α → MemberReport}

theorem toolOutputs_map (results : List ToolEffectResult) :
    toolOutputs (results.map (·.toOutcome)) = .ok results := by
  induction results with
  | nil => rfl
  | cons result rest ih =>
    rw [List.map_cons, ToolEffectResult.toOutcome, toolOutputs, ih]
    rfl

theorem tryJoinAll_of_answered {as : List α} {results : List ToolEffectResult}
    (h : List.Forall₂ (fun a r => (call a).outcome = some (.ok r.toOutcome)) as results) :
    tryJoinAll failing (as.map call) = some (.ok (results.map (·.toOutcome))) := by
  have houtcomes : (as.map call).map (·.outcome) =
      results.map fun r => some (.ok r.toOutcome) := by
    induction h with
    | nil => rfl
    | cons hhead _ ih => rw [List.map_cons, List.map_cons, List.map_cons, hhead, ih]
  have herror (outcome : Option (Except RunError AgentEffectOutcome))
      (hmem : outcome ∈ results.map fun r => some (.ok r.toOutcome)) :
      callError outcome = none := by
    obtain ⟨r, _, rfl⟩ := List.mem_map.mp hmem
    rfl
  have hfirst : callError ((results.map fun r => some (.ok r.toOutcome)).getD failing none) =
      none := by
    rw [List.getD_eq_getElem?_getD]
    cases hget : (results.map fun r => (some (.ok r.toOutcome) :
        Option (Except RunError AgentEffectOutcome)))[failing]? with
    | none => rfl
    | some outcome => exact herror outcome (List.mem_of_getElem? hget)
  have hall : (results.map fun r => (some (.ok r.toOutcome) :
      Option (Except RunError AgentEffectOutcome))).findSome? callError = none :=
    List.findSome?_eq_none_iff.mpr herror
  have hanswers : (results.map fun r => (some (.ok r.toOutcome) :
      Option (Except RunError AgentEffectOutcome))).mapM callAnswer =
      some (results.map (·.toOutcome)) := by
    clear houtcomes herror hfirst hall h
    induction results with
    | nil => rfl
    | cons r rest ih => simp [callAnswer, ih]
  simp only [tryJoinAll, houtcomes, hfirst, hall, hanswers, Option.or_none, Option.map_some]

variable (failing call) in
theorem executeChunks_of_answered (chunks : List (List α)) (outputs : List ToolEffectResult)
    (h : ∀ a ∈ chunks.flatten, ∃ r : ToolEffectResult, (call a).outcome = some (.ok r.toOutcome)) :
    ∃ results, results.length = outputs.length + chunks.flatten.length ∧
      (executeChunks failing call chunks outputs).outcome = some (.ok (.toolBatch results)) := by
  induction chunks generalizing outputs with
  | nil => exact ⟨outputs, rfl, rfl⟩
  | cons chunk rest ih =>
    rw [List.flatten_cons] at h
    obtain ⟨new, hnew⟩ : ∃ new : List ToolEffectResult,
        List.Forall₂ (fun a r => (call a).outcome = some (.ok r.toOutcome)) chunk new := by
      have hchunk := fun a ha => h a (List.mem_append_left _ ha)
      clear h ih
      induction chunk with
      | nil => exact ⟨[], .nil⟩
      | cons a chunk ih =>
        obtain ⟨r, hr⟩ := hchunk a List.mem_cons_self
        obtain ⟨new, hnew⟩ := ih fun b hb => hchunk b (List.mem_cons_of_mem _ hb)
        exact ⟨r :: new, .cons hr hnew⟩
    obtain ⟨results, hlength, houtcome⟩ := ih (outputs ++ new) fun a ha =>
      h a (List.mem_append_right _ ha)
    refine ⟨results, ?_, ?_⟩
    · rw [hlength, List.flatten_cons, List.length_append, List.length_append, hnew.length_eq]
      omega
    · simp only [executeChunks, tryJoinAll_of_answered hnew, toolOutputs_map]
      exact houtcome

end

/-- The outcome that answers the calls of a tool effect with these results, one for each. -/
def AgentRunEffect.answeredBy : AgentRunEffect → List ToolEffectResult → Option AgentEffectOutcome
  | .toolCall _ _ _ _ _, [result] => some result.toOutcome
  | .toolBatch _ calls, results =>
    if results.length = calls.length then some (.toolBatch results) else none
  | _, _ => none

section

variable [ArgumentSchema] (agent : Agent)
  (runChild : Nat → Agent → String → RunOptions → RunReport) (behaviour : EffectBehaviour)
  (s : AgentRunState)

/-- Nothing cancels the tool call or leaves it pending: what its attempts meet is given for as many
of them as its policy allows, the child run of a delegation ends, and what the schema of a
delegation accepts decodes to its task. -/
structure Settles (i : Nat) (call : ToolEffectCall) : Prop where
  reached : (behaviour.member i).reached = true
  uncancelled : ∀ b ∈ (behaviour.member i).attempts, b.ending.cancels = false
  ending : ∀ b ∈ (behaviour.member i).attempts, b.ending ≠ .polled .pending
  supply : ∀ policy, call.policy = some policy →
    policy.allowedCalls ≤ (behaviour.member i).attempts.length
  child : ∀ tool childTool child,
    agent.tools.find? (fun tool => tool.tool.name = call.invocation.toolName) = some tool →
    tool.asDelegation = some childTool →
    childTool.started (runChild i) call.arguments (delegationExecution s call.delegationBudget) =
      some child → child.report.result ≠ none
  decodes : ∀ policy tool childTool, call.policy = some policy →
    agent.tools.find? (fun tool => tool.tool.name = call.invocation.toolName) = some tool →
    tool.asDelegation = some childTool →
    validateToolArguments call.arguments policy.descriptor.schema = true →
    ∃ task, ArgumentSchema.decodeTask call.arguments = .ok task

variable {agent runChild behaviour s} {i : Nat} {call : ToolEffectCall}

theorem DelegationTool.execute_of_ended {tool : DelegationTool Agent}
    {runChild : Agent → String → RunOptions → RunReport} {arguments : Value}
    {execution : DelegationExecution}
    (hdecodes : ∃ task, ArgumentSchema.decodeTask arguments = .ok task)
    (hchild : ∀ child, tool.started runChild arguments execution = some child →
      child.report.result ≠ none) (parentCancelled : Bool) :
    ∃ o, (tool.execute runChild parentCancelled arguments execution).outcome = some (.ok o) := by
  cases hstarted : tool.started runChild arguments execution with
  | some child =>
    rw [execute_of_started hstarted]
    obtain ⟨result, hresult⟩ := Option.ne_none_iff_exists'.mp (hchild child hstarted)
    simp only [childOutcome, hresult]
    cases parentCancelled with
    | true => exact ⟨_, rfl⟩
    | false =>
      cases result with
      | error e => exact ⟨_, rfl⟩
      | ok result =>
        by_cases hstatus : result.status = .completed ∨ result.status = .incomplete
        · exact ⟨_, by simp only [Bool.false_eq_true, if_false, if_pos hstatus]; rfl⟩
        · exact ⟨_, by simp only [Bool.false_eq_true, if_false, if_neg hstatus]; rfl⟩
  | none =>
    obtain ⟨task, htask⟩ := hdecodes
    unfold started at hstarted
    unfold execute
    simp only [htask] at hstarted ⊢
    by_cases hblank : isBlank task = true
    · rw [if_pos hblank]
      exact ⟨_, rfl⟩
    · rw [if_neg hblank] at hstarted ⊢
      by_cases hdepth : execution.delegation.2 ≤ execution.delegation.1
      · rw [if_pos hdepth]
        exact ⟨_, rfl⟩
      · rw [if_neg hdepth] at hstarted ⊢
        cases hbudget : execution.budget with
        | none => exact ⟨_, rfl⟩
        | some budget =>
          simp only [hbudget] at hstarted ⊢
          by_cases hzero : budget.modelCallLimit = 0 ∨ budget.tokenLimit = some 0
          · rw [if_pos hzero]
            exact ⟨_, rfl⟩
          · rw [if_neg hzero] at hstarted
            cases hstarted

theorem Settles.answered (h : Settles agent runChild behaviour s i call) :
    ∃ r : ToolEffectResult,
      (executeOneTool agent runChild behaviour.toScript s i call).outcome =
        some (.ok r.toOutcome) := by
  suffices hok : ∃ o, (executeOneTool agent runChild behaviour.toScript s i call).outcome =
      some (.ok o) by
    obtain ⟨o, ho⟩ := hok
    obtain ⟨output, attempts, usage, rfl⟩ := executeOneTool_outcome ho
    exact ⟨⟨output, attempts, usage⟩, ho⟩
  rw [← executeOneToolTraced_fst]
  unfold executeOneToolTraced
  rw [h.reached]
  cases hpolicy : call.policy with
  | none => exact ⟨_, rfl⟩
  | some policy =>
    cases hfind : agent.tools.find? fun tool => tool.tool.name = call.invocation.toolName with
    | none => exact ⟨_, rfl⟩
    | some tool =>
      cases hvalid : validateToolArguments call.arguments policy.descriptor.schema with
      | false => exact ⟨_, by simp only [hvalid]; rfl⟩
      | true =>
        cases hdelegation : tool.asDelegation with
        | some childTool =>
          simp only [hvalid, hdelegation]
          exact DelegationTool.execute_of_ended
            (h.decodes policy tool childTool hpolicy hfind hdelegation hvalid)
            (fun child => h.child tool childTool child hfind hdelegation) _
        | none =>
          simp only [hvalid, hdelegation]
          cases houtcome : (executeToolEffectTraced policy call.invocation call.arguments
              (remainingTime s) (s.plan.delegationDepth, s.plan.maxDelegationDepth)
              (behaviour.member i).attempts 1).outcome with
          | none =>
            rcases executeToolEffectTraced_none _ 1 houtcome with ⟨b, hb, hpending⟩ | hshort
            · exact absurd hpending (h.ending b hb)
            · rw [policy.allowedFrom_one] at hshort
              exact absurd hshort (Nat.not_lt.mpr (h.supply policy hpolicy))
          | some result =>
            cases result with
            | ok o => exact ⟨o, rfl⟩
            | error e =>
              obtain ⟨_, b, hb, hcancels⟩ := executeToolEffectTraced_error _ 1 houtcome
              rw [h.uncancelled b hb] at hcancels
              cases hcancels

variable (agent runChild behaviour s) in
/-- The calls that a tool effect enters are as many as the policies allow, each of them but the last
of its tool call has failed retryably, and an effect without a cancellation is answered. -/
theorem tool_calls_repeated_when_safe [JsonText] [RequestText] (effect : AgentRunEffect) :
    (∀ i call, effect.calls[i]? = some call →
      Entered agent call (enteredAt agent runChild behaviour s effect i)) ∧
    (∀ i, effect.calls[i]? = none → enteredAt agent runChild behaviour s effect i = []) ∧
    (effect.isProviderCall = false →
      (∀ i call, effect.calls[i]? = some call → Settles agent runChild behaviour s i call) →
      ∃ results o, effect.answeredBy results = some o ∧
        (executeAdmitted agent runChild behaviour.toScript s effect).outcome = some (.ok o)) := by
  refine ⟨fun i call hcall => ?_, fun i hnone => ?_, fun htool hsettles => ?_⟩
  · rcases enteredAt_cases agent runChild behaviour s effect i with hnil | ⟨call', hcall', hentered⟩
    · rw [hnil]
      exact .nil agent call
    · obtain rfl := Option.some.inj (hcall.symm.trans hcall')
      rw [hentered]
      exact executeOneToolTraced_entered i call
  · rcases enteredAt_cases agent runChild behaviour s effect i with hnil | ⟨call, hcall, _⟩
    · exact hnil
    · rw [hnone] at hcall
      cases hcall
  · cases effect with
    | providerCall id providerCallId round request => cases htool
    | toolCall id invocation arguments policy delegationBudget =>
      obtain ⟨r, hr⟩ := (hsettles 0 _ rfl).answered
      exact ⟨[r], _, rfl, hr⟩
    | toolBatch id calls =>
      have hflat : (chunks (max s.plan.maxParallelToolCalls.val 1) calls.zipIdx).flatten =
          calls.zipIdx := by
        rw [chunks, flatten_chunksFrom, List.nil_append]
      obtain ⟨results, hlength, houtcome⟩ := executeChunks_of_answered behaviour.toScript.failing
        (fun p => executeOneTool agent runChild behaviour.toScript s p.2 p.1)
        (chunks (max s.plan.maxParallelToolCalls.val 1) calls.zipIdx) [] fun p hp => by
          rw [hflat] at hp
          exact (hsettles p.2 p.1 (List.mem_zipIdx_iff_getElem?.mp hp)).answered
      rw [hflat, List.length_zipIdx, List.length_nil, Nat.zero_add] at hlength
      exact ⟨results, .toolBatch results, if_pos hlength, houtcome⟩

end

namespace Sample

def retryingAgent : Agent :=
  { agent false with
    tools := [.ordinary { name := lookup, maxAttempts := 2, parallelSafe := true }
      { name := lookup, description := "looks up", schema := .null, idempotent := true }] }

def retryingSnapshot : AgentRunState :=
  { AgentRunState.withPlan "run" batchHistory ⟨6⟩ (retryingAgent.runPlan {}) with
    pendingTools := [call "c" (.object []), call "d" altered]
    status := .running }

def retryingBatch : AgentRunEffect := retryingSnapshot.toolBatchEffect (call "c" (.object []))

/-- The first attempt fails retryably, and the second one has an output. -/
def unreliableAttempts : List ToolBehaviour :=
  [{ elapsed := 0, ending := .polled (.error ⟨"busy", "try again", true⟩ .elapsed) },
    { elapsed := 0, ending := .polled (.output .null) }]

def unreliable : EffectBehaviour :=
  { attempts := []
    member := fun _ => { reached := true, attempts := unreliableAttempts, parentCancelled := false }
    failing := 0 }

theorem unreliable_settles (i : Nat) (call : ToolEffectCall)
    (h : retryingBatch.calls[i]? = some call) :
    @Settles argumentSchema retryingAgent noChild unreliable retryingSnapshot i call := by
  let _ := argumentSchema
  have hmem : call ∈ retryingBatch.calls := List.mem_of_getElem? h
  have hordinary : ∀ tool ∈ retryingAgent.tools, tool.asDelegation = none := by decide
  exact
    { reached := rfl
      uncancelled := (by decide : ∀ b ∈ unreliableAttempts, b.ending.cancels = false)
      ending := by simp [unreliable, unreliableAttempts]
      supply := by
        have hallowed : ∀ call ∈ retryingBatch.calls,
            call.policy.all fun policy => decide (policy.allowedCalls ≤ 2) := by decide
        intro policy hpolicy
        have hpolicies := hallowed call hmem
        rw [hpolicy] at hpolicies
        exact of_decide_eq_true hpolicies
      child := fun tool childTool child hfind hdelegation => by
        simp [hordinary tool (List.mem_of_find?_eq_some hfind)] at hdelegation
      decodes := fun policy tool childTool _ hfind hdelegation => by
        simp [hordinary tool (List.mem_of_find?_eq_some hfind)] at hdelegation }

end Sample

theorem tool_calls_repeated_when_safe_sample :
    let _ := Sample.jsonText
    let _ := Sample.requestText
    let _ := Sample.argumentSchema
    (enteredAt Sample.retryingAgent Sample.noChild Sample.unreliable Sample.retryingSnapshot
        Sample.retryingBatch 1).map (·.context.attempt.val) = [1, 2] ∧
      ∃ results o, Sample.retryingBatch.answeredBy results = some o ∧
        (executeAdmitted Sample.retryingAgent Sample.noChild Sample.unreliable.toScript
          Sample.retryingSnapshot Sample.retryingBatch).outcome = some (.ok o) := by
  intro _ _ _
  refine ⟨by decide, (tool_calls_repeated_when_safe Sample.retryingAgent Sample.noChild
    Sample.unreliable Sample.retryingSnapshot Sample.retryingBatch).2.2 rfl
    Sample.unreliable_settles⟩

end Agentive
