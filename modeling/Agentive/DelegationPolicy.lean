import Agentive.Delegation
import Agentive.TreeBudget
import Agentive.UsageLedger
import Mathlib.Algebra.Order.BigOperators.Group.List
import Mathlib.Data.List.Nodup

/-! What a parent run keeps of its child runs: their limits, the share of its own budget that they
are charged, and their usage. -/

namespace Agentive

open AgentRunState DriverLoop

/-- An entry of the registry of a parent, before it is frozen. -/
inductive RegistryEntry
  | ordinary (tool : ToolHandle) (definition : ToolDefinition)
  | delegation (tool : DelegationTool Agent) (how : Registration)

def RegistryEntry.freeze (schema : Value) : RegistryEntry → RegisteredTool Agent
  | .ordinary tool definition => .ordinary tool definition
  | .delegation tool how => tool.freeze schema how

/-- The child usage in the result of the call at a place. -/
def AgentEffectOutcome.usageAt : AgentEffectOutcome → Nat → Option RunUsage
  | .tool _ _ usage, 0 => usage
  | .toolBatch outputs, i => outputs[i]?.bind (·.childUsage)
  | _, _ => none

theorem AgentEffectOutcome.mem_childUsages {o : AgentEffectOutcome} {i : Nat} {usage : RunUsage}
    (h : o.usageAt i = some usage) : usage ∈ o.childUsages := by
  cases o with
  | tool output attempts childUsage =>
    cases i with
    | zero =>
      have h : childUsage = some usage := h
      simp [childUsages, h]
    | succ i => cases h
  | toolBatch outputs =>
    obtain ⟨result, hresult, husage⟩ := Option.bind_eq_some_iff.mp h
    exact List.mem_flatMap.mpr ⟨result, List.mem_of_getElem? hresult, by simp [husage]⟩
  | _ => cases h

/-- What the options of a run give it in an account. -/
def Account.allotted : Account → RunOptions → Nat
  | .calls _, options => options.modelCallLimit.val
  | .tokens _, options => (options.tokenLimit.getD 0).val

/-- A child run with the place of the call that starts it and the registration of its tool. -/
structure StartedChild where
  place : Nat
  how : Registration
  child : ChildRun

/-- A run of an agent whose registry has been built with distinct names, and what its tool calls
meet: by iteration and place the child runs and the timing of attempts. -/
structure ParentRun where
  agent : Agent
  schema : Value
  registry : List RegistryEntry
  frozen : agent.tools = registry.map (·.freeze schema)
  distinct : (agent.tools.map (·.definition.name)).Nodup
  runChild : Nat → Nat → Agent → String → RunOptions → RunReport
  timing : Nat → Nat → AttemptTiming
  script : Nat → IterationScript

/-- The children of a batch: those of its chunks, up to the first one that does not answer. -/
def startedChunks {α β : Type} (failing : Nat) (call : α → MemberReport)
    (child : α → Option β) : List (List α) → List β
  | [] => []
  | chunk :: rest =>
    chunk.filterMap child ++
      match tryJoinAll failing (chunk.map call) with
      | none | some (.error _) => []
      | some (.ok outcomes) =>
        match toolOutputs outcomes with
        | .error _ => []
        | .ok _ => startedChunks failing call child rest

theorem startedChunks_sublist {α β : Type} {failing : Nat} {call : α → MemberReport}
    {child : α → Option β} (chunks : List (List α)) :
    (startedChunks failing call child chunks).Sublist (chunks.flatten.filterMap child) := by
  induction chunks with
  | nil => exact .slnil
  | cons chunk rest ih =>
    rw [startedChunks, List.flatten_cons, List.filterMap_append]
    refine List.Sublist.append_left ?_ _
    split
    · exact List.nil_sublist _
    · exact List.nil_sublist _
    · split
      · exact List.nil_sublist _
      · exact ih

theorem exists_getElem?_of_forall₂ {α β : Type} {R : α → β → Prop} {as : List α} {bs : List β}
    (h : List.Forall₂ R as bs) {k : Nat} {a : α} (ha : as[k]? = some a) :
    ∃ b, bs[k]? = some b ∧ R a b := by
  induction h generalizing k with
  | nil => simp at ha
  | cons hab _ ih =>
    cases k with
    | zero =>
      obtain rfl := Option.some.inj ha
      exact ⟨_, rfl, hab⟩
    | succ k => exact ih ha

namespace Account

theorem charged_le_recordProviderEffect [JsonText] [RequestText] (acc : Account)
    (s : AgentRunState) (attempts : List ProviderAttempt) (usage : Option ModelTokenUsage) :
    acc.charged s ≤ acc.charged (s.recordProviderEffect attempts usage) := by
  have hstarted := s.providerCallsStarted.le_cap
  have hmodel := s.modelCalls.le_cap
  have htokens := s.reservedTokens.le_cap
  unfold recordProviderEffect recordProviderAttempts
  cases acc <;> split <;>
    simp only [charged, chargeProviderCalls, reserveProviderAttemptTokens,
      Capped.val_saturatingAdd, Capped.val_max] <;> omega

theorem charged_committed [JsonText] [RequestText] (acc : Account) {s s' : AgentRunState}
    {e : AgentRunEffect} {o : AgentEffectOutcome} (hc : Committed s e o s') :
    min (acc.charged s + (e.calls.map fun call => acc.reserved call.delegationBudget).sum)
      acc.limit ≤ acc.charged s' := by
  have hprovider {t : AgentRunState} (h : acc.charged s ≤ acc.charged t) :
      min (acc.charged s + (s.providerEffect.calls.map
        fun call => acc.reserved call.delegationBudget).sum) acc.limit ≤ acc.charged t :=
    Nat.le_trans (Nat.min_le_left _ _) h
  cases hc with
  | response response attempts ht =>
    apply hprovider
    rw [charged_acceptResponse]
    exact acc.charged_le_recordProviderEffect s attempts response.usage
  | failure error attempts ht =>
    apply hprovider
    rw [acc.charged_sameLedger (sameLedger_fail _ _)]
    exact acc.charged_le_recordProviderEffect s attempts error.usage
  | exhausted required ht =>
    apply hprovider
    rw [acc.charged_sameLedger (sameLedger_markIncomplete s)]
  | tool call rest output attempts usage ht =>
    have hcharge := acc.charged_resolveCall s call output usage (s.delegationBudgetFor call)
    simpa [AgentRunEffect.calls, toolEffect] using hcharge
  | batch call rest outputs ht hlen =>
    have hcharge := acc.charged_foldl_resolveItem (s.batchItems outputs) s
    have hreserved : ((s.batchItems outputs).map fun item => acc.reserved item.2.2).sum =
        ((s.toolBatchEffect call).calls.map
          fun call => acc.reserved call.delegationBudget).sum := by
      have hcalls : (s.toolBatchEffect call).calls = s.pendingTools.map s.toolEffectCall := rfl
      rw [acc.sum_batchItems hlen, hcalls, List.map_map]
      rfl
    rw [← hreserved]
    exact hcharge

end Account

namespace ParentRun

/-- The delegation tool that a call names, and how it is registered. -/
def delegated (p : ParentRun) (call : ToolEffectCall) :
    Option (DelegationTool Agent × Registration) :=
  match p.registry.find? fun entry =>
    (entry.freeze p.schema).tool.name = call.invocation.toolName with
  | some (.delegation tool how) => some (tool, how)
  | _ => none

section

variable [ArgumentSchema] (p : ParentRun) (i : Nat) (s : AgentRunState)

/-- What a call meets. A delegation tool behind an ordinary handle answers for itself. -/
def callScript (j : Nat) (call : ToolEffectCall) : MemberScript :=
  let script := (p.script i).effect.member j
  match p.delegated call with
  | some (tool, .tool) =>
    { script with attempts := [(tool.attempt (p.runChild i j) s (p.timing i j) call).1] }
  | _ => script

def played (e : AgentRunEffect) : EffectScript :=
  { (p.script i).effect with
    member := fun j =>
      match e.calls[j]? with
      | some call => p.callScript i s j call
      | none => (p.script i).effect.member j }

/-- The child run that a call starts. -/
def startedBy (a : ToolEffectCall × Nat) : Option StartedChild :=
  if !((p.script i).effect.member a.2).reached then none
  else match a.1.policy with
    | none => none
    | some policy =>
      if !validateToolArguments a.1.arguments policy.descriptor.schema then none
      else match p.delegated a.1 with
        | none => none
        | some (tool, .tool) =>
          (tool.attempt (p.runChild i a.2) s (p.timing i a.2) a.1).2.map (⟨a.2, .tool, ·⟩)
        | some (tool, how) =>
          (tool.started (p.runChild i a.2) a.1.arguments
            (delegationExecution s a.1.delegationBudget)).map (⟨a.2, how, ·⟩)

variable [JsonText] [RequestText]

/-- `execute_effect` at the iteration `i`. -/
def execute (e : AgentRunEffect) : EffectReport :=
  executeEffect p.agent (p.runChild i) (p.played i s e) s e

/-- The child runs that an effect starts. -/
def started (e : AgentRunEffect) : List StartedChild :=
  match validateEffectStateHistory s, p.agent.validateStatePlan s with
  | .ok (), .ok () =>
    if s.nextEffect ≠ some e then []
    else match e with
      | .providerCall _ _ _ _ => []
      | .toolCall _ _ _ _ _ => e.calls.zipIdx.filterMap (p.startedBy i s)
      | .toolBatch _ calls =>
        startedChunks (p.script i).effect.failing
          (fun a => executeOneTool p.agent (p.runChild i) (p.played i s e) s a.2 a.1)
          (p.startedBy i s) (chunks (max s.plan.maxParallelToolCalls.val 1) calls.zipIdx)
  | _, _ => []

variable (l : LoopState)

/-- The effect that the iteration at a head executes. -/
def effectAt : Option AgentRunEffect :=
  if (p.script l.iteration).cancelled || l.state.finishIfExhausted.2 then none
  else l.state.nextEffect

def outcomeAt : Option (Except RunError AgentEffectOutcome) :=
  (p.effectAt l).bind fun e => (p.execute l.iteration l.state e).outcome

def startedAt : List StartedChild :=
  match p.effectAt l with
  | none => []
  | some e => p.started l.iteration l.state e

end

/-- A child run starts within what its parent has left, is charged to the parent as the share of
the call that starts it, and its usage is in the result of this call, which the commit merges. -/
structure Supervised (s : AgentRunState) (outcome : Option (Except RunError AgentEffectOutcome))
    (c : StartedChild) : Prop where
  calls : c.child.options.modelCallLimit.val ≤ s.budget.modelCallLimit.val - s.callsCharged.val
  tokens : ∀ limit, s.plan.tokenLimit = some limit → ∃ share,
    c.child.options.tokenLimit = some share ∧ share.val ≤ limit.val - s.reservedTokens.val
  parallel : c.child.options.maxParallelToolCalls ≤ s.plan.maxParallelToolCalls
  charged : ∃ call budget, s.pendingTools[c.place]? = some call ∧
    s.delegationBudgetFor call = some budget ∧
    c.child.options.modelCallLimit.val = budget.modelCallLimit.val ∧
    c.child.options.tokenLimit = budget.tokenLimit
  merged : ∀ result, outcome = some result →
    ∃ o, result = .ok o ∧ o.usageAt c.place = some c.child.usage

section

variable [JsonText] [RequestText] [ArgumentSchema] (p : ParentRun) (l : LoopState)

/-- What a parent makes of the children that it starts at a head: each is supervised, and a
commit of their effect charges their limits to the books of the parent, as far as those reach, and
takes over the entries of their usage. -/
structure Holds : Prop where
  supervised : ∀ c ∈ p.startedAt l, Supervised l.state (p.outcomeAt l) c
  charged : ∀ e o ms s', p.effectAt l = some e → p.outcomeAt l = some (.ok o) →
    Committed (l.state.recordElapsed ms) e o s' → ∀ acc : Account,
    min (acc.charged l.state +
      ((p.startedAt l).map fun c => acc.allotted c.child.options).sum) acc.limit ≤ acc.charged s'
  merged : ∀ e o ms s', p.effectAt l = some e → p.outcomeAt l = some (.ok o) →
    Committed (l.state.recordElapsed ms) e o s' →
    ∀ c ∈ p.startedAt l, c.child.usage.modelCalls ⊆ s'.usage.modelCalls

/-- At a head where a child run is not held to its parent: its tool has been registered like any
other tool, or the effect that started it fails. -/
inductive Escapes : Prop
  | called (c : StartedChild) : c ∈ p.startedAt l → c.how = .tool → Escapes
  | lost (c : StartedChild) (e : RunError) :
      c ∈ p.startedAt l → p.outcomeAt l = some (.error e) → Escapes

end

/-! The tool behind a call. -/

section

variable {p : ParentRun} {call : ToolEffectCall} {tool : DelegationTool Agent} {how : Registration}

theorem find_of_delegated (h : p.delegated call = some (tool, how)) :
    p.agent.tools.find? (fun registered => registered.tool.name = call.invocation.toolName) =
      some (tool.freeze p.schema how) := by
  rw [p.frozen, List.find?_map]
  unfold delegated at h
  split at h
  · next entry hentry =>
    obtain ⟨rfl, rfl⟩ := Prod.mk.inj (Option.some.inj h)
    have hfind : p.registry.find? ((fun registered : RegisteredTool Agent =>
        decide (registered.tool.name = call.invocation.toolName)) ∘ (·.freeze p.schema)) =
          some (.delegation _ _) := hentry
    rw [hfind]
    rfl
  · cases h

theorem name_of_freeze (schema : Value) (tool : DelegationTool Agent) (how : Registration) :
    (tool.freeze schema how).definition.name = tool.name ∧
      (tool.freeze schema how).tool.name = tool.name := by
  cases how <;> exact ⟨rfl, rfl⟩

theorem policy_of_delegated (h : p.delegated call = some (tool, how)) {s : AgentRunState}
    (hplan : p.agent.validateStatePlan s = .ok ()) :
    s.plan.toolPolicy call.invocation.toolName =
      some (runtimePolicy (tool.freeze p.schema how)) := by
  have hfind := find_of_delegated h
  have hmem := List.mem_of_find?_eq_some hfind
  have hname : (tool.freeze p.schema how).tool.name = call.invocation.toolName := by
    simpa using List.find?_some hfind
  have htools : s.plan.tools = p.agent.tools.map runtimePolicy := by
    unfold Agent.validateStatePlan at hplan
    split at hplan
    · cases hplan
    · split at hplan
      · cases hplan
      · next htools => exact not_not.mp htools
  have hdefinition : (tool.freeze p.schema how).definition.name = call.invocation.toolName := by
    rw [← hname, (name_of_freeze _ _ _).1, (name_of_freeze _ _ _).2]
  rw [AgentRunPlan.toolPolicy, htools, List.find?_map]
  cases hpolicy : p.agent.tools.find? ((fun policy : ToolRuntimePolicy =>
      decide (policy.descriptor.name = call.invocation.toolName)) ∘ runtimePolicy) with
  | none =>
    have hnone := List.find?_eq_none.mp hpolicy _ hmem
    exact absurd (decide_eq_true hdefinition) hnone
  | some registered =>
    have hfound := List.find?_some hpolicy
    have hregistered : registered.definition.name = call.invocation.toolName :=
      of_decide_eq_true hfound
    have heq := List.inj_on_of_nodup_map p.distinct (List.mem_of_find?_eq_some hpolicy) hmem
      (hregistered.trans hdefinition.symm)
    rw [heq]
    rfl

variable [ArgumentSchema] {i j : Nat} {s : AgentRunState} {c : StartedChild}

theorem place_of_startedBy (h : p.startedBy i s (call, j) = some c) : c.place = j := by
  unfold startedBy at h
  split at h
  · cases h
  · split at h
    · cases h
    · split at h
      · cases h
      · split at h
        · cases h
        · obtain ⟨_, _, rfl⟩ := Option.map_eq_some_iff.mp h
          rfl
        · obtain ⟨_, _, rfl⟩ := Option.map_eq_some_iff.mp h
          rfl

theorem places_sublist {as : List (ToolEffectCall × Nat)} :
    ((as.filterMap (p.startedBy i s)).map (·.place)).Sublist (as.map (·.2)) := by
  induction as with
  | nil => exact .slnil
  | cons a as ih =>
    cases ha : p.startedBy i s a with
    | none =>
      rw [List.filterMap_cons_none ha, List.map_cons]
      exact ih.cons _
    | some c =>
      have hplace : c.place = a.2 := place_of_startedBy ha
      rw [List.filterMap_cons_some ha, List.map_cons, List.map_cons, hplace]
      exact ih.cons_cons _

theorem delegated_of_startedBy (h : p.startedBy i s (call, j) = some c) :
    ∃ tool policy, p.delegated call = some (tool, c.how) ∧ call.policy = some policy ∧
      ((p.script i).effect.member j).reached = true ∧
      validateToolArguments call.arguments policy.descriptor.schema = true ∧
      (c.how = .tool ∨ tool.started (p.runChild i j) call.arguments
        (delegationExecution s call.delegationBudget) = some c.child) := by
  unfold startedBy at h
  split at h
  · cases h
  · next hreached =>
    split at h
    · cases h
    · next policy hpolicy =>
      split at h
      · cases h
      · next hvalid =>
        split at h
        · cases h
        · next tool hd =>
          obtain ⟨child, _, rfl⟩ := Option.map_eq_some_iff.mp h
          exact ⟨tool, policy, hd, hpolicy, by simpa using hreached, by simpa using hvalid,
            .inl rfl⟩
        · next tool how _ hd =>
          obtain ⟨child, hstarted, rfl⟩ := Option.map_eq_some_iff.mp h
          exact ⟨tool, policy, hd, hpolicy, by simpa using hreached, by simpa using hvalid,
            .inr hstarted⟩

theorem reached_played (e : AgentRunEffect) :
    ((p.played i s e).member j).reached = ((p.script i).effect.member j).reached := by
  unfold played callScript
  simp only []
  split
  · split <;> rfl
  · rfl

theorem usage_executeOneTool (h : p.startedBy i s (call, j) = some c) (hhow : c.how ≠ .tool)
    (e : AgentRunEffect) {o : AgentEffectOutcome}
    (ho : (executeOneTool p.agent (p.runChild i) (p.played i s e) s j call).outcome =
      some (.ok o)) : ∃ output, o = .tool output 1 (some c.child.usage) := by
  obtain ⟨tool, policy, hd, hpolicy, hreached, hvalid, hstarted⟩ := delegated_of_startedBy h
  have hstarted := hstarted.resolve_left hhow
  obtain ⟨registered, has, hregistered⟩ : ∃ registered : DelegationTool Agent,
      (tool.freeze p.schema c.how).asDelegation = some registered ∧
        registered.child = tool.child := by
    cases hc : c.how with
    | tool => exact absurd hc hhow
    | delegate => exact ⟨_, rfl, rfl⟩
    | delegateParallel => exact ⟨_, rfl, rfl⟩
  have hstarted' : registered.started (p.runChild i j) call.arguments
      (delegationExecution s call.delegationBudget) = some c.child := by
    unfold DelegationTool.started at hstarted ⊢
    rw [hregistered]
    exact hstarted
  unfold executeOneTool at ho
  simp only [reached_played, hreached, Bool.not_true, Bool.false_eq_true, if_false, hpolicy,
    find_of_delegated hd, hvalid, has] at ho
  exact DelegationTool.execute_usage hstarted' ho

/-! The children of an effect. -/

variable [JsonText] {e : AgentRunEffect}

/-- An effect that starts children has passed its checks, and they belong to its calls. -/
theorem started_cases (h : c ∈ p.started i s e) :
    validateEffectStateHistory s = .ok () ∧ p.agent.validateStatePlan s = .ok () ∧
      s.nextEffect = some e ∧
      (p.started i s e).Sublist (e.calls.zipIdx.filterMap (p.startedBy i s)) := by
  unfold started at h ⊢
  cases hv : validateEffectStateHistory s with
  | error err => simp [hv] at h
  | ok =>
    cases hp : p.agent.validateStatePlan s with
    | error err => simp [hv, hp] at h
    | ok =>
      simp only [hv, hp] at h ⊢
      split at h
      · cases h
      · next hn =>
        rw [if_neg hn]
        refine ⟨trivial, trivial, not_not.mp hn, ?_⟩
        cases e with
        | providerCall => cases h
        | toolCall => exact List.Sublist.refl _
        | toolBatch id calls =>
          have hcalls : (AgentRunEffect.toolBatch id calls).calls.zipIdx =
              (chunks (max s.plan.maxParallelToolCalls.val 1) calls.zipIdx).flatten := by
            rw [chunks, flatten_chunksFrom]
            rfl
          rw [hcalls]
          exact startedChunks_sublist _

theorem call_of_started (h : c ∈ p.started i s e) :
    ∃ pending, s.pendingTools[c.place]? = some pending ∧
      e.calls[c.place]? = some (s.toolEffectCall pending) ∧
      p.startedBy i s (s.toolEffectCall pending, c.place) = some c := by
  obtain ⟨_, _, hn, hsub⟩ := started_cases h
  obtain ⟨⟨call, j⟩, hmem, hstarted⟩ := List.mem_filterMap.mp (hsub.subset h)
  have hcall : e.calls[j]? = some call := List.mem_zipIdx_iff_getElem?.mp hmem
  have hplace := place_of_startedBy hstarted
  obtain ⟨pending, hpending, rfl⟩ := pending_of_calls hn hcall
  rw [hplace]
  exact ⟨pending, hpending, hcall, hstarted⟩

theorem budget_of_called (h : c ∈ p.started i s e) (hhow : c.how = .tool)
    {pending : ModelToolCall} (hpending : s.pendingTools[c.place]? = some pending) :
    s.delegationBudgetFor pending = none := by
  obtain ⟨pending', hpending', _, hstarted⟩ := call_of_started h
  obtain rfl := Option.some.inj (hpending.symm.trans hpending')
  obtain ⟨_, hplan, _, _⟩ := started_cases h
  obtain ⟨tool, policy, hd, _⟩ := delegated_of_startedBy hstarted
  have hpolicy := policy_of_delegated hd hplan
  rw [hhow] at hpolicy
  have hname : (s.toolEffectCall pending).invocation.toolName = pending.name := rfl
  rw [hname] at hpolicy
  have hnot : s.isDelegation pending = false := by
    rw [isDelegation, hpolicy]
    rfl
  rw [delegationBudgetFor_eq, hnot]
  rfl

theorem sum_allotted_le (acc : Account) (e : AgentRunEffect)
    (hallotted : ∀ c ∈ p.started i s e, ∃ call, e.calls[c.place]? = some call ∧
      acc.allotted c.child.options = acc.reserved call.delegationBudget) :
    ((p.started i s e).map fun c => acc.allotted c.child.options).sum ≤
      (e.calls.map fun call => acc.reserved call.delegationBudget).sum := by
  by_cases hnil : p.started i s e = []
  · simp [hnil]
  · obtain ⟨c, hc⟩ := List.exists_mem_of_ne_nil _ hnil
    obtain ⟨_, _, _, hsub⟩ := started_cases hc
    let budgetAt (k : Nat) : Nat :=
      (e.calls[k]?.map fun call => acc.reserved call.delegationBudget).getD 0
    have hstarted : (p.started i s e).map (fun c => acc.allotted c.child.options) =
        ((p.started i s e).map (·.place)).map budgetAt := by
      rw [List.map_map]
      refine List.map_congr_left fun c hc => ?_
      obtain ⟨call, hcall, hle⟩ := hallotted c hc
      simp [budgetAt, hcall, hle]
    have hcalls : e.calls.map (fun call => acc.reserved call.delegationBudget) =
        (e.calls.zipIdx.map (·.2)).map budgetAt := by
      rw [List.map_map]
      conv_lhs => rw [← List.zipIdx_map_fst 0 e.calls, List.map_map]
      refine List.map_congr_left fun a ha => ?_
      have hcall := List.mem_zipIdx_iff_getElem?.mp ha
      simp [budgetAt, hcall]
    rw [hstarted, hcalls]
    exact (((hsub.map _).trans places_sublist).map budgetAt).sum_le_sum fun _ _ => Nat.zero_le _

variable [RequestText]

theorem usageAt_of_started (h : c ∈ p.started i s e) (hhow : c.how ≠ .tool)
    {o : AgentEffectOutcome} (ho : (p.execute i s e).outcome = some (.ok o)) :
    o.usageAt c.place = some c.child.usage := by
  obtain ⟨pending, hpending, hcall, hstarted⟩ := call_of_started h
  obtain ⟨hv, hp, hn, _⟩ := started_cases h
  have hadmitted : p.execute i s e =
      executeAdmitted p.agent (p.runChild i) (p.played i s e) s e := by
    rcases executeEffect_cases p.agent (p.runChild i) (p.played i s e) s e with
      ⟨err, herr⟩ | ⟨_, _, _, hadmitted⟩
    · simp [execute, herr, EffectReport.ended] at ho
    · exact hadmitted
  rw [hadmitted] at ho
  cases e with
  | providerCall => simp [AgentRunEffect.calls] at hcall
  | toolCall id invocation arguments policy budget =>
    rw [AgentRunEffect.calls, List.getElem?_singleton] at hcall
    split at hcall
    · next hplace =>
      rw [← Option.some.inj hcall, hplace] at hstarted
      obtain ⟨output, rfl⟩ := usage_executeOneTool hstarted hhow _ ho
      rw [hplace]
      rfl
    · cases hcall
  | toolBatch id calls =>
    have hcall : calls[c.place]? = some (s.toolEffectCall pending) := hcall
    obtain ⟨outputs, rfl, hall⟩ := executeChunks_outputs ho
    rw [chunks, flatten_chunksFrom, List.nil_append] at hall
    obtain ⟨result, hresult, hout⟩ := exists_getElem?_of_forall₂ hall
      (k := c.place) (a := (s.toolEffectCall pending, c.place)) (by simp [hcall])
    obtain ⟨output, heq⟩ := usage_executeOneTool hstarted hhow _ hout
    have husage : result.childUsage = some c.child.usage := by
      injection heq
    simp [AgentEffectOutcome.usageAt, hresult, husage]

theorem supervised_of_execute (h : c ∈ p.started i s e) (hhow : c.how ≠ .tool)
    (hended : ∀ err, (p.execute i s e).outcome ≠ some (.error err)) :
    Supervised s (p.execute i s e).outcome c := by
  obtain ⟨pending, hpending, _, hstarted⟩ := call_of_started h
  obtain ⟨tool, policy, _, _, _, _, hrun⟩ := delegated_of_startedBy hstarted
  obtain ⟨budget, hbudget, hoptions⟩ :=
    DelegationTool.options_of_started (hrun.resolve_left hhow)
  have hbudget : s.delegationBudgetFor pending = some budget := hbudget
  have hshare : budget = s.delegationShare := by
    rw [delegationBudgetFor_eq] at hbudget
    split at hbudget
    · exact (Option.some.inj hbudget).symm
    · cases hbudget
  have hcalls : c.child.options.modelCallLimit.val = budget.modelCallLimit.val := by
    have hcap := budget.modelCallLimit.le_cap
    rw [hoptions, DelegationTool.childOptions]
    simp only [Capped.val_cast]
    omega
  have htokens : c.child.options.tokenLimit = budget.tokenLimit := by
    rw [hoptions]
    rfl
  constructor
  case calls =>
    rw [hcalls, hshare]
    exact Nat.div_le_self _ _
  case tokens =>
    intro limit hlimit
    refine ⟨(limit.saturatingSub s.reservedTokens).div s.delegationDivisor.cast, ?_, ?_⟩
    · rw [htokens, hshare, delegationShare, hlimit]
      rfl
    · exact Nat.div_le_self _ _
  case parallel =>
    rw [hoptions]
    exact Nat.le_refl _
  case charged => exact ⟨pending, budget, hpending, hbudget, hcalls, htokens⟩
  case merged =>
    intro result hresult
    cases result with
    | error err => exact absurd hresult (hended err)
    | ok o => exact ⟨o, rfl, usageAt_of_started h hhow hresult⟩

theorem startedAt_cases {l : LoopState} (h : c ∈ p.startedAt l) :
    ∃ e, p.effectAt l = some e ∧ c ∈ p.started l.iteration l.state e ∧
      p.startedAt l = p.started l.iteration l.state e ∧
      p.outcomeAt l = (p.execute l.iteration l.state e).outcome := by
  unfold startedAt at h ⊢
  unfold outcomeAt
  cases he : p.effectAt l with
  | none => simp [he] at h
  | some e =>
    simp only [he] at h
    exact ⟨e, rfl, h, rfl, rfl⟩

theorem Holds.not_escapes {l : LoopState} (h : p.Holds l) : ¬ p.Escapes l := by
  intro hescapes
  cases hescapes with
  | called c hc hhow =>
    obtain ⟨e, _, hstarted, _, _⟩ := startedAt_cases hc
    obtain ⟨pending, budget, hpending, hbudget, _⟩ := (h.supervised c hc).charged
    simp [budget_of_called hstarted hhow hpending] at hbudget
  | lost c err hc herr =>
    obtain ⟨o, ho, _⟩ := (h.supervised c hc).merged _ herr
    cases ho

theorem holds_of_not_escapes {l : LoopState} (h : ¬ p.Escapes l) : p.Holds l := by
  have hsupervised : ∀ c ∈ p.startedAt l, Supervised l.state (p.outcomeAt l) c := by
    intro c hc
    obtain ⟨e, _, hstarted, _, hout⟩ := startedAt_cases hc
    rw [hout]
    exact supervised_of_execute hstarted (fun hhow => h (.called c hc hhow))
      fun err herr => h (.lost c err hc (hout.trans herr))
  refine ⟨hsupervised, fun e o ms s' he ho hcommit acc => ?_,
    fun e o ms s' he ho hcommit c hc => ?_⟩
  · have hcharge := acc.charged_committed hcommit
    rw [acc.charged_sameLedger (sameLedger_recordElapsed l.state ms)] at hcharge
    have hat : p.startedAt l = p.started l.iteration l.state e := by
      rw [startedAt, he]
    have hsum := sum_allotted_le acc e (p := p) (i := l.iteration) (s := l.state)
      fun c hc => by
        obtain ⟨pending, hpending, hcall, _⟩ := call_of_started hc
        obtain ⟨pending', budget, hpending', hbudget, hcalls, htokens⟩ :=
          (hsupervised c (hat ▸ hc)).charged
        obtain rfl := Option.some.inj (hpending.symm.trans hpending')
        have hreserved : (l.state.toolEffectCall pending).delegationBudget = some budget := hbudget
        refine ⟨_, hcall, ?_⟩
        rw [hreserved]
        cases acc with
        | calls limit => exact hcalls
        | tokens limit => exact congrArg (fun tokens => (tokens.getD 0).val) htokens
    rw [hat]
    omega
  · obtain ⟨o', ho', husage⟩ := (hsupervised c hc).merged _ ho
    obtain rfl := Except.ok.inj ho'
    have hentries : c.child.usage.modelCalls ⊆ o.childEntries := by
      have hmem := AgentEffectOutcome.mem_childUsages husage
      exact fun entry hentry => List.mem_flatMap.mpr ⟨_, hmem, hentry⟩
    rw [hcommit.usage_modelCalls]
    exact fun entry hentry =>
      List.mem_append_right _ (List.mem_append_right _ (hentries hentry))

end

/-- An iteration of the parent run. -/
def turn [JsonText] [RequestText] [ArgumentSchema] (p : ParentRun) (deadline : Option Duration) :
    LoopState → LocalTurn :=
  LoopState.turn (fun i s e => p.execute i s e) p.script deadline

end ParentRun

/-- At every head of a run the child runs are held to their parent exactly if at none of them one
escapes. -/
theorem children_held_iff [JsonText] [RequestText] [ArgumentSchema] (p : ParentRun)
    (deadline : Option Duration) (s₀ : AgentRunState) :
    (∀ l, Reaches (p.turn deadline) (.start s₀) l → p.Holds l) ↔
      ∀ l, Reaches (p.turn deadline) (.start s₀) l → ¬ p.Escapes l := by
  constructor
  · intro h l hl
    exact (h l hl).not_escapes
  · intro h l hl
    exact ParentRun.holds_of_not_escapes (h l hl)

namespace Sample

/-- A child agent as a tool of its parent, registered like any other tool. -/
def helper : DelegationTool Agent :=
  { name := lookup, description := "Runs a helper.", child := agent false, parallelSafe := false }

/-- A parent that may call its model twice; its first response asks for the helper. -/
def parentRun : ParentRun :=
  let _ := jsonText
  let _ := requestText
  let _ := argumentSchema
  { agent := { agent false with tools := [helper.freeze .null .tool] }
    schema := .null
    registry := [.delegation helper .tool]
    frozen := rfl
    distinct := List.nodup_singleton _
    runChild := fun i j => runAgent
      (environment fun _ => iteration [answering (textResponse "found")] []) 2 [(i, j)]
    timing := fun _ _ =>
      { elapsed := 0, cancelledBefore := false, interrupted := false, cancelled := false }
    script := fun i => iteration [answering (if i = 0 then
      callsResponse [call "c" (.object [])] else textResponse "hi")] [] }

end Sample

/-- A child run that is started by `call` has six model calls where its parent has one left. -/
theorem called_child_not_held :
    ¬ ∀ (_ : JsonText) (_ : RequestText) (_ : ArgumentSchema) (p : ParentRun) (runId : String)
      (messages : List Message) (options : RunOptions) (s₀ : AgentRunState),
      p.agent.prepareState runId messages options = .ok s₀ →
      ∀ l, Reaches (p.turn options.deadline) (.start s₀) l → p.Holds l := by
  intro claim
  let _ := Sample.jsonText
  let _ := Sample.requestText
  let _ := Sample.argumentSchema
  let p := Sample.parentRun
  let options : RunOptions := { modelCallLimit := 2 }
  let s₀ : AgentRunState :=
    .withPlan "run" [.user "hello"] ⟨options.modelCallLimit.cast⟩ (p.agent.runPlan options)
  have hs : p.agent.prepareState "run" [.user "hello"] options = .ok s₀ :=
    Agent.prepareState_eq_ok_iff.mpr ⟨rfl, by decide +kernel, rfl⟩
  have hstarted : (match p.turn none (.start s₀) with
      | .next l => (p.startedAt l).any fun c =>
        decide (l.state.budget.modelCallLimit.val - l.state.callsCharged.val = 1) &&
          decide (c.child.options.modelCallLimit.val = 6)
      | _ => false) = true := by
    decide +kernel
  cases hturn : p.turn none (.start s₀) with
  | next l =>
    rw [hturn] at hstarted
    obtain ⟨c, hc, hlimits⟩ := List.any_eq_true.mp hstarted
    have hheld := claim _ _ _ p "run" [.user "hello"] options s₀ hs l (.single hturn)
    have hcalls := (hheld.supervised c hc).calls
    simp only [Bool.and_eq_true, decide_eq_true_eq] at hlimits
    omega
  | ended l result => simp [hturn] at hstarted
  | blocked l => simp [hturn] at hstarted

end Agentive
