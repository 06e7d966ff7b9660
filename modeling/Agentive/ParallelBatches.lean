import Agentive.SettledRuns
import Agentive.CommitAtomicity
import Agentive.RunTrace

/-! A batch of parallel calls commits what the calls commit one after the other. Runs of two plans
that differ in their `parallelSafe` flags are compared where no tool is pending. -/

namespace Agentive

/-- No tool of the plan delegates. -/
def AgentRunPlan.Undelegated (plan : AgentRunPlan) : Prop :=
  ∀ policy ∈ plan.tools, policy.delegation = false

instance (plan : AgentRunPlan) : Decidable plan.Undelegated :=
  inferInstanceAs (Decidable (∀ policy ∈ plan.tools, policy.delegation = false))

def ToolRuntimePolicy.SameButFlag (a b : ToolRuntimePolicy) : Prop :=
  b = { a with parallelSafe := b.parallelSafe }

/-- The plans are the same but for the `parallelSafe` flags of their tools. -/
structure AgentRunPlan.SameButFlags (p q : AgentRunPlan) : Prop where
  tools : List.Forall₂ ToolRuntimePolicy.SameButFlag p.tools q.tools
  rest : q = { p with tools := q.tools }

/-- What the provider answers to each request, and each call to its arguments. A call is known by
its invocation and by the place that its result takes in the history. -/
structure Assignment where
  provider : AgentRunEffect → AgentEffectOutcome
  result : Nat → ToolInvocation → Value → ToolEffectResult

/-- The completion of an effect whose first result gets the place `slot`. -/
def Assignment.outcome (a : Assignment) (slot : Nat) : AgentRunEffect → AgentEffectOutcome
  | .toolCall _ invocation arguments _ _ =>
    let result := a.result slot invocation arguments
    .tool result.output result.attempts result.childUsage
  | .toolBatch _ calls => .toolBatch (calls.mapIdx fun i call =>
      a.result (slot + i) call.invocation call.arguments)
  | effect => a.provider effect

section

variable [JsonText] [RequestText] (a : Assignment)

/-- One round of a driver: the next effect is taken and completed. -/
def Assignment.step (s : AgentRunState) : AgentRunState :=
  match s.nextEffect with
  | some effect => (s.commitEffect effect.effectId (a.outcome s.history.length effect)).1
  | none => s

end

namespace AgentRunPlan

variable {p q : AgentRunPlan}

theorem SameButFlags.symm (h : p.SameButFlags q) : q.SameButFlags p where
  tools := by
    refine h.tools.flip.imp fun b a hab => ?_
    have hb : b = { a with parallelSafe := b.parallelSafe } := hab
    show a = { b with parallelSafe := a.parallelSafe }
    rw [hb]
  rest := by
    rw [h.rest]

theorem SameButFlags.map_eq {β : Type} {f : ToolRuntimePolicy → β} (h : p.SameButFlags q)
    (hf : ∀ a b, ToolRuntimePolicy.SameButFlag a b → f a = f b) :
    p.tools.map f = q.tools.map f := by
  have hmap : List.Forall₂ (fun x y => x = y) (p.tools.map f) (q.tools.map f) := by
    rw [List.forall₂_map_left_iff, List.forall₂_map_right_iff]
    exact h.tools.imp hf
  rwa [List.forall₂_eq_eq_eq] at hmap

theorem SameButFlags.descriptors (h : p.SameButFlags q) :
    p.tools.map (·.descriptor) = q.tools.map (·.descriptor) := by
  apply h.map_eq
  intro a b hab
  have hb : b = { a with parallelSafe := b.parallelSafe } := hab
  rw [hb]

theorem SameButFlags.undelegated (h : p.SameButFlags q) (hp : p.Undelegated) :
    q.Undelegated := by
  have hmap : p.tools.map (·.delegation) = q.tools.map (·.delegation) := by
    apply h.map_eq
    intro a b hab
    have hb : b = { a with parallelSafe := b.parallelSafe } := hab
    rw [hb]
  intro policy hpolicy
  have hmem : policy.delegation ∈ p.tools.map (·.delegation) := by
    rw [hmap]
    exact List.mem_map_of_mem hpolicy
  obtain ⟨policy', hpolicy', heq⟩ := List.mem_map.mp hmem
  rw [← heq]
  exact hp policy' hpolicy'

end AgentRunPlan

namespace AgentRunState

def replan (q : AgentRunPlan) (s : AgentRunState) : AgentRunState := { s with plan := q }

variable {s : AgentRunState} {q : AgentRunPlan}

theorem delegationBudgetFor_undelegated (h : s.plan.Undelegated) (call : ModelToolCall) :
    s.delegationBudgetFor call = none := by
  have hn : s.isDelegation call = false := by
    unfold isDelegation AgentRunPlan.toolPolicy
    cases hf : s.plan.tools.find? fun policy => policy.descriptor.name = call.name with
    | none => rfl
    | some policy => exact h policy (List.mem_of_find?_eq_some hf)
  simp [delegationBudgetFor, hn]

section

variable [JsonText] (a : Assignment) {call : ModelToolCall} {rest : List ModelToolCall}

/-- The first pending call, with the result that is assigned to it. -/
def resolve (s : AgentRunState) (call : ModelToolCall) : AgentRunState :=
  let result := a.result s.history.length (s.toolEffectCall call).invocation call.arguments
  s.resolveCall call result.output result.childUsage none

/-- All pending calls in order, as long as the run has not ended. -/
def settle (s : AgentRunState) : AgentRunState :=
  if s.status.isActive then s.pendingTools.foldl (resolve a) s else s

theorem foldl_resolve_pendingTools (calls : List ModelToolCall) (s : AgentRunState) :
    (calls.foldl (resolve a) s).pendingTools = s.pendingTools.drop calls.length := by
  induction calls generalizing s with
  | nil => rfl
  | cons call calls ih => simp [ih, resolve]

theorem foldl_resolve_status (calls : List ModelToolCall) (s : AgentRunState) :
    (calls.foldl (resolve a) s).status = s.status := by
  induction calls generalizing s with
  | nil => rfl
  | cons call calls ih => simp [ih, resolve]

/-- The items of a batch are resolved one by one, each with the result of its place. -/
theorem foldl_resolveItem_assigned (t : AgentRunState) (calls : List ModelToolCall)
    (hrun : t.runId = s.runId) (hcalls : t.modelCalls = s.modelCalls) :
    (calls.zip ((calls.mapIdx fun i call =>
      a.result (t.history.length + i) (s.toolEffectCall call).invocation call.arguments).zip
        (calls.map fun _ => none))).foldl resolveItem t = calls.foldl (resolve a) t := by
  induction calls generalizing t with
  | nil => rfl
  | cons call calls ih =>
    have hinv : (t.toolEffectCall call).invocation = (s.toolEffectCall call).invocation := by
      simp [toolEffectCall, hrun, hcalls]
    have hres : resolve a t call = t.resolveItem (call,
        a.result t.history.length (s.toolEffectCall call).invocation call.arguments, none) := by
      rw [resolve, hinv]
      rfl
    have hlen : (resolve a t call).history.length = t.history.length + 1 := by
      simp [resolve]
    have hrest := ih (resolve a t call) (by simpa [resolve] using hrun)
      (by simpa [resolve] using hcalls)
    simp only [hlen, Nat.add_right_comm _ 1] at hrest
    simpa [List.mapIdx_cons, hres, Nat.add_assoc] using hrest

variable [RequestText]

theorem step_of_committed {e : AgentRunEffect} {s' : AgentRunState}
    (h : Committed s e (a.outcome s.history.length e) s') : a.step s = s' := by
  simp [Assignment.step, h.nextEffect, h.commitEffect]

theorem step_of_none (h : s.nextEffect = none) : a.step s = s := by
  simp [Assignment.step, h]

theorem step_of_not_fits {e : AgentRunEffect} (he : s.nextEffect = some e)
    (hf : ¬ e.Fits (a.outcome s.history.length e)) : a.step s = s := by
  cases hc : s.commitEffect e.effectId (a.outcome s.history.length e) with
  | mk s' result =>
    cases result with
    | error err =>
      have hs : s' = s := commitEffect_error hc
      simp [Assignment.step, he, hc, hs]
    | ok =>
      obtain ⟨e', he', _, hcommitted⟩ := committed_of_commitEffect hc
      rw [he, Option.some.injEq] at he'
      exact absurd (he' ▸ hcommitted.fits) hf

theorem step_of_tool (hp : s.plan.Undelegated) (ht : s.ToolTurn call rest) :
    a.step s = resolve a s call := by
  have hc := step_of_committed a (Committed.tool call rest _ _ _ ht)
  rwa [delegationBudgetFor_undelegated hp] at hc

theorem step_of_batch (hp : s.plan.Undelegated) (ht : s.BatchTurn call rest) :
    a.step s = s.pendingTools.foldl (resolve a) s := by
  have houtcome : a.outcome s.history.length (s.toolBatchEffect call) =
      .toolBatch (s.pendingTools.mapIdx fun i call =>
        a.result (s.history.length + i) (s.toolEffectCall call).invocation call.arguments) := by
    rw [toolBatchEffect, Assignment.outcome, AgentEffectOutcome.toolBatch.injEq]
    apply List.ext_getElem?
    intro i
    simp [toolEffectCall, Function.comp_def]
  have hlen : (s.pendingTools.mapIdx fun i call => a.result (s.history.length + i)
      (s.toolEffectCall call).invocation call.arguments).length = s.pendingTools.length :=
    List.length_mapIdx
  have hc := Committed.batch call rest _ ht hlen
  rw [← houtcome] at hc
  rw [step_of_committed a hc, batchItems, ← foldl_resolveItem_assigned a s s.pendingTools rfl rfl]
  have hnone : s.pendingTools.map s.delegationBudgetFor = s.pendingTools.map fun _ => none :=
    List.map_congr_left fun call _ => delegationBudgetFor_undelegated hp call
  rw [hnone]

theorem step_of_pending (hp : s.plan.Undelegated) (ha : s.status.isActive = true)
    (hcall : s.pendingTools = call :: rest) :
    a.step s = resolve a s call ∨ a.step s = s.pendingTools.foldl (resolve a) s := by
  by_cases hb : s.batchable = true
  · exact .inr (step_of_batch a hp ⟨ha, hcall, hb⟩)
  · exact .inl (step_of_tool a hp ⟨ha, hcall, by simpa using hb⟩)

theorem settle_step (hp : s.plan.Undelegated) (hcall : s.pendingTools = call :: rest) :
    settle a (a.step s) = settle a s := by
  by_cases ha : s.status.isActive = true
  · rcases step_of_pending a hp ha hcall with hs | hs
    · have hstatus : (resolve a s call).status = s.status := by simp [resolve]
      have htail : (resolve a s call).pendingTools = rest := by simp [resolve, hcall]
      simp [settle, hs, hstatus, ha, htail, hcall]
    · have hnil : (s.pendingTools.foldl (resolve a) s).pendingTools = [] := by
        rw [foldl_resolve_pendingTools, List.drop_length]
      simp [settle, hs, foldl_resolve_status, ha, hnil]
  · have hnone : s.nextEffect = none := by simp [nextEffect, ha]
    rw [step_of_none a hnone]

theorem step_pendingTools_lt (hp : s.plan.Undelegated) (ha : s.status.isActive = true)
    (hcall : s.pendingTools = call :: rest) :
    (a.step s).pendingTools.length < s.pendingTools.length := by
  rcases step_of_pending a hp ha hcall with hs | hs
  · simp [hs, resolve, hcall]
  · rw [hs, foldl_resolve_pendingTools, List.drop_length, hcall]
    simp

theorem step_plan : (a.step s).plan = s.plan := by
  cases hn : s.nextEffect with
  | none => rw [step_of_none a hn]
  | some e =>
    by_cases hf : e.Fits (a.outcome s.history.length e)
    · obtain ⟨s', hc⟩ := exists_committed hn hf
      rw [step_of_committed a hc]
      exact hc.fixed.1
    · rw [step_of_not_fits a hn hf]

/-- Runs of an undelegated plan: they are quiet where no tool is pending. -/
def settling : SettledRuns.System AgentRunState where
  step := a.step
  quiet s := s.pendingTools.isEmpty
  settle := settle a
  rank s := s.pendingTools.length
  inv s := s.plan.Undelegated
  inv_step h := by rwa [step_plan]
  settle_of_quiet {s} h := by
    have hnil : s.pendingTools = [] := by simpa using h
    simp [settle, hnil]
  settle_step {s} hp hq := by
    cases hcall : s.pendingTools with
    | nil => simp [hcall] at hq
    | cons call rest => exact settle_step a hp hcall
  rank_step {s} hp hq hs := by
    cases hcall : s.pendingTools with
    | nil => simp [hcall] at hq
    | cons call rest =>
      have ha : s.status.isActive = true := by
        by_contra hn
        simp [settle, hn, hcall] at hs
      exact hcall ▸ step_pendingTools_lt a hp ha hcall

end

theorem nextModelRequest_replan (h : s.plan.SameButFlags q) (id : String) :
    (s.replan q).nextModelRequest id = s.nextModelRequest id := by
  have hdesc : q.tools.map (·.descriptor) = s.plan.tools.map (·.descriptor) :=
    h.descriptors.symm
  have hrest := h.rest
  cases q
  cases hrest
  simp only [nextModelRequest, replan, hdesc]

theorem noProviderBudget_replan (h : s.plan.SameButFlags q) :
    (s.replan q).noProviderBudget = s.noProviderBudget := by
  have hlimit : (s.replan q).plan.tokenLimit = s.plan.tokenLimit := by
    show q.tokenLimit = _
    rw [h.rest]
  unfold noProviderBudget
  rw [hlimit]
  rfl

theorem ProviderTurn.replan (h : s.plan.SameButFlags q) (ht : s.ProviderTurn) :
    (s.replan q).ProviderTurn where
  active := ht.active
  idle := ht.idle
  budget := (noProviderBudget_replan h).trans ht.budget

theorem providerEffect_replan (h : s.plan.SameButFlags q) :
    (s.replan q).providerEffect = s.providerEffect := by
  rw [providerEffect, providerEffect, nextModelRequest_replan h]
  rfl

theorem nextEffect_replan (h : s.plan.SameButFlags q) (hidle : s.pendingTools = []) :
    (s.replan q).nextEffect = s.nextEffect := by
  have hq : (s.replan q).pendingTools = [] := hidle
  have hstatus : (s.replan q).status = s.status := rfl
  unfold nextEffect
  rw [hq, hidle, hstatus, noProviderBudget_replan h, providerEffect_replan h]

theorem applyResponse_replan (response : ModelResponse) :
    (s.replan q).applyResponse response = (s.applyResponse response).replan q := by
  unfold applyResponse
  split
  · rfl
  · split <;> rfl

theorem fail_replan (message : String) :
    (s.replan q).fail message = (s.fail message).replan q := by
  unfold fail
  show (if s.status.isActive then _ else _) = _
  split <;> rfl

section

variable [RequestText]

theorem nextModelTokenReservation_replan (h : s.plan.SameButFlags q) :
    (s.replan q).nextModelTokenReservation = s.nextModelTokenReservation := by
  have hmax : (s.replan q).plan.maxOutputTokens = s.plan.maxOutputTokens := by
    show q.maxOutputTokens = _
    rw [h.rest]
  unfold nextModelTokenReservation
  rw [nextModelRequest_replan h, hmax]
  rfl

theorem recordProviderEffect_replan (h : s.plan.SameButFlags q)
    (attempts : List ProviderAttempt) (usage : Option ModelTokenUsage) :
    (s.replan q).recordProviderEffect attempts usage =
      (s.recordProviderEffect attempts usage).replan q := by
  unfold recordProviderEffect reserveProviderAttemptTokens recordProviderAttempts
  rw [nextModelTokenReservation_replan h]
  split
  · rfl
  · rfl

theorem acceptResponse_replan (h : s.plan.SameButFlags q) (response : ModelResponse)
    (attempts : List ProviderAttempt) :
    (s.replan q).acceptResponse response attempts =
      (s.acceptResponse response attempts).replan q := by
  have hrun : ({ s with status := .running } : AgentRunState).plan.SameButFlags q := h
  have hrec := recordProviderEffect_replan hrun attempts response.usage
  rw [acceptResponse, acceptResponse, ← applyResponse_replan, ← hrec]
  rfl

end

section

variable [JsonText] (a : Assignment)

theorem resolve_replan (s : AgentRunState) (call : ModelToolCall) :
    resolve a (s.replan q) call = (resolve a s call).replan q := by
  have hinv : ((s.replan q).toolEffectCall call).invocation =
      (s.toolEffectCall call).invocation := rfl
  rw [resolve, resolve, hinv]
  simp only [replan, resolveCall, reserveChild]
  cases (a.result s.history.length (s.toolEffectCall call).invocation call.arguments).childUsage
  · rfl
  · rfl

theorem foldl_resolve_replan (calls : List ModelToolCall) (s : AgentRunState) :
    calls.foldl (resolve a) (s.replan q) = (calls.foldl (resolve a) s).replan q := by
  induction calls generalizing s with
  | nil => rfl
  | cons call calls ih => rw [List.foldl_cons, List.foldl_cons, resolve_replan, ih]

theorem settle_replan : settle a (s.replan q) = (settle a s).replan q := by
  by_cases ha : s.status.isActive = true
  · have hq : (s.replan q).status.isActive = true := ha
    rw [settle, settle, if_pos ha, if_pos hq]
    exact foldl_resolve_replan a s.pendingTools s
  · have hq : ¬ (s.replan q).status.isActive = true := ha
    rw [settle, settle, if_neg ha, if_neg hq]

theorem settle_plan : (settle a s).plan = s.plan := by
  have hfold : ∀ (calls : List ModelToolCall) (t : AgentRunState),
      (calls.foldl (resolve a) t).plan = t.plan := by
    intro calls
    induction calls with
    | nil => exact fun t => rfl
    | cons call calls ih => exact fun t => (ih _).trans (by simp [resolve])
  unfold settle
  split
  · exact hfold _ _
  · rfl

variable [RequestText]

/-- What a completion makes of a state where no tool is pending does not depend on the flags. -/
theorem Committed.replan {e : AgentRunEffect} {o : AgentEffectOutcome} {s' : AgentRunState}
    (h : s.plan.SameButFlags q) (hidle : s.pendingTools = []) (hc : Committed s e o s') :
    Committed (s.replan q) e o (s'.replan q) := by
  cases hc with
  | response response attempts ht =>
    rw [← acceptResponse_replan h, ← providerEffect_replan h]
    exact .response response attempts (ht.replan h)
  | failure error attempts ht =>
    rw [← fail_replan, ← recordProviderEffect_replan h, ← providerEffect_replan h]
    exact .failure error attempts (ht.replan h)
  | exhausted required ht =>
    rw [← providerEffect_replan h]
    exact .exhausted required (ht.replan h)
  | tool call rest output attempts usage ht => simp [ht.pending] at hidle
  | batch call rest outputs ht hlen => simp [ht.pending] at hidle

theorem step_replan (h : s.plan.SameButFlags q) (hidle : s.pendingTools = []) :
    a.step (s.replan q) = (a.step s).replan q := by
  have hnext := nextEffect_replan h hidle
  cases hn : s.nextEffect with
  | none => rw [step_of_none a hn, step_of_none a (hnext.trans hn)]
  | some e =>
    by_cases hf : e.Fits (a.outcome s.history.length e)
    · obtain ⟨s', hc⟩ := exists_committed hn hf
      rw [step_of_committed a hc]
      exact step_of_committed a (hc.replan h hidle)
    · rw [step_of_not_fits a hn hf]
      exact step_of_not_fits a (hnext.trans hn) hf

/-- The states of two runs, the one under the plan `p` and the other under `q`. -/
structure Replanned (p q : AgentRunPlan) (s t : AgentRunState) : Prop where
  plan : s.plan = p
  eq : t = s.replan q

omit [JsonText] [RequestText] in
theorem Replanned.symm {p : AgentRunPlan} {t : AgentRunState} (h : Replanned p q s t) :
    Replanned q p t s where
  plan := by rw [h.eq]; rfl
  eq := by rw [h.eq, ← h.plan]; rfl

variable {p : AgentRunPlan}

theorem Replanned.paired (h : p.SameButFlags q) (hp : p.Undelegated) {t : AgentRunState}
    (hr : Replanned p q s t) :
    SettledRuns.System.Paired (settling a) (settling a) (Replanned p q) s t where
  left := by
    show s.plan.Undelegated
    rw [hr.plan]
    exact hp
  right := by
    rw [hr.eq]
    exact h.undelegated hp
  quiet := by rw [hr.eq]; rfl
  settles :=
    { plan := (settle_plan a).trans hr.plan
      eq := by rw [hr.eq]; exact settle_replan a }

theorem settling_simulates (h : p.SameButFlags q) (hp : p.Undelegated) :
    SettledRuns.System.Simulates (settling a) (settling a) (Replanned p q) where
  quiet hr := by rw [hr.eq]; rfl
  right hr := (hr.paired a h hp).right
  step {s t} hr hq := by
    have hidle : s.pendingTools = [] := by simpa [settling] using hq
    have hstep : Replanned p q (a.step s) (a.step t) :=
      { plan := (step_plan a).trans hr.plan
        eq := by rw [hr.eq]; exact step_replan a (hr.plan ▸ h) hidle }
    exact hstep.paired a h hp

omit [JsonText] [RequestText] in
theorem map_replan_of_forall₂ {xs ys : List AgentRunState}
    (h : List.Forall₂ (Replanned p q) xs ys) : ys = xs.map (replan q) := by
  induction h with
  | nil => rfl
  | cons hr _ ih => rw [List.map_cons, ← hr.eq, ← ih]

end

end AgentRunState

open AgentRunState

/-- For every assignment and every two plans that differ in flags of tools that do not delegate,
the two runs show the same states without pending tools, in the same order, but for the plan:
whatever one run shows in some number of steps, the other shows in some number of its own. -/
theorem parallel_batches_commit_alike [JsonText] [RequestText] (a : Assignment)
    (s : AgentRunState) (q : AgentRunPlan) (h : s.plan.SameButFlags q)
    (hp : s.plan.Undelegated) :
    (∀ n, ∃ m, (settling a).settled m (s.replan q) =
      ((settling a).settled n s).map (replan q)) ∧
    ∀ m, ∃ n, (settling a).settled m (s.replan q) =
      ((settling a).settled n s).map (replan q) := by
  have hr : Replanned s.plan q s (s.replan q) := ⟨rfl, rfl⟩
  constructor
  · intro n
    obtain ⟨m, hm⟩ := (settling_simulates a h hp).visits n (hr.paired a h hp)
    exact ⟨m, map_replan_of_forall₂ hm⟩
  · intro m
    have hp' := h.undelegated hp
    obtain ⟨n, hn⟩ := (settling_simulates a h.symm hp').visits m (hr.symm.paired a h.symm hp')
    exact ⟨n, map_replan_of_forall₂ (hn.flip.imp fun _ _ ht => ht.symm)⟩

namespace Sample

def twoPending (parallelSafe : Bool) : AgentRunState :=
  { state with
    plan := { plan with tools := [lookupPolicy parallelSafe] }
    pendingTools := [call "a" .null, call "b" .null]
    status := .running }

def echo : Assignment :=
  { provider := fun _ => .provider (textResponse "done") []
    result := fun _ _ arguments =>
      { output := arguments, attempts := 1, childUsage := none } }

end Sample

theorem parallel_batches_commit_alike_sample :
    let _ := Sample.jsonText
    let _ := Sample.requestText
    ∃ m, (settling Sample.echo).settled m (Sample.twoPending false) =
      ((settling Sample.echo).settled 2 (Sample.twoPending true)).map
        (replan (Sample.twoPending false).plan) := by
  intro _ _
  exact (parallel_batches_commit_alike Sample.echo (Sample.twoPending true)
    (Sample.twoPending false).plan ⟨.cons rfl .nil, rfl⟩ (by decide)).1 2

end Agentive
