import Agentive.CommitAtomicity
import Agentive.RunTrace

/-! Ended runs. The operations of a state may race to end it; the first one wins, and status,
text, error and history tell one story. -/

namespace Agentive

open AgentRunState

/-- The operations on a run state, with the arguments of their callers. -/
inductive Operation
  | commitEffect (id : String) (o : AgentEffectOutcome)
  | commitProviderResponse (id : String) (response : ModelResponse)
  | commitToolResult (id : String) (output : Value)
  | commitToolError (id code message : String)
  | cancel
  | fail (message : String)
  | finishIfExhausted
  | recordElapsed (ms : U64)

section

variable [JsonText] [RequestText]

/-- The state that an operation leaves, whether or not it was accepted. -/
def Operation.apply (s : AgentRunState) : Operation → AgentRunState
  | .commitEffect id o => (s.commitEffect id o).1
  | .commitProviderResponse id response => (s.commitProviderResponse id response).1
  | .commitToolResult id output => (s.commitToolResult id output).1
  | .commitToolError id code message => (s.commitToolError id code message).1
  | .cancel => s.cancel
  | .fail message => s.fail message
  | .finishIfExhausted => s.finishIfExhausted.1
  | .recordElapsed ms => s.recordElapsed ms

/-- The three entry points for one outcome are commits of that outcome. -/
theorem Operation.apply_cases (s : AgentRunState) (op : Operation) :
    (∃ id o, op.apply s = (s.commitEffect id o).1) ∨ Quiet s (op.apply s) := by
  cases op with
  | commitEffect id o => exact .inl ⟨id, o, rfl⟩
  | commitProviderResponse id response => exact .inl ⟨id, .provider response [], rfl⟩
  | commitToolResult id output => exact .inl ⟨id, .tool output 0 none, rfl⟩
  | commitToolError id code message => exact .inl ⟨id, .tool (.ofError code message) 0 none, rfl⟩
  | cancel => exact .inr .cancel
  | fail message => exact .inr (.fail message)
  | finishIfExhausted => exact .inr .exhausted
  | recordElapsed ms => exact .inr (.elapsed ms)

/-- An operation completes an effect, makes a quiet transition, or changes nothing. -/
theorem Operation.apply_steps (s : AgentRunState) (op : Operation) :
    (∃ e o, Committed s e o (op.apply s)) ∨ Quiet s (op.apply s) ∨ op.apply s = s := by
  rcases op.apply_cases s with ⟨id, o, h⟩ | h
  · obtain ⟨s', result, hc⟩ : ∃ s' result, s.commitEffect id o = (s', result) := ⟨_, _, rfl⟩
    rw [h, hc]
    cases result with
    | error err => exact .inr (.inr (commitEffect_error hc))
    | ok =>
      obtain ⟨e, _, _, hcommitted⟩ := committed_of_commitEffect hc
      exact .inl ⟨e, o, hcommitted⟩
  · exact .inr (.inl h)

end

/-- Status, text, error, history and pending tools tell one story. -/
structure Coherent (s : AgentRunState) : Prop where
  text : s.status = .completed ↔ s.text.isSome = true
  final : ∀ t, s.text = some t →
    s.history.getLast? = some (.assistantText t) ∧ s.pendingTools = []
  error : s.status = .failed ↔ s.error.isSome = true

theorem coherent_withPlan (runId : String) (history : List Message) (budget : AgentRunBudget)
    (plan : AgentRunPlan) : Coherent (.withPlan runId history budget plan) := by
  refine ⟨?_, ?_, ?_⟩ <;> simp [withPlan]

theorem Coherent.active {s : AgentRunState} (h : Coherent s) (ha : s.status.isActive = true) :
    s.text = none ∧ s.error = none := by
  refine ⟨?_, ?_⟩
  · have hne : s.status ≠ .completed := fun he => by simp [he, RunStatus.isActive] at ha
    simpa using mt h.text.mpr hne
  · have hne : s.status ≠ .failed := fun he => by simp [he, RunStatus.isActive] at ha
    simpa using mt h.error.mpr hne

/-- A state with the text and the error of an active coherent state is coherent as long as its
status claims neither. -/
theorem Coherent.of_same {s s' : AgentRunState} (h : Coherent s) (ha : s.status.isActive = true)
    (htext : s'.text = s.text) (herror : s'.error = s.error) (hcompleted : s'.status ≠ .completed)
    (hfailed : s'.status ≠ .failed) : Coherent s' := by
  obtain ⟨ht, he⟩ := h.active ha
  refine ⟨?_, ?_, ?_⟩
  · simp [htext, ht, hcompleted]
  · simp [htext, ht]
  · simp [herror, he, hfailed]

theorem Coherent.fail {s : AgentRunState} (h : Coherent s) (message : String) :
    Coherent (s.fail message) := by
  cases ha : s.status.isActive with
  | false => simpa [AgentRunState.fail, ha] using h
  | true =>
    obtain ⟨ht, _⟩ := h.active ha
    refine ⟨?_, ?_, ?_⟩ <;> simp [AgentRunState.fail, ha, ht]

theorem Coherent.quiet {s s' : AgentRunState} (h : Coherent s) (hq : Quiet s s') :
    Coherent s' := by
  have hcancel : Coherent s.cancel := by
    cases ha : s.status.isActive with
    | false => simpa [AgentRunState.cancel, ha] using h
    | true => refine h.of_same ha ?_ ?_ ?_ ?_ <;> simp [AgentRunState.cancel, ha]
  cases hq with
  | elapsed ms => exact ⟨h.text, h.final, h.error⟩
  | exhausted =>
    unfold finishIfExhausted
    split
    · exact hcancel
    · split
      · next hb =>
        have ha : s.status.isActive = true := by
          simp only [Bool.and_eq_true] at hb
          exact hb.1.1
        refine h.of_same ha rfl rfl ?_ ?_ <;> simp [markIncomplete]
      · exact h
  | cancel => exact hcancel
  | fail message => exact h.fail message

section

variable [JsonText] [RequestText] {s s' : AgentRunState}

theorem Coherent.committed {e : AgentRunEffect} {o : AgentEffectOutcome} (h : Coherent s)
    (hc : Committed s e o s') : Coherent s' := by
  have ha := active_of_nextEffect hc.nextEffect
  have hcompleted : s.status ≠ .completed := fun he => by simp [he, RunStatus.isActive] at ha
  have hfailed : s.status ≠ .failed := fun he => by simp [he, RunStatus.isActive] at ha
  have hrecord (t : AgentRunState) (attempts : List ProviderAttempt)
      (usage : Option ModelTokenUsage) : (t.recordProviderEffect attempts usage).text = t.text ∧
        (t.recordProviderEffect attempts usage).error = t.error := by
    unfold recordProviderEffect recordProviderAttempts
    split <;> exact ⟨rfl, rfl⟩
  cases hc with
  | response response attempts ht =>
    obtain ⟨_, herror⟩ := h.active ha
    unfold acceptResponse applyResponse
    split
    · refine h.of_same ha ?_ ?_ ?_ ?_ <;> simp [hrecord]
    · split
      · next text _ =>
        refine ⟨?_, ?_, ?_⟩
        · simp
        · simp [ht.idle]
        · simp [hrecord, herror]
      · refine h.of_same ha ?_ ?_ ?_ ?_ <;> simp [markIncomplete, hrecord]
  | failure error attempts ht =>
    have hcoherent : Coherent (s.recordProviderEffect attempts error.usage) := by
      refine h.of_same ha ?_ ?_ ?_ ?_ <;> simp [hrecord, hcompleted, hfailed]
    exact hcoherent.fail error.message
  | exhausted required ht => refine h.of_same ha rfl rfl ?_ ?_ <;> simp [markIncomplete]
  | tool call rest output attempts usage ht =>
    refine h.of_same ha ?_ ?_ ?_ ?_
    · cases usage <;> cases s.delegationBudgetFor call <;> rfl
    · cases usage <;> cases s.delegationBudgetFor call <;> rfl
    · simpa using hcompleted
    · simpa using hfailed
  | batch call rest outputs ht hlen =>
    obtain ⟨hstatus, htext, herror⟩ := foldl_resolveItem_invariant
      (I := fun t => t.status = s.status ∧ t.text = s.text ∧ t.error = s.error)
      (fun t call _ output usage reservation _ ht => by
        refine ⟨by simpa using ht.1, ?_⟩
        cases usage <;> cases reservation <;> exact ht.2)
      _ s (batchItems_calls hlen) ⟨rfl, rfl, rfl⟩
    exact h.of_same ha htext herror (by rwa [hstatus]) (by rwa [hstatus])

theorem Coherent.apply (h : Coherent s) (op : Operation) : Coherent (op.apply s) := by
  rcases op.apply_steps s with ⟨e, o, hc⟩ | hq | hsame
  · exact h.committed hc
  · exact h.quiet hq
  · rwa [hsame]

/-- What no operation changes in a run that has ended. -/
structure SameOutcome (s s' : AgentRunState) : Prop where
  status : s'.status = s.status
  text : s'.text = s.text
  error : s'.error = s.error
  history : s'.history = s.history
  usage : s'.usage = s.usage
  pendingTools : s'.pendingTools = s.pendingTools
  modelCalls : s'.modelCalls = s.modelCalls
  providerCallsStarted : s'.providerCallsStarted = s.providerCallsStarted
  reservedChildModelCalls : s'.reservedChildModelCalls = s.reservedChildModelCalls
  reservedTokens : s'.reservedTokens = s.reservedTokens

theorem sameOutcome_apply (hended : s.status.isActive = false) (op : Operation) :
    SameOutcome s (op.apply s) := by
  have hself : SameOutcome s s := ⟨rfl, rfl, rfl, rfl, rfl, rfl, rfl, rfl, rfl, rfl⟩
  rcases op.apply_steps s with ⟨e, o, hc⟩ | hq | hsame
  · simp [active_of_nextEffect hc.nextEffect] at hended
  · generalize op.apply s = s' at hq
    cases hq with
    | elapsed ms => exact ⟨rfl, rfl, rfl, rfl, rfl, rfl, rfl, rfl, rfl, rfl⟩
    | exhausted => simpa [finishIfExhausted, hended] using hself
    | cancel => simpa [AgentRunState.cancel, hended] using hself
    | fail message => simpa [AgentRunState.fail, hended] using hself
  · rwa [hsame]

theorem sameOutcome_foldl (hended : s.status.isActive = false) (ops : List Operation) :
    SameOutcome s (ops.foldl Operation.apply s) := by
  induction ops generalizing s with
  | nil => exact ⟨rfl, rfl, rfl, rfl, rfl, rfl, rfl, rfl, rfl, rfl⟩
  | cons op ops ih =>
    have hop := sameOutcome_apply hended op
    have hrest := ih (s := op.apply s) (by rw [hop.status, hended])
    exact ⟨hrest.status.trans hop.status, hrest.text.trans hop.text,
      hrest.error.trans hop.error, hrest.history.trans hop.history, hrest.usage.trans hop.usage,
      hrest.pendingTools.trans hop.pendingTools, hrest.modelCalls.trans hop.modelCalls,
      hrest.providerCallsStarted.trans hop.providerCallsStarted,
      hrest.reservedChildModelCalls.trans hop.reservedChildModelCalls,
      hrest.reservedTokens.trans hop.reservedTokens⟩

theorem coherent_foldl (h : Coherent s) (ops : List Operation) :
    Coherent (ops.foldl Operation.apply s) := by
  induction ops generalizing s with
  | nil => exact h
  | cons op ops ih => exact ih (h.apply op)

/-- Every state that operations reach is coherent, and once it has ended no further operation
changes its outcome. -/
theorem terminal_exclusivity (runId : String) (history : List Message) (budget : AgentRunBudget)
    (plan : AgentRunPlan) (ops : List Operation) :
    let s := ops.foldl Operation.apply (.withPlan runId history budget plan)
    Coherent s ∧ (s.status.isActive = false →
      ∀ more : List Operation, SameOutcome s (more.foldl Operation.apply s)) :=
  ⟨coherent_foldl (coherent_withPlan runId history budget plan) ops,
    fun hended more => sameOutcome_foldl hended more⟩

end

end Agentive
