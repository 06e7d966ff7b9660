import Agentive.Transitions

/-! Commits are exact and atomic: a completion is accepted when it fits the next effect, and one
that is not accepted leaves the state as it was. -/

namespace Agentive

open AgentRunState

section

variable [JsonText] {s s' : AgentRunState} {id : String}

theorem commitToolResultWithUsage_error {output : Value} {usage : Option RunUsage}
    {err : StateTransitionError}
    (h : s.commitToolResultWithUsage id output usage = (s', .error err)) : s' = s := by
  cases hx : s.expectEffect id false with
  | error e =>
    simp only [commitToolResultWithUsage, hx, Prod.mk.injEq] at h
    exact h.1.symm
  | ok =>
    obtain ⟨e, he, rfl, ht⟩ := expectEffect_ok_iff.mp hx
    obtain ⟨call, rest, hturn⟩ : ∃ call rest, s.ToolTurn call rest := by simpa using ht
    simp [commitToolResultWithUsage, hx, hturn.pending] at h

variable [RequestText] {o : AgentEffectOutcome}

theorem commitEffect_ok_iff :
    (∃ s', s.commitEffect id o = (s', .ok ())) ↔
      ∃ e, s.nextEffect = some e ∧ e.effectId = id ∧ e.Fits o := by
  constructor
  · rintro ⟨s', h⟩
    obtain ⟨e, he, hid, hc⟩ := committed_of_commitEffect h
    exact ⟨e, he, hid, hc.fits⟩
  · rintro ⟨e, he, rfl, hf⟩
    obtain ⟨s', hc⟩ := exists_committed he hf
    exact ⟨s', hc.commitEffect⟩

/-- The loop of a batch commit has one pending call for each output that the check let pass. -/
theorem commitToolBatch_error {outputs : List ToolEffectResult} {err : StateTransitionError}
    (h : s.commitToolBatch id outputs = (s', .error err)) : s' = s := by
  cases hx : s.expectBatch id outputs.length with
  | error e =>
    simp only [commitToolBatch, hx, Prod.mk.injEq] at h
    exact h.1.symm
  | ok =>
    obtain ⟨call, rest, ht, rfl, hlen⟩ := expectBatch_ok_iff.mp hx
    have hok := (Committed.batch call rest outputs ht hlen.symm).commitEffect
    have hcommit : s.commitToolBatch (s.toolBatchEffect call).effectId outputs = _ := hok
    rw [hcommit, Prod.mk.injEq] at h
    cases h.2

theorem commitEffect_error {err : StateTransitionError}
    (h : s.commitEffect id o = (s', .error err)) : s' = s := by
  cases o with
  | provider response attempts =>
    cases hx : s.expectEffect id true with
    | error e =>
      simp only [commitEffect, commitProviderResponseWithAttempts, hx, Prod.mk.injEq] at h
      exact h.1.symm
    | ok => simp [commitEffect, commitProviderResponseWithAttempts, hx] at h
  | providerFailed error attempts =>
    cases hx : s.expectEffect id true with
    | error e =>
      simp only [commitEffect, commitProviderFailure, hx, Prod.mk.injEq] at h
      exact h.1.symm
    | ok => simp [commitEffect, commitProviderFailure, hx] at h
  | providerBudgetExhausted required =>
    cases hx : s.expectEffect id true with
    | error e =>
      simp only [commitEffect, commitBudgetExhausted, hx, Prod.mk.injEq] at h
      exact h.1.symm
    | ok => simp [commitEffect, commitBudgetExhausted, hx] at h
  | tool output attempts usage => exact commitToolResultWithUsage_error h
  | toolBatch outputs => exact commitToolBatch_error h

end

/-- For every state, a completion is accepted exactly when it has the id of the next effect and
fits it; a rejected one changes nothing, whichever entry point it came through. -/
theorem commits_exact_and_atomic [JsonText] [RequestText] (s : AgentRunState) (id : String) :
    (∀ o, (∃ s', s.commitEffect id o = (s', .ok ())) ↔
      ∃ e, s.nextEffect = some e ∧ e.effectId = id ∧ e.Fits o) ∧
    (∀ o s' err, s.commitEffect id o = (s', .error err) → s' = s) ∧
    (∀ response s' err, s.commitProviderResponse id response = (s', .error err) → s' = s) ∧
    (∀ output s' err, s.commitToolResult id output = (s', .error err) → s' = s) ∧
    ∀ code message s' err, s.commitToolError id code message = (s', .error err) → s' = s := by
  refine ⟨fun _ => commitEffect_ok_iff, fun _ _ _ h => commitEffect_error h,
    fun response _ _ h => ?_, fun _ _ _ h => commitToolResultWithUsage_error h,
    fun _ _ _ _ h => commitToolResultWithUsage_error h⟩
  exact commitEffect_error (o := .provider response []) h

end Agentive
