import Agentive.Commits

/-! What one accepted completion can do to a run state. Every result about runs goes through the
five cases of `Committed`, not through the commit functions. -/

namespace Agentive

/-- A completion with its kind and its number of results fits the effect. -/
def AgentRunEffect.Fits : AgentRunEffect → AgentEffectOutcome → Prop
  | .providerCall _ _ _ _, .provider _ _ => True
  | .providerCall _ _ _ _, .providerFailed _ _ => True
  | .providerCall _ _ _ _, .providerBudgetExhausted _ => True
  | .toolCall _ _ _ _ _, .tool _ _ _ => True
  | .toolBatch _ calls, .toolBatch outputs => outputs.length = calls.length
  | _, _ => False

namespace AgentRunState

/-- The next effect is a provider call. -/
structure ProviderTurn (s : AgentRunState) : Prop where
  active : s.status.isActive = true
  idle : s.pendingTools = []
  budget : s.noProviderBudget = false

/-- The next effect is the call of one tool, for the first pending call. -/
structure ToolTurn (s : AgentRunState) (call : ModelToolCall) (rest : List ModelToolCall) :
    Prop where
  active : s.status.isActive = true
  pending : s.pendingTools = call :: rest
  single : s.batchable = false

/-- The next effect is the batch of all pending calls. -/
structure BatchTurn (s : AgentRunState) (call : ModelToolCall) (rest : List ModelToolCall) :
    Prop where
  active : s.status.isActive = true
  pending : s.pendingTools = call :: rest
  batch : s.batchable = true

variable {s s' : AgentRunState} {call : ModelToolCall} {rest : List ModelToolCall}

theorem ProviderTurn.nextEffect (h : s.ProviderTurn) : s.nextEffect = some s.providerEffect := by
  simp [AgentRunState.nextEffect, h.active, h.idle, h.budget]

theorem ToolTurn.nextEffect (h : s.ToolTurn call rest) :
    s.nextEffect = some (s.toolEffect call) := by
  simp [AgentRunState.nextEffect, h.active, h.pending, h.single]

theorem BatchTurn.nextEffect (h : s.BatchTurn call rest) :
    s.nextEffect = some (s.toolBatchEffect call) := by
  simp [AgentRunState.nextEffect, h.active, h.pending, h.batch]

/-- At a provider turn the charged calls are below the limit, so no counter has saturated. -/
theorem ProviderTurn.charged_lt (h : s.ProviderTurn) :
    Nat.max s.providerCallsStarted.val s.modelCalls.val + s.reservedChildModelCalls.val <
      s.budget.modelCallLimit.val := by
  have hb := h.budget
  simp only [noProviderBudget, Bool.or_eq_false_iff, decide_eq_false_iff_not] at hb
  have hlt := hb.1
  have hcap := s.budget.modelCallLimit.le_cap
  simp only [callsCharged, Capped.le_def, Capped.val_saturatingAdd, Capped.val_max] at hlt
  show Max.max _ _ + _ < _
  omega

theorem nextEffect_cases {e : AgentRunEffect} (h : s.nextEffect = some e) :
    (s.ProviderTurn ∧ e = s.providerEffect) ∨
    (∃ call rest, s.ToolTurn call rest ∧ e = s.toolEffect call) ∨
    (∃ call rest, s.BatchTurn call rest ∧ e = s.toolBatchEffect call) := by
  have hactive : s.status.isActive = true := by
    by_contra hn
    simp [AgentRunState.nextEffect, hn] at h
  cases hp : s.pendingTools with
  | nil =>
    have hb : s.noProviderBudget = false := by
      by_contra hn
      simp [AgentRunState.nextEffect, hp, hn] at h
    have hturn : s.ProviderTurn := ⟨hactive, hp, hb⟩
    rw [hturn.nextEffect, Option.some.injEq] at h
    exact .inl ⟨hturn, h.symm⟩
  | cons call rest =>
    cases hb : s.batchable with
    | false =>
      have hturn : s.ToolTurn call rest := ⟨hactive, hp, hb⟩
      rw [hturn.nextEffect, Option.some.injEq] at h
      exact .inr (.inl ⟨call, rest, hturn, h.symm⟩)
    | true =>
      have hturn : s.BatchTurn call rest := ⟨hactive, hp, hb⟩
      rw [hturn.nextEffect, Option.some.injEq] at h
      exact .inr (.inr ⟨call, rest, hturn, h.symm⟩)

theorem nextEffect_idle {e : AgentRunEffect} (h : s.nextEffect = some e)
    (hidle : s.pendingTools = []) : s.ProviderTurn ∧ e = s.providerEffect := by
  rcases nextEffect_cases h with hp | ⟨call, rest, ht, _⟩ | ⟨call, rest, ht, _⟩
  · exact hp
  · simp [ht.pending] at hidle
  · simp [ht.pending] at hidle

theorem pending_of_calls {e : AgentRunEffect} {call : ToolEffectCall} {j : Nat}
    (he : s.nextEffect = some e) (h : e.calls[j]? = some call) :
    ∃ pending, s.pendingTools[j]? = some pending ∧ call = s.toolEffectCall pending := by
  rcases nextEffect_cases he with ⟨_, rfl⟩ | ⟨first, rest, ht, rfl⟩ | ⟨first, rest, ht, rfl⟩
  · simp [providerEffect, AgentRunEffect.calls] at h
  · have hcalls : (s.toolEffect first).calls = [s.toolEffectCall first] := rfl
    rw [hcalls, List.getElem?_singleton] at h
    split at h
    · next hj =>
      obtain rfl := Option.some.inj h
      exact ⟨first, by rw [hj, ht.pending]; rfl, rfl⟩
    · cases h
  · have hcalls : (s.toolBatchEffect first).calls = s.pendingTools.map s.toolEffectCall := rfl
    rw [hcalls, List.getElem?_map, Option.map_eq_some_iff] at h
    obtain ⟨pending, hpending, rfl⟩ := h
    exact ⟨pending, hpending, rfl⟩

theorem active_of_nextEffect {e : AgentRunEffect} (h : s.nextEffect = some e) :
    s.status.isActive = true := by
  rcases nextEffect_cases h with ⟨ht, _⟩ | ⟨_, _, ht, _⟩ | ⟨_, _, ht, _⟩ <;> exact ht.active

theorem finishIfExhausted_eq_self (h : s.finishIfExhausted.2 = false) :
    s.finishIfExhausted = (s, false) := by
  unfold finishIfExhausted at h ⊢
  split
  · next hd => simp [hd] at h
  · next hd =>
    rw [if_neg hd] at h
    split
    · next hb => simp [hb] at h
    · rfl

theorem nextEffect_ne_none (ha : s.status.isActive = true)
    (hx : s.finishIfExhausted = (s, false)) : s.nextEffect ≠ none := by
  intro hn
  cases hp : s.pendingTools with
  | nil =>
    cases hb : s.noProviderBudget with
    | true =>
      simp only [finishIfExhausted, ha, hp, hb, Bool.true_and, List.isEmpty_nil, if_true] at hx
      split at hx <;> simp at hx
    | false =>
      have hturn : s.ProviderTurn := ⟨ha, hp, hb⟩
      rw [hturn.nextEffect] at hn
      cases hn
  | cons call rest =>
    simp only [nextEffect, ha, hp, if_true] at hn
    split at hn <;> cases hn

/-- Exhaustion ends an active run, as cancelled or as incomplete. -/
theorem finishIfExhausted_eq_true {t : AgentRunState}
    (h : s.finishIfExhausted = (t, true)) :
    s.status.isActive = true ∧
      ((s.deadlineReached = true ∧ t = s.cancel ∧ t.status = .cancelled) ∨
        (s.pendingTools = [] ∧ t = s.markIncomplete ∧ t.status = .incomplete)) := by
  unfold finishIfExhausted at h
  split at h
  · next hd =>
    simp only [Bool.and_eq_true] at hd
    obtain rfl := (Prod.mk.inj h).1
    exact ⟨hd.1, .inl ⟨hd.2, rfl, by simp [AgentRunState.cancel, hd.1]⟩⟩
  · split at h
    · next hb =>
      simp only [Bool.and_eq_true, List.isEmpty_iff] at hb
      obtain rfl := (Prod.mk.inj h).1
      exact ⟨hb.1.1, .inr ⟨hb.1.2, rfl, rfl⟩⟩
    · cases (Prod.mk.inj h).2

theorem expectEffect_ok_iff {id : String} {provider : Bool} :
    s.expectEffect id provider = .ok () ↔
      ∃ e, s.nextEffect = some e ∧ e.effectId = id ∧
        (if provider then s.ProviderTurn else ∃ call rest, s.ToolTurn call rest) := by
  constructor
  · intro h
    cases he : s.nextEffect with
    | none => simp [expectEffect, he] at h
    | some e =>
      refine ⟨e, rfl, ?_⟩
      rcases nextEffect_cases he with ⟨ht, rfl⟩ | ⟨call, rest, ht, rfl⟩ | ⟨call, rest, ht, rfl⟩
      · cases provider <;> simp [expectEffect, he, providerEffect, AgentRunEffect.effectId] at h ⊢
        exact ⟨h, ht⟩
      · cases provider <;> simp [expectEffect, he, toolEffect, AgentRunEffect.effectId] at h ⊢
        exact ⟨h, call, rest, ht⟩
      · cases provider <;> simp [expectEffect, he, toolBatchEffect] at h
  · rintro ⟨e, he, rfl, ht⟩
    cases provider with
    | true =>
      have hturn : s.ProviderTurn := by simpa using ht
      rw [hturn.nextEffect, Option.some.injEq] at he
      subst he
      simp [expectEffect, hturn.nextEffect, providerEffect, AgentRunEffect.effectId]
    | false =>
      obtain ⟨call, rest, hturn⟩ : ∃ call rest, s.ToolTurn call rest := by simpa using ht
      rw [hturn.nextEffect, Option.some.injEq] at he
      subst he
      simp [expectEffect, hturn.nextEffect, toolEffect, AgentRunEffect.effectId]

theorem expectBatch_ok_iff {id : String} {count : Nat} :
    s.expectBatch id count = .ok () ↔
      ∃ call rest, s.BatchTurn call rest ∧ (s.toolBatchEffect call).effectId = id ∧
        s.pendingTools.length = count := by
  constructor
  · intro h
    cases he : s.nextEffect with
    | none => simp [expectBatch, he] at h
    | some e =>
      rcases nextEffect_cases he with ⟨ht, rfl⟩ | ⟨call, rest, ht, rfl⟩ | ⟨call, rest, ht, rfl⟩
      · simp [expectBatch, he, providerEffect] at h
      · simp [expectBatch, he, toolEffect] at h
      · simp only [expectBatch, he, toolBatchEffect, List.length_map, decide_eq_true_eq] at h
        split at h
        · next hc => exact ⟨call, rest, ht, hc⟩
        · cases h
  · rintro ⟨call, rest, ht, rfl, rfl⟩
    simp [expectBatch, ht.nextEffect, toolBatchEffect, AgentRunEffect.effectId]

section

variable [RequestText] (s : AgentRunState) (attempts : List ProviderAttempt)
  (finalUsage : Option ModelTokenUsage)

@[simp] theorem recordProviderEffect_runId :
    (s.recordProviderEffect attempts finalUsage).runId = s.runId := by
  unfold recordProviderEffect recordProviderAttempts
  split <;> rfl

@[simp] theorem recordProviderEffect_plan :
    (s.recordProviderEffect attempts finalUsage).plan = s.plan := by
  unfold recordProviderEffect recordProviderAttempts
  split <;> rfl

@[simp] theorem recordProviderEffect_history :
    (s.recordProviderEffect attempts finalUsage).history = s.history := by
  unfold recordProviderEffect recordProviderAttempts
  split <;> rfl

@[simp] theorem recordProviderEffect_pendingTools :
    (s.recordProviderEffect attempts finalUsage).pendingTools = s.pendingTools := by
  unfold recordProviderEffect recordProviderAttempts
  split <;> rfl

@[simp] theorem recordProviderEffect_status :
    (s.recordProviderEffect attempts finalUsage).status = s.status := by
  unfold recordProviderEffect recordProviderAttempts
  split <;> rfl

@[simp] theorem recordProviderEffect_budget :
    (s.recordProviderEffect attempts finalUsage).budget = s.budget := by
  unfold recordProviderEffect recordProviderAttempts
  split <;> rfl

@[simp] theorem recordProviderEffect_modelCalls :
    (s.recordProviderEffect attempts finalUsage).modelCalls = s.modelCalls.saturatingAdd 1 := by
  unfold recordProviderEffect recordProviderAttempts
  split <;> rfl

end

section

variable [RequestText] (s : AgentRunState) (response : ModelResponse)
  (attempts : List ProviderAttempt)

@[simp] theorem acceptResponse_runId :
    (s.acceptResponse response attempts).runId = s.runId := by
  unfold acceptResponse applyResponse
  split
  · simp
  · split <;> simp [markIncomplete]

@[simp] theorem acceptResponse_plan : (s.acceptResponse response attempts).plan = s.plan := by
  unfold acceptResponse applyResponse
  split
  · simp
  · split <;> simp [markIncomplete]

@[simp] theorem acceptResponse_budget :
    (s.acceptResponse response attempts).budget = s.budget := by
  unfold acceptResponse applyResponse
  split
  · simp
  · split <;> simp [markIncomplete]

@[simp] theorem acceptResponse_modelCalls :
    (s.acceptResponse response attempts).modelCalls = s.modelCalls.saturatingAdd 1 := by
  unfold acceptResponse applyResponse
  split
  · simp
  · split <;> simp [markIncomplete]

theorem acceptResponse_pendingTools (hidle : s.pendingTools = []) :
    (s.acceptResponse response attempts).pendingTools = response.toolCalls := by
  unfold acceptResponse applyResponse
  split
  · rfl
  · next hne =>
    rw [not_not.mp hne]
    split <;> simp [markIncomplete, hidle]

end

/-- The pending calls with their outputs and with the reservations made before the batch. -/
def batchItems (s : AgentRunState) (outputs : List ToolEffectResult) :
    List (ModelToolCall × ToolEffectResult × Option DelegationBudget) :=
  s.pendingTools.zip (outputs.zip (s.pendingTools.map s.delegationBudgetFor))

theorem batchItems_calls {outputs : List ToolEffectResult}
    (h : outputs.length = s.pendingTools.length) :
    (s.batchItems outputs).map (·.1) = s.pendingTools := by
  rw [batchItems, ← List.unzip_fst, List.unzip_zip_left]
  simp [h]

theorem batchItems_snd {outputs : List ToolEffectResult}
    (h : outputs.length = s.pendingTools.length) :
    (s.batchItems outputs).map (·.2) = outputs.zip (s.pendingTools.map s.delegationBudgetFor) := by
  rw [batchItems, ← List.unzip_snd, List.unzip_zip_right]
  simp [h]

theorem batchItems_outputs {outputs : List ToolEffectResult}
    (h : outputs.length = s.pendingTools.length) :
    (s.batchItems outputs).map (·.2.1) = outputs := by
  have hmap : (s.batchItems outputs).map (·.2.1) =
      ((s.batchItems outputs).map (·.2)).map (·.1) := by
    rw [List.map_map]
    rfl
  rw [hmap, batchItems_snd h, ← List.unzip_fst, List.unzip_zip_left]
  simp [h]

theorem batchItems_reservations {outputs : List ToolEffectResult}
    (h : outputs.length = s.pendingTools.length) :
    (s.batchItems outputs).map (·.2.2) = s.pendingTools.map s.delegationBudgetFor := by
  have hmap : (s.batchItems outputs).map (·.2.2) =
      ((s.batchItems outputs).map (·.2)).map (·.2) := by
    rw [List.map_map]
    rfl
  rw [hmap, batchItems_snd h, ← List.unzip_snd, List.unzip_zip_right]
  simp [h]

variable [JsonText]

/-- A call with its output and reservation, resolved. -/
def resolveItem (s : AgentRunState)
    (item : ModelToolCall × ToolEffectResult × Option DelegationBudget) : AgentRunState :=
  s.resolveCall item.1 item.2.1.output item.2.1.childUsage item.2.2

@[simp] theorem resolveCall_pendingTools (s : AgentRunState) (call : ModelToolCall)
    (output : Value) (usage : Option RunUsage) (reservation : Option DelegationBudget) :
    (s.resolveCall call output usage reservation).pendingTools = s.pendingTools.tail := by
  cases usage <;> cases reservation <;> rfl

@[simp] theorem resolveCall_history (s : AgentRunState) (call : ModelToolCall)
    (output : Value) (usage : Option RunUsage) (reservation : Option DelegationBudget) :
    (s.resolveCall call output usage reservation).history =
      s.history ++ [Message.toolResult call.callId call.name output] := by
  cases usage <;> cases reservation <;> rfl

@[simp] theorem resolveCall_runId (s : AgentRunState) (call : ModelToolCall)
    (output : Value) (usage : Option RunUsage) (reservation : Option DelegationBudget) :
    (s.resolveCall call output usage reservation).runId = s.runId := by
  cases usage <;> cases reservation <;> rfl

@[simp] theorem resolveCall_plan (s : AgentRunState) (call : ModelToolCall)
    (output : Value) (usage : Option RunUsage) (reservation : Option DelegationBudget) :
    (s.resolveCall call output usage reservation).plan = s.plan := by
  cases usage <;> cases reservation <;> rfl

@[simp] theorem resolveCall_budget (s : AgentRunState) (call : ModelToolCall)
    (output : Value) (usage : Option RunUsage) (reservation : Option DelegationBudget) :
    (s.resolveCall call output usage reservation).budget = s.budget := by
  cases usage <;> cases reservation <;> rfl

@[simp] theorem resolveCall_modelCalls (s : AgentRunState) (call : ModelToolCall)
    (output : Value) (usage : Option RunUsage) (reservation : Option DelegationBudget) :
    (s.resolveCall call output usage reservation).modelCalls = s.modelCalls := by
  cases usage <;> cases reservation <;> rfl

@[simp] theorem resolveCall_status (s : AgentRunState) (call : ModelToolCall)
    (output : Value) (usage : Option RunUsage) (reservation : Option DelegationBudget) :
    (s.resolveCall call output usage reservation).status = s.status := by
  cases usage <;> cases reservation <;> rfl

theorem commitOutputs_eq (id : String) (items : List (ToolEffectResult × Option DelegationBudget))
    (s : AgentRunState) (h : items.length ≤ s.pendingTools.length) :
    commitOutputs id items s = ((s.pendingTools.zip items).foldl resolveItem s, .ok ()) := by
  induction items generalizing s with
  | nil => simp [commitOutputs]
  | cons item items ih =>
    obtain ⟨result, reservation⟩ := item
    cases hp : s.pendingTools with
    | nil => simp [hp] at h
    | cons call rest =>
      have htail : (s.resolveCall call result.output result.childUsage
          reservation).pendingTools = rest := by simp [hp]
      have hlen : items.length ≤ rest.length := by simpa [hp] using h
      have hstep := ih (s.resolveCall call result.output result.childUsage reservation)
        (by rw [htail]; exact hlen)
      simp only [commitOutputs, hp, hstep, htail, List.zip_cons_cons, List.foldl_cons]
      rfl

/-- What the result of one pending call preserves, the results of all of them preserve. -/
theorem foldl_resolveItem_invariant {I : AgentRunState → Prop}
    (hstep : ∀ (s : AgentRunState) call rest output usage reservation,
      s.pendingTools = call :: rest → I s → I (s.resolveCall call output usage reservation))
    (items : List (ModelToolCall × ToolEffectResult × Option DelegationBudget))
    (s : AgentRunState) (hitems : items.map (·.1) = s.pendingTools) (hs : I s) :
    I (items.foldl resolveItem s) := by
  induction items generalizing s with
  | nil => exact hs
  | cons item items ih =>
    have hp : s.pendingTools = item.1 :: items.map (·.1) := hitems.symm
    exact ih (s.resolveItem item) (by simp [resolveItem, hp]) (hstep _ _ _ _ _ _ hp hs)

theorem foldl_resolveItem_pendingTools
    (items : List (ModelToolCall × ToolEffectResult × Option DelegationBudget))
    (s : AgentRunState) :
    (items.foldl resolveItem s).pendingTools = s.pendingTools.drop items.length := by
  induction items generalizing s with
  | nil => rfl
  | cons item items ih => simp [ih, resolveItem]

variable [RequestText]

/-- The five ways in which a completion `o` of the effect `e` takes a state further. -/
inductive Committed (s : AgentRunState) : AgentRunEffect → AgentEffectOutcome →
    AgentRunState → Prop
  | response (response : ModelResponse) (attempts : List ProviderAttempt) :
      s.ProviderTurn →
      Committed s s.providerEffect (.provider response attempts)
        (s.acceptResponse response attempts)
  | failure (error : ProviderError) (attempts : List ProviderAttempt) :
      s.ProviderTurn →
      Committed s s.providerEffect (.providerFailed error attempts)
        ((s.recordProviderEffect attempts error.usage).fail error.message)
  | exhausted (required : U64) :
      s.ProviderTurn →
      Committed s s.providerEffect (.providerBudgetExhausted required) s.markIncomplete
  | tool (call : ModelToolCall) (rest : List ModelToolCall) (output : Value) (attempts : U8)
      (usage : Option RunUsage) :
      s.ToolTurn call rest →
      Committed s (s.toolEffect call) (.tool output attempts usage)
        (s.resolveCall call output usage (s.delegationBudgetFor call))
  | batch (call : ModelToolCall) (rest : List ModelToolCall)
      (outputs : List ToolEffectResult) :
      s.BatchTurn call rest → outputs.length = s.pendingTools.length →
      Committed s (s.toolBatchEffect call) (.toolBatch outputs)
        ((s.batchItems outputs).foldl resolveItem s)

theorem Committed.nextEffect {e : AgentRunEffect} {o : AgentEffectOutcome}
    (h : Committed s e o s') : s.nextEffect = some e := by
  cases h with
  | response _ _ ht => exact ht.nextEffect
  | failure _ _ ht => exact ht.nextEffect
  | exhausted _ ht => exact ht.nextEffect
  | tool _ _ _ _ _ ht => exact ht.nextEffect
  | batch _ _ _ ht _ => exact ht.nextEffect

theorem Committed.commitEffect {e : AgentRunEffect} {o : AgentEffectOutcome}
    (h : Committed s e o s') : s.commitEffect e.effectId o = (s', .ok ()) := by
  have provider (ht : s.ProviderTurn) :
      s.expectEffect s.providerEffect.effectId true = .ok () :=
    expectEffect_ok_iff.mpr ⟨_, ht.nextEffect, rfl, by simpa using ht⟩
  cases h with
  | response response attempts ht =>
    simp [AgentRunState.commitEffect, commitProviderResponseWithAttempts, provider ht]
  | failure error attempts ht =>
    simp [AgentRunState.commitEffect, commitProviderFailure, provider ht]
  | exhausted required ht =>
    simp [AgentRunState.commitEffect, commitBudgetExhausted, provider ht]
  | tool call rest output attempts usage ht =>
    have he : s.expectEffect (s.toolEffect call).effectId false = .ok () :=
      expectEffect_ok_iff.mpr ⟨_, ht.nextEffect, rfl, by simpa using ⟨call, rest, ht⟩⟩
    simp [AgentRunState.commitEffect, commitToolResultWithUsage, he, ht.pending]
  | batch call rest outputs ht hlen =>
    have he : s.expectBatch (s.toolBatchEffect call).effectId outputs.length = .ok () :=
      expectBatch_ok_iff.mpr ⟨call, rest, ht, rfl, hlen.symm⟩
    have hmap : (s.pendingTools.map s.toolEffectCall).map (·.delegationBudget) =
        s.pendingTools.map s.delegationBudgetFor := by
      rw [List.map_map]
      rfl
    have hcount : (outputs.zip (s.pendingTools.map s.delegationBudgetFor)).length ≤
        s.pendingTools.length := by simp [hlen]
    have hn : s.nextEffect = some (.toolBatch (toolBatchEffectId s.runId call.callId)
        (s.pendingTools.map s.toolEffectCall)) := ht.nextEffect
    simp only [AgentRunState.commitEffect, commitToolBatch, he, hn, hmap]
    exact commitOutputs_eq _ _ _ hcount

/-- A completion that is accepted completes the next effect, in one of the five ways. -/
theorem committed_of_commitEffect {id : String} {o : AgentEffectOutcome}
    (h : s.commitEffect id o = (s', .ok ())) :
    ∃ e, s.nextEffect = some e ∧ e.effectId = id ∧ Committed s e o s' := by
  have finish {e : AgentRunEffect} {t : AgentRunState} (hid : e.effectId = id)
      (hc : Committed s e o t) :
      ∃ e, s.nextEffect = some e ∧ e.effectId = id ∧ Committed s e o s' := by
    have ht := hc.commitEffect
    rw [hid, h, Prod.mk.injEq] at ht
    exact ⟨e, hc.nextEffect, hid, ht.1 ▸ hc⟩
  have provider (hx : s.expectEffect id true = .ok ()) :
      s.providerEffect.effectId = id ∧ s.ProviderTurn := by
    obtain ⟨e, he, hid, ht⟩ := expectEffect_ok_iff.mp hx
    have hturn : s.ProviderTurn := by simpa using ht
    rw [hturn.nextEffect, Option.some.injEq] at he
    exact ⟨he ▸ hid, hturn⟩
  cases o with
  | provider response attempts =>
    cases hx : s.expectEffect id true with
    | error e => simp [AgentRunState.commitEffect, commitProviderResponseWithAttempts, hx] at h
    | ok => exact finish (provider hx).1 (.response response attempts (provider hx).2)
  | providerFailed error attempts =>
    cases hx : s.expectEffect id true with
    | error e => simp [AgentRunState.commitEffect, commitProviderFailure, hx] at h
    | ok => exact finish (provider hx).1 (.failure error attempts (provider hx).2)
  | providerBudgetExhausted required =>
    cases hx : s.expectEffect id true with
    | error e => simp [AgentRunState.commitEffect, commitBudgetExhausted, hx] at h
    | ok => exact finish (provider hx).1 (.exhausted required (provider hx).2)
  | tool output attempts usage =>
    cases hx : s.expectEffect id false with
    | error e => simp [AgentRunState.commitEffect, commitToolResultWithUsage, hx] at h
    | ok =>
      obtain ⟨e, he, hid, ht⟩ := expectEffect_ok_iff.mp hx
      obtain ⟨call, rest, hturn⟩ : ∃ call rest, s.ToolTurn call rest := by simpa using ht
      rw [hturn.nextEffect, Option.some.injEq] at he
      exact finish (he ▸ hid) (.tool call rest output attempts usage hturn)
  | toolBatch outputs =>
    cases hx : s.expectBatch id outputs.length with
    | error e => simp [AgentRunState.commitEffect, commitToolBatch, hx] at h
    | ok =>
      obtain ⟨call, rest, hturn, hid, hlen⟩ := expectBatch_ok_iff.mp hx
      exact finish hid (.batch call rest outputs hturn hlen.symm)

theorem exists_committed {e : AgentRunEffect} {o : AgentEffectOutcome}
    (he : s.nextEffect = some e) (hf : e.Fits o) : ∃ s', Committed s e o s' := by
  rcases nextEffect_cases he with ⟨ht, rfl⟩ | ⟨call, rest, ht, rfl⟩ | ⟨call, rest, ht, rfl⟩
  · cases o with
    | provider response attempts => exact ⟨_, .response response attempts ht⟩
    | providerFailed error attempts => exact ⟨_, .failure error attempts ht⟩
    | providerBudgetExhausted required => exact ⟨_, .exhausted required ht⟩
    | _ => cases hf
  · cases o with
    | tool output attempts usage => exact ⟨_, .tool call rest output attempts usage ht⟩
    | _ => cases hf
  · cases o with
    | toolBatch outputs =>
      have hlen : outputs.length = s.pendingTools.length := by
        simpa [AgentRunEffect.Fits, toolBatchEffect] using hf
      exact ⟨_, .batch call rest outputs ht hlen⟩
    | _ => cases hf

theorem Committed.fits {e : AgentRunEffect} {o : AgentEffectOutcome} (h : Committed s e o s') :
    e.Fits o := by
  cases h with
  | batch call rest outputs ht hlen => simpa [AgentRunEffect.Fits, toolBatchEffect] using hlen
  | _ => trivial

theorem Committed.fixed {e : AgentRunEffect} {o : AgentEffectOutcome} (h : Committed s e o s') :
    s'.plan = s.plan ∧ s'.budget = s.budget := by
  have fail (t : AgentRunState) (message : String) :
      (t.fail message).plan = t.plan ∧ (t.fail message).budget = t.budget := by
    unfold AgentRunState.fail
    split <;> exact ⟨rfl, rfl⟩
  cases h with
  | response response attempts ht => simp
  | failure error attempts ht => simpa using fail (s.recordProviderEffect attempts error.usage) _
  | exhausted required ht => exact ⟨rfl, rfl⟩
  | tool call rest output attempts usage ht => simp
  | batch call rest outputs ht hlen =>
    exact foldl_resolveItem_invariant (I := fun t => t.plan = s.plan ∧ t.budget = s.budget)
      (fun t _ _ _ _ _ _ ht => by simpa using ht) _ s (batchItems_calls hlen) ⟨rfl, rfl⟩

end AgentRunState

end Agentive
