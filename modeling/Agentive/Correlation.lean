import Agentive.HistoryGrammar
import Agentive.RunTrace

/-! Tool calls and their results along a run. The calls of the history that wait for a result
are the pending tools, so the history of a run keeps the grammar of its validator. -/

namespace Agentive

open AgentRunState CallLog

theorem validateToolCalls_eq_ok_iff {id : String} {calls : List ModelToolCall}
    {ids : List String} :
    validateToolCalls id calls ids = .ok () ↔
      (∀ c ∈ calls, isBlank c.callId = false ∧ c.callId ∉ ids ∧
        c.providerCallId.all (fun v => v = id)) ∧ (calls.map (·.callId)).Nodup := by
  induction calls generalizing ids with
  | nil => simp [validateToolCalls]
  | cons c calls ih =>
    by_cases hid : isBlank c.callId = true ∨ c.callId ∈ ids
    · simp only [validateToolCalls, hid, if_true, reduceCtorEq, false_iff]
      rintro ⟨hall, _⟩
      have hc := hall c (by simp)
      rcases hid with hb | hm
      · simp [hb] at hc
      · exact hc.2.1 hm
    · push Not at hid
      have hany : c.providerCallId.any (fun v => v ≠ id) =
          !c.providerCallId.all (fun v => v = id) := by
        cases c.providerCallId <;> simp
      rw [validateToolCalls, if_neg (by simpa using hid), hany]
      cases hp : c.providerCallId.all (fun v => v = id) with
      | false => simp [hp]
      | true =>
        simp only [Bool.not_true, Bool.false_eq_true, if_false, ih, List.map_cons,
          List.nodup_cons, List.forall_mem_cons, hp]
        grind

theorem validateModelResponse_cases {response : ModelResponse} {id : String}
    (h : validateModelResponse response id = .ok ()) :
    (∃ text, response.text = some text ∧ isBlank text = false ∧ response.toolCalls = []) ∨
    (response.text = none ∧ response.toolCalls ≠ [] ∧
      validateToolCalls id response.toolCalls [] = .ok ()) := by
  unfold validateModelResponse at h
  cases ht : response.text with
  | none =>
    cases hc : response.toolCalls with
    | nil => cases hf : response.finishReason <;> simp [ht, hc, hf] at h
    | cons c calls =>
      refine .inr ⟨rfl, by simp, ?_⟩
      cases hf : response.finishReason <;> simp [ht, hc, hf] at h
      exact h
  | some text =>
    have hb : isBlank text = false := by
      simp only [ht, Option.any_some] at h
      split at h
      · cases h
      · next hb => simpa using hb
    cases hc : response.toolCalls with
    | nil => exact .inl ⟨text, rfl, hb, rfl⟩
    | cons c calls => simp [ht, hb, hc] at h

theorem distinctIds_of_validateToolCalls {id : String} {calls : List ModelToolCall}
    (h : validateToolCalls id calls [] = .ok ()) :
    DistinctIds (calls.map (·.toToolCall)) := by
  have hnd := (validateToolCalls_eq_ok_iff.mp h).2
  rw [DistinctIds, List.map_map]
  exact hnd

theorem scanHistory_concat {history : List Message} {queue : List ToolCall} (m : Message)
    (h : scanHistory history = some queue) :
    scanHistory (history ++ [m]) = step answers DistinctIds queue m.entry := by
  rw [scanHistory, callLog, List.map_append]
  exact scan_concat m.entry h

/-- The calls of the history that wait for a result are the pending tools. -/
def Tracked (s : AgentRunState) : Prop :=
  scanHistory s.history = some (s.pendingTools.map (·.toToolCall))

theorem Tracked.sameLedger {s s' : AgentRunState} (h : Tracked s) (hl : SameLedger s s') :
    Tracked s' := by
  rw [Tracked, hl.history, hl.pendingTools]
  exact h

theorem Tracked.resolveCall [JsonText] {s : AgentRunState} {call : ModelToolCall}
    {rest : List ModelToolCall} (h : Tracked s) (hp : s.pendingTools = call :: rest)
    (output : Value) (usage : Option RunUsage) (reservation : Option DelegationBudget) :
    Tracked (s.resolveCall call output usage reservation) := by
  have hstep := scanHistory_concat (Message.toolResult call.callId call.name output) h
  rw [Tracked, resolveCall_history, resolveCall_pendingTools, hstep, hp]
  simp [Message.entry, Message.toolResult, step, answers, ModelToolCall.toToolCall]

section

variable [RequestText]

theorem acceptResponse_calls {s : AgentRunState} {response : ModelResponse}
    (attempts : List ProviderAttempt) (h : response.toolCalls ≠ []) :
    (s.acceptResponse response attempts).history =
        s.history ++ [Message.assistantToolCalls (response.toolCalls.map (·.toToolCall))] ∧
      (s.acceptResponse response attempts).pendingTools = response.toolCalls := by
  simp [acceptResponse, applyResponse, h]

theorem acceptResponse_text {s : AgentRunState} {response : ModelResponse} {text : String}
    (attempts : List ProviderAttempt) (hc : response.toolCalls = [])
    (ht : response.text = some text) :
    (s.acceptResponse response attempts).history = s.history ++ [Message.assistantText text] ∧
      (s.acceptResponse response attempts).pendingTools = s.pendingTools := by
  simp [acceptResponse, applyResponse, hc, ht]

theorem Tracked.acceptResponse {s : AgentRunState} {response : ModelResponse} {id : String}
    (h : Tracked s) (hidle : s.pendingTools = [])
    (hv : validateModelResponse response id = .ok ()) (attempts : List ProviderAttempt) :
    Tracked (s.acceptResponse response attempts) := by
  have hscan : scanHistory s.history = some [] := by simpa [Tracked, hidle] using h
  rcases validateModelResponse_cases hv with ⟨text, ht, _, hc⟩ | ⟨_, hne, hcalls⟩
  · obtain ⟨hh, hp⟩ := acceptResponse_text (s := s) attempts hc ht
    rw [Tracked, hh, hp, hidle, scanHistory_concat _ hscan]
    simp [Message.entry, Message.assistantText, step]
  · obtain ⟨hh, hp⟩ := acceptResponse_calls (s := s) attempts hne
    rw [Tracked, hh, hp, scanHistory_concat _ hscan]
    have hd := distinctIds_of_validateToolCalls hcalls
    simp [Message.entry, Message.assistantToolCalls, step, hne, hd]

variable [JsonText]

theorem Tracked.committed {s s' : AgentRunState} {e : AgentRunEffect} {o : AgentEffectOutcome}
    (h : Tracked s) (ha : Accepted e o) (hc : Committed s e o s') : Tracked s' := by
  cases hc with
  | response response attempts ht => exact h.acceptResponse ht.idle ha attempts
  | failure error attempts ht =>
    have hr : Tracked (s.recordProviderEffect attempts error.usage) := by
      simpa [Tracked] using h
    exact hr.sameLedger (sameLedger_fail _ _)
  | exhausted required ht => exact h.sameLedger (sameLedger_markIncomplete s)
  | tool call rest output attempts usage ht => exact h.resolveCall ht.pending _ _ _
  | batch call rest outputs ht hlen =>
    exact foldl_resolveItem_invariant (fun _ _ _ _ _ _ hp hs => hs.resolveCall hp _ _ _) _ _
      (batchItems_calls hlen) h

/-- Along every run from a settled history the pending tools are the calls that wait. -/
theorem Trace.tracked {s₀ s : AgentRunState} {log : List (AgentRunEffect × AgentEffectOutcome)}
    (h : Trace s₀ log s) (hidle : s₀.pendingTools = [])
    (hv : validateHistory s₀.history = .ok ()) : Tracked s := by
  refine h.invariant (I := fun _ s => Tracked s) ?_
    (fun _ _ _ _ _ hs ha hc => hs.committed ha hc) (fun _ _ _ hs hq => hs.sameLedger hq.sameLedger)
  simpa [Tracked, hidle] using (validateHistory_eq_ok_iff.mp hv).2

/-- At every state of a run the pending tools are the calls without a result, in the order and
with the arguments of the provider, and each earlier call has one result in its own round. -/
theorem Trace.calls_correlate {s₀ s : AgentRunState}
    {log : List (AgentRunEffect × AgentEffectOutcome)} (hidle : s₀.pendingTools = [])
    (hv : validateHistory s₀.history = .ok ()) (h : Trace s₀ log s) :
    Correlates s.history (s.pendingTools.map (·.toToolCall)) :=
  correlates_of_scanHistory (h.tracked hidle hv)

end

section

variable [JsonText]

theorem wellShaped_assistantText (text : String) : WellShaped (.assistantText text) := by
  simp [WellShaped, validateMessageShape, Message.assistantText]

theorem wellShaped_assistantToolCalls {calls : List ToolCall} (hne : calls ≠ [])
    (hid : ∀ c ∈ calls, isBlank c.id = false) :
    WellShaped (.assistantToolCalls calls) ↔ ∀ c ∈ calls, c.arguments.isObject = true := by
  have hany : calls.any (fun c => isBlank c.id || !c.arguments.isObject) = false ↔
      ∀ c ∈ calls, c.arguments.isObject = true := by
    simp only [List.any_eq_false, Bool.or_eq_true, not_or, Bool.not_eq_true, Bool.not_eq_true']
    exact ⟨fun h c hc => by simpa using (h c hc).2, fun h c hc => ⟨hid c hc, by simp [h c hc]⟩⟩
  rw [← hany]
  cases hb : calls.any (fun c => isBlank c.id || !c.arguments.isObject) <;>
    simp [WellShaped, validateMessageShape, Message.assistantToolCalls, hb, hne]

/-- For a tracked state the snapshot check is the shape check of its messages. -/
theorem Tracked.validateEffectStateHistory {s : AgentRunState} (h : Tracked s) :
    validateEffectStateHistory s = .ok () ↔ ∀ m ∈ s.history, WellShaped m := by
  rw [validateEffectStateHistory_eq_ok_iff]
  refine and_iff_left ⟨_, h, ?_⟩
  rw [List.map_map]
  rfl

theorem tracked_of_validateEffectStateHistory {s : AgentRunState} (hidle : s.pendingTools = [])
    (h : Agentive.validateEffectStateHistory s = .ok ()) : Tracked s := by
  obtain ⟨_, queue, hscan, hmap⟩ := validateEffectStateHistory_eq_ok_iff.mp h
  obtain rfl : queue = [] := by simpa [hidle] using hmap
  simpa [Tracked, hidle] using hscan

variable [RequestText]

/-- A committed response leaves a snapshot that the next effect accepts exactly when the
arguments of its tool calls are objects. -/
theorem accepted_response_valid_iff {s s' : AgentRunState} {id providerCallId : String}
    {round : U32} {request : ModelRequest} {response : ModelResponse}
    {attempts : List ProviderAttempt} (hv : validateEffectStateHistory s = .ok ())
    (he : s.nextEffect = some (.providerCall id providerCallId round request))
    (ha : validateModelResponse response providerCallId = .ok ())
    (hc : s.commitEffect id (.provider response attempts) = (s', .ok ())) :
    validateEffectStateHistory s' = .ok () ↔
      ∀ call ∈ response.toolCalls, call.arguments.isObject = true := by
  have hcommit : Committed s (.providerCall id providerCallId round request)
      (.provider response attempts) s' := committed_of_nextEffect he hc
  obtain ⟨ht, rfl⟩ : s.ProviderTurn ∧ s' = s.acceptResponse response attempts := by
    cases hcommit
    exact ⟨by assumption, rfl⟩
  have htrack := tracked_of_validateEffectStateHistory ht.idle hv
  have hshaped := htrack.validateEffectStateHistory.mp hv
  rw [(htrack.acceptResponse ht.idle ha attempts).validateEffectStateHistory]
  rcases validateModelResponse_cases ha with ⟨text, htext, _, hnil⟩ | ⟨_, hne, hcalls⟩
  · rw [(acceptResponse_text attempts hnil htext).1, hnil]
    simp only [List.mem_append, List.mem_singleton, List.not_mem_nil, false_implies, implies_true,
      iff_true]
    rintro m (hm | rfl)
    · exact hshaped m hm
    · exact wellShaped_assistantText text
  · have hids : ∀ c ∈ response.toolCalls.map (·.toToolCall), isBlank c.id = false := by
      intro c hmem
      obtain ⟨call, hcall, rfl⟩ := List.mem_map.mp hmem
      exact ((validateToolCalls_eq_ok_iff.mp hcalls).1 call hcall).1
    have hshape := wellShaped_assistantToolCalls (by simpa using hne) hids
    rw [(acceptResponse_calls attempts hne).1, List.forall_mem_append]
    simp only [List.mem_singleton, forall_eq, hshape, List.forall_mem_map, and_iff_right hshaped]
    rfl

end

section

open Sample

def Sample.unknownCall : ModelToolCall :=
  { call "d" (.object []) with name := ⟨"unknown", by decide⟩ }

/-- Two calls are answered by a batch, then the first one of the next two by itself. -/
theorem calls_correlate_sample :
    let _ := jsonText
    Correlates
      [.user "hi",
        .assistantToolCalls
          [(call "a" (.object [])).toToolCall, (call "b" (.object [])).toToolCall],
        .toolResult "a" lookup .null, .toolResult "b" lookup .null,
        .assistantToolCalls [(call "c" (.object [])).toToolCall, unknownCall.toToolCall],
        .toolResult "c" lookup .null]
      [unknownCall.toToolCall] := by
  let _ := jsonText
  let _ := requestText
  let start : AgentRunState :=
    { state with plan := { Sample.plan with tools := [lookupPolicy true] } }
  let result : ToolEffectResult := { output := .null, attempts := 1, childUsage := none }
  let first := callsResponse [call "a" (.object []), call "b" (.object [])]
  let second := callsResponse [call "c" (.object []), unknownCall]
  have h₁ : Trace start _ (start.acceptResponse first []) :=
    Trace.start.step (by rfl) (.response _ _ ⟨rfl, rfl, by decide⟩)
  have h₂ := h₁.step (by trivial)
    (.batch (call "a" (.object [])) [call "b" (.object [])] [result, result] ⟨rfl, rfl, rfl⟩ rfl)
  have h₃ := h₂.step (by rfl) (.response second [] ⟨rfl, rfl, by decide⟩)
  have h₄ := h₃.step (by trivial)
    (.tool (call "c" (.object [])) [unknownCall] .null 1 none ⟨rfl, rfl, rfl⟩)
  exact Trace.calls_correlate rfl (by decide) h₄

/-- A later round may use a call id again, so in the history as a whole a call can have two
results with its id and name. -/
theorem result_not_unique_in_history :
    ¬ ∀ (_ : JsonText) (_ : RequestText) (s₀ s : AgentRunState)
      (log : List (AgentRunEffect × AgentEffectOutcome)), s₀.pendingTools = [] →
      validateHistory s₀.history = .ok () → Trace s₀ log s → s.pendingTools = [] →
      ∀ m ∈ s.history, ∀ call ∈ m.toolCalls.getD [], resultCount s.history call = 1 := by
  intro claim
  let _ := jsonText
  let _ := requestText
  let response := callsResponse [call "c" (.object [])]
  have h₁ : Trace state _ (state.acceptResponse response []) :=
    Trace.start.step (by rfl) (.response _ _ ⟨rfl, rfl, by decide⟩)
  have h₂ := h₁.step (by trivial) (.tool (call "c" (.object [])) [] .null 1 none ⟨rfl, rfl, rfl⟩)
  have h₃ := h₂.step (by rfl) (.response response [] ⟨rfl, rfl, by decide⟩)
  have h₄ := h₃.step (by trivial) (.tool (call "c" (.object [])) [] .null 1 none ⟨rfl, rfl, rfl⟩)
  have htwo := claim _ _ _ _ _ rfl (by decide) h₄ rfl
    (.assistantToolCalls [(call "c" (.object [])).toToolCall]) (by decide)
    (call "c" (.object [])).toToolCall (by decide)
  revert htwo
  decide

theorem accepted_response_valid_sample :
    @validateEffectStateHistory jsonText
      (@acceptResponse requestText state (callsResponse [call "c" (.object [])]) []) = .ok () := by
  let _ := jsonText
  let _ := requestText
  exact (accepted_response_valid_iff (s := state) (by decide) rfl (by decide) rfl).mpr (by decide)

/-- The response validator accepts arguments that are no object, the snapshot check does not. -/
theorem accepted_response_not_valid :
    ¬ ∀ (_ : JsonText) (_ : RequestText) (s s' : AgentRunState) (id providerCallId : String)
      (round : U32) (request : ModelRequest) (response : ModelResponse)
      (attempts : List ProviderAttempt), validateEffectStateHistory s = .ok () →
      s.nextEffect = some (.providerCall id providerCallId round request) →
      validateModelResponse response providerCallId = .ok () →
      s.commitEffect id (.provider response attempts) = (s', .ok ()) →
      validateEffectStateHistory s' = .ok () := by
  intro claim
  let _ := jsonText
  let _ := requestText
  have hvalid := claim jsonText requestText state _ _ _ _ _ (callsResponse [call "c" .null]) []
    (by decide) rfl (by decide) rfl
  revert hvalid
  decide

end

end Agentive
