import Agentive.DurableDocuments

/-! The documents that go between the workflow and its activities, and from one execution of a
chain to the next. -/

namespace Agentive

open Document Wire

def ToolInvocationId.document : Codec Value ToolInvocationId :=
  string.via (·.text) (⟨·⟩) (fun _ => rfl) fun _ => rfl

def IdempotencyKey.document : Codec Value IdempotencyKey :=
  string.via (·.text) (⟨·⟩) (fun _ => rfl) fun _ => rfl

def ToolInvocation.document : Codec Value ToolInvocation :=
  (Codec.record
    (Fields.required "run_id" string
      |>.and (.required "invocation_id" ToolInvocationId.document)
      |>.and (.optional "provider_call_id" string solid_string)
      |>.and (.required "tool_name" ToolName.document)
      |>.and (.required "model_round" u32)
      |>.and (.required "idempotency_key" IdempotencyKey.document)) false).via
    (fun i => (((((i.runId, i.invocationId), i.providerCallId), i.toolName), i.modelRound),
      i.idempotencyKey))
    (fun (((((runId, invocationId), providerCallId), toolName), modelRound), idempotencyKey) =>
      { runId, invocationId, providerCallId, toolName, modelRound, idempotencyKey })
    (fun _ => rfl) fun _ => rfl

@[simp] theorem ToolInvocation.good (a : ToolInvocation) : ToolInvocation.document.Good a := by
  simp [ToolInvocation.document, ToolInvocationId.document, IdempotencyKey.document]

@[simp] theorem ToolInvocation.fits {n : Nat} {a : ToolInvocation} :
    ToolInvocation.document.Fits (n + 1) a := by
  simp [ToolInvocation.document, ToolInvocationId.document, IdempotencyKey.document]

def DelegationBudget.document : Codec Value DelegationBudget :=
  (Codec.record
    (Fields.required "model_call_limit" u32
      |>.and (.optional "token_limit" u64 solid_u64)) false).via
    (fun b => (b.modelCallLimit, b.tokenLimit))
    (fun (modelCallLimit, tokenLimit) => { modelCallLimit, tokenLimit })
    (fun _ => rfl) fun _ => rfl

@[simp] theorem DelegationBudget.good (a : DelegationBudget) :
    DelegationBudget.document.Good a := by
  simp [DelegationBudget.document]

@[simp] theorem DelegationBudget.fits {n : Nat} {a : DelegationBudget} :
    DelegationBudget.document.Fits (n + 1) a := by
  simp [DelegationBudget.document]

theorem DelegationBudget.solid : DelegationBudget.document.Solid :=
  Codec.solid_via (Codec.solid_record _ _) _ _ _ _

def ToolEffectCall.document : Codec Value ToolEffectCall :=
  (Codec.record
    (Fields.required "invocation" ToolInvocation.document
      |>.and (.required "arguments" value)
      |>.and (.optional "policy" ToolRuntimePolicy.document ToolRuntimePolicy.solid)
      |>.and (.optional "delegation_budget" DelegationBudget.document
        DelegationBudget.solid)) false).via
    (fun c => (((c.invocation, c.arguments), c.policy), c.delegationBudget))
    (fun (((invocation, arguments), policy), delegationBudget) =>
      { invocation, arguments, policy, delegationBudget })
    (fun _ => rfl) fun _ => rfl

@[simp] theorem ToolEffectCall.good (a : ToolEffectCall) : ToolEffectCall.document.Good a := by
  simp [ToolEffectCall.document]

/-- The JSON values that a call carries: its arguments, and the schema of its policy. -/
def ToolEffectCall.values (c : ToolEffectCall) : List Value :=
  c.arguments :: c.policy.toList.map (·.descriptor.schema)

theorem ToolEffectCall.fits {n : Nat} {c : ToolEffectCall}
    (h : ∀ v ∈ c.values, v.fits n = true) : ToolEffectCall.document.Fits (n + 3) c := by
  obtain ⟨harguments, hpolicy⟩ := List.forall_mem_cons.mp h
  have harguments : c.arguments.fits (n + 2) = true :=
    Value.fits_mono (Nat.le_add_right n 2) harguments
  simpa [document, harguments] using hpolicy

section

variable [UrlText]

def ModelRequest.document : Codec Value ModelRequest :=
  (Codec.record
    (Fields.required "instructions" CompiledInstructions.document
      |>.and (.required "messages" Message.document.list)
      |>.and (.required "tools" ProviderToolDescriptor.document.list)
      |>.and (.required "include_context" bool)
      |>.and (.optional "model" string solid_string)
      |>.and (.required "max_output_tokens" u64)
      |>.and ModelOutputFormat.field
      |>.and (.required "invocation_id" string)) false).via
    (fun r => (((((((r.instructions, r.messages), r.tools), r.includeContext), r.model),
      r.maxOutputTokens), r.outputFormat), r.invocationId))
    (fun (((((((instructions, messages), tools), includeContext), model), maxOutputTokens),
        outputFormat), invocationId) =>
      { instructions, messages, tools, includeContext, model, maxOutputTokens, outputFormat,
        invocationId })
    (fun _ => rfl) fun _ => rfl

def ModelRequest.values (r : ModelRequest) : List Value :=
  r.tools.map (·.schema) ++ r.outputFormat.values ++ r.messages.flatMap Message.values

theorem ModelRequest.fits {n : Nat} {r : ModelRequest} (h : ∀ v ∈ r.values, v.fits n = true) :
    ModelRequest.document.Fits (n + 7) r := by
  simp only [values, List.forall_mem_append, List.forall_mem_map, List.forall_mem_flatMap] at h
  obtain ⟨⟨htools, hformat⟩, hmessages⟩ := h
  have hmessages : ∀ m ∈ r.messages, Message.document.Fits (n + 5) m := fun m hm =>
    Message.fits (hmessages m hm)
  have htools : ∀ d ∈ r.tools, d.schema.fits (n + 4) = true := fun d hd =>
    Value.fits_mono (Nat.le_add_right n 4) (htools d hd)
  have hformat : ∀ v ∈ r.outputFormat.values, v.fits (n + 5) = true := fun v hv =>
    Value.fits_mono (Nat.le_add_right n 5) (hformat v hv)
  simpa [document] using ⟨⟨hmessages, htools⟩, hformat⟩

def AgentRunEffect.document : Codec Value AgentRunEffect :=
  (Codec.tagged "kind"
    (Variants.case "provider_call"
        (Fields.required "effect_id" string
          |>.and (.required "provider_call_id" string)
          |>.and (.required "round" u32)
          |>.and (.required "request" ModelRequest.document))
      |>.or (.case "tool_call"
        (Fields.required "effect_id" string
          |>.and (.required "invocation" ToolInvocation.document)
          |>.and (.required "arguments" value)
          |>.and (.optional "policy" ToolRuntimePolicy.document ToolRuntimePolicy.solid)
          |>.and (.optional "delegation_budget" DelegationBudget.document
            DelegationBudget.solid)))
      |>.or (.case "tool_batch"
        (Fields.required "effect_id" string
          |>.and (.required "calls" ToolEffectCall.document.list))))).via
    (fun (effect : AgentRunEffect) =>
      match effect with
      | .providerCall id providerCallId round request =>
        .inl (.inl (((id, providerCallId), round), request))
      | .toolCall id invocation arguments policy delegationBudget =>
        .inl (.inr ((((id, invocation), arguments), policy), delegationBudget))
      | .toolBatch id calls => .inr (id, calls))
    (Sum.elim
      (Sum.elim
        (fun (((id, providerCallId), round), request) =>
          .providerCall id providerCallId round request)
        fun ((((id, invocation), arguments), policy), delegationBudget) =>
          .toolCall id invocation arguments policy delegationBudget)
      fun (id, calls) => .toolBatch id calls)
    (by rintro ((_ | _) | _) <;> rfl) (by rintro (_ | _ | _) <;> rfl)

/-- The request, if there is one, has validated images only. -/
def AgentRunEffect.Validated : AgentRunEffect → Prop
  | .providerCall _ _ _ request => ∀ m ∈ request.messages, m.Validated
  | _ => True

def AgentRunEffect.values : AgentRunEffect → List Value
  | .providerCall _ _ _ request => request.values
  | .toolCall _ _ arguments policy _ => arguments :: policy.toList.map (·.descriptor.schema)
  | .toolBatch _ calls => calls.flatMap ToolEffectCall.values

theorem AgentRunEffect.fits {n : Nat} {e : AgentRunEffect} (h : ∀ v ∈ e.values, v.fits n = true) :
    AgentRunEffect.document.Fits (n + 8) e := by
  cases e with
  | providerCall id providerCallId round request =>
    simpa [document] using ModelRequest.fits h
  | toolCall id invocation arguments policy budget =>
    obtain ⟨harguments, hpolicy⟩ := List.forall_mem_cons.mp h
    have harguments : arguments.fits (n + 7) = true :=
      Value.fits_mono (Nat.le_add_right n 7) harguments
    have hpolicy : ∀ p ∈ policy, p.descriptor.schema.fits (n + 5) = true := fun p hp =>
      Value.fits_mono (Nat.le_add_right n 5)
        (hpolicy _ (List.mem_map_of_mem (Option.mem_toList.mpr hp)))
    simpa [document, harguments] using hpolicy
  | toolBatch id calls =>
    have hcalls : ∀ c ∈ calls, ToolEffectCall.document.Fits (n + 6) c := fun c hc =>
      ToolEffectCall.fits fun v hv => Value.fits_mono (Nat.le_add_right n 3)
        (h v (List.mem_flatMap.mpr ⟨c, hc, hv⟩))
    simpa [document] using hcalls

end

def ProviderAttempt.document : Codec Value ProviderAttempt :=
  (Codec.record
    (Fields.required "attempt" u8
      |>.and (.optional "usage" ModelTokenUsage.document ModelTokenUsage.solid)
      |>.and (count64 "reserved_tokens")) false).via
    (fun a => ((a.attempt, a.usage), a.reservedTokens))
    (fun ((attempt, usage), reservedTokens) => { attempt, usage, reservedTokens })
    (fun _ => rfl) fun _ => rfl

@[simp] theorem ProviderAttempt.good (a : ProviderAttempt) : ProviderAttempt.document.Good a := by
  simp [ProviderAttempt.document]

@[simp] theorem ProviderAttempt.fits {n : Nat} {a : ProviderAttempt} :
    ProviderAttempt.document.Fits (n + 2) a := by
  simp [ProviderAttempt.document]

def ProviderErrorKind.name : ProviderErrorKind → String
  | .timeout => "timeout"
  | .authentication => "authentication"
  | .rateLimited => "rate_limited"
  | .transport => "transport"
  | .invalidRequest => "invalid_request"
  | .unavailable => "unavailable"
  | .protocol => "protocol"
  | .unknown => "unknown"

def ProviderErrorKind.ofName : String → Option ProviderErrorKind
  | "timeout" => some .timeout
  | "authentication" => some .authentication
  | "rate_limited" => some .rateLimited
  | "transport" => some .transport
  | "invalid_request" => some .invalidRequest
  | "unavailable" => some .unavailable
  | "protocol" => some .protocol
  | "unknown" => some .unknown
  | _ => none

def ProviderErrorKind.document : Codec Value ProviderErrorKind :=
  .names name ofName fun kind => by cases kind <;> rfl

@[simp] theorem ProviderErrorKind.good (a : ProviderErrorKind) :
    ProviderErrorKind.document.Good a := by
  simp [ProviderErrorKind.document]

@[simp] theorem ProviderErrorKind.fits {n : Nat} {a : ProviderErrorKind} :
    ProviderErrorKind.document.Fits n a := by
  simp [ProviderErrorKind.document]

def ProviderRetryAdvice.document : Codec Value ProviderRetryAdvice :=
  (Codec.record
    (Fields.required "retryable" bool
      |>.and (flag "safe_before_output")) false).via
    (fun a => (a.retryable, a.safeBeforeOutput))
    (fun (retryable, safeBeforeOutput) => { retryable, safeBeforeOutput })
    (fun _ => rfl) fun _ => rfl

@[simp] theorem ProviderRetryAdvice.good (a : ProviderRetryAdvice) :
    ProviderRetryAdvice.document.Good a := by
  simp [ProviderRetryAdvice.document]

@[simp] theorem ProviderRetryAdvice.fits {n : Nat} {a : ProviderRetryAdvice} :
    ProviderRetryAdvice.document.Fits (n + 1) a := by
  simp [ProviderRetryAdvice.document]

/-- The private diagnostics of an error are not written. -/
def ProviderError.document : Codec Value ProviderError :=
  (Codec.record
    (Fields.required "kind" ProviderErrorKind.document
      |>.and (.required "message" string)
      |>.and (.required "retry_advice" ProviderRetryAdvice.document)
      |>.and (.optional "usage" ModelTokenUsage.document ModelTokenUsage.solid)) false).via
    (fun e => (((e.kind, e.message), e.retryAdvice), e.usage))
    (fun (((kind, message), retryAdvice), usage) => { kind, message, retryAdvice, usage })
    (fun _ => rfl) fun _ => rfl

@[simp] theorem ProviderError.good (a : ProviderError) : ProviderError.document.Good a := by
  simp [ProviderError.document]

@[simp] theorem ProviderError.fits {n : Nat} {a : ProviderError} :
    ProviderError.document.Fits (n + 2) a := by
  simp [ProviderError.document]

/-- The reasons that have no text of their own, by name. -/
def ModelFinishReason.plain : Codec Value Bool :=
  .names (fun isStop => if isStop then "stop" else "tool_calls")
    (fun s =>
      match s with
      | "stop" => some true
      | "tool_calls" => some false
      | _ => none)
    (fun isStop => by cases isStop <;> rfl)

def ModelFinishReason.document : Codec Value ModelFinishReason :=
  (plain.orElse (Codec.only "error" string) fun _ _ => rfl).via
    (fun (reason : ModelFinishReason) =>
      match reason with
      | .stop => .inl true
      | .toolCalls => .inl false
      | .error description => .inr description)
    (Sum.elim (fun isStop => if isStop then .stop else .toolCalls) (.error ·))
    (by rintro ((_ | _) | _) <;> rfl) (by rintro (_ | _ | _) <;> rfl)

@[simp] theorem ModelFinishReason.good (a : ModelFinishReason) :
    ModelFinishReason.document.Good a := by
  cases a <;> simp [ModelFinishReason.document, plain]

@[simp] theorem ModelFinishReason.fits {n : Nat} {a : ModelFinishReason} :
    ModelFinishReason.document.Fits (n + 1) a := by
  cases a <;> simp [ModelFinishReason.document, plain]

def ModelResponse.document : Codec Value ModelResponse :=
  (Codec.record
    (Fields.optional "text" string solid_string
      |>.and (.required "tool_calls" ModelToolCall.document.list)
      |>.and (.optional "usage" ModelTokenUsage.document ModelTokenUsage.solid)
      |>.and (.required "finish_reason" ModelFinishReason.document)) false).via
    (fun r => (((r.text, r.toolCalls), r.usage), r.finishReason))
    (fun (((text, toolCalls), usage), finishReason) => { text, toolCalls, usage, finishReason })
    (fun _ => rfl) fun _ => rfl

@[simp] theorem ModelResponse.good (a : ModelResponse) : ModelResponse.document.Good a := by
  simp [ModelResponse.document]

@[simp] theorem ModelResponse.fits_iff {n : Nat} {a : ModelResponse} :
    ModelResponse.document.Fits (n + 3) a ↔ ∀ c ∈ a.toolCalls, c.arguments.fits n = true := by
  simp [ModelResponse.document]

def ToolEffectResult.document : Codec Value ToolEffectResult :=
  (Codec.record
    (Fields.required "output" value
      |>.and (.required "attempts" u8)
      |>.and (.optional "child_usage" RunUsage.document RunUsage.solid)) false).via
    (fun r => ((r.output, r.attempts), r.childUsage))
    (fun ((output, attempts), childUsage) => { output, attempts, childUsage })
    (fun _ => rfl) fun _ => rfl

@[simp] theorem ToolEffectResult.good (a : ToolEffectResult) :
    ToolEffectResult.document.Good a := by
  simp [ToolEffectResult.document]

@[simp] theorem ToolEffectResult.fits_iff {n : Nat} {a : ToolEffectResult} :
    ToolEffectResult.document.Fits (n + 5) a ↔ a.output.fits (n + 4) = true := by
  simp [ToolEffectResult.document]

def AgentEffectOutcome.document : Codec Value AgentEffectOutcome :=
  (Codec.tagged "kind"
    (Variants.case "provider"
        (Fields.required "response" ModelResponse.document
          |>.and (.defaulted "attempts" ProviderAttempt.document.list [] (by simp)))
      |>.or (.case "provider_failed"
        (Fields.required "error" ProviderError.document
          |>.and (.defaulted "attempts" ProviderAttempt.document.list [] (by simp))))
      |>.or (.case "provider_budget_exhausted" (.required "required_tokens" u64))
      |>.or (.case "tool"
        (Fields.required "output" value
          |>.and (.required "attempts" u8)
          |>.and (.optional "child_usage" RunUsage.document RunUsage.solid)))
      |>.or (.case "tool_batch" (.required "outputs" ToolEffectResult.document.list)))).via
    (fun (outcome : AgentEffectOutcome) =>
      match outcome with
      | .provider response attempts => .inl (.inl (.inl (.inl (response, attempts))))
      | .providerFailed error attempts => .inl (.inl (.inl (.inr (error, attempts))))
      | .providerBudgetExhausted requiredTokens => .inl (.inl (.inr requiredTokens))
      | .tool output attempts childUsage => .inl (.inr ((output, attempts), childUsage))
      | .toolBatch outputs => .inr outputs)
    (Sum.elim
      (Sum.elim
        (Sum.elim
          (Sum.elim (fun (response, attempts) => .provider response attempts)
            fun (error, attempts) => .providerFailed error attempts)
          (.providerBudgetExhausted ·))
        fun ((output, attempts), childUsage) => .tool output attempts childUsage)
      (.toolBatch ·))
    (by rintro ((((_ | _) | _) | _) | _) <;> rfl) (by rintro (_ | _ | _ | _ | _) <;> rfl)

@[simp] theorem AgentEffectOutcome.good (a : AgentEffectOutcome) :
    AgentEffectOutcome.document.Good a := by
  cases a <;> simp [AgentEffectOutcome.document]

/-- The JSON values that an outcome carries: arguments of calls, and outputs of tools. -/
def AgentEffectOutcome.values : AgentEffectOutcome → List Value
  | .provider response _ => response.toolCalls.map (·.arguments)
  | .providerFailed _ _ => []
  | .providerBudgetExhausted _ => []
  | .tool output _ _ => [output]
  | .toolBatch outputs => outputs.map (·.output)

theorem AgentEffectOutcome.fits {n : Nat} {o : AgentEffectOutcome}
    (h : ∀ v ∈ o.values, v.fits n = true) : AgentEffectOutcome.document.Fits (n + 7) o := by
  cases o with
  | provider response attempts =>
    have hcalls : ∀ c ∈ response.toolCalls, c.arguments.fits (n + 3) = true := fun c hc =>
      Value.fits_mono (Nat.le_add_right n 3) (h _ (List.mem_map_of_mem hc))
    simpa [document] using hcalls
  | providerFailed error attempts => simp [document]
  | providerBudgetExhausted required => simp [document]
  | tool output attempts childUsage =>
    have houtput : output.fits (n + 6) = true :=
      Value.fits_mono (Nat.le_add_right n 6) (h output List.mem_cons_self)
    simpa [document] using houtput
  | toolBatch outputs =>
    have houtputs : ∀ r ∈ outputs, r.output.fits (n + 4) = true := fun r hr =>
      Value.fits_mono (Nat.le_add_right n 4) (h _ (List.mem_map_of_mem hr))
    simpa [document] using houtputs

def EffectActivityOutput.reportedDocument : Codec Value (AgentEffectOutcome × U64) :=
  Codec.record
    (Fields.required "outcome" AgentEffectOutcome.document
      |>.and (.required "elapsed_ms" u64)) false

/-- Earlier releases wrote the outcome alone, which is no report for it has no member
`outcome`. -/
def EffectActivityOutput.document : Codec Value EffectActivityOutput :=
  (reportedDocument.orElse AgentEffectOutcome.document
    fun outcome _ => by cases outcome <;> rfl).via
    (fun (output : EffectActivityOutput) =>
      match output with
      | .reported outcome elapsedMs => .inl (outcome, elapsedMs)
      | .legacy outcome => .inr outcome)
    (Sum.elim (fun (outcome, elapsedMs) => .reported outcome elapsedMs) (.legacy ·))
    (by rintro (_ | _) <;> rfl) (by rintro (_ | _) <;> rfl)

@[simp] theorem EffectActivityOutput.good (a : EffectActivityOutput) :
    EffectActivityOutput.document.Good a := by
  cases a <;> simp [EffectActivityOutput.document, reportedDocument]

theorem EffectActivityOutput.fits {n : Nat} {a : EffectActivityOutput}
    (h : ∀ v ∈ a.intoParts.1.values, v.fits n = true) :
    EffectActivityOutput.document.Fits (n + 8) a := by
  cases a with
  | reported outcome elapsedMs =>
    have houtcome : AgentEffectOutcome.document.Fits (n + 7) outcome := AgentEffectOutcome.fits h
    simpa [document, reportedDocument] using houtcome
  | legacy outcome =>
    have houtcome : AgentEffectOutcome.document.Fits (n + 8) outcome := AgentEffectOutcome.fits
      fun v hv => Value.fits_mono (Nat.le_add_right n 1) (h v hv)
    simpa [document] using houtcome

def TemporalRunConfig.document : Codec Value TemporalRunConfig :=
  (Codec.record
    (Fields.required "schema_version" u16
      |>.and (.defaulted "workflow_fingerprint" string Agentive.workflowFingerprint (by simp))
      |>.and (.required "continue_as_new_after_effects" u32)
      |>.and (.defaulted "durable_idempotent_tools" string.list [] (by simp))
      |>.and (flag "durable_idempotent_provider")) true).via
    (fun c => ((((c.schemaVersion, c.workflowFingerprint), c.continueAsNewAfterEffects),
      c.durableIdempotentTools), c.durableIdempotentProvider))
    (fun ((((schemaVersion, workflowFingerprint), continueAsNewAfterEffects),
        durableIdempotentTools), durableIdempotentProvider) =>
      { schemaVersion, workflowFingerprint, continueAsNewAfterEffects, durableIdempotentTools,
        durableIdempotentProvider })
    (fun _ => rfl) fun _ => rfl

@[simp] theorem TemporalRunConfig.good (a : TemporalRunConfig) :
    TemporalRunConfig.document.Good a := by
  simp [TemporalRunConfig.document]

@[simp] theorem TemporalRunConfig.fits {n : Nat} {a : TemporalRunConfig} :
    TemporalRunConfig.document.Fits (n + 2) a := by
  simp [TemporalRunConfig.document]

section

variable [UrlText]

def EffectActivityInput.document : Codec Value EffectActivityInput :=
  (Codec.record
    (Fields.required "state" AgentRunState.document
      |>.and (.required "effect" AgentRunEffect.document)) false).via
    (fun i => (i.state, i.effect)) (fun (state, effect) => { state, effect })
    (fun _ => rfl) fun _ => rfl

theorem EffectActivityInput.fits {n : Nat} {a : EffectActivityInput}
    (hstate : ∀ v ∈ a.state.values, v.fits n = true)
    (heffect : ∀ v ∈ a.effect.values, v.fits n = true) :
    EffectActivityInput.document.Fits (n + 9) a := by
  have hstate : AgentRunState.document.Fits (n + 8) a.state := AgentRunState.fits
    fun v hv => Value.fits_mono (Nat.le_add_right n 1) (hstate v hv)
  simpa [document, hstate] using AgentRunEffect.fits heffect

def TemporalWorkflowInput.document : Codec Value TemporalWorkflowInput :=
  (Codec.record
    (Fields.required "state" AgentRunState.document
      |>.and (.required "config" TemporalRunConfig.document)
      |>.and (.required "completed_effects" u64)
      |>.and (count32 "effects_in_execution")) true).via
    (fun i => (((i.state, i.config), i.completedEffects), i.effectsInExecution))
    (fun (((state, config), completedEffects), effectsInExecution) =>
      { state, config, completedEffects, effectsInExecution })
    (fun _ => rfl) fun _ => rfl

theorem TemporalWorkflowInput.fits {n : Nat} {a : TemporalWorkflowInput}
    (h : ∀ v ∈ a.state.values, v.fits n = true) :
    TemporalWorkflowInput.document.Fits (n + 8) a := by
  simpa [document] using AgentRunState.fits h

def TemporalRunSnapshot.document : Codec Value TemporalRunSnapshot :=
  (Codec.record
    (Fields.required "state" AgentRunState.document
      |>.and (.required "cursor" u64)) true).via
    (fun s => (s.state, s.cursor)) (fun (state, cursor) => { state, cursor })
    (fun _ => rfl) fun _ => rfl

theorem TemporalRunSnapshot.fits {n : Nat} {a : TemporalRunSnapshot}
    (h : ∀ v ∈ a.state.values, v.fits n = true) :
    TemporalRunSnapshot.document.Fits (n + 8) a := by
  simpa [document] using AgentRunState.fits h

end

end Agentive
