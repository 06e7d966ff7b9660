import Agentive.Transitions
import Agentive.Validation

/-! Runs of the state machine: committed effects, and the transitions between them that complete
no effect. -/

namespace Agentive

open AgentRunState

/-- A completion of an effect as a runtime may report it: the response of a provider call has
passed the response validator. -/
def Accepted : AgentRunEffect → AgentEffectOutcome → Prop
  | .providerCall _ providerCallId _ _, .provider response _ =>
    validateModelResponse response providerCallId = .ok ()
  | _, _ => True

/-- Transitions that complete no effect. -/
inductive Quiet (s : AgentRunState) : AgentRunState → Prop
  | elapsed (ms : U64) : Quiet s (s.recordElapsed ms)
  | exhausted : Quiet s s.finishIfExhausted.1
  | cancel : Quiet s s.cancel
  | fail (message : String) : Quiet s (s.fail message)

/-- What no quiet transition touches. -/
structure SameLedger (s s' : AgentRunState) : Prop where
  runId : s'.runId = s.runId
  plan : s'.plan = s.plan
  history : s'.history = s.history
  budget : s'.budget = s.budget
  modelCalls : s'.modelCalls = s.modelCalls
  providerCallsStarted : s'.providerCallsStarted = s.providerCallsStarted
  reservedChildModelCalls : s'.reservedChildModelCalls = s.reservedChildModelCalls
  reservedTokens : s'.reservedTokens = s.reservedTokens
  pendingTools : s'.pendingTools = s.pendingTools
  text : s'.text = s.text
  entries : s'.usage.modelCalls = s.usage.modelCalls

theorem SameLedger.refl (s : AgentRunState) : SameLedger s s :=
  ⟨rfl, rfl, rfl, rfl, rfl, rfl, rfl, rfl, rfl, rfl, rfl⟩

theorem sameLedger_cancel (s : AgentRunState) : SameLedger s s.cancel := by
  unfold AgentRunState.cancel
  split <;> exact ⟨rfl, rfl, rfl, rfl, rfl, rfl, rfl, rfl, rfl, rfl, rfl⟩

theorem sameLedger_fail (s : AgentRunState) (message : String) :
    SameLedger s (s.fail message) := by
  unfold AgentRunState.fail
  split <;> exact ⟨rfl, rfl, rfl, rfl, rfl, rfl, rfl, rfl, rfl, rfl, rfl⟩

theorem sameLedger_markIncomplete (s : AgentRunState) : SameLedger s s.markIncomplete :=
  ⟨rfl, rfl, rfl, rfl, rfl, rfl, rfl, rfl, rfl, rfl, rfl⟩

theorem sameLedger_recordElapsed (s : AgentRunState) (ms : U64) :
    SameLedger s (s.recordElapsed ms) :=
  ⟨rfl, rfl, rfl, rfl, rfl, rfl, rfl, rfl, rfl, rfl, rfl⟩

theorem sameLedger_finishIfExhausted (s : AgentRunState) :
    SameLedger s s.finishIfExhausted.1 := by
  unfold finishIfExhausted
  split
  · exact sameLedger_cancel s
  · split
    · exact sameLedger_markIncomplete s
    · exact .refl s

theorem Quiet.sameLedger {s s' : AgentRunState} (h : Quiet s s') : SameLedger s s' := by
  cases h with
  | elapsed ms => exact sameLedger_recordElapsed s ms
  | exhausted => exact sameLedger_finishIfExhausted s
  | cancel => exact sameLedger_cancel s
  | fail message => exact sameLedger_fail s message

theorem Quiet.active {s s' : AgentRunState} (h : Quiet s s') (ha : s'.status.isActive = true) :
    s.status.isActive = true := by
  cases hs : s.status.isActive with
  | true => rfl
  | false =>
    cases h <;>
      simp [recordElapsed, finishIfExhausted, AgentRunState.cancel, AgentRunState.fail, hs] at ha

/-- The calls of an accepted response. -/
def AgentEffectOutcome.calls : AgentEffectOutcome → List ModelToolCall
  | .provider response _ => response.toolCalls
  | _ => []

/-- The calls that wait for a result after a completion of the next effect. -/
def AgentRunState.callsAfter (s : AgentRunState) : AgentEffectOutcome → List ModelToolCall
  | .provider response _ => response.toolCalls
  | .tool _ _ _ => s.pendingTools.tail
  | _ => []

theorem AgentRunState.Committed.pendingTools_eq [JsonText] [RequestText] {s s' : AgentRunState}
    {e : AgentRunEffect} {o : AgentEffectOutcome} (hc : Committed s e o s') :
    s'.pendingTools = s.callsAfter o := by
  cases hc with
  | response response attempts ht => exact acceptResponse_pendingTools s _ _ ht.idle
  | failure error attempts ht =>
    have hsame := (sameLedger_fail (s.recordProviderEffect attempts error.usage)
      error.message).pendingTools
    rw [hsame, recordProviderEffect_pendingTools, ht.idle]
    rfl
  | exhausted required ht => exact ht.idle
  | tool call rest output attempts usage ht => exact resolveCall_pendingTools _ _ _ _ _
  | batch call rest outputs ht hlen =>
    rw [foldl_resolveItem_pendingTools]
    have hall : s.pendingTools.length ≤ (s.batchItems outputs).length := by simp [batchItems, hlen]
    exact List.drop_eq_nil_of_le hall

theorem AgentRunState.Committed.history_prefix [JsonText] [RequestText] {s s' : AgentRunState}
    {e : AgentRunEffect} {o : AgentEffectOutcome} (hc : Committed s e o s') :
    s.history <+: s'.history := by
  cases hc with
  | response response attempts ht =>
    unfold acceptResponse applyResponse
    split
    · simp
    · split <;> simp [markIncomplete]
  | failure error attempts ht =>
    have hfail := sameLedger_fail (s.recordProviderEffect attempts error.usage) error.message
    have hsame := hfail.history.trans (recordProviderEffect_history s attempts error.usage)
    exact hsame ▸ List.prefix_rfl
  | exhausted required ht => exact List.prefix_rfl
  | tool call rest output attempts usage ht => simp
  | batch call rest outputs ht hlen =>
    refine foldl_resolveItem_invariant (I := fun t => s.history <+: t.history)
      (fun t call _ output usage reservation _ ht => ht.trans ?_) _ s (batchItems_calls hlen)
      List.prefix_rfl
    simp

section

variable [JsonText] [RequestText]

/-- The runs that start in `s₀`, with the effects they completed. -/
inductive Trace (s₀ : AgentRunState) :
    List (AgentRunEffect × AgentEffectOutcome) → AgentRunState → Prop
  | start : Trace s₀ [] s₀
  | commit {log : List (AgentRunEffect × AgentEffectOutcome)} {s s' : AgentRunState}
      {e : AgentRunEffect} {o : AgentEffectOutcome} :
      Trace s₀ log s → Accepted e o → s.nextEffect = some e →
      s.commitEffect e.effectId o = (s', .ok ()) → Trace s₀ (log ++ [(e, o)]) s'
  | quiet {log : List (AgentRunEffect × AgentEffectOutcome)} {s s' : AgentRunState} :
      Trace s₀ log s → Quiet s s' → Trace s₀ log s'

theorem committed_of_nextEffect {s s' : AgentRunState} {e : AgentRunEffect}
    {o : AgentEffectOutcome} (he : s.nextEffect = some e)
    (h : s.commitEffect e.effectId o = (s', .ok ())) : Committed s e o s' := by
  obtain ⟨e', he', _, hc⟩ := committed_of_commitEffect h
  rw [he, Option.some.injEq] at he'
  exact he' ▸ hc

theorem Trace.step {s₀ s s' : AgentRunState} {e : AgentRunEffect} {o : AgentEffectOutcome}
    {log : List (AgentRunEffect × AgentEffectOutcome)} (h : Trace s₀ log s) (ha : Accepted e o)
    (hc : Committed s e o s') : Trace s₀ (log ++ [(e, o)]) s' :=
  .commit h ha hc.nextEffect hc.commitEffect

/-- What holds at the start and survives every commit and every quiet transition holds along
the run. -/
theorem Trace.invariant {s₀ s : AgentRunState}
    {I : List (AgentRunEffect × AgentEffectOutcome) → AgentRunState → Prop}
    {log : List (AgentRunEffect × AgentEffectOutcome)} (h : Trace s₀ log s) (hstart : I [] s₀)
    (hcommit : ∀ log s e o s', I log s → Accepted e o → Committed s e o s' →
      I (log ++ [(e, o)]) s')
    (hquiet : ∀ log s s', I log s → Quiet s s' → I log s') : I log s := by
  induction h with
  | start => exact hstart
  | commit _ ha he hc ih => exact hcommit _ _ _ _ _ ih ha (committed_of_nextEffect he hc)
  | quiet _ hq ih => exact hquiet _ _ _ ih hq

end

/-! A small run environment, for concrete runs. -/

namespace Sample

@[reducible] def jsonText : JsonText :=
  { toText := fun _ => "null", parses := fun text => text == "null" }

@[reducible] def requestText : RequestText := { len := fun _ => some 100 }

def lookup : ToolName := ⟨"lookup", by decide⟩

def call (id : String) (arguments : Value) : ModelToolCall :=
  { callId := id, name := lookup, arguments, providerCallId := none }

def callsResponse (calls : List ModelToolCall) : ModelResponse :=
  { text := none, toolCalls := calls, usage := none, finishReason := .toolCalls }

def textResponse (text : String) : ModelResponse :=
  { text := some text, toolCalls := [], usage := none, finishReason := .stop }

def instructions : CompiledInstructions :=
  { core := { key := "core", version := 1, text := "core" }, agent := none, run := none,
    features := [] }

def plan : AgentRunPlan :=
  { instructions, tools := [], model := some "model", maxOutputTokens := 10,
    outputFormat := .text, providerMaxAttempts := 3, maxParallelToolCalls := 4,
    contextEstimate := .conservative, providerEnforcedLimitOptOut := true, deadlineMs := none,
    delegationDepth := 0, maxDelegationDepth := 1, tokenLimit := none }

def lookupPolicy (parallelSafe : Bool) : ToolRuntimePolicy :=
  { descriptor := { name := lookup, description := "looks up", schema := .null,
                    idempotent := true }
    idempotent := true, maxAttempts := 1, parallelSafe, delegation := false }

def state : AgentRunState := .withPlan "run" [.user "hi"] ⟨10⟩ plan

end Sample

end Agentive
