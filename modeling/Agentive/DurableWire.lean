import Agentive.ActivityDelivery
import Agentive.Cursors
import Agentive.EffectDocuments

/-! Durable runs whose parties exchange texts. A run starts from the text of its input, each
activity is sent a text and answers with one, and each execution hands the run over to the next as a
text. -/

namespace Agentive

open Document DriverLoop Wire

/-- A value that stays portable below the nine levels of the records around it. -/
def Value.isEmbeddable (v : Value) : Bool := v.fits 118

/-- The document of the state can be read again: its images are validated, and the values that it
carries are embeddable. -/
structure AgentRunState.Writable [UrlText] (s : AgentRunState) : Prop where
  images : s.Validated
  values : ∀ v ∈ s.values, v.isEmbeddable = true

/-- The values that the outcome of an activity brings are embeddable. -/
def EffectActivityOutput.Writable (output : EffectActivityOutput) : Prop :=
  ∀ v ∈ output.intoParts.1.values, v.isEmbeddable = true

/-- So are those of all outcomes that activities report. -/
def Activities.Writable (activities : Activities) : Prop :=
  ∀ i input options output, activities i input options = .ok output → output.Writable

namespace AgentRunState

variable {s t : AgentRunState} {v : Value}

theorem mem_values : v ∈ s.values ↔ v ∈ s.plan.values ∨ (∃ m ∈ s.history, v ∈ m.values) ∨
    ∃ c ∈ s.pendingTools, c.arguments = v := by
  simp [values]

theorem Writable.of_same [UrlText] (hs : s.Writable) (h : SameLedger s t) : t.Writable := by
  have hvalues : t.values = s.values := by
    rw [AgentRunState.values, AgentRunState.values, h.plan, h.history, h.pendingTools]
  refine ⟨fun m hm => hs.images m (h.history ▸ hm), ?_⟩
  rw [hvalues]
  exact hs.values

section

variable [JsonText] [RequestText] {e : AgentRunEffect} {o : AgentEffectOutcome}

/-- A message that a commit adds has no image, and what it carries the outcome has brought. -/
theorem Committed.added (h : Committed s e o t) {m : Message} (hm : m ∈ t.history) :
    m ∈ s.history ∨ m.content.all (!·.isImage) = true ∧ ∀ v ∈ m.values, v ∈ o.values := by
  have hplain {m : Message} (htext : m.content.all (!·.isImage) = true) (hcalls : m.values = []) :
      m.content.all (!·.isImage) = true ∧ ∀ v ∈ m.values, v ∈ o.values := by
    refine ⟨htext, ?_⟩
    rw [hcalls]
    exact fun v hv => absurd hv List.not_mem_nil
  cases h with
  | response response attempts ht =>
    rw [acceptResponse, applyResponse] at hm
    by_cases hcalls : response.toolCalls ≠ []
    · rw [if_pos hcalls] at hm
      rcases List.mem_append.mp hm with hm | hm
      · exact .inl (by simpa using hm)
      · obtain rfl := List.mem_singleton.mp hm
        refine .inr ⟨rfl, fun v hv => ?_⟩
        simpa [Message.values, Message.assistantToolCalls, AgentEffectOutcome.values,
          ModelToolCall.toToolCall] using hv
    · rw [if_neg hcalls] at hm
      cases htext : response.text with
      | none => exact .inl (by simpa [htext, markIncomplete] using hm)
      | some text =>
        simp only [htext] at hm
        rcases List.mem_append.mp hm with hm | hm
        · exact .inl (by simpa using hm)
        · obtain rfl := List.mem_singleton.mp hm
          exact .inr (hplain rfl rfl)
  | failure error attempts ht =>
    rw [(sameLedger_fail _ _).history, recordProviderEffect_history] at hm
    exact .inl hm
  | exhausted required ht => exact .inl hm
  | tool call rest output attempts usage ht =>
    rw [resolveCall_history, List.mem_append, List.mem_singleton] at hm
    refine hm.imp_right ?_
    rintro rfl
    exact hplain rfl rfl
  | batch call rest outputs ht hlen =>
    revert m
    refine foldl_resolveItem_invariant (I := fun u => ∀ {m : Message}, m ∈ u.history →
        m ∈ s.history ∨ m.content.all (!·.isImage) = true ∧ ∀ v ∈ m.values, v ∈ _)
      (fun u call _ output usage reservation _ hu m hm => ?_) _ s (batchItems_calls hlen) .inl
    rw [resolveCall_history, List.mem_append, List.mem_singleton] at hm
    rcases hm with hm | rfl
    · exact hu hm
    · exact .inr (hplain rfl rfl)

/-- A commit carries on what the state has carried, and what the outcome has brought. -/
theorem Committed.values (h : Committed s e o t) (hv : v ∈ t.values) :
    v ∈ s.values ∨ v ∈ o.values := by
  rw [mem_values, h.fixed.1, h.pendingTools_eq] at hv
  rcases hv with hv | ⟨m, hm, hv⟩ | ⟨call, hcall, rfl⟩
  · exact .inl (mem_values.mpr (.inl hv))
  · rcases h.added hm with hold | ⟨_, hnew⟩
    · exact .inl (mem_values.mpr (.inr (.inl ⟨m, hold, hv⟩)))
    · exact .inr (hnew v hv)
  · cases o with
    | provider response attempts => exact .inr (List.mem_map_of_mem hcall)
    | tool output attempts usage =>
      exact .inl (mem_values.mpr (.inr (.inr ⟨call, List.mem_of_mem_tail hcall, rfl⟩)))
    | _ => cases hcall

end

theorem Validated.nextEffect [UrlText] (hs : s.Validated) {effect : AgentRunEffect}
    (he : s.nextEffect = some effect) : effect.Validated := by
  rcases nextEffect_cases he with ⟨_, rfl⟩ | ⟨_, _, _, rfl⟩ | ⟨_, _, _, rfl⟩
  · exact hs
  · trivial
  · trivial

end AgentRunState

/-- A party that executes activities: it is sent texts and answers with texts. -/
abbrev Worker (τ : Type) := Nat → τ → ActivityOptions → Except ActivityExecutionError τ

section

variable {τ : Type} [DocumentText τ] [UrlText]

/-- The worker that executes these activities. A text that it cannot read fails the activity. -/
def Activities.worker (activities : Activities) (refused : String) : Worker τ :=
  fun i text options =>
    match readText EffectActivityInput.document text with
    | none => .error (.other refused)
    | some input => (activities i input options).map (writeText EffectActivityOutput.document)

/-- The activities of a worker as the workflow sees them. -/
def Worker.activities (worker : Worker τ) (refused : String) : Activities :=
  fun i input options =>
    match worker i (writeText EffectActivityInput.document input) options with
    | .error e => .error e
    | .ok answer =>
      match readText EffectActivityOutput.document answer with
      | none => .error (.other refused)
      | some output => .ok output

variable [JsonText] [RequestText]

namespace ContinuationChain

variable {c d : ContinuationChain} {activities : Activities} {patched : Bool}

end ContinuationChain

end

namespace Sample

def number (n : UInt64) : Value := .number (.posInt n)

end Sample

end Agentive
