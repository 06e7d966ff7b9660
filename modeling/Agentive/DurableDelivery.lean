import Agentive.ActivityDelivery
import Agentive.Identity
import Agentive.RunEvents

/-! How often a durable run delivers its effects, however its executions are cut and whichever of
its workers are lost. -/

namespace Agentive

open AgentRunState

theorem length_filter_le_one {α β : Type} [DecidableEq β] {f : α → β} {l : List α}
    (h : (l.map f).Nodup) (b : β) : (l.filter fun a => f a = b).length ≤ 1 := by
  have hcount := List.nodup_iff_count_le_one.mp h b
  rw [List.count, List.countP_map, List.countP_eq_length_filter] at hcount
  have hsame : (fun a => decide (f a = b)) = ((· == b) ∘ f) := by
    funext a
    simp [beq_eq_decide]
  rwa [hsame]

theorem TemporalRunConfig.allowed_of_validatesEffect {config : TemporalRunConfig}
    {effect : AgentRunEffect} (h : config.validatesEffect effect = .ok ()) :
    ∀ name ∈ effect.toolNames, name.text ∈ config.durableIdempotentTools := by
  intro name hname
  cases hf : effect.toolNames.find? fun name => !config.allows name with
  | some other => simp [validatesEffect, hf] at h
  | none =>
    have hallows := List.find?_eq_none.mp hf name hname
    simpa [allows] using hallows

theorem TemporalRunConfig.attempts_pos (config : TemporalRunConfig) (effect : AgentRunEffect) :
    (config.activityMaxAttempts effect).min durableSafeInfrastructureMaxAttempts ≠ 0 ∧
      ((config.activityMaxAttempts effect).min durableSafeInfrastructureMaxAttempts).val ≤
        if effect.isProviderCall && !config.durableIdempotentProvider then 1 else 2 := by
  unfold activityMaxAttempts
  split <;> decide

/-- Only a response in time moves an active run to its next round. -/
theorem AgentRunState.Committed.rounds [JsonText] [RequestText] {s t : AgentRunState}
    {e : AgentRunEffect} {o : AgentEffectOutcome} (hc : Committed s e o t) :
    t.runId = s.runId ∧ s.modelCalls.val ≤ t.modelCalls.val ∧
      (e.isProviderCall = true → t.status.isActive = true →
        s.modelCalls.val < t.modelCalls.val) := by
  cases hc with
  | response response attempts ht =>
    have hnext := ht.val_nextRound
    refine ⟨by simp, ?_, fun _ _ => ?_⟩ <;> rw [acceptResponse_modelCalls] <;> omega
  | failure error attempts ht =>
    have hl := sameLedger_fail (s.recordProviderEffect attempts error.usage) error.message
    have hnext := ht.val_nextRound
    refine ⟨by simp [hl.runId], ?_, fun _ _ => ?_⟩ <;>
      rw [hl.modelCalls, recordProviderEffect_modelCalls] <;> omega
  | exhausted required ht =>
    refine ⟨rfl, Nat.le_refl _, fun _ hactive => ?_⟩
    simp [markIncomplete, RunStatus.isActive] at hactive
  | tool call rest output attempts usage ht =>
    refine ⟨by simp, by simp, fun he => ?_⟩
    simp [toolEffect, AgentRunEffect.isProviderCall] at he
  | batch call rest outputs ht hlen =>
    obtain ⟨hrun, hcalls⟩ := foldl_resolveItem_rounds hlen
    refine ⟨hrun, Nat.le_of_eq (congrArg Capped.val hcalls.symm), fun he => ?_⟩
    simp [toolBatchEffect, AgentRunEffect.isProviderCall] at he

theorem SameLedger.trans {s t u : AgentRunState} (h : SameLedger s t) (h' : SameLedger t u) :
    SameLedger s u where
  runId := h'.runId.trans h.runId
  plan := h'.plan.trans h.plan
  history := h'.history.trans h.history
  budget := h'.budget.trans h.budget
  modelCalls := h'.modelCalls.trans h.modelCalls
  providerCallsStarted := h'.providerCallsStarted.trans h.providerCallsStarted
  reservedChildModelCalls := h'.reservedChildModelCalls.trans h.reservedChildModelCalls
  reservedTokens := h'.reservedTokens.trans h.reservedTokens
  pendingTools := h'.pendingTools.trans h.pendingTools
  text := h'.text.trans h.text
  entries := h'.entries.trans h.entries

/-- Between two effects the workflow records the time and finishes what is exhausted. -/
theorem sameLedger_settled (s : AgentRunState) (ms : U64) :
    SameLedger s (s.recordElapsed ms).finishIfExhausted.1 :=
  (sameLedger_recordElapsed s ms).trans (sameLedger_finishIfExhausted _)

theorem active_of_settled {s : AgentRunState} {ms : U64}
    (h : (s.recordElapsed ms).finishIfExhausted.1.status.isActive = true) :
    s.status.isActive = true :=
  (Quiet.elapsed ms).active (Quiet.exhausted.active h)

/-- The ids of the tool calls that the responses to these activities ask for. -/
def requestedCalls (activities : Activities) (l : List Scheduled) : List String :=
  l.flatMap fun a =>
    match activities a.index a.input a.options with
    | .ok output => output.intoParts.1.calls.map (·.callId)
    | .error _ => []

namespace Course

variable [JsonText] [RequestText] {config : TemporalRunConfig} {activities : Activities}
  {s : AgentRunState} {l : List Scheduled}

theorem eq_nil_of_ended (h : Course config activities s l) (hs : s.status.isActive = false) :
    l = [] := by
  have hnone {a : Scheduled} : ¬ ExecutionLoop.Schedules config s a := by
    intro ha
    have hactive := active_of_nextEffect ha.effect
    simp [hs] at hactive
  cases h with
  | idle => rfl
  | last ha => exact absurd ha hnone
  | commit ha => exact absurd ha hnone

theorem schedules (h : Course config activities s l) {a : Scheduled} (ha : a ∈ l) :
    ∃ t, ExecutionLoop.Schedules config t a := by
  induction h with
  | idle => cases ha
  | last hs =>
    obtain rfl := List.mem_singleton.mp ha
    exact ⟨_, hs⟩
  | commit hs _ _ _ ih =>
    rcases List.mem_cons.mp ha with rfl | ha
    · exact ⟨_, hs⟩
    · exact ih ha

/-- Each provider call of a chain belongs to a round of its own. -/
theorem rounds (h : Course config activities s l) :
    ∃ rounds : List Nat, rounds.Nodup ∧ (∀ n ∈ rounds, s.modelCalls.val ≤ n) ∧
      (l.filter (·.input.effect.isProviderCall)).map (·.input.effect.effectId) =
        rounds.map fun n => EffectTag.text s.runId (.provider n) := by
  have hid {a : Scheduled} {s : AgentRunState} (ha : ExecutionLoop.Schedules config s a)
      (hp : a.input.effect.isProviderCall = true) :
      a.input.effect.effectId = EffectTag.text s.runId (.provider s.modelCalls.val) := by
    rcases nextEffect_cases ha.effect with ⟨_, he⟩ | ⟨_, _, _, he⟩ | ⟨_, _, _, he⟩
    · rw [he]
      rfl
    · simp [he, toolEffect, AgentRunEffect.isProviderCall] at hp
    · simp [he, toolBatchEffect, AgentRunEffect.isProviderCall] at hp
  induction h with
  | idle s => exact ⟨[], List.nodup_nil, by simp, rfl⟩
  | @last s a ha =>
    by_cases hp : a.input.effect.isProviderCall = true
    · exact ⟨[s.modelCalls.val], by simp, by simp, by simp [hp, hid ha hp]⟩
    · exact ⟨[], by simp, by simp, by simp [hp]⟩
  | @commit s t a output rest ha ho hc hrest ih =>
    obtain ⟨rounds, hnodup, hfrom, hids⟩ := ih
    obtain ⟨hrun, hle, hlt⟩ := hc.rounds
    have hl := sameLedger_settled t output.intoParts.2
    rw [hl.runId, hrun] at hids
    rw [hl.modelCalls] at hfrom
    by_cases hp : a.input.effect.isProviderCall = true
    · by_cases hu : (t.recordElapsed output.intoParts.2).finishIfExhausted.1.status.isActive = true
      · have hless := hlt hp (active_of_settled hu)
        refine ⟨s.modelCalls.val :: rounds, List.nodup_cons.mpr ⟨fun hmem => ?_, hnodup⟩, ?_, ?_⟩
        · have hmin := hfrom _ hmem
          omega
        · intro n hn
          rcases List.mem_cons.mp hn with rfl | hn
          · exact Nat.le_refl _
          · exact Nat.le_trans hle (hfrom n hn)
        · simp [hp, hid ha hp, hids]
      · obtain rfl := hrest.eq_nil_of_ended (Bool.eq_false_iff.mpr hu)
        exact ⟨[s.modelCalls.val], by simp, by simp, by simp [hp, hid ha hp]⟩
    · exact ⟨rounds, hnodup, fun n hn => Nat.le_trans hle (hfrom n hn), by simp [hp, hids]⟩

/-- The ids of the provider calls of a chain are pairwise different. -/
theorem nodup_providerIds (h : Course config activities s l) :
    ((l.filter (·.input.effect.isProviderCall)).map (·.input.effect.effectId)).Nodup := by
  obtain ⟨rounds, hnodup, _, hids⟩ := h.rounds
  rw [hids, List.nodup_map_iff fun m n hmn => by simpa using EffectTag.text_inj.mp hmn]
  exact hnodup

/-- The effects that follow a named run have new ids, as long as no call id is used twice. -/
theorem nodup_effectIds (h : Course config activities s l) {runId : String} {log : EffectLog}
    {tags : List EffectTag} {done : List String} (hn : Named runId log s tags done)
    (hd : (callIds log ++ requestedCalls activities l).Nodup) :
    (log.map (·.1.effectId) ++ l.map (·.input.effect.effectId)).Nodup := by
  induction h generalizing log tags done with
  | idle s =>
    have hids := hn.nodup_effectIds (List.nodup_append.mp hd).1
    rw [List.map_append, List.map_map] at hids
    rw [List.map_nil, List.append_nil]
    exact (List.nodup_append.mp hids).1
  | last ha =>
    have hids := hn.nodup_effectIds (List.nodup_append.mp hd).1
    rw [ha.effect, List.map_append, List.map_map] at hids
    exact hids
  | @commit s t a output rest ha ho hc hrest ih =>
    obtain ⟨tags', done', hcommitted⟩ := hn.committed hc
    have hsettled := (hcommitted.quiet (.elapsed output.intoParts.2)).quiet .exhausted
    have hrequested : requestedCalls activities (a :: rest) =
        output.intoParts.1.calls.map (·.callId) ++ requestedCalls activities rest := by
      simp [requestedCalls, ho]
    have hids := ih hsettled (by rwa [callIds_concat, List.append_assoc, ← hrequested])
    simpa using hids

end Course

/-- The activities that a durable run schedules, in all its executions. -/
def scheduledActivities [JsonText] [RequestText] (activities : Activities) (patched : Bool)
    (fuel : Nat) (input : TemporalWorkflowInput) : List Scheduled :=
  match beginExecution patched input [] with
  | .error _ => []
  | .ok l => ContinuationChain.scheduled activities patched fuel ⟨l, []⟩

theorem course_scheduledActivities [JsonText] [RequestText] (activities : Activities)
    (patched : Bool) (fuel : Nat) (input : TemporalWorkflowInput) :
    Course input.config activities input.state
      (scheduledActivities activities patched fuel input) := by
  unfold scheduledActivities
  cases hb : beginExecution patched input [] with
  | error failure => exact .idle _
  | ok l =>
    obtain rfl := beginExecution_ok hb
    let start : ExecutionLoop :=
      ExecutionLoop.updateSnapshot { input, snapshot := none, selected := [], committed := [] }
    exact ContinuationChain.course_scheduled (c := ⟨start, []⟩) fuel

namespace TemporalService

def deliveriesOf (service : TemporalService) (a : Scheduled) : List Delivery :=
  service.deliveries a.index a.input a.options

/-- The deliveries of these activities, in their order. -/
def delivered (service : TemporalService) (l : List Scheduled) : List (Scheduled × Delivery) :=
  l.flatMap fun a => (service.deliveriesOf a).map (a, ·)

variable {service : TemporalService} {l : List Scheduled}

theorem delivered_cons (a : Scheduled) :
    service.delivered (a :: l) = (service.deliveriesOf a).map (a, ·) ++ service.delivered l :=
  List.flatMap_cons

theorem mem_delivered {p : Scheduled × Delivery} (h : p ∈ service.delivered l) : p.1 ∈ l := by
  obtain ⟨a, ha, hp⟩ := List.mem_flatMap.mp h
  obtain ⟨d, _, rfl⟩ := List.mem_map.mp hp
  exact ha

/-- Where at most one activity is counted, so are no more than its deliveries. -/
theorem countP_delivered_le {q : Scheduled → Bool} {n : Nat} (hone : (l.filter q).length ≤ 1)
    (hn : ∀ a ∈ l, q a = true → (service.deliveriesOf a).length ≤ n) :
    (service.delivered l).countP (fun p => q p.1) ≤ n := by
  induction l with
  | nil => exact Nat.zero_le n
  | cons a l ih =>
    rw [delivered_cons, List.countP_append, List.countP_map]
    by_cases hq : q a = true
    · have hnone : (service.delivered l).countP (fun p => q p.1) = 0 := by
        rw [List.countP_eq_zero]
        intro p hp hqp
        have hmem : p.1 ∈ l.filter q := List.mem_filter.mpr ⟨mem_delivered hp, hqp⟩
        rw [List.filter_cons_of_pos hq, List.length_cons] at hone
        have hpos := List.length_pos_of_mem hmem
        omega
      have hle := List.countP_le_length (p := (fun p : Scheduled × Delivery => q p.1) ∘ (a, ·))
        (l := service.deliveriesOf a)
      have hmax := hn a (List.mem_cons_self ..) hq
      omega
    · have hzero : (service.deliveriesOf a).countP
          ((fun p : Scheduled × Delivery => q p.1) ∘ (a, ·)) = 0 := by
        rw [List.countP_eq_zero]
        exact fun d _ => hq
      rw [List.filter_cons_of_neg hq] at hone
      have hrest := ih hone fun b hb => hn b (List.mem_cons_of_mem a hb)
      omega

theorem Reliable.length_le [JsonText] [RequestText] [ArgumentSchema] {agent : Agent}
    {config : TemporalRunConfig} {s : AgentRunState} {a : Scheduled} (h : service.Reliable agent)
    (ha : ExecutionLoop.Schedules config s a) :
    (service.deliveriesOf a).length ≤
      if a.input.effect.isProviderCall && !config.durableIdempotentProvider then 1 else 2 := by
  have hpos := config.attempts_pos a.input.effect
  rw [← ha.attempts] at hpos
  exact Nat.le_trans (h.attempts a.index a.input a.options hpos.1) hpos.2

end TemporalService

/-- In all its executions a durable run delivers each provider call once, or twice where the
provider is declared idempotent, and tools that are declared idempotent only. Where no call waits
at its start and the responses use no call id twice, no effect is delivered more than twice. -/
theorem deliveries_bounded [JsonText] [RequestText] [ArgumentSchema] {service : TemporalService}
    {agent : Agent} (hservice : service.Reliable agent) (patched : Bool) (fuel : Nat)
    (input : TemporalWorkflowInput) :
    let activities := scheduledActivities service.answer patched fuel input
    let delivered := service.delivered activities
    (∀ id, delivered.countP (fun p => p.1.input.effect.isProviderCall &&
        p.1.input.effect.effectId = id) ≤
          if input.config.durableIdempotentProvider then 2 else 1) ∧
      (∀ p ∈ delivered, ∀ name ∈ p.1.input.effect.toolNames,
        name.text ∈ input.config.durableIdempotentTools) ∧
      (input.state.pendingTools = [] → (requestedCalls service.answer activities).Nodup →
        ∀ id, delivered.countP (fun p => p.1.input.effect.effectId = id) ≤ 2) := by
  intro activities delivered
  have hcourse := course_scheduledActivities service.answer patched fuel input
  have hattempts : ∀ a ∈ activities, (service.deliveriesOf a).length ≤
      if a.input.effect.isProviderCall && !input.config.durableIdempotentProvider then 1
      else 2 := by
    intro a ha
    obtain ⟨s, hs⟩ := hcourse.schedules ha
    exact hservice.length_le hs
  refine ⟨fun id => ?_, fun p hp => ?_, fun hidle hunique id => ?_⟩
  · refine TemporalService.countP_delivered_le
      (q := fun a => a.input.effect.isProviderCall && a.input.effect.effectId = id) ?_ ?_
    · have hone := length_filter_le_one hcourse.nodup_providerIds id
      rw [List.filter_filter] at hone
      simpa [Bool.and_comm] using hone
    · intro a ha hq
      have hle := hattempts a ha
      obtain ⟨hp, -⟩ := Bool.and_eq_true_iff.mp hq
      rw [hp, Bool.true_and] at hle
      cases hi : input.config.durableIdempotentProvider <;> simpa [hi] using hle
  · obtain ⟨s, hs⟩ := hcourse.schedules (TemporalService.mem_delivered hp)
    exact input.config.allowed_of_validatesEffect hs.allowed
  · refine TemporalService.countP_delivered_le (q := fun a => a.input.effect.effectId = id) ?_ ?_
    · have hnamed : Named input.state.runId [] input.state [] [] :=
        ⟨rfl, rfl, rfl, by simp [callIds, hidle], by simp, by simp, by simp⟩
      have hids := hcourse.nodup_effectIds hnamed (by simpa [callIds] using hunique)
      exact length_filter_le_one (by simpa using hids) id
    · intro a ha _
      have hle := hattempts a ha
      split at hle <;> omega

namespace TemporalService

/-- A service whose workers do with each delivery what a script says. -/
def scripted [JsonText] [RequestText] [ArgumentSchema] (agent : Agent)
    (script : Nat → List Delivery) : TemporalService where
  deliveries i _ options :=
    if options.maximumAttempts = 0 then script i
    else (script i).take options.maximumAttempts.val
  answer i input options :=
    let deliveries :=
      if options.maximumAttempts = 0 then script i
      else (script i).take options.maximumAttempts.val
    match deliveries.getLast?.bind (·.result agent input) with
    | some (.ok output) => .ok output
    | some (.error .cancelled) => .error .cancelled
    | some (.error _) => .error (.other "activity failed")
    | none => .error (.other "activity timed out")

theorem reliable_scripted [JsonText] [RequestText] [ArgumentSchema] (agent : Agent)
    (script : Nat → List Delivery) : (scripted agent script).Reliable agent where
  attempts i input options hne := by
    simp only [scripted, if_neg hne]
    exact List.length_take_le _ _
  answers i input options output h := by
    simp only [scripted] at h
    split at h
    · next o ho =>
      obtain rfl := Except.ok.inj h
      obtain ⟨d, hd, hresult⟩ := Option.bind_eq_some_iff.mp ho
      exact ⟨d, hd, hresult⟩
    · cases h
    · cases h
    · cases h

end TemporalService

namespace Sample

/-- A delivery whose worker reports, or is lost. -/
def delivery (response : ModelResponse) (wakes : List ActivityWake) : Delivery :=
  { surroundings := environment fun _ => iteration [] []
    fuel := 0
    script := (iteration [answering response] []).effect
    wakes
    elapsedMs := 0 }

/-- The model asks for a tool, whose worker is lost once, and answers. -/
def deliveries : Nat → List Delivery
  | 0 => [delivery (callsResponse [call "a" (.object [])]) [.recorded, .finished]]
  | 1 => [delivery (textResponse "") [.recorded], delivery (textResponse "") [.finished]]
  | _ => [delivery (textResponse "hi") [.finished]]

end Sample

theorem deliveries_bounded_sample :
    let _ := Sample.jsonText
    let _ := Sample.requestText
    let _ := Sample.argumentSchema
    let service := TemporalService.scripted (Sample.agent false) Sample.deliveries
    let delivered := service.delivered (scheduledActivities service.answer true 4
      (.new (Sample.started false) Sample.temporalConfig))
    delivered.map (·.1.input.effect.effectId) =
        ["run:provider:0", "run:tool:a", "run:tool:a", "run:provider:1"] ∧
      delivered.countP (fun p => p.1.input.effect.isProviderCall &&
        p.1.input.effect.effectId = "run:provider:0") ≤ 1 ∧
      delivered.countP (fun p => p.1.input.effect.effectId = "run:tool:a") ≤ 2 := by
  intro _ _ _ service delivered
  have h := deliveries_bounded (TemporalService.reliable_scripted (Sample.agent false)
    Sample.deliveries) true 4 (.new (Sample.started false) Sample.temporalConfig)
  exact ⟨by decide +kernel, h.1 _, h.2.2 rfl (by decide +kernel) _⟩

end Agentive
