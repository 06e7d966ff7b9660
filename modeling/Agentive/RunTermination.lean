import Agentive.DriverLoop
import Agentive.RunTrace

/-! Every run ends. Each provider call uses up a part of the call limit, and between two provider
calls every commit takes calls off the pending list. -/

namespace Agentive

open AgentRunState DriverLoop

/-- A run of the bare state machine: its state, and the commits so far. -/
structure StateLoop where
  state : AgentRunState
  log : List (AgentRunEffect × AgentEffectOutcome)

def providerCommits (log : List (AgentRunEffect × AgentEffectOutcome)) : Nat :=
  log.countP (·.1.isProviderCall)

/-- How many tool calls the committed responses returned. -/
def returnedCalls (log : List (AgentRunEffect × AgentEffectOutcome)) : Nat :=
  (log.map (·.2.calls.length)).sum

@[simp] theorem providerCommits_concat (log : List (AgentRunEffect × AgentEffectOutcome))
    (e : AgentRunEffect) (o : AgentEffectOutcome) : providerCommits (log ++ [(e, o)]) =
      providerCommits log + if e.isProviderCall then 1 else 0 := by
  simp [providerCommits, List.countP_cons]

@[simp] theorem returnedCalls_concat (log : List (AgentRunEffect × AgentEffectOutcome))
    (e : AgentRunEffect) (o : AgentEffectOutcome) :
    returnedCalls (log ++ [(e, o)]) = returnedCalls log + o.calls.length := by
  simp [returnedCalls]

section

variable [JsonText] [RequestText]

/-- One round of the loop `finish_if_exhausted; next_effect; commit_effect`. -/
def StateLoop.turn (outcomes : Nat → AgentEffectOutcome) (l : StateLoop) :
    Turn StateLoop (Except StateTransitionError Unit) :=
  let (state, exhausted) := l.state.finishIfExhausted
  if exhausted then .ended { l with state } (.ok ())
  else match state.nextEffect with
    | none => .ended { l with state } (.ok ())
    | some e =>
      let o := outcomes l.log.length
      match state.commitEffect e.effectId o with
      | (state, .error err) => .ended { l with state } (.error err)
      | (state, .ok ()) => .next { state, log := l.log ++ [(e, o)] }

end

namespace AgentRunState

/-- The provider calls that count against the limit. -/
def callsUsed (s : AgentRunState) : Nat := max s.providerCallsStarted.val s.modelCalls.val

/-- What an active run can still use, one more than that, and nothing once it has ended. -/
def fuel (s : AgentRunState) : Nat :=
  if s.status.isActive then s.budget.modelCallLimit.val - s.callsUsed + 1 else 0

variable {s s' : AgentRunState}

theorem ProviderTurn.callsUsed_lt (h : s.ProviderTurn) :
    s.callsUsed < s.budget.modelCallLimit.val := by
  have hlt := h.charged_lt
  have hmax : s.callsUsed = Nat.max s.providerCallsStarted.val s.modelCalls.val := rfl
  omega

theorem fuel_le_of_quiet (h : Quiet s s') : s'.fuel ≤ s.fuel := by
  have hl := h.sameLedger
  have hused : s'.callsUsed = s.callsUsed := by
    simp only [callsUsed, hl.providerCallsStarted, hl.modelCalls]
  cases ha : s'.status.isActive with
  | false => simp [fuel, ha]
  | true =>
    have hactive := h.active ha
    simp [fuel, ha, hactive, hused, hl.budget]

theorem callsUsed_recordProviderEffect [RequestText] (hlt : s.callsUsed < 4294967295)
    (attempts : List ProviderAttempt) (usage : Option ModelTokenUsage) :
    s.callsUsed < (s.recordProviderEffect attempts usage).callsUsed := by
  have hcalls : (s.recordProviderEffect attempts usage).modelCalls =
      s.modelCalls.saturatingAdd 1 := recordProviderEffect_modelCalls s attempts usage
  have hstarted : (s.recordProviderEffect attempts usage).providerCallsStarted =
      (s.providerCallsStarted.max s.modelCalls).saturatingAdd (providerCallCount attempts) := by
    unfold recordProviderEffect recordProviderAttempts
    split <;> rfl
  have hone : 1 ≤ (providerCallCount attempts).val := by
    simp only [providerCallCount, Capped.val_max, Capped.val_one]
    omega
  simp only [callsUsed] at hlt ⊢
  simp only [hcalls, hstarted, Capped.val_saturatingAdd, Capped.val_max, Capped.val_one]
  omega

variable [JsonText] [RequestText]

/-- A provider call uses up a part of the limit, and a tool effect takes calls off the pending
list. -/
theorem Committed.progress {e : AgentRunEffect} {o : AgentEffectOutcome}
    (hc : Committed s e o s') :
    (e.isProviderCall = true ∧ s.ProviderTurn ∧ s'.pendingTools.length = o.calls.length ∧
        (s'.status.isActive = true → s.callsUsed < s'.callsUsed)) ∨
      (e.isProviderCall = false ∧ o.calls = [] ∧ s'.status = s.status ∧
        s'.callsUsed = s.callsUsed ∧ s'.pendingTools.length < s.pendingTools.length) := by
  have hpending := hc.pendingTools_eq
  have hcap (ht : s.ProviderTurn) : s.callsUsed < 4294967295 :=
    Nat.lt_of_lt_of_le ht.callsUsed_lt s.budget.modelCallLimit.le_cap
  have hused (t t' : AgentRunState) (h : SameLedger t t') : t'.callsUsed = t.callsUsed := by
    simp only [callsUsed, h.providerCallsStarted, h.modelCalls]
  cases hc with
  | response response attempts ht =>
    refine .inl ⟨rfl, ht, by rw [hpending]; rfl, fun _ => ?_⟩
    have hlt := callsUsed_recordProviderEffect (s := { s with status := .running }) (hcap ht)
      attempts response.usage
    have hsame : (s.acceptResponse response attempts).callsUsed =
        (recordProviderEffect { s with status := .running } attempts response.usage).callsUsed := by
      unfold acceptResponse applyResponse
      split
      · rfl
      · split <;> rfl
    rw [hsame]
    exact hlt
  | failure error attempts ht =>
    refine .inl ⟨rfl, ht, by rw [hpending]; rfl, fun _ => ?_⟩
    rw [hused _ _ (sameLedger_fail _ error.message)]
    exact callsUsed_recordProviderEffect (hcap ht) attempts error.usage
  | exhausted required ht =>
    refine .inl ⟨rfl, ht, by rw [hpending]; rfl, fun ha => ?_⟩
    simp [markIncomplete, RunStatus.isActive] at ha
  | tool call rest output attempts usage ht =>
    refine .inr ⟨rfl, rfl, by simp, ?_, by simp [ht.pending]⟩
    cases usage <;> cases s.delegationBudgetFor call <;> rfl
  | batch call rest outputs ht hlen =>
    obtain ⟨hstatus, hsame⟩ := foldl_resolveItem_invariant
      (I := fun t => t.status = s.status ∧ t.callsUsed = s.callsUsed)
      (fun t call _ output usage reservation _ ht => by
        refine ⟨by simpa using ht.1, ?_⟩
        cases usage <;> cases reservation <;> exact ht.2)
      _ s (batchItems_calls hlen) ⟨rfl, rfl⟩
    refine .inr ⟨rfl, rfl, hstatus, hsame, ?_⟩
    rw [hpending, ht.pending]
    simp [callsAfter]

/-- A commit uses up fuel, or leaves it and takes calls off the pending list. -/
theorem Committed.decreases {e : AgentRunEffect} {o : AgentEffectOutcome}
    (hc : Committed s e o s') :
    s'.fuel < s.fuel ∨ s'.fuel = s.fuel ∧ s'.pendingTools.length < s.pendingTools.length := by
  have hbudget := hc.fixed.2
  rcases hc.progress with ⟨_, ht, _, hlt⟩ | ⟨_, _, hstatus, hused, hlt⟩
  · refine .inl ?_
    have hmax := ht.callsUsed_lt
    cases ha : s'.status.isActive with
    | false => simp [fuel, ha, ht.active]
    | true =>
      have hlt := hlt ha
      simp only [fuel, ha, ht.active, if_true, hbudget]
      omega
  · exact .inr ⟨by simp only [fuel, hstatus, hused, hbudget], hlt⟩

end AgentRunState

namespace StateLoop

/-- What the commits so far have used up. -/
structure Bounded (s₀ : AgentRunState) (l : StateLoop) : Prop where
  budget : l.state.budget = s₀.budget
  used : l.state.status.isActive = true → providerCommits l.log ≤ l.state.callsUsed
  provider : providerCommits l.log ≤ s₀.budget.modelCallLimit.val
  total : l.log.length + l.state.pendingTools.length ≤
    providerCommits l.log + s₀.pendingTools.length + returnedCalls l.log

theorem Bounded.start (s₀ : AgentRunState) : Bounded s₀ ⟨s₀, []⟩ :=
  ⟨rfl, fun _ => Nat.zero_le _, Nat.zero_le _, by simp [providerCommits, returnedCalls]⟩

/-- Loop states in which less is left to do. -/
def Below : StateLoop → StateLoop → Prop :=
  InvImage (Prod.Lex (· < ·) (· < ·)) fun l => (l.state.fuel, l.state.pendingTools.length)

theorem below_wellFounded : WellFounded Below :=
  InvImage.wf _ (Prod.lex Nat.lt_wfRel Nat.lt_wfRel).wf

variable [JsonText] [RequestText] {outcomes : Nat → AgentEffectOutcome} {s₀ : AgentRunState}
  {l l' : StateLoop}

theorem turn_cases (outcomes : Nat → AgentEffectOutcome) (l : StateLoop) :
    (∃ t, l.turn outcomes = .ended t (.ok ()) ∧ t.log = l.log ∧ t.state.status.isActive = false) ∨
    (∃ t err, l.turn outcomes = .ended t (.error err) ∧ t.log = l.log) ∨
    ∃ e s', Committed l.state e (outcomes l.log.length) s' ∧
      l.turn outcomes = .next ⟨s', l.log ++ [(e, outcomes l.log.length)]⟩ := by
  obtain ⟨s, exhausted, hx⟩ : ∃ s exhausted, l.state.finishIfExhausted = (s, exhausted) :=
    ⟨_, _, rfl⟩
  cases exhausted with
  | true =>
    refine .inl ⟨{ l with state := s }, by simp only [turn, hx, if_true], rfl, ?_⟩
    rcases (finishIfExhausted_eq_true hx).2 with ⟨_, _, hs⟩ | ⟨_, _, hs⟩ <;>
      simp [hs, RunStatus.isActive]
  | false =>
    have hself := finishIfExhausted_eq_self (s := l.state) (by rw [hx])
    cases he : l.state.nextEffect with
    | none =>
      refine .inl ⟨l, by simp only [turn, hself, he, Bool.false_eq_true, if_false], rfl, ?_⟩
      cases ha : l.state.status.isActive with
      | false => rfl
      | true => exact absurd he (nextEffect_ne_none ha hself)
    | some e =>
      obtain ⟨s', result, hc⟩ : ∃ s' result,
          l.state.commitEffect e.effectId (outcomes l.log.length) = (s', result) := ⟨_, _, rfl⟩
      cases result with
      | error err =>
        refine .inr (.inl ⟨{ l with state := s' }, err, ?_, rfl⟩)
        simp only [turn, hself, he, hc, Bool.false_eq_true, if_false]
      | ok =>
        refine .inr (.inr ⟨e, s', committed_of_nextEffect he hc, ?_⟩)
        simp only [turn, hself, he, hc, Bool.false_eq_true, if_false]

theorem Bounded.next (h : Bounded s₀ l) (hn : l.turn outcomes = .next l') : Bounded s₀ l' := by
  rcases turn_cases outcomes l with ⟨_, ht, _⟩ | ⟨_, _, ht, _⟩ | ⟨e, s', hc, ht⟩
  · simp [ht] at hn
  · simp [ht] at hn
  · obtain rfl := Turn.next.inj (ht.symm.trans hn)
    have hused := h.used (active_of_nextEffect hc.nextEffect)
    have htotal := h.total
    rcases hc.progress with ⟨hcall, hturn, hlen, hlt⟩ | ⟨hcall, hnone, _, hsame, hlt⟩
    · have hmax := hturn.callsUsed_lt
      rw [h.budget] at hmax
      refine ⟨hc.fixed.2.trans h.budget, fun ha => ?_, ?_, ?_⟩
      · have hlt := hlt ha
        simp only [providerCommits_concat, hcall, if_true]
        omega
      · simp only [providerCommits_concat, hcall, if_true]
        omega
      · simp only [providerCommits_concat, returnedCalls_concat, hcall, if_true, hlen,
          List.length_append, List.length_cons, List.length_nil]
        omega
    · refine ⟨hc.fixed.2.trans h.budget, fun _ => ?_, ?_, ?_⟩
      · simpa [hcall, hsame] using hused
      · simpa [hcall] using h.provider
      · simp only [providerCommits_concat, returnedCalls_concat, hcall, hnone, Bool.false_eq_true,
          if_false, List.length_append, List.length_cons, List.length_nil]
        omega

theorem below_of_next (hn : l.turn outcomes = .next l') : Below l' l := by
  rcases turn_cases outcomes l with ⟨_, ht, _⟩ | ⟨_, _, ht, _⟩ | ⟨e, s', hc, ht⟩
  · simp [ht] at hn
  · simp [ht] at hn
  · obtain rfl := Turn.next.inj (ht.symm.trans hn)
    rcases hc.decreases with hlt | ⟨heq, hlt⟩
    · exact .left _ _ hlt
    · show Prod.Lex _ _ (_, _) (_, _)
      rw [heq]
      exact .right _ hlt

end StateLoop

/-- For every state and all outcomes the loop ends, in an ended run unless an outcome is
rejected, after no more provider commits than the call limit and no more other commits than calls
were pending or returned. -/
theorem every_run_ends [JsonText] [RequestText] (s : AgentRunState)
    (outcomes : Nat → AgentEffectOutcome) :
    (∃ fuel t result, drive (StateLoop.turn outcomes) fuel ⟨s, []⟩ = (t, some result) ∧
      (result = .ok () → t.state.status.isActive = false) ∧
      providerCommits t.log ≤ s.budget.modelCallLimit.val ∧
      t.log.length ≤ providerCommits t.log + s.pendingTools.length + returnedCalls t.log) ∧
    (s.status.isActive = true → s.finishIfExhausted.2 = false → s.nextEffect.isSome = true) := by
  refine ⟨?_, fun ha hx => ?_⟩
  · obtain ⟨fuel, t, result, hd⟩ : ∃ fuel t result,
        drive (StateLoop.turn outcomes) fuel ⟨s, []⟩ = (t, some result) := exists_drive_ended
      StateLoop.below_wellFounded (fun l l' _ hn => ⟨trivial, StateLoop.below_of_next hn⟩)
      (fun l l' _ hb => by
        rcases StateLoop.turn_cases outcomes l with ⟨_, ht, _⟩ | ⟨_, _, ht, _⟩ | ⟨_, _, _, ht⟩ <;>
          simp [ht] at hb)
      ⟨s, []⟩ trivial
    obtain ⟨l, hr, hend⟩ := reaches_of_drive hd
    have hb : StateLoop.Bounded s l := hr.invariant (.start s) fun _ _ hu hn => hu.next hn
    have hlog : t.log = l.log ∧ (result = .ok () → t.state.status.isActive = false) := by
      rcases StateLoop.turn_cases outcomes l with ⟨u, ht, hlog, hs⟩ | ⟨u, err, ht, hlog⟩ |
        ⟨_, _, _, ht⟩
      · obtain ⟨rfl, rfl⟩ := Turn.ended.inj (hend.symm.trans ht)
        exact ⟨hlog, fun _ => hs⟩
      · obtain ⟨rfl, rfl⟩ := Turn.ended.inj (hend.symm.trans ht)
        exact ⟨hlog, fun h => by cases h⟩
      · simp [ht] at hend
    have htotal := hb.total
    refine ⟨fuel, t, result, hd, hlog.2, ?_, ?_⟩
    · rw [hlog.1]
      exact hb.provider
    · rw [hlog.1]
      omega
  · have hne := nextEffect_ne_none ha (finishIfExhausted_eq_self hx)
    exact Option.isSome_iff_ne_none.mpr hne

/-- A call that is pending already when the loop starts is one commit more. -/
theorem pending_call_commits :
    ¬ ∀ (_ : JsonText) (_ : RequestText) (s : AgentRunState) (outcomes : Nat → AgentEffectOutcome)
      (fuel : Nat) (t : StateLoop) (result : Except StateTransitionError Unit),
      s.status.isActive = true →
      drive (StateLoop.turn outcomes) fuel ⟨s, []⟩ = (t, some result) →
      t.log.length ≤ s.budget.modelCallLimit.val + returnedCalls t.log := by
  intro claim
  let _ := Sample.jsonText
  let _ := Sample.requestText
  have h := claim Sample.jsonText Sample.requestText
    { Sample.state with pendingTools := [Sample.call "c" .null], budget := ⟨0⟩ }
    (fun _ => .tool .null 1 none) 2 _ (.ok ()) rfl rfl
  revert h
  decide

end Agentive
