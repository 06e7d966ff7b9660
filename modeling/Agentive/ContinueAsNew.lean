import Agentive.RunTermination
import Agentive.Workflow

/-! Continue-As-New against the run that is never cut: the chain selects the same effects and ends
in the same state, wherever its executions are cut. -/

namespace Agentive

open AgentRunState DriverLoop

namespace ExecutionLoop

/-- Two executions that have come equally far in runs which differ in their threshold only. -/
structure SameProgress (l u : ExecutionLoop) : Prop where
  state : u.input.state = l.input.state
  completedEffects : u.input.completedEffects = l.input.completedEffects
  selected : u.selected = l.selected
  config : ∃ n, u.input.config = { l.input.config with continueAsNewAfterEffects := n }

/-- Both turns go on, or both end in the same way. -/
inductive Agrees : Turn ExecutionLoop WorkflowEnd → Turn ExecutionLoop WorkflowEnd → Prop
  | next {l u : ExecutionLoop} : l.SameProgress u → Agrees (.next l) (.next u)
  | returned {l u : ExecutionLoop} (state : AgentRunState) : l.SameProgress u →
      Agrees (.ended l (.returned state)) (.ended u (.returned state))
  | failed {l u : ExecutionLoop} (failure : WorkflowFailure) : l.SameProgress u →
      Agrees (.ended l (.failed failure)) (.ended u (.failed failure))

variable {l l' u : ExecutionLoop}

theorem SameProgress.refl (l : ExecutionLoop) : l.SameProgress l :=
  ⟨rfl, rfl, rfl, l.input.config.continueAsNewAfterEffects, rfl⟩

theorem SameProgress.setState (h : l.SameProgress u) (state : AgentRunState) :
    (l.setState state).SameProgress (u.setState state) :=
  ⟨rfl, h.completedEffects, h.selected, h.config⟩

theorem SameProgress.updateSnapshot (h : l.SameProgress u) :
    l.updateSnapshot.SameProgress u.updateSnapshot :=
  ⟨h.state, h.completedEffects, h.selected, h.config⟩

theorem SameProgress.leave (h : l.SameProgress u) : Agrees l.leave u.leave := by
  have hend := (h.setState l.input.state.finishIfExhausted.1).updateSnapshot
  unfold ExecutionLoop.leave
  rw [h.state]
  exact .returned _ hend

variable [JsonText] [RequestText] {activities : Activities} {effect : AgentRunEffect}

theorem SameProgress.complete (h : l.SameProgress u) (output : EffectActivityOutput) :
    Agrees (l.complete effect output) (u.complete effect output) := by
  obtain ⟨state, result, hc⟩ : ∃ state result,
      l.input.state.commitEffect effect.effectId output.intoParts.1 = (state, result) :=
    ⟨_, _, rfl⟩
  have hu : u.input.state.commitEffect effect.effectId output.intoParts.1 = (state, result) := by
    rw [h.state, hc]
  unfold ExecutionLoop.complete
  simp only [hc, hu]
  cases result with
  | error e => exact .failed _ (h.setState state)
  | ok =>
    refine .next (SameProgress.updateSnapshot ⟨rfl, ?_, h.selected, h.config⟩)
    rw [h.completedEffects]

theorem SameProgress.perform (h : l.SameProgress u) :
    Agrees (l.perform activities effect) (u.perform activities effect) := by
  have hselected : u.selected ++ [effect] = l.selected ++ [effect] := by rw [h.selected]
  have hnext : SameProgress { l with selected := l.selected ++ [effect] }
      { u with selected := u.selected ++ [effect] } :=
    ⟨h.state, h.completedEffects, hselected, h.config⟩
  obtain ⟨n, hconfig⟩ := h.config
  have hvalidates : u.input.config.validatesEffect effect =
      l.input.config.validatesEffect effect := by rw [hconfig]; rfl
  have hattempts : u.input.config.activityMaxAttempts effect =
      l.input.config.activityMaxAttempts effect := by rw [hconfig]; rfl
  unfold ExecutionLoop.perform
  simp only [hvalidates, hattempts, h.state, h.selected] at hnext ⊢
  cases l.input.config.validatesEffect effect with
  | error e => exact .failed _ hnext
  | ok =>
    dsimp only
    split
    · exact .returned _ (hnext.setState _).updateSnapshot
    · exact .failed _ hnext
    · exact hnext.complete _

theorem iterate_cases (continues : ExecutionLoop → Bool) (activities : Activities)
    (l : ExecutionLoop) :
    (l.iterate continues activities = (l.setState l.input.state.finishIfExhausted.1).leave ∧
        (l.input.state.finishIfExhausted.2 = true ∨ l.input.state.nextEffect = none)) ∨
      ∃ effect, l.input.state.finishIfExhausted = (l.input.state, false) ∧
        l.input.state.nextEffect = some effect ∧
        (continues l = true ∧ l.iterate continues activities =
            .ended l (.continuedAsNew { l.input with effectsInExecution := 0 }) ∨
          continues l = false ∧ l.iterate continues activities = l.perform activities effect) := by
  obtain ⟨state, exhausted, hx⟩ : ∃ state exhausted,
      l.input.state.finishIfExhausted = (state, exhausted) := ⟨_, _, rfl⟩
  cases exhausted with
  | true => exact .inl ⟨by simp only [iterate, hx, if_true], .inl (by rw [hx])⟩
  | false =>
    have hself := finishIfExhausted_eq_self (s := l.input.state) (by rw [hx])
    cases he : l.input.state.nextEffect with
    | none =>
      refine .inl ⟨?_, .inr rfl⟩
      simp only [iterate, hself, he, Bool.false_eq_true, if_false]
    | some effect =>
      have hl : l.setState l.input.state = l := rfl
      refine .inr ⟨effect, hself, rfl, ?_⟩
      cases hc : continues l with
      | true =>
        refine .inl ⟨rfl, ?_⟩
        simp only [iterate, hself, hl, he, hc, Bool.false_eq_true, if_false, if_true]
      | false =>
        refine .inr ⟨rfl, ?_⟩
        simp only [iterate, hself, hl, he, hc, Bool.false_eq_true, if_false]

theorem SameProgress.iterate (h : l.SameProgress u) (continues : ExecutionLoop → Bool)
    (activities : Activities) :
    (continues l = true ∧ l.iterate continues activities =
        .ended l (.continuedAsNew { l.input with effectsInExecution := 0 })) ∨
      Agrees (l.iterate continues activities) (u.iterate (fun _ => false) activities) := by
  rcases iterate_cases continues activities l with
    ⟨hl, hend⟩ | ⟨effect, hx, he, ⟨hc, hl⟩ | ⟨hc, hl⟩⟩
  · refine .inr ?_
    have hu : u.iterate (fun _ => false) activities =
        (u.setState u.input.state.finishIfExhausted.1).leave := by
      rcases iterate_cases (fun _ => false) activities u with ⟨hu, _⟩ | ⟨effect, hx, he, _⟩
      · exact hu
      · rw [h.state] at hx he
        rcases hend with hend | hend
        · simp [hx] at hend
        · simp [he] at hend
    rw [hl, hu, h.state]
    exact (h.setState _).leave
  · exact .inl ⟨hc, hl⟩
  · refine .inr ?_
    have hu : u.iterate (fun _ => false) activities = u.perform activities effect := by
      rcases iterate_cases (fun _ => false) activities u with ⟨_, hend⟩ | ⟨effect', _, he', hu⟩
      · rw [h.state] at hend
        rcases hend with hend | hend
        · simp [hx] at hend
        · simp [he] at hend
      · rw [h.state, he, Option.some.injEq] at he'
        subst he'
        rcases hu with ⟨hcontinues, _⟩ | ⟨_, hu⟩
        · cases hcontinues
        · exact hu
    rw [hl, hu]
    exact h.perform

theorem perform_cases (activities : Activities) (l : ExecutionLoop) (effect : AgentRunEffect) :
    (∃ (l' : ExecutionLoop) (failure : WorkflowFailure),
      l.perform activities effect = .ended l' (.failed failure) ∧
      l'.committed = l.committed) ∨
    (∃ (i : Nat) (input : EffectActivityInput) (options : ActivityOptions) (l' : ExecutionLoop),
      activities i input options = .error .cancelled ∧
      l.perform activities effect = .ended l' (.returned l.input.state.cancel) ∧
      l'.snapshot = some ⟨l.input.state.cancel, l.input.completedEffects⟩ ∧
      l'.committed = l.committed) ∨
    ∃ (output : EffectActivityOutput) (s : AgentRunState) (l' : ExecutionLoop),
      l.input.state.commitEffect effect.effectId output.intoParts.1 = (s, .ok ()) ∧
      l.perform activities effect = .next l' ∧
      l'.input =
        { l.input with
          state := (s.recordElapsed output.intoParts.2).finishIfExhausted.1
          completedEffects := l.input.completedEffects.saturatingAdd 1
          effectsInExecution := l.input.effectsInExecution.saturatingAdd 1 } ∧
      l'.snapshot = some ⟨l'.input.state, l'.input.completedEffects⟩ ∧
      l'.committed = l.committed ++ [(effect, output.intoParts.1)] := by
  simp only [perform]
  split
  · exact .inl ⟨_, _, rfl, rfl⟩
  · split
    · next hcancelled => exact .inr (.inl ⟨_, _, _, _, hcancelled, rfl, rfl, rfl⟩)
    · exact .inl ⟨_, _, rfl, rfl⟩
    · next output _ =>
      simp only [complete]
      split
      · exact .inl ⟨_, _, rfl, rfl⟩
      · next s hc => exact .inr (.inr ⟨output, s, _, hc, rfl, rfl, rfl, rfl⟩)

theorem perform_next (he : l.input.state.nextEffect = some effect)
    (h : l.perform activities effect = .next l') :
    ∃ o s elapsedMs, Committed l.input.state effect o s ∧
      l'.input.state = (s.recordElapsed elapsedMs).finishIfExhausted.1 ∧
      l'.input.config = l.input.config ∧
      l'.input.effectsInExecution = l.input.effectsInExecution.saturatingAdd 1 ∧
      l'.committed = l.committed ++ [(effect, o)] := by
  rcases perform_cases activities l effect with
    ⟨_, _, hperform, _⟩ | ⟨_, _, _, _, _, hperform, _⟩ |
      ⟨output, s, _, hc, hperform, hinput, _, hcommitted⟩ <;> rw [hperform] at h <;> cases h
  rw [hinput]
  exact ⟨_, s, _, committed_of_nextEffect he hc, rfl, rfl, rfl, hcommitted⟩

theorem iterate_next {continues : ExecutionLoop → Bool}
    (h : l.iterate continues activities = .next l') :
    ∃ effect, l.input.state.nextEffect = some effect ∧ continues l = false ∧
      l.perform activities effect = .next l' := by
  rcases iterate_cases continues activities l with
    ⟨hl, _⟩ | ⟨effect, _, he, ⟨_, hl⟩ | ⟨hc, hl⟩⟩ <;> rw [hl] at h
  · cases h
  · cases h
  · exact ⟨effect, he, hc, h⟩

theorem committed_of_ended {continues : ExecutionLoop → Bool} {e : WorkflowEnd}
    (h : l.iterate continues activities = .ended l' e) : l'.committed = l.committed := by
  rcases iterate_cases continues activities l with
    ⟨hl, _⟩ | ⟨effect, _, _, ⟨_, hl⟩ | ⟨_, hl⟩⟩ <;> rw [hl] at h
  · cases h
    rfl
  · cases h
    rfl
  · rcases perform_cases activities l effect with
      ⟨_, _, hperform, hcommitted⟩ | ⟨_, _, _, _, _, hperform, _, hcommitted⟩ |
        ⟨_, _, _, _, hperform, _⟩ <;> rw [hperform] at h <;> cases h
    · exact hcommitted
    · exact hcommitted

/-- The run that is never cut. -/
def uncut (activities : Activities) (l : ExecutionLoop) : Turn ExecutionLoop WorkflowEnd :=
  l.iterate (fun _ => false) activities

end ExecutionLoop

namespace TemporalRunConfig

def withThreshold (config : TemporalRunConfig) (n : U32) : TemporalRunConfig :=
  { config with continueAsNewAfterEffects := n }

theorem validate_withThreshold {config : TemporalRunConfig} {n m : U32} (hn : 0 < n)
    (hm : 0 < m) : (config.withThreshold n).validate = (config.withThreshold m).validate := by
  have hne {k : U32} (hk : 0 < k) : k ≠ 0 := by
    rintro rfl
    exact Nat.lt_irrefl _ hk
  simp only [validate, withThreshold, hne hn, hne hm, if_false]

theorem threshold_pos {config : TemporalRunConfig}
    (h : config.validate = .ok ()) : 0 < config.continueAsNewAfterEffects.val := by
  unfold validate at h
  split at h
  · cases h
  · split at h
    · cases h
    · split at h
      · cases h
      · next hne =>
        by_contra hzero
        exact hne (Capped.ext (by simpa using hzero))

end TemporalRunConfig

/-- The result of an execution that ends the chain. -/
def WorkflowEnd.result : WorkflowEnd → Option (Except WorkflowFailure AgentRunState)
  | .returned state => some (.ok state)
  | .failed failure => some (.error failure)
  | .continuedAsNew _ => none

namespace ContinuationChain

/-- The execution that continues another one. -/
def continued (l : ExecutionLoop) : ExecutionLoop :=
  ExecutionLoop.updateSnapshot
    { input := { l.input with effectsInExecution := 0 }, snapshot := none, selected := l.selected
      committed := [] }

/-- Chains with less left to do: fuel and pending calls of the state, then whether the running
execution is full. -/
def Below : ContinuationChain → ContinuationChain → Prop :=
  InvImage (Prod.Lex (· < ·) (Prod.Lex (· < ·) (· < ·))) fun c =>
    (c.execution.input.state.fuel, c.execution.input.state.pendingTools.length,
      if c.execution.full then 1 else 0)

theorem below_wellFounded : WellFounded Below :=
  InvImage.wf _ (Prod.lex Nat.lt_wfRel (Prod.lex Nat.lt_wfRel Nat.lt_wfRel)).wf

variable [JsonText] [RequestText] {activities : Activities} {c c' : ContinuationChain}
  {u : ExecutionLoop}

/-- A turn of the chain: the next execution starts, or the running one has a turn, which is one
of the uncut run. -/
theorem turn_cases (activities : Activities)
    (hvalid : c.execution.input.config.validate = .ok ()) (h : c.execution.SameProgress u) :
    (c.execution.full = true ∧ c.turn activities true =
        .next ⟨continued c.execution, c.earlier ++ [c.execution.committed]⟩) ∨
      (∃ l v, c.execution.turn activities = .next l ∧ u.uncut activities = .next v ∧
        l.SameProgress v ∧ c.turn activities true = .next { c with execution := l }) ∨
      ∃ l v e result, c.execution.turn activities = .ended l e ∧
        u.uncut activities = .ended v e ∧ l.SameProgress v ∧ e.result = some result ∧
        c.turn activities true = .ended { c with execution := l } result := by
  rcases h.iterate ExecutionLoop.full activities with
    ⟨hfull, hl⟩ | hagrees
  · refine .inl ⟨hfull, ?_⟩
    have hbegin : beginExecution true { c.execution.input with effectsInExecution := 0 }
        c.execution.selected = .ok (continued c.execution) := by
      simp only [beginExecution, hvalid, Bool.not_true, Bool.false_eq_true, if_false]
      rfl
    simp only [turn, ExecutionLoop.turn, hl, hbegin]
  · obtain ⟨t, ht⟩ : ∃ t, c.execution.turn activities = t := ⟨_, rfl⟩
    obtain ⟨t', ht'⟩ : ∃ t', u.uncut activities = t' := ⟨_, rfl⟩
    have hagrees : ExecutionLoop.Agrees t t' := ht ▸ ht' ▸ hagrees
    refine .inr ?_
    cases hagrees with
    | next hnext => exact .inl ⟨_, _, ht, ht', hnext, by simp only [turn, ht]⟩
    | returned state hend =>
      exact .inr ⟨_, _, _, .ok state, ht, ht', hend, rfl, by simp only [turn, ht]⟩
    | failed failure hend =>
      exact .inr ⟨_, _, _, .error failure, ht, ht', hend, rfl, by simp only [turn, ht]⟩

/-- What holds of a chain whose configuration is valid: each execution before the running one has
committed as many effects as the threshold allows, and this one no more than that. -/
structure Counted (n : U32) (c : ContinuationChain) : Prop where
  threshold : c.execution.input.config.continueAsNewAfterEffects = n
  valid : c.execution.input.config.validate = .ok ()
  counter : c.execution.input.effectsInExecution.val = c.execution.committed.length
  bounded : c.execution.committed.length ≤ n.val
  earlier : ∀ commits ∈ c.earlier, commits.length = n.val

theorem Counted.next {n : U32} (h : c.Counted n) (hn : c.turn activities true = .next c') :
    c'.Counted n := by
  rcases turn_cases activities h.valid (.refl _) with
    ⟨hfull, hc⟩ | ⟨l, _, hl, _, _, hc⟩ | ⟨_, _, _, _, _, _, _, _, hc⟩ <;> rw [hc] at hn <;> cases hn
  · have hfull : n.val ≤ c.execution.input.effectsInExecution.val := by
      simpa [ExecutionLoop.full, h.threshold, Capped.le_def] using hfull
    have hcounter := h.counter
    have hbounded := h.bounded
    refine ⟨h.threshold, h.valid, ?_, Nat.zero_le _, fun commits hmem => ?_⟩
    · show (0 : U32).val = 0
      exact Capped.val_zero
    · rcases List.mem_append.mp hmem with hmem | hmem
      · exact h.earlier commits hmem
      · obtain rfl := List.mem_singleton.mp hmem
        omega
  · obtain ⟨effect, he, hopen, hperform⟩ := ExecutionLoop.iterate_next hl
    obtain ⟨o, s, ms, _, _, hconfig, heffects, hcommitted⟩ :=
      ExecutionLoop.perform_next he hperform
    have hopen : c.execution.input.effectsInExecution.val < n.val := by
      simpa [ExecutionLoop.full, h.threshold, Capped.le_def] using hopen
    have hcounter := h.counter
    have hcap := n.le_cap
    refine ⟨hconfig ▸ h.threshold, hconfig ▸ h.valid, ?_, ?_, h.earlier⟩
    · show l.input.effectsInExecution.val = l.committed.length
      rw [heffects, hcommitted]
      simp only [Capped.val_saturatingAdd, Capped.val_one, List.length_append, List.length_cons,
        List.length_nil]
      omega
    · show l.committed.length ≤ n.val
      rw [hcommitted]
      simp only [List.length_append, List.length_cons, List.length_nil]
      omega

theorem Counted.below {n : U32} (h : c.Counted n) (hn : c.turn activities true = .next c') :
    Below c' c := by
  rcases turn_cases activities h.valid (.refl _) with
    ⟨hfull, hc⟩ | ⟨l, _, hl, _, _, hc⟩ | ⟨_, _, _, _, _, _, _, _, hc⟩ <;> rw [hc] at hn <;> cases hn
  · have hpos := TemporalRunConfig.threshold_pos h.valid
    have hempty : (continued c.execution).full = false := by
      simpa [ExecutionLoop.full, continued, ExecutionLoop.updateSnapshot, Capped.le_def] using
        Nat.ne_of_gt hpos
    refine .right _ (.right _ ?_)
    simp [hempty, hfull]
  · obtain ⟨effect, he, _, hperform⟩ := ExecutionLoop.iterate_next hl
    obtain ⟨o, s, ms, hcommit, hstate, _⟩ := ExecutionLoop.perform_next he hperform
    have helapsed : Quiet s (s.recordElapsed ms) := .elapsed ms
    have hexhausted : Quiet (s.recordElapsed ms) l.input.state := hstate ▸ .exhausted
    have hfuel := Nat.le_trans (fuel_le_of_quiet hexhausted) (fuel_le_of_quiet helapsed)
    have hpending : l.input.state.pendingTools = s.pendingTools :=
      hexhausted.sameLedger.pendingTools.trans helapsed.sameLedger.pendingTools
    show Prod.Lex _ _ (l.input.state.fuel, l.input.state.pendingTools.length, _) _
    rcases Nat.lt_or_eq_of_le hfuel with hlt | heq
    · refine .left _ _ (Nat.lt_of_lt_of_le hlt ?_)
      rcases hcommit.decreases with hless | ⟨hsame, _⟩
      · exact Nat.le_of_lt hless
      · exact Nat.le_of_eq hsame
    · rw [heq, hpending]
      rcases hcommit.decreases with hless | ⟨hsame, hless⟩
      · exact .left _ _ hless
      · rw [hsame]
        exact .right _ (.left _ _ hless)

theorem Counted.exists_ended {n : U32} (h : c.Counted n) (activities : Activities) :
    ∃ fuel c' result, drive (turn activities true) fuel c = (c', some result) := by
  refine exists_drive_ended below_wellFounded (I := fun c => c.Counted n)
    (fun c c' hc hn => ⟨hc.next hn, hc.below hn⟩) (fun c c' hc hblocked => ?_) c h
  rcases turn_cases activities hc.valid (.refl _) with
    ⟨_, hturn⟩ | ⟨_, _, _, _, _, hturn⟩ | ⟨_, _, _, _, _, _, _, _, hturn⟩ <;>
    simp [hturn] at hblocked

/-- The commits of the executions of a chain that has ended. -/
theorem Counted.commits_of_drive {n : U32} {fuel : Nat}
    {result : Except WorkflowFailure AgentRunState} (h : c.Counted n)
    (hd : drive (turn activities true) fuel c = (c', some result)) :
    (∀ commits ∈ c'.earlier, commits.length = n.val) ∧
      c'.execution.committed.length ≤ n.val := by
  obtain ⟨d, hr, hend⟩ := reaches_of_drive hd
  have hcounted : d.Counted n := hr.invariant h fun _ _ hc hn => hc.next hn
  rcases turn_cases activities hcounted.valid (.refl _) with
    ⟨_, hc⟩ | ⟨_, _, _, _, _, hc⟩ | ⟨l, _, e, _, hl, _, _, _, hc⟩ <;> rw [hc] at hend
  · cases hend
  · cases hend
  · cases hend
    refine ⟨hcounted.earlier, ?_⟩
    show l.committed.length ≤ n.val
    rw [ExecutionLoop.committed_of_ended hl]
    exact hcounted.bounded

/-- What a chain has done when it ends, the uncut run has done when it ends. -/
theorem Counted.uncut_of_drive {n : U32} {fuel : Nat}
    {result : Except WorkflowFailure AgentRunState} (h : c.Counted n)
    (hu : c.execution.SameProgress u)
    (hd : drive (turn activities true) fuel c = (c', some result)) :
    ∃ t v e, Reaches (ExecutionLoop.uncut activities) u t ∧ t.uncut activities = .ended v e ∧
      c'.execution.SameProgress v ∧ e.result = some result := by
  obtain ⟨d, hr, hend⟩ := reaches_of_drive hd
  obtain ⟨t, ht, hcounted, hsame⟩ : ∃ t, Reaches (ExecutionLoop.uncut activities) u t ∧
      d.Counted n ∧ d.execution.SameProgress t := by
    refine Reaches.simulate (R := fun c u => c.Counted n ∧ c.execution.SameProgress u)
      (fun c u c' hcu hn => ?_) ⟨h, hu⟩ hr
    obtain ⟨hcounted, hsame⟩ := hcu
    rcases turn_cases activities hcounted.valid hsame with
      ⟨_, hc⟩ | ⟨l, v, _, hv, hl, hc⟩ | ⟨_, _, _, _, _, _, _, _, hc⟩ <;> rw [hc] at hn
    · obtain rfl := Turn.next.inj hn
      exact ⟨u, .refl, hcounted.next hc,
        ⟨hsame.state, hsame.completedEffects, hsame.selected, hsame.config⟩⟩
    · obtain rfl := Turn.next.inj hn
      exact ⟨v, .single hv, hcounted.next hc, hl⟩
    · cases hn
  rcases turn_cases activities hcounted.valid hsame with
    ⟨_, hc⟩ | ⟨_, _, _, _, _, hc⟩ | ⟨l, v, e, r, _, hv, hl, he, hc⟩ <;> rw [hc] at hend
  · cases hend
  · cases hend
  · obtain ⟨rfl, rfl⟩ := Turn.ended.inj hend
    exact ⟨t, v, e, ht, hv, hl, he⟩

end ContinuationChain

/-- Two chains that have selected the same effects and have ended in the same way. -/
structure ChainReport.SameRun (r r' : ChainReport) : Prop where
  selected : r'.selected = r.selected
  result : r'.result = r.result
  state : r'.state = r.state
  completedEffects : r'.completedEffects = r.completedEffects

namespace ContinuationChain

section

variable [JsonText] [RequestText] {activities : Activities} {c c' d d' : ContinuationChain}
  {n m : U32} {fuel fuel' : Nat} {result result' : Except WorkflowFailure AgentRunState}

/-- Two chains that have made the progress of one uncut run end in the same way: this run ends
once. -/
theorem Counted.sameRun {u : ExecutionLoop} (h : c.Counted n) (h' : d.Counted m)
    (hu : c.execution.SameProgress u) (hu' : d.execution.SameProgress u)
    (hd : drive (turn activities true) fuel c = (c', some result))
    (hd' : drive (turn activities true) fuel' d = (d', some result')) :
    (c'.report result).SameRun (d'.report result') := by
  obtain ⟨t, v, e, ht, hv, hsame, he⟩ := h.uncut_of_drive hu hd
  obtain ⟨t', v', e', ht', hv', hsame', he'⟩ := h'.uncut_of_drive hu' hd'
  obtain rfl := ht.eq_of_stops ht' (by simp [hv]) (by simp [hv'])
  obtain ⟨rfl, rfl⟩ := Turn.ended.inj (hv.symm.trans hv')
  obtain rfl := Option.some.inj (he.symm.trans he')
  exact
    { selected := hsame'.selected.symm.trans hsame.selected
      result := rfl
      state := hsame'.state.symm.trans hsame.state
      completedEffects := hsame'.completedEffects.symm.trans hsame.completedEffects }

theorem Counted.executions_of_drive (hn : 0 < n) (h : c.Counted n)
    (hd : drive (turn activities true) fuel c = (c', some result)) :
    (∀ commits ∈ (c'.report result).executions, commits.length ≤ n.val) ∧
      ∀ commits ∈ (c'.report result).executions.dropLast,
        commits.length = n.val ∧ commits ≠ [] := by
  obtain ⟨hearlier, hlast⟩ := h.commits_of_drive hd
  constructor
  · intro commits hmem
    rcases List.mem_append.mp hmem with hmem | hmem
    · exact Nat.le_of_eq (hearlier commits hmem)
    · obtain rfl := List.mem_singleton.mp hmem
      exact hlast
  · intro commits hmem
    have hdrop : (c'.report result).executions.dropLast = c'.earlier := List.dropLast_concat
    rw [hdrop] at hmem
    have hlen := hearlier commits hmem
    refine ⟨hlen, ?_⟩
    rintro rfl
    have hpos : 0 < n.val := hn
    simp only [List.length_nil] at hlen
    omega

end

end ContinuationChain

theorem beginExecution_cases (patched : Bool) (state : AgentRunState) (config : TemporalRunConfig) :
    (∃ failure, ∀ n : U32, 0 < n →
        beginExecution patched (.new state (config.withThreshold n)) [] = .error failure) ∨
      patched = true ∧ ∀ n : U32, 0 < n →
        (config.withThreshold n).validate = .ok () ∧
        beginExecution patched (.new state (config.withThreshold n)) [] =
          .ok (ExecutionLoop.updateSnapshot
            { input := .new state (config.withThreshold n), snapshot := none, selected := []
              committed := [] }) := by
  have hone : (0 : U32) < 1 := by decide
  cases hv : (config.withThreshold 1).validate with
  | error e =>
    refine .inl ⟨.config e, fun n hn => ?_⟩
    have hvn := (TemporalRunConfig.validate_withThreshold hn hone).trans hv
    simp only [beginExecution, TemporalWorkflowInput.new, hvn]
  | ok =>
    have hvn {n : U32} (hn : 0 < n) : (config.withThreshold n).validate = .ok () :=
      (TemporalRunConfig.validate_withThreshold hn hone).trans hv
    cases patched with
    | false =>
      refine .inl ⟨.unsupportedHistoryMarker, fun n hn => ?_⟩
      simp only [beginExecution, TemporalWorkflowInput.new, hvn hn, Bool.not_false, if_true]
    | true =>
      refine .inr ⟨rfl, fun n hn => ⟨hvn hn, ?_⟩⟩
      simp only [beginExecution, TemporalWorkflowInput.new, hvn hn, Bool.not_true,
        Bool.false_eq_true, if_false]

section

variable [JsonText] [RequestText] {activities : Activities} {patched : Bool}
  {input : TemporalWorkflowInput} {fuel : Nat} {r : ChainReport}

theorem runChain_of_error {failure : WorkflowFailure}
    (h : beginExecution patched input [] = .error failure) (activities : Activities) (fuel : Nat) :
    runChain activities patched fuel input =
      some { result := .error failure, selected := [], state := input.state
             completedEffects := input.completedEffects, executions := [[]] } := by
  simp only [runChain, h]

theorem runChain_of_ok {l : ExecutionLoop} (h : beginExecution patched input [] = .ok l) :
    runChain activities patched fuel input = some r ↔
      ∃ c result, drive (ContinuationChain.turn activities patched) fuel ⟨l, []⟩ =
        (c, some result) ∧ r = c.report result := by
  obtain ⟨c, result, hd⟩ : ∃ c result,
      drive (ContinuationChain.turn activities patched) fuel ⟨l, []⟩ = (c, result) := ⟨_, _, rfl⟩
  simp only [runChain, h, hd, Prod.mk.injEq]
  cases result with
  | none => simp
  | some result =>
    constructor
    · intro h
      exact ⟨c, result, ⟨rfl, rfl⟩, (Option.some.inj h).symm⟩
    · rintro ⟨_, _, ⟨rfl, hresult⟩, rfl⟩
      obtain rfl := Option.some.inj hresult
      rfl

theorem runChain_unique {fuel' : Nat} {r' : ChainReport}
    (h : runChain activities patched fuel input = some r)
    (h' : runChain activities patched fuel' input = some r') : r = r' := by
  cases hbegin : beginExecution patched input [] with
  | error failure =>
    rw [runChain_of_error hbegin] at h h'
    exact Option.some.inj (h.symm.trans h')
  | ok l =>
    obtain ⟨c, result, hdrive, rfl⟩ := (runChain_of_ok hbegin).mp h
    obtain ⟨c', result', hdrive', rfl⟩ := (runChain_of_ok hbegin).mp h'
    obtain ⟨rfl, rfl⟩ := drive_ended_unique hdrive hdrive'
    rfl

end

/-- Where a chain of executions is cut makes no difference: with all thresholds it comes to an
end, and it has then selected the same effects and come to the same result, state and counter.
No execution commits more effects than the threshold, and every execution but the last, which
ends the run, commits as many. -/
theorem continue_as_new_transparent [JsonText] [RequestText] (activities : Activities)
    (patched : Bool) (state : AgentRunState) (config : TemporalRunConfig) (n m : U32) (hn : 0 < n)
    (hm : 0 < m) :
    (∃ fuel r, runChain activities patched fuel (.new state (config.withThreshold n)) = some r) ∧
      (∀ fuel fuel' r r',
        runChain activities patched fuel (.new state (config.withThreshold n)) = some r →
        runChain activities patched fuel' (.new state (config.withThreshold m)) = some r' →
        r.SameRun r') ∧
      ∀ fuel r, runChain activities patched fuel (.new state (config.withThreshold n)) = some r →
        (∀ commits ∈ r.executions, commits.length ≤ n.val) ∧
        ∀ commits ∈ r.executions.dropLast, commits.length = n.val ∧ commits ≠ [] := by
  rcases beginExecution_cases patched state config with ⟨failure, hbegin⟩ | ⟨rfl, hbegin⟩
  · have hreport {k : U32} (hk : 0 < k) (fuel : Nat) :=
      runChain_of_error (hbegin k hk) activities fuel
    refine ⟨⟨0, _, hreport hn 0⟩, fun fuel fuel' r r' hr hr' => ?_, fun fuel r hr => ?_⟩
    · rw [hreport hn, Option.some.injEq] at hr
      rw [hreport hm, Option.some.injEq] at hr'
      subst hr hr'
      exact ⟨rfl, rfl, rfl, rfl⟩
    · rw [hreport hn, Option.some.injEq] at hr
      subst hr
      simp
  · have hcounted {k : U32} (hk : 0 < k) :
        ContinuationChain.Counted k ⟨ExecutionLoop.updateSnapshot
          { input := .new state (config.withThreshold k), snapshot := none, selected := []
            committed := [] }, []⟩ :=
      ⟨rfl, (hbegin k hk).1, Capped.val_zero, Nat.zero_le _, fun _ hnil => by cases hnil⟩
    refine ⟨?_, fun fuel fuel' r r' hr hr' => ?_, fun fuel r hr => ?_⟩
    · obtain ⟨fuel, c, result, hd⟩ := (hcounted hn).exists_ended activities
      exact ⟨fuel, _, (runChain_of_ok (hbegin n hn).2).mpr ⟨c, result, hd, rfl⟩⟩
    · obtain ⟨c, result, hd, rfl⟩ := (runChain_of_ok (hbegin n hn).2).mp hr
      obtain ⟨c', result', hd', rfl⟩ := (runChain_of_ok (hbegin m hm).2).mp hr'
      exact (hcounted hn).sameRun (hcounted hm) (.refl _) ⟨rfl, rfl, rfl, n, rfl⟩ hd hd'
    · obtain ⟨c, result, hd, rfl⟩ := (runChain_of_ok (hbegin n hn).2).mp hr
      exact (hcounted hn).executions_of_drive hn hd

namespace Sample

def activities : Activities := fun i _ _ =>
  .ok (.reported
    (if i = 0 then .provider (callsResponse [call "c" (.object [])]) []
      else if i = 1 then .tool .null 1 none
      else .provider (textResponse "hi") []) 5)

end Sample

theorem continue_as_new_transparent_sample :
    let _ := Sample.jsonText
    let _ := Sample.requestText
    ∃ r r', runChain Sample.activities true 6
        (.new Sample.state (Sample.temporalConfig.withThreshold 1)) = some r ∧
      runChain Sample.activities true 5
        (.new Sample.state (Sample.temporalConfig.withThreshold 2)) = some r' ∧ r.SameRun r' := by
  intro _ _
  obtain ⟨r, hr⟩ := Option.isSome_iff_exists.mp (by decide +kernel :
    (runChain Sample.activities true 6
      (.new Sample.state (Sample.temporalConfig.withThreshold 1))).isSome = true)
  obtain ⟨r', hr'⟩ := Option.isSome_iff_exists.mp (by decide +kernel :
    (runChain Sample.activities true 5
      (.new Sample.state (Sample.temporalConfig.withThreshold 2))).isSome = true)
  have htransparent := (continue_as_new_transparent Sample.activities true Sample.state
    Sample.temporalConfig 1 2 (by decide) (by decide)).2.1
  exact ⟨r, r', hr, hr', htransparent 6 5 r r' hr hr'⟩

end Agentive
