import Agentive.Correlation
import Agentive.LocalRun

/-! What one iteration of the local driver can do, and what holds at the head of each iteration
that it reaches. Every result about local runs goes through these cases. -/

namespace Agentive

open AgentRunState DriverLoop

namespace LoopState

theorem afterCommit_cases (deadline : Option Duration) (script : IterationScript)
    (l : LoopState) :
    (deadline.any (fun d => d ≤ script.sinceStart) = true ∧
      l.afterCommit deadline script = l.finishCancelled) ∨
    (deadline.any (fun d => d ≤ script.sinceStart) = false ∧ l.state.text = none ∧
      l.afterCommit deadline script = .next { l with iteration := l.iteration + 1 }) ∨
    (deadline.any (fun d => d ≤ script.sinceStart) = false ∧ ∃ text, l.state.text = some text ∧
      l.afterCommit deadline script =
        .ended (announce { l with usage := l.state.usage } .completed)
          (.ok (l.completedResult text))) := by
  unfold afterCommit
  cases hd : deadline.any fun d => d ≤ script.sinceStart with
  | true => exact .inl ⟨rfl, rfl⟩
  | false =>
    cases ht : l.state.text with
    | none => exact .inr (.inl ⟨rfl, rfl, rfl⟩)
    | some text => exact .inr (.inr ⟨rfl, text, rfl, rfl⟩)

section

variable [JsonText] [RequestText]

/-- A completion that did not fail and that the loop has not to check ends its iteration. -/
theorem turn_eq_afterCommit {execute : Nat → AgentRunState → AgentRunEffect → EffectReport}
    {scripts : Nat → IterationScript} {deadline : Option Duration} {l : LoopState}
    {e : AgentRunEffect} {o : AgentEffectOutcome} {s : AgentRunState}
    (hcancelled : (scripts l.iteration).cancelled = false)
    (hx : l.state.finishIfExhausted = (l.state, false)) (he : l.state.nextEffect = some e)
    (ho : (execute l.iteration l.state e).outcome = some (.ok o))
    (hopen : e.isProviderCall = true ∨ s.pendingTools ≠ [])
    (hfailure : o.isProviderFailure = false)
    (hc : Committed (l.state.recordElapsed (scripts l.iteration).elapsedMs) e o s) :
    ∃ records, l.turn execute scripts deadline =
      (((l.absorb e (execute l.iteration l.state e)).emit (completedEvents e o)).commitTo e o
        records s).afterCommit deadline (scripts l.iteration) := by
  obtain ⟨records, hrecords⟩ : ∃ records,
      effectRecords (scripts l.iteration).elapsedMs e o = .ok records := by
    cases hc with
    | response => exact ⟨_, rfl⟩
    | failure => exact ⟨_, rfl⟩
    | exhausted => exact ⟨_, rfl⟩
    | tool => exact ⟨_, rfl⟩
    | batch => exact ⟨_, rfl⟩
  have hcommit : (((l.absorb e (execute l.iteration l.state e)).emit
      (completedEvents e o)).state.recordElapsed (scripts l.iteration).elapsedMs).commitEffect
        e.effectId o = (s, .ok ()) := hc.commitEffect
  have hunchecked : (!e.isProviderCall && s.pendingTools.isEmpty) = false := by
    rcases hopen with hcall | hne <;> simp [*]
  refine ⟨records, ?_⟩
  simp only [turn, hcancelled, hx, he, ho, complete, hrecords, hcommit, hfailure, hunchecked,
    Bool.false_eq_true, if_false]

/-- The ways on from an effect that has an outcome. -/
inductive Completes (deadline : Option Duration) (script : IterationScript) (l : LoopState)
    (e : AgentRunEffect) (o : AgentEffectOutcome) : LocalTurn → Prop
  | refused (records : List RunRecord) (s : AgentRunState) (err : RunError) :
      (∀ s', (l.state.recordElapsed script.elapsedMs).commitEffect e.effectId o ≠ (s', .ok ())) ∨
        effectRecords script.elapsedMs e o = .error err →
      Completes deadline script l e o
        (.ended { l.emit (completedEvents e o) with state := s, records } (.error err))
  | invalid (records : List RunRecord) (s : AgentRunState) (err : RunError) :
      (l.state.recordElapsed script.elapsedMs).commitEffect e.effectId o = (s, .ok ()) →
      e.isProviderCall = false → s.pendingTools = [] → validateHistory s.history = .error err →
      Completes deadline script l e o
        (.ended ((l.emit (completedEvents e o)).commitTo e o records s) (.error err))
  | failed (records : List RunRecord) (s : AgentRunState) :
      (l.state.recordElapsed script.elapsedMs).commitEffect e.effectId o = (s, .ok ()) →
      o.isProviderFailure = true →
      Completes deadline script l e o
        (((l.emit (completedEvents e o)).commitTo e o records s).announce .failed).finishWithUsage
  | committed (records : List RunRecord) (s : AgentRunState) :
      (l.state.recordElapsed script.elapsedMs).commitEffect e.effectId o = (s, .ok ()) →
      o.isProviderFailure = false →
      (e.isProviderCall = false → s.pendingTools = [] → validateHistory s.history = .ok ()) →
      Completes deadline script l e o
        (((l.emit (completedEvents e o)).commitTo e o records s).afterCommit deadline script)

theorem completes (deadline : Option Duration) (script : IterationScript) (l : LoopState)
    (e : AgentRunEffect) (o : AgentEffectOutcome) :
    Completes deadline script l e o (l.complete deadline script e o) := by
  have hstate : (l.emit (completedEvents e o)).state = l.state := rfl
  cases hr : effectRecords script.elapsedMs e o with
  | error err =>
    simp only [complete, hr]
    exact .refused l.records l.state err (.inr hr)
  | ok records =>
    obtain ⟨s, result, hc⟩ : ∃ s result,
        (l.state.recordElapsed script.elapsedMs).commitEffect e.effectId o = (s, result) :=
      ⟨_, _, rfl⟩
    cases result with
    | error err =>
      simp only [complete, hr, hstate, hc]
      exact .refused _ s _ (.inl fun s' => by rw [hc]; simp)
    | ok =>
      cases hf : o.isProviderFailure with
      | true =>
        simp only [complete, hr, hstate, hc, hf, if_true]
        exact .failed records s hc hf
      | false =>
        cases hp : !e.isProviderCall && s.pendingTools.isEmpty with
        | false =>
          simp only [complete, hr, hstate, hc, hf, hp, Bool.false_eq_true, if_false]
          refine .committed records s hc hf fun hcall hidle => ?_
          simp [hcall, hidle] at hp
        | true =>
          have hcall : e.isProviderCall = false ∧ s.pendingTools = [] := by simpa using hp
          cases hv : validateHistory s.history with
          | error err =>
            simp only [complete, hr, hstate, hc, hf, hp, hv, Bool.false_eq_true, if_false, if_true]
            exact .invalid records s err hc hcall.1 hcall.2 hv
          | ok =>
            simp only [complete, hr, hstate, hc, hf, hp, hv, Bool.false_eq_true, if_false, if_true]
            exact .committed records s hc hf fun _ _ => hv

/-- The turns of the loop: it ends at the head of an iteration, or it executes an effect. -/
inductive Turns (execute : Nat → AgentRunState → AgentRunEffect → EffectReport)
    (scripts : Nat → IterationScript) (deadline : Option Duration) (l : LoopState) :
    LocalTurn → Prop
  | cancelled : (scripts l.iteration).cancelled = true → Turns execute scripts deadline l
      l.finishCancelled
  | exhausted (s : AgentRunState) : l.state.finishIfExhausted = (s, true) →
      (scripts l.iteration).cancelled = false → Turns execute scripts deadline l
        (announce { l with state := s } s.status).finishWithUsage
  | idle : l.state.finishIfExhausted = (l.state, false) → l.state.nextEffect = none →
      (scripts l.iteration).cancelled = false → Turns execute scripts deadline l l.finishWithUsage
  | blocked (e : AgentRunEffect) : l.state.nextEffect = some e →
      (execute l.iteration l.state e).outcome = none → Turns execute scripts deadline l
        (.blocked (l.absorb e (execute l.iteration l.state e)))
  | interrupted (e : AgentRunEffect) : l.state.nextEffect = some e →
      (execute l.iteration l.state e).outcome = some (.error .cancelled) →
      Turns execute scripts deadline l (l.absorb e (execute l.iteration l.state e)).finishCancelled
  | failed (e : AgentRunEffect) (err : RunError) : l.state.nextEffect = some e →
      (execute l.iteration l.state e).outcome = some (.error err) → err ≠ .cancelled →
      Turns execute scripts deadline l
        ((l.absorb e (execute l.iteration l.state e)).failWith err)
  | completed (e : AgentRunEffect) (o : AgentEffectOutcome) (t : LocalTurn) :
      (scripts l.iteration).cancelled = false →
      l.state.finishIfExhausted = (l.state, false) → l.state.nextEffect = some e →
      (execute l.iteration l.state e).outcome = some (.ok o) →
      Completes deadline (scripts l.iteration) (l.absorb e (execute l.iteration l.state e)) e o t →
      Turns execute scripts deadline l t

theorem turns (execute : Nat → AgentRunState → AgentRunEffect → EffectReport)
    (scripts : Nat → IterationScript) (deadline : Option Duration) (l : LoopState) :
    Turns execute scripts deadline l (l.turn execute scripts deadline) := by
  cases hc : (scripts l.iteration).cancelled with
  | true =>
    simp only [turn, hc, if_true]
    exact .cancelled hc
  | false =>
    obtain ⟨s, exhausted, hx⟩ : ∃ s exhausted, l.state.finishIfExhausted = (s, exhausted) :=
      ⟨_, _, rfl⟩
    cases exhausted with
    | true =>
      simp only [turn, hc, hx, Bool.false_eq_true, if_false, if_true]
      exact .exhausted s hx hc
    | false =>
      have hself := finishIfExhausted_eq_self (s := l.state) (by rw [hx])
      cases he : l.state.nextEffect with
      | none =>
        simp only [turn, hc, hself, he, Bool.false_eq_true, if_false]
        exact .idle hself he hc
      | some e =>
        simp only [turn, hc, hself, he, Bool.false_eq_true, if_false]
        split
        · next ho => exact .blocked e he ho
        · next ho => exact .interrupted e he ho
        · next err hne ho => exact .failed e err he ho fun h => hne (by rw [h])
        · next o ho => exact .completed e o _ hc hself he ho (completes _ _ _ _ _)

/-- The effect that the turn at a head of the loop executes. -/
def offered (scripts : Nat → IterationScript) (l : LoopState) : Option AgentRunEffect :=
  if (scripts l.iteration).cancelled || l.state.finishIfExhausted.2 then none
  else l.state.nextEffect

theorem turn_log (execute : Nat → AgentRunState → AgentRunEffect → EffectReport)
    (scripts : Nat → IterationScript) (deadline : Option Duration) (l : LoopState) :
    let l' := (l.turn execute scripts deadline).state
    (l.offered scripts = none ∧ l'.calls = l.calls ∧ l'.children = l.children) ∨
      ∃ e, l.offered scripts = some e ∧
        l'.calls = (l.absorb e (execute l.iteration l.state e)).calls ∧
        l'.children = (l.absorb e (execute l.iteration l.state e)).children := by
  have hafter (script : IterationScript) (m : LoopState) :
      (m.afterCommit deadline script).state.calls = m.calls ∧
        (m.afterCommit deadline script).state.children = m.children := by
    rcases afterCommit_cases deadline script m with ⟨_, h⟩ | ⟨_, _, h⟩ | ⟨_, _, _, h⟩ <;>
      rw [h] <;> exact ⟨rfl, rfl⟩
  cases hc : (scripts l.iteration).cancelled with
  | true =>
    have hnone : l.offered scripts = none := by simp [offered, hc]
    simp only [turn, hc, if_true]
    exact .inl ⟨hnone, rfl, rfl⟩
  | false =>
    obtain ⟨s, exhausted, hx⟩ : ∃ s exhausted, l.state.finishIfExhausted = (s, exhausted) :=
      ⟨_, _, rfl⟩
    cases exhausted with
    | true =>
      have hnone : l.offered scripts = none := by simp [offered, hx]
      simp only [turn, hc, hx, Bool.false_eq_true, if_false, if_true]
      exact .inl ⟨hnone, rfl, rfl⟩
    | false =>
      have ht := turns execute scripts deadline l
      generalize l.turn execute scripts deadline = t at ht
      have hoffered : l.offered scripts = l.state.nextEffect := by simp [offered, hc, hx]
      rw [hoffered]
      cases ht with
      | cancelled h => simp [hc] at h
      | exhausted s' h => simp [hx] at h
      | idle _ he => exact .inl ⟨he, rfl, rfl⟩
      | blocked e he => exact .inr ⟨e, he, rfl, rfl⟩
      | interrupted e he => exact .inr ⟨e, he, rfl, rfl⟩
      | failed e err he => exact .inr ⟨e, he, rfl, rfl⟩
      | completed e o t _ _ he _ hcompletes =>
        refine .inr ⟨e, he, ?_⟩
        cases hcompletes with
        | refused => exact ⟨rfl, rfl⟩
        | invalid => exact ⟨rfl, rfl⟩
        | failed => exact ⟨rfl, rfl⟩
        | committed => exact hafter _ _

/-- The iterations after which the loop goes on: an effect was completed and committed, and left
neither a text nor a passed deadline. -/
inductive Advances (execute : Nat → AgentRunState → AgentRunEffect → EffectReport)
    (scripts : Nat → IterationScript) (deadline : Option Duration) (l : LoopState) :
    LoopState → Prop
  | intro (e : AgentRunEffect) (o : AgentEffectOutcome) (records : List RunRecord)
      (s : AgentRunState) :
      (scripts l.iteration).cancelled = false →
      l.state.finishIfExhausted = (l.state, false) → l.state.nextEffect = some e →
      (execute l.iteration l.state e).outcome = some (.ok o) →
      (l.state.recordElapsed (scripts l.iteration).elapsedMs).commitEffect e.effectId o =
        (s, .ok ()) →
      o.isProviderFailure = false →
      (e.isProviderCall = false → s.pendingTools = [] → validateHistory s.history = .ok ()) →
      deadline.any (fun d => d ≤ (scripts l.iteration).sinceStart) = false → s.text = none →
      Advances execute scripts deadline l
        { ((l.absorb e (execute l.iteration l.state e)).emit
            (completedEvents e o)).commitTo e o records s with iteration := l.iteration + 1 }

theorem advances_of_turn {execute : Nat → AgentRunState → AgentRunEffect → EffectReport}
    {scripts : Nat → IterationScript} {deadline : Option Duration} {l l' : LoopState}
    (h : l.turn execute scripts deadline = .next l') : Advances execute scripts deadline l l' := by
  have ht := turns execute scripts deadline l
  generalize l.turn execute scripts deadline = t at h ht
  cases ht with
  | completed e o t hc hx he ho hcompletes =>
    cases hcompletes with
    | committed records s hcommit hf hv =>
      rcases afterCommit_cases deadline (scripts l.iteration)
          (((l.absorb e (execute l.iteration l.state e)).emit
            (completedEvents e o)).commitTo e o records s) with
        ⟨_, hafter⟩ | ⟨hd, htext, hafter⟩ | ⟨_, _, _, hafter⟩
      · simp [hafter, finishCancelled] at h
      · obtain rfl := Turn.next.inj (hafter.symm.trans h)
        exact .intro e o records s hc hx he ho hcommit hf hv hd htext
      · simp [hafter] at h
    | refused => simp at h
    | failed => simp [finishWithUsage] at h
    | invalid => simp at h
  | cancelled => simp [finishCancelled] at h
  | exhausted => simp [finishWithUsage] at h
  | idle => simp [finishWithUsage] at h
  | blocked => simp at h
  | interrupted => simp [finishCancelled] at h
  | failed => simp [failWith] at h

theorem plan_of_next {execute : Nat → AgentRunState → AgentRunEffect → EffectReport}
    {scripts : Nat → IterationScript} {deadline : Option Duration} {l l' : LoopState}
    (h : l.turn execute scripts deadline = .next l') : l'.state.plan = l.state.plan := by
  cases advances_of_turn h with
  | intro e o records s _ _ he _ hcommit _ _ _ _ =>
    have hc : Committed (l.state.recordElapsed (scripts l.iteration).elapsedMs) e o s :=
      committed_of_nextEffect he hcommit
    exact hc.fixed.1

end

end LoopState

end Agentive
