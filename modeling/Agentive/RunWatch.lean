import Agentive.RunEvents

/-! An observer of a run, from the head of one iteration to the next: the run stays in a phase that
its events tell, and its records and its history agree with them. -/

namespace Agentive

open AgentRunState DriverLoop

/-- What an observer sees of a run at any time: a phase that shows the status of the handle and
that a failure can still end, unless it has ended. -/
structure LoopState.Observed (s₀ : AgentRunState) (l : LoopState) : Prop where
  phase : ∃ phase, watch l.events = some phase ∧ phase.status = l.status ∧
    (l.status.isActive = true → phase.stops .failed = true)
  recounts : Recounts s₀ l.events l.records l.state

/-- What it sees at the head of an iteration. A provider call that was refused for its tokens
leaves its round open, and the run ended. -/
structure LoopState.Watched [JsonText] [RequestText] (s₀ : AgentRunState) (l : LoopState) : Prop
    extends RunHead s₀ l where
  phase : ∃ phase, watch l.events = some phase ∧
    (phase = .idle l.state.modelCalls.val ∨
      (l.state.status.isActive = false ∧ ∃ rounds, phase = .calling rounds))
  started : l.state.pendingTools ≠ [] → 0 < l.state.modelCalls.val
  recounts : Recounts s₀ l.events l.records l.state

theorem ne_statusChanged_of_started {e : AgentRunEffect} {event : RunEvent}
    (h : event ∈ startedEvents e) (status : RunStatus) : event ≠ .statusChanged status := by
  cases e with
  | providerCall =>
    obtain rfl := List.mem_singleton.mp h
    exact fun heq => by cases heq
  | toolCall =>
    obtain rfl := List.mem_singleton.mp h
    exact fun heq => by cases heq
  | toolBatch =>
    obtain ⟨_, _, rfl⟩ := List.mem_map.mp h
    exact fun heq => by cases heq

theorem ne_statusChanged_of_completed {e : AgentRunEffect} {o : AgentEffectOutcome}
    {event : RunEvent} (h : event ∈ completedEvents e o) (status : RunStatus) :
    event ≠ .statusChanged status := by
  unfold completedEvents at h
  split at h
  · obtain rfl := List.mem_singleton.mp h
    exact fun heq => by cases heq
  · obtain rfl := List.mem_singleton.mp h
    exact fun heq => by cases heq
  · obtain ⟨_, _, rfl⟩ := List.mem_map.mp h
    exact fun heq => by cases heq
  · cases h

namespace LoopState

variable {s₀ : AgentRunState} {l l' : LoopState} {phase : RunPhase} {status : RunStatus}

/-- The steps of a run are those of its events. -/
def InStep (l : LoopState) : Prop := l.steps = l.events.flatMap RunEvent.steps

theorem InStep.announce (h : l.InStep) (status : RunStatus) : (l.announce status).InStep := by
  rw [InStep] at h ⊢
  rw [LoopState.announce, h, List.flatMap_append]
  rfl

theorem InStep.add (h : l.InStep) {events : List RunEvent}
    (hevents : ∀ event ∈ events, ∀ status, event ≠ .statusChanged status) :
    l.steps ++ events.map .emit = (l.events ++ events).flatMap RunEvent.steps := by
  rw [h, List.flatMap_append, flatMap_steps_eq_map hevents]

theorem InStep.commitTo (h : l.InStep) (e : AgentRunEffect) (o : AgentEffectOutcome)
    (records : List RunRecord) (s : AgentRunState) : (l.commitTo e o records s).InStep := h

theorem InStep.settle (h : l.InStep) (failed : Bool) :
    l.steps ++ settleSteps l.status failed =
      (Agentive.settle l.status l.events failed).2.flatMap RunEvent.steps := by
  rw [settleSteps, Agentive.settle]
  split
  · rw [h, List.flatMap_append]
    rfl
  · rw [List.append_nil, h]

/-- A terminal status comes where the phase lets it come. -/
theorem watch_announce (hphase : watch l.events = some phase) (hstops : phase.stops status = true)
    (hterminal : status.isActive = false) :
    watch (l.announce status).events = some (.ended status) := by
  have hfollow : phase.follow (.statusChanged status) = some (.ended status) := by
    cases phase with
    | pending =>
      cases status with
      | failed => rfl
      | _ => simp [RunPhase.stops] at hstops
    | _ => simp only [RunPhase.follow, hstops, if_true]
  rw [announce, watch, RunPhase.followAll_of_append hphase, RunPhase.followAll_cons, hfollow]
  rfl

theorem Observed.announce {s : AgentRunState} {usage : RunUsage}
    (hphase : watch l.events = some phase) (hstops : phase.stops status = true)
    (hterminal : status.isActive = false) (hr : Recounts s₀ l.events l.records s) :
    Observed s₀ (announce { l with state := s, usage } status) := by
  refine ⟨⟨_, watch_announce (l := { l with state := s, usage }) hphase hstops hterminal, rfl,
    fun ha => ?_⟩, ?_⟩
  · exact absurd ha (by simp [LoopState.announce, hterminal])
  · exact hr.silent (by simp [RunEvent.isSilent, RunEvent.answer, RunEvent.completion])

theorem observed_finishCancelled (hphase : watch l.events = some phase)
    (hstops : phase.stops .cancelled = true) (hr : Recounts s₀ l.events l.records l.state) :
    Observed s₀ l.finishCancelled.state :=
  .announce hphase hstops rfl (hr.sameLedger (sameLedger_cancel l.state))

variable [JsonText] [RequestText]

theorem Watched.stops (h : Watched s₀ l) (hstatus : status = .failed ∨ status = .cancelled) :
    ∃ phase, watch l.events = some phase ∧ phase.stops status = true ∧ phase.status = .running := by
  obtain ⟨phase, hphase, rfl | ⟨_, _, rfl⟩⟩ := h.phase <;>
    exact ⟨_, hphase, by rcases hstatus with rfl | rfl <;> rfl, rfl⟩

theorem Watched.observed (h : Watched s₀ l) : Observed s₀ l := by
  obtain ⟨phase, hphase, hstops, hstatus⟩ := h.stops (.inl rfl)
  exact ⟨⟨phase, hphase, hstatus.trans h.running.symm, fun _ => hstops⟩, h.recounts⟩

theorem Watched.start (h : Fresh s₀) (hcalls : s₀.modelCalls = 0) : Watched s₀ (.start s₀) := by
  refine { toRunHead := .start h, phase := ⟨.idle 0, rfl, .inl ?_⟩, started := ?_, recounts := ?_ }
  · simp [LoopState.start, hcalls]
  · intro hne
    exact absurd h.idle hne
  · refine ⟨?_, rfl, ?_⟩
    · simp [LoopState.start, hcalls]
    · rw [LoopState.start, List.drop_length]
      rfl

theorem records_turn (l : LoopState)
    (execute : Nat → AgentRunState → AgentRunEffect → EffectReport)
    (scripts : Nat → IterationScript) (deadline : Option Duration) (e : AgentRunEffect)
    (o : AgentEffectOutcome) {added : List RunRecord} (hc : (scripts l.iteration).cancelled = false)
    (hx : l.state.finishIfExhausted = (l.state, false)) (he : l.state.nextEffect = some e)
    (ho : (execute l.iteration l.state e).outcome = some (.ok o))
    (hadded : effectRecords (scripts l.iteration).elapsedMs e o = .ok added) :
    (l.turn execute scripts deadline).state.records = l.records ++ added := by
  have hafter (m : LoopState) :
      (m.afterCommit deadline (scripts l.iteration)).state.records = m.records := by
    rcases afterCommit_cases deadline (scripts l.iteration) m with ⟨_, h⟩ | ⟨_, _, h⟩ |
      ⟨_, _, _, h⟩ <;> rw [h] <;> rfl
  simp only [turn, hc, hx, he, ho, complete, hadded, Bool.false_eq_true, if_false]
  split
  · rfl
  · split
    · rfl
    · split
      · split
        · rfl
        · exact hafter _
      · exact hafter _

variable [ArgumentSchema] {env : Environment}
  {run : RunPath → Agent → String → RunOptions → RunReport} {path : RunPath} {agent : Agent}
  {scripts : Nat → IterationScript} {deadline : Option Duration} {e : AgentRunEffect}
  {o : AgentEffectOutcome} {s : AgentRunState}

variable (env run path agent) in
/-- While an effect is executed, and after it was given up, its phase is open. -/
theorem Watched.absorb (h : Watched s₀ l) (he : l.state.nextEffect = some e) :
    watch (l.absorb e (env.execute run path agent l.iteration l.state e)).events =
        some (e.opened l.state.modelCalls.val) ∧
      Recounts s₀ (l.absorb e (env.execute run path agent l.iteration l.state e)).events l.records
        l.state := by
  have hidle : watch l.events = some (.idle l.state.modelCalls.val) := by
    obtain ⟨phase, hphase, rfl | ⟨hended, _⟩⟩ := h.phase
    · exact hphase
    · exact absurd (active_of_nextEffect he) (by simp [hended])
  constructor
  · rw [LoopState.absorb, watch, List.append_assoc, RunPhase.followAll_of_append hidle,
      RunPhase.followAll_of_append (followAll_startedEvents he h.started)]
    exact followAll_executeEffect he
  · rw [LoopState.absorb, List.append_assoc]
    refine h.recounts.silent fun event hevent => ?_
    rcases List.mem_append.mp hevent with hstarted | hreported
    · exact isSilent_startedEvents hstarted
    · obtain ⟨_, _, _, _, _, _, rfl⟩ := mem_events_executeEffect hreported
      rfl

variable (env run path agent) in
theorem Watched.absorb_stops (h : Watched s₀ l) (he : l.state.nextEffect = some e)
    (hstatus : status = .failed ∨ status = .cancelled) :
    ∃ phase, watch (l.absorb e (env.execute run path agent l.iteration l.state e)).events =
        some phase ∧ phase.stops status = true ∧ phase.status = .running := by
  refine ⟨_, (h.absorb env run path agent he).1, ?_, ?_⟩ <;> rw [AgentRunEffect.opened] <;> split
  · rcases hstatus with rfl | rfl <;> rfl
  · rcases hstatus with rfl | rfl <;> rfl
  · rfl
  · rfl

/-- After a commit the run is idle, or a provider call without a response has ended it. -/
theorem Watched.landed {elapsedMs : U64} {added : List RunRecord} (h : Watched s₀ l)
    (he : l.state.nextEffect = some e)
    (ho : (env.execute run path agent l.iteration l.state e).outcome = some (.ok o))
    (hcommit : (l.state.recordElapsed elapsedMs).commitEffect e.effectId o = (s, .ok ()))
    (hadded : effectRecords elapsedMs e o = .ok added) :
    let events := (l.absorb e (env.execute run path agent l.iteration l.state e)).events ++
      completedEvents e o
    Recounts s₀ events (l.records ++ added) s ∧
      ∃ phase, watch events = some phase ∧
        ((phase = .idle s.modelCalls.val ∧ 0 < s.modelCalls.val) ∨
          (phase = .calling l.state.modelCalls.val ∧ s.pendingTools = [] ∧
            (s.status = .failed ∨ s.status = .incomplete))) := by
  have hc : Committed (l.state.recordElapsed elapsedMs) e o s := committed_of_nextEffect he hcommit
  have ha : Accepted e o := executeEffect_accepted ho
  obtain ⟨hopened, hrecounts⟩ := h.absorb env run path agent he
  obtain ⟨phase, hphase, hcases⟩ := hc.followAll_completedEvents h.started
  refine ⟨?_, phase, ?_, hcases⟩
  · exact (hrecounts.sameLedger (sameLedger_recordElapsed l.state elapsedMs)).committed
      h.history_prefix ha hc hadded
  · rw [watch, RunPhase.followAll_of_append hopened]
    exact hphase

/-- The records of a committed turn are those before it and those of its effect. -/
theorem exists_effectRecords (he : l.state.nextEffect = some e)
    (ho : (env.execute run path agent l.iteration l.state e).outcome = some (.ok o))
    (elapsedMs : U64) : ∃ added, effectRecords elapsedMs e o = .ok added := by
  cases hr : effectRecords elapsedMs e o with
  | ok added => exact ⟨added, rfl⟩
  | error err => exact (executeEffect_not_refused he ho (.inr hr)).elim

theorem Watched.observed_turn (h : Watched s₀ l) :
    Observed s₀ (l.turn (env.execute run path agent) scripts deadline).state := by
  have ht := turns (env.execute run path agent) scripts deadline l
  have hrecords := records_turn l (env.execute run path agent) scripts deadline
  generalize l.turn (env.execute run path agent) scripts deadline = t at ht hrecords
  cases ht with
  | cancelled =>
    obtain ⟨phase, hphase, hstops, _⟩ := h.stops (.inr rfl)
    exact observed_finishCancelled hphase hstops h.recounts
  | exhausted s hx =>
    obtain ⟨hactive, hcases⟩ := finishIfExhausted_eq_true hx
    obtain ⟨phase, hphase, rfl | ⟨hended, _⟩⟩ := h.phase
    · have hsame : SameLedger l.state s := by
        have hledger := sameLedger_finishIfExhausted l.state
        rwa [hx] at hledger
      refine .announce hphase ?_ ?_ (h.recounts.sameLedger hsame) <;>
        rcases hcases with ⟨_, _, hs⟩ | ⟨_, _, hs⟩ <;> rw [hs] <;> rfl
    · exact absurd hactive (by simp [hended])
  | idle => exact ⟨h.observed.phase, h.recounts⟩
  | blocked e he =>
    obtain ⟨phase, hphase, hstops, hstatus⟩ := h.absorb_stops env run path agent he (.inl rfl)
    exact ⟨⟨phase, hphase, hstatus.trans h.running.symm, fun _ => hstops⟩,
      (h.absorb env run path agent he).2⟩
  | interrupted e he =>
    obtain ⟨phase, hphase, hstops, _⟩ := h.absorb_stops env run path agent he (.inr rfl)
    exact observed_finishCancelled hphase hstops (h.absorb env run path agent he).2
  | failed e err he =>
    obtain ⟨phase, hphase, hstops, _⟩ := h.absorb_stops env run path agent he (.inl rfl)
    exact .announce hphase hstops rfl
      ((h.absorb env run path agent he).2.sameLedger (sameLedger_fail l.state err.toText))
  | completed e o t hcancelled hx he ho hcompletes =>
    obtain ⟨added, hadded⟩ := exists_effectRecords he ho (scripts l.iteration).elapsedMs
    have hkept := hrecords e o hcancelled hx he ho hadded
    cases hcompletes with
    | refused _ _ _ hrefused => exact (executeEffect_not_refused he ho hrefused).elim
    | invalid records s err hcommit =>
      obtain rfl : records = added := List.append_cancel_left hkept
      obtain ⟨hr, phase, hphase, hcases⟩ := h.landed he ho hcommit hadded
      refine ⟨⟨phase, hphase, ?_, fun _ => ?_⟩, hr⟩ <;>
        rcases hcases with ⟨rfl, _⟩ | ⟨rfl, _⟩
      · exact h.running.symm
      · exact h.running.symm
      · rfl
      · rfl
    | failed records s hcommit =>
      obtain rfl : records = added := List.append_cancel_left hkept
      obtain ⟨hr, phase, hphase, hcases⟩ := h.landed he ho hcommit hadded
      refine .announce hphase ?_ rfl hr
      rcases hcases with ⟨rfl, _⟩ | ⟨rfl, _⟩ <;> rfl
    | committed records s hcommit hf hv =>
      have hc : Committed (l.state.recordElapsed (scripts l.iteration).elapsedMs) e o s :=
        committed_of_nextEffect he hcommit
      generalize hm : ((l.absorb e (env.execute run path agent l.iteration l.state e)).emit
        (completedEvents e o)).commitTo e o records s = m at hkept
      have hafter := afterCommit_cases deadline (scripts l.iteration) m
      obtain rfl : records = added := by
        subst hm
        rcases hafter with ⟨_, hafter⟩ | ⟨_, _, hafter⟩ | ⟨_, _, _, hafter⟩ <;>
          rw [hafter] at hkept <;> exact List.append_cancel_left hkept
      subst hm
      obtain ⟨hr, phase, hphase, hcases⟩ := h.landed he ho hcommit hadded
      rcases hafter with ⟨_, hafter⟩ | ⟨_, _, hafter⟩ | ⟨_, text, htext, hafter⟩ <;> rw [hafter]
      · refine observed_finishCancelled hphase ?_ hr
        rcases hcases with ⟨rfl, _⟩ | ⟨rfl, _⟩ <;> rfl
      · refine ⟨⟨phase, hphase, ?_, fun _ => ?_⟩, hr⟩ <;>
          rcases hcases with ⟨rfl, _⟩ | ⟨rfl, _⟩
        · exact h.running.symm
        · exact h.running.symm
        · rfl
        · rfl
      · have hstatus := (hc.completed_of_text (executeEffect_accepted ho) h.text htext).1
        rcases hcases with ⟨rfl, hpos⟩ | ⟨_, _, hended⟩
        · exact .announce hphase (by simp [RunPhase.stops, hpos]) rfl hr
        · simp [hstatus] at hended

variable (env run path agent scripts deadline) in
theorem Watched.next (h : Watched s₀ l)
    (hnext : l.turn (env.execute run path agent) scripts deadline = .next l') :
    Watched s₀ l' := by
  have hstep := advances_of_turn hnext
  have hhead := h.toRunHead.advances hstep
  have hrecords := records_turn l (env.execute run path agent) scripts deadline
  rw [hnext] at hrecords
  cases hstep with
  | intro e o records s hcancelled hx he ho hcommit =>
    obtain ⟨added, hadded⟩ := exists_effectRecords he ho (scripts l.iteration).elapsedMs
    obtain rfl : records = added :=
      List.append_cancel_left (hrecords e o hcancelled hx he ho hadded)
    obtain ⟨hr, phase, hphase, hcases⟩ := h.landed he ho hcommit hadded
    refine { toRunHead := hhead, phase := ⟨phase, hphase, ?_⟩, started := ?_, recounts := hr }
    · rcases hcases with ⟨hidle, _⟩ | ⟨hcalling, _, hended⟩
      · exact .inl hidle
      · refine .inr ⟨?_, _, hcalling⟩
        rcases hended with hs | hs <;> exact congrArg RunStatus.isActive hs
    · rcases hcases with ⟨_, hpos⟩ | ⟨_, hidle, _⟩
      · exact fun _ => hpos
      · exact fun hne => absurd hidle hne

variable (env run path agent scripts deadline) in
theorem InStep.turn (h : l.InStep) :
    (l.turn (env.execute run path agent) scripts deadline).state.InStep := by
  have habsorb (e : AgentRunEffect) :
      (l.absorb e (env.execute run path agent l.iteration l.state e)).InStep := by
    rw [InStep, LoopState.absorb, h.add, List.append_assoc]
    intro event hevent
    rcases List.mem_append.mp hevent with hstarted | hreported
    · exact ne_statusChanged_of_started hstarted
    · obtain ⟨_, _, _, _, _, _, rfl⟩ := mem_events_executeEffect hreported
      exact fun _ heq => by cases heq
  have ht := turns (env.execute run path agent) scripts deadline l
  generalize l.turn (env.execute run path agent) scripts deadline = t at ht
  cases ht with
  | cancelled => exact h.announce _
  | exhausted => exact h.announce _
  | idle => exact h
  | blocked e => exact habsorb e
  | interrupted e => exact (habsorb e).announce _
  | failed e => exact (habsorb e).announce _
  | completed e o t hcancelled hx he ho hcompletes =>
    have hemit : ((l.absorb e (env.execute run path agent l.iteration l.state e)).emit
        (completedEvents e o)).InStep :=
      (habsorb e).add fun event => ne_statusChanged_of_completed (e := e) (o := o)
    cases hcompletes with
    | refused => exact hemit
    | invalid => exact hemit
    | failed records s =>
      exact (hemit.commitTo e o records s).announce _
    | committed records s =>
      rcases afterCommit_cases deadline (scripts l.iteration)
          (((l.absorb e (env.execute run path agent l.iteration l.state e)).emit
            (completedEvents e o)).commitTo e o records s) with
        ⟨_, hafter⟩ | ⟨_, _, hafter⟩ | ⟨_, _, _, hafter⟩ <;> rw [hafter]
      · exact (hemit.commitTo e o records s).announce _
      · exact hemit
      · exact (hemit.commitTo e o records s).announce _

/-- The result of a run shows the records, the history and the id of its last state. -/
theorem result_of_ended {result : RunResult}
    (hend : l.turn (env.execute run path agent) scripts deadline = .ended l' (.ok result)) :
    result.records = l'.records ∧ result.history = l'.state.history ∧
      result.runId = l'.state.runId := by
  have ht := turns (env.execute run path agent) scripts deadline l
  generalize l.turn (env.execute run path agent) scripts deadline = t at hend ht
  cases ht with
  | completed e o t hcancelled hx he ho hcompletes =>
    cases hcompletes with
    | committed records s hcommit hf hv =>
      rcases afterCommit_cases deadline (scripts l.iteration)
          (((l.absorb e (env.execute run path agent l.iteration l.state e)).emit
            (completedEvents e o)).commitTo e o records s) with
        ⟨_, hafter⟩ | ⟨_, _, hafter⟩ | ⟨_, _, _, hafter⟩ <;> rw [hafter] at hend <;>
        cases hend <;> exact ⟨rfl, rfl, rfl⟩
    | _ => cases hend <;> exact ⟨rfl, rfl, rfl⟩
  | _ => cases hend <;> exact ⟨rfl, rfl, rfl⟩

end LoopState

theorem LoopState.Observed.settle {s₀ : AgentRunState} {l : LoopState} (h : l.Observed s₀)
    (failed : Bool) : ∃ phase, watch (settle l.status l.events failed).2 = some phase ∧
      phase.status = (settle l.status l.events failed).1 := by
  obtain ⟨phase, hphase, hstatus, hstops⟩ := h.phase
  rw [Agentive.settle]
  split
  · next hsettles =>
    simp only [Bool.and_eq_true] at hsettles
    exact ⟨_, LoopState.watch_announce (l := l) hphase (hstops hsettles.2) rfl, rfl⟩
  · exact ⟨phase, hphase, hstatus⟩

/-- What an observer sees of the steps of a run: after any of them the events lead to a phase, and
the phase shows the status of the handle, or the event that will make it show this may come there
and is the next step. After all of them the phase shows the status. -/
structure Tells (steps : List RunStep) (events : List RunEvent) (status : RunStatus) : Prop where
  emitted : emitted steps = events
  shown : shown steps = status
  phase : ∃ phase, watch events = some phase ∧ phase.status = status
  throughout : ∀ before, before <+: steps →
    ∃ phase, watch (Agentive.emitted before) = some phase ∧
      (phase.status = Agentive.shown before ∨
        (phase.follow (.statusChanged (Agentive.shown before))).isSome = true ∧
          before ++ [.emit (.statusChanged (Agentive.shown before))] <+: steps)

theorem Tells.of_watch {steps : List RunStep} {events : List RunEvent} {status : RunStatus}
    (hsteps : steps = events.flatMap RunEvent.steps)
    (hphase : ∃ phase, watch events = some phase ∧ phase.status = status) :
    Tells steps events status := by
  subst hsteps
  obtain ⟨phase, hphase, rfl⟩ := hphase
  have hemitted := emitted_flatMap_steps events
  have hthroughout (before : List RunStep) (hbefore : before <+: events.flatMap RunEvent.steps) :=
    RunPhase.followAll_steps hphase hbefore
  refine ⟨hemitted, ?_, ⟨phase, hphase, rfl⟩, hthroughout⟩
  obtain ⟨seen, hseen, hstatus | ⟨_, hnext⟩⟩ := hthroughout _ List.prefix_rfl
  · rw [hemitted] at hseen
    obtain rfl := Option.some.inj (hphase.symm.trans hseen)
    exact hstatus.symm
  · exact absurd hnext.length_le (by simp)

/-- An observer can follow the events of a run from the first to the last, and they show the status
of its handle at any time, or are about to. Those of a run with a result number the rounds of its
records, and tell their usage and the tool results that the run has added to the history. -/
theorem run_events_tell_run [JsonText] [RequestText] [ArgumentSchema] (env : Environment)
    (fuel : Nat) (path : RunPath) (agent : Agent) (userMessage : String) (options : RunOptions) :
    let report := runAgent env fuel path agent userMessage options
    Tells report.steps report.events report.status ∧
      ∀ result, report.result = some (.ok result) →
        result.records.map (·.modelCall.val) = List.range result.records.length ∧
        report.events.filterMap RunEvent.answer = result.records.filterMap RunRecord.answer ∧
        report.events.filterMap RunEvent.completion =
          (result.history.drop (Agent.compileMessages userMessage options).length).filterMap
            (Message.completion result.runId) := by
  cases fuel with
  | zero => exact ⟨.of_watch rfl ⟨.pending, rfl, rfl⟩, fun result h => by cases h⟩
  | succ fuel =>
    rw [runAgent, startRun]
    cases hs : agent.prepareState (env.runId path) (Agent.compileMessages userMessage options)
        options with
    | error e => exact ⟨.of_watch rfl ⟨.ended .failed, rfl, rfl⟩, fun result h => by cases h⟩
    | ok s =>
      have hfresh := Agent.fresh_of_prepareState hs
      obtain ⟨l, ended, hd⟩ : ∃ l ended,
          drive (LoopState.turn (env.execute (runAgent env fuel) path agent) (env.script path)
            options.deadline) fuel (.start s) = (l, ended) := ⟨_, _, rfl⟩
      obtain ⟨_, _, hstart⟩ := Agent.prepareState_eq_ok_iff.mp hs
      have hcalls : s.modelCalls = 0 := by rw [hstart]; rfl
      have hhistory : s.history = Agent.compileMessages userMessage options := by rw [hstart]; rfl
      have hobserved : l.Observed s := by
        have hdrive := drive_invariant (I := LoopState.Watched s) (J := LoopState.Observed s)
          (fun _ h => h.observed)
          (fun _ _ h hnext => h.next env (runAgent env fuel) path agent (env.script path)
            options.deadline hnext)
          (fun _ h => h.observed_turn) fuel (.start s) (.start hfresh hcalls)
        rwa [hd] at hdrive
      have hinstep : l.InStep := by
        have hturn (m : LoopState) (hm : m.InStep) :=
          hm.turn env (runAgent env fuel) path agent (env.script path) options.deadline
        have hdrive := drive_invariant (I := LoopState.InStep) (J := LoopState.InStep)
          (fun _ h => h)
          (fun m _ h hnext => by
            have hstate := hturn m h
            rwa [hnext] at hstate)
          hturn fuel (.start s) rfl
        rwa [hd] at hdrive
      simp only [hd]
      refine ⟨.of_watch (hinstep.settle _) (hobserved.settle _), fun result hresult => ?_⟩
      subst hresult
      obtain ⟨t, _, hend⟩ := reaches_of_drive hd
      obtain ⟨hrecords, hadded, hid⟩ := LoopState.result_of_ended hend
      obtain ⟨hrounds, hanswers, hresults⟩ := hobserved.recounts
      have hlen : l.records.length = l.state.modelCalls.val := by
        simpa using congrArg List.length hrounds
      refine ⟨by rw [hrecords, hrounds, hlen], ?_, ?_⟩
      · rw [hrecords]
        exact hanswers
      · rw [hadded, hid, ← hhistory]
        exact hresults

end Agentive
