import Agentive.Cursors

/-! The activities that a durable run schedules, and their deliveries to the workers. -/

namespace Agentive

open AgentRunState DriverLoop

/-- What wakes the loop of an activity. A heartbeat that is not recorded finds the activity
cancelled, or not. -/
inductive ActivityWake
  | cancelled
  | finished
  | recorded
  | unrecorded (cancelled : Bool)

inductive ActivityError
  | cancelled
  | application (error : RunError)
  | heartbeat

/-- The loop of `AgentiveActivities::execute_effect` around the execution of its effect. A worker
that is lost says nothing. -/
def awaitExecution (report : EffectReport) (elapsedMs : U64) :
    List ActivityWake → Option (Except ActivityError EffectActivityOutput)
  | [] => none
  | .cancelled :: _ => some (.error .cancelled)
  | .finished :: wakes =>
    match report.outcome with
    | none => awaitExecution report elapsedMs wakes
    | some (.ok outcome) => some (.ok (.reported outcome elapsedMs))
    | some (.error e) => some (.error (.application e))
  | .recorded :: wakes => awaitExecution report elapsedMs wakes
  | .unrecorded true :: _ => some (.error .cancelled)
  | .unrecorded false :: _ => some (.error .heartbeat)

theorem outcome_of_awaitExecution {report : EffectReport} {elapsedMs : U64}
    {wakes : List ActivityWake} {output : EffectActivityOutput}
    (h : awaitExecution report elapsedMs wakes = some (.ok output)) :
    report.outcome = some (.ok output.intoParts.1) := by
  induction wakes with
  | nil => cases h
  | cons wake wakes ih =>
    cases wake with
    | cancelled => cases h
    | finished =>
      rw [awaitExecution] at h
      cases ho : report.outcome with
      | none =>
        rw [ho] at h
        exact ho ▸ ih h
      | some result =>
        rw [ho] at h
        cases result with
        | ok outcome =>
          obtain rfl : EffectActivityOutput.reported outcome elapsedMs = output := by
            simpa using h
          rfl
        | error e => simp at h
    | recorded => exact ih h
    | unrecorded cancelled => cases cancelled <;> cases h

/-- One delivery of an activity to a worker: what its effect and the runs below it meet there. -/
structure Delivery where
  surroundings : Environment
  fuel : Nat
  script : EffectScript
  wakes : List ActivityWake
  elapsedMs : U64

section

variable [JsonText] [RequestText] [ArgumentSchema]

def Delivery.report (d : Delivery) (agent : Agent) (input : EffectActivityInput) : EffectReport :=
  executeEffect agent (fun j => runAgent d.surroundings d.fuel [(0, j)]) d.script input.state
    input.effect

def Delivery.result (d : Delivery) (agent : Agent) (input : EffectActivityInput) :
    Option (Except ActivityError EffectActivityOutput) :=
  awaitExecution (d.report agent input) d.elapsedMs d.wakes

/-- The service that runs the activities of a workflow. -/
structure TemporalService where
  deliveries : Nat → EffectActivityInput → ActivityOptions → List Delivery
  answer : Activities

/-- What the service documents: the retry policy bounds the attempts, where a maximum of zero is
none, and the result of an activity is what its last delivery has reported. -/
structure TemporalService.Reliable (service : TemporalService) (agent : Agent) : Prop where
  attempts : ∀ i input options, options.maximumAttempts ≠ 0 →
    (service.deliveries i input options).length ≤ options.maximumAttempts.val
  answers : ∀ i input options output, service.answer i input options = .ok output →
    ∃ d, (service.deliveries i input options).getLast? = some d ∧
      d.result agent input = some (.ok output)

end

/-- An activity as the workflow schedules it. -/
structure Scheduled where
  index : Nat
  input : EffectActivityInput
  options : ActivityOptions

namespace ExecutionLoop

variable {l l' : ExecutionLoop} {a : Scheduled}

/-- The activity that the next iteration schedules. -/
def scheduled (l : ExecutionLoop) : Option Scheduled :=
  let (state, exhausted) := l.input.state.finishIfExhausted
  if exhausted then none
  else match state.nextEffect with
    | none => none
    | some effect =>
      if l.full then none
      else match l.input.config.validatesEffect effect with
        | .error _ => none
        | .ok () => some
          { index := l.selected.length
            input := { state, effect }
            options :=
              { scheduleToCloseTimeout := effectDeadline state
                maximumAttempts := (l.input.config.activityMaxAttempts effect).min
                  durableSafeInfrastructureMaxAttempts } }

theorem scheduled_of_effect {effect : AgentRunEffect}
    (hx : l.input.state.finishIfExhausted = (l.input.state, false))
    (he : l.input.state.nextEffect = some effect) (hfull : l.full = false)
    (hv : l.input.config.validatesEffect effect = .ok ()) :
    l.scheduled = some ⟨l.selected.length, ⟨l.input.state, effect⟩, effectDeadline l.input.state,
      (l.input.config.activityMaxAttempts effect).min durableSafeInfrastructureMaxAttempts⟩ := by
  simp [scheduled, hx, he, hfull, hv]

/-- An activity is scheduled for the next effect, and all its tools are allowed. -/
structure Schedules (config : TemporalRunConfig) (s : AgentRunState) (a : Scheduled) : Prop where
  state : a.input.state = s
  effect : s.nextEffect = some a.input.effect
  allowed : config.validatesEffect a.input.effect = .ok ()
  attempts : a.options.maximumAttempts =
    (config.activityMaxAttempts a.input.effect).min durableSafeInfrastructureMaxAttempts

theorem schedules_of_scheduled (h : l.scheduled = some a) :
    Schedules l.input.config l.input.state a := by
  by_cases hx : l.input.state.finishIfExhausted.2 = true
  · simp [scheduled, hx] at h
  have hself := finishIfExhausted_eq_self (s := l.input.state) (by simpa using hx)
  simp only [scheduled, hself, Bool.false_eq_true, if_false] at h
  cases he : l.input.state.nextEffect with
  | none => simp [he] at h
  | some effect =>
    simp only [he] at h
    by_cases hfull : l.full = true
    · simp [hfull] at h
    cases hv : l.input.config.validatesEffect effect with
    | error e => simp [hfull, hv] at h
    | ok =>
      simp only [hfull, hv] at h
      obtain rfl := Option.some.inj h
      exact ⟨rfl, he, hv, rfl⟩

section

variable [JsonText] [RequestText] {activities : Activities}

theorem commits_of_turn (h : l.turn activities = .next l') :
    ∃ a output s, l.scheduled = some a ∧
      activities a.index a.input a.options = .ok output ∧
      Committed l.input.state a.input.effect output.intoParts.1 s ∧
      l'.input.state = (s.recordElapsed output.intoParts.2).finishIfExhausted.1 ∧
      l'.input.config = l.input.config := by
  rcases iterate_cases full activities l with
    ⟨hl, _⟩ | ⟨effect, hx, he, ⟨_, hl⟩ | ⟨hc, hl⟩⟩ <;> rw [turn, hl] at h
  · cases h
  · cases h
  cases hv : l.input.config.validatesEffect effect with
  | error e => simp [perform, hv] at h
  | ok =>
    have hs := scheduled_of_effect hx he hc hv
    simp only [perform, hv] at h
    split at h
    · cases h
    · cases h
    · next output ho =>
      simp only [complete] at h
      split at h
      · cases h
      · next s hcommit =>
        cases h
        exact ⟨_, output, s, hs, ho, committed_of_nextEffect he hcommit, rfl, rfl⟩

theorem scheduled_of_continued {next : TemporalWorkflowInput}
    (h : l.turn activities = .ended l' (.continuedAsNew next)) : l.scheduled = none := by
  rcases iterate_cases full activities l with
    ⟨hl, _⟩ | ⟨effect, hx, he, ⟨hc, _⟩ | ⟨_, hl⟩⟩
  · rw [turn, hl] at h
    cases h
  · simp [scheduled, hx, he, hc]
  · rw [turn, hl] at h
    rcases perform_cases activities l effect with
      ⟨_, _, hperform, _⟩ | ⟨_, _, _, _, _, hperform, _⟩ | ⟨_, _, _, _, hperform, _⟩ <;>
      rw [hperform] at h <;> cases h

end

end ExecutionLoop

/-- The activities that a chain schedules from a state on: each but the last one is committed. -/
inductive Course [JsonText] [RequestText] (config : TemporalRunConfig) (activities : Activities) :
    AgentRunState → List Scheduled → Prop
  | idle (s : AgentRunState) : Course config activities s []
  | last {s : AgentRunState} {a : Scheduled} (h : ExecutionLoop.Schedules config s a) :
    Course config activities s [a]
  | commit {s t : AgentRunState} {a : Scheduled} {output : EffectActivityOutput}
    {rest : List Scheduled} (h : ExecutionLoop.Schedules config s a)
    (ho : activities a.index a.input a.options = .ok output)
    (hc : Committed s a.input.effect output.intoParts.1 t)
    (hrest : Course config activities (t.recordElapsed output.intoParts.2).finishIfExhausted.1
      rest) :
    Course config activities s (a :: rest)

namespace ContinuationChain

variable [JsonText] [RequestText]

/-- The activities that `fuel` iterations of a chain schedule. -/
def scheduled (activities : Activities) (patched : Bool) :
    Nat → ContinuationChain → List Scheduled
  | 0, _ => []
  | fuel + 1, c =>
    c.execution.scheduled.toList ++
      match c.turn activities patched with
      | .next c => scheduled activities patched fuel c
      | .blocked _ => []
      | .ended _ _ => []

variable {c d : ContinuationChain} {activities : Activities} {patched : Bool}

/-- The next execution of a chain begins without an activity. -/
theorem next_cases (hn : c.turn activities patched = .next d) :
    (∃ l, c.execution.turn activities = .next l ∧ d = { c with execution := l }) ∨
      c.execution.scheduled = none ∧
        d.execution.input = { c.execution.input with effectsInExecution := 0 } := by
  rcases turn_next hn with hl | ⟨_, hinput, _⟩
  · exact .inl hl
  cases ht : c.execution.turn activities with
  | next l =>
    simp only [turn, ht, Turn.next.injEq] at hn
    exact .inl ⟨l, rfl, hn.symm⟩
  | blocked l => simp [turn, ht] at hn
  | ended l e =>
    cases e with
    | returned state => simp [turn, ht] at hn
    | failed failure => simp [turn, ht] at hn
    | continuedAsNew next => exact .inr ⟨ExecutionLoop.scheduled_of_continued ht, hinput⟩

/-- The activities of a chain are a course from its state on, wherever it is cut. -/
theorem course_scheduled (fuel : Nat) : Course c.execution.input.config activities
    c.execution.input.state (scheduled activities patched fuel c) := by
  induction fuel generalizing c with
  | zero => exact .idle _
  | succ fuel ih =>
    have hstopped : Course c.execution.input.config activities c.execution.input.state
        c.execution.scheduled.toList := by
      cases hs : c.execution.scheduled with
      | none => exact .idle _
      | some a => exact .last (ExecutionLoop.schedules_of_scheduled hs)
    rw [scheduled]
    cases hn : c.turn activities patched with
    | blocked d => simpa using hstopped
    | ended d result => simpa using hstopped
    | next d =>
      simp only
      rcases next_cases hn with ⟨l, hl, rfl⟩ | ⟨hnone, hinput⟩
      · obtain ⟨a, output, s, hs, ho, hc, hstate, hconfig⟩ := ExecutionLoop.commits_of_turn hl
        rw [hs]
        have hrest := ih (c := { c with execution := l })
        simp only [hstate, hconfig] at hrest
        exact .commit (ExecutionLoop.schedules_of_scheduled hs) ho hc hrest
      · have hrest := ih (c := d)
        rw [hinput] at hrest
        rw [hnone]
        exact hrest

end ContinuationChain

end Agentive
