import Agentive.ProviderRetries
import Agentive.RunHeads
import Agentive.DriverAgreement

/-! The events of a run as a protocol. An observer that has nothing but the events follows the
run by them, and finds its rounds, their usage and its tool results there. -/

namespace Agentive

open AgentRunState DriverLoop

/-- A tool call as the events name it. -/
abbrev ToolMark := ToolName × String

/-- Where a run stands, as far as its events tell: the rounds are counted, and calls that are
started and not completed are kept in order. -/
inductive RunPhase
  | pending
  | idle (rounds : Nat)
  | calling (rounds : Nat)
  | starting (rounds : Nat) (waiting : List ToolMark)
  | completing (rounds : Nat) (waiting : List ToolMark)
  | ended (status : RunStatus)
deriving DecidableEq

namespace RunPhase

def status : RunPhase → RunStatus
  | .pending => .pending
  | .ended status => status
  | .idle _ | .calling _ | .starting _ _ | .completing _ _ => .running

/-- The statuses that can end a run in this phase. A run completes after a round, and its limits
are looked at between effects. -/
def stops : RunPhase → RunStatus → Bool
  | .idle rounds, .completed => 0 < rounds
  | .idle _, .incomplete => true
  | .idle _, status | .calling _, status | .starting _ _, status =>
    status = .failed || status = .cancelled
  | .pending, status => status = .failed
  | .completing _ _, _ | .ended _, _ => false

/-- Calls are completed in the order in which they were started. -/
def complete (rounds : Nat) (call : ToolMark) : List ToolMark → Option RunPhase
  | [] => none
  | first :: rest =>
    if first = call then some (if rest.isEmpty then .idle rounds else .completing rounds rest)
    else none

/-- The phase after one more event, if the event may come there. -/
def follow : RunPhase → RunEvent → Option RunPhase
  | .pending, .statusChanged .running => some (.idle 0)
  | phase, .statusChanged status => if phase.stops status then some (.ended status) else none
  | .idle rounds, .modelCallStarted round =>
    if round.val = rounds then some (.calling rounds) else none
  | .calling rounds, .modelDelta round _ =>
    if round.val = rounds then some (.calling rounds) else none
  | .calling rounds, .modelCallCompleted round _ =>
    if round.val = rounds then some (.idle (rounds + 1)) else none
  | .idle (rounds + 1), .toolInvocationStarted name callId =>
    some (.starting (rounds + 1) [(name, callId)])
  | .starting rounds waiting, .toolInvocationStarted name callId =>
    some (.starting rounds (waiting ++ [(name, callId)]))
  | .starting rounds waiting, .toolInvocationCompleted name callId _ _
  | .completing rounds waiting, .toolInvocationCompleted name callId _ _ =>
    complete rounds (name, callId) waiting
  | _, _ => none

/-- The phase after a list of events. -/
def followAll (phase : RunPhase) (events : List RunEvent) : Option RunPhase :=
  events.foldlM follow phase

@[simp] theorem followAll_nil (phase : RunPhase) : phase.followAll [] = some phase := rfl

@[simp] theorem followAll_cons (phase : RunPhase) (event : RunEvent) (events : List RunEvent) :
    phase.followAll (event :: events) = (phase.follow event).bind (·.followAll events) := rfl

theorem followAll_append (phase : RunPhase) (a b : List RunEvent) :
    phase.followAll (a ++ b) = (phase.followAll a).bind (·.followAll b) :=
  List.foldlM_append

theorem followAll_of_append {phase middle : RunPhase} {a b : List RunEvent}
    (ha : phase.followAll a = some middle) : phase.followAll (a ++ b) = middle.followAll b := by
  rw [followAll_append, ha, Option.bind_some]

theorem followAll_deltas {rounds : Nat} {round : U32} (hround : round.val = rounds)
    {events : List RunEvent} (h : ∀ event ∈ events, ∃ delta, event = .modelDelta round delta) :
    (calling rounds).followAll events = some (.calling rounds) := by
  induction events with
  | nil => rfl
  | cons event events ih =>
    obtain ⟨delta, rfl⟩ := h _ List.mem_cons_self
    rw [followAll_cons, follow, if_pos hround, Option.bind_some]
    exact ih fun other hother => h other (List.mem_cons_of_mem _ hother)

end RunPhase

/-- The phase in which the events of a run leave an observer. -/
def watch (events : List RunEvent) : Option RunPhase := RunPhase.pending.followAll events

/-- The steps in which an event gets out: a status is set before the event of it is emitted. -/
def RunEvent.steps : RunEvent → List RunStep
  | .statusChanged status => [.set status, .emit (.statusChanged status)]
  | event => [.emit event]

def RunStep.event : RunStep → Option RunEvent
  | .set _ => none
  | .emit event => some event

/-- The status of the handle after a step. -/
def RunStep.show (status : RunStatus) : RunStep → RunStatus
  | .set status => status
  | .emit _ => status

/-- The events that observers were given in some steps of a run. -/
def emitted (steps : List RunStep) : List RunEvent := steps.filterMap RunStep.event

/-- The status that the handle shows after them. -/
def shown (steps : List RunStep) : RunStatus := steps.foldl RunStep.show .pending

/-- Some first steps of a run that begins with an event: none, all of the event's and some more, or
its status is set and it is to be emitted. -/
theorem RunEvent.prefix_steps {event : RunEvent} {steps rest : List RunStep}
    (h : steps <+: event.steps ++ rest) :
    steps = [] ∨ (∃ status, event = .statusChanged status ∧ steps = [.set status]) ∨
      ∃ more, steps = event.steps ++ more ∧ more <+: rest := by
  cases event with
  | statusChanged status =>
    rcases List.prefix_cons_iff.mp h with rfl | ⟨_, rfl, hset⟩
    · exact .inl rfl
    · rcases List.prefix_cons_iff.mp hset with rfl | ⟨more, rfl, hmore⟩
      · exact .inr (.inl ⟨status, rfl, rfl⟩)
      · exact .inr (.inr ⟨more, rfl, hmore⟩)
  | _ =>
    rcases List.prefix_cons_iff.mp h with rfl | ⟨more, rfl, hmore⟩
    · exact .inl rfl
    · exact .inr (.inr ⟨more, rfl, hmore⟩)

theorem RunEvent.emitted_steps_append (event : RunEvent) (more : List RunStep) :
    emitted (event.steps ++ more) = event :: emitted more := by
  cases event <;> rfl

theorem RunEvent.steps_eq_emit {event : RunEvent}
    (h : ∀ status, event ≠ .statusChanged status) : event.steps = [.emit event] := by
  cases event with
  | statusChanged status => exact absurd rfl (h status)
  | _ => rfl

theorem flatMap_steps_eq_map {events : List RunEvent}
    (h : ∀ event ∈ events, ∀ status, event ≠ .statusChanged status) :
    events.flatMap RunEvent.steps = events.map .emit := by
  induction events with
  | nil => rfl
  | cons event events ih =>
    have htail := ih fun other hother => h other (List.mem_cons_of_mem _ hother)
    rw [List.flatMap_cons, RunEvent.steps_eq_emit (h event List.mem_cons_self), htail]
    rfl

theorem emitted_flatMap_steps (events : List RunEvent) :
    emitted (events.flatMap RunEvent.steps) = events := by
  induction events with
  | nil => rfl
  | cons event events ih => rw [List.flatMap_cons, RunEvent.emitted_steps_append, ih]

namespace RunPhase

theorem status_complete {rounds : Nat} {call : ToolMark} {waiting : List ToolMark}
    {next : RunPhase} (h : complete rounds call waiting = some next) : next.status = .running := by
  cases waiting with
  | nil => cases h
  | cons first rest =>
    rw [complete] at h
    split at h
    · obtain rfl := Option.some.inj h
      split <;> rfl
    · cases h

/-- An event leads to a phase that shows the status set with it. -/
theorem status_follow {phase next : RunPhase} {event : RunEvent}
    (h : phase.follow event = some next) :
    next.status = event.steps.foldl RunStep.show phase.status := by
  unfold follow at h
  split at h
  · cases h
    rfl
  · split at h
    · cases h
      rfl
    · cases h
  · split at h <;> cases h
    rfl
  · split at h <;> cases h
    rfl
  · split at h <;> cases h
    rfl
  · cases h
    rfl
  · cases h
    rfl
  · exact status_complete h
  · exact status_complete h
  · cases h

/-- At any step on the way the events given so far lead to a phase, and it shows the status of
the handle, or the event that shows it may come there and is the next step. -/
theorem followAll_steps {phase last : RunPhase} {events : List RunEvent}
    (h : phase.followAll events = some last) {steps : List RunStep}
    (hsteps : steps <+: events.flatMap RunEvent.steps) :
    let status := steps.foldl RunStep.show phase.status
    ∃ seen, phase.followAll (emitted steps) = some seen ∧
      (seen.status = status ∨
        (seen.follow (.statusChanged status)).isSome = true ∧
          steps ++ [.emit (.statusChanged status)] <+: events.flatMap RunEvent.steps) := by
  induction events generalizing phase steps with
  | nil =>
    obtain rfl := List.prefix_nil.mp hsteps
    exact ⟨phase, rfl, .inl rfl⟩
  | cons event events ih =>
    rw [followAll_cons] at h
    obtain ⟨next, hnext, hlast⟩ := Option.bind_eq_some_iff.mp h
    rw [List.flatMap_cons] at hsteps ⊢
    rcases RunEvent.prefix_steps hsteps with rfl | ⟨set, rfl, rfl⟩ | ⟨more, rfl, hmore⟩
    · exact ⟨phase, rfl, .inl rfl⟩
    · refine ⟨phase, rfl, .inr ⟨?_, List.prefix_append _ _⟩⟩
      exact Option.isSome_of_eq_some hnext
    · obtain ⟨seen, hseen, hstatus⟩ := ih hlast hmore
      have hshown : (event.steps ++ more).foldl RunStep.show phase.status =
          more.foldl RunStep.show next.status := by
        rw [List.foldl_append, status_follow hnext]
      dsimp only
      rw [hshown]
      refine ⟨seen, ?_, ?_⟩
      · rw [RunEvent.emitted_steps_append, followAll_cons, hnext, Option.bind_some, hseen]
      · rw [List.append_assoc, List.prefix_append_right_inj]
        exact hstatus

end RunPhase

namespace RunEvent

/-- The round that an event ends, with its usage. -/
def answer : RunEvent → Option (U32 × Option ModelTokenUsage)
  | .modelCallCompleted round usage => some (round, usage)
  | _ => none

/-- The call that an event completes. -/
def completion : RunEvent → Option ToolMark
  | .toolInvocationCompleted name callId _ _ => some (name, callId)
  | _ => none

end RunEvent

/-- The round that a record is about and the usage of its response, if there is one. -/
def RunRecord.answer (record : RunRecord) : Option (U32 × Option ModelTokenUsage) :=
  record.response.map fun response => (record.modelCall, response.usage)

/-- The call whose result a message of a run holds. -/
def Message.completion (runId : String) (m : Message) : Option ToolMark :=
  m.name.bind fun name => m.toolCallId.map fun callId => (name, toolEffectId runId callId)

def ToolInvocation.mark (invocation : ToolInvocation) : ToolMark :=
  (invocation.toolName, invocation.invocationId.text)

def AgentRunEffect.marks (e : AgentRunEffect) : List ToolMark := e.calls.map (·.invocation.mark)

namespace RunPhase

theorem followAll_started {rounds : Nat} {waiting : List ToolMark} (calls : List ToolEffectCall) :
    (starting rounds waiting).followAll (calls.map fun call =>
        .toolInvocationStarted call.invocation.toolName call.invocation.invocationId.text) =
      some (.starting rounds (waiting ++ calls.map (·.invocation.mark))) := by
  induction calls generalizing waiting with
  | nil => simp
  | cons call calls ih =>
    rw [List.map_cons, followAll_cons, follow, Option.bind_some, ih, List.map_cons,
      List.append_assoc]
    rfl

/-- The completions of all calls that wait leave the run idle. -/
theorem followAll_completed {rounds : Nat} {phase : RunPhase} (calls : List ToolEffectCall)
    (outputs : List ToolEffectResult) (hne : calls ≠ []) (hlen : outputs.length = calls.length)
    (hphase : phase = .starting rounds (calls.map (·.invocation.mark)) ∨
      phase = .completing rounds (calls.map (·.invocation.mark))) :
    phase.followAll ((calls.zip outputs).map fun p =>
      toolCompleted p.1.invocation p.2.attempts p.2.output) = some (.idle rounds) := by
  induction calls generalizing phase outputs with
  | nil => exact absurd rfl hne
  | cons call calls ih =>
    obtain ⟨output, outputs, rfl⟩ := List.exists_cons_of_length_eq_add_one hlen
    have hfirst : phase.follow (toolCompleted call.invocation output.attempts output.output) =
        some (if (calls.map (·.invocation.mark)).isEmpty then .idle rounds
          else .completing rounds (calls.map (·.invocation.mark))) := by
      rcases hphase with rfl | rfl <;>
        simp [follow, toolCompleted, complete, ToolInvocation.mark]
    rw [List.zip_cons_cons, List.map_cons, followAll_cons, hfirst, Option.bind_some]
    cases calls with
    | nil => rfl
    | cons other calls =>
      exact ih outputs (List.cons_ne_nil _ _) (by simpa using hlen) (.inr rfl)

end RunPhase

theorem mem_events_readStream {round : U32}
    {events : List (Except ProviderError ModelStreamEvent)} {streamed : Option ModelTokenUsage}
    {event : RunEvent} (h : event ∈ (readStream round events streamed).events) :
    ∃ delta, event = .modelDelta round delta := by
  induction events generalizing streamed with
  | nil => cases h
  | cons item rest ih =>
    cases item with
    | error e => cases h
    | ok item =>
      cases item with
      | done => cases h
      | textChunk => exact (List.mem_cons.mp h).elim (fun h => ⟨_, h⟩) fun h => ih h
      | toolCallChunk => exact (List.mem_cons.mp h).elim (fun h => ⟨_, h⟩) fun h => ih h
      | usage => exact (List.mem_cons.mp h).elim (fun h => ⟨_, h⟩) fun h => ih h

theorem mem_events_executeProviderEffect {provider : Provider} {round : U32}
    {script : AttemptScript} {event : RunEvent}
    (h : event ∈ (executeProviderEffect provider round script).events) :
    ∃ delta, event = .modelDelta round delta := by
  unfold executeProviderEffect at h
  split at h
  · split at h
    · cases h
    · exact mem_events_readStream h
  · cases h

section

variable [JsonText] [RequestText] [ArgumentSchema] {agent : Agent}
  {runChild : Nat → Agent → String → RunOptions → RunReport} {script : EffectScript}
  {s : AgentRunState} {e : AgentRunEffect}

/-- What an effect reports while it is executed are deltas of its own round. -/
theorem mem_events_executeEffect {event : RunEvent}
    (h : event ∈ (executeEffect agent runChild script s e).events) :
    ∃ id providerCallId round request delta,
      e = .providerCall id providerCallId round request ∧ event = .modelDelta round delta := by
  rcases executeEffect_cases agent runChild script s e with ⟨_, hx⟩ | ⟨_, _, _, hx⟩ <;> rw [hx] at h
  · cases h
  · cases e with
    | providerCall id providerCallId round request =>
      rw [executeAdmitted] at h
      rcases executeProvider_cases agent s request providerCallId round script.attempts with
        ⟨_, _, hp⟩ | ⟨_, _, _, _, ⟨_, hp⟩ | ⟨_, hp⟩⟩ <;> rw [hp] at h
      · cases h
      · cases h
      · rw [attemptLoop_events] at h
        obtain ⟨call, _, hevent⟩ := List.mem_flatMap.mp h
        obtain ⟨delta, rfl⟩ := mem_events_executeProviderEffect hevent
        exact ⟨id, providerCallId, round, request, delta, rfl, rfl⟩
    | toolCall => cases h
    | toolBatch => cases h

end

/-- The phase of a run while an effect is executed. -/
def AgentRunEffect.opened (rounds : Nat) (e : AgentRunEffect) : RunPhase :=
  if e.isProviderCall then .calling rounds else .starting rounds e.marks

/-- An event that ends neither a round nor a tool call. -/
def RunEvent.isSilent (event : RunEvent) : Bool :=
  event.answer.isNone && event.completion.isNone

/-- What the events of a run tell of it: its records are numbered by its rounds, and rounds and
tool results come in the events as in the records and in the history. -/
structure Recounts (s₀ : AgentRunState) (events : List RunEvent) (records : List RunRecord)
    (s : AgentRunState) : Prop where
  rounds : records.map (·.modelCall.val) = List.range s.modelCalls.val
  answers : events.filterMap RunEvent.answer = records.filterMap RunRecord.answer
  results : events.filterMap RunEvent.completion =
    (s.history.drop s₀.history.length).filterMap (Message.completion s.runId)

section

variable {s₀ s s' : AgentRunState} {e : AgentRunEffect} {o : AgentEffectOutcome}
  {events : List RunEvent} {records : List RunRecord}

theorem Recounts.silent {more : List RunEvent} (h : Recounts s₀ events records s)
    (hmore : ∀ event ∈ more, event.isSilent = true) :
    Recounts s₀ (events ++ more) records s := by
  have hanswers : more.filterMap RunEvent.answer = [] := by
    refine List.filterMap_eq_nil_iff.mpr fun event hevent => ?_
    have hsilent := hmore event hevent
    simp only [RunEvent.isSilent, Bool.and_eq_true, Option.isNone_iff_eq_none] at hsilent
    exact hsilent.1
  have hresults : more.filterMap RunEvent.completion = [] := by
    refine List.filterMap_eq_nil_iff.mpr fun event hevent => ?_
    have hsilent := hmore event hevent
    simp only [RunEvent.isSilent, Bool.and_eq_true, Option.isNone_iff_eq_none] at hsilent
    exact hsilent.2
  refine ⟨h.rounds, ?_, ?_⟩
  · rw [List.filterMap_append, hanswers, List.append_nil, h.answers]
  · rw [List.filterMap_append, hresults, List.append_nil, h.results]

theorem Recounts.sameLedger (h : Recounts s₀ events records s) (hs : SameLedger s s') :
    Recounts s₀ events records s' :=
  ⟨by rw [hs.modelCalls, h.rounds], h.answers, by rw [hs.history, hs.runId, h.results]⟩

/-- A call is made below the limit, so the count of the rounds does not saturate. -/
theorem AgentRunState.ProviderTurn.val_nextRound (ht : s.ProviderTurn) :
    (s.modelCalls.saturatingAdd 1).val = s.modelCalls.val + 1 := by
  have hlt := ht.charged_lt
  have hcap := s.budget.modelCallLimit.le_cap
  have hmax : s.modelCalls.val ≤ Nat.max s.providerCallsStarted.val s.modelCalls.val :=
    Nat.le_max_right _ _
  rw [Capped.val_saturatingAdd, Capped.val_one]
  omega

theorem AgentRunState.followAll_startedEvents (he : s.nextEffect = some e)
    (hstarted : s.pendingTools ≠ [] → 0 < s.modelCalls.val) :
    (RunPhase.idle s.modelCalls.val).followAll (startedEvents e) =
      some (e.opened s.modelCalls.val) := by
  rcases nextEffect_cases he with ⟨_, rfl⟩ | ⟨call, rest, ht, rfl⟩ | ⟨call, rest, ht, rfl⟩
  · simp [providerEffect, startedEvents, RunPhase.follow, AgentRunEffect.opened,
      AgentRunEffect.isProviderCall]
  · obtain ⟨n, hn⟩ := Nat.exists_eq_succ_of_ne_zero (Nat.ne_of_gt (hstarted (by simp [ht.pending])))
    rw [hn]
    rfl
  · obtain ⟨n, hn⟩ := Nat.exists_eq_succ_of_ne_zero (Nat.ne_of_gt (hstarted (by simp [ht.pending])))
    rw [hn, toolBatchEffect, startedEvents, ht.pending, List.map_cons, List.map_cons,
      RunPhase.followAll_cons, RunPhase.follow, Option.bind_some, RunPhase.followAll_started]
    rfl

variable [JsonText]

theorem AgentRunState.foldl_resolveItem_rounds {outputs : List ToolEffectResult}
    (hlen : outputs.length = s.pendingTools.length) :
    ((s.batchItems outputs).foldl resolveItem s).runId = s.runId ∧
      ((s.batchItems outputs).foldl resolveItem s).modelCalls = s.modelCalls :=
  foldl_resolveItem_invariant (I := fun t => t.runId = s.runId ∧ t.modelCalls = s.modelCalls)
    (fun t call _ output usage reservation _ ht => by
      rwa [resolveCall_runId, resolveCall_modelCalls])
    _ s (batchItems_calls hlen) ⟨rfl, rfl⟩

variable [RequestText]

theorem AgentRunState.Committed.runId (hc : Committed s e o s') : s'.runId = s.runId := by
  cases hc with
  | response response attempts ht => exact acceptResponse_runId _ _ _
  | failure error attempts ht =>
    exact (sameLedger_fail _ _).runId.trans (recordProviderEffect_runId _ _ _)
  | exhausted required ht => rfl
  | tool call rest output attempts usage ht => exact resolveCall_runId _ _ _ _ _
  | batch call rest outputs ht hlen => exact (foldl_resolveItem_rounds hlen).1

/-- A record is left for each round that is counted. -/
theorem AgentRunState.Committed.modelCalls {elapsedMs : U64} {added : List RunRecord}
    (hc : Committed s e o s') (hadded : effectRecords elapsedMs e o = .ok added) :
    List.range s'.modelCalls.val = List.range s.modelCalls.val ++ added.map (·.modelCall.val) := by
  cases hc with
  | response response attempts ht =>
    cases hadded
    rw [acceptResponse_modelCalls, ht.val_nextRound, List.range_succ]
    rfl
  | failure error attempts ht =>
    cases hadded
    rw [(sameLedger_fail _ _).modelCalls, recordProviderEffect_modelCalls, ht.val_nextRound,
      List.range_succ]
    rfl
  | exhausted required ht =>
    cases hadded
    exact (List.append_nil _).symm
  | tool call rest output attempts usage ht =>
    cases hadded
    rw [resolveCall_modelCalls]
    exact (List.append_nil _).symm
  | batch call rest outputs ht hlen =>
    cases hadded
    rw [(foldl_resolveItem_rounds hlen).2]
    exact (List.append_nil _).symm

/-- After its completion an effect leaves the run idle in its round or, if a response has come,
in the next one; a provider call without a response ends the run where it is. -/
theorem AgentRunState.Committed.followAll_completedEvents (hc : Committed s e o s')
    (hstarted : s.pendingTools ≠ [] → 0 < s.modelCalls.val) :
    ∃ phase, (e.opened s.modelCalls.val).followAll (completedEvents e o) = some phase ∧
      ((phase = .idle s'.modelCalls.val ∧ 0 < s'.modelCalls.val) ∨
        (phase = .calling s.modelCalls.val ∧ s'.pendingTools = [] ∧
          (s'.status = .failed ∨ s'.status = .incomplete))) := by
  cases hc with
  | response response attempts ht =>
    have hnext : (s.acceptResponse response attempts).modelCalls.val = s.modelCalls.val + 1 := by
      rw [acceptResponse_modelCalls, ht.val_nextRound]
    refine ⟨_, ?_, .inl ⟨rfl, by omega⟩⟩
    rw [hnext]
    simp [providerEffect, completedEvents, RunPhase.follow, AgentRunEffect.opened,
      AgentRunEffect.isProviderCall]
  | failure error attempts ht =>
    have hidle : ((s.recordProviderEffect attempts error.usage).fail error.message).pendingTools =
        [] := by
      rw [(sameLedger_fail _ _).pendingTools, recordProviderEffect_pendingTools, ht.idle]
    refine ⟨_, rfl, .inr ⟨rfl, hidle, .inl ?_⟩⟩
    simp [AgentRunState.fail, ht.active]
  | exhausted required ht => exact ⟨_, rfl, .inr ⟨rfl, ht.idle, .inr rfl⟩⟩
  | tool call rest output attempts usage ht =>
    refine ⟨.idle s.modelCalls.val, ?_, .inl ⟨by rw [resolveCall_modelCalls], ?_⟩⟩
    · exact RunPhase.followAll_completed [s.toolEffectCall call] [⟨output, attempts, usage⟩]
        (List.cons_ne_nil _ _) rfl (.inl rfl)
    · rw [resolveCall_modelCalls]
      exact hstarted (by simp [ht.pending])
  | batch call rest outputs ht hlen =>
    have hcalls := (foldl_resolveItem_rounds hlen).2
    have hpos := hstarted (by simp [ht.pending])
    refine ⟨.idle s.modelCalls.val, ?_, .inl ⟨by rw [hcalls], by rw [hcalls]; exact hpos⟩⟩
    exact RunPhase.followAll_completed (s.pendingTools.map s.toolEffectCall) outputs
      (by simp [ht.pending]) (by simpa using hlen) (.inl rfl)

/-- The messages that a committed effect adds hold the results that its events tell. -/
theorem AgentRunState.Committed.completions (ha : Accepted e o) (hc : Committed s e o s') :
    ∃ added, s'.history = s.history ++ added ∧
      (completedEvents e o).filterMap RunEvent.completion =
        added.filterMap (Message.completion s.runId) := by
  cases hc with
  | response response attempts ht =>
    rcases validateModelResponse_cases ha with ⟨text, htext, _, hnil⟩ | ⟨_, hne, _⟩
    · exact ⟨_, (acceptResponse_text attempts hnil htext).1, rfl⟩
    · exact ⟨_, (acceptResponse_calls attempts hne).1, rfl⟩
  | failure error attempts ht =>
    refine ⟨[], ?_, rfl⟩
    rw [(sameLedger_fail _ _).history, recordProviderEffect_history, List.append_nil]
  | exhausted required ht => exact ⟨[], (List.append_nil _).symm, rfl⟩
  | tool call rest output attempts usage ht => exact ⟨_, resolveCall_history _ _ _ _ _, rfl⟩
  | batch call rest outputs ht hlen =>
    refine ⟨_, history_foldl_resolveItem _ _, ?_⟩
    have hlist : (s.pendingTools.map s.toolEffectCall).length ≤ outputs.length := by simp [hlen]
    calc ((s.pendingTools.map s.toolEffectCall).zip outputs |>.map fun p =>
          toolCompleted p.1.invocation p.2.attempts p.2.output).filterMap RunEvent.completion
        = (((s.pendingTools.map s.toolEffectCall).zip outputs).map Prod.fst).map
            (·.invocation.mark) := by
          rw [List.filterMap_map, List.map_map]
          exact congrFun List.filterMap_eq_map _
      _ = s.pendingTools.map fun call => (call.name, toolEffectId s.runId call.callId) := by
          rw [List.map_fst_zip hlist, List.map_map]
          rfl
      _ = ((s.batchItems outputs).map (·.1)).map fun call =>
            (call.name, toolEffectId s.runId call.callId) := by
          rw [batchItems_calls hlen]
      _ = _ := by
          rw [List.filterMap_map, List.map_map]
          exact (congrFun List.filterMap_eq_map _).symm

/-- A round of the loop keeps the account: what a commit adds to records and history is what its
events tell. -/
theorem Recounts.committed {elapsedMs : U64} {added : List RunRecord}
    (h : Recounts s₀ events records s) (hbegun : s₀.history <+: s.history) (ha : Accepted e o)
    (hc : Committed s e o s') (hadded : effectRecords elapsedMs e o = .ok added) :
    Recounts s₀ (events ++ completedEvents e o) (records ++ added) s' := by
  refine ⟨?_, ?_, ?_⟩
  · rw [List.map_append, h.rounds, hc.modelCalls hadded]
  · have hone : (completedEvents e o).filterMap RunEvent.answer =
        added.filterMap RunRecord.answer := by
      cases hc with
      | batch call rest outputs ht hlen =>
        cases hadded
        rw [toolBatchEffect, completedEvents, List.filterMap_map]
        exact List.filterMap_eq_nil_iff.mpr fun _ _ => rfl
      | _ =>
        cases hadded
        rfl
    rw [List.filterMap_append, List.filterMap_append, h.answers, hone]
  · obtain ⟨more, hhistory, hmore⟩ := hc.completions ha
    rw [List.filterMap_append, h.results, hmore, hhistory,
      List.drop_append_of_le_length hbegun.length_le, List.filterMap_append, hc.runId]

end

theorem isSilent_startedEvents {e : AgentRunEffect} {event : RunEvent}
    (h : event ∈ startedEvents e) : event.isSilent = true := by
  cases e with
  | providerCall =>
    obtain rfl := List.mem_singleton.mp h
    rfl
  | toolCall =>
    obtain rfl := List.mem_singleton.mp h
    rfl
  | toolBatch =>
    obtain ⟨_, _, rfl⟩ := List.mem_map.mp h
    rfl

theorem AgentRunState.followAll_executeEffect [JsonText] [RequestText] [ArgumentSchema]
    {agent : Agent} {runChild : Nat → Agent → String → RunOptions → RunReport}
    {script : EffectScript} {s : AgentRunState} {e : AgentRunEffect}
    (he : s.nextEffect = some e) :
    (e.opened s.modelCalls.val).followAll (executeEffect agent runChild script s e).events =
      some (e.opened s.modelCalls.val) := by
  by_cases hcall : e.isProviderCall
  · have hround : ∀ event ∈ (executeEffect agent runChild script s e).events,
        ∃ delta, event = .modelDelta s.modelCalls delta := by
      intro event hevent
      obtain ⟨_, _, round, _, delta, rfl, rfl⟩ := mem_events_executeEffect hevent
      rcases nextEffect_cases he with ⟨_, heq⟩ | ⟨_, _, _, heq⟩ | ⟨_, _, _, heq⟩
      · obtain ⟨_, _, rfl, _⟩ := AgentRunEffect.providerCall.inj heq
        exact ⟨delta, rfl⟩
      · cases heq
      · cases heq
    rw [AgentRunEffect.opened, if_pos hcall]
    exact RunPhase.followAll_deltas rfl hround
  · have hnone : (executeEffect agent runChild script s e).events = [] := by
      refine List.eq_nil_iff_forall_not_mem.mpr fun event hevent => ?_
      obtain ⟨_, _, _, _, _, rfl, _⟩ := mem_events_executeEffect hevent
      exact hcall rfl
    rw [hnone]
    rfl

end Agentive
