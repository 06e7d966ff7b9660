import Agentive.LoopTurns

/-! The heads of iterations to which a run comes: what the effects between them can report, and
what holds of the run there. -/

namespace Agentive

open AgentRunState DriverLoop

/-- The status that ends a run, when the event shows one. -/
def RunEvent.terminalStatus : RunEvent → Option RunStatus
  | .statusChanged status => if status.isActive then none else some status
  | _ => none

def terminalStatuses (events : List RunEvent) : List RunStatus :=
  events.filterMap RunEvent.terminalStatus

@[simp] theorem terminalStatuses_append (a b : List RunEvent) :
    terminalStatuses (a ++ b) = terminalStatuses a ++ terminalStatuses b :=
  List.filterMap_append

theorem terminalStatuses_statusChanged {status : RunStatus} (h : status.isActive = false) :
    terminalStatuses [.statusChanged status] = [status] := by
  simp [terminalStatuses, RunEvent.terminalStatus, h]

@[simp] theorem terminalStatuses_startedEvents (e : AgentRunEffect) :
    terminalStatuses (startedEvents e) = [] := by
  cases e with
  | toolBatch id calls =>
    simp [terminalStatuses, startedEvents, RunEvent.terminalStatus]
  | _ => rfl

@[simp] theorem terminalStatuses_completedEvents (e : AgentRunEffect) (o : AgentEffectOutcome) :
    terminalStatuses (completedEvents e o) = [] := by
  cases e <;> cases o <;>
    simp [terminalStatuses, completedEvents, RunEvent.terminalStatus, toolCompleted]

theorem terminalStatuses_readStream (round : U32)
    (events : List (Except ProviderError ModelStreamEvent)) (streamed : Option ModelTokenUsage) :
    terminalStatuses (readStream round events streamed).events = [] := by
  induction events generalizing streamed with
  | nil => rfl
  | cons event rest ih =>
    cases event with
    | error e => rfl
    | ok event => cases event <;> first | rfl | exact ih _

theorem terminalStatuses_attemptLoop (provider : Provider) (round : U32) (providerCallId : String)
    (reservation : U64) (allowed : U32) (scripts : List AttemptScript) (attempt : U8)
    (attempts : List ProviderAttempt) :
    terminalStatuses (attemptLoop provider round providerCallId reservation allowed scripts attempt
      attempts).events = [] := by
  have hread (script : AttemptScript) :
      terminalStatuses (executeProviderEffect provider round script).events = [] := by
    unfold executeProviderEffect
    split
    · split
      · rfl
      · exact terminalStatuses_readStream _ _ _
    · rfl
  induction scripts generalizing attempt attempts with
  | nil => rfl
  | cons script rest ih =>
    simp only [attemptLoop, terminalStatuses_append, hread, List.nil_append]
    split
    · rfl
    · rfl
    · rfl
    · exact ih _ _
    · rfl

section

variable [JsonText] [RequestText] [ArgumentSchema] {agent : Agent}
  {runChild : Nat → Agent → String → RunOptions → RunReport} {script : EffectScript}
  {s : AgentRunState} {e : AgentRunEffect} {o : AgentEffectOutcome}

theorem terminalStatuses_executeEffect :
    terminalStatuses (executeEffect agent runChild script s e).events = [] := by
  rcases executeEffect_cases agent runChild script s e with ⟨_, h⟩ | ⟨_, _, _, h⟩ <;> rw [h]
  · rfl
  · cases e with
    | providerCall id providerCallId round request =>
      rw [executeAdmitted]
      rcases executeProvider_cases agent s request providerCallId round script.attempts with
        ⟨_, _, hp⟩ | ⟨_, _, _, _, ⟨_, hp⟩ | ⟨_, hp⟩⟩ <;> rw [hp]
      · rfl
      · rfl
      · exact terminalStatuses_attemptLoop _ _ _ _ _ _ _ _
    | toolCall => rfl
    | toolBatch => rfl

theorem executeEffect_fits
    (h : (executeEffect agent runChild script s e).outcome = some (.ok o)) : e.Fits o := by
  rcases executeEffect_cases agent runChild script s e with ⟨_, hx⟩ | ⟨_, _, _, hx⟩ <;> rw [hx] at h
  · simp [EffectReport.ended] at h
  · cases e with
    | providerCall id providerCallId round request =>
      rcases executeProvider_outcome rfl h with
        ⟨_, rfl, _⟩ | ⟨_, _, _, _, _, ⟨_, _, rfl⟩ | ⟨_, rfl⟩⟩ <;> trivial
    | toolCall =>
      obtain ⟨_, _, _, rfl⟩ := executeOneTool_outcome h
      trivial
    | toolBatch id calls =>
      obtain ⟨all, rfl, hlen⟩ := executeChunks_outcome h
      have hcalls : all.length = calls.length := by simpa [chunks, flatten_chunksFrom] using hlen
      exact hcalls

theorem executeEffect_not_refused {elapsedMs : U64} {err : RunError}
    (he : s.nextEffect = some e)
    (h : (executeEffect agent runChild script s e).outcome = some (.ok o))
    (hrefused : (∀ s', (s.recordElapsed elapsedMs).commitEffect e.effectId o ≠ (s', .ok ())) ∨
      effectRecords elapsedMs e o = .error err) : False := by
  obtain ⟨s', hc⟩ := exists_committed (s := s.recordElapsed elapsedMs) he (executeEffect_fits h)
  rcases hrefused with hrefused | hrecords
  · exact hrefused s' hc.commitEffect
  · cases hc <;> cases hrecords

theorem executeEffect_accepted
    (h : (executeEffect agent runChild script s e).outcome = some (.ok o)) : Accepted e o := by
  rcases executeEffect_cases agent runChild script s e with ⟨_, hx⟩ | ⟨_, _, _, hx⟩ <;> rw [hx] at h
  · simp [EffectReport.ended] at h
  · cases e with
    | providerCall id providerCallId round request =>
      rcases executeProvider_outcome rfl h with
        ⟨_, rfl, _⟩ | ⟨_, _, _, _, _, ⟨_, hv, rfl⟩ | ⟨_, rfl⟩⟩
      · trivial
      · exact hv
      · trivial
    | toolCall => trivial
    | toolBatch => trivial

end

theorem AgentRunState.Committed.status_cases [JsonText] [RequestText] {s s' : AgentRunState}
    {e : AgentRunEffect} {o : AgentEffectOutcome} (hc : Committed s e o s') (ha : Accepted e o) :
    (∃ response attempts text, o = .provider response attempts ∧ response.text = some text ∧
        s'.status = .completed ∧ s'.text = some text ∧ s'.pendingTools = [] ∧ s.ProviderTurn) ∨
      (∃ response attempts, o = .provider response attempts ∧ s'.status = .running ∧
        s'.text = s.text ∧ s'.pendingTools ≠ []) ∨
      (o.isProviderFailure = true ∧ s'.status = .failed ∧ s'.text = s.text) ∨
      (∃ required, o = .providerBudgetExhausted required ∧ s' = s.markIncomplete ∧
        s.ProviderTurn) ∨
      (e.isProviderCall = false ∧ o.isProviderFailure = false ∧ s'.status = s.status ∧
        s'.text = s.text) := by
  have htext (attempts : List ProviderAttempt) (usage : Option ModelTokenUsage)
      (t : AgentRunState) : (t.recordProviderEffect attempts usage).text = t.text := by
    unfold recordProviderEffect recordProviderAttempts
    split <;> rfl
  cases hc with
  | response response attempts ht =>
    rcases validateModelResponse_cases ha with ⟨text, hr, _, hnil⟩ | ⟨_, hne, _⟩
    · refine .inl ⟨response, attempts, text, rfl, hr, ?_, ?_, ?_, ht⟩
      · simp [acceptResponse, applyResponse, hnil, hr]
      · simp [acceptResponse, applyResponse, hnil, hr]
      · simp [acceptResponse, applyResponse, hnil, hr, ht.idle]
    · refine .inr (.inl ⟨response, attempts, rfl, ?_, ?_, ?_⟩)
      · simp [acceptResponse, applyResponse, hne]
      · simp [acceptResponse, applyResponse, hne, htext]
      · simp [acceptResponse, applyResponse, hne]
  | failure error attempts ht =>
    refine .inr (.inr (.inl ⟨rfl, ?_, ?_⟩))
    · simp [AgentRunState.fail, ht.active]
    · simp [AgentRunState.fail, ht.active, htext]
  | exhausted required ht => exact .inr (.inr (.inr (.inl ⟨required, rfl, rfl, ht⟩)))
  | tool call rest output attempts usage ht =>
    refine .inr (.inr (.inr (.inr ⟨rfl, rfl, ?_, ?_⟩)))
    · simp
    · cases usage <;> cases s.delegationBudgetFor call <;> rfl
  | batch call rest outputs ht hlen =>
    have hsame := foldl_resolveItem_invariant
      (I := fun t => t.status = s.status ∧ t.text = s.text)
      (fun t call _ output usage reservation _ ht => by
        refine ⟨by simpa using ht.1, ?_⟩
        cases usage <;> cases reservation <;> exact ht.2) _ s (batchItems_calls hlen) ⟨rfl, rfl⟩
    exact .inr (.inr (.inr (.inr ⟨rfl, rfl, hsame⟩)))

/-- Only an answer sets the text, and it completes the run. -/
theorem AgentRunState.Committed.completed_of_text [JsonText] [RequestText] {s s' : AgentRunState}
    {e : AgentRunEffect} {o : AgentEffectOutcome} {text : String} (hc : Committed s e o s')
    (ha : Accepted e o) (hnone : s.text = none) (htext : s'.text = some text) :
    s'.status = .completed ∧ s'.pendingTools = [] := by
  rcases hc.status_cases ha with ⟨_, _, _, _, _, hs, _, hidle, _⟩ | ⟨_, _, _, _, hsame, _⟩ |
    ⟨_, _, hsame⟩ | ⟨_, _, rfl, _⟩ | ⟨_, _, _, hsame⟩
  · exact ⟨hs, hidle⟩
  · simp [hsame, hnone] at htext
  · simp [hsame, hnone] at htext
  · exact absurd (hnone.symm.trans htext) (by simp)
  · simp [hsame, hnone] at htext

/-- What holds of a run from the state `s₀` and of the state `s` to which it has come. -/
structure RunsTo [JsonText] [RequestText] (s₀ : AgentRunState)
    (log : List (AgentRunEffect × AgentEffectOutcome)) (s : AgentRunState) : Prop where
  trace : Trace s₀ log s
  plan : s.plan = s₀.plan
  tracked : Tracked s
  settled : s.pendingTools = [] → validateHistory s.history = .ok ()

section

variable [JsonText] [RequestText] {s₀ s s' : AgentRunState}
  {log : List (AgentRunEffect × AgentEffectOutcome)}

theorem RunsTo.quiet (h : RunsTo s₀ log s) (hq : Quiet s s') : RunsTo s₀ log s' := by
  have hl := hq.sameLedger
  refine ⟨h.trace.quiet hq, hl.plan.trans h.plan, h.tracked.sameLedger hl, fun hidle => ?_⟩
  rw [hl.history]
  exact h.settled (hl.pendingTools.symm.trans hidle)

/-- A provider effect that leaves no calls leaves a valid history; after a tool effect the loop
checks it. -/
theorem RunsTo.committed {e : AgentRunEffect} {o : AgentEffectOutcome} (h : RunsTo s₀ log s)
    (ha : Accepted e o) (hc : Committed s e o s')
    (hchecked : e.isProviderCall = false → s'.pendingTools = [] →
      validateHistory s'.history = .ok ()) : RunsTo s₀ (log ++ [(e, o)]) s' := by
  have htracked := h.tracked.committed ha hc
  refine ⟨h.trace.step ha hc, hc.fixed.1.trans h.plan, htracked, fun hidle => ?_⟩
  cases hc with
  | response response attempts ht =>
    have hscan := htracked
    rw [Tracked, hidle] at hscan
    refine validateHistory_eq_ok_iff.mpr ⟨?_, hscan⟩
    have hshaped := (validateHistory_eq_ok_iff.mp (h.settled ht.idle)).1
    rcases validateModelResponse_cases ha with ⟨text, htext, _, hnil⟩ | ⟨_, hne, _⟩
    · rw [(acceptResponse_text attempts hnil htext).1, List.forall_mem_append]
      exact ⟨hshaped, by simpa using wellShaped_assistantText text⟩
    · exact absurd ((acceptResponse_pendingTools s _ _ ht.idle).symm.trans hidle) hne
  | failure error attempts ht =>
    rw [(sameLedger_fail (s.recordProviderEffect attempts error.usage) error.message).history,
      recordProviderEffect_history]
    exact h.settled ht.idle
  | exhausted required ht => exact h.settled ht.idle
  | tool => exact hchecked rfl hidle
  | batch => exact hchecked rfl hidle

theorem RunsTo.history_prefix (h : RunsTo s₀ log s) : s₀.history <+: s.history :=
  h.trace.invariant (I := fun _ s => s₀.history <+: s.history) List.prefix_rfl
    (fun _ _ _ _ _ hs _ hc => hs.trans hc.history_prefix)
    (fun _ _ _ hs hq => hq.sameLedger.history ▸ hs)

/-- The history of a run can be used again as long as no call waits for a result. -/
theorem RunsTo.validateHistory_iff (h : RunsTo s₀ log s) :
    validateHistory s.history = .ok () ↔ s.pendingTools = [] := by
  refine ⟨fun hv => ?_, h.settled⟩
  have hscan := (validateHistory_eq_ok_iff.mp hv).2
  rw [h.tracked, Option.some.injEq] at hscan
  simpa using hscan

end

/-- What holds of a run that starts in the state `s₀` at the head of each iteration. -/
structure RunHead [JsonText] [RequestText] (s₀ : AgentRunState) (l : LoopState) : Prop
    extends RunsTo s₀ l.log l.state where
  closed : l.state.status.isActive = false → l.state.pendingTools = []
  text : l.state.text = none
  running : l.status = .running
  quiet : terminalStatuses l.events = []

/-- The state from which a run starts. -/
structure Fresh [JsonText] (s₀ : AgentRunState) : Prop where
  idle : s₀.pendingTools = []
  valid : validateHistory s₀.history = .ok ()
  text : s₀.text = none
  status : s₀.status = .pending

theorem Agent.fresh_of_prepareState [JsonText] {agent : Agent} {runId : String}
    {history : List Message} {options : RunOptions} {s : AgentRunState}
    (h : agent.prepareState runId history options = .ok s) : Fresh s := by
  obtain ⟨_, hv, rfl⟩ := Agent.prepareState_eq_ok_iff.mp h
  exact ⟨rfl, hv, rfl, rfl⟩

section

variable [JsonText] [RequestText] {s₀ : AgentRunState}

theorem RunHead.start (h : Fresh s₀) : RunHead s₀ (.start s₀) := by
  refine ⟨⟨.start, rfl, ?_, fun _ => h.valid⟩, fun _ => h.idle, h.text, rfl, rfl⟩
  have hscan := (validateHistory_eq_ok_iff.mp h.valid).2
  simpa [LoopState.start, Tracked, h.idle] using hscan

/-- At a provider turn the snapshot passes the checks of `execute_effect`. -/
theorem RunHead.validateEffectStateHistory {l : LoopState} (h : RunHead s₀ l)
    (hidle : l.state.pendingTools = []) : validateEffectStateHistory l.state = .ok () :=
  h.tracked.validateEffectStateHistory.mpr (validateHistory_eq_ok_iff.mp (h.settled hidle)).1

variable {l l' : LoopState}

/-- What an ended run with a result leaves: a state, and a result that shows this state. -/
structure RunEnd (s₀ : AgentRunState) (l : LoopState) (result : RunResult) : Prop
    extends RunsTo s₀ l.log l.state where
  usage : l.usage = l.state.usage
  resultStatus : result.status = l.state.status
  resultText : result.text = l.state.text
  resultHistory : result.history = l.state.history
  resultUsage : result.usage = l.state.usage

theorem RunsTo.finishCancelled {result : RunResult} (h : RunsTo s₀ l.log l.state)
    (hend : l.finishCancelled = .ended l' (.ok result)) : RunEnd s₀ l' result := by
  cases hend
  exact ⟨h.quiet .cancel, rfl, rfl, rfl, rfl, rfl⟩

theorem RunsTo.finishWithUsage {result : RunResult} (h : RunsTo s₀ l.log l.state)
    (hend : l.finishWithUsage = .ended l' (.ok result)) : RunEnd s₀ l' result := by
  cases hend
  exact ⟨h, rfl, rfl, rfl, rfl, rfl⟩

variable [ArgumentSchema] {env : Environment}
  {run : RunPath → Agent → String → RunOptions → RunReport} {path : RunPath} {agent : Agent}
  {scripts : Nat → IterationScript} {deadline : Option Duration}

theorem terminalStatuses_absorb (e : AgentRunEffect) :
    terminalStatuses (l.absorb e (env.execute run path agent l.iteration l.state e)).events =
      terminalStatuses l.events := by
  have hreport : terminalStatuses (env.execute run path agent l.iteration l.state e).events = [] :=
    terminalStatuses_executeEffect
  simp [LoopState.absorb, hreport]

theorem RunHead.advances (h : RunHead s₀ l)
    (hstep : LoopState.Advances (env.execute run path agent) scripts deadline l l') :
    RunHead s₀ l' := by
  cases hstep with
  | intro e o records s _ _ he ho hcommit hfailure hvalid _ htext =>
    have hc : Committed (l.state.recordElapsed (scripts l.iteration).elapsedMs) e o s :=
      committed_of_nextEffect he hcommit
    have ha : Accepted e o := executeEffect_accepted ho
    refine ⟨(h.toRunsTo.quiet (.elapsed _)).committed ha hc hvalid, fun hended => ?_, htext,
      h.running, ?_⟩
    · have hended : s.status.isActive = false := hended
      rcases hc.status_cases ha with ⟨_, _, _, _, _, _, hsome, _⟩ | ⟨_, _, _, hrunning, _, _⟩ |
        ⟨hf, _, _⟩ | ⟨_, _, rfl, ht⟩ | ⟨_, _, hsame, _⟩
      · rw [htext] at hsome
        cases hsome
      · simp [hrunning, RunStatus.isActive] at hended
      · simp [hf] at hfailure
      · exact ht.idle
      · rw [hsame] at hended
        exact absurd (active_of_nextEffect he) (by simpa [recordElapsed] using hended)
    · show terminalStatuses (_ ++ completedEvents e o) = []
      rw [terminalStatuses_append, terminalStatuses_absorb, h.quiet,
        terminalStatuses_completedEvents]
      rfl

theorem RunHead.ended {result : RunResult} (h : RunHead s₀ l)
    (hend : l.turn (env.execute run path agent) scripts deadline = .ended l' (.ok result)) :
    RunEnd s₀ l' result := by
  have ht := LoopState.turns (env.execute run path agent) scripts deadline l
  generalize l.turn (env.execute run path agent) scripts deadline = t at hend ht
  cases ht with
  | cancelled => exact h.toRunsTo.finishCancelled hend
  | exhausted s hx =>
    have hs : RunsTo s₀ l.log s := by
      have hquiet := h.toRunsTo.quiet .exhausted
      rwa [hx] at hquiet
    exact RunsTo.finishWithUsage (l := LoopState.announce { l with state := s } s.status) hs hend
  | idle => exact h.toRunsTo.finishWithUsage hend
  | blocked => cases hend
  | interrupted e =>
    exact RunsTo.finishCancelled
      (l := l.absorb e (env.execute run path agent l.iteration l.state e)) h.toRunsTo hend
  | failed => cases hend
  | completed e o t hcancelled hx he ho hcompletes =>
    have ha : Accepted e o := executeEffect_accepted ho
    have hquiet := h.toRunsTo.quiet (.elapsed (scripts l.iteration).elapsedMs)
    cases hcompletes with
    | refused => cases hend
    | invalid => cases hend
    | failed records s hcommit hf =>
      have hc : Committed (l.state.recordElapsed (scripts l.iteration).elapsedMs) e o s :=
        committed_of_nextEffect he hcommit
      refine RunsTo.finishWithUsage (hquiet.committed ha hc fun hcall => ?_) hend
      cases hc with
      | tool => cases hf
      | batch => cases hf
      | _ => cases hcall
    | committed records s hcommit hf hv =>
      have hc : Committed (l.state.recordElapsed (scripts l.iteration).elapsedMs) e o s :=
        committed_of_nextEffect he hcommit
      have hs := hquiet.committed ha hc hv
      rcases LoopState.afterCommit_cases deadline (scripts l.iteration)
          (((l.absorb e (env.execute run path agent l.iteration l.state e)).emit
            (completedEvents e o)).commitTo e o records s) with
        ⟨_, hafter⟩ | ⟨_, _, hafter⟩ | ⟨_, text, htext, hafter⟩ <;> rw [hafter] at hend
      · exact RunsTo.finishCancelled hs hend
      · cases hend
      · have hstatus := (hc.completed_of_text ha h.text htext).1
        cases hend
        exact ⟨hs, rfl, hstatus.symm, htext.symm, rfl, rfl⟩

theorem RunHead.of_reaches (h : Fresh s₀)
    (hr : Reaches (LoopState.turn (env.execute run path agent) scripts deadline) (.start s₀) l) :
    RunHead s₀ l :=
  hr.invariant (.start h) fun _ _ hu hn => hu.advances (LoopState.advances_of_turn hn)

end

/-! The heads that a run of an agent visits, and how its report follows from the last of them. -/

section

variable [JsonText] [RequestText] [ArgumentSchema] (env : Environment) (fuel : Nat)
  (path : RunPath) (agent : Agent) (userMessage : String) (options : RunOptions)

/-- An iteration of the run at a place of the tree. -/
def Environment.turn : LoopState → LocalTurn :=
  LoopState.turn (env.execute (runAgent env fuel) path agent) (env.script path) options.deadline

/-- The run comes to the head `l` of an iteration. -/
def Environment.Visits (l : LoopState) : Prop :=
  ∃ s, agent.prepareState (env.runId path) (Agent.compileMessages userMessage options) options =
      .ok s ∧ Reaches (env.turn fuel path agent options) (.start s) l

variable {env fuel path agent userMessage options} {result : Except RunError RunResult}
  {l t u : LoopState}

theorem Environment.Visits.next (h : env.Visits fuel path agent userMessage options l)
    (hr : Reaches (env.turn fuel path agent options) l t) :
    env.Visits fuel path agent userMessage options t := by
  obtain ⟨s, hs, hl⟩ := h
  exact ⟨s, hs, hl.trans hr⟩

theorem Environment.Visits.eq_of_stops (ht : env.Visits fuel path agent userMessage options t)
    (hu : env.Visits fuel path agent userMessage options u)
    (hstop : ∀ v, env.turn fuel path agent options t ≠ .next v)
    (hstop' : ∀ v, env.turn fuel path agent options u ≠ .next v) : t = u := by
  obtain ⟨s, hs, ht⟩ := ht
  obtain ⟨s', hs', hu⟩ := hu
  rw [hs, Except.ok.injEq] at hs'
  subst hs'
  exact ht.eq_of_stops hu hstop hstop'

theorem Environment.Visits.runHead (h : env.Visits fuel path agent userMessage options l) :
    ∃ s, agent.prepareState (env.runId path) (Agent.compileMessages userMessage options) options =
      .ok s ∧ RunHead s l := by
  obtain ⟨s, hs, hl⟩ := h
  exact ⟨s, hs, .of_reaches (Agent.fresh_of_prepareState hs) hl⟩

/-- The report of an ended run: its state could not be prepared, or a turn from the last head
ended it. -/
theorem runAgent_ended
    (h : (runAgent env (fuel + 1) path agent userMessage options).result = some result) :
    (∃ e, agent.prepareState (env.runId path) (Agent.compileMessages userMessage options) options =
        .error e ∧ result = .error e ∧
        (runAgent env (fuel + 1) path agent userMessage options).status = .failed ∧
        (runAgent env (fuel + 1) path agent userMessage options).events =
          [.statusChanged .failed] ∧
        (runAgent env (fuel + 1) path agent userMessage options).usage = .new) ∨
      ∃ t l, env.Visits fuel path agent userMessage options t ∧
        env.turn fuel path agent options t = .ended l result ∧
        (runAgent env (fuel + 1) path agent userMessage options).status =
          (settle l.status l.events (!result.isOk)).1 ∧
        (runAgent env (fuel + 1) path agent userMessage options).events =
          (settle l.status l.events (!result.isOk)).2 ∧
        (runAgent env (fuel + 1) path agent userMessage options).usage = l.usage := by
  unfold runAgent startRun at h ⊢
  cases hs : agent.prepareState (env.runId path) (Agent.compileMessages userMessage options)
      options with
  | error e =>
    simp only [hs] at h
    exact .inl ⟨e, rfl, (Option.some.inj h).symm, rfl, rfl, rfl⟩
  | ok s =>
    obtain ⟨l, ended, hd⟩ : ∃ l ended,
        drive (LoopState.turn (env.execute (runAgent env fuel) path agent) (env.script path)
          options.deadline) fuel (.start s) = (l, ended) := ⟨_, _, rfl⟩
    simp only [hs, hd] at h ⊢
    subst h
    obtain ⟨t, hr, hend⟩ := reaches_of_drive hd
    exact .inr ⟨t, l, ⟨s, hs, hr⟩, hend, rfl, rfl, rfl⟩

end

end Agentive
