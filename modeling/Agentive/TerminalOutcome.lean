import Agentive.RunHeads

/-! The outcome of a run as its result, its handle and its events show it. The three agree unless
a provider call is refused for its tokens, or the final text comes after the deadline. -/

namespace Agentive

open AgentRunState DriverLoop

/-- The handle and the events show one terminal status, that of the result, and show it last. A
run that ends with an error is shown as failed. -/
def OneOutcome (status : RunStatus) (events : List RunEvent) : Except RunError RunResult → Prop
  | .ok result =>
    status = result.status ∧ terminalStatuses events = [result.status] ∧
      events.getLast? = some (.statusChanged result.status)
  | .error _ => status = .failed ∧ terminalStatuses events = [.failed]

def RunReport.OneOutcome (report : RunReport) : Prop :=
  ∀ result, report.result = some result → Agentive.OneOutcome report.status report.events result

/-- The reservation for the next provider call is more than the tokens that are left. -/
def AgentRunState.overBudget [RequestText] (agent : Agent) (s : AgentRunState) : Bool :=
  let request := s.nextModelRequest (providerEffectId s.runId s.modelCalls)
  match validateContext agent.provider s.plan.contextEstimate s.plan.providerEnforcedLimitOptOut
      request with
  | .error _ => false
  | .ok promptTokens =>
    match s.attemptReservation request promptTokens with
    | .error _ => false
    | .ok reservation => s.reservationRefused reservation

theorem AgentRunState.overBudget_of_tokenLimit_none [RequestText] {agent : Agent}
    {s : AgentRunState} (h : s.plan.tokenLimit = none) : s.overBudget agent = false := by
  simp only [overBudget]
  split
  · rfl
  · split
    · rfl
    · simp [reservationRefused, h]

namespace LoopState

/-- The iterations after which result, handle and events fall apart: a provider call is due, and
it is refused, or it brings the final text when the deadline has passed. -/
structure Splits [RequestText] (agent : Agent)
    (execute : Nat → AgentRunState → AgentRunEffect → EffectReport)
    (scripts : Nat → IterationScript) (deadline : Option Duration) (l : LoopState) : Prop where
  uncancelled : (scripts l.iteration).cancelled = false
  unexhausted : l.state.finishIfExhausted.2 = false
  turn : l.state.ProviderTurn
  cause : l.state.overBudget agent = true ∨
    (deadline.any (fun d => d ≤ (scripts l.iteration).sinceStart) = true ∧
      ∃ response attempts,
        (execute l.iteration l.state l.state.providerEffect).outcome =
          some (.ok (.provider response attempts)) ∧ response.text.isSome = true)

/-- If the turn ends the run, the outcome of the run is one. -/
def Settles (t : LocalTurn) : Prop :=
  ∀ l result, t = .ended l result →
    OneOutcome (settle l.status l.events (!result.isOk)).1
      (settle l.status l.events (!result.isOk)).2 result

variable {l : LoopState}

theorem oneOutcome_announced {status : RunStatus} {events : List RunEvent} {result : RunResult}
    (hquiet : terminalStatuses events = []) (hstatus : result.status = status)
    (hterminal : status.isActive = false) :
    OneOutcome status (events ++ [.statusChanged status]) (.ok result) := by
  refine ⟨hstatus.symm, ?_, by simp [hstatus]⟩
  rw [terminalStatuses_append, hquiet, terminalStatuses_statusChanged hterminal, hstatus]
  rfl

theorem settles_error {e : RunError} (hrunning : l.status = .running)
    (hquiet : terminalStatuses l.events = []) : Settles (.ended l (.error e)) := by
  rintro _ _ h
  cases h
  have hsettle : settle l.status l.events true =
      (.failed, l.events ++ [.statusChanged .failed]) := by
    simp [settle, hrunning, RunStatus.isActive]
  show OneOutcome (settle l.status l.events true).1 (settle l.status l.events true).2 _
  rw [hsettle]
  refine ⟨rfl, ?_⟩
  rw [terminalStatuses_append, hquiet, terminalStatuses_statusChanged rfl]
  rfl

theorem settles_failWith {e : RunError} (hquiet : terminalStatuses l.events = []) :
    Settles (l.failWith e) := by
  rintro _ _ h
  cases h
  refine ⟨rfl, ?_⟩
  show terminalStatuses (l.events ++ [.statusChanged .failed]) = _
  rw [terminalStatuses_append, hquiet, terminalStatuses_statusChanged rfl]
  rfl

theorem settles_finishCancelled (hactive : l.state.status.isActive = true)
    (hquiet : terminalStatuses l.events = []) : Settles l.finishCancelled := by
  rintro _ _ h
  cases h
  have hstatus : (resultFromState l.state.cancel l.records).status = .cancelled := by
    simp [resultFromState, AgentRunState.cancel, hactive]
  simpa [settle, announce, Except.isOk, Except.toBool] using
    oneOutcome_announced hquiet hstatus rfl

theorem settles_announced {status : RunStatus} (hstatus : l.state.status = status)
    (hterminal : status.isActive = false) (hquiet : terminalStatuses l.events = []) :
    Settles (l.announce status).finishWithUsage := by
  rintro _ _ h
  cases h
  have hresult : (resultFromState l.state l.records).status = status := hstatus
  simpa [settle, announce, Except.isOk, Except.toBool] using
    oneOutcome_announced hquiet hresult hterminal

theorem settles_completed {text : String} (hquiet : terminalStatuses l.events = []) :
    Settles (.ended (announce { l with usage := l.state.usage } .completed)
      (.ok (l.completedResult text))) := by
  rintro _ _ h
  cases h
  have hresult : (l.completedResult text).status = .completed := rfl
  simpa [settle, announce, Except.isOk, Except.toBool] using
    oneOutcome_announced hquiet hresult rfl

theorem not_settles {result : RunResult} (hne : l.status ≠ result.status) :
    ¬ Settles (.ended l (.ok result)) := by
  intro hsettles
  have hone := hsettles l (.ok result) rfl
  exact hne hone.1

theorem not_settles_finishCancelled (hended : l.state.status.isActive = false)
    (hstatus : l.state.status ≠ .cancelled) :
    ¬ Settles l.finishCancelled := by
  refine not_settles ?_
  have hcancel : l.state.cancel = l.state := by simp [AgentRunState.cancel, hended]
  simpa [announce, resultFromState, hcancel] using fun h => hstatus h.symm

end LoopState

section

variable [RequestText] [ArgumentSchema] {agent : Agent}
  {runChild : Nat → Agent → String → RunOptions → RunReport} {script : EffectScript}
  {s : AgentRunState}

/-- A provider call is refused exactly when its reservation is over the budget. -/
theorem AgentRunState.overBudget_iff : s.overBudget agent = true ↔
    ∃ required, (executeAdmitted agent runChild script s s.providerEffect).outcome =
      some (.ok (.providerBudgetExhausted required)) := by
  simp only [overBudget, providerEffect, executeAdmitted, executeProvider]
  cases hv : validateContext agent.provider s.plan.contextEstimate
      s.plan.providerEnforcedLimitOptOut
      (s.nextModelRequest (providerEffectId s.runId s.modelCalls)) with
  | error e => simp [EffectReport.ended]
  | ok promptTokens =>
    cases hr : s.attemptReservation (s.nextModelRequest (providerEffectId s.runId s.modelCalls))
        promptTokens with
    | error e => simp [EffectReport.ended, hr]
    | ok reservation =>
      cases hx : s.reservationRefused reservation with
      | true => simp [EffectReport.ended, hr, hx]
      | false =>
        simp only [hr, hx, Bool.false_eq_true, if_false, false_iff, not_exists]
        intro required ho
        rcases (attemptLoop_outcome rfl ho).2 with ⟨_, _, h⟩ | ⟨_, h⟩ <;> simp at h

variable [JsonText]

theorem executeEffect_eq_executeAdmitted {e : AgentRunEffect}
    (hhistory : validateEffectStateHistory s = .ok ()) (hplan : agent.validateStatePlan s = .ok ())
    (he : s.nextEffect = some e) :
    executeEffect agent runChild script s e = executeAdmitted agent runChild script s e := by
  simp [executeEffect, hhistory, hplan, he]

theorem AgentRunState.overBudget_of_executeEffect {required : U64}
    (h : (executeEffect agent runChild script s s.providerEffect).outcome =
      some (.ok (.providerBudgetExhausted required))) : s.overBudget agent = true := by
  rcases executeEffect_cases agent runChild script s s.providerEffect with
    ⟨_, hx⟩ | ⟨_, _, _, hx⟩ <;> rw [hx] at h
  · simp [EffectReport.ended] at h
  · exact overBudget_iff.mpr ⟨required, h⟩

end

section

variable [JsonText] [RequestText] [ArgumentSchema] {env : Environment}
  {run : RunPath → Agent → String → RunOptions → RunReport} {path : RunPath} {agent : Agent}
  {scripts : Nat → IterationScript} {deadline : Option Duration} {s₀ : AgentRunState}
  {l l' : LoopState}

/-- Where an iteration does not split the outcome, its commit leaves an active run or brings the
text in time. -/
theorem LoopState.active_or_text {e : AgentRunEffect} {o : AgentEffectOutcome} {s : AgentRunState}
    (hactive : l.state.status.isActive = true)
    (hsplits : ¬ l.Splits agent (env.execute run path agent) scripts deadline)
    (hcancelled : (scripts l.iteration).cancelled = false)
    (hx : l.state.finishIfExhausted = (l.state, false)) (he : l.state.nextEffect = some e)
    (ho : (env.execute run path agent l.iteration l.state e).outcome = some (.ok o))
    (hcommit : (l.state.recordElapsed (scripts l.iteration).elapsedMs).commitEffect e.effectId o =
      (s, .ok ()))
    (hfailure : o.isProviderFailure = false) :
    s.status.isActive = true ∨
      deadline.any (fun d => d ≤ (scripts l.iteration).sinceStart) = false ∧ s.text ≠ none := by
  have hc : Committed (l.state.recordElapsed (scripts l.iteration).elapsedMs) e o s :=
    committed_of_nextEffect he hcommit
  rcases hc.status_cases (executeEffect_accepted ho) with
    ⟨response, attempts, text, rfl, hr, _, hsome, _, ht⟩ | ⟨_, _, _, hrunning, _, _⟩ |
    ⟨hf, _, _⟩ | ⟨required, rfl, _, ht⟩ | ⟨_, _, hsame, _⟩
  · refine .inr ⟨?_, by simp [hsome]⟩
    rw [Bool.eq_false_iff]
    intro hd
    obtain ⟨hturn, rfl⟩ := AgentRunState.nextEffect_idle he ht.idle
    exact hsplits
      ⟨hcancelled, by rw [hx], hturn, .inr ⟨hd, response, attempts, ho, by simp [hr]⟩⟩
  · exact .inl (by simp [hrunning, RunStatus.isActive])
  · simp [hf] at hfailure
  · obtain ⟨hturn, rfl⟩ := AgentRunState.nextEffect_idle he ht.idle
    have hover := AgentRunState.overBudget_of_executeEffect ho
    exact absurd ⟨hcancelled, by rw [hx], hturn, .inl hover⟩ hsplits
  · exact .inl (hsame ▸ hactive)

theorem RunHead.settles_turn (h : RunHead s₀ l) (hactive : l.state.status.isActive = true)
    (hsplits : ¬ l.Splits agent (env.execute run path agent) scripts deadline) :
    LoopState.Settles (l.turn (env.execute run path agent) scripts deadline) := by
  have ht := LoopState.turns (env.execute run path agent) scripts deadline l
  generalize l.turn (env.execute run path agent) scripts deadline = t at ht
  have hquiet (e : AgentRunEffect) : terminalStatuses
      (l.absorb e (env.execute run path agent l.iteration l.state e)).events = [] :=
    (terminalStatuses_absorb e).trans h.quiet
  have hcompleted (e : AgentRunEffect) (o : AgentEffectOutcome) :
      terminalStatuses ((l.absorb e (env.execute run path agent l.iteration l.state e)).emit
        (completedEvents e o)).events = [] := by
    show terminalStatuses (_ ++ completedEvents e o) = []
    rw [terminalStatuses_append, hquiet, terminalStatuses_completedEvents]
    rfl
  cases ht with
  | cancelled => exact LoopState.settles_finishCancelled hactive h.quiet
  | exhausted s hx =>
    refine LoopState.settles_announced (l := { l with state := s }) rfl ?_ h.quiet
    rcases (AgentRunState.finishIfExhausted_eq_true hx).2 with ⟨_, _, hs⟩ | ⟨_, _, hs⟩ <;>
      simp [hs, RunStatus.isActive]
  | idle hx hn => exact absurd hn (AgentRunState.nextEffect_ne_none hactive hx)
  | blocked => rintro _ _ ⟨⟩
  | interrupted e => exact LoopState.settles_finishCancelled hactive (hquiet e)
  | failed e => exact LoopState.settles_failWith (hquiet e)
  | completed e o t hcancelled hx he ho hcompletes =>
    cases hcompletes with
    | refused => exact LoopState.settles_error h.running (hcompleted e o)
    | invalid => exact LoopState.settles_error h.running (hcompleted e o)
    | failed records s hcommit hf =>
      refine LoopState.settles_announced ?_ rfl (hcompleted e o)
      have hc : Committed (l.state.recordElapsed (scripts l.iteration).elapsedMs) e o s :=
        committed_of_nextEffect he hcommit
      rcases hc.status_cases (executeEffect_accepted ho) with
        ⟨_, _, _, rfl, _⟩ | ⟨_, _, rfl, _⟩ | ⟨_, hs, _⟩ | ⟨_, rfl, _⟩ | ⟨_, hnot, _⟩
      · cases hf
      · cases hf
      · exact hs
      · cases hf
      · simp [hnot] at hf
    | committed records s hcommit hf hv =>
      have hstatus := LoopState.active_or_text hactive hsplits hcancelled hx he ho hcommit hf
      rcases LoopState.afterCommit_cases deadline (scripts l.iteration)
          (((l.absorb e (env.execute run path agent l.iteration l.state e)).emit
            (completedEvents e o)).commitTo e o records s) with
        ⟨hd, hafter⟩ | ⟨_, _, hafter⟩ | ⟨_, text, _, hafter⟩ <;> rw [hafter]
      · refine LoopState.settles_finishCancelled ?_ (hcompleted e o)
        exact hstatus.resolve_right fun hlate => by simp [hlate.1] at hd
      · rintro _ _ ⟨⟩
      · exact LoopState.settles_completed (hcompleted e o)

theorem LoopState.Advances.active (hactive : l.state.status.isActive = true)
    (hsplits : ¬ l.Splits agent (env.execute run path agent) scripts deadline)
    (hstep : LoopState.Advances (env.execute run path agent) scripts deadline l l') :
    l'.state.status.isActive = true := by
  cases hstep with
  | intro e o records s hcancelled hx he ho hcommit hf _ _ htext =>
    have hlate := LoopState.active_or_text hactive hsplits hcancelled hx he ho hcommit hf
    exact hlate.resolve_right fun hlate => hlate.2 htext

/-- A run that goes on in an incomplete state ends at the next head of its loop, and its handle
does not show that state. -/
theorem RunHead.not_settles_turn (h : RunHead s₀ l) (hincomplete : l.state.status = .incomplete) :
    ¬ LoopState.Settles (l.turn (env.execute run path agent) scripts deadline) := by
  have hended : l.state.status.isActive = false := by simp [hincomplete, RunStatus.isActive]
  have hidle (e : AgentRunEffect) : l.state.nextEffect ≠ some e := fun he => by
    simp [active_of_nextEffect he] at hended
  have ht := LoopState.turns (env.execute run path agent) scripts deadline l
  generalize l.turn (env.execute run path agent) scripts deadline = t at ht
  cases ht with
  | cancelled => exact LoopState.not_settles_finishCancelled hended (by simp [hincomplete])
  | exhausted s hx => simp [(AgentRunState.finishIfExhausted_eq_true hx).1] at hended
  | idle =>
    refine LoopState.not_settles ?_
    simp [h.running, resultFromState, hincomplete]
  | blocked e he => exact absurd he (hidle e)
  | interrupted e he => exact absurd he (hidle e)
  | failed e _ he => exact absurd he (hidle e)
  | completed e _ _ _ _ he => exact absurd he (hidle e)

/-- An iteration that splits the outcome ends the run so, or the next one does. -/
theorem RunHead.splits (h : RunHead s₀ l) (hplan : agent.validateStatePlan s₀ = .ok ())
    (hsplits : l.Splits agent (env.execute run path agent) scripts deadline) :
    ∃ t, Reaches (LoopState.turn (env.execute run path agent) scripts deadline) l t ∧
      ¬ LoopState.Settles (t.turn (env.execute run path agent) scripts deadline) := by
  obtain ⟨hcancelled, hx, hturn, hcause⟩ := hsplits
  have hself := AgentRunState.finishIfExhausted_eq_self hx
  have hturn' : (l.state.recordElapsed (scripts l.iteration).elapsedMs).ProviderTurn :=
    ⟨hturn.active, hturn.idle, hturn.budget⟩
  rcases hcause with hover | ⟨hd, response, attempts, ho, htext⟩
  · have hchecked : agent.validateStatePlan l.state = .ok () := by
      simpa [Agent.validateStatePlan, h.plan] using hplan
    obtain ⟨required, ho⟩ := AgentRunState.overBudget_iff.mp hover
    rw [← executeEffect_eq_executeAdmitted (h.validateEffectStateHistory hturn.idle) hchecked
      hturn.nextEffect] at ho
    have ho : (env.execute run path agent l.iteration l.state l.state.providerEffect).outcome =
        some (.ok (.providerBudgetExhausted required)) := ho
    obtain ⟨records, hnext⟩ := LoopState.turn_eq_afterCommit hcancelled hself hturn.nextEffect ho
      (.inl rfl) rfl (.exhausted required hturn')
    rcases LoopState.afterCommit_cases deadline (scripts l.iteration) _ with
      ⟨_, hafter⟩ | ⟨hd, htext, hafter⟩ | ⟨_, text, htext, _⟩
    · refine ⟨l, .refl, ?_⟩
      rw [hnext, hafter]
      exact LoopState.not_settles_finishCancelled rfl (by simp [LoopState.commitTo, markIncomplete])
    · rw [hafter] at hnext
      refine ⟨_, .single hnext, ?_⟩
      exact (h.advances (LoopState.advances_of_turn hnext)).not_settles_turn rfl
    · exact absurd (h.text.symm.trans htext) (by simp)
  · obtain ⟨records, hnext⟩ := LoopState.turn_eq_afterCommit hcancelled
      hself hturn.nextEffect ho (.inl rfl) rfl (.response response attempts hturn')
    have hcompleted : ((l.state.recordElapsed (scripts l.iteration).elapsedMs).acceptResponse
        response attempts).status = .completed := by
      have ha : Accepted l.state.providerEffect (.provider response attempts) :=
        executeEffect_accepted ho
      rcases validateModelResponse_cases ha with ⟨text, hr, _, hnil⟩ | ⟨hnone, _, _⟩
      · simp [acceptResponse, applyResponse, hnil, hr]
      · simp [hnone] at htext
    refine ⟨l, .refl, ?_⟩
    rw [hnext]
    simp only [LoopState.afterCommit, hd, if_true]
    refine LoopState.not_settles_finishCancelled ?_ ?_ <;>
      simp [LoopState.commitTo, hcompleted, RunStatus.isActive]

end

/-- As long as no iteration has split the outcome, the run is at the head of an active state. -/
theorem Environment.Visits.active [JsonText] [RequestText] [ArgumentSchema] {env : Environment}
    {fuel : Nat} {path : RunPath} {agent : Agent} {userMessage : String} {options : RunOptions}
    {t : LoopState} (h : env.Visits fuel path agent userMessage options t)
    (hall : ∀ l, env.Visits fuel path agent userMessage options l →
      ¬ l.Splits agent (env.execute (runAgent env fuel) path agent) (env.script path)
        options.deadline) :
    ∃ s, RunHead s t ∧ t.state.status.isActive = true := by
  obtain ⟨s, hs, hr⟩ := h
  have hfresh := Agent.fresh_of_prepareState hs
  have hinv : env.Visits fuel path agent userMessage options t ∧ RunHead s t ∧
      t.state.status.isActive = true := by
    refine Reaches.invariant (I := fun u => env.Visits fuel path agent userMessage options u ∧
      RunHead s u ∧ u.state.status.isActive = true) hr ⟨⟨s, hs, .refl⟩, .start hfresh, ?_⟩ ?_
    · simp [LoopState.start, hfresh.status, RunStatus.isActive]
    · rintro u v ⟨hu, hhead, hactive⟩ hnext
      have hstep := LoopState.advances_of_turn hnext
      exact ⟨hu.next (.single hnext), hhead.advances hstep, hstep.active hactive (hall u hu)⟩
  exact ⟨s, hinv.2⟩

/-- The outcome of a run that has ended is one exactly when no iteration splits it. -/
theorem one_outcome_iff [JsonText] [RequestText] [ArgumentSchema] (env : Environment) (fuel : Nat)
    (path : RunPath) (agent : Agent) (userMessage : String) (options : RunOptions)
    (hended : (runAgent env (fuel + 1) path agent userMessage options).result.isSome = true) :
    (runAgent env (fuel + 1) path agent userMessage options).OneOutcome ↔
      ∀ l, env.Visits fuel path agent userMessage options l →
        ¬ l.Splits agent (env.execute (runAgent env fuel) path agent) (env.script path)
          options.deadline := by
  obtain ⟨result, hresult⟩ := Option.isSome_iff_exists.mp hended
  rcases runAgent_ended hresult with
    ⟨e, hs, rfl, hstatus, hevents, _⟩ | ⟨t, l, hvisits, hend, hstatus, hevents, _⟩
  · constructor
    · rintro _ l ⟨s, hs', _⟩
      simp [hs] at hs'
    · intro _ r hr
      obtain rfl := Option.some.inj (hresult.symm.trans hr)
      rw [hstatus, hevents]
      exact ⟨rfl, rfl⟩
  · have hstop (v : LoopState) : env.turn fuel path agent options t ≠ .next v := by simp [hend]
    constructor
    · intro hone u hu hsplits
      obtain ⟨s, hs, hhead⟩ := hu.runHead
      have hplan : agent.validateStatePlan s = .ok () := by
        obtain ⟨_, _, rfl⟩ := Agent.prepareState_eq_ok_iff.mp hs
        exact agent.validateStatePlan_withPlan _ _ _ _
      obtain ⟨v, hr, hnot⟩ := hhead.splits hplan hsplits
      have hv := hu.next hr
      have hstop' (w : LoopState) : env.turn fuel path agent options v ≠ .next w := fun hw =>
        hnot fun _ _ hx => by simp [show LoopState.turn _ _ _ v = _ from hw] at hx
      obtain rfl := hvisits.eq_of_stops hv hstop hstop'
      refine hnot fun l' result' hx => ?_
      obtain ⟨rfl, rfl⟩ := Turn.ended.inj (hend.symm.trans hx)
      rw [← hstatus, ← hevents]
      exact hone result hresult
    · intro hall r hr
      obtain rfl := Option.some.inj (hresult.symm.trans hr)
      obtain ⟨s, hhead, hactive⟩ := hvisits.active hall
      rw [hstatus, hevents]
      exact hhead.settles_turn hactive (hall t hvisits) l result hend

theorem one_outcome_sample :
    let _ := Sample.jsonText
    let _ := Sample.requestText
    let _ := Sample.argumentSchema
    (runAgent
      (Sample.environment fun _ =>
        Sample.iteration [Sample.answering (Sample.textResponse "hi")] [])
      2 [] (Sample.agent false) "hello" {}).OneOutcome := by
  intro _ _ _
  refine (one_outcome_iff _ 1 [] (Sample.agent false) "hello" {} (by decide +kernel)).mpr ?_
  rintro l hl ⟨_, _, _, hover | ⟨hd, _⟩⟩
  · obtain ⟨s, hs, hhead⟩ := hl.runHead
    obtain ⟨_, _, rfl⟩ := Agent.prepareState_eq_ok_iff.mp hs
    have hlimit : l.state.plan.tokenLimit = none := by rw [hhead.plan]; rfl
    simp [overBudget_of_tokenLimit_none hlimit] at hover
  · cases hd

/-- A run whose first provider call is refused for its tokens has an incomplete result, and its
handle still shows it as running. -/
theorem outcome_split_by_refusal :
    ¬ ∀ (_ : JsonText) (_ : RequestText) (_ : ArgumentSchema) (env : Environment) (fuel : Nat)
      (path : RunPath) (agent : Agent) (userMessage : String) (options : RunOptions),
      (runAgent env fuel path agent userMessage options).OneOutcome := by
  intro claim
  let _ := Sample.jsonText
  let _ := Sample.requestText
  let _ := Sample.argumentSchema
  obtain ⟨report, hreport⟩ : ∃ report, report = runAgent
      (Sample.environment fun _ =>
        Sample.iteration [Sample.answering (Sample.textResponse "hi")] [])
      3 [] (Sample.agent false) "hello" { tokenLimit := some 5 } := ⟨_, rfl⟩
  have hone : report.OneOutcome := hreport ▸ claim _ _ _ _ _ _ _ _ _
  have hstatus : report.status = .running := by
    rw [hreport]
    decide +kernel
  have hresult : report.result.map (fun r => r.toOption.map (·.status)) =
      some (some .incomplete) := by
    rw [hreport]
    decide +kernel
  cases hr : report.result with
  | none => simp [hr] at hresult
  | some result =>
    have h := hone result hr
    cases result with
    | error e => simp [hr, Except.toOption] at hresult
    | ok result =>
      simp only [hr, Except.toOption, Option.map_some, Option.some.injEq] at hresult
      simp [OneOutcome, hstatus, hresult] at h

end Agentive
