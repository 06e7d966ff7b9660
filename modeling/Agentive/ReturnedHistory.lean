import Agentive.RunHeads

/-! The history that a run returns: a later run takes it up again unless the run was cut off
between the calls of a response and their results. -/

namespace Agentive

open AgentRunState DriverLoop

/-- What a later run asks of a returned history, and what the returned history keeps of the
messages with which its run started. -/
structure Reusable [JsonText] (messages history : List Message) : Prop where
  valid : validateHistory history = .ok ()
  kept : messages <+: history
  prepares : ∀ (agent : Agent) (runId userMessage : String) (options : RunOptions),
    options.history = history → options.model.any isBlank = false →
    ∃ s, agent.prepareState runId (Agent.compileMessages userMessage options) options = .ok s

/-- Every result that the run reports has a history that can be used again. -/
def RunReport.ReturnsReusable [JsonText] (messages : List Message) (report : RunReport) : Prop :=
  ∀ result, report.result = some (.ok result) → Reusable messages result.history

theorem validateHistory_concat_user [JsonText] {history : List Message}
    (h : validateHistory history = .ok ()) (text : String) :
    validateHistory (history ++ [.user text]) = .ok () := by
  obtain ⟨hshaped, hscan⟩ := validateHistory_eq_ok_iff.mp h
  refine validateHistory_eq_ok_iff.mpr ⟨?_, ?_⟩
  · have huser : WellShaped (.user text) := by
      simp [WellShaped, validateMessageShape, Message.user]
    simpa only [List.forall_mem_append, List.forall_mem_singleton] using ⟨hshaped, huser⟩
  · rw [scanHistory_concat _ hscan]
    rfl

theorem reusable_of_validateHistory [JsonText] {messages history : List Message}
    (hv : validateHistory history = .ok ()) (hkept : messages <+: history) :
    Reusable messages history := by
  refine ⟨hv, hkept, fun agent runId userMessage options hhistory hmodel => ?_⟩
  have hnext : validateHistory (Agent.compileMessages userMessage options) = .ok () := by
    rw [Agent.compileMessages, hhistory]
    exact validateHistory_concat_user hv userMessage
  exact ⟨_, Agent.prepareState_eq_ok_iff.mpr ⟨hmodel, hnext, rfl⟩⟩

namespace LoopState

/-- The run is cut off while calls wait for a result: the flag is seen or the time is over at the
head of an iteration, a tool is interrupted, or the time is over after a completion. -/
inductive CutsRound [JsonText] [RequestText]
    (execute : Nat → AgentRunState → AgentRunEffect → EffectReport)
    (scripts : Nat → IterationScript) (deadline : Option Duration) (l : LoopState) : Prop
  | flagged : (scripts l.iteration).cancelled = true → l.state.pendingTools ≠ [] →
      CutsRound execute scripts deadline l
  | expired : l.state.deadlineReached = true → l.state.pendingTools ≠ [] →
      CutsRound execute scripts deadline l
  | interrupted (e : AgentRunEffect) : l.state.nextEffect = some e →
      (execute l.iteration l.state e).outcome = some (.error .cancelled) →
      l.state.pendingTools ≠ [] → CutsRound execute scripts deadline l
  | overrun (e : AgentRunEffect) (o : AgentEffectOutcome) :
      (scripts l.iteration).cancelled = false → l.state.finishIfExhausted.2 = false →
      l.state.nextEffect = some e → (execute l.iteration l.state e).outcome = some (.ok o) →
      deadline.any (fun d => d ≤ (scripts l.iteration).sinceStart) = true →
      l.state.callsAfter o ≠ [] → CutsRound execute scripts deadline l

end LoopState

theorem callsAfter_recordElapsed (s : AgentRunState) (elapsedMs : U64) (o : AgentEffectOutcome) :
    (s.recordElapsed elapsedMs).callsAfter o = s.callsAfter o := by
  cases o <;> rfl

theorem pendingTools_cancel (s : AgentRunState) : s.cancel.pendingTools = s.pendingTools :=
  (sameLedger_cancel s).pendingTools

theorem callsAfter_of_committed [JsonText] [RequestText] {s s' : AgentRunState} {elapsedMs : U64}
    {e : AgentRunEffect} {o : AgentEffectOutcome}
    (hc : Committed (s.recordElapsed elapsedMs) e o s') :
    s'.pendingTools = s.callsAfter o :=
  hc.pendingTools_eq.trans (callsAfter_recordElapsed s elapsedMs o)

/-- With waiting calls only the end of the time exhausts a run. -/
theorem finishIfExhausted_of_pending {s : AgentRunState} (hp : s.pendingTools ≠ [])
    (hd : s.deadlineReached = false) : s.finishIfExhausted = (s, false) := by
  have hempty : s.pendingTools.isEmpty = false := by simpa using hp
  simp [finishIfExhausted, hd, hempty]

theorem LoopState.finishCancelled_of_pending {l : LoopState} (hp : l.state.pendingTools ≠ []) :
    ∃ l' result, l.finishCancelled = .ended l' (.ok result) ∧ l'.state.pendingTools ≠ [] := by
  refine ⟨_, _, rfl, ?_⟩
  show l.state.cancel.pendingTools ≠ []
  rwa [pendingTools_cancel]

section

variable [JsonText] [RequestText] {s₀ : AgentRunState} {l l' : LoopState}

theorem RunHead.active_of_pending (h : RunHead s₀ l) (hp : l.state.pendingTools ≠ []) :
    l.state.status.isActive = true := by
  by_contra hended
  exact hp (h.closed (by simpa using hended))

variable [ArgumentSchema] {env : Environment}
  {run : RunPath → Agent → String → RunOptions → RunReport} {path : RunPath} {agent : Agent}
  {scripts : Nat → IterationScript} {deadline : Option Duration}

theorem ended_of_overrun {e : AgentRunEffect} {o : AgentEffectOutcome}
    (hflag : (scripts l.iteration).cancelled = false) (hx : l.state.finishIfExhausted.2 = false)
    (he : l.state.nextEffect = some e)
    (ho : (env.execute run path agent l.iteration l.state e).outcome = some (.ok o))
    (hd : deadline.any (fun d => d ≤ (scripts l.iteration).sinceStart) = true)
    (hcalls : l.state.callsAfter o ≠ []) :
    ∃ l' result, l.turn (env.execute run path agent) scripts deadline = .ended l' (.ok result) ∧
      l'.state.pendingTools ≠ [] := by
  obtain ⟨s, hc⟩ := exists_committed (s := l.state.recordElapsed (scripts l.iteration).elapsedMs)
    he (executeEffect_fits ho)
  have hpending : s.pendingTools ≠ [] := by rwa [callsAfter_of_committed hc]
  have hfailure : o.isProviderFailure = false := by
    cases o with
    | providerFailed => exact absurd rfl hcalls
    | _ => rfl
  obtain ⟨records, hturn⟩ : ∃ records, l.turn (env.execute run path agent) scripts deadline =
      (((l.absorb e (env.execute run path agent l.iteration l.state e)).emit
        (completedEvents e o)).commitTo e o records s).afterCommit deadline
          (scripts l.iteration) :=
    LoopState.turn_eq_afterCommit hflag (finishIfExhausted_eq_self hx) he ho (.inr hpending)
      hfailure hc
  rw [hturn, LoopState.afterCommit, if_pos hd]
  exact LoopState.finishCancelled_of_pending hpending

/-- A run that is cut off in a round ends with the calls of this round. -/
theorem RunHead.ended_of_cutsRound (h : RunHead s₀ l)
    (hcut : l.CutsRound (env.execute run path agent) scripts deadline) :
    ∃ l' result, l.turn (env.execute run path agent) scripts deadline = .ended l' (.ok result) ∧
      l'.state.pendingTools ≠ [] := by
  by_cases hflag : (scripts l.iteration).cancelled = true
  · -- the flag wins over whatever else would cut the round, also over an effect not yet executed
    cases hcut with
    | flagged _ hp | expired _ hp | interrupted _ _ _ hp =>
      simpa only [LoopState.turn, hflag, if_true] using LoopState.finishCancelled_of_pending hp
    | overrun e o hunflagged => simp [hflag] at hunflagged
  have hflag : (scripts l.iteration).cancelled = false := by simpa using hflag
  by_cases htime : l.state.deadlineReached = true
  · have hexpired (hp : l.state.pendingTools ≠ []) :
        l.state.finishIfExhausted = (l.state.cancel, true) := by
      simp [finishIfExhausted, htime, h.active_of_pending hp]
    cases hcut with
    | flagged _ hp | expired _ hp | interrupted _ _ _ hp =>
      simp only [LoopState.turn, hflag, hexpired hp, Bool.false_eq_true, if_false, if_true]
      refine ⟨_, _, rfl, ?_⟩
      show l.state.cancel.pendingTools ≠ []
      rwa [pendingTools_cancel]
    | overrun e o _ hx he =>
      have hactive := active_of_nextEffect he
      simp [finishIfExhausted, htime, hactive] at hx
  have htime : l.state.deadlineReached = false := by simpa using htime
  cases hcut with
  | flagged hflagged => simp [hflag] at hflagged
  | expired hexpired => simp [htime] at hexpired
  | interrupted e he ho hp =>
    have hturn : l.turn (env.execute run path agent) scripts deadline =
        (l.absorb e (env.execute run path agent l.iteration l.state e)).finishCancelled := by
      simp only [LoopState.turn, hflag, finishIfExhausted_of_pending hp htime, he, ho,
        Bool.false_eq_true, if_false]
    rw [hturn]
    exact LoopState.finishCancelled_of_pending hp
  | overrun e o _ hx he ho hd hcalls => exact ended_of_overrun hflag hx he ho hd hcalls

theorem RunHead.cutsRound_of_ended {result : RunResult} (h : RunHead s₀ l)
    (hend : l.turn (env.execute run path agent) scripts deadline = .ended l' (.ok result))
    (hp : l'.state.pendingTools ≠ []) :
    l.CutsRound (env.execute run path agent) scripts deadline := by
  have ht := LoopState.turns (env.execute run path agent) scripts deadline l
  generalize l.turn (env.execute run path agent) scripts deadline = t at hend ht
  cases ht with
  | cancelled hflag =>
    cases hend
    exact .flagged hflag (by rwa [← pendingTools_cancel])
  | exhausted s hx hflag =>
    cases hend
    have hp : s.pendingTools ≠ [] := hp
    rcases (finishIfExhausted_eq_true hx).2 with ⟨hd, rfl, _⟩ | ⟨hnil, rfl, _⟩
    · exact .expired hd (by rwa [← pendingTools_cancel])
    · exact absurd hnil hp
  | idle hx hnone hflag =>
    cases hend
    exact absurd hnone (nextEffect_ne_none (h.active_of_pending hp) hx)
  | blocked => cases hend
  | interrupted e he ho =>
    cases hend
    have hp : l.state.cancel.pendingTools ≠ [] := hp
    exact .interrupted e he ho (by rwa [← pendingTools_cancel])
  | failed => cases hend
  | completed e o t hflag hx he ho hcompletes =>
    have hpending {s : AgentRunState}
        (hcommit : (l.state.recordElapsed (scripts l.iteration).elapsedMs).commitEffect
          e.effectId o = (s, .ok ())) : s.pendingTools = l.state.callsAfter o := by
      have hc := committed_of_nextEffect
        (s := l.state.recordElapsed (scripts l.iteration).elapsedMs) he hcommit
      exact callsAfter_of_committed hc
    cases hcompletes with
    | refused => cases hend
    | invalid => cases hend
    | failed records s hcommit hf =>
      cases hend
      have hnone : s.pendingTools = [] := by
        rw [hpending hcommit]
        cases o with
        | providerFailed => rfl
        | _ => cases hf
      exact absurd hnone hp
    | committed records s hcommit hf hv =>
      have hc : Committed (l.state.recordElapsed (scripts l.iteration).elapsedMs) e o s :=
        committed_of_nextEffect he hcommit
      rcases LoopState.afterCommit_cases deadline (scripts l.iteration)
          (((l.absorb e (env.execute run path agent l.iteration l.state e)).emit
            (completedEvents e o)).commitTo e o records s) with
        ⟨hd, hafter⟩ | ⟨_, _, hafter⟩ | ⟨_, text, htext, hafter⟩ <;> rw [hafter] at hend
      · cases hend
        have hp : s.cancel.pendingTools ≠ [] := hp
        rw [pendingTools_cancel, hpending hcommit] at hp
        exact .overrun e o hflag (by rw [hx]) he ho hd hp
      · cases hend
      · cases hend
        exact absurd (hc.completed_of_text (executeEffect_accepted ho) h.text htext).2 hp

end

/-- The history that an ended run returns can be used again exactly when no iteration cuts the
run off in a round. -/
theorem returned_history_reusable_iff [JsonText] [RequestText] [ArgumentSchema]
    (env : Environment) (fuel : Nat) (path : RunPath) (agent : Agent) (userMessage : String)
    (options : RunOptions)
    (hended : (runAgent env (fuel + 1) path agent userMessage options).result.isSome = true) :
    (runAgent env (fuel + 1) path agent userMessage options).ReturnsReusable
        (Agent.compileMessages userMessage options) ↔
      ∀ l, env.Visits fuel path agent userMessage options l →
        ¬ l.CutsRound (env.execute (runAgent env fuel) path agent) (env.script path)
          options.deadline := by
  obtain ⟨result, hresult⟩ := Option.isSome_iff_exists.mp hended
  rcases runAgent_ended hresult with ⟨e, hs, rfl, _⟩ | ⟨t, l, hvisits, hend, _⟩
  · constructor
    · rintro _ l ⟨s, hs', _⟩
      simp [hs] at hs'
    · intro _ result hr
      simp [hresult] at hr
  · obtain ⟨s, hs, hhead⟩ := hvisits.runHead
    constructor
    · intro hreusable u hu hcut
      obtain ⟨_, _, hhead'⟩ := hu.runHead
      obtain ⟨l', result', hend', hp⟩ := hhead'.ended_of_cutsRound hcut
      have hend' : env.turn fuel path agent options u = .ended l' (.ok result') := hend'
      obtain rfl := hvisits.eq_of_stops hu (by simp [hend]) (by simp [hend'])
      obtain ⟨rfl, rfl⟩ := Turn.ended.inj (hend.symm.trans hend')
      have hrun := hhead.ended hend
      have hv := (hreusable result' hresult).valid
      rw [hrun.resultHistory] at hv
      exact hp (hrun.validateHistory_iff.mp hv)
    · intro hnocut r hr
      obtain rfl := Option.some.inj (hresult.symm.trans hr)
      have hrun := hhead.ended hend
      have hidle : l.state.pendingTools = [] := by
        by_contra hp
        exact hnocut t hvisits (hhead.cutsRound_of_ended hend hp)
      have hstart : s.history = Agent.compileMessages userMessage options := by
        obtain ⟨_, _, rfl⟩ := Agent.prepareState_eq_ok_iff.mp hs
        rfl
      rw [hrun.resultHistory]
      exact reusable_of_validateHistory (hrun.validateHistory_iff.mpr hidle)
        (hstart ▸ hrun.history_prefix)

theorem returned_history_reusable_sample :
    let _ := Sample.jsonText
    let _ := Sample.requestText
    let _ := Sample.argumentSchema
    (runAgent
      (Sample.environment fun _ =>
        Sample.iteration [Sample.answering (Sample.textResponse "hi")] [])
      2 [] (Sample.agent false) "hello" {}).ReturnsReusable [.user "hello"] := by
  intro _ _ _
  refine (returned_history_reusable_iff _ 1 [] (Sample.agent false) "hello" {}
    (by decide +kernel)).mpr ?_
  rintro l ⟨s, hs, hr⟩ hcut
  obtain ⟨_, _, rfl⟩ := Agent.prepareState_eq_ok_iff.mp hs
  rcases hr.cases_head with rfl | ⟨v, hnext, _⟩
  · cases hcut with
    | flagged _ hp | expired _ hp | interrupted _ _ _ hp => exact hp rfl
    | overrun _ _ _ _ _ _ hd => cases hd
  · -- the first iteration ends the run
    have hlast := congrArg (fun t : LocalTurn => match t with | .next _ => true | _ => false) hnext
    refine absurd (hlast.trans (b := _) (c := true) rfl) ?_
    decide +kernel

/-- A run whose flag is seen after a response with calls returns these calls without results. -/
theorem returned_history_not_reusable :
    ¬ ∀ (_ : JsonText) (_ : RequestText) (_ : ArgumentSchema) (env : Environment) (fuel : Nat)
      (path : RunPath) (agent : Agent) (userMessage : String) (options : RunOptions),
      (runAgent env fuel path agent userMessage options).ReturnsReusable
        (Agent.compileMessages userMessage options) := by
  intro claim
  let _ := Sample.jsonText
  let _ := Sample.requestText
  let _ := Sample.argumentSchema
  obtain ⟨report, hreport⟩ : ∃ report, report = runAgent
      (Sample.environment fun i =>
        { Sample.iteration
            [Sample.answering (Sample.callsResponse [Sample.call "c" (.object [])])] [] with
          cancelled := i == 1 })
      3 [] (Sample.agent false) "hello" {} := ⟨_, rfl⟩
  have hvalid : report.result.map (fun r =>
      r.toOption.map fun r => (validateHistory r.history).isOk) = some (some false) := by
    rw [hreport]
    decide +kernel
  cases hr : report.result with
  | none => simp [hr] at hvalid
  | some result =>
    cases result with
    | error e => simp [hr, Except.toOption] at hvalid
    | ok result =>
      have hreusable := claim _ _ _ _ _ _ _ _ _ result (hreport ▸ hr)
      simp [hr, Except.toOption, hreusable.valid, Except.isOk, Except.toBool] at hvalid

end Agentive
