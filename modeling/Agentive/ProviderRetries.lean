import Agentive.ProviderEffect

/-! The discipline of provider retries: which attempts an effect makes, and why each but the last
was given up. -/

namespace Agentive

/-- Text or tool-call fragments, which the user may have seen. -/
def RunEvent.isVisibleDelta : RunEvent → Bool
  | .modelDelta _ (.textChunk _) | .modelDelta _ (.toolCallChunk _ _ _) => true
  | _ => false

/-- The attempt failed with an error that may be retried, before the user has seen anything. -/
structure TransportRead.Retryable (read : TransportRead) : Prop where
  error : ∃ e, read.result = .error e ∧ e.isRetryable = true ∧ e.isSafeBeforeOutput = true
  silent : read.events.any (·.isVisibleDelta) = false

/-- What the runtime gets out of a transport call. -/
def TransportCall.read (provider : Provider) (round : U32) (call : TransportCall) :
    TransportRead :=
  executeProviderEffect provider round call.script

theorem readStream_visibleDelta (round : U32)
    (events : List (Except ProviderError ModelStreamEvent)) (streamed : Option ModelTokenUsage) :
    (readStream round events streamed).visibleDelta =
      (readStream round events streamed).events.any (·.isVisibleDelta) := by
  induction events generalizing streamed with
  | nil => rfl
  | cons event rest ih =>
    cases event with
    | error e => rfl
    | ok event =>
      cases event with
      | done response => rfl
      | usage usage => simp [readStream, ih, RunEvent.isVisibleDelta]
      | textChunk text => simp [readStream, RunEvent.isVisibleDelta]
      | toolCallChunk callId name fragment => simp [readStream, RunEvent.isVisibleDelta]

theorem executeProviderEffect_visibleDelta (provider : Provider) (round : U32)
    (script : AttemptScript) :
    (executeProviderEffect provider round script).visibleDelta =
      (executeProviderEffect provider round script).events.any (·.isVisibleDelta) := by
  unfold executeProviderEffect
  split
  · split
    · rfl
    · exact readStream_visibleDelta _ _ _
  · rfl

section

variable {provider : Provider} {round : U32} {providerCallId : String} {reservation : U64}
  {allowed : U32} {script : AttemptScript} {attempt : U8}

theorem attemptStep_eq_retried_iff {source : ProviderError} :
    attemptStep (executeProviderEffect provider round script) script providerCallId attempt
        allowed = .retried source ↔
      (executeProviderEffect provider round script).Retryable ∧
      (executeProviderEffect provider round script).result = .error source ∧
      (∃ cancelled, script.ending = .finished cancelled) ∧ script.retryInterrupted = false ∧
      attempt.cast < allowed := by
  have hvisible := executeProviderEffect_visibleDelta provider round script
  constructor
  · intro h
    unfold attemptStep at h
    split at h
    · cases h
    · cases h
    · next cancelled hending =>
      split at h
      · split at h
        · cases h
        · split at h <;> cases h
      · next e he =>
        split at h
        · next hretry =>
          split at h
          · cases h
          · next hinterrupted =>
            cases h
            simp only [Bool.and_eq_true, Bool.not_eq_true', decide_eq_true_eq] at hretry
            obtain ⟨⟨⟨hretryable, hsafe⟩, hsilent⟩, hlt⟩ := hretry
            exact ⟨⟨⟨_, he, hretryable, hsafe⟩, hvisible ▸ hsilent⟩, he, ⟨cancelled, hending⟩,
              by simpa using hinterrupted, hlt⟩
        · cases h
  · rintro ⟨⟨⟨e, he, hretryable, hsafe⟩, hsilent⟩, hsource, ⟨cancelled, hending⟩, hinterrupted, hlt⟩
    rw [he, Except.error.injEq] at hsource
    subst hsource
    have hdelta := hvisible.trans hsilent
    simp [attemptStep, hending, he, hretryable, hsafe, hdelta, hinterrupted, hlt]

theorem attemptLoop_cases (rest : List AttemptScript) (attempts : List ProviderAttempt) :
    let read := executeProviderEffect provider round script
    let report := attemptLoop provider round providerCallId reservation allowed (script :: rest)
      attempt attempts
    (report.calls = [⟨attempt, reservation, script⟩] ∧ report.events = read.events) ∨
      ∃ source, attemptStep read script providerCallId attempt allowed = .retried source ∧
        let next := attemptLoop provider round providerCallId reservation allowed rest
          (attempt.saturatingAdd 1)
          (attempts ++ [{ attempt, usage := source.usage, reservedTokens := reservation }])
        report.calls = ⟨attempt, reservation, script⟩ :: next.calls ∧
          report.events = read.events ++ next.events := by
  simp only [attemptLoop]
  cases hstep : attemptStep (executeProviderEffect provider round script) script providerCallId
      attempt allowed with
  | retried source => exact .inr ⟨source, rfl, rfl, rfl⟩
  | pending => exact .inl ⟨rfl, by simp [EffectReport.pending]⟩
  | abandoned e => exact .inl ⟨rfl, by simp [EffectReport.ended]⟩
  | answered response => exact .inl ⟨rfl, by simp [EffectReport.ended]⟩
  | failed source => exact .inl ⟨rfl, by simp [EffectReport.ended]⟩

variable (provider round providerCallId reservation) in
/-- The attempts of a loop are numbered on from its first one: below the number of allowed
attempts the counter does not saturate. -/
theorem attemptLoop_numbers (hallowed : allowed.val ≤ 255) (scripts : List AttemptScript)
    (attempt : U8) (attempts : List ProviderAttempt) :
    let calls := (attemptLoop provider round providerCallId reservation allowed scripts attempt
      attempts).calls
    calls.map (·.attempt.val) = List.range' attempt.val calls.length := by
  induction scripts generalizing attempt attempts with
  | nil => rfl
  | cons script rest ih =>
    dsimp only
    rcases attemptLoop_cases rest attempts with ⟨hcalls, _⟩ | ⟨source, hstep, hcalls, _⟩
    · rw [hcalls]
      rfl
    · have hlt := (attemptStep_retried hstep).2
      have hnext : (attempt.saturatingAdd 1).val = attempt.val + 1 := by
        simp only [Capped.val_saturatingAdd, Capped.val_one]
        omega
      have hrest := ih (attempt.saturatingAdd 1)
        (attempts ++ [{ attempt, usage := source.usage, reservedTokens := reservation }])
      rw [hnext] at hrest
      rw [hcalls, List.map_cons, hrest, List.length_cons, List.range'_succ]

theorem attemptLoop_retryable {scripts : List AttemptScript} {attempts : List ProviderAttempt}
    {call : TransportCall}
    (h : call ∈ (attemptLoop provider round providerCallId reservation allowed scripts attempt
      attempts).calls.dropLast) : (call.read provider round).Retryable := by
  induction scripts generalizing attempt attempts with
  | nil => simp [attemptLoop, EffectReport.pending] at h
  | cons script rest ih =>
    rcases attemptLoop_cases rest attempts with ⟨hcalls, _⟩ | ⟨source, hstep, hcalls, _⟩
    · rw [hcalls] at h
      simp at h
    · generalize hnext : (attemptLoop provider round providerCallId reservation allowed rest
        (attempt.saturatingAdd 1) _).calls = next at hcalls
      rw [hcalls] at h
      cases next with
      | nil => simp at h
      | cons second later =>
        rw [List.dropLast_cons_cons, List.mem_cons] at h
        rcases h with rfl | hmem
        · exact (attemptStep_eq_retried_iff.mp hstep).1
        · exact ih (hnext ▸ hmem)

theorem attemptLoop_events (scripts : List AttemptScript) (attempts : List ProviderAttempt) :
    let report := attemptLoop provider round providerCallId reservation allowed scripts attempt
      attempts
    report.events = report.calls.flatMap fun call => (call.read provider round).events := by
  induction scripts generalizing attempt attempts with
  | nil => rfl
  | cons script rest ih =>
    dsimp only
    rcases attemptLoop_cases rest attempts with ⟨hcalls, hevents⟩ | ⟨source, _, hcalls, hevents⟩
    · rw [hcalls, hevents]
      simp [TransportCall.read]
    · rw [hcalls, hevents, List.flatMap_cons, ih]
      rfl

end

/-- The number of attempts that a hard token budget leaves room for, and at least one. -/
def AgentRunState.tokenRoom (s : AgentRunState) (reservation limit : U64) : Nat :=
  Nat.max 1 ((limit.val - s.reservedTokens.val) / Nat.max reservation.val 1)

theorem AgentRunState.allowedAttempts_le (s : AgentRunState) (reservation : U64) :
    (s.allowedAttempts reservation).val ≤ s.plan.providerMaxAttempts.val ∧
    (s.allowedAttempts reservation).val ≤ s.remainingCalls.val ∧
    ∀ limit, s.plan.tokenLimit = some limit →
      (s.allowedAttempts reservation).val ≤ s.tokenRoom reservation limit := by
  have hmin := s.val_allowedAttempts reservation
  refine ⟨by omega, by omega, fun limit hlimit => ?_⟩
  have htoken : (s.tokenAttempts reservation).val ≤
      (limit.val - s.reservedTokens.val) / Nat.max reservation.val 1 := by
    rw [AgentRunState.val_tokenAttempts hlimit]
    exact Nat.min_le_left _ _
  have hroom : (limit.val - s.reservedTokens.val) / Nat.max reservation.val 1 ≤
      s.tokenRoom reservation limit := Nat.le_max_right _ _
  omega

/-- The transport calls of a provider effect: they are numbered from one, stay within the limits of
the plan, and each but the last failed retryably, with nothing shown to the user. -/
structure EffectReport.Disciplined (report : EffectReport) (provider : Provider) (round : U32)
    (s : AgentRunState) (reservation : U64) : Prop where
  numbers : report.calls.map (·.attempt.val) = List.range' 1 report.calls.length
  reservations : ∀ call ∈ report.calls, call.reservation = reservation
  maxAttempts : report.calls.length ≤ Nat.max 1 s.plan.providerMaxAttempts.val
  modelCalls : report.calls.length ≤ Nat.max 1 s.remainingCalls.val
  tokens : ∀ limit, s.plan.tokenLimit = some limit →
    report.calls.length ≤ s.tokenRoom reservation limit
  retried : ∀ call ∈ report.calls.dropLast, (call.read provider round).Retryable
  events : report.events = report.calls.flatMap fun call => (call.read provider round).events

/-- An outcome records the transport calls that the effect made, in their order. -/
structure EffectReport.Recorded (report : EffectReport) (provider : Provider) (round : U32) :
    Prop where
  answered : ∀ response attempts, report.outcome = some (.ok (.provider response attempts)) →
    report.calls ≠ [] ∧ attempts = report.calls.map (·.record provider round)
  failed : ∀ error attempts, report.outcome = some (.ok (.providerFailed error attempts)) →
    report.calls ≠ [] ∧ attempts = report.calls.map (·.record provider round)
  exhausted : ∀ required, report.outcome = some (.ok (.providerBudgetExhausted required)) →
    report.calls = []

theorem EffectReport.disciplined_ended (result : Except RunError AgentEffectOutcome)
    (provider : Provider) (round : U32) (s : AgentRunState) :
    (EffectReport.ended result).Disciplined provider round s 0 where
  numbers := rfl
  reservations := by simp [EffectReport.ended]
  maxAttempts := by simp [EffectReport.ended]
  modelCalls := by simp [EffectReport.ended]
  tokens := by simp [EffectReport.ended]
  retried := by simp [EffectReport.ended]
  events := rfl

theorem attemptLoop_disciplined [RequestText] (provider : Provider) (round : U32)
    (providerCallId : String) (s : AgentRunState) (reservation : U64)
    (scripts : List AttemptScript) :
    (attemptLoop provider round providerCallId reservation (s.allowedAttempts reservation) scripts
      1 []).Disciplined provider round s reservation := by
  obtain ⟨hmax, hcalls, htokens⟩ := s.allowedAttempts_le reservation
  have hcap := s.plan.providerMaxAttempts.le_cap
  have hallowed : (s.allowedAttempts reservation).val ≤ 255 := by omega
  have hone : (1 : U8).val = 1 := rfl
  have hlength := attemptLoop_length provider round providerCallId reservation hallowed scripts 1 []
  rw [hone] at hlength
  have hroom : ∀ limit, 1 ≤ s.tokenRoom reservation limit := fun limit => Nat.le_max_left _ _
  exact
    { numbers := attemptLoop_numbers provider round providerCallId reservation hallowed scripts 1 []
      reservations := fun call hcall => attemptLoop_reservation hcall
      maxAttempts := by
        show _ ≤ Max.max _ _
        omega
      modelCalls := by
        show _ ≤ Max.max _ _
        omega
      tokens := fun limit hlimit => by
        have htoken := htokens limit hlimit
        have hpos := hroom limit
        omega
      retried := fun call hcall => attemptLoop_retryable hcall
      events := attemptLoop_events scripts [] }

theorem executeProvider_recorded [RequestText] (agent : Agent) (s : AgentRunState)
    (request : ModelRequest) (providerCallId : String) (round : U32)
    (scripts : List AttemptScript) :
    (executeProvider agent s request providerCallId round scripts).Recorded agent.provider
      round := by
  generalize hreport : executeProvider agent s request providerCallId round scripts = report
  refine ⟨fun response attempts ho => ?_, fun error attempts ho => ?_, fun required ho => ?_⟩
  · rcases executeProvider_outcome hreport ho with ⟨_, h, _⟩ |
      ⟨_, _, hne, _, _, ⟨_, _, h⟩ | ⟨_, h⟩⟩
    · cases h
    · cases h
      exact ⟨hne, rfl⟩
    · cases h
  · rcases executeProvider_outcome hreport ho with ⟨_, h, _⟩ |
      ⟨_, _, hne, _, _, ⟨_, _, h⟩ | ⟨_, h⟩⟩
    · cases h
    · cases h
    · cases h
      exact ⟨hne, rfl⟩
  · rcases executeProvider_outcome hreport ho with ⟨_, _, hended⟩ |
      ⟨_, _, _, _, _, ⟨_, _, h⟩ | ⟨_, h⟩⟩
    · rw [hended]
      rfl
    · cases h
    · cases h

/-- Whatever the transport does in its attempts, a provider effect makes them with discipline and
records exactly those that it made. What each of them reserves is the reservation of the state for
the prompt of the request, which was not refused. -/
theorem provider_retry_discipline [RequestText] (agent : Agent) (s : AgentRunState)
    (request : ModelRequest) (providerCallId : String) (round : U32)
    (scripts : List AttemptScript) :
    let report := executeProvider agent s request providerCallId round scripts
    (∃ reservation, report.Disciplined agent.provider round s reservation ∧
      (report.calls ≠ [] → ∃ promptTokens,
        validateContext agent.provider s.plan.contextEstimate s.plan.providerEnforcedLimitOptOut
          request = .ok promptTokens ∧
        s.attemptReservation request promptTokens = .ok reservation ∧
        s.reservationRefused reservation = false)) ∧
      report.Recorded agent.provider round := by
  refine ⟨?_, executeProvider_recorded agent s request providerCallId round scripts⟩
  have hended (result : Except RunError AgentEffectOutcome) :
      (EffectReport.ended result).calls = [] := rfl
  rcases executeProvider_cases agent s request providerCallId round scripts with
    ⟨e, _, hp⟩ | ⟨promptTokens, reservation, hv, hr, ⟨_, hp⟩ | ⟨hadmitted, hp⟩⟩ <;> rw [hp]
  · exact ⟨0, EffectReport.disciplined_ended _ _ _ _, fun hne => absurd (hended _) hne⟩
  · exact ⟨0, EffectReport.disciplined_ended _ _ _ _, fun hne => absurd (hended _) hne⟩
  · exact ⟨reservation, attemptLoop_disciplined _ _ _ _ _ _,
      fun _ => ⟨promptTokens, hv, hr, hadmitted⟩⟩

/-- A stream that fails before it shows anything is tried again, and one that has shown a text is
not: of three attempts that are allowed two are made. -/
example :
    let provider : Provider :=
      { routingAttempts := 1
        capabilities :=
          { supportsToolCalls := true, supportsStreaming := true, supportsImages := false
            maxContextTokens := none }
        structuredOutputSupport := .none
        conservativeContextTokenBound := fun _ => .ok none
        exactContextTokenCount := fun _ => .ok none }
    let fails : Except ProviderError ModelStreamEvent := .error (.new .transport "lost" true)
    let attempt (events : List (Except ProviderError ModelStreamEvent)) : AttemptScript :=
      { generated := .error (.terminal .transport "no stream"), streamed := .ok events
        ending := .finished false, retryInterrupted := false }
    let report := attemptLoop provider 0 "call" 10 3
      [attempt [fails], attempt [.ok (.textChunk "he"), fails], attempt []] 1 []
    report.calls.map (·.attempt.val) = [1, 2] ∧ report.events.map (·.isVisibleDelta) = [true] := by
  decide

end Agentive
