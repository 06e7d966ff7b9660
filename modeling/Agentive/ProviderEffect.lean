import Agentive.Agent

/-! One provider effect: its transport attempts, each generated or streamed, and the retries
between them. A script says what a transport does and when the runtime is interrupted. -/

namespace Agentive

/-- How the wait for a transport attempt ends. An interruption is a cancellation of the run or
the end of its time, which cancels the run too, and wins over what the transport answers. -/
inductive AttemptEnd
  | pending
  | interrupted
  | finished (cancelled : Bool)
deriving DecidableEq

structure AttemptScript where
  generated : Except ProviderError ModelResponse
  streamed : Except ProviderError (List (Except ProviderError ModelStreamEvent))
  ending : AttemptEnd
  retryInterrupted : Bool

/-- One transport call that the runtime started, and the tokens reserved for its admission. -/
structure TransportCall where
  attempt : U8
  reservation : U64
  script : AttemptScript

/-- The transport calls of child runs and of the runs below them, and the depths of these
runs. -/
structure TreeLog where
  calls : List TransportCall
  depths : List U8

namespace TreeLog

def empty : TreeLog := ⟨[], []⟩

def append (a b : TreeLog) : TreeLog := ⟨a.calls ++ b.calls, a.depths ++ b.depths⟩

def concat (logs : List TreeLog) : TreeLog := logs.foldr append empty

/-- The transport calls together, each with its weight. -/
def weight (μ : TransportCall → Nat) (log : TreeLog) : Nat := (log.calls.map μ).sum

@[simp] theorem weight_empty (μ : TransportCall → Nat) : empty.weight μ = 0 := rfl

@[simp] theorem weight_append (μ : TransportCall → Nat) (a b : TreeLog) :
    (a.append b).weight μ = a.weight μ + b.weight μ := by
  simp [weight, append]

@[simp] theorem weight_concat (μ : TransportCall → Nat) (logs : List TreeLog) :
    (concat logs).weight μ = (logs.map (weight μ)).sum := by
  induction logs with
  | nil => rfl
  | cons log logs ih =>
    show (log.append (concat logs)).weight μ = _
    simp [ih]

theorem mem_depths_concat {logs : List TreeLog} {d : U8} :
    d ∈ (concat logs).depths ↔ ∃ log ∈ logs, d ∈ log.depths := by
  induction logs with
  | nil => simp [concat, empty]
  | cons log logs ih =>
    show d ∈ (log.append (concat logs)).depths ↔ _
    simp [append, ih]

theorem length_depths_concat (logs : List TreeLog) :
    (concat logs).depths.length = (logs.map (·.depths.length)).sum := by
  induction logs with
  | nil => rfl
  | cons log logs ih =>
    show (log.depths ++ (concat logs).depths).length = _
    rw [List.length_append, ih, List.map_cons, List.sum_cons]

end TreeLog

/-- What the execution of one effect leaves behind. Without an outcome it is still going on. -/
structure EffectReport where
  outcome : Option (Except RunError AgentEffectOutcome)
  calls : List TransportCall
  events : List RunEvent
  children : TreeLog

namespace EffectReport

def pending : EffectReport := ⟨none, [], [], .empty⟩

def ended (result : Except RunError AgentEffectOutcome) : EffectReport :=
  ⟨some result, [], [], .empty⟩

end EffectReport

/-- What the runtime gets out of one transport attempt. -/
structure TransportRead where
  result : Except ProviderError ModelResponse
  visibleDelta : Bool
  events : List RunEvent

def conflictingUsage (streamed finalUsage : Option ModelTokenUsage) : Bool :=
  streamed.any fun u => finalUsage.any fun v => u ≠ v

/-- The loop over the events of a stream; `streamed` is the usage that it has reported. -/
def readStream (round : U32) :
    List (Except ProviderError ModelStreamEvent) → Option ModelTokenUsage → TransportRead
  | [], _ =>
    { result := .error (.terminal .protocol "provider stream ended without a terminal response")
      visibleDelta := false, events := [] }
  | .error e :: _, _ => { result := .error e, visibleDelta := false, events := [] }
  | .ok (.done response) :: _, streamed =>
    { result :=
        if conflictingUsage streamed response.usage then
          .error (.terminal .protocol "provider stream reported conflicting usage")
        else .ok { response with usage := response.usage.or streamed }
      visibleDelta := false, events := [] }
  | .ok (.usage usage) :: rest, _ =>
    let read := readStream round rest (some usage)
    { read with events := .modelDelta round (.usage usage) :: read.events }
  | .ok event :: rest, streamed =>
    let read := readStream round rest streamed
    { read with visibleDelta := true, events := .modelDelta round event :: read.events }

def executeProviderEffect (provider : Provider) (round : U32) (script : AttemptScript) :
    TransportRead :=
  if provider.capabilities.supportsStreaming then
    match script.streamed with
    | .error e => { result := .error e, visibleDelta := false, events := [] }
    | .ok events => readStream round events none
  else { result := script.generated, visibleDelta := false, events := [] }

/-- What the retry loop does after one attempt. -/
inductive AttemptStep
  | pending
  | abandoned (error : RunError)
  | answered (response : ModelResponse)
  | retried (source : ProviderError)
  | failed (source : ProviderError)

def attemptStep (read : TransportRead) (script : AttemptScript) (providerCallId : String)
    (attempt : U8) (allowedAttempts : U32) : AttemptStep :=
  match script.ending with
  | .pending => .pending
  | .interrupted => .abandoned .cancelled
  | .finished cancelled =>
    match read.result with
    | .ok response =>
      if cancelled then .abandoned .cancelled
      else match validateModelResponse response providerCallId with
        | .error e => .abandoned e
        | .ok () => .answered response
    | .error source =>
      if source.isRetryable && source.isSafeBeforeOutput && !read.visibleDelta &&
          decide (attempt.cast < allowedAttempts) then
        if script.retryInterrupted then .abandoned .cancelled else .retried source
      else .failed source

section

variable (provider : Provider) (round : U32) (providerCallId : String) (reservation : U64)
  (allowedAttempts : U32)

/-- The retry loop of a provider effect; `attempts` are the records of the earlier attempts. -/
def attemptLoop : List AttemptScript → U8 → List ProviderAttempt → EffectReport
  | [], _, _ => .pending
  | script :: rest, attempt, attempts =>
    let read := executeProviderEffect provider round script
    let recorded (usage : Option ModelTokenUsage) : List ProviderAttempt :=
      attempts ++ [{ attempt, usage, reservedTokens := reservation }]
    let report : EffectReport :=
      match attemptStep read script providerCallId attempt allowedAttempts with
      | .pending => .pending
      | .abandoned e => .ended (.error e)
      | .answered response => .ended (.ok (.provider response (recorded response.usage)))
      | .retried source => attemptLoop rest (attempt.saturatingAdd 1) (recorded source.usage)
      | .failed source => .ended (.ok (.providerFailed source (recorded source.usage)))
    { report with
      calls := { attempt, reservation, script } :: report.calls
      events := read.events ++ report.events }

end

/-- The usage that the runtime keeps of a transport attempt. -/
def TransportRead.usage (read : TransportRead) : Option ModelTokenUsage :=
  match read.result with
  | .ok response => response.usage
  | .error source => source.usage

/-- The record that the runtime keeps of a transport call. -/
def TransportCall.record (provider : Provider) (round : U32) (call : TransportCall) :
    ProviderAttempt :=
  { attempt := call.attempt
    usage := (executeProviderEffect provider round call.script).usage
    reservedTokens := call.reservation }

theorem attemptStep_answered {read : TransportRead} {script : AttemptScript}
    {providerCallId : String} {attempt : U8} {allowed : U32} {response : ModelResponse}
    (h : attemptStep read script providerCallId attempt allowed = .answered response) :
    read.result = .ok response ∧ validateModelResponse response providerCallId = .ok () := by
  unfold attemptStep at h
  split at h
  · cases h
  · cases h
  · split at h
    · next r hr =>
      split at h
      · cases h
      · split at h
        · cases h
        · next hv =>
          cases h
          exact ⟨hr, hv⟩
    · split at h
      · split at h <;> cases h
      · cases h

theorem attemptStep_retried {read : TransportRead} {script : AttemptScript}
    {providerCallId : String} {attempt : U8} {allowed : U32} {source : ProviderError}
    (h : attemptStep read script providerCallId attempt allowed = .retried source) :
    read.result = .error source ∧ attempt.val < allowed.val := by
  unfold attemptStep at h
  split at h
  · cases h
  · cases h
  · split at h
    · split at h
      · cases h
      · split at h <;> cases h
    · next e he =>
      split at h
      · next hretry =>
        split at h
        · cases h
        · cases h
          refine ⟨he, ?_⟩
          simp only [Bool.and_eq_true, decide_eq_true_eq, Capped.lt_def, Capped.val_cast] at hretry
          have hcap := attempt.le_cap
          omega
      · cases h

theorem attemptStep_failed {read : TransportRead} {script : AttemptScript}
    {providerCallId : String} {attempt : U8} {allowed : U32} {source : ProviderError}
    (h : attemptStep read script providerCallId attempt allowed = .failed source) :
    read.result = .error source := by
  unfold attemptStep at h
  split at h
  · cases h
  · cases h
  · split at h
    · split at h
      · cases h
      · split at h <;> cases h
    · next e he =>
      split at h
      · split at h <;> cases h
      · cases h
        exact he

section

variable {provider : Provider} {round : U32} {providerCallId : String} {reservation : U64}
  {allowed : U32}

theorem attemptLoop_reservation {scripts : List AttemptScript} {attempt : U8}
    {attempts : List ProviderAttempt} {call : TransportCall}
    (h : call ∈ (attemptLoop provider round providerCallId reservation allowed scripts attempt
      attempts).calls) : call.reservation = reservation := by
  induction scripts generalizing attempt attempts with
  | nil => simp [attemptLoop, EffectReport.pending] at h
  | cons script rest ih =>
    simp only [attemptLoop, List.mem_cons] at h
    rcases h with rfl | h
    · rfl
    · split at h
      · simp [EffectReport.pending] at h
      · simp [EffectReport.ended] at h
      · simp [EffectReport.ended] at h
      · exact ih h
      · simp [EffectReport.ended] at h

theorem children_attemptLoop (scripts : List AttemptScript) (attempt : U8)
    (attempts : List ProviderAttempt) :
    (attemptLoop provider round providerCallId reservation allowed scripts attempt
      attempts).children = .empty := by
  induction scripts generalizing attempt attempts with
  | nil => rfl
  | cons script rest ih =>
    simp only [attemptLoop]
    split
    · rfl
    · rfl
    · rfl
    · exact ih _ _
    · rfl

variable (provider round providerCallId reservation) in
theorem attemptLoop_length (hallowed : allowed.val ≤ 255) (scripts : List AttemptScript)
    (attempt : U8) (attempts : List ProviderAttempt) :
    (attemptLoop provider round providerCallId reservation allowed scripts attempt
      attempts).calls.length ≤ 1 + (allowed.val - attempt.val) := by
  induction scripts generalizing attempt attempts with
  | nil => simp [attemptLoop, EffectReport.pending]
  | cons script rest ih =>
    simp only [attemptLoop, List.length_cons]
    split
    · simp [EffectReport.pending]
    · simp [EffectReport.ended]
    · simp [EffectReport.ended]
    · next source hstep =>
      have hlt := (attemptStep_retried hstep).2
      have hnext : (attempt.saturatingAdd 1).val = attempt.val + 1 := by
        simp only [Capped.val_saturatingAdd, Capped.val_one]
        omega
      have hrest := ih (attempt.saturatingAdd 1)
        (attempts ++ [{ attempt, usage := source.usage, reservedTokens := reservation }])
      omega
    · simp [EffectReport.ended]

theorem attemptLoop_outcome {scripts : List AttemptScript} {attempt : U8}
    {attempts : List ProviderAttempt} {o : AgentEffectOutcome} {report : EffectReport}
    (hreport : attemptLoop provider round providerCallId reservation allowed scripts attempt
      attempts = report) (h : report.outcome = some (.ok o)) :
    report.calls ≠ [] ∧
      ((∃ response, validateModelResponse response providerCallId = .ok () ∧
          o = .provider response (attempts ++ report.calls.map (·.record provider round))) ∨
        ∃ e, o = .providerFailed e (attempts ++ report.calls.map (·.record provider round))) := by
  subst hreport
  induction scripts generalizing attempt attempts with
  | nil => simp [attemptLoop, EffectReport.pending] at h
  | cons script rest ih =>
    refine ⟨by simp [attemptLoop], ?_⟩
    simp only [attemptLoop] at h ⊢
    cases hstep : attemptStep (executeProviderEffect provider round script) script providerCallId
        attempt allowed with
    | pending => simp [hstep, EffectReport.pending] at h
    | abandoned e => simp [hstep, EffectReport.ended] at h
    | answered response =>
      obtain ⟨hr, hv⟩ := attemptStep_answered hstep
      simp only [hstep, EffectReport.ended, Option.some.injEq, Except.ok.injEq] at h ⊢
      refine .inl ⟨response, hv, ?_⟩
      simp [← h, TransportCall.record, TransportRead.usage, hr]
    | retried source =>
      obtain ⟨hr, _⟩ := attemptStep_retried hstep
      simp only [hstep] at h ⊢
      have hrecord : ({ attempt, usage := source.usage, reservedTokens := reservation } :
          ProviderAttempt) =
          TransportCall.record provider round { attempt, reservation, script } := by
        simp [TransportCall.record, TransportRead.usage, hr]
      rw [hrecord] at h ⊢
      have hrest := (ih h).2
      simpa only [List.append_assoc, List.singleton_append, List.map_cons] using hrest
    | failed source =>
      have hr := attemptStep_failed hstep
      simp only [hstep, EffectReport.ended, Option.some.injEq, Except.ok.injEq] at h ⊢
      refine .inr ⟨source, ?_⟩
      simp [← h, TransportCall.record, TransportRead.usage, hr]

end

namespace AgentRunState

def remainingCalls (s : AgentRunState) : U32 :=
  s.budget.modelCallLimit.saturatingSub s.callsCharged

/-- The tokens reserved for one attempt. A hard token budget needs a bound on the prompt. -/
def attemptReservation [RequestText] (s : AgentRunState) (request : ModelRequest)
    (promptTokens : Option U64) : Except RunError U64 :=
  if s.plan.tokenLimit.isSome then
    match promptTokens with
    | none =>
      .error (.contextLimit
        "hard token budget requires a provider-specific token count or bound")
    | some promptTokens => .ok (promptTokens.saturatingAdd request.maxOutputTokens)
  else .ok s.nextModelTokenReservation

def reservationRefused (s : AgentRunState) (reservation : U64) : Bool :=
  s.plan.tokenLimit.any fun limit =>
    decide (limit.saturatingSub s.reservedTokens < reservation)

def tokenAttempts (s : AgentRunState) (reservation : U64) : U32 :=
  match s.plan.tokenLimit with
  | none => Capped.top
  | some limit => ((limit.saturatingSub s.reservedTokens).div (reservation.max 1)).cast

def allowedAttempts (s : AgentRunState) (reservation : U64) : U32 :=
  (s.plan.providerMaxAttempts.cast.min s.remainingCalls).min (s.tokenAttempts reservation)

theorem val_tokenAttempts {s : AgentRunState} {reservation limit : U64}
    (h : s.plan.tokenLimit = some limit) :
    (s.tokenAttempts reservation).val =
      min ((limit.val - s.reservedTokens.val) / max reservation.val 1) 4294967295 := by
  rw [tokenAttempts, h]
  rfl

theorem val_allowedAttempts (s : AgentRunState) (reservation : U64) :
    (s.allowedAttempts reservation).val =
      min (min s.plan.providerMaxAttempts.val s.remainingCalls.val)
        (s.tokenAttempts reservation).val := by
  have hbyte : s.plan.providerMaxAttempts.val ≤ 255 := s.plan.providerMaxAttempts.le_cap
  have hval : (s.allowedAttempts reservation).val =
      min (min (min s.plan.providerMaxAttempts.val 4294967295) s.remainingCalls.val)
        (s.tokenAttempts reservation).val := rfl
  omega

end AgentRunState

def executeProvider [RequestText] (agent : Agent) (s : AgentRunState) (request : ModelRequest)
    (providerCallId : String) (round : U32) (scripts : List AttemptScript) : EffectReport :=
  match validateContext agent.provider s.plan.contextEstimate
      s.plan.providerEnforcedLimitOptOut request with
  | .error e => .ended (.error e)
  | .ok promptTokens =>
    match s.attemptReservation request promptTokens with
    | .error e => .ended (.error e)
    | .ok reservation =>
      if s.reservationRefused reservation then
        .ended (.ok (.providerBudgetExhausted reservation))
      else
        attemptLoop agent.provider round providerCallId reservation
          (s.allowedAttempts reservation) scripts 1 []

theorem executeProvider_cases [RequestText] (agent : Agent) (s : AgentRunState)
    (request : ModelRequest) (providerCallId : String) (round : U32)
    (scripts : List AttemptScript) :
    (∃ e, e ≠ .cancelled ∧
      executeProvider agent s request providerCallId round scripts = .ended (.error e)) ∨
    ∃ promptTokens reservation,
      validateContext agent.provider s.plan.contextEstimate s.plan.providerEnforcedLimitOptOut
        request = .ok promptTokens ∧
      s.attemptReservation request promptTokens = .ok reservation ∧
      (s.reservationRefused reservation = true ∧
          executeProvider agent s request providerCallId round scripts =
            .ended (.ok (.providerBudgetExhausted reservation)) ∨
        s.reservationRefused reservation = false ∧
          executeProvider agent s request providerCallId round scripts =
            attemptLoop agent.provider round providerCallId reservation
              (s.allowedAttempts reservation) scripts 1 []) := by
  cases hv : validateContext agent.provider s.plan.contextEstimate
      s.plan.providerEnforcedLimitOptOut request with
  | error e =>
    refine .inl ⟨e, ?_, by simp only [executeProvider, hv]⟩
    rintro rfl
    exact validateContext_ne_cancelled hv
  | ok promptTokens =>
    cases hr : s.attemptReservation request promptTokens with
    | error e =>
      refine .inl ⟨e, ?_, by simp only [executeProvider, hv, hr]⟩
      rintro rfl
      unfold AgentRunState.attemptReservation at hr
      split at hr
      · split at hr <;> simp at hr
      · cases hr
    | ok reservation =>
      refine .inr ⟨promptTokens, reservation, rfl, hr, ?_⟩
      cases hx : s.reservationRefused reservation with
      | true => exact .inl ⟨rfl, by simp only [executeProvider, hv, hr, hx, if_true]⟩
      | false =>
        refine .inr ⟨rfl, ?_⟩
        simp only [executeProvider, hv, hr, hx, Bool.false_eq_true, if_false]

/-- An outcome of a provider effect is the refusal of its first attempt, or keeps one record for
each of its transport calls. -/
theorem executeProvider_outcome [RequestText] {agent : Agent} {s : AgentRunState}
    {request : ModelRequest} {providerCallId : String} {round : U32}
    {scripts : List AttemptScript} {report : EffectReport} {o : AgentEffectOutcome}
    (hreport : executeProvider agent s request providerCallId round scripts = report)
    (h : report.outcome = some (.ok o)) :
    (∃ required, o = .providerBudgetExhausted required ∧ report = .ended (.ok o)) ∨
      ∃ reservation, s.reservationRefused reservation = false ∧ report.calls ≠ [] ∧
        report.children = .empty ∧ (∀ call ∈ report.calls, call.reservation = reservation) ∧
        ((∃ response, validateModelResponse response providerCallId = .ok () ∧
            o = .provider response (report.calls.map (·.record agent.provider round))) ∨
          ∃ e, o = .providerFailed e (report.calls.map (·.record agent.provider round))) := by
  subst hreport
  rcases executeProvider_cases agent s request providerCallId round scripts with
    ⟨e, _, hp⟩ | ⟨_, reservation, _, _, ⟨_, hp⟩ | ⟨hadmitted, hp⟩⟩
  · simp [hp, EffectReport.ended] at h
  · rw [hp] at h ⊢
    simp only [EffectReport.ended, Option.some.injEq, Except.ok.injEq] at h
    exact .inl ⟨reservation, h.symm, by rw [h]⟩
  · rw [hp] at h ⊢
    obtain ⟨hne, hkept⟩ := attemptLoop_outcome rfl h
    exact .inr ⟨reservation, hadmitted, hne, children_attemptLoop _ _ _,
      fun call hcall => attemptLoop_reservation hcall, by simpa only [List.nil_append] using hkept⟩

theorem children_executeProvider [RequestText] (agent : Agent) (s : AgentRunState)
    (request : ModelRequest) (providerCallId : String) (round : U32)
    (scripts : List AttemptScript) :
    (executeProvider agent s request providerCallId round scripts).children = .empty := by
  rcases executeProvider_cases agent s request providerCallId round scripts with
    ⟨_, _, hp⟩ | ⟨_, _, _, _, ⟨_, hp⟩ | ⟨_, hp⟩⟩ <;> rw [hp]
  · rfl
  · rfl
  · exact children_attemptLoop _ _ _

end Agentive
