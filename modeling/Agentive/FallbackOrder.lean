import Agentive.FallbackRouter
import Agentive.LocalRun
import Agentive.ProviderRetries

/-! In which order one provider effect calls the leaves of nested routers. Every router decides by
the number of the attempt alone, so attempt one goes to the first leaf and every later attempt to
the last one. -/

namespace Agentive

/-- How the wait for an attempt ends, and whether the wait before the next one is cut short. -/
structure AttemptWaits where
  ending : AttemptEnd
  retryInterrupted : Bool

/-- What a provider does in one attempt, between the interruptions of the runtime. -/
def ModelProvider.script (provider : ModelProvider) (request : ModelRequest)
    (context : ProviderCallContext) (waits : AttemptWaits) : AttemptScript :=
  { generated := provider.generate request context
    streamed := provider.stream request context
    ending := waits.ending
    retryInterrupted := waits.retryInterrupted }

/-- The attempts that a provider can be asked for, as many as their counter tells apart. -/
def ModelProvider.scripts (provider : ModelProvider) (request : ModelRequest)
    (providerCallId : String) (round : U32) (waits : U8 → AttemptWaits) : List AttemptScript :=
  (List.range' 1 255).map fun n =>
    provider.script request ⟨providerCallId, round, Capped.clamp n⟩ (waits (Capped.clamp n))

def Router.calledAt : Router → U8 → Nat
  | .leaf _, _ => 0
  | .fallback first second, attempt =>
    if attempt = 1 then first.calledAt attempt else first.leaves.length + second.calledAt attempt

/-- The attempt is given up for another one: it failed retryably and nothing interrupts. -/
structure AttemptScript.GivenUp (script : AttemptScript) (provider : Provider) (round : U32) :
    Prop where
  retryable : (executeProviderEffect provider round script).Retryable
  finished : ∃ cancelled, script.ending = .finished cancelled
  waited : script.retryInterrupted = false

/-- As long as the leaves fail one after the other, the next leaf is called. -/
def EffectReport.FallsThrough (report : EffectReport) (r : Router) (round : U32) : Prop :=
  ∀ k < r.leaves.length,
    (∀ i < k, ∃ call, report.calls[i]? = some call ∧ r.calledAt call.attempt = i ∧
      call.script.GivenUp r.provider.toProvider round) →
    ∃ call, report.calls[k]? = some call ∧ r.calledAt call.attempt = k

theorem Router.leaves_pos (r : Router) : 0 < r.leaves.length := by
  induction r with
  | leaf provider => exact Nat.one_pos
  | fallback first second ihFirst _ =>
    rw [Router.leaves, List.length_append]
    omega

theorem Router.calledAt_first (r : Router) : r.calledAt 1 = 0 := by
  induction r with
  | leaf provider => rfl
  | fallback first second ihFirst _ => rw [Router.calledAt, if_pos rfl, ihFirst]

theorem Router.calledAt_later (r : Router) {attempt : U8} (h : attempt ≠ 1) :
    r.calledAt attempt + 1 = r.leaves.length := by
  induction r with
  | leaf provider => rfl
  | fallback first second _ ihSecond =>
    rw [Router.calledAt, if_neg h, Router.leaves, List.length_append, ← ihSecond]
    omega

theorem Router.script_eq (r : Router) (request : ModelRequest) (context : ProviderCallContext)
    (waits : AttemptWaits) :
    ∃ leaf, r.leaves[r.calledAt context.attempt]? = some leaf ∧
      r.provider.script request context waits = leaf.script request context waits := by
  induction r with
  | leaf provider => exact ⟨provider, rfl, rfl⟩
  | fallback first second ihFirst ihSecond =>
    by_cases h : context.attempt = 1
    · obtain ⟨leaf, hleaf, hscript⟩ := ihFirst
      refine ⟨leaf, ?_, ?_⟩
      · obtain ⟨hlt, _⟩ := List.getElem?_eq_some_iff.mp hleaf
        rw [Router.calledAt, if_pos h, Router.leaves, List.getElem?_append_left hlt, hleaf]
      · rw [← hscript]
        simp [ModelProvider.script, Router.provider, FallbackProvider, h]
    · obtain ⟨leaf, hleaf, hscript⟩ := ihSecond
      refine ⟨leaf, ?_, ?_⟩
      · rw [Router.calledAt, if_neg h, Router.leaves,
          List.getElem?_append_right (Nat.le_add_right _ _), Nat.add_sub_cancel_left, hleaf]
      · rw [← hscript]
        simp [ModelProvider.script, Router.provider, FallbackProvider, h]

theorem Router.routingAttempts_eq {r : Router} (h : 2 ≤ r.leaves.length) :
    r.provider.routingAttempts = 2 := by
  cases r with
  | leaf provider => simp [Router.leaves] at h
  | fallback first second => rfl

theorem ModelProvider.scripts_eq (provider : ModelProvider) (request : ModelRequest)
    (providerCallId : String) (round : U32) (waits : U8 → AttemptWaits) :
    ∃ rest, provider.scripts request providerCallId round waits =
      provider.script request ⟨providerCallId, round, 1⟩ (waits 1) ::
        provider.script request ⟨providerCallId, round, 2⟩ (waits 2) :: rest :=
  ⟨_, rfl⟩

section

variable {provider : Provider} {round : U32} {providerCallId : String} {reservation : U64}
  {allowed : U32} {script second : AttemptScript} {rest : List AttemptScript}

theorem attemptLoop_head (attempt : U8) (attempts : List ProviderAttempt) :
    (attemptLoop provider round providerCallId reservation allowed (script :: rest) attempt
      attempts).calls[0]? = some ⟨attempt, reservation, script⟩ := by
  rcases attemptLoop_cases rest attempts with ⟨hcalls, _⟩ | ⟨_, _, hcalls, _⟩
  · rw [hcalls]
    rfl
  · rw [hcalls]
    rfl

theorem attemptLoop_second (h : script.GivenUp provider round) (hallowed : 2 ≤ allowed.val) :
    (attemptLoop provider round providerCallId reservation allowed (script :: second :: rest) 1
      []).calls[1]? = some ⟨2, reservation, second⟩ := by
  have hone : (1 : U8).val = 1 := rfl
  have hlt : ((1 : U8).cast : U32) < allowed := by
    rw [Capped.lt_def, Capped.val_cast, hone]
    omega
  obtain ⟨source, hsource, _⟩ := h.retryable.error
  have hstep : attemptStep (executeProviderEffect provider round script) script providerCallId 1
      allowed = .retried source :=
    attemptStep_eq_retried_iff.mpr ⟨h.retryable, hsource, h.finished, h.waited, hlt⟩
  rw [attemptLoop]
  simp only [hstep, List.getElem?_cons_succ]
  exact attemptLoop_head _ _

end

/-- All that decides how a router falls through are its first two calls: the first goes to the
first leaf, the second one to the last leaf. -/
theorem EffectReport.fallsThrough_iff {report : EffectReport} {r : Router} {round : U32}
    {first : TransportCall} (hfirst : report.calls[0]? = some first) (hone : first.attempt = 1)
    (hsecond : first.script.GivenUp r.provider.toProvider round → 2 ≤ r.leaves.length →
      ∃ second, report.calls[1]? = some second ∧ second.attempt ≠ 1) :
    report.FallsThrough r round ↔
      r.leaves.length ≤ 2 ∨ ¬ first.script.GivenUp r.provider.toProvider round := by
  have hleft : r.calledAt first.attempt = 0 := by rw [hone, r.calledAt_first]
  constructor
  · intro hfalls
    by_contra hn
    obtain ⟨hmany, hnot⟩ := not_or.mp hn
    have hgiven := not_not.mp hnot
    obtain ⟨second, hcall, hlater⟩ := hsecond hgiven (by omega)
    obtain ⟨call, hcall', hplace⟩ := hfalls 1 (by omega) fun i hi => by
      obtain rfl : i = 0 := by omega
      exact ⟨first, hfirst, hleft, hgiven⟩
    rw [hcall, Option.some.injEq] at hcall'
    subst hcall'
    have hlast := r.calledAt_later hlater
    omega
  · intro hcond k hk hbefore
    by_cases hzero : k = 0
    · subst hzero
      exact ⟨first, hfirst, hleft⟩
    · obtain ⟨call, hcall, _, hgiven⟩ := hbefore 0 (by omega)
      rw [hfirst, Option.some.injEq] at hcall
      subst hcall
      have htwo : r.leaves.length ≤ 2 := hcond.resolve_right (not_not.mpr hgiven)
      obtain ⟨second, hcall, hlater⟩ := hsecond hgiven (by omega)
      have hlast := r.calledAt_later hlater
      obtain rfl : k = 1 := by omega
      exact ⟨second, hcall, by omega⟩

theorem AgentRunState.reservationRefused_eq_false {s : AgentRunState} {reservation : U64}
    (h : 0 < (s.tokenAttempts reservation).val) : s.reservationRefused reservation = false := by
  unfold AgentRunState.tokenAttempts at h
  unfold AgentRunState.reservationRefused
  cases hlimit : s.plan.tokenLimit with
  | none => rfl
  | some limit =>
    rw [hlimit] at h
    have hdiv : 0 < (limit.val - s.reservedTokens.val) / Nat.max reservation.val 1 :=
      Nat.lt_of_lt_of_le h (Nat.min_le_left _ _)
    have hle : Nat.max reservation.val 1 ≤ limit.val - s.reservedTokens.val :=
      (Nat.div_pos_iff.mp hdiv).2
    have hmax : reservation.val ≤ Nat.max reservation.val 1 := Nat.le_max_left _ _
    simp only [Option.any_some, decide_eq_false_iff_not, Capped.lt_def, Capped.val_saturatingSub]
    omega

theorem Router.two_le_allowedAttempts {agent : Agent} {r : Router} {options : RunOptions}
    {s : AgentRunState} {reservation : U64} (hprovider : agent.provider = r.provider.toProvider)
    (hplan : s.plan = agent.runPlan options) (htwo : 2 ≤ r.leaves.length)
    (hcalls : 2 ≤ s.remainingCalls.val) (htokens : 2 ≤ (s.tokenAttempts reservation).val) :
    2 ≤ (s.allowedAttempts reservation).val := by
  have hrouting : agent.provider.routingAttempts.val = 2 := by
    rw [hprovider, Router.routingAttempts_eq htwo]
    rfl
  have hmax : 2 ≤ s.plan.providerMaxAttempts.val := by
    rw [hplan]
    show 2 ≤ Max.max (Max.max _ agent.provider.routingAttempts.val) _
    omega
  have hmin := s.val_allowedAttempts reservation
  omega

/-- The property fails for three leaves or more as soon as the first attempt is given up: the
second one goes to the last leaf. Otherwise it holds. -/
theorem fallback_composes_iff [RequestText] (agent : Agent) (r : Router) (options : RunOptions)
    (s : AgentRunState) (request : ModelRequest) (providerCallId : String) (round : U32)
    (waits : U8 → AttemptWaits) (promptTokens : Option U64) (reservation : U64)
    (hprovider : agent.provider = r.provider.toProvider) (hplan : s.plan = agent.runPlan options)
    (hadmitted : validateContext agent.provider s.plan.contextEstimate
      s.plan.providerEnforcedLimitOptOut request = .ok promptTokens)
    (hreservation : s.attemptReservation request promptTokens = .ok reservation)
    (hcalls : r.leaves.length ≤ s.remainingCalls.val)
    (htokens : r.leaves.length ≤ (s.tokenAttempts reservation).val) :
    (executeProvider agent s request providerCallId round
        (r.provider.scripts request providerCallId round waits)).FallsThrough r round ↔
      r.leaves.length ≤ 2 ∨
        ∀ first, r.leaves.head? = some first →
          ¬ (first.script request ⟨providerCallId, round, 1⟩ (waits 1)).GivenUp
            r.provider.toProvider round := by
  have hadmits :=
    AgentRunState.reservationRefused_eq_false (Nat.lt_of_lt_of_le r.leaves_pos htokens)
  obtain ⟨rest, hscripts⟩ := r.provider.scripts_eq request providerCallId round waits
  have hloop : executeProvider agent s request providerCallId round
      (r.provider.scripts request providerCallId round waits) =
      attemptLoop r.provider.toProvider round providerCallId reservation
        (s.allowedAttempts reservation)
        (r.provider.scripts request providerCallId round waits) 1 [] := by
    rw [← hprovider]
    simp only [executeProvider, hadmitted, hreservation, hadmits, Bool.false_eq_true, if_false]
  have hallowed (htwo : 2 ≤ r.leaves.length) : 2 ≤ (s.allowedAttempts reservation).val :=
    Router.two_le_allowedAttempts hprovider hplan htwo (by omega) (by omega)
  obtain ⟨leaf, hleaf, hscript⟩ := r.script_eq request ⟨providerCallId, round, 1⟩ (waits 1)
  rw [r.calledAt_first, ← List.head?_eq_getElem?] at hleaf
  have hhead : (∀ first, r.leaves.head? = some first →
      ¬ (first.script request ⟨providerCallId, round, 1⟩ (waits 1)).GivenUp
        r.provider.toProvider round) ↔
      ¬ (r.provider.script request ⟨providerCallId, round, 1⟩ (waits 1)).GivenUp
        r.provider.toProvider round := by
    simp [hleaf, hscript]
  rw [hhead, hloop, hscripts]
  refine EffectReport.fallsThrough_iff (attemptLoop_head 1 []) rfl ?_
  intro hgiven htwo
  have hlater : (2 : U8) ≠ 1 := by decide
  exact ⟨_, attemptLoop_second hgiven (hallowed htwo), hlater⟩

namespace Sample

def flakyProvider : ModelProvider :=
  { countingProvider 10 1000 with
    generate := fun _ _ => .error (.new .unavailable "offline" true) }

def steadyProvider : ModelProvider :=
  { countingProvider 10 1000 with generate := fun _ _ => .ok (textResponse "hi") }

def threeLeaves : Router :=
  .fallback (.leaf flakyProvider) (.fallback (.leaf steadyProvider) (.leaf steadyProvider))

def routedAgent : Agent :=
  { agent false with provider := threeLeaves.provider.toProvider }

def routedState : AgentRunState := .withPlan "run" [.user "hi"] ⟨6⟩ (routedAgent.runPlan {})

def routedRequest : ModelRequest := routedState.nextModelRequest "run:provider:0"

def uninterrupted (_ : U8) : AttemptWaits :=
  { ending := .finished false, retryInterrupted := false }

def routedScripts : List AttemptScript :=
  threeLeaves.provider.scripts routedRequest "run:provider:0" 0 uninterrupted

theorem flaky_givenUp :
    (flakyProvider.script routedRequest ⟨"run:provider:0", 0, 1⟩ (uninterrupted 1)).GivenUp
      threeLeaves.provider.toProvider 0 where
  retryable := ⟨⟨_, rfl, rfl, rfl⟩, rfl⟩
  finished := ⟨false, rfl⟩
  waited := rfl

end Sample

/-- The leaf in the middle is never called: the second attempt goes to the third leaf. -/
theorem middle_leaf_skipped :
    let _ := Sample.requestText
    let r := Sample.threeLeaves
    let report := executeProvider Sample.routedAgent Sample.routedState Sample.routedRequest
      "run:provider:0" 0 Sample.routedScripts
    r.leaves.length ≤ Sample.routedState.remainingCalls.val ∧
      report.calls.map (fun call => r.calledAt call.attempt) = [0, 2] ∧
      ¬ report.FallsThrough r 0 := by
  intro _ r report
  have hplaces : report.calls.map (fun call => r.calledAt call.attempt) = [0, 2] := by
    decide +kernel
  refine ⟨by decide, hplaces, fun hfalls => ?_⟩
  obtain ⟨call, hcall, hplace⟩ := hfalls 1 (by decide) fun i hi => by
    obtain rfl : i = 0 := by omega
    exact ⟨_, rfl, rfl, Sample.flaky_givenUp⟩
  have hsecond : (report.calls.map fun call => r.calledAt call.attempt)[1]? = some 1 := by
    rw [List.getElem?_map, hcall, Option.map_some, hplace]
  rw [hplaces] at hsecond
  cases hsecond

theorem fallback_composes_sample :
    let _ := Sample.requestText
    ¬ (executeProvider Sample.routedAgent Sample.routedState Sample.routedRequest
      "run:provider:0" 0 Sample.routedScripts).FallsThrough Sample.threeLeaves 0 := by
  intro _ hfalls
  have hiff := fallback_composes_iff Sample.routedAgent Sample.threeLeaves {} Sample.routedState
    Sample.routedRequest "run:provider:0" 0 Sample.uninterrupted (some 10) 356 rfl rfl
    (by decide +kernel) (by decide +kernel) (by decide) (by decide)
  rcases hiff.mp hfalls with htwo | hnot
  · exact absurd htwo (by decide)
  · exact hnot _ rfl Sample.flaky_givenUp

end Agentive
