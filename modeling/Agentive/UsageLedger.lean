import Agentive.RunHeads

/-! The usage of a run, compared with what its transport attempts have reported. -/

namespace Agentive

open AgentRunState DriverLoop

/-- The usage that a stream reports: in its last usage event, and in the response or the error
that ends it. -/
def streamReports : List (Except ProviderError ModelStreamEvent) → Option ModelTokenUsage →
    Option ModelTokenUsage × Option ModelTokenUsage
  | [], streamed => (streamed, none)
  | .error e :: _, streamed => (streamed, e.usage)
  | .ok (.done response) :: _, streamed => (streamed, response.usage)
  | .ok (.usage usage) :: rest, _ => streamReports rest (some usage)
  | .ok _ :: rest, streamed => streamReports rest streamed

/-- The error or the response that ends a stream. -/
def streamEnd : List (Except ProviderError ModelStreamEvent) →
    Option (Except ProviderError ModelResponse)
  | [] => none
  | .error e :: _ => some (.error e)
  | .ok (.done response) :: _ => some (.ok response)
  | .ok _ :: rest => streamEnd rest

/-- A stream that has reported `u` ends in a way that takes it away: without a response, in an
error without usage, or with another usage. -/
def TakesAway (u : ModelTokenUsage) : Option (Except ProviderError ModelResponse) → Prop
  | none => True
  | some (.error e) => e.usage = none
  | some (.ok response) => ∃ v, response.usage = some v ∧ u ≠ v

def AttemptScript.reports (provider : Provider) (script : AttemptScript) :
    Option ModelTokenUsage × Option ModelTokenUsage :=
  if provider.capabilities.supportsStreaming then
    match script.streamed with
    | .error e => (none, e.usage)
    | .ok events => streamReports events none
  else
    match script.generated with
    | .error e => (none, e.usage)
    | .ok response => (none, response.usage)

namespace TransportCall

/-- The usage that an attempt has reported by its end. Of an interrupted attempt only the stream
has been seen. -/
def reported (provider : Provider) (call : TransportCall) : Option ModelTokenUsage :=
  let (streamed, final) := call.script.reports provider
  match call.script.ending with
  | .finished _ => final.or streamed
  | _ => streamed

def reports (provider : Provider) (call : TransportCall) : Bool :=
  (call.reported provider).isSome

/-- The entry that the usage of a run should have for an attempt. -/
def entry (provider : Provider) (call : TransportCall) : ModelCallUsage :=
  .ofReport "model" (call.reported provider)

/-- The stream of the attempt takes a usage away that it has reported. -/
def Forgotten (provider : Provider) (call : TransportCall) : Prop :=
  provider.capabilities.supportsStreaming = true ∧ ∃ events u,
    call.script.streamed = .ok events ∧ (streamReports events none).1 = some u ∧
      TakesAway u (streamEnd events)

end TransportCall

namespace AgentEffectOutcome

/-- The entries that a commit makes for the attempts of a provider effect. -/
def attemptEntries : AgentEffectOutcome → List ModelCallUsage
  | .provider response attempts =>
    if attempts.isEmpty then [.ofReport "model" response.usage]
    else attempts.map fun a => .ofReport "model" a.usage
  | .providerFailed error attempts =>
    if attempts.isEmpty then [.ofReport "model" error.usage]
    else attempts.map fun a => .ofReport "model" a.usage
  | _ => []

/-- The usage of the children whose results a commit merges. -/
def childUsages : AgentEffectOutcome → List RunUsage
  | .tool _ _ usage => usage.toList
  | .toolBatch outputs => outputs.flatMap (·.childUsage.toList)
  | _ => []

def childEntries (o : AgentEffectOutcome) : List ModelCallUsage :=
  o.childUsages.flatMap (·.modelCalls)

end AgentEffectOutcome

namespace LoopState

/-- Every attempt of the run that reported a usage has one entry with this usage, no attempt has
two, and the other entries are those of the children. -/
def KeepsUsage (provider : Provider) (l : LoopState) (usage : RunUsage) : Prop :=
  ∃ kept : List TransportCall, kept.Sublist l.calls ∧
    kept.filter (·.reports provider) = l.calls.filter (·.reports provider) ∧
    usage.modelCalls.Perm
      (kept.map (·.entry provider) ++ l.log.flatMap (·.2.childEntries))

/-- An effect is executed in which an attempt is forgotten, or one that ends without an outcome
although an attempt of it has reported a usage. -/
inductive DropsUsage [JsonText] [RequestText] (provider : Provider)
    (execute : Nat → AgentRunState → AgentRunEffect → EffectReport)
    (scripts : Nat → IterationScript) (l : LoopState) : Prop
  | forgotten (e : AgentRunEffect) (o : AgentEffectOutcome) (call : TransportCall) :
      (scripts l.iteration).cancelled = false → l.state.finishIfExhausted.2 = false →
      l.state.nextEffect = some e → (execute l.iteration l.state e).outcome = some (.ok o) →
      call ∈ (execute l.iteration l.state e).calls → call.Forgotten provider →
      DropsUsage provider execute scripts l
  | abandoned (e : AgentRunEffect) (err : RunError) (call : TransportCall) :
      (scripts l.iteration).cancelled = false → l.state.finishIfExhausted.2 = false →
      l.state.nextEffect = some e → (execute l.iteration l.state e).outcome = some (.error err) →
      call ∈ (execute l.iteration l.state e).calls → call.reports provider = true →
      DropsUsage provider execute scripts l

end LoopState

theorem usage_readStream {round : U32} {events : List (Except ProviderError ModelStreamEvent)}
    {streamed : Option ModelTokenUsage} {u : ModelTokenUsage}
    (h : (readStream round events streamed).usage = some u) :
    (streamReports events streamed).2.or (streamReports events streamed).1 = some u := by
  induction events generalizing streamed with
  | nil => simp [readStream, TransportRead.usage, ProviderError.terminal, ProviderError.new] at h
  | cons event rest ih =>
    cases event with
    | error e =>
      have hfinal : e.usage = some u := h
      simp [streamReports, hfinal]
    | ok event =>
      cases event with
      | done response =>
        simp only [readStream, TransportRead.usage] at h
        split at h
        · next hr =>
          split at hr
          · cases hr
          · cases hr
            exact h
        · next hr =>
          split at hr
          · cases hr
            simp [ProviderError.terminal, ProviderError.new] at h
          · cases hr
      | usage usage => exact ih h
      | textChunk => exact ih h
      | toolCallChunk => exact ih h

theorem usage_readStream_of_streamed {round : U32}
    {events : List (Except ProviderError ModelStreamEvent)} {streamed : Option ModelTokenUsage}
    {u : ModelTokenUsage} (h : (streamReports events streamed).1 = some u) :
    (readStream round events streamed).usage = none ↔ TakesAway u (streamEnd events) := by
  induction events generalizing streamed with
  | nil => simp [readStream, TransportRead.usage, streamEnd, TakesAway, ProviderError.terminal,
      ProviderError.new]
  | cons event rest ih =>
    cases event with
    | error e => exact Iff.rfl
    | ok event =>
      cases event with
      | done response =>
        obtain rfl : streamed = some u := h
        cases hu : response.usage with
        | none => simp [readStream, TransportRead.usage, conflictingUsage, streamEnd, TakesAway, hu]
        | some v =>
          by_cases hne : u = v <;>
            simp [readStream, TransportRead.usage, conflictingUsage, streamEnd, TakesAway, hu, hne,
              ProviderError.terminal, ProviderError.new]
      | usage usage => exact ih h
      | textChunk => exact ih h
      | toolCallChunk => exact ih h

theorem usage_readStream_of_silent {round : U32}
    {events : List (Except ProviderError ModelStreamEvent)} {streamed : Option ModelTokenUsage}
    (h : (streamReports events streamed).1 = none) :
    (readStream round events streamed).usage = (streamReports events streamed).2 := by
  induction events generalizing streamed with
  | nil => rfl
  | cons event rest ih =>
    cases event with
    | error e => rfl
    | ok event =>
      cases event with
      | done response =>
        obtain rfl : streamed = none := h
        simp [readStream, TransportRead.usage, conflictingUsage, streamReports]
      | usage usage => exact ih h
      | textChunk => exact ih h
      | toolCallChunk => exact ih h

/-- These are the attempts that have reported a usage and of which the runtime keeps none. -/
theorem TransportCall.forgotten_iff {provider : Provider} {call : TransportCall} :
    call.Forgotten provider ↔
      call.reports provider = true ∧
        (executeProviderEffect provider 0 call.script).usage = none := by
  rw [Forgotten, reports, reported, AttemptScript.reports, executeProviderEffect]
  cases hs : provider.capabilities.supportsStreaming with
  | false =>
    cases hg : call.script.generated <;> cases hend : call.script.ending <;>
      simp [TransportRead.usage, Option.isSome_iff_ne_none]
  | true =>
    cases hg : call.script.streamed with
    | error e =>
      cases hend : call.script.ending <;> simp [TransportRead.usage, Option.isSome_iff_ne_none]
    | ok events =>
      simp only [if_true]
      cases hr : (streamReports events none).1 with
      | none =>
        rw [usage_readStream_of_silent hr]
        cases hend : call.script.ending <;> simp [hr, Option.isSome_iff_ne_none]
      | some u =>
        rw [usage_readStream_of_streamed hr]
        cases hend : call.script.ending <;> simp [hr]

/-- What the runtime keeps of a finished attempt is what the attempt reported. -/
theorem TransportCall.reported_of_usage {provider : Provider} {round : U32} {call : TransportCall}
    {cancelled : Bool} {u : ModelTokenUsage} (hend : call.script.ending = .finished cancelled)
    (h : (executeProviderEffect provider round call.script).usage = some u) :
    call.reported provider = some u := by
  have hreports : (call.script.reports provider).2.or (call.script.reports provider).1 =
      some u := by
    unfold executeProviderEffect at h
    unfold AttemptScript.reports
    split at h
    · next hs =>
      simp only [hs, if_true]
      cases hg : call.script.streamed with
      | error e =>
        have hfinal : e.usage = some u := by simpa [hg, TransportRead.usage] using h
        simp [hfinal]
      | ok events => exact usage_readStream (by simpa only [hg] using h)
    · next hs =>
      simp only [hs, Bool.false_eq_true, if_false]
      cases hg : call.script.generated with
      | error e =>
        have hfinal : e.usage = some u := by simpa [hg, TransportRead.usage] using h
        simp [hfinal]
      | ok response =>
        have hfinal : response.usage = some u := by simpa [hg, TransportRead.usage] using h
        simp [hfinal]
  simpa only [reported, hend] using hreports

theorem usage_executeProviderEffect_round (provider : Provider) (round : U32)
    (script : AttemptScript) : (executeProviderEffect provider round script).usage =
      (executeProviderEffect provider 0 script).usage := by
  have hread (events : List (Except ProviderError ModelStreamEvent))
      (streamed : Option ModelTokenUsage) :
      (readStream round events streamed).usage = (readStream 0 events streamed).usage := by
    induction events generalizing streamed with
    | nil => rfl
    | cons event rest ih =>
      cases event with
      | error e => rfl
      | ok event => cases event <;> first | rfl | exact ih _
  unfold executeProviderEffect
  split
  · split
    · rfl
    · exact hread _ _
  · rfl

/-- The record of a finished attempt that is not forgotten makes the entry that it should have. -/
theorem TransportCall.entry_of_record {provider : Provider} {round : U32} {call : TransportCall}
    {cancelled : Bool} (hend : call.script.ending = .finished cancelled)
    (hkept : ¬ call.Forgotten provider) :
    ModelCallUsage.ofReport "model" (call.record provider round).usage = call.entry provider := by
  have hrecord : (call.record provider round).usage =
      (executeProviderEffect provider round call.script).usage := rfl
  cases hu : (executeProviderEffect provider round call.script).usage with
  | some u => rw [hrecord, hu, entry, reported_of_usage hend hu]
  | none =>
    have hnone : call.reported provider = none := by
      by_contra hne
      refine hkept (forgotten_iff.mpr ⟨Option.isSome_iff_ne_none.mpr hne, ?_⟩)
      rw [← usage_executeProviderEffect_round, hu]
    rw [hrecord, hu, entry, hnone]

section

variable {provider : Provider} {round : U32} {providerCallId : String} {reservation : U64}
  {allowed : U32}

theorem attemptStep_finished {read : TransportRead} {script : AttemptScript} {attempt : U8}
    (hpending : attemptStep read script providerCallId attempt allowed ≠ .pending)
    (habandoned : ∀ e, attemptStep read script providerCallId attempt allowed ≠ .abandoned e) :
    ∃ cancelled, script.ending = .finished cancelled := by
  cases hend : script.ending with
  | pending => exact absurd (by simp only [attemptStep, hend]) hpending
  | interrupted => exact absurd (by simp only [attemptStep, hend]) (habandoned .cancelled)
  | finished cancelled => exact ⟨cancelled, rfl⟩

theorem attemptLoop_finished {scripts : List AttemptScript} {attempt : U8}
    {attempts : List ProviderAttempt} {o : AgentEffectOutcome} {call : TransportCall}
    (h : (attemptLoop provider round providerCallId reservation allowed scripts attempt
      attempts).outcome = some (.ok o))
    (hcall : call ∈ (attemptLoop provider round providerCallId reservation allowed scripts attempt
      attempts).calls) : ∃ cancelled, call.script.ending = .finished cancelled := by
  induction scripts generalizing attempt attempts with
  | nil => simp [attemptLoop, EffectReport.pending] at h
  | cons script rest ih =>
    simp only [attemptLoop, List.mem_cons] at h hcall
    have hfirst (hpending : attemptStep (executeProviderEffect provider round script) script
          providerCallId attempt allowed ≠ .pending)
        (habandoned : ∀ e, attemptStep (executeProviderEffect provider round script) script
          providerCallId attempt allowed ≠ .abandoned e) (hnone : call ∈ ([] : List TransportCall) ∨
          call = { attempt, reservation, script }) :
        ∃ cancelled, call.script.ending = .finished cancelled := by
      rcases hnone with hnone | rfl
      · cases hnone
      · exact attemptStep_finished hpending habandoned
    cases hstep : attemptStep (executeProviderEffect provider round script) script providerCallId
        attempt allowed with
    | pending => simp [hstep, EffectReport.pending] at h
    | abandoned e => simp [hstep, EffectReport.ended] at h
    | answered response =>
      simp only [hstep, EffectReport.ended] at hcall
      exact hfirst (by simp [hstep]) (by simp [hstep]) hcall.symm
    | failed source =>
      simp only [hstep, EffectReport.ended] at hcall
      exact hfirst (by simp [hstep]) (by simp [hstep]) hcall.symm
    | retried source =>
      simp only [hstep] at h hcall
      rcases hcall with rfl | hcall
      · exact hfirst (by simp [hstep]) (by simp [hstep]) (.inr rfl)
      · exact ih h hcall

theorem attemptLoop_attemptEntries {scripts : List AttemptScript} {attempt : U8}
    {o : AgentEffectOutcome} {report : EffectReport}
    (hreport : attemptLoop provider round providerCallId reservation allowed scripts attempt [] =
      report) (h : report.outcome = some (.ok o))
    (hkept : ∀ call ∈ report.calls, ¬ call.Forgotten provider) :
    o.attemptEntries = report.calls.map (·.entry provider) := by
  obtain ⟨hne, ho⟩ := attemptLoop_outcome hreport h
  rw [List.nil_append] at ho
  have hattempts (usage : Option ModelTokenUsage) :
      (if (report.calls.map (·.record provider round)).isEmpty then
        [ModelCallUsage.ofReport "model" usage]
      else (report.calls.map (·.record provider round)).map fun a => .ofReport "model" a.usage) =
        report.calls.map (·.entry provider) := by
    rw [if_neg (by simpa using hne), List.map_map]
    refine List.map_congr_left fun call hcall => ?_
    obtain ⟨_, hend⟩ := attemptLoop_finished (hreport ▸ h) (hreport ▸ hcall)
    exact TransportCall.entry_of_record hend (hkept call hcall)
  rcases ho with ⟨response, _, rfl⟩ | ⟨error, rfl⟩
  · exact hattempts response.usage
  · exact hattempts error.usage

end

theorem modelCalls_recordProviderEffect [RequestText] (s : AgentRunState)
    (attempts : List ProviderAttempt) (usage : Option ModelTokenUsage) :
    (s.recordProviderEffect attempts usage).usage.modelCalls = s.usage.modelCalls ++
      if attempts.isEmpty then [.ofReport "model" usage]
      else attempts.map fun a => .ofReport "model" a.usage := by
  have hfold (attempts : List ProviderAttempt) (u : RunUsage) :
      (attempts.foldl (fun u a => u.addCall "model" a.usage) u).modelCalls =
        u.modelCalls ++ attempts.map fun a => ModelCallUsage.ofReport "model" a.usage := by
    induction attempts generalizing u with
    | nil => simp
    | cons a attempts ih => simp [ih]
  unfold recordProviderEffect recordProviderAttempts
  split
  · exact RunUsage.modelCalls_addCall _ _ _
  · exact hfold attempts s.usage

theorem modelCalls_resolveCall [JsonText] (s : AgentRunState) (call : ModelToolCall)
    (output : Value) (usage : Option RunUsage) (reservation : Option DelegationBudget) :
    (s.resolveCall call output usage reservation).usage.modelCalls =
      s.usage.modelCalls ++ usage.toList.flatMap (·.modelCalls) := by
  cases usage <;> cases reservation <;> simp [resolveCall, mergeChildUsage, reserveChild]

theorem modelCalls_foldl_resolveItem [JsonText]
    (items : List (ModelToolCall × ToolEffectResult × Option DelegationBudget))
    (s : AgentRunState) :
    (items.foldl resolveItem s).usage.modelCalls = s.usage.modelCalls ++
      items.flatMap fun item => item.2.1.childUsage.toList.flatMap (·.modelCalls) := by
  induction items generalizing s with
  | nil => simp
  | cons item items ih =>
    have hstep := ih (s.resolveItem item)
    have hitem : (s.resolveItem item).usage.modelCalls =
        s.usage.modelCalls ++ item.2.1.childUsage.toList.flatMap (·.modelCalls) :=
      modelCalls_resolveCall _ _ _ _ _
    rw [List.foldl_cons, hstep, hitem, List.flatMap_cons, List.append_assoc]

theorem AgentRunState.Committed.usage_modelCalls [JsonText] [RequestText] {s s' : AgentRunState}
    {e : AgentRunEffect} {o : AgentEffectOutcome} (hc : Committed s e o s') :
    s'.usage.modelCalls = s.usage.modelCalls ++ (o.attemptEntries ++ o.childEntries) := by
  cases hc with
  | response response attempts ht =>
    have happly (t : AgentRunState) :
        (t.applyResponse response).usage.modelCalls = t.usage.modelCalls := by
      unfold applyResponse
      split
      · rfl
      · split <;> rfl
    rw [acceptResponse, happly, modelCalls_recordProviderEffect]
    simp [AgentEffectOutcome.attemptEntries, AgentEffectOutcome.childEntries,
      AgentEffectOutcome.childUsages]
  | failure error attempts ht =>
    rw [(sameLedger_fail (s.recordProviderEffect attempts error.usage) error.message).entries,
      modelCalls_recordProviderEffect]
    simp [AgentEffectOutcome.attemptEntries, AgentEffectOutcome.childEntries,
      AgentEffectOutcome.childUsages]
  | exhausted required ht =>
    rw [(sameLedger_markIncomplete s).entries]
    simp [AgentEffectOutcome.attemptEntries, AgentEffectOutcome.childEntries,
      AgentEffectOutcome.childUsages]
  | tool call rest output attempts usage ht => exact modelCalls_resolveCall _ _ _ _ _
  | batch call rest outputs ht hlen =>
    have hitems : (s.batchItems outputs).flatMap
          (fun item => item.2.1.childUsage.toList.flatMap (·.modelCalls)) =
        outputs.flatMap fun output => output.childUsage.toList.flatMap (·.modelCalls) := by
      conv_rhs => rw [← batchItems_outputs hlen, List.flatMap_map]
    rw [modelCalls_foldl_resolveItem, hitems]
    simp [AgentEffectOutcome.attemptEntries, AgentEffectOutcome.childEntries,
      AgentEffectOutcome.childUsages, List.flatMap_assoc]

section

variable [JsonText] [RequestText] [ArgumentSchema] {agent : Agent}
  {runChild : Nat → Agent → String → RunOptions → RunReport} {script : EffectScript}
  {s : AgentRunState} {e : AgentRunEffect} {o : AgentEffectOutcome}

/-- An outcome makes the entries that the attempts of its effect should have, if none of them is
forgotten. -/
theorem executeEffect_attemptEntries
    (h : (executeEffect agent runChild script s e).outcome = some (.ok o))
    (hkept : ∀ call ∈ (executeEffect agent runChild script s e).calls,
      ¬ call.Forgotten agent.provider) :
    o.attemptEntries =
      (executeEffect agent runChild script s e).calls.map (·.entry agent.provider) := by
  rcases executeEffect_cases agent runChild script s e with ⟨_, hx⟩ | ⟨_, _, _, hx⟩
  · simp [hx, EffectReport.ended] at h
  rw [hx] at h hkept ⊢
  cases e with
  | providerCall id providerCallId round request =>
    rw [executeAdmitted] at h hkept ⊢
    rcases executeProvider_cases agent s request providerCallId round script.attempts with
      ⟨_, _, hp⟩ | ⟨_, _, _, _, ⟨_, hp⟩ | ⟨_, hp⟩⟩ <;> rw [hp] at h hkept ⊢
    · simp [EffectReport.ended] at h
    · simp only [EffectReport.ended, Option.some.injEq, Except.ok.injEq] at h
      subst h
      rfl
    · exact attemptLoop_attemptEntries rfl h hkept
  | toolCall =>
    obtain ⟨_, _, _, rfl⟩ := executeOneTool_outcome h
    rfl
  | toolBatch id calls =>
    obtain ⟨all, rfl, _⟩ := executeChunks_outcome h
    rfl

end

namespace LoopState

variable {provider : Provider} {l l' : LoopState} {usage usage' : RunUsage}

theorem KeepsUsage.entry_mem {call : TransportCall} (h : l.KeepsUsage provider usage)
    (hcall : call ∈ l.calls) (hreports : call.reports provider = true) :
    call.entry provider ∈ usage.modelCalls := by
  obtain ⟨kept, _, hfilter, hperm⟩ := h
  have hmem : call ∈ kept.filter (·.reports provider) := by
    rw [hfilter]
    exact List.mem_filter.mpr ⟨hcall, hreports⟩
  have hkept := (List.mem_filter.mp hmem).1
  exact hperm.mem_iff.mpr (List.mem_append_left _ (List.mem_map_of_mem hkept))

theorem KeepsUsage.append {calls : List TransportCall} {e : AgentRunEffect}
    {o : AgentEffectOutcome} (h : l.KeepsUsage provider usage)
    (hcalls : l'.calls = l.calls ++ calls) (hlog : l'.log = l.log ++ [(e, o)])
    (hentries : o.attemptEntries = calls.map (·.entry provider))
    (husage : usage'.modelCalls = usage.modelCalls ++ (o.attemptEntries ++ o.childEntries)) :
    l'.KeepsUsage provider usage' := by
  obtain ⟨kept, hsub, hfilter, hperm⟩ := h
  refine ⟨kept ++ calls, ?_, ?_, ?_⟩
  · rw [hcalls]
    exact hsub.append (List.Sublist.refl calls)
  · rw [hcalls, List.filter_append, List.filter_append, hfilter]
  · rw [husage, hentries, hlog, List.map_append, List.flatMap_append, List.flatMap_singleton]
    rw [List.perm_iff_count] at hperm ⊢
    intro a
    have hcount := hperm a
    simp only [List.count_append] at hcount ⊢
    omega

/-- Attempts that have reported nothing are added without entries. -/
theorem KeepsUsage.silent {calls : List TransportCall} (h : l.KeepsUsage provider usage)
    (hcalls : l'.calls = l.calls ++ calls) (hlog : l'.log = l.log)
    (hsilent : ∀ call ∈ calls, call.reports provider = false)
    (husage : usage'.modelCalls = usage.modelCalls) : l'.KeepsUsage provider usage' := by
  obtain ⟨kept, hsub, hfilter, hperm⟩ := h
  refine ⟨kept, ?_, ?_, ?_⟩
  · rw [hcalls]
    exact hsub.trans (List.sublist_append_left _ _)
  · have hnone : calls.filter (·.reports provider) = [] := by
      simpa [List.filter_eq_nil_iff] using hsilent
    rw [hcalls, List.filter_append, hnone, List.append_nil, hfilter]
  · rw [husage, hlog]
    exact hperm

/-- The handle shows the usage of the state, and this usage is kept. -/
structure Ledger (provider : Provider) (l : LoopState) : Prop where
  kept : l.KeepsUsage provider l.usage
  shown : l.usage.modelCalls = l.state.usage.modelCalls

theorem Ledger.start (s : AgentRunState) (h : s.usage = .new) : Ledger provider (.start s) := by
  refine ⟨⟨[], List.Sublist.refl _, rfl, ?_⟩, ?_⟩
  · exact List.Perm.refl _
  · have hstart : (LoopState.start s).state.usage = .new := h
    rw [hstart]
    rfl

theorem Ledger.silent {calls : List TransportCall} (h : l.Ledger provider)
    (hcalls : l'.calls = l.calls ++ calls) (hlog : l'.log = l.log)
    (hsilent : ∀ call ∈ calls, call.reports provider = false)
    (hstate : l'.state.usage.modelCalls = l.state.usage.modelCalls)
    (hshown : l'.usage.modelCalls = l'.state.usage.modelCalls) : l'.Ledger provider :=
  ⟨h.kept.silent hcalls hlog hsilent ((hshown.trans hstate).trans h.shown.symm), hshown⟩

theorem Ledger.quiet (h : l.Ledger provider) (hcalls : l'.calls = l.calls) (hlog : l'.log = l.log)
    (hstate : l'.state.usage.modelCalls = l.state.usage.modelCalls)
    (hshown : l'.usage.modelCalls = l'.state.usage.modelCalls) : l'.Ledger provider := by
  have hnone : l'.calls = l.calls ++ [] := by rw [hcalls, List.append_nil]
  exact h.silent hnone hlog (fun _ hnil => by cases hnil) hstate hshown

theorem Ledger.finishCancelled {result : Except RunError RunResult} (h : l.Ledger provider)
    (hend : l.finishCancelled = .ended l' result) : l'.Ledger provider := by
  cases hend
  exact h.quiet rfl rfl (sameLedger_cancel l.state).entries rfl

section

variable [JsonText] [RequestText] [ArgumentSchema] {env : Environment}
  {run : RunPath → Agent → String → RunOptions → RunReport} {path : RunPath} {agent : Agent}
  {scripts : Nat → IterationScript} {deadline : Option Duration} {e : AgentRunEffect}
  {o : AgentEffectOutcome} {s : AgentRunState}

theorem Ledger.committed (h : l.Ledger agent.provider) (records : List RunRecord)
    (hkept : ∀ call ∈ (env.execute run path agent l.iteration l.state e).calls,
      ¬ call.Forgotten agent.provider)
    (ho : (env.execute run path agent l.iteration l.state e).outcome = some (.ok o))
    (hc : Committed (l.state.recordElapsed (scripts l.iteration).elapsedMs) e o s) :
    (((l.absorb e (env.execute run path agent l.iteration l.state e)).emit
      (completedEvents e o)).commitTo e o records s).Ledger agent.provider := by
  have hentries := executeEffect_attemptEntries ho hkept
  have husage := hc.usage_modelCalls
  refine ⟨h.kept.append (e := e) (o := o) rfl rfl hentries ?_, rfl⟩
  rw [h.shown]
  exact husage

theorem Ledger.turn (h : l.Ledger agent.provider) (result : Except RunError RunResult)
    (hkeep : ¬ l.DropsUsage agent.provider (env.execute run path agent) scripts)
    (hturn : l.turn (env.execute run path agent) scripts deadline = .next l' ∨
      l.turn (env.execute run path agent) scripts deadline = .ended l' result) :
    l'.Ledger agent.provider := by
  have ht := LoopState.turns (env.execute run path agent) scripts deadline l
  by_cases hflag : (scripts l.iteration).cancelled = true
  · simp only [LoopState.turn, hflag, if_true] at hturn
    exact h.finishCancelled (hturn.resolve_left (by simp [LoopState.finishCancelled]))
  have hflag : (scripts l.iteration).cancelled = false := by simpa using hflag
  by_cases hx : l.state.finishIfExhausted.2 = true
  · simp only [LoopState.turn, hflag, hx, Bool.false_eq_true, if_false, if_true] at hturn
    rcases hturn with hturn | hturn <;> cases hturn
    exact h.quiet rfl rfl (sameLedger_finishIfExhausted l.state).entries rfl
  have hx : l.state.finishIfExhausted.2 = false := by simpa using hx
  have habandoned (e : AgentRunEffect) (err : RunError) (he : l.state.nextEffect = some e)
      (ho : (env.execute run path agent l.iteration l.state e).outcome = some (.error err)) :
      ∀ call ∈ (env.execute run path agent l.iteration l.state e).calls,
        call.reports agent.provider = false := by
    intro call hcall
    by_contra hreports
    exact hkeep (.abandoned e err call hflag hx he ho hcall (by simpa using hreports))
  generalize l.turn (env.execute run path agent) scripts deadline = t at ht hturn
  cases ht with
  | cancelled hcancelled => simp [hflag] at hcancelled
  | exhausted s hexhausted => simp [hexhausted] at hx
  | idle =>
    rcases hturn with hturn | hturn <;> cases hturn
    exact h.quiet rfl rfl rfl rfl
  | blocked => rcases hturn with hturn | hturn <;> cases hturn
  | interrupted e he ho =>
    rcases hturn with hturn | hturn <;> cases hturn
    exact h.silent rfl rfl (habandoned e _ he ho) (sameLedger_cancel l.state).entries rfl
  | failed e err he ho =>
    rcases hturn with hturn | hturn <;> cases hturn
    exact h.silent rfl rfl (habandoned e err he ho) (sameLedger_fail l.state _).entries rfl
  | completed e o t _ _ he ho hcompletes =>
    have hkept : ∀ call ∈ (env.execute run path agent l.iteration l.state e).calls,
        ¬ call.Forgotten agent.provider := fun call hcall hforgotten =>
      hkeep (.forgotten e o call hflag hx he ho hcall hforgotten)
    have hcommitted (records : List RunRecord) {s : AgentRunState}
        (hcommit : (l.state.recordElapsed (scripts l.iteration).elapsedMs).commitEffect
          e.effectId o = (s, .ok ())) :
        (((l.absorb e (env.execute run path agent l.iteration l.state e)).emit
          (completedEvents e o)).commitTo e o records s).Ledger agent.provider := by
      have hc : Committed (l.state.recordElapsed (scripts l.iteration).elapsedMs) e o s :=
        committed_of_nextEffect he hcommit
      exact h.committed records hkept ho hc
    cases hcompletes with
    | refused records s err hrefused =>
      exact absurd hrefused (executeEffect_not_refused he ho)
    | invalid records s err hcommit =>
      rcases hturn with hturn | hturn <;> cases hturn
      exact hcommitted records hcommit
    | failed records s hcommit =>
      rcases hturn with hturn | hturn <;> cases hturn
      exact (hcommitted records hcommit).quiet rfl rfl rfl rfl
    | committed records s hcommit =>
      have hs := hcommitted records hcommit
      rcases LoopState.afterCommit_cases deadline (scripts l.iteration)
          (((l.absorb e (env.execute run path agent l.iteration l.state e)).emit
            (completedEvents e o)).commitTo e o records s) with
        ⟨_, hafter⟩ | ⟨_, _, hafter⟩ | ⟨_, _, _, hafter⟩ <;> rw [hafter] at hturn
      · exact hs.finishCancelled (hturn.resolve_left (by simp [LoopState.finishCancelled]))
      · rcases hturn with hturn | hturn <;> cases hturn
        exact hs.quiet rfl rfl rfl rfl
      · rcases hturn with hturn | hturn <;> cases hturn
        exact hs.quiet rfl rfl rfl rfl

end

end LoopState

/-- The run ends in the loop state `l`. -/
def Environment.EndsIn [JsonText] [RequestText] [ArgumentSchema] (env : Environment) (fuel : Nat)
    (path : RunPath) (agent : Agent) (userMessage : String) (options : RunOptions)
    (l : LoopState) : Prop :=
  ∃ t result, env.Visits fuel path agent userMessage options t ∧
    env.turn fuel path agent options t = .ended l result

/-- In a run of which no iteration drops a usage, the usage at its end keeps what every attempt
has reported, and so does the usage of its result. -/
theorem reported_usage_kept [JsonText] [RequestText] [ArgumentSchema] (env : Environment)
    (fuel : Nat) (path : RunPath) (agent : Agent) (userMessage : String) (options : RunOptions)
    (result : Except RunError RunResult) (l : LoopState)
    (hended : (runAgent env (fuel + 1) path agent userMessage options).result = some result)
    (hl : env.EndsIn fuel path agent userMessage options l)
    (hkeep : ∀ u, env.Visits fuel path agent userMessage options u →
      ¬ u.DropsUsage agent.provider (env.execute (runAgent env fuel) path agent)
        (env.script path)) :
    l.KeepsUsage agent.provider (runAgent env (fuel + 1) path agent userMessage options).usage ∧
      ∀ r, result = .ok r →
        r.usage = (runAgent env (fuel + 1) path agent userMessage options).usage := by
  obtain ⟨t, result', hvisits, hend⟩ := hl
  rcases runAgent_ended hended with ⟨e, hs, _⟩ | ⟨u, l', hu, hend', _, _, husage⟩
  · obtain ⟨s, hs', _⟩ := hvisits
    simp [hs] at hs'
  · obtain rfl := hvisits.eq_of_stops hu (by simp [hend]) (by simp [hend'])
    obtain ⟨rfl, rfl⟩ := Turn.ended.inj (hend.symm.trans hend')
    have hledger : t.Ledger agent.provider := by
      obtain ⟨s, hs, hr⟩ := hvisits
      have hstart : LoopState.Ledger agent.provider (.start s) := by
        obtain ⟨_, _, rfl⟩ := Agent.prepareState_eq_ok_iff.mp hs
        exact .start _ rfl
      have hinv : env.Visits fuel path agent userMessage options t ∧ t.Ledger agent.provider := by
        refine Reaches.invariant (I := fun u => env.Visits fuel path agent userMessage options u ∧
          u.Ledger agent.provider) hr ⟨⟨s, hs, .refl⟩, hstart⟩ ?_
        rintro u v ⟨hu, hledger⟩ hnext
        exact ⟨hu.next (.single hnext),
          hledger.turn (.error .cancelled) (hkeep u hu) (.inl hnext)⟩
      exact hinv.2
    rw [husage]
    refine ⟨(hledger.turn _ (hkeep t hvisits) (.inr hend)).kept, fun r hr => ?_⟩
    subst hr
    obtain ⟨_, _, hhead⟩ := hvisits.runHead
    have hrun := hhead.ended hend
    exact hrun.resultUsage.trans hrun.usage.symm

namespace Sample

def usage : ModelTokenUsage :=
  { input := some 7, output := some 2, cachedInput := none, reasoning := none
    providerTotal := none }

end Sample

theorem reported_usage_kept_sample :
    let _ := Sample.jsonText
    let _ := Sample.requestText
    let _ := Sample.argumentSchema
    let env := Sample.environment fun _ =>
      Sample.iteration
        [Sample.answering { Sample.textResponse "hi" with usage := some Sample.usage }] []
    ∃ l, env.EndsIn 1 [] (Sample.agent false) "hello" {} l ∧
      l.KeepsUsage (Sample.provider false)
        (runAgent env 2 [] (Sample.agent false) "hello" {}).usage := by
  intro _ _ _ env
  obtain ⟨result, hresult⟩ := Option.isSome_iff_exists.mp
    (by decide +kernel : (runAgent env 2 [] (Sample.agent false) "hello" {}).result.isSome = true)
  rcases runAgent_ended hresult with ⟨_, hs, _⟩ | ⟨t, l, hvisits, hend, _⟩
  · cases hs
  have hends : env.EndsIn 1 [] (Sample.agent false) "hello" {} l := ⟨t, result, hvisits, hend⟩
  refine ⟨l, hends, (reported_usage_kept env 1 [] (Sample.agent false) "hello" {} result l hresult
    hends ?_).1⟩
  rintro u ⟨s, hs, hr⟩ hdrops
  obtain rfl : Sample.started false = s :=
    Except.ok.inj ((Sample.prepareState_agent false).symm.trans hs)
  rcases hr.cases_head with rfl | ⟨v, hnext, _⟩
  · have hturn : (Sample.started false).ProviderTurn := ⟨rfl, rfl, by decide +kernel⟩
    have heffect {e : AgentRunEffect} (he : (Sample.started false).nextEffect = some e) :
        (Sample.started false).providerEffect = e :=
      Option.some.inj (hturn.nextEffect.symm.trans he)
    cases hdrops with
    | forgotten e o call _ _ he _ hcall hforgotten =>
      obtain rfl := heffect he
      have hsome : ((env.execute (runAgent env 1) [] (Sample.agent false) 0 (Sample.started false)
          (Sample.started false).providerEffect).calls.all fun call =>
            (executeProviderEffect (Sample.provider false) 0 call.script).usage.isSome) = true := by
        decide +kernel
      have hcall := List.all_eq_true.mp hsome call hcall
      have hnone : (executeProviderEffect (Sample.provider false) 0 call.script).usage = none :=
        (TransportCall.forgotten_iff.mp hforgotten).2
      simp [hnone] at hcall
    | abandoned e err call _ _ he ho =>
      obtain rfl := heffect he
      have hok : ((env.execute (runAgent env 1) [] (Sample.agent false) 0 (Sample.started false)
          (Sample.started false).providerEffect).outcome.all (·.isOk)) = true := by
        decide +kernel
      have ho : (env.execute (runAgent env 1) [] (Sample.agent false) 0 (Sample.started false)
          (Sample.started false).providerEffect).outcome = some (.error err) := ho
      simp [ho, Except.isOk, Except.toBool] at hok
  · have hlast := congrArg (fun t : LocalTurn => match t with | .next _ => true | _ => false) hnext
    refine absurd (hlast.trans (b := _) (c := true) rfl) ?_
    decide +kernel

/-- A stream that ends after a usage event, without a response: its usage is not kept. -/
theorem reported_usage_lost :
    ¬ ∀ (_ : JsonText) (_ : RequestText) (_ : ArgumentSchema) (env : Environment) (fuel : Nat)
      (path : RunPath) (agent : Agent) (userMessage : String) (options : RunOptions)
      (l : LoopState), env.EndsIn fuel path agent userMessage options l →
      l.KeepsUsage agent.provider
        (runAgent env (fuel + 1) path agent userMessage options).usage := by
  intro claim
  let _ := Sample.jsonText
  let _ := Sample.requestText
  let _ := Sample.argumentSchema
  let env := Sample.environment fun _ =>
    Sample.iteration
      [{ generated := .ok (Sample.textResponse "hi"), streamed := .ok [.ok (.usage Sample.usage)]
         ending := .finished false, retryInterrupted := false }] []
  obtain ⟨turn, hturn⟩ : ∃ turn, turn = env.turn 1 [] (Sample.agent true) {}
      (.start (Sample.started true)) := ⟨_, rfl⟩
  have hcalls : turn.state.calls.map (·.reported (Sample.provider true)) = [some Sample.usage] := by
    rw [hturn]
    decide +kernel
  have hends : (match turn with | .ended _ _ => true | _ => false) = true := by
    rw [hturn]
    decide +kernel
  have hentries : (runAgent env 2 [] (Sample.agent true) "hello" {}).usage.modelCalls =
      [.ofReport "model" none] := by
    decide +kernel
  cases turn with
  | next l => cases hends
  | blocked l => cases hends
  | ended l result =>
    have hkept : l.KeepsUsage (Sample.provider true)
        (runAgent env 2 [] (Sample.agent true) "hello" {}).usage :=
      claim _ _ _ env 1 [] (Sample.agent true) "hello" {} l
        ⟨_, result, ⟨_, Sample.prepareState_agent true, .refl⟩, hturn.symm⟩
    obtain ⟨call, hcall, hreported⟩ : ∃ call ∈ l.calls,
        call.reported (Sample.provider true) = some Sample.usage := by
      rw [← List.mem_map]
      exact hcalls ▸ List.mem_singleton_self _
    have hentry := hkept.entry_mem hcall (Option.isSome_iff_exists.mpr ⟨_, hreported⟩)
    rw [hentries, TransportCall.entry, hreported] at hentry
    revert hentry
    decide

end Agentive
