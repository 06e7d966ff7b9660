import Agentive.DelegationPolicy
import Agentive.DurableDelivery

/-! The budget of a durable run. A delivery whose worker is lost has spent what it has spent, and
only the last delivery of an activity is charged. -/

namespace Agentive

open AgentRunState Allowance

namespace Account

variable [JsonText] [RequestText] [ArgumentSchema] {agent : Agent}
  {runChild : Nat → Agent → String → RunOptions → RunReport} {s t : AgentRunState}
  {e : AgentRunEffect} {o : AgentEffectOutcome}

/-- Tool effects are charged with what is reserved for them, so any execution of theirs is covered,
not only the one whose outcome is committed. -/
theorem charge_tools (acc : Account) (hg : acc.Governs s) (hbegun : s.Begun)
    (hrun : ∀ i child task options, (runChild i child task options).WithinOptions options)
    (script : EffectScript) (he : e.isProviderCall = false) (hc : Committed s e o t) :
    min (acc.charged s + acc.spentBy (executeEffect agent runChild script s e)) acc.limit ≤
      acc.charged t := by
  cases hc with
  | response response attempts ht => simp [providerEffect, AgentRunEffect.isProviderCall] at he
  | failure error attempts ht => simp [providerEffect, AgentRunEffect.isProviderCall] at he
  | exhausted required ht => simp [providerEffect, AgentRunEffect.isProviderCall] at he
  | tool call rest output attempts usage ht =>
    have hone : 1 ≤ s.modelCalls.val := hbegun (by simp [ht.pending])
    have hspent := (acc.spend_tool agent hg hone hrun script ht.pending).1
    have hcharge := acc.charged_resolveCall s call output usage (s.delegationBudgetFor call)
    have hle : acc.spentBy (executeEffect agent runChild script s (s.toolEffect call)) ≤
        acc.reserved (s.delegationBudgetFor call) := by
      rcases executeEffect_cases agent runChild script s (s.toolEffect call) with
        ⟨_, h⟩ | ⟨_, _, _, h⟩ <;> rw [h]
      · exact Nat.zero_le _
      · rw [toolEffect, executeAdmitted, spentBy_member]
        exact hspent
    exact Nat.le_trans (min_le_min_right _ (Nat.add_le_add_left hle _)) hcharge
  | batch call rest outputs ht hlen =>
    have hone : 1 ≤ s.modelCalls.val := hbegun (by simp [ht.pending])
    have hspent := (acc.spend_batch agent hg hone hrun script).1
    have hcharge := acc.charged_foldl_resolveItem (s.batchItems outputs) s
    rw [acc.sum_batchItems hlen] at hcharge
    have hle : acc.spentBy (executeEffect agent runChild script s (s.toolBatchEffect call)) ≤
        (s.pendingTools.map fun call => acc.reserved (s.delegationBudgetFor call)).sum := by
      rcases executeEffect_cases agent runChild script s (s.toolBatchEffect call) with
        ⟨_, h⟩ | ⟨_, _, _, h⟩ <;> rw [h]
      · exact Nat.zero_le _
      · rw [toolBatchEffect, executeAdmitted, spentBy_member]
        exact hspent
    exact Nat.le_trans (min_le_min_right _ (Nat.add_le_add_left hle _)) hcharge

end Account

section

variable [JsonText] [RequestText] [ArgumentSchema] {env : Environment}

theorem startRun_within {run : RunPath → Agent → String → RunOptions → RunReport}
    (hrun : ∀ path child task options, (run path child task options).WithinOptions options)
    (fuel : Nat) (path : RunPath) (agent : Agent) (userMessage : String) (options : RunOptions) :
    (startRun agent (env.execute run path agent) (env.script path) fuel (env.runId path)
      userMessage options).WithinOptions options := by
  rw [startRun]
  split
  · exact ⟨Nat.zero_le _, fun _ _ => Nat.zero_le _, rfl, by simp⟩
  · next s hs =>
    obtain ⟨_, _, rfl⟩ := Agent.prepareState_eq_ok_iff.mp hs
    have hmax : 1 ≤ (agent.runPlan options).providerMaxAttempts.val := by
      simp only [Agent.runPlan, Capped.val_max, Capped.val_one]
      omega
    have hspent (acc : Account) (hg : acc.Governs (.withPlan (env.runId path)
        (Agent.compileMessages userMessage options) ⟨options.modelCallLimit.cast⟩
        (agent.runPlan options))) :=
      spent_drive_le env path agent (env.script path) options.deadline _ hg hmax
        (fun hp => absurd rfl hp) hrun fuel
    have hcalls : _ ≤ (options.modelCallLimit.cast : U32).val :=
      hspent (.calls options.modelCallLimit.cast) rfl
    rw [Account.spent, Account.sum_weight_calls, TreeLog.weight,
      Account.sum_weight_calls] at hcalls
    refine ⟨?_, fun limit hlimit => ?_, rfl, depths_drive_le _ hrun fuel⟩
    · rw [List.length_append]
      exact Nat.le_trans hcalls (Nat.min_le_left _ _)
    · have htokens : _ ≤ limit.val := hspent (.tokens limit) hlimit
      rw [List.map_append, List.sum_append]
      exact htokens

theorem runAgent_within (fuel : Nat) (path : RunPath) (agent : Agent) (userMessage : String)
    (options : RunOptions) :
    (runAgent env fuel path agent userMessage options).WithinOptions options := by
  induction fuel generalizing path agent userMessage options with
  | zero => exact ⟨Nat.zero_le _, fun _ _ => Nat.zero_le _, rfl, by simp [runAgent]⟩
  | succ fuel ih => exact startRun_within ih fuel path agent userMessage options

end

/-- A run whose budget an account keeps. -/
structure Account.Opened (acc : Account) (s : AgentRunState) : Prop where
  governs : acc.Governs s
  begun : s.Begun
  attempts : 1 ≤ s.plan.providerMaxAttempts.val

/-- A part of the deliveries of each activity, by what it costs. What it costs is left before it,
and is charged when the activity is committed. -/
structure Account.Pays [JsonText] [RequestText] (acc : Account) (config : TemporalRunConfig)
    (activities : Activities) (cost : Scheduled → Nat) : Prop where
  bound : ∀ s a, acc.Opened s → ExecutionLoop.Schedules config s a →
    cost a ≤ acc.limit - acc.charged s
  charge : ∀ s a output t, acc.Opened s → ExecutionLoop.Schedules config s a →
    activities a.index a.input a.options = .ok output →
    Committed s a.input.effect output.intoParts.1 t →
    min (acc.charged s + cost a) acc.limit ≤ acc.charged t

section

variable [JsonText] [RequestText] {acc : Account} {config : TemporalRunConfig}
  {activities : Activities} {cost : Scheduled → Nat} {s t : AgentRunState} {l : List Scheduled}

theorem Account.Opened.committed {e : AgentRunEffect} {o : AgentEffectOutcome}
    (h : acc.Opened s) (hc : Committed s e o t) (ms : U64) :
    acc.Opened (t.recordElapsed ms).finishIfExhausted.1 := by
  have hl := sameLedger_settled t ms
  obtain ⟨hplan, hbudget⟩ := hc.fixed
  refine ⟨?_, (h.begun.committed hc).sameLedger hl, ?_⟩
  · exact h.governs.of_fixed (hl.plan.trans hplan) (hl.budget.trans hbudget)
  · rw [hl.plan, hplan]
    exact h.attempts

theorem Course.cost_le (h : Course config activities s l) (hpays : acc.Pays config activities cost)
    (hs : acc.Opened s) {spent : Nat} (hcovered : Covered acc.limit (acc.charged s) spent) :
    spent + (l.map cost).sum ≤ acc.limit := by
  induction h generalizing spent with
  | idle s => exact hcovered.limit
  | last ha =>
    rw [List.map_singleton, List.sum_singleton]
    exact hcovered.spent_add_le (hpays.bound _ _ hs ha)
  | @commit s t a output rest ha ho hc hrest ih =>
    have hcharge := hpays.charge s a output t hs ha ho hc
    rw [← acc.charged_sameLedger (sameLedger_settled t output.intoParts.2)] at hcharge
    have hrest := ih (hs.committed hc _) (hcovered.spend (hpays.bound s a hs ha) hcharge)
    rw [List.map_cons, List.sum_cons, ← Nat.add_assoc]
    exact hrest

end

section

variable [JsonText] [RequestText] [ArgumentSchema]

/-- What a delivery spends, whether its worker reports or not. -/
def Account.spentIn (acc : Account) (agent : Agent) (a : Scheduled) (d : Delivery) : Nat :=
  acc.spentBy (d.report agent a.input)

variable {acc : Account} {config : TemporalRunConfig} {service : TemporalService} {agent : Agent}
  {s t : AgentRunState} {a : Scheduled} {output : EffectActivityOutput}

theorem spentIn_le (hs : acc.Opened s) (ha : ExecutionLoop.Schedules config s a) (d : Delivery) :
    acc.spentIn agent a d ≤ acc.limit - acc.charged s := by
  rw [Account.spentIn, Delivery.report, ha.state]
  exact acc.spend_executeEffect agent hs.governs hs.begun hs.attempts
    (fun _ child task options => runAgent_within _ _ child task options) _ _

theorem charge_spentIn (hs : acc.Opened s) (ha : ExecutionLoop.Schedules config s a)
    (hc : Committed s a.input.effect output.intoParts.1 t) {d : Delivery}
    (hd : a.input.effect.isProviderCall = true →
      d.result agent a.input = some (.ok output)) :
    min (acc.charged s + acc.spentIn agent a d) acc.limit ≤ acc.charged t := by
  have hrun : ∀ i child task options, (runAgent d.surroundings d.fuel [(0, i)] child task
      options).WithinOptions options :=
    fun _ child task options => runAgent_within _ _ child task options
  rw [Account.spentIn, Delivery.report, ha.state]
  by_cases hp : a.input.effect.isProviderCall = true
  · have ho := outcome_of_awaitExecution (hd hp)
    rw [Delivery.report, ha.state] at ho
    have hzero : s.recordElapsed 0 = s := by
      have hcap := s.elapsedMs.le_cap
      have hsame : s.elapsedMs.saturatingAdd 0 = s.elapsedMs := by
        apply Capped.ext
        rw [Capped.val_saturatingAdd, Capped.val_zero]
        omega
      rw [recordElapsed, hsame]
    exact acc.charge_executeEffect hs.governs hs.begun hrun _ ho (hzero.symm ▸ hc)
  · exact acc.charge_tools hs.governs hs.begun hrun _ (Bool.eq_false_iff.mpr hp) hc

namespace TemporalService

variable (acc agent) in
theorem sum_delivered (service : TemporalService) (l : List Scheduled) :
    ((service.delivered l).map fun p => acc.spentIn agent p.1 p.2).sum =
      (l.map fun a => (((service.deliveriesOf a).take 1).map (acc.spentIn agent a)).sum).sum +
        (l.map fun a => (((service.deliveriesOf a).drop 1).map (acc.spentIn agent a)).sum).sum := by
  induction l with
  | nil => rfl
  | cons a l ih =>
    have hsplit : ((service.deliveriesOf a).map (acc.spentIn agent a)).sum =
        (((service.deliveriesOf a).take 1).map (acc.spentIn agent a)).sum +
          (((service.deliveriesOf a).drop 1).map (acc.spentIn agent a)).sum := by
      rw [← List.sum_append, ← List.map_append, List.take_append_drop]
    rw [delivered_cons, List.map_append, List.sum_append, List.map_map, ih]
    simp only [List.map_cons, List.sum_cons]
    have hfirst : (((service.deliveriesOf a).map
        ((fun p : Scheduled × Delivery => acc.spentIn agent p.1 p.2) ∘ (a, ·))).sum) =
          ((service.deliveriesOf a).map (acc.spentIn agent a)).sum := rfl
    omega

/-- The first deliveries pay their way: that of a provider call is its last one. -/
theorem Reliable.pays_first (h : service.Reliable agent)
    (hconfig : config.durableIdempotentProvider = false) :
    acc.Pays config service.answer fun a =>
      (((service.deliveriesOf a).take 1).map (acc.spentIn agent a)).sum := by
  refine ⟨fun s a hs ha => ?_, fun s a output t hs ha ho hc => ?_⟩
  · cases hd : service.deliveriesOf a with
    | nil => simp
    | cons d rest => simpa using spentIn_le hs ha d
  · obtain ⟨last, hlast, hresult⟩ := h.answers a.index a.input a.options output ho
    cases hd : service.deliveriesOf a with
    | nil =>
      rw [deliveriesOf] at hd
      simp [hd] at hlast
    | cons d rest =>
      have hcharge := charge_spentIn (d := d) hs ha hc fun hp => by
        have hlen := h.length_le ha
        rw [hp, hconfig, hd] at hlen
        obtain rfl : rest = [] := by simpa using hlen
        rw [deliveriesOf] at hd
        rw [hd, List.getLast?_singleton] at hlast
        exact Option.some.inj hlast ▸ hresult
      simpa using hcharge

/-- The other deliveries pay their way as well, for only tools have any. -/
theorem Reliable.pays_later (h : service.Reliable agent)
    (hconfig : config.durableIdempotentProvider = false) :
    acc.Pays config service.answer fun a =>
      (((service.deliveriesOf a).drop 1).map (acc.spentIn agent a)).sum := by
  have hcases {s : AgentRunState} {a : Scheduled} (ha : ExecutionLoop.Schedules config s a) :
      (service.deliveriesOf a).drop 1 = [] ∨
        a.input.effect.isProviderCall = false ∧ ∃ d, (service.deliveriesOf a).drop 1 = [d] := by
    have hlen := h.length_le ha
    cases hd : service.deliveriesOf a with
    | nil => exact .inl rfl
    | cons first rest =>
      cases rest with
      | nil => exact .inl rfl
      | cons d rest =>
        rw [hd] at hlen
        cases hp : a.input.effect.isProviderCall with
        | true => simp [hp, hconfig] at hlen
        | false =>
          obtain rfl : rest = [] := by simpa [hp] using hlen
          exact .inr ⟨rfl, d, rfl⟩
  refine ⟨fun s a hs ha => ?_, fun s a output t hs ha ho hc => ?_⟩
  · rcases hcases ha with hnil | ⟨_, d, hd⟩
    · simp [hnil]
    · simpa [hd] using spentIn_le hs ha d
  · rcases hcases ha with hnil | ⟨hp, d, hd⟩
    · have hcharge := acc.charged_committed hc
      simp only [hnil, List.map_nil, List.sum_nil]
      omega
    · have hprovider (hp' : a.input.effect.isProviderCall = true) :
          d.result agent a.input = some (.ok output) := by
        simp [hp] at hp'
      have hcharge := charge_spentIn hs ha hc hprovider
      simpa [hd] using hcharge

end TemporalService

/-- A durable run without a declared provider spends at most twice its budget, in all its executions
and with all the deliveries whose workers are lost, and within its budget where no activity is
delivered again. -/
theorem durable_budget (hservice : service.Reliable agent) {runId : String}
    {history : List Message} {options : RunOptions}
    (hprepared : agent.prepareState runId history options = .ok s)
    (hconfig : config.durableIdempotentProvider = false) (hgoverns : acc.Governs s)
    (patched : Bool) (fuel : Nat) :
    let activities := scheduledActivities service.answer patched fuel (.new s config)
    let spent := ((service.delivered activities).map fun p => acc.spentIn agent p.1 p.2).sum
    spent ≤ 2 * acc.limit ∧
      ((∀ a ∈ activities, (service.deliveriesOf a).length ≤ 1) → spent ≤ acc.limit) := by
  intro activities spent
  have hcourse : Course config service.answer s activities :=
    course_scheduledActivities service.answer patched fuel (.new s config)
  have hopened : acc.Opened s := by
    obtain ⟨_, _, rfl⟩ := Agent.prepareState_eq_ok_iff.mp hprepared
    refine ⟨hgoverns, fun hp => absurd rfl hp, ?_⟩
    show 1 ≤ (agent.runPlan options).providerMaxAttempts.val
    simp only [Agent.runPlan, Capped.val_max, Capped.val_one]
    omega
  have hfirst := hcourse.cost_le (hservice.pays_first hconfig) hopened (covered_zero _ _)
  have hlater := hcourse.cost_le (hservice.pays_later hconfig) hopened (covered_zero _ _)
  have hsum : spent = _ := TemporalService.sum_delivered acc agent service activities
  refine ⟨by omega, fun hone => ?_⟩
  have hnone : (activities.map fun a =>
      (((service.deliveriesOf a).drop 1).map (acc.spentIn agent a)).sum).sum = 0 := by
    refine List.sum_eq_zero fun n hn => ?_
    obtain ⟨a, ha, rfl⟩ := List.mem_map.mp hn
    simp [List.drop_eq_nil_of_le (hone a ha)]
  omega

end

namespace Sample

/-- An agent with a helper below it. -/
def mentored : Agent := { agent false with tools := [helper.freeze .null .delegate] }

def mentoredState : AgentRunState :=
  .withPlan "run" [.user "hello"] ⟨3⟩ (mentored.runPlan { modelCallLimit := 3 })

/-- The worker is lost after its helper has run. -/
def redelivered : Nat → List Delivery
  | 0 => [delivery (callsResponse [call "a" (.object [])]) [.finished]]
  | 1 =>
    let helping := { delivery (textResponse "") [.finished] with
      surroundings := environment fun _ => iteration [answering (textResponse "found")] []
      fuel := 2 }
    [{ helping with wakes := [] }, helping]
  | _ => [delivery (textResponse "hi") [.finished]]

end Sample

/-- The helper of a lost worker has spent its share, and runs again: four calls, with a limit of
three. -/
theorem durable_budget_sample :
    let _ := Sample.jsonText
    let _ := Sample.requestText
    let _ := Sample.argumentSchema
    let service := TemporalService.scripted Sample.mentored Sample.redelivered
    let delivered := service.delivered (scheduledActivities service.answer true 4
      (.new Sample.mentoredState Sample.temporalConfig))
    let spent := (delivered.map fun p => (Account.calls 3).spentIn Sample.mentored p.1 p.2).sum
    spent = 4 ∧ spent ≤ 2 * 3 := by
  intro _ _ _ service delivered spent
  have hprepared : Sample.mentored.prepareState "run" [.user "hello"] { modelCallLimit := 3 } =
      .ok Sample.mentoredState :=
    Agent.prepareState_eq_ok_iff.mpr ⟨rfl, by decide +kernel, by decide +kernel⟩
  have hconfig : Sample.temporalConfig.durableIdempotentProvider = false := rfl
  have hgoverns : (Account.calls 3).Governs Sample.mentoredState := rfl
  have h := durable_budget (TemporalService.reliable_scripted Sample.mentored
    Sample.redelivered) hprepared hconfig hgoverns true 4
  exact ⟨by decide +kernel, h.1⟩

end Agentive
