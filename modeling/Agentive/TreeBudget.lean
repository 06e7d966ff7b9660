import Agentive.Allowance
import Agentive.LoopTurns

/-! The budget of a tree of runs. A run charges its own transport calls when it commits them and
the shares of its delegations when it commits their results, so at any moment what the whole tree
has spent is covered by what the run has charged and by its limit. -/

namespace Agentive

open AgentRunState DriverLoop Allowance

/-- The two budgets of a run: transport calls, and the tokens reserved for them. -/
inductive Account
  | calls (limit : U32)
  | tokens (limit : U64)

namespace Account

def limit : Account → Nat
  | .calls limit => limit.val
  | .tokens limit => limit.val

def weight : Account → TransportCall → Nat
  | .calls _, _ => 1
  | .tokens _, call => call.reservation.val

def charged : Account → AgentRunState → Nat
  | .calls _, s =>
    max s.providerCallsStarted.val s.modelCalls.val + s.reservedChildModelCalls.val
  | .tokens _, s => s.reservedTokens.val

def share : Account → DelegationBudget → Nat
  | .calls _, budget => budget.modelCallLimit.val
  | .tokens _, budget => (budget.tokenLimit.getD 0).val

/-- What is reserved in an account when a tool call is resolved. -/
def reserved (acc : Account) : Option DelegationBudget → Nat
  | none => 0
  | some budget => acc.share budget

/-- The account of a run in the state `s`. -/
def Governs : Account → AgentRunState → Prop
  | .calls limit, s => s.budget.modelCallLimit = limit
  | .tokens limit, s => s.plan.tokenLimit = some limit

/-- What an effect spends, below its own run as well. -/
def spentBy (acc : Account) (report : EffectReport) : Nat :=
  (report.calls.map acc.weight).sum + report.children.weight acc.weight

theorem spentBy_ended (acc : Account) (result : Except RunError AgentEffectOutcome) :
    acc.spentBy (.ended result) = 0 := rfl

theorem spentBy_of_leaf (acc : Account) {report : EffectReport}
    (h : report.children = .empty) :
    acc.spentBy report = (report.calls.map acc.weight).sum := by
  rw [spentBy, h, TreeLog.weight_empty, Nat.add_zero]

theorem spentBy_member (acc : Account) (report : MemberReport) :
    acc.spentBy report.toEffectReport = report.children.weight acc.weight := by
  simp [spentBy, MemberReport.toEffectReport]

variable {s : AgentRunState}

theorem sum_weight_calls (limit : U32) (calls : List TransportCall) :
    (calls.map (Account.calls limit).weight).sum = calls.length := by
  induction calls with
  | nil => rfl
  | cons call calls ih =>
    rw [List.map_cons, List.sum_cons, ih, List.length_cons, Nat.add_comm]
    rfl

theorem sum_weight_tokens (limit : U64) {reservation : U64} {calls : List TransportCall}
    (h : ∀ call ∈ calls, call.reservation = reservation) :
    (calls.map (Account.tokens limit).weight).sum = calls.length * reservation.val := by
  induction calls with
  | nil => simp
  | cons call calls ih =>
    rw [List.map_cons, List.sum_cons, ih fun c hc => h c (by simp [hc]), List.length_cons,
      Nat.succ_mul, Nat.add_comm]
    simp [weight, h call (by simp)]

theorem charged_sameLedger (acc : Account) {s s' : AgentRunState} (h : SameLedger s s') :
    acc.charged s' = acc.charged s := by
  cases acc with
  | calls limit =>
    simp only [charged, h.providerCallsStarted, h.modelCalls, h.reservedChildModelCalls]
  | tokens limit => simp only [charged, h.reservedTokens]

section

variable [JsonText]

theorem charged_resolveCall (acc : Account) (s : AgentRunState) (call : ModelToolCall)
    (output : Value) (usage : Option RunUsage) (reservation : Option DelegationBudget) :
    min (acc.charged s + acc.reserved reservation) acc.limit ≤
      acc.charged (s.resolveCall call output usage reservation) := by
  cases acc with
  | calls limit =>
    have hcap := limit.le_cap
    cases reservation <;> cases usage <;>
      simp [charged, Account.limit, reserved, share, resolveCall, mergeChildUsage, reserveChild] <;>
      omega
  | tokens limit =>
    have hcap := limit.le_cap
    cases reservation <;> cases usage <;>
      simp [charged, Account.limit, reserved, share, resolveCall, mergeChildUsage, reserveChild] <;>
      omega

theorem charged_foldl_resolveItem (acc : Account)
    (items : List (ModelToolCall × ToolEffectResult × Option DelegationBudget))
    (s : AgentRunState) :
    min (acc.charged s + (items.map fun item => acc.reserved item.2.2).sum) acc.limit ≤
      acc.charged (items.foldl resolveItem s) := by
  induction items generalizing s with
  | nil => simp
  | cons item items ih =>
    have hstep := acc.charged_resolveCall s item.1 item.2.1.output item.2.1.childUsage item.2.2
    have hrest := ih (s.resolveItem item)
    simp only [List.map_cons, List.sum_cons, List.foldl_cons]
    simp only [resolveItem] at hstep hrest ⊢
    omega

end

theorem foldlM_reservation {attempts : List ProviderAttempt} {total reserved : U64}
    (h : attempts.foldlM (fun total a =>
      if 0 < a.reservedTokens.val then some (total.saturatingAdd a.reservedTokens) else none)
      total = some reserved) :
    reserved.val = min (total.val + (attempts.map (·.reservedTokens.val)).sum)
      18446744073709551615 := by
  induction attempts generalizing total with
  | nil =>
    obtain rfl : total = reserved := by simpa using h
    have hcap := total.le_cap
    simp only [List.map_nil, List.sum_nil]
    omega
  | cons a attempts ih =>
    rw [List.foldlM_cons] at h
    split at h
    · have hrest := ih h
      simp only [Capped.val_saturatingAdd] at hrest
      simp only [List.map_cons, List.sum_cons]
      omega
    · cases h

theorem foldlM_reservation_none {attempts : List ProviderAttempt} {total : U64}
    (h : attempts.foldlM (fun total a =>
      if 0 < a.reservedTokens.val then some (total.saturatingAdd a.reservedTokens) else none)
      total = none) : ∃ a ∈ attempts, a.reservedTokens.val = 0 := by
  induction attempts generalizing total with
  | nil => cases h
  | cons a attempts ih =>
    rw [List.foldlM_cons] at h
    split at h
    · obtain ⟨b, hb, hzero⟩ := ih h
      exact ⟨b, by simp [hb], hzero⟩
    · next hpos => exact ⟨a, by simp, by omega⟩

section

variable {calls : List TransportCall} {reservation : U64} {provider : Provider} {round : U32}

variable (provider round) in
theorem attemptsReservation_le (hne : calls ≠ [])
    (hsame : ∀ call ∈ calls, call.reservation = reservation) (fallback : U64) :
    min (calls.length * reservation.val) 18446744073709551615 ≤
      ((attemptsReservation (calls.map (·.record provider round))).getD fallback).val := by
  have hsum : ((calls.map (·.record provider round)).map (·.reservedTokens.val)).sum =
      calls.length * reservation.val := by
    rw [← sum_weight_tokens 0 hsame, List.map_map]
    rfl
  have hempty : (calls.map (·.record provider round)).isEmpty = false := by
    simpa using hne
  cases hf : attemptsReservation (calls.map (·.record provider round)) with
  | some total =>
    simp only [attemptsReservation, hempty, Bool.false_eq_true, if_false] at hf
    have hval := foldlM_reservation hf
    simp only [hsum, Capped.val_zero] at hval
    simp only [Option.getD_some]
    omega
  | none =>
    simp only [attemptsReservation, hempty, Bool.false_eq_true, if_false] at hf
    obtain ⟨a, ha, hzero⟩ := foldlM_reservation_none hf
    obtain ⟨call, hcall, rfl⟩ := List.mem_map.mp ha
    have hres : reservation.val = 0 := by
      rw [← hsame call hcall]
      exact hzero
    simp [hres]

theorem charged_recordProviderEffect [RequestText] (acc : Account) (s : AgentRunState)
    (hne : calls ≠ []) (hsame : ∀ call ∈ calls, call.reservation = reservation)
    (finalUsage : Option ModelTokenUsage) :
    min (acc.charged s + (calls.map acc.weight).sum) acc.limit ≤
      acc.charged (s.recordProviderEffect (calls.map (·.record provider round)) finalUsage) := by
  have hempty : (calls.map (·.record provider round)).isEmpty = false := by
    simpa using hne
  have hpos : 0 < calls.length := List.length_pos_iff.mpr hne
  cases acc with
  | calls limit =>
    have hcap := limit.le_cap
    rw [sum_weight_calls]
    simp only [charged, Account.limit, recordProviderEffect, recordProviderAttempts, hempty,
      chargeProviderCalls, reserveProviderAttemptTokens, providerCallCount, List.length_map,
      Bool.false_eq_true, if_false, Capped.val_saturatingAdd, Capped.val_max, Capped.val_clamp,
      Capped.val_one]
    omega
  | tokens limit =>
    have hcap := limit.le_cap
    have hres := attemptsReservation_le provider round hne hsame
      (s.nextModelTokenReservation.saturatingMul
        (providerCallCount (calls.map (·.record provider round))).cast)
    rw [sum_weight_tokens limit hsame]
    simp only [charged, Account.limit, recordProviderEffect, recordProviderAttempts, hempty,
      chargeProviderCalls, reserveProviderAttemptTokens, Bool.false_eq_true, if_false,
      Capped.val_saturatingAdd]
    omega

theorem allowedAttempts_bounds (hturn : s.ProviderTurn)
    (hmax : 1 ≤ s.plan.providerMaxAttempts.val)
    (hadmitted : s.reservationRefused reservation = false) :
    1 ≤ (s.allowedAttempts reservation).val ∧ (s.allowedAttempts reservation).val ≤ 255 ∧
      (s.allowedAttempts reservation).val ≤
        s.budget.modelCallLimit.val - (Account.calls 0).charged s ∧
      (s.allowedAttempts reservation).val ≤ (s.tokenAttempts reservation).val := by
  have hlt := hturn.charged_lt
  have hcap := s.budget.modelCallLimit.le_cap
  have hmaxcap := s.plan.providerMaxAttempts.le_cap
  have hremaining : s.remainingCalls.val =
      s.budget.modelCallLimit.val - (Account.calls 0).charged s := by
    simp only [remainingCalls, callsCharged, charged, Capped.val_saturatingSub,
      Capped.val_saturatingAdd, Capped.val_max]
    omega
  have htokens : 1 ≤ (s.tokenAttempts reservation).val := by
    cases hl : s.plan.tokenLimit with
    | none => simp [tokenAttempts, hl]
    | some limit =>
      have hbudget := hturn.budget
      simp only [noProviderBudget, hl, Option.any_some, Bool.or_eq_false_iff,
        decide_eq_false_iff_not, Capped.le_def] at hbudget
      simp only [reservationRefused, hl, Option.any_some, decide_eq_false_iff_not, Capped.lt_def,
        Capped.val_saturatingSub] at hadmitted
      have hone : 1 ≤ (limit.val - s.reservedTokens.val) / max reservation.val 1 :=
        (Nat.one_le_div_iff (by omega)).mpr (by omega)
      rw [val_tokenAttempts hl]
      omega
  change max _ _ + _ < _ at hlt
  have hcharged : (Account.calls 0).charged s < s.budget.modelCallLimit.val := hlt
  have hval := s.val_allowedAttempts reservation
  omega

/-- The attempts of a provider effect stay within what its run has left. -/
theorem spend_attemptLoop (acc : Account) (hg : acc.Governs s) (hturn : s.ProviderTurn)
    (hmax : 1 ≤ s.plan.providerMaxAttempts.val)
    (hadmitted : s.reservationRefused reservation = false) (providerCallId : String)
    (scripts : List AttemptScript) :
    ((attemptLoop provider round providerCallId reservation (s.allowedAttempts reservation)
      scripts 1 []).calls.map acc.weight).sum ≤ acc.limit - acc.charged s := by
  obtain ⟨hone, hbyte, hcalls, htokens⟩ := allowedAttempts_bounds hturn hmax hadmitted
  have hlen := attemptLoop_length provider round providerCallId reservation hbyte scripts 1 []
  cases acc with
  | calls limit =>
    obtain rfl : s.budget.modelCallLimit = limit := hg
    rw [sum_weight_calls]
    simp only [charged, Account.limit, Capped.val_one] at hcalls hlen ⊢
    omega
  | tokens limit =>
    have hl : s.plan.tokenLimit = some limit := hg
    rw [sum_weight_tokens limit fun call hcall => attemptLoop_reservation hcall]
    rw [val_tokenAttempts hl] at htokens
    simp only [Capped.val_one] at hlen
    have hdiv := Nat.div_mul_le_self (limit.val - s.reservedTokens.val) (max reservation.val 1)
    calc _ ≤ ((limit.val - s.reservedTokens.val) / max reservation.val 1) *
          max reservation.val 1 := Nat.mul_le_mul (by omega) (by omega)
      _ ≤ limit.val - s.reservedTokens.val := hdiv

theorem charged_acceptResponse [RequestText] (acc : Account) (s : AgentRunState)
    (response : ModelResponse) (attempts : List ProviderAttempt) :
    acc.charged (s.acceptResponse response attempts) =
      acc.charged (recordProviderEffect s attempts response.usage) := by
  have happly (t : AgentRunState) : acc.charged (t.applyResponse response) = acc.charged t := by
    unfold applyResponse
    split
    · cases acc <;> rfl
    · split <;> cases acc <;> rfl
  rw [acceptResponse, happly]
  unfold recordProviderEffect recordProviderAttempts
  cases acc <;> split <;> rfl

end

end Account

namespace AgentRunState

variable {s : AgentRunState}

/-- The budget that each pending delegation of a state is given. -/
def delegationShare (s : AgentRunState) : DelegationBudget :=
  { modelCallLimit := (s.budget.modelCallLimit.saturatingSub s.callsCharged).div s.delegationDivisor
    tokenLimit := s.plan.tokenLimit.map fun limit =>
      (limit.saturatingSub s.reservedTokens).div s.delegationDivisor.cast }

theorem delegationBudgetFor_eq (s : AgentRunState) (call : ModelToolCall) :
    s.delegationBudgetFor call = if s.isDelegation call then some s.delegationShare else none :=
  rfl

/-- Calls are pending only after the response that asked for them. -/
def Begun (s : AgentRunState) : Prop := s.pendingTools ≠ [] → 1 ≤ s.modelCalls.val

def delegations (s : AgentRunState) : Nat := (s.pendingTools.filter s.isDelegation).length

/-- A share that admits a child run is not smaller than the exact share, although the number of
delegations is clamped. -/
theorem delegations_lt (hbegun : 1 ≤ s.modelCalls.val)
    (hlive : s.delegationShare.modelCallLimit ≠ 0) : s.delegations + 1 ≤ 4294967295 := by
  by_contra hn
  have hcap := s.budget.modelCallLimit.le_cap
  have hval : s.delegationShare.modelCallLimit.val =
      (s.budget.modelCallLimit.val - s.callsCharged.val) / min (s.delegations + 1) 4294967295 := rfl
  have hcharged : 1 ≤ s.callsCharged.val := by
    simp only [callsCharged, Capped.val_saturatingAdd, Capped.val_max]
    omega
  rw [Nat.min_eq_right (by omega), Nat.div_eq_of_lt (by omega)] at hval
  exact hlive (Capped.ext (by simpa using hval))

end AgentRunState

namespace Account

variable {s : AgentRunState}

/-- A share is the part of what is left that falls to each delegation, with one part kept. -/
theorem share_delegationShare (acc : Account) (hg : acc.Governs s) :
    acc.share s.delegationShare =
      (acc.limit - acc.charged s) / min (s.delegations + 1) 4294967295 := by
  cases acc with
  | calls limit =>
    obtain rfl : s.budget.modelCallLimit = limit := hg
    have hcap := s.budget.modelCallLimit.le_cap
    have hval : s.delegationShare.modelCallLimit.val =
        (s.budget.modelCallLimit.val - min ((Account.calls 0).charged s) 4294967295) /
          min (s.delegations + 1) 4294967295 := rfl
    have hleft : s.budget.modelCallLimit.val - min ((Account.calls 0).charged s) 4294967295 =
        s.budget.modelCallLimit.val - (Account.calls 0).charged s := by omega
    rw [hleft] at hval
    exact hval
  | tokens limit =>
    have hl : s.plan.tokenLimit = some limit := hg
    have hval : (s.delegationShare.tokenLimit.getD 0).val =
        (limit.val - s.reservedTokens.val) /
          min (min (s.delegations + 1) 4294967295) 18446744073709551615 := by
      rw [delegationShare, hl]
      rfl
    rw [Nat.min_eq_left (a := min (s.delegations + 1) 4294967295) (by omega)] at hval
    exact hval

theorem mul_share_le (acc : Account) (hg : acc.Governs s) (hbegun : 1 ≤ s.modelCalls.val)
    (hlive : s.delegationShare.modelCallLimit ≠ 0) :
    s.delegations * acc.share s.delegationShare ≤ acc.limit - acc.charged s := by
  have hlt := delegations_lt hbegun hlive
  rw [acc.share_delegationShare hg, Nat.min_eq_left hlt]
  exact Allowance.mul_share_le _ _

end Account

/-- A run and the runs below it stay within the options of the run: its budgets, and below it
the depth limit. -/
structure RunReport.WithinOptions (report : RunReport) (options : RunOptions) : Prop where
  calls : report.tree.calls.length ≤ options.modelCallLimit.val
  tokens : ∀ limit, options.tokenLimit = some limit →
    (report.tree.calls.map (·.reservation.val)).sum ≤ limit.val
  root : report.tree.depths.head? = some options.delegationDepth
  depths : ∀ d ∈ report.tree.depths.tail, d ≤ options.maxDelegationDepth

namespace Account

variable {s : AgentRunState}

theorem weight_child (acc : Account) (hg : acc.Governs s) {report : RunReport}
    {reservation : Option DelegationBudget}
    (h : report.WithinOptions
      (DelegationTool.childOptions (delegationExecution s reservation) s.delegationShare)) :
    report.tree.weight acc.weight ≤ acc.share s.delegationShare := by
  cases acc with
  | calls limit =>
    have hcalls := h.calls
    rw [TreeLog.weight, sum_weight_calls]
    have hcast : (s.delegationShare.modelCallLimit.cast : U64).val ≤
        s.delegationShare.modelCallLimit.val := by
      rw [Capped.val_cast]
      exact Nat.min_le_left _ _
    exact Nat.le_trans hcalls hcast
  | tokens limit =>
    have hl : s.plan.tokenLimit = some limit := hg
    have hshare : s.delegationShare.tokenLimit = some (s.delegationShare.tokenLimit.getD 0) := by
      simp [delegationShare, hl]
    exact h.tokens _ hshare

theorem sum_reserved (acc : Account) (s : AgentRunState) (calls : List ModelToolCall) :
    (calls.map fun call => acc.reserved (s.delegationBudgetFor call)).sum =
      (calls.filter s.isDelegation).length * acc.share s.delegationShare := by
  induction calls with
  | nil => simp
  | cons call calls ih =>
    rw [List.map_cons, List.sum_cons, ih, delegationBudgetFor_eq]
    cases hd : s.isDelegation call with
    | true =>
      rw [List.filter_cons_of_pos hd, List.length_cons, Nat.succ_mul, Nat.add_comm]
      rfl
    | false =>
      rw [List.filter_cons_of_neg (by simp [hd])]
      simp [reserved]

theorem sum_batchItems (acc : Account) {outputs : List ToolEffectResult}
    (h : outputs.length = s.pendingTools.length) :
    ((s.batchItems outputs).map fun item => acc.reserved item.2.2).sum =
      (s.pendingTools.map fun call => acc.reserved (s.delegationBudgetFor call)).sum := by
  have hmap := congrArg (List.map acc.reserved) (batchItems_reservations h)
  rw [List.map_map, List.map_map] at hmap
  exact congrArg List.sum hmap

section

variable [ArgumentSchema] {agent : Agent}
  {runChild : Nat → Agent → String → RunOptions → RunReport}

variable (agent) in
/-- A tool call spends nothing, or as a delegation no more than a share. -/
theorem weight_executeOneTool (acc : Account) (hg : acc.Governs s)
    (hrun : ∀ i child task options, (runChild i child task options).WithinOptions options)
    (script : EffectScript) (i : Nat) (call : ModelToolCall) :
    let cost := (executeOneTool agent runChild script s i (s.toolEffectCall call)).children.weight
      acc.weight
    cost = 0 ∨ s.isDelegation call = true ∧ s.delegationShare.modelCallLimit ≠ 0 ∧
      cost ≤ acc.share s.delegationShare := by
  rcases executeOneTool_children agent runChild script s i (s.toolEffectCall call) with
    h | ⟨child, task, budget, hb, hzero, _, h⟩
  · exact .inl (by rw [h]; rfl)
  · have hbudget : s.delegationBudgetFor call = some budget := hb
    rw [delegationBudgetFor_eq] at hbudget
    split at hbudget
    · next hd =>
      obtain rfl : s.delegationShare = budget := by simpa using hbudget
      refine .inr ⟨hd, hzero, ?_⟩
      rw [h]
      exact acc.weight_child hg (hrun i child task _)
    · cases hbudget

/-- Pending calls spend together what is reserved for them, and no more than their run has
left. -/
theorem spend_members (acc : Account) (hg : acc.Governs s) (hbegun : 1 ≤ s.modelCalls.val)
    (hrun : ∀ i child task options, (runChild i child task options).WithinOptions options)
    (script : EffectScript) {calls : List ModelToolCall} (hsub : calls.Sublist s.pendingTools)
    (places : List (ModelToolCall × Nat)) (hplaces : places.map (·.1) = calls) :
    let cost := (places.map fun p =>
      (executeOneTool agent runChild script s p.2 (s.toolEffectCall p.1)).children.weight
        acc.weight).sum
    cost ≤ (calls.map fun call => acc.reserved (s.delegationBudgetFor call)).sum ∧
      cost ≤ acc.limit - acc.charged s := by
  intro cost
  have hmember := fun i call => acc.weight_executeOneTool agent hg hrun script i call
  have hcount : (places.filter fun p => s.isDelegation p.1).length =
      (calls.filter s.isDelegation).length := by
    rw [← hplaces, List.filter_map, List.length_map]
    rfl
  have hcost : cost ≤ (calls.filter s.isDelegation).length * acc.share s.delegationShare := by
    rw [← hcount]
    refine sum_le_mul_share places (fun p _ _ => ?_) (fun p _ hp => ?_)
    · rcases hmember p.2 p.1 with h | ⟨_, _, h⟩
      · rw [h]
        exact Nat.zero_le _
      · exact h
    · rcases hmember p.2 p.1 with h | ⟨hd, _, _⟩
      · exact h
      · simp [hp] at hd
  refine ⟨by rwa [acc.sum_reserved], ?_⟩
  by_cases hlive : s.delegationShare.modelCallLimit = 0
  · have hzero : cost = 0 := by
      have hall : ∀ p ∈ places, (executeOneTool agent runChild script s p.2
          (s.toolEffectCall p.1)).children.weight acc.weight = 0 := by
        intro p _
        rcases hmember p.2 p.1 with h | ⟨_, hne, _⟩
        · exact h
        · exact absurd hlive hne
      refine List.sum_eq_zero fun n hn => ?_
      obtain ⟨p, hp, rfl⟩ := List.mem_map.mp hn
      exact hall p hp
    omega
  · have hle : (calls.filter s.isDelegation).length ≤ s.delegations :=
      (hsub.filter s.isDelegation).length_le
    calc cost ≤ (calls.filter s.isDelegation).length * acc.share s.delegationShare := hcost
      _ ≤ s.delegations * acc.share s.delegationShare := Nat.mul_le_mul_right _ hle
      _ ≤ acc.limit - acc.charged s := acc.mul_share_le hg hbegun hlive

variable (agent) in
theorem spend_batch (acc : Account) (hg : acc.Governs s) (hbegun : 1 ≤ s.modelCalls.val)
    (hrun : ∀ i child task options, (runChild i child task options).WithinOptions options)
    (script : EffectScript) :
    let cost := (executeToolBatch agent runChild script s
      (s.pendingTools.map s.toolEffectCall)).children.weight acc.weight
    cost ≤ (s.pendingTools.map fun call => acc.reserved (s.delegationBudgetFor call)).sum ∧
      cost ≤ acc.limit - acc.charged s := by
  intro cost
  have hcost : cost ≤ (s.pendingTools.zipIdx.map fun p =>
      (executeOneTool agent runChild script s p.2 (s.toolEffectCall p.1)).children.weight
        acc.weight).sum := by
    have hchunks := executeChunks_weight script.failing
      (fun p => executeOneTool agent runChild script s p.2 p.1) acc.weight
      (chunks (max s.plan.maxParallelToolCalls.val 1)
        (s.pendingTools.map s.toolEffectCall).zipIdx) []
    have hflat : (chunks (max s.plan.maxParallelToolCalls.val 1)
        (s.pendingTools.map s.toolEffectCall).zipIdx).flatten =
          s.pendingTools.zipIdx.map (Prod.map s.toolEffectCall id) := by
      rw [chunks, flatten_chunksFrom, List.nil_append, List.zipIdx_map]
    rw [hflat, List.map_map] at hchunks
    exact hchunks
  obtain ⟨h1, h2⟩ := acc.spend_members hg hbegun hrun script (.refl _)
    s.pendingTools.zipIdx (List.zipIdx_map_fst 0 _)
  exact ⟨Nat.le_trans hcost h1, Nat.le_trans hcost h2⟩

variable (agent) in
theorem spend_tool (acc : Account) (hg : acc.Governs s) (hbegun : 1 ≤ s.modelCalls.val)
    (hrun : ∀ i child task options, (runChild i child task options).WithinOptions options)
    (script : EffectScript) {call : ModelToolCall} {rest : List ModelToolCall}
    (hpending : s.pendingTools = call :: rest) :
    let cost := (executeOneTool agent runChild script s 0 (s.toolEffectCall call)).children.weight
      acc.weight
    cost ≤ acc.reserved (s.delegationBudgetFor call) ∧ cost ≤ acc.limit - acc.charged s := by
  have hsub : [call].Sublist s.pendingTools := by simp [hpending]
  simpa using acc.spend_members hg hbegun hrun script hsub [(call, 0)] rfl

variable [JsonText] [RequestText]

variable (agent) in
theorem spend_executeEffect (acc : Account) (hg : acc.Governs s) (hbegun : s.Begun)
    (hmax : 1 ≤ s.plan.providerMaxAttempts.val)
    (hrun : ∀ i child task options, (runChild i child task options).WithinOptions options)
    (script : EffectScript) (effect : AgentRunEffect) :
    acc.spentBy (executeEffect agent runChild script s effect) ≤ acc.limit - acc.charged s := by
  rcases executeEffect_cases agent runChild script s effect with ⟨e, h⟩ | ⟨_, _, hn, h⟩
  · rw [h, spentBy_ended]
    exact Nat.zero_le _
  · rw [h]
    rcases nextEffect_cases hn with ⟨ht, rfl⟩ | ⟨call, rest, ht, rfl⟩ | ⟨call, rest, ht, rfl⟩
    · simp only [providerEffect, executeAdmitted]
      rcases executeProvider_cases agent s _ _ _ script.attempts with
        ⟨e, _, hp⟩ | ⟨_, _, _, _, ⟨_, hp⟩ | ⟨hadmitted, hp⟩⟩
      · rw [hp, spentBy_ended]
        exact Nat.zero_le _
      · rw [hp, spentBy_ended]
        exact Nat.zero_le _
      · rw [hp, acc.spentBy_of_leaf (children_attemptLoop _ _ _)]
        exact acc.spend_attemptLoop hg ht hmax hadmitted _ _
    · have hone : 1 ≤ s.modelCalls.val := hbegun (by simp [ht.pending])
      rw [toolEffect, executeAdmitted, spentBy_member]
      exact (acc.spend_tool agent hg hone hrun script ht.pending).2
    · have hone : 1 ≤ s.modelCalls.val := hbegun (by simp [ht.pending])
      rw [toolBatchEffect, executeAdmitted, spentBy_member]
      exact (acc.spend_batch agent hg hone hrun script).2

theorem charge_executeEffect (acc : Account) (hg : acc.Governs s) (hbegun : s.Begun)
    (hrun : ∀ i child task options, (runChild i child task options).WithinOptions options)
    (script : EffectScript) {effect : AgentRunEffect} {o : AgentEffectOutcome}
    {s' : AgentRunState} {ms : U64}
    (ho : (executeEffect agent runChild script s effect).outcome = some (.ok o))
    (hc : Committed (s.recordElapsed ms) effect o s') :
    min (acc.charged s + acc.spentBy (executeEffect agent runChild script s effect)) acc.limit ≤
      acc.charged s' := by
  rcases executeEffect_cases agent runChild script s effect with ⟨e, h⟩ | ⟨_, _, _, h⟩
  · simp [h, EffectReport.ended] at ho
  · rw [h] at ho ⊢
    generalize hrep : executeAdmitted agent runChild script s effect = report at ho ⊢
    rw [← acc.charged_sameLedger (sameLedger_recordElapsed s ms)]
    cases hc with
    | response response attempts ht =>
      rcases executeProvider_outcome hrep ho with
        ⟨_, hr, _⟩ | ⟨_, _, hne, hleaf, hsame, ⟨_, _, hr⟩ | ⟨_, hr⟩⟩
      · cases hr
      · cases hr
        rw [charged_acceptResponse, spentBy_of_leaf acc hleaf]
        exact acc.charged_recordProviderEffect (s.recordElapsed ms) hne hsame _
      · cases hr
    | failure error attempts ht =>
      rcases executeProvider_outcome hrep ho with
        ⟨_, hr, _⟩ | ⟨_, _, hne, hleaf, hsame, ⟨_, _, hr⟩ | ⟨_, hr⟩⟩
      · cases hr
      · cases hr
      · cases hr
        rw [acc.charged_sameLedger (sameLedger_fail _ _), spentBy_of_leaf acc hleaf]
        exact acc.charged_recordProviderEffect (s.recordElapsed ms) hne hsame _
    | exhausted required ht =>
      rcases executeProvider_outcome hrep ho with
        ⟨_, _, hp⟩ | ⟨_, _, _, _, _, ⟨_, _, hr⟩ | ⟨_, hr⟩⟩
      · rw [hp, spentBy_ended, acc.charged_sameLedger (sameLedger_markIncomplete _)]
        exact Nat.min_le_left _ _
      · cases hr
      · cases hr
    | tool call rest output attempts usage ht =>
      have hpending : s.pendingTools = call :: rest := ht.pending
      have hspent := (acc.spend_tool agent hg (hbegun (by simp [hpending])) hrun script
        hpending).1
      have hcharge := acc.charged_resolveCall (s.recordElapsed ms) call output usage
        (s.delegationBudgetFor call)
      rw [← hrep, toolEffect, executeAdmitted, spentBy_member]
      exact Nat.le_trans (min_le_min_right _ (Nat.add_le_add_left hspent _)) hcharge
    | batch call rest outputs ht hlen =>
      have hpending : s.pendingTools = call :: rest := ht.pending
      have hspent := (acc.spend_batch agent hg (hbegun (by simp [hpending])) hrun
        script).1
      have hcharge := acc.charged_foldl_resolveItem ((s.recordElapsed ms).batchItems outputs)
        (s.recordElapsed ms)
      have hreserved := acc.sum_batchItems (s := s.recordElapsed ms) hlen
      rw [hreserved] at hcharge
      rw [← hrep, toolBatchEffect, executeAdmitted, spentBy_member]
      exact Nat.le_trans (min_le_min_right _ (Nat.add_le_add_left hspent _)) hcharge

end

end Account

section

variable {s s' : AgentRunState}

theorem AgentRunState.Begun.sameLedger (h : s.Begun) (hl : SameLedger s s') : s'.Begun := by
  intro hp
  rw [hl.pendingTools] at hp
  rw [hl.modelCalls]
  exact h hp

theorem AgentRunState.Begun.committed [JsonText] [RequestText] {e : AgentRunEffect}
    {o : AgentEffectOutcome} (h : s.Begun) (hc : Committed s e o s') : s'.Begun := by
  cases hc with
  | response response attempts ht =>
    intro _
    simp only [acceptResponse_modelCalls, Capped.val_saturatingAdd, Capped.val_one]
    omega
  | failure error attempts ht =>
    have hbegun : (s.recordProviderEffect attempts error.usage).Begun :=
      fun hp => absurd (by simpa using ht.idle) hp
    exact hbegun.sameLedger (sameLedger_fail _ _)
  | exhausted required ht => exact h.sameLedger (sameLedger_markIncomplete s)
  | tool call rest output attempts usage ht =>
    intro _
    rw [resolveCall_modelCalls]
    exact h (by simp [ht.pending])
  | batch call rest outputs ht hlen =>
    intro _
    have hone : 1 ≤ s.modelCalls.val := h (by simp [ht.pending])
    exact foldl_resolveItem_invariant (I := fun t => 1 ≤ t.modelCalls.val)
      (fun t _ _ _ _ _ _ ht => by simpa using ht) _ s (batchItems_calls hlen) hone

end

/-- What a run with its tree has spent from an account. -/
def Account.spent (acc : Account) (l : LoopState) : Nat :=
  (l.calls.map acc.weight).sum + l.children.weight acc.weight

/-- At the head of an iteration the run has charged what its tree has spent. -/
structure Funded (acc : Account) (plan : AgentRunPlan) (budget : AgentRunBudget)
    (l : LoopState) : Prop where
  plan : l.state.plan = plan
  budget : l.state.budget = budget
  begun : l.state.Begun
  covered : Covered acc.limit (acc.charged l.state) (acc.spent l)

theorem Account.spent_absorb (acc : Account) (l : LoopState) (e : AgentRunEffect)
    (report : EffectReport) : acc.spent (l.absorb e report) = acc.spent l + acc.spentBy report := by
  simp only [Account.spent, Account.spentBy, LoopState.absorb, List.map_append, List.sum_append,
    TreeLog.weight_append]
  omega

theorem Account.Governs.of_fixed {acc : Account} {s s' : AgentRunState} (h : acc.Governs s)
    (hplan : s'.plan = s.plan) (hbudget : s'.budget = s.budget) : acc.Governs s' := by
  cases acc with
  | calls limit => exact (congrArg AgentRunBudget.modelCallLimit hbudget).trans h
  | tokens limit => exact (congrArg AgentRunPlan.tokenLimit hplan).trans h

theorem depths_executeOneTool [ArgumentSchema] {agent : Agent}
    {runChild : Nat → Agent → String → RunOptions → RunReport}
    (hrun : ∀ i child task options, (runChild i child task options).WithinOptions options)
    {script : EffectScript} {s : AgentRunState} {i : Nat} {call : ToolEffectCall} {d : U8}
    (h : d ∈ (executeOneTool agent runChild script s i call).children.depths) :
    d ≤ s.plan.maxDelegationDepth := by
  rcases executeOneTool_children agent runChild script s i call with
    hc | ⟨child, task, budget, _, _, hlt, hc⟩
  · simp [hc, TreeLog.empty] at h
  · have hwithin := hrun i child task
      (DelegationTool.childOptions (delegationExecution s call.delegationBudget) budget)
    rw [hc] at h
    cases hd : (runChild i child task
        (DelegationTool.childOptions (delegationExecution s call.delegationBudget)
          budget)).tree.depths with
    | nil => simp [hd] at h
    | cons root below =>
      have hroot := hwithin.root
      have hbelow := hwithin.depths
      rw [hd] at h hroot hbelow
      rcases List.mem_cons.mp h with rfl | h
      · simp only [List.head?_cons, Option.some.injEq] at hroot
        rw [hroot]
        simp only [DelegationTool.childOptions, delegationExecution, Capped.le_def,
          Capped.val_saturatingAdd, Capped.val_one]
        have := Capped.lt_def.mp hlt
        omega
      · exact hbelow d h

section

variable [JsonText] [RequestText] [ArgumentSchema] {env : Environment}
  {run : RunPath → Agent → String → RunOptions → RunReport} {path : RunPath} {agent : Agent}
  {scripts : Nat → IterationScript} {deadline : Option Duration} {acc : Account}
  {plan : AgentRunPlan} {budget : AgentRunBudget} {l l' : LoopState}

theorem Funded.advances (h : Funded acc plan budget l) (hg : acc.Governs l.state)
    (hmax : 1 ≤ plan.providerMaxAttempts.val)
    (hrun : ∀ path child task options, (run path child task options).WithinOptions options)
    (hstep : LoopState.Advances (env.execute run path agent) scripts deadline l l') :
    Funded acc plan budget l' := by
  cases hstep with
  | intro e o records s _ _ he ho hcommit _ _ _ _ =>
    have hc : Committed (l.state.recordElapsed (scripts l.iteration).elapsedMs) e o s :=
      committed_of_nextEffect he hcommit
    obtain ⟨hplan, hbudget⟩ := hc.fixed
    refine ⟨hplan.trans h.plan, hbudget.trans h.budget,
      (h.begun.sameLedger (sameLedger_recordElapsed _ _)).committed hc, ?_⟩
    have hchildren := fun i => hrun ((l.iteration, i) :: path)
    have hspend := acc.spend_executeEffect agent hg h.begun
      (by rw [h.plan]; exact hmax) hchildren (env.script path l.iteration).effect e
    have hcharge := acc.charge_executeEffect hg h.begun hchildren _ ho hc
    have hspent := acc.spent_absorb l e (env.execute run path agent l.iteration l.state e)
    have hcovered := h.covered.spend hspend hcharge
    exact hspent ▸ hcovered

theorem Funded.turn (h : Funded acc plan budget l) (hg : acc.Governs l.state)
    (hmax : 1 ≤ plan.providerMaxAttempts.val)
    (hrun : ∀ path child task options, (run path child task options).WithinOptions options) :
    acc.spent (l.turn (env.execute run path agent) scripts deadline).state ≤ acc.limit := by
  rcases LoopState.turn_log (env.execute run path agent) scripts deadline l with
    ⟨_, hcalls, hchildren⟩ | ⟨e, _, hcalls, hchildren⟩
  · rw [Account.spent, hcalls, hchildren]
    exact h.covered.limit
  · have hspend := acc.spend_executeEffect agent hg h.begun
      (by rw [h.plan]; exact hmax) (fun i => hrun ((l.iteration, i) :: path))
      (env.script path l.iteration).effect e
    have hspent : acc.spent (l.turn (env.execute run path agent) scripts deadline).state =
        acc.spent l + acc.spentBy (env.execute run path agent l.iteration l.state e) := by
      rw [← acc.spent_absorb, Account.spent, hcalls, hchildren]
      rfl
    rw [hspent]
    exact h.covered.spent_add_le hspend

variable (env path agent scripts deadline) in
/-- Whenever a run is looked at, what its tree has spent stays within its account. -/
theorem spent_drive_le (s : AgentRunState) (hg : acc.Governs s)
    (hmax : 1 ≤ s.plan.providerMaxAttempts.val) (hbegun : s.Begun)
    (hrun : ∀ path child task options, (run path child task options).WithinOptions options)
    (fuel : Nat) :
    acc.spent (drive (LoopState.turn (env.execute run path agent) scripts deadline) fuel
      (.start s)).1 ≤ acc.limit := by
  have governs {l : LoopState} (h : Funded acc s.plan s.budget l) : acc.Governs l.state :=
    hg.of_fixed h.plan h.budget
  refine drive_invariant (I := Funded acc s.plan s.budget) (J := fun l => acc.spent l ≤ acc.limit)
    (fun l h => h.covered.limit)
    (fun l l' h hn => h.advances (governs h) hmax hrun (LoopState.advances_of_turn hn))
    (fun l h => h.turn (governs h) hmax hrun) fuel (.start s) ?_
  exact ⟨rfl, rfl, hbegun, covered_zero _ _⟩

theorem depths_executeEffect {runChild : Nat → Agent → String → RunOptions → RunReport}
    (hrun : ∀ i child task options, (runChild i child task options).WithinOptions options)
    {script : EffectScript} {s : AgentRunState} {e : AgentRunEffect} {d : U8}
    (h : d ∈ (executeEffect agent runChild script s e).children.depths) :
    d ≤ s.plan.maxDelegationDepth := by
  rcases executeEffect_cases agent runChild script s e with ⟨_, hx⟩ | ⟨_, _, _, hx⟩
  · simp [hx, EffectReport.ended, TreeLog.empty] at h
  · rw [hx] at h
    cases e with
    | providerCall id providerCallId round request =>
      have hleaf := children_executeProvider agent s request providerCallId round script.attempts
      simp [executeAdmitted, hleaf, TreeLog.empty] at h
    | toolCall id invocation arguments policy delegationBudget =>
      exact depths_executeOneTool hrun h
    | toolBatch id calls =>
      obtain ⟨p, _, hd⟩ := executeChunks_depths h
      exact depths_executeOneTool hrun hd

theorem depths_drive_le (s : AgentRunState)
    (hrun : ∀ path child task options, (run path child task options).WithinOptions options)
    (fuel : Nat) :
    ∀ d ∈ (drive (LoopState.turn (env.execute run path agent) scripts deadline) fuel
      (.start s)).1.children.depths, d ≤ s.plan.maxDelegationDepth := by
  have absorb {l : LoopState} (hplan : l.state.plan = s.plan)
      (h : ∀ d ∈ l.children.depths, d ≤ s.plan.maxDelegationDepth) (e : AgentRunEffect) :
      ∀ d ∈ (l.absorb e (env.execute run path agent l.iteration l.state e)).children.depths,
        d ≤ s.plan.maxDelegationDepth := by
    intro d hd
    rcases List.mem_append.mp hd with hd | hd
    · exact h d hd
    · exact hplan ▸ depths_executeEffect (fun i => hrun ((l.iteration, i) :: path)) hd
  refine drive_invariant
    (I := fun l : LoopState =>
      l.state.plan = s.plan ∧ ∀ d ∈ l.children.depths, d ≤ s.plan.maxDelegationDepth)
    (J := fun l : LoopState => ∀ d ∈ l.children.depths, d ≤ s.plan.maxDelegationDepth)
    (fun l h => h.2) (fun l l' h hn => ?_) (fun l h => ?_) fuel (.start s)
    ⟨rfl, by simp [LoopState.start, TreeLog.empty]⟩
  · cases LoopState.advances_of_turn hn with
    | intro e o records t _ _ he ho hcommit _ _ _ _ =>
      have hc : Committed (l.state.recordElapsed (scripts l.iteration).elapsedMs) e o t :=
        committed_of_nextEffect he hcommit
      exact ⟨hc.fixed.1.trans h.1, absorb h.1 h.2 e⟩
  · rcases LoopState.turn_log (env.execute run path agent) scripts deadline l with
      ⟨_, _, hchildren⟩ | ⟨e, _, _, hchildren⟩
    · rw [hchildren]
      exact h.2
    · rw [hchildren]
      exact absorb h.1 h.2 e

end

/-- A run of any tree of agents keeps the whole tree within the options of the run, whatever
happens to its effects and whenever it is looked at. -/
theorem tree_within_options [JsonText] [RequestText] [ArgumentSchema] (env : Environment)
    (fuel : Nat) (path : RunPath) (agent : Agent) (userMessage : String) (options : RunOptions) :
    (runAgent env fuel path agent userMessage options).WithinOptions options := by
  induction fuel generalizing path agent userMessage options with
  | zero => exact ⟨Nat.zero_le _, fun _ _ => Nat.zero_le _, rfl, by simp [runAgent]⟩
  | succ fuel ih =>
    rw [runAgent, startRun]
    split
    · exact ⟨Nat.zero_le _, fun _ _ => Nat.zero_le _, rfl, by simp⟩
    · next s hs =>
      obtain ⟨_, _, rfl⟩ := Agent.prepareState_eq_ok_iff.mp hs
      have hmax : 1 ≤ (agent.runPlan options).providerMaxAttempts.val := by
        simp only [Agent.runPlan, Capped.val_max, Capped.val_one]
        omega
      have hspent (acc : Account) (hg : acc.Governs (.withPlan (env.runId path)
          (Agent.compileMessages userMessage options) ⟨options.modelCallLimit.cast⟩
          (agent.runPlan options))) :=
        spent_drive_le env path agent (env.script path) options.deadline _ hg hmax
          (fun hp => absurd rfl hp) ih fuel
      refine ⟨?_, fun limit hlimit => ?_, rfl, depths_drive_le _ ih fuel⟩
      · have hcalls := hspent (.calls options.modelCallLimit.cast) rfl
        rw [Account.spent, Account.sum_weight_calls, TreeLog.weight,
          Account.sum_weight_calls] at hcalls
        rw [List.length_append]
        exact Nat.le_trans hcalls (Nat.min_le_left _ _)
      · have htokens := hspent (.tokens limit) hlimit
        rw [List.map_append, List.sum_append]
        exact htokens

/-- The depth limit is checked where a child run is started. A run that is started deeper than its
own options allow executes there. -/
theorem root_below_depth_limit :
    ¬ ∀ (_ : JsonText) (_ : RequestText) (_ : ArgumentSchema) (env : Environment) (fuel : Nat)
      (path : RunPath) (agent : Agent) (userMessage : String) (options : RunOptions),
      (runAgent env fuel path agent userMessage options).status = .completed →
      ∀ d ∈ (runAgent env fuel path agent userMessage options).tree.depths,
        d ≤ options.maxDelegationDepth := by
  intro claim
  have h := claim Sample.jsonText Sample.requestText Sample.argumentSchema
    (Sample.environment fun _ => Sample.iteration [Sample.answering (Sample.textResponse "hi")] [])
    2 [] (Sample.agent false) "hello" { maxDelegationDepth := 0, delegationDepth := 1 }
    (by decide +kernel)
  revert h
  decide +kernel

end Agentive
