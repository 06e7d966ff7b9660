import Agentive.TreeBudget

/-! What delegations leave to their parent. The shares of the pending delegations are computed
anew at every effect, for one call or for a whole batch; each time one share is kept back. -/

namespace Agentive

open AgentRunState

def AgentRunEffect.grants : AgentRunEffect → List DelegationBudget
  | .providerCall _ _ _ _ => []
  | .toolCall _ _ _ _ delegationBudget => delegationBudget.toList
  | .toolBatch _ calls => calls.filterMap (·.delegationBudget)

theorem grants_toolEffect (s : AgentRunState) (call : ModelToolCall) :
    (s.toolEffect call).grants = (s.delegationBudgetFor call).toList := rfl

theorem grants_toolBatchEffect (s : AgentRunState) (call : ModelToolCall) :
    (s.toolBatchEffect call).grants = s.pendingTools.filterMap s.delegationBudgetFor := by
  simp only [toolBatchEffect, AgentRunEffect.grants, List.filterMap_map]
  rfl

theorem length_grants (s : AgentRunState) (calls : List ModelToolCall) :
    (calls.filterMap s.delegationBudgetFor).length = (calls.filter s.isDelegation).length := by
  induction calls with
  | nil => rfl
  | cons call calls ih =>
    cases hd : s.isDelegation call with
    | true => simp [delegationBudgetFor_eq, hd, ih]
    | false => simp [delegationBudgetFor_eq, hd, ih]

namespace Account

theorem sum_share_filterMap (acc : Account) {α : Type} (f : α → Option DelegationBudget)
    (l : List α) :
    ((l.filterMap f).map acc.share).sum = (l.map fun a => acc.reserved (f a)).sum := by
  induction l with
  | nil => rfl
  | cons a l ih =>
    cases hf : f a with
    | none => simp [hf, ih, reserved]
    | some budget => simp [hf, ih, reserved]

section

variable [JsonText]

theorem charged_resolveCall_le (acc : Account) (s : AgentRunState) (call : ModelToolCall)
    (output : Value) (usage : Option RunUsage) (reservation : Option DelegationBudget) :
    acc.charged (s.resolveCall call output usage reservation) ≤
      acc.charged s + acc.reserved reservation := by
  cases acc with
  | calls limit =>
    cases reservation <;> cases usage <;>
      simp [charged, reserved, share, resolveCall, mergeChildUsage, reserveChild] <;> omega
  | tokens limit =>
    cases reservation <;> cases usage <;>
      simp [charged, reserved, share, resolveCall, mergeChildUsage, reserveChild]

theorem charged_foldl_resolveItem_le (acc : Account)
    (items : List (ModelToolCall × ToolEffectResult × Option DelegationBudget))
    (s : AgentRunState) :
    acc.charged (items.foldl resolveItem s) ≤
      acc.charged s + (items.map fun item => acc.reserved item.2.2).sum := by
  induction items generalizing s with
  | nil => simp
  | cons item items ih =>
    have hstep := acc.charged_resolveCall_le s item.1 item.2.1.output item.2.1.childUsage item.2.2
    have hrest := ih (s.resolveItem item)
    simp only [List.map_cons, List.sum_cons, List.foldl_cons]
    simp only [resolveItem] at hstep hrest ⊢
    omega

end

variable [JsonText] [RequestText] {s t t' : AgentRunState} {e : AgentRunEffect}
  {o : AgentEffectOutcome}

theorem Governs.committed {acc : Account} (hg : acc.Governs t) (hc : Committed t e o t') :
    acc.Governs t' := by
  cases acc with
  | calls limit => exact (congrArg _ hc.fixed.2).trans hg
  | tokens limit => exact (congrArg _ hc.fixed.1).trans hg

/-- A tool effect charges what it grants, and does not use up what is left. -/
theorem grants_lt (acc : Account) (hg : acc.Governs t) (hc : Committed t e o t')
    (hpending : t.pendingTools ≠ []) (hcount : e.grants.length < 4294967295)
    (hleft : acc.charged t < acc.limit) :
    acc.charged t' = acc.charged t + (e.grants.map acc.share).sum ∧
      acc.charged t + (e.grants.map acc.share).sum < acc.limit := by
  cases hc with
  | response response attempts ht => exact absurd ht.idle hpending
  | failure error attempts ht => exact absurd ht.idle hpending
  | exhausted required ht => exact absurd ht.idle hpending
  | tool call rest output attempts usage ht =>
    have hlow := acc.charged_resolveCall t call output usage (t.delegationBudgetFor call)
    have hhigh := acc.charged_resolveCall_le t call output usage (t.delegationBudgetFor call)
    have hgranted : (((t.toolEffect call).grants).map acc.share).sum =
        acc.reserved (t.delegationBudgetFor call) := by
      rw [grants_toolEffect]
      cases t.delegationBudgetFor call <;> simp [reserved]
    have hlt : acc.reserved (t.delegationBudgetFor call) < acc.limit - acc.charged t := by
      rw [delegationBudgetFor_eq]
      by_cases hd : t.isDelegation call = true
      · have hone : 1 ≤ t.delegations := by
          rw [delegations, ht.pending, List.filter_cons_of_pos hd]
          simp
        rw [if_pos hd, reserved, acc.share_delegationShare hg]
        apply Nat.div_lt_self
        · omega
        · omega
      · rw [if_neg hd, reserved]
        omega
    rw [hgranted]
    omega
  | batch call rest outputs ht hlen =>
    have hlow := acc.charged_foldl_resolveItem (t.batchItems outputs) t
    have hhigh := acc.charged_foldl_resolveItem_le (t.batchItems outputs) t
    have hsum : ((t.batchItems outputs).map fun item => acc.reserved item.2.2).sum =
        t.delegations * acc.share t.delegationShare := by
      rw [acc.sum_batchItems hlen, delegations, sum_reserved]
    have hgranted : (((t.toolBatchEffect call).grants).map acc.share).sum =
        t.delegations * acc.share t.delegationShare := by
      rw [grants_toolBatchEffect, sum_share_filterMap, sum_reserved]
      rfl
    have hfew : t.delegations + 1 ≤ 4294967295 := by
      rw [grants_toolBatchEffect, length_grants] at hcount
      exact hcount
    have hlt : t.delegations * acc.share t.delegationShare < acc.limit - acc.charged t := by
      rw [acc.share_delegationShare hg, Nat.min_eq_left hfew]
      exact Allowance.mul_share_lt _ (by omega)
    rw [hsum] at hlow hhigh
    rw [hgranted]
    omega

end Account

section

variable [JsonText] [RequestText]

/-- The pending calls of a state are resolved, effect by effect as the state selects them, with
the budgets that each effect grants. -/
inductive Resolves (s : AgentRunState) : List (List DelegationBudget) → AgentRunState → Prop
  | start : Resolves s [] s
  | commit {grants : List (List DelegationBudget)} {t t' : AgentRunState} {e : AgentRunEffect}
      {o : AgentEffectOutcome} (before : Resolves s grants t) (pending : t.pendingTools ≠ [])
      (next : t.nextEffect = some e) (commit : t.commitEffect e.effectId o = (t', .ok ())) :
      Resolves s (grants ++ [e.grants]) t'

variable {s t : AgentRunState} {grants : List (List DelegationBudget)}

theorem Account.Governs.resolves {acc : Account} (hg : acc.Governs s) (h : Resolves s grants t) :
    acc.Governs t := by
  induction h with
  | start => exact hg
  | commit _ _ next commit ih => exact ih.committed (committed_of_nextEffect next commit)

/-- All grants together are charged, and at least one of what was left stays. -/
theorem Resolves.charged_lt {acc : Account} (h : Resolves s grants t) (hg : acc.Governs s)
    (hcount : ∀ g ∈ grants, g.length < 4294967295) (hleft : acc.charged s < acc.limit) :
    acc.charged t = acc.charged s + (grants.flatten.map acc.share).sum ∧
      acc.charged t < acc.limit := by
  induction h with
  | start => exact ⟨by simp, hleft⟩
  | commit before pending next commit ih =>
    obtain ⟨heq, hlt⟩ := ih fun g hmem => hcount g (List.mem_append_left _ hmem)
    have hlast := hcount _ (List.mem_append_right _ List.mem_cons_self)
    have hstep := acc.grants_lt (hg.resolves before) (committed_of_nextEffect next commit) pending
      hlast hlt
    simp only [List.flatten_append, List.flatten_cons, List.flatten_nil, List.append_nil,
      List.map_append, List.sum_append]
    omega

omit [JsonText] [RequestText] in
theorem remainingCalls_val (s : AgentRunState) :
    s.remainingCalls.val =
      (Account.calls s.budget.modelCallLimit).limit -
        (Account.calls s.budget.modelCallLimit).charged s := by
  have hcap := s.budget.modelCallLimit.le_cap
  simp only [remainingCalls, callsCharged, Account.limit, Account.charged,
    Capped.val_saturatingSub, Capped.val_saturatingAdd, Capped.val_max]
  omega

/-- Whatever the effects in which pending calls are resolved, the delegations among them leave
their parent a call and a token, after the last one and before, as long as no batch has so many
of them that the divisor of the shares is clamped. -/
theorem delegation_spares_parent (hrun : Resolves s grants t)
    (hcount : ∀ g ∈ grants, g.length < 4294967295) (hcalls : 1 ≤ s.remainingCalls.val)
    (htokens : ∀ limit, s.plan.tokenLimit = some limit → 1 ≤ limit.val - s.reservedTokens.val) :
    (1 ≤ t.remainingCalls.val ∧
        (grants.flatten.map (·.modelCallLimit.val)).sum ≤ s.remainingCalls.val - 1) ∧
      ∀ limit, s.plan.tokenLimit = some limit →
        (t.plan.tokenLimit = some limit ∧ 1 ≤ limit.val - t.reservedTokens.val) ∧
          (grants.flatten.map fun budget => (budget.tokenLimit.getD 0).val).sum ≤
            limit.val - s.reservedTokens.val - 1 := by
  constructor
  · have hg : (Account.calls s.budget.modelCallLimit).Governs s := rfl
    have hbudget : t.budget.modelCallLimit = s.budget.modelCallLimit := hg.resolves hrun
    rw [remainingCalls_val] at hcalls
    rw [remainingCalls_val, remainingCalls_val, hbudget]
    obtain ⟨heq, hlt⟩ := hrun.charged_lt hg hcount (by omega)
    have hshare : grants.flatten.map (·.modelCallLimit.val) =
        grants.flatten.map (Account.calls s.budget.modelCallLimit).share := rfl
    rw [hshare]
    omega
  · intro limit hlimit
    have hg : (Account.tokens limit).Governs s := hlimit
    have hspare := htokens limit hlimit
    have hleft : (Account.tokens limit).charged s < (Account.tokens limit).limit := by
      show s.reservedTokens.val < limit.val
      omega
    obtain ⟨heq, hlt⟩ := hrun.charged_lt hg hcount hleft
    have hshare : (grants.flatten.map fun budget => (budget.tokenLimit.getD 0).val) =
        grants.flatten.map (Account.tokens limit).share := rfl
    rw [hshare]
    simp only [Account.charged, Account.limit] at heq hlt
    exact ⟨⟨hg.resolves hrun, by omega⟩, by omega⟩

end

namespace Sample

def parallelHelper : ToolRuntimePolicy :=
  { descriptor := { name := lookup, description := "asks a parallelHelper", schema := .null,
                    idempotent := false }
    idempotent := false, maxAttempts := 1, parallelSafe := true, delegation := true }

def crowded (n : Nat) : AgentRunState :=
  { state with
    plan := { plan with tools := [parallelHelper] }
    budget := ⟨4294967295, Nat.le_refl _⟩
    pendingTools := List.replicate n (call "c" .null)
    status := .running }

def helped : ToolEffectResult := { output := .null, attempts := 1, childUsage := none }

def allCalls : Account := .calls ⟨4294967295, Nat.le_refl _⟩

theorem crowded_outputs (n : Nat) :
    (List.replicate (n + 2) helped).length = (crowded (n + 2)).pendingTools.length := by
  rw [List.length_replicate]
  exact List.length_replicate.symm

theorem crowded_batchTurn (n : Nat) :
    (crowded (n + 2)).BatchTurn (call "c" .null) (List.replicate (n + 1) (call "c" .null)) := by
  have hsafe : (crowded (n + 2)).isParallelSafe (call "c" .null) = true := rfl
  have hpending : (crowded (n + 2)).pendingTools = List.replicate (n + 2) (call "c" .null) := rfl
  refine ⟨rfl, rfl, ?_⟩
  rw [batchable, hpending, List.length_replicate, List.all_replicate, hsafe]
  simp

theorem crowded_resolves (n : Nat) :
    @Resolves jsonText requestText (crowded (n + 2))
      [((crowded (n + 2)).toolBatchEffect (call "c" .null)).grants]
      (@List.foldl _ _ (@resolveItem jsonText) (crowded (n + 2))
        ((crowded (n + 2)).batchItems (List.replicate (n + 2) helped))) := by
  let _ := jsonText
  let _ := requestText
  have ht := crowded_batchTurn n
  have hc := Committed.batch _ _ _ ht (crowded_outputs n)
  exact Resolves.commit .start (by rw [ht.pending]; simp) hc.nextEffect hc.commitEffect

theorem crowded_share (n : Nat) (hn : 4294967295 ≤ n + 1) :
    (crowded n).delegations = n ∧ (crowded n).delegationShare.modelCallLimit.val = 1 := by
  have hdelegation : (crowded n).isDelegation (call "c" .null) = true := rfl
  have hpending : (crowded n).pendingTools = List.replicate n (call "c" .null) := rfl
  have hcount : (crowded n).delegations = n := by
    rw [delegations, hpending, List.filter_replicate_of_pos hdelegation, List.length_replicate]
  have hg : allCalls.Governs (crowded n) := rfl
  have hshare := allCalls.share_delegationShare hg
  have hleft : allCalls.limit - allCalls.charged (crowded n) = 4294967295 := rfl
  rw [hcount, Nat.min_eq_right hn, hleft] at hshare
  exact ⟨hcount, hshare⟩

theorem crowded_starved (n : Nat) (hn : 4294967295 ≤ n + 2) {t : AgentRunState}
    (ht : t = @List.foldl _ _ (@resolveItem jsonText) (crowded (n + 2))
      ((crowded (n + 2)).batchItems (List.replicate (n + 2) helped))) :
    t.pendingTools = [] ∧ t.remainingCalls.val = 0 := by
  let _ := jsonText
  let _ := requestText
  obtain ⟨hcount, hshare⟩ := crowded_share (n + 2) (by omega)
  have hlen := crowded_outputs n
  have hitems : ((crowded (n + 2)).batchItems (List.replicate (n + 2) helped)).length =
      (crowded (n + 2)).pendingTools.length := by simp [batchItems, hlen]
  have hdone := foldl_resolveItem_pendingTools
    ((crowded (n + 2)).batchItems (List.replicate (n + 2) helped)) (crowded (n + 2))
  have hg : allCalls.Governs (crowded (n + 2)) := rfl
  have hbudget := hg.resolves (crowded_resolves n)
  have hlow := allCalls.charged_foldl_resolveItem
    ((crowded (n + 2)).batchItems (List.replicate (n + 2) helped)) (crowded (n + 2))
  have hvalue : allCalls.share (crowded (n + 2)).delegationShare = 1 := hshare
  rw [allCalls.sum_batchItems hlen, Account.sum_reserved, ← delegations, hcount, hvalue,
    ← ht] at hlow
  rw [hitems, List.drop_length, ← ht] at hdone
  rw [← ht] at hbudget
  have hlimit : allCalls.limit = 4294967295 := rfl
  refine ⟨hdone, ?_⟩
  rw [remainingCalls_val, show Account.calls t.budget.modelCallLimit = allCalls from
    congrArg Account.calls hbudget]
  omega

end Sample

def Sample.serialHelper : ToolRuntimePolicy :=
  { parallelHelper with
    descriptor := { parallelHelper.descriptor with name := ⟨"ask", by decide⟩ }
    parallelSafe := false }

def Sample.frugal : AgentRunState :=
  { state with
    plan := { plan with tools := [parallelHelper, serialHelper], tokenLimit := some 100 }
    pendingTools :=
      [{ call "a" .null with name := ⟨"ask", by decide⟩ }, call "b" .null, call "c" .null]
    status := .running }

/-- One call by itself, and then a batch of two, below a limit for the tokens. -/
theorem delegation_spares_parent_sample :
    ∃ grants t, @Resolves Sample.jsonText Sample.requestText Sample.frugal grants t ∧
      grants.map List.length = [1, 2] ∧ t.pendingTools = [] ∧ 1 ≤ t.remainingCalls.val ∧
      1 ≤ 100 - t.reservedTokens.val := by
  let _ := Sample.jsonText
  let _ := Sample.requestText
  let first : ModelToolCall := { Sample.call "a" .null with name := ⟨"ask", by decide⟩ }
  let second := Sample.frugal.resolveCall first .null none (Sample.frugal.delegationBudgetFor first)
  have hsingle : Committed Sample.frugal (Sample.frugal.toolEffect first) _ second :=
    .tool first [Sample.call "b" .null, Sample.call "c" .null] .null 1 none ⟨rfl, rfl, rfl⟩
  have hbatch : Committed second (second.toolBatchEffect (Sample.call "b" .null)) _ _ :=
    .batch _ [Sample.call "c" .null] [Sample.helped, Sample.helped] ⟨rfl, rfl, rfl⟩ rfl
  have hrun := (Resolves.start.commit (by decide) hsingle.nextEffect hsingle.commitEffect).commit
    (by decide) hbatch.nextEffect hbatch.commitEffect
  have hspares := delegation_spares_parent hrun (by decide) (by decide) (by decide)
  exact ⟨_, _, hrun, by decide, by decide, hspares.1.1, (hspares.2 100 rfl).1.2⟩

/-- With a clamped divisor the shares of a batch are too large: they take all the calls. -/
theorem crowded_batch_starves :
    ¬ ∀ (_ : JsonText) (_ : RequestText) (s t : AgentRunState)
      (grants : List (List DelegationBudget)), Resolves s grants t → t.pendingTools = [] →
      1 ≤ s.remainingCalls.val →
      (∀ limit, s.plan.tokenLimit = some limit → 1 ≤ limit.val - s.reservedTokens.val) →
      1 ≤ t.remainingCalls.val := by
  intro claim
  let _ := Sample.jsonText
  let _ := Sample.requestText
  have hstarved (n : Nat) (hn : 4294967295 ≤ n + 2) : False := by
    obtain ⟨hdone, hzero⟩ := Sample.crowded_starved n hn rfl
    have hlimit : (Sample.crowded (n + 2)).remainingCalls.val = 4294967295 := rfl
    have hspare := claim _ _ _ _ _ (Sample.crowded_resolves n) hdone (by omega)
      fun limit hlimit => by cases hlimit
    omega
  exact hstarved 4294967293 (by decide)

end Agentive
