import Agentive.RunTrace
import Mathlib.Data.List.Nodup

/-! Logical identity. Effects, tool invocations and idempotency keys are named by texts that
join the run id with a round or with the call id that the model chose. -/

namespace Agentive

open AgentRunState

/-- Two texts with the same continuation `x` and `y`: one of them is the longer, and what it
adds is repeated at the front of the other's continuation. -/
theorem append_eq_append_iff {a b x y : String} :
    a ++ x = b ++ y ↔ (∃ e, b = a ++ e ∧ x = e ++ y) ∨ (∃ e, a = b ++ e ∧ y = e ++ x) := by
  constructor
  · intro h
    have hl : a.toList ++ x.toList = b.toList ++ y.toList := by
      rw [← String.toList_append, ← String.toList_append, h]
    rcases List.append_eq_append_iff.mp hl with ⟨e, hb, hx⟩ | ⟨e, ha, hy⟩
    · exact .inl ⟨String.ofList e, String.toList_inj.mp (by simpa using hb),
        String.toList_inj.mp (by simpa using hx)⟩
    · exact .inr ⟨String.ofList e, String.toList_inj.mp (by simpa using ha),
        String.toList_inj.mp (by simpa using hy)⟩
  · rintro (⟨e, rfl, rfl⟩ | ⟨e, rfl, rfl⟩) <;> simp [String.append_assoc]

theorem toString_nat_inj {m n : Nat} : toString m = toString n ↔ m = n := by
  refine ⟨fun h => ?_, fun h => by rw [h]⟩
  have hm := Nat.ofDigitChars_toDigits (b := 10) (n := m) (by omega) (by omega)
  have hn := Nat.ofDigitChars_toDigits (b := 10) (n := n) (by omega) (by omega)
  rw [← hm, ← hn, ← Nat.toList_repr, ← Nat.toList_repr]
  exact congrArg (fun text : String => Nat.ofDigitChars 10 text.toList 0) h

/-- What an effect id says besides the run. -/
inductive EffectTag
  | provider (round : Nat)
  | tool (callId : String)
  | batch (callId : String)
deriving DecidableEq

def EffectTag.text (runId : String) : EffectTag → String
  | .provider round => runId ++ ":provider:" ++ toString round
  | .tool callId => toolEffectId runId callId
  | .batch callId => toolBatchEffectId runId callId

theorem toolEffectId_inj {runId c d : String} :
    toolEffectId runId c = toolEffectId runId d ↔ c = d :=
  String.append_right_inj _

theorem toolBatchEffectId_inj {runId c d : String} :
    toolBatchEffectId runId c = toolBatchEffectId runId d ↔ c = d :=
  String.append_right_inj _

theorem idempotencyKey_inj {runId c d : String} :
    idempotencyKey runId c = idempotencyKey runId d ↔ c = d := by
  simp only [idempotencyKey, IdempotencyKey.mk.injEq]
  exact String.append_right_inj _

theorem append_prefix_ne {runId p q x y : String} (h : p.toList.take 6 ≠ q.toList.take 6)
    (hp : 6 ≤ p.toList.length) (hq : 6 ≤ q.toList.length) :
    runId ++ p ++ x ≠ runId ++ q ++ y := by
  intro heq
  rw [String.append_assoc, String.append_assoc, String.append_right_inj] at heq
  have hl : p.toList ++ x.toList = q.toList ++ y.toList := by
    rw [← String.toList_append, ← String.toList_append, heq]
  have ht := congrArg (List.take 6) hl
  rw [List.take_append_of_le_length hp, List.take_append_of_le_length hq] at ht
  exact h ht

theorem EffectTag.text_inj {runId : String} {a b : EffectTag} :
    a.text runId = b.text runId ↔ a = b := by
  refine ⟨fun h => ?_, fun h => by rw [h]⟩
  cases a with
  | provider m =>
    cases b with
    | provider n => rw [toString_nat_inj.mp ((String.append_right_inj _).mp h)]
    | tool d => exact absurd h (append_prefix_ne (by decide) (by decide) (by decide))
    | batch d => exact absurd h (append_prefix_ne (by decide) (by decide) (by decide))
  | tool c =>
    cases b with
    | provider n => exact absurd h (append_prefix_ne (by decide) (by decide) (by decide))
    | tool d => rw [toolEffectId_inj.mp h]
    | batch d => exact absurd h (append_prefix_ne (by decide) (by decide) (by decide))
  | batch c =>
    cases b with
    | provider n => exact absurd h (append_prefix_ne (by decide) (by decide) (by decide))
    | tool d => exact absurd h (append_prefix_ne (by decide) (by decide) (by decide))
    | batch d => rw [toolBatchEffectId_inj.mp h]

/-- The tool invocations that an effect asks for. -/
def AgentRunEffect.invocations : AgentRunEffect → List ToolInvocation
  | .providerCall _ _ _ _ => []
  | .toolCall _ invocation _ _ _ => [invocation]
  | .toolBatch _ calls => calls.map (·.invocation)

abbrev EffectLog := List (AgentRunEffect × AgentEffectOutcome)

/-- The ids of the tool calls that the model made in a run. -/
def callIds (log : EffectLog) : List String := (log.flatMap (·.2.calls)).map (·.callId)

/-- The invocations of a run: those asked for already, and those of the pending calls. -/
def invocations (log : EffectLog) (s : AgentRunState) : List ToolInvocation :=
  log.flatMap (·.1.invocations) ++ s.pendingTools.map fun call => (s.toolEffectCall call).invocation

@[simp] theorem callIds_concat (log : EffectLog) (e : AgentRunEffect) (o : AgentEffectOutcome) :
    callIds (log ++ [(e, o)]) = callIds log ++ o.calls.map (·.callId) := by
  simp [callIds]

/-- The tag of the next effect. -/
def AgentRunState.nextTag (s : AgentRunState) : Option EffectTag :=
  if s.status.isActive then
    match s.pendingTools with
    | call :: _ => if s.batchable then some (.batch call.callId) else some (.tool call.callId)
    | [] => if s.noProviderBudget then none else some (.provider s.modelCalls.val)
  else none

theorem nextEffect_effectId (s : AgentRunState) :
    s.nextEffect.map (·.effectId) = s.nextTag.map (EffectTag.text s.runId) := by
  unfold nextEffect AgentRunState.nextTag
  cases s.status.isActive with
  | false => rfl
  | true =>
    cases s.pendingTools with
    | nil => cases s.noProviderBudget <;> rfl
    | cons call rest => cases s.batchable <;> rfl

/-- The two texts that a tool invocation is known by. -/
def ToolInvocation.texts (invocation : ToolInvocation) : IdempotencyKey × ToolInvocationId :=
  (invocation.idempotencyKey, invocation.invocationId)

/-- The two texts that a call id stands for in a run. -/
def callTexts (runId callId : String) : IdempotencyKey × ToolInvocationId :=
  (idempotencyKey runId callId, ⟨toolEffectId runId callId⟩)

/-- What the effects of a run so far are called. The call ids in `done` belong to the calls that
have been asked for. -/
structure Named (runId : String) (log : EffectLog) (s : AgentRunState) (tags : List EffectTag)
    (done : List String) : Prop where
  sameRun : s.runId = runId
  effectIds : log.map (·.1.effectId) = tags.map (EffectTag.text runId)
  issued : (log.flatMap (·.1.invocations)).map (·.texts) = done.map (callTexts runId)
  calls : callIds log = done ++ s.pendingTools.map (·.callId)
  rounds : s.status.isActive = true → ∀ n, .provider n ∈ tags → n < s.modelCalls.val
  tools : ∀ c, .tool c ∈ tags ∨ .batch c ∈ tags → c ∈ done
  distinct : (callIds log).Nodup → tags.Nodup

theorem nextTag_active {s : AgentRunState} {tag : EffectTag} (h : s.nextTag = some tag) :
    s.status.isActive = true := by
  by_contra hn
  simp [AgentRunState.nextTag, hn] at h

/-- The tag of the next effect is new, as long as no call id is used twice. -/
theorem Named.nextTag_not_mem {runId : String} {log : EffectLog} {s : AgentRunState}
    {tags : List EffectTag} {done : List String} (h : Named runId log s tags done)
    (hd : (callIds log).Nodup) {tag : EffectTag} (ht : s.nextTag = some tag) : tag ∉ tags := by
  have hactive := nextTag_active ht
  simp only [AgentRunState.nextTag, hactive, if_true] at ht
  cases hp : s.pendingTools with
  | nil =>
    simp only [hp] at ht
    split at ht
    · cases ht
    · obtain rfl := Option.some.inj ht
      exact fun hm => absurd (h.rounds hactive _ hm) (Nat.lt_irrefl _)
  | cons call rest =>
    have hfresh : call.callId ∉ done := fun hm => by
      rw [h.calls, List.nodup_append] at hd
      exact hd.2.2 _ hm call.callId (by simp [hp]) rfl
    simp only [hp] at ht
    split at ht <;> obtain rfl := Option.some.inj ht
    · exact fun hm => hfresh (h.tools _ (.inr hm))
    · exact fun hm => hfresh (h.tools _ (.inl hm))

theorem AgentRunState.ProviderTurn.nextTag {s : AgentRunState} (h : s.ProviderTurn) :
    s.nextTag = some (.provider s.modelCalls.val) := by
  simp [AgentRunState.nextTag, h.active, h.idle, h.budget]

theorem AgentRunState.ToolTurn.nextTag {s : AgentRunState} {call : ModelToolCall}
    {rest : List ModelToolCall} (h : s.ToolTurn call rest) :
    s.nextTag = some (.tool call.callId) := by
  simp [AgentRunState.nextTag, h.active, h.pending, h.single]

theorem AgentRunState.BatchTurn.nextTag {s : AgentRunState} {call : ModelToolCall}
    {rest : List ModelToolCall} (h : s.BatchTurn call rest) :
    s.nextTag = some (.batch call.callId) := by
  simp [AgentRunState.nextTag, h.active, h.pending, h.batch]

theorem Named.quiet {runId : String} {log : EffectLog} {s s' : AgentRunState}
    {tags : List EffectTag} {done : List String} (h : Named runId log s tags done)
    (hq : Quiet s s') : Named runId log s' tags done := by
  have hl := hq.sameLedger
  refine ⟨hl.runId.trans h.sameRun, h.effectIds, h.issued, ?_, ?_, h.tools, h.distinct⟩
  · rw [hl.pendingTools]
    exact h.calls
  · rw [hl.modelCalls]
    exact fun ha => h.rounds (hq.active ha)

section

variable {runId : String} {log : EffectLog} {s : AgentRunState}
  {tags : List EffectTag} {done : List String}

/-- What a commit has to show about rounds and pending calls to keep the run named. -/
theorem Named.commit {e : AgentRunEffect} {o : AgentEffectOutcome} {s' : AgentRunState}
    {tag : EffectTag} (h : Named runId log s tags done) (more : List String)
    (he : s.nextEffect = some e) (ht : s.nextTag = some tag) (hrun : s'.runId = s.runId)
    (hissued : e.invocations.map (·.texts) = more.map (callTexts runId))
    (hcalls : s.pendingTools.map (·.callId) ++ o.calls.map (·.callId) =
      more ++ s'.pendingTools.map (·.callId))
    (hrounds : s'.status.isActive = true → s.modelCalls.val ≤ s'.modelCalls.val ∧
      ∀ n, tag = .provider n → n < s'.modelCalls.val)
    (htools : ∀ c, tag = .tool c ∨ tag = .batch c → c ∈ more) :
    Named runId (log ++ [(e, o)]) s' (tags ++ [tag]) (done ++ more) := by
  have hid : e.effectId = tag.text runId := by
    have hmap := nextEffect_effectId s
    rw [he, ht, h.sameRun] at hmap
    exact Option.some.inj hmap
  refine ⟨hrun.trans h.sameRun, ?_, ?_, ?_, ?_, ?_, ?_⟩
  · simp [h.effectIds, hid]
  · simpa [List.flatMap_append, h.issued] using hissued
  · rw [callIds_concat, h.calls, List.append_assoc, hcalls, List.append_assoc]
  · intro hactive n hn
    obtain ⟨hle, hlast⟩ := hrounds hactive
    rcases List.mem_append.mp hn with hn | hn
    · exact Nat.lt_of_lt_of_le (h.rounds (nextTag_active ht) n hn) hle
    · exact hlast n (List.mem_singleton.mp hn).symm
  · intro c hc
    simp only [List.mem_append, List.mem_singleton] at hc ⊢
    rcases hc with (hc | hc) | (hc | hc)
    · exact .inl (h.tools c (.inl hc))
    · exact .inr (htools c (.inl hc.symm))
    · exact .inl (h.tools c (.inr hc))
    · exact .inr (htools c (.inr hc.symm))
  · intro hd
    rw [callIds_concat, List.nodup_append] at hd
    have hfresh := h.nextTag_not_mem hd.1 ht
    exact List.nodup_append.mpr ⟨h.distinct hd.1, by simp, fun a ha b hb =>
      fun hab => hfresh (List.mem_singleton.mp hb ▸ hab ▸ ha)⟩

variable [RequestText] [JsonText]

theorem Named.committed {e : AgentRunEffect} {o : AgentEffectOutcome} {s' : AgentRunState}
    (h : Named runId log s tags done) (hc : Committed s e o s') :
    ∃ tags' done', Named runId (log ++ [(e, o)]) s' tags' done' := by
  have provider (ht : s.ProviderTurn) {s' : AgentRunState}
      (hm : s'.modelCalls = s.modelCalls.saturatingAdd 1) :
      s.modelCalls.val ≤ s'.modelCalls.val ∧
        ∀ n, EffectTag.provider s.modelCalls.val = .provider n → n < s'.modelCalls.val := by
    have hlt := ht.charged_lt
    have hcap := s.budget.modelCallLimit.le_cap
    have hmax : s.modelCalls.val ≤ Nat.max s.providerCallsStarted.val s.modelCalls.val :=
      Nat.le_max_right _ _
    have hval : s'.modelCalls.val = s.modelCalls.val + 1 := by
      rw [hm, Capped.val_saturatingAdd, Capped.val_one]
      omega
    refine ⟨by omega, fun n hn => ?_⟩
    obtain rfl := EffectTag.provider.inj hn
    omega
  cases hc with
  | response response attempts ht =>
    refine ⟨_, _, h.commit [] ht.nextEffect ht.nextTag (by simp) rfl ?_
      (fun _ => provider ht (by simp)) (by simp)⟩
    simp [ht.idle, AgentEffectOutcome.calls, acceptResponse_pendingTools]
  | failure error attempts ht =>
    have hl := sameLedger_fail (s.recordProviderEffect attempts error.usage) error.message
    refine ⟨_, _, h.commit [] ht.nextEffect ht.nextTag (by simp [hl.runId]) rfl ?_
      (fun _ => provider ht (by simp [hl.modelCalls])) (by simp)⟩
    simp [AgentEffectOutcome.calls, hl.pendingTools]
  | exhausted required ht =>
    refine ⟨_, _, h.commit [] ht.nextEffect ht.nextTag rfl rfl ?_ ?_ (by simp)⟩
    · simp [AgentEffectOutcome.calls, markIncomplete]
    · simp [markIncomplete, RunStatus.isActive]
  | tool call rest output attempts usage ht =>
    refine ⟨_, _, h.commit [call.callId] ht.nextEffect ht.nextTag (by simp) ?_ ?_
      (by simp) (by simp)⟩
    · simp [toolEffect, AgentRunEffect.invocations, toolEffectCall, ToolInvocation.texts,
        callTexts, h.sameRun]
    · simp [AgentEffectOutcome.calls, ht.pending]
  | batch call rest outputs ht hlen =>
    have hframe := foldl_resolveItem_invariant
      (I := fun t => t.runId = s.runId ∧ t.modelCalls = s.modelCalls)
      (fun _ _ _ _ _ _ _ ht => by simpa using ht) _ _ (batchItems_calls hlen) ⟨rfl, rfl⟩
    have hdrop : ((s.batchItems outputs).foldl resolveItem s).pendingTools = [] := by
      rw [foldl_resolveItem_pendingTools, List.drop_eq_nil_iff]
      simp [batchItems, hlen]
    refine ⟨_, _, h.commit (s.pendingTools.map (·.callId)) ht.nextEffect ht.nextTag
      hframe.1 ?_ ?_ ?_ ?_⟩
    · simp [toolBatchEffect, AgentRunEffect.invocations, toolEffectCall, ToolInvocation.texts,
        callTexts, h.sameRun, Function.comp_def]
    · simp [AgentEffectOutcome.calls, hdrop]
    · simp [hframe.2]
    · simp [ht.pending]

/-- Every run from a state without pending calls is named. -/
theorem Trace.named {s₀ : AgentRunState} (h : Trace s₀ log s) (hidle : s₀.pendingTools = []) :
    ∃ tags done, Named s₀.runId log s tags done := by
  refine h.invariant (I := fun log s => ∃ tags done, Named s₀.runId log s tags done) ?_ ?_ ?_
  · exact ⟨[], [], rfl, rfl, rfl, by simp [callIds, hidle], by simp, by simp, by simp⟩
  · rintro log s e o s' ⟨tags, done, hn⟩ _ hc
    exact hn.committed hc
  · rintro log s s' ⟨tags, done, hn⟩ hq
    exact ⟨tags, done, hn.quiet hq⟩

/-- Every effect, tool invocation and idempotency key of the run has a name of its own, and no
completion of the run is accepted again. -/
structure UniqueIdentity (log : EffectLog) (s : AgentRunState) : Prop where
  effectIds : ((log.map (·.1) ++ s.nextEffect.toList).map (·.effectId)).Nodup
  keys : ((invocations log s).map (·.idempotencyKey)).Nodup
  invocationIds : ((invocations log s).map (·.invocationId)).Nodup
  noReplay : ∀ p ∈ log, ∀ o, (s.commitEffect p.1.effectId o).2 ≠ .ok ()

omit [RequestText] [JsonText] in
theorem Named.texts (h : Named runId log s tags done) :
    (invocations log s).map (·.texts) = (callIds log).map (callTexts runId) := by
  rw [invocations, List.map_append, h.issued, h.calls, List.map_append, List.map_map, List.map_map]
  simp only [Function.comp_def, toolEffectCall, ToolInvocation.texts, callTexts, h.sameRun]

omit [RequestText] [JsonText] in
theorem Named.nodup_keys_iff (h : Named runId log s tags done) :
    ((invocations log s).map (·.idempotencyKey)).Nodup ↔ (callIds log).Nodup := by
  have hkeys := congrArg (List.map Prod.fst) h.texts
  rw [List.map_map, List.map_map] at hkeys
  rw [show (invocations log s).map (·.idempotencyKey) =
    (callIds log).map (Prod.fst ∘ callTexts runId) from hkeys]
  exact List.nodup_map_iff fun _ _ heq => idempotencyKey_inj.mp heq

omit [RequestText] [JsonText] in
theorem Named.nodup_invocationIds_iff (h : Named runId log s tags done) :
    ((invocations log s).map (·.invocationId)).Nodup ↔ (callIds log).Nodup := by
  have hids := congrArg (List.map Prod.snd) h.texts
  rw [List.map_map, List.map_map] at hids
  rw [show (invocations log s).map (·.invocationId) =
    (callIds log).map (Prod.snd ∘ callTexts runId) from hids]
  exact List.nodup_map_iff fun _ _ heq => toolEffectId_inj.mp (ToolInvocationId.mk.inj heq)

omit [RequestText] [JsonText] in
theorem Named.nodup_effectIds (h : Named runId log s tags done) (hd : (callIds log).Nodup) :
    ((log.map (·.1) ++ s.nextEffect.toList).map (·.effectId)).Nodup := by
  have hnext : s.nextEffect.toList.map (·.effectId) =
      s.nextTag.toList.map (EffectTag.text runId) := by
    have hid := nextEffect_effectId s
    rw [h.sameRun] at hid
    rw [← Option.toList_map, ← Option.toList_map, hid]
  rw [List.map_append, List.map_map, hnext]
  rw [show log.map ((·.effectId) ∘ (·.1)) = tags.map (EffectTag.text runId) from h.effectIds,
    ← List.map_append, List.nodup_map_iff fun _ _ heq => EffectTag.text_inj.mp heq]
  cases ht : s.nextTag with
  | none => simpa using h.distinct hd
  | some tag =>
    refine List.nodup_append.mpr ⟨h.distinct hd, by simp, fun a ha b hb hab => ?_⟩
    obtain rfl : b = tag := by simpa using hb
    exact h.nextTag_not_mem hd ht (hab ▸ ha)

theorem Named.uniqueIdentity_iff (h : Named runId log s tags done) :
    UniqueIdentity log s ↔ (callIds log).Nodup := by
  refine ⟨fun hu => h.nodup_keys_iff.mp hu.keys, fun hd => ?_⟩
  have hids := h.nodup_effectIds hd
  refine ⟨hids, h.nodup_keys_iff.mpr hd, h.nodup_invocationIds_iff.mpr hd, ?_⟩
  -- an accepted completion completes the next effect, whose id is new
  intro p hp o haccepted
  obtain ⟨e, he, hid, _⟩ := committed_of_commitEffect (Prod.ext rfl haccepted)
  rw [List.map_append, List.nodup_append] at hids
  exact hids.2.2 p.1.effectId (List.mem_map_of_mem (List.mem_map_of_mem hp)) e.effectId
    (by simp [he]) hid.symm

end

/-- No invocation of one run has the key or the id of an invocation of the other. -/
def Separate (is js : List ToolInvocation) : Prop :=
  ∀ i ∈ is, ∀ j ∈ js, i.idempotencyKey ≠ j.idempotencyKey ∧ i.invocationId ≠ j.invocationId

/-- The run id `r` is a proper prefix of the run id `q`, and what `q` adds to it is at the front
of the separator and the call id `c` of the first run, with the call id `d` of the second run
after it. -/
def Overlap (separator r c q d : String) : Prop :=
  ∃ e, e ≠ "" ∧ q = r ++ e ∧ separator ++ c = e ++ (separator ++ d)

theorem join_eq_join_iff {separator r c q d : String} (hne : r ≠ q) :
    r ++ separator ++ c = q ++ separator ++ d ↔
      Overlap separator r c q d ∨ Overlap separator q d r c := by
  rw [String.append_assoc, String.append_assoc, append_eq_append_iff]
  constructor
  · rintro (⟨e, hq, hc⟩ | ⟨e, hr, hd⟩)
    · exact .inl ⟨e, fun he => hne (by simp [hq, he]), hq, hc⟩
    · exact .inr ⟨e, fun he => hne (by simp [hr, he]), hr, hd⟩
  · rintro (⟨e, _, hq, hc⟩ | ⟨e, _, hr, hd⟩)
    · exact .inl ⟨e, hq, hc⟩
    · exact .inr ⟨e, hr, hd⟩

theorem separate_iff {is js : List ToolInvocation} {r q : String} {cs ds : List String}
    (hi : is.map (·.texts) = cs.map (callTexts r)) (hj : js.map (·.texts) = ds.map (callTexts q)) :
    Separate is js ↔ ∀ c ∈ cs, ∀ d ∈ ds, r ++ ":" ++ c ≠ q ++ ":" ++ d ∧
      r ++ ":tool:" ++ c ≠ q ++ ":tool:" ++ d := by
  have hsep : Separate is js ↔ ∀ t ∈ is.map (·.texts), ∀ u ∈ js.map (·.texts),
      t.1 ≠ u.1 ∧ t.2 ≠ u.2 := by
    simp only [List.forall_mem_map]
    rfl
  rw [hsep, hi, hj]
  simp only [List.forall_mem_map, callTexts, idempotencyKey, toolEffectId, ne_eq,
    IdempotencyKey.mk.injEq, ToolInvocationId.mk.injEq]

/-- Two runs name their effects and tool calls apart exactly when neither run uses a call id
twice and no call id of one run continues its run id to the run id of the other. -/
theorem unique_identity_iff [RequestText] [JsonText] {s₁ s₂ t₁ t₂ : AgentRunState}
    {log₁ log₂ : EffectLog} (hidle₁ : s₁.pendingTools = []) (hidle₂ : s₂.pendingTools = [])
    (hne : s₁.runId ≠ s₂.runId) (h₁ : Trace s₁ log₁ t₁) (h₂ : Trace s₂ log₂ t₂) :
    (UniqueIdentity log₁ t₁ ∧ UniqueIdentity log₂ t₂ ∧
      Separate (invocations log₁ t₁) (invocations log₂ t₂)) ↔
    (callIds log₁).Nodup ∧ (callIds log₂).Nodup ∧
      ∀ c ∈ callIds log₁, ∀ d ∈ callIds log₂, ∀ separator ∈ [":", ":tool:"],
        ¬ Overlap separator s₁.runId c s₂.runId d ∧
          ¬ Overlap separator s₂.runId d s₁.runId c := by
  obtain ⟨_, _, hn₁⟩ := h₁.named hidle₁
  obtain ⟨_, _, hn₂⟩ := h₂.named hidle₂
  rw [hn₁.uniqueIdentity_iff, hn₂.uniqueIdentity_iff, separate_iff hn₁.texts hn₂.texts]
  simp only [ne_eq, join_eq_join_iff hne, not_or, List.forall_mem_cons, List.not_mem_nil,
    false_implies, implies_true, and_true]

section

open Sample

theorem unique_identity_sample :
    let s := @acceptResponse requestText state (callsResponse [call "c" .null, call "d" .null]) []
    @UniqueIdentity requestText jsonText
      [(state.providerEffect,
        .provider (callsResponse [call "c" .null, call "d" .null]) [])] s := by
  let _ := jsonText
  let _ := requestText
  have h : Trace state _ (state.acceptResponse
      (callsResponse [call "c" .null, call "d" .null]) []) :=
    Trace.start.step (by rfl) (.response _ _ ⟨rfl, rfl, by decide⟩)
  have h' : Trace { state with runId := "other" } [] { state with runId := "other" } := .start
  exact ((unique_identity_iff rfl rfl (by decide) h h').mpr
      ⟨by decide, by decide, fun _ _ _ hd => by simp [callIds] at hd⟩).1

/-- A call id that comes back in a later round: the completion of the first call is accepted as
the completion of the second. -/
theorem stale_completion_accepted :
    ¬ ∀ (_ : RequestText) (_ : JsonText) (s₀ s : AgentRunState) (log : EffectLog),
      s₀.pendingTools = [] → Trace s₀ log s → UniqueIdentity log s := by
  intro claim
  let _ := jsonText
  let _ := requestText
  let response := callsResponse [call "c" .null]
  have h₁ : Trace state _ (state.acceptResponse response []) :=
    Trace.start.step (by rfl) (.response _ _ ⟨rfl, rfl, by decide⟩)
  have h₂ := h₁.step (by trivial) (.tool (call "c" .null) [] .null 1 none ⟨rfl, rfl, rfl⟩)
  have h₃ := h₂.step (by rfl) (.response response [] ⟨rfl, rfl, by decide⟩)
  exact (claim _ _ _ _ _ rfl h₃).noReplay
    ((state.acceptResponse response []).toolEffect (call "c" .null), .tool .null 1 none)
    (by simp) (.tool .null 1 none) rfl

end

end Agentive
