import Agentive.CallLog
import Agentive.Validation

/-! The history validator as a scan of a call log. A message opens a group of calls, answers a
call, or does neither. -/

namespace Agentive

open CallLog

/-- The correlation fields of a tool message. -/
abbrev ResultKey := Option String × Option ToolName

def answers (call : ToolCall) (key : ResultKey) : Prop :=
  key.1 = some call.id ∧ key.2 = some call.name

instance (call : ToolCall) (key : ResultKey) : Decidable (answers call key) :=
  inferInstanceAs (Decidable (_ ∧ _))

def DistinctIds (calls : List ToolCall) : Prop := (calls.map (·.id)).Nodup

instance (calls : List ToolCall) : Decidable (DistinctIds calls) :=
  inferInstanceAs (Decidable (List.Nodup _))

def Message.entry (message : Message) : Entry ToolCall ResultKey :=
  match message.role with
  | .tool => .result (message.toolCallId, message.name)
  | .assistant =>
    if (message.toolCalls.getD []).isEmpty then .plain
    else .calls (message.toolCalls.getD [])
  | .user | .system => .plain

abbrev callLog (history : List Message) : List (Entry ToolCall ResultKey) :=
  history.map Message.entry

/-- The calls of a history that wait for a result, if its messages correlate. -/
def scanHistory (history : List Message) : Option (List ToolCall) :=
  scan answers DistinctIds (callLog history)

def pendingPair (call : ToolCall) : String × String := (call.id, call.name.text)

theorem ToolName.text_inj {a b : ToolName} : a.text = b.text ↔ a = b := by
  cases a
  cases b
  simp

theorem enqueueCalls_eq_ok_iff {calls : List ToolCall} {pending q : PendingCalls} :
    enqueueCalls calls pending = .ok q ↔
      (∀ c ∈ calls, ∀ p ∈ pending, p.1 ≠ c.id) ∧ DistinctIds calls ∧
        q = pending ++ calls.map pendingPair := by
  induction calls generalizing pending with
  | nil => simp [enqueueCalls, DistinctIds, eq_comm]
  | cons c calls ih =>
    by_cases hc : pending.any (fun p => p.1 = c.id) = true
    · have hmem : ∃ p ∈ pending, p.1 = c.id := by simpa using hc
      obtain ⟨p, hp, hid⟩ := hmem
      simp only [enqueueCalls, hc, if_true, reduceCtorEq, false_iff]
      exact fun h => h.1 c (by simp) p hp hid
    · have hnone : ∀ p ∈ pending, p.1 ≠ c.id := fun p hp he =>
        hc (List.any_eq_true.mpr ⟨p, hp, by simpa using he⟩)
      simp only [enqueueCalls, hc, if_false, ih, Bool.false_eq_true, DistinctIds, List.map_cons,
        List.nodup_cons, List.mem_map, not_exists, not_and, List.mem_append, List.mem_singleton]
      constructor
      · rintro ⟨hfresh, hnd, rfl⟩
        refine ⟨?_, ⟨fun d hd he => hfresh d hd _ (.inr rfl) he.symm, hnd⟩, by simp [pendingPair]⟩
        intro d hd p hp
        rcases List.mem_cons.mp hd with rfl | hd
        · exact hnone p hp
        · exact hfresh d hd p (.inl hp)
      · rintro ⟨hfresh, ⟨hc', hnd⟩, rfl⟩
        refine ⟨?_, hnd, by simp [pendingPair]⟩
        rintro d hd p (hp | rfl)
        · exact hfresh d (by simp [hd]) p hp
        · exact fun he => hc' d hd he.symm

theorem zip_agrees_iff {pending : List ModelToolCall} {queue : List ToolCall} :
    (pending.length = queue.length ∧
        ∀ p ∈ pending.zip (queue.map pendingPair), p.1.callId = p.2.1 ∧ p.1.name.text = p.2.2) ↔
      pending.map (fun c => (c.callId, c.name)) = queue.map (fun c => (c.id, c.name)) := by
  induction pending generalizing queue with
  | nil => cases queue <;> simp
  | cons c pending ih =>
    cases queue with
    | nil => simp
    | cons d queue =>
      have ih := @ih queue
      simp only [List.length_cons, Nat.succ.injEq, List.map_cons, List.zip_cons_cons,
        List.forall_mem_cons, pendingPair, ToolName.text_inj, List.cons.injEq, Prod.mk.injEq]
        at ih ⊢
      rw [← ih]
      tauto

/-- The message is the result of the call. -/
def Message.IsResultOf (message : Message) (call : ToolCall) : Prop :=
  message.role = .tool ∧ message.toolCallId = some call.id ∧ message.name = some call.name

instance (message : Message) (call : ToolCall) : Decidable (message.IsResultOf call) :=
  inferInstanceAs (Decidable (_ ∧ _))

/-- The number of results of the call among some messages. -/
def resultCount (messages : List Message) (call : ToolCall) : Nat :=
  messages.countP (fun m => m.IsResultOf call)

/-- The results of a group of calls: in call order, one for each call. -/
structure Round (calls : List ToolCall) (results : List Message) : Prop where
  inOrder : List.Forall₂ (fun call m => m.IsResultOf call) calls results
  unique : ∀ call ∈ calls, resultCount results call = 1

/-- A history in which the results of every group of calls follow it at once. -/
inductive Rounds : List Message → Prop
  | nil : Rounds []
  | plain {history : List Message} {m : Message} :
      Rounds history → m.role ≠ .tool → (m.role = .assistant → m.toolCalls.getD [] = []) →
      Rounds (history ++ [m])
  | round {history results : List Message} {m : Message} :
      Rounds history → m.role = .assistant → Round (m.toolCalls.getD []) results →
      Rounds (history ++ m :: results)

/-- Such a history, or one with a last group of calls of which those in `queue` have no result
and the others have theirs. -/
inductive Correlates : List Message → List ToolCall → Prop
  | settled {history : List Message} : Rounds history → Correlates history []
  | waiting {history results : List Message} {m : Message} {front queue : List ToolCall} :
      Rounds history → m.role = .assistant → m.toolCalls.getD [] = front ++ queue →
      queue ≠ [] → Round front results → (∀ call ∈ queue, resultCount results call = 0) →
      Correlates (history ++ m :: results) queue

theorem Message.entry_eq_plain {m : Message} (h : m.entry = .plain) :
    m.role ≠ .tool ∧ (m.role = .assistant → m.toolCalls.getD [] = []) := by
  cases hr : m.role <;> simp [Message.entry, hr] at h ⊢
  simpa using h

theorem Message.entry_eq_calls {m : Message} {calls : List ToolCall} (h : m.entry = .calls calls) :
    m.role = .assistant ∧ m.toolCalls.getD [] = calls := by
  cases hr : m.role <;> simp [Message.entry, hr] at h ⊢
  split at h
  · cases h
  · simpa using h

theorem Message.isResultOf_of_entry {m : Message} {key : ResultKey} {call : ToolCall}
    (h : m.entry = .result key) (ha : answers call key) : m.IsResultOf call := by
  cases hr : m.role <;> simp [Message.entry, hr] at h
  · split at h <;> cases h
  · subst h
    exact ⟨hr, ha⟩

theorem inOrder_of_entries {calls : List ToolCall} {keys : List ResultKey}
    {results : List Message} (h : List.Forall₂ answers calls keys)
    (hr : results.map Message.entry = keys.map .result) :
    List.Forall₂ (fun call m => m.IsResultOf call) calls results := by
  induction h generalizing results with
  | nil =>
    obtain rfl : results = [] := by simpa using hr
    exact .nil
  | cons ha _ ih =>
    obtain ⟨m, rest, rfl, hm, hrest⟩ := List.map_eq_cons_iff.mp hr
    exact .cons (Message.isResultOf_of_entry hm ha) (ih hrest)

theorem resultCount_eq_zero {calls : List ToolCall} {results : List Message} {call : ToolCall}
    (h : List.Forall₂ (fun call m => m.IsResultOf call) calls results)
    (hid : call.id ∉ calls.map (·.id)) : resultCount results call = 0 := by
  induction h with
  | nil => rfl
  | @cons c m _ results hm _ ih =>
    simp only [List.map_cons, List.mem_cons, not_or] at hid
    have hne : ¬ m.IsResultOf call := fun hc => hid.1 (by
      simpa using hc.2.1.symm.trans hm.2.1)
    rw [resultCount, List.countP_cons_of_neg (by simpa using hne)]
    exact ih hid.2

theorem Round.of_inOrder {calls : List ToolCall} {results : List Message}
    (h : List.Forall₂ (fun call m => m.IsResultOf call) calls results) (hd : DistinctIds calls) :
    Round calls results := by
  refine ⟨h, ?_⟩
  induction h with
  | nil => simp
  | @cons c m calls results hm h ih =>
    obtain ⟨hc, hd⟩ := List.nodup_cons.mp hd
    intro call hcall
    rcases List.mem_cons.mp hcall with rfl | hcall
    · have hrest : resultCount results call = 0 := resultCount_eq_zero h hc
      rw [resultCount, List.countP_cons_of_pos (by simpa using hm)]
      simpa [resultCount] using hrest
    · have hne : ¬ m.IsResultOf call := fun hr => by
        have hid : call.id = c.id := by simpa using hr.2.1.symm.trans hm.2.1
        exact hc (List.mem_map.mpr ⟨call, hcall, hid⟩)
      rw [resultCount, List.countP_cons_of_neg (by simpa using hne)]
      exact ih hd call hcall

theorem rounds_of_resolved {log : List (Entry ToolCall ResultKey)}
    (h : Resolved answers DistinctIds log) {history : List Message}
    (hlog : callLog history = log) : Rounds history := by
  induction h generalizing history with
  | nil =>
    obtain rfl : history = [] := by simpa using hlog
    exact .nil
  | plain _ ih =>
    obtain ⟨before, last, rfl, hbefore, hlast⟩ := List.map_eq_append_iff.mp hlog
    obtain ⟨m, rest, rfl, hm, hrest⟩ := List.map_eq_cons_iff.mp hlast
    obtain rfl : rest = [] := by simpa using hrest
    obtain ⟨hrole, hcalls⟩ := m.entry_eq_plain hm
    exact .plain (ih hbefore) hrole hcalls
  | round _ hd hf ih =>
    obtain ⟨before, last, rfl, hbefore, hlast⟩ := List.map_eq_append_iff.mp hlog
    obtain ⟨m, results, rfl, hm, hresults⟩ := List.map_eq_cons_iff.mp hlast
    obtain ⟨hrole, hcalls⟩ := m.entry_eq_calls hm
    exact .round (ih hbefore) hrole (hcalls ▸ .of_inOrder (inOrder_of_entries hf hresults) hd)

/-- What the scan says of the messages themselves. -/
theorem correlates_of_scanHistory {history : List Message} {queue : List ToolCall}
    (h : scanHistory history = some queue) : Correlates history queue := by
  generalize hlog : callLog history = log
  rw [scanHistory, hlog] at h
  cases correlated_of_scan h with
  | settled hr => exact .settled (rounds_of_resolved hr hlog)
  | @waiting _ front _ _ hr hd hne hf =>
    obtain ⟨before, last, rfl, hbefore, hlast⟩ := List.map_eq_append_iff.mp hlog
    obtain ⟨m, results, rfl, hm, hresults⟩ := List.map_eq_cons_iff.mp hlast
    obtain ⟨hrole, hcalls⟩ := m.entry_eq_calls hm
    have hin := inOrder_of_entries hf hresults
    rw [DistinctIds, List.map_append, List.nodup_append] at hd
    refine .waiting (rounds_of_resolved hr hbefore) hrole hcalls hne (.of_inOrder hin hd.1) ?_
    intro call hcall
    exact resultCount_eq_zero hin fun hid => hd.2.2 _ hid _ (List.mem_map_of_mem hcall) rfl

section

variable [JsonText]

/-- The message passes the shape check. -/
def WellShaped (message : Message) : Prop := validateMessageShape message = .ok ()

instance (message : Message) : Decidable (WellShaped message) :=
  inferInstanceAs (Decidable (validateMessageShape message = .ok ()))

theorem WellShaped.role_ne_system {message : Message} (h : WellShaped message) :
    message.role ≠ .system := by
  intro hr
  simp [WellShaped, validateMessageShape, hr] at h

theorem stepHistory_eq_ok_iff {queue : List ToolCall} {message : Message} {q : PendingCalls} :
    stepHistory (queue.map pendingPair) message = .ok q ↔
      WellShaped message ∧ ∃ queue', step answers DistinctIds queue message.entry = some queue' ∧
        q = queue'.map pendingPair := by
  by_cases hshape : WellShaped message
  swap
  · cases hv : validateMessageShape message with
    | ok => exact absurd hv hshape
    | error e => simp [stepHistory, hv, hshape]
  have hv : validateMessageShape message = .ok () := hshape
  have hsys := hshape.role_ne_system
  simp only [hshape, true_and]
  cases hr : message.role with
  | system => exact absurd hr hsys
  | user =>
    cases queue with
    | nil => simp [stepHistory, hv, hr, Message.entry, step, eq_comm]
    | cons c queue => simp [stepHistory, hv, hr, Message.entry, step]
  | assistant =>
    cases queue with
    | nil =>
      simp only [stepHistory, hv, hr, List.map_nil, ne_eq, not_true_eq_false, if_false,
        enqueueCalls_eq_ok_iff, Message.entry, List.nil_append, List.not_mem_nil, false_implies,
        implies_true, true_and]
      by_cases hc : (message.toolCalls.getD []).isEmpty = true
      · have hnil : message.toolCalls.getD [] = [] := List.isEmpty_iff.mp hc
        simp [hnil, step, DistinctIds]
      · simp only [hc, Bool.false_eq_true, if_false, step, Option.ite_none_right_eq_some,
          Option.some.injEq]
        constructor
        · rintro ⟨hd, rfl⟩
          exact ⟨_, ⟨hd, rfl⟩, rfl⟩
        · rintro ⟨_, ⟨hd, rfl⟩, rfl⟩
          exact ⟨hd, rfl⟩
    | cons c queue =>
      simp only [stepHistory, hv, hr, List.map_cons, ne_eq, reduceCtorEq, not_false_eq_true,
        if_true, Message.entry, false_iff]
      by_cases hc : (message.toolCalls.getD []).isEmpty = true <;> simp [hc, step]
  | tool =>
    have hid : ∃ id, message.toolCallId = some id := by
      cases hid : message.toolCallId with
      | some id => exact ⟨id, rfl⟩
      | none => simp [validateMessageShape, hr, hid] at hv
    obtain ⟨id, hid⟩ := hid
    cases queue with
    | nil => simp [stepHistory, hv, hr, resolveHistoryCall, hid, Message.entry, step]
    | cons c queue =>
      simp only [stepHistory, hv, hr, resolveHistoryCall, hid, List.map_cons, pendingPair,
        Message.entry, step, answers, Option.some.injEq, Option.ite_none_right_eq_some]
      by_cases hc : id = c.id
      · have hname : message.name.map (·.text) = some c.name.text ↔ message.name = some c.name := by
          cases message.name with
          | none => simp
          | some n => simp [ToolName.text_inj]
        by_cases hn : message.name = some c.name
        · simp [hc, hn, eq_comm]
        · simp [hc, hname, hn]
      · simp [hc]

theorem foldlM_stepHistory_eq_ok_iff (history : List Message) (queue : List ToolCall)
    (q : PendingCalls) :
    history.foldlM stepHistory (queue.map pendingPair) = .ok q ↔
      (∀ m ∈ history, WellShaped m) ∧ ∃ queue',
        scanFrom answers DistinctIds queue (callLog history) = some queue' ∧
          q = queue'.map pendingPair := by
  induction history generalizing queue with
  | nil => simp [scanFrom, pure, Except.pure, eq_comm]
  | cons m history ih =>
    simp only [List.foldlM_cons, List.forall_mem_cons, callLog, List.map_cons, scanFrom]
    cases hs : stepHistory (queue.map pendingPair) m with
    | error e =>
      simp only [bind, Except.bind, reduceCtorEq, false_iff]
      rintro ⟨⟨hm, _⟩, queue', hq, _⟩
      cases hst : step answers DistinctIds queue m.entry with
      | none => simp [hst] at hq
      | some queue₁ =>
        have hok := stepHistory_eq_ok_iff.mpr ⟨hm, queue₁, hst, rfl⟩
        rw [hs] at hok
        cases hok
    | ok q₁ =>
      obtain ⟨hm, queue₁, hst, rfl⟩ := stepHistory_eq_ok_iff.mp hs
      simp only [bind, Except.bind, hst, Option.bind_some, hm, true_and]
      exact ih queue₁

theorem pendingHistoryCalls_eq_ok_iff {history : List Message} {q : PendingCalls} :
    pendingHistoryCalls history = .ok q ↔
      (∀ m ∈ history, WellShaped m) ∧ ∃ queue, scanHistory history = some queue ∧
        q = queue.map pendingPair := by
  simpa [pendingHistoryCalls, scanHistory, scan] using
    foldlM_stepHistory_eq_ok_iff history [] q

/-- A history is accepted when its messages are well shaped and no call waits. -/
theorem validateHistory_eq_ok_iff {history : List Message} :
    validateHistory history = .ok () ↔
      (∀ m ∈ history, WellShaped m) ∧ scanHistory history = some [] := by
  have hiff : validateHistory history = .ok () ↔ pendingHistoryCalls history = .ok [] := by
    unfold validateHistory
    cases pendingHistoryCalls history with
    | error e => simp
    | ok q => cases q <;> simp
  rw [hiff, pendingHistoryCalls_eq_ok_iff]
  constructor
  · rintro ⟨hm, queue, hq, hnil⟩
    obtain rfl : queue = [] := List.map_eq_nil_iff.mp hnil.symm
    exact ⟨hm, hq⟩
  · rintro ⟨hm, hq⟩
    exact ⟨hm, [], hq, rfl⟩

/-- A snapshot is accepted when its messages are well shaped and the waiting calls of its
history are the pending tools, by id and name. -/
theorem validateEffectStateHistory_eq_ok_iff {s : AgentRunState} :
    validateEffectStateHistory s = .ok () ↔
      (∀ m ∈ s.history, WellShaped m) ∧ ∃ queue, scanHistory s.history = some queue ∧
        s.pendingTools.map (fun c => (c.callId, c.name)) =
          queue.map (fun c => (c.id, c.name)) := by
  have hiff : validateEffectStateHistory s = .ok () ↔
      ∃ q, pendingHistoryCalls s.history = .ok q ∧ s.pendingTools.length = q.length ∧
        ∀ p ∈ s.pendingTools.zip q, p.1.callId = p.2.1 ∧ p.1.name.text = p.2.2 := by
    unfold validateEffectStateHistory
    cases pendingHistoryCalls s.history with
    | error e => simp
    | ok q =>
      simp only [ne_eq, List.any_eq_true, decide_eq_true_eq, Except.ok.injEq, exists_eq_left']
      constructor
      · intro h
        split at h
        · cases h
        · next hn =>
          push Not at hn
          exact ⟨hn.1.symm, fun p hp => hn.2 p hp⟩
      · rintro ⟨hlen, hall⟩
        rw [if_neg]
        push Not
        exact ⟨hlen.symm, fun p hp => hall p hp⟩
  rw [hiff]
  constructor
  · rintro ⟨q, hq, hlen, hall⟩
    obtain ⟨hm, queue, hscan, rfl⟩ := pendingHistoryCalls_eq_ok_iff.mp hq
    exact ⟨hm, queue, hscan, zip_agrees_iff.mp ⟨by simpa using hlen, hall⟩⟩
  · rintro ⟨hm, queue, hscan, hmap⟩
    obtain ⟨hlen, hall⟩ := zip_agrees_iff.mpr hmap
    exact ⟨_, pendingHistoryCalls_eq_ok_iff.mpr ⟨hm, queue, hscan, rfl⟩, by simpa using hlen,
      hall⟩

end

end Agentive
