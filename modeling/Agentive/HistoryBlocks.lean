import Agentive.HistoryGrammar

/-! The grammar of canonical histories: blocks one after the other, each a user message, a text of
the assistant, or a group of tool calls with the results of all its calls. -/

namespace Agentive

open CallLog

structure Message.IsUser (m : Message) : Prop where
  role : m.role = .user
  content : m.content ≠ []
  toolCalls : m.toolCalls = none
  toolCallId : m.toolCallId = none
  name : m.name = none

structure Message.IsAssistantText (m : Message) : Prop where
  role : m.role = .assistant
  content : m.content ≠ []
  toolCalls : m.toolCalls.getD [] = []
  toolCallId : m.toolCallId = none
  name : m.name = none

structure Message.IsCallGroup (m : Message) (calls : List ToolCall) : Prop where
  role : m.role = .assistant
  content : m.content = []
  toolCalls : m.toolCalls = some calls
  nonempty : calls ≠ []
  callShapes : ∀ call ∈ calls, isBlank call.id = false ∧ call.arguments.isObject = true
  toolCallId : m.toolCallId = none
  name : m.name = none

/-- A tool message with one JSON text, under an id and a name. -/
structure Message.IsToolResult [JsonText] (m : Message) : Prop where
  role : m.role = .tool
  content : ∃ text, m.content = [.text text] ∧ JsonText.parses text = true
  toolCalls : m.toolCalls = none
  toolCallId : ∃ id, m.toolCallId = some id ∧ isBlank id = false
  name : ∃ name, m.name = some name

theorem scanHistory_append {history : List Message} (h : scanHistory history = some [])
    (block : List Message) :
    scanHistory (history ++ block) = scanHistory block := by
  have hscan : scanFrom answers DistinctIds [] (callLog history) = some [] := h
  rw [scanHistory, CallLog.scan, callLog, List.map_append, scanFrom_append, hscan]
  rfl

section

variable [JsonText]

structure Message.Resolves (m : Message) (call : ToolCall) : Prop where
  shape : m.IsToolResult
  id : m.toolCallId = some call.id
  name : m.name = some call.name

inductive Block : List Message → Prop
  | user {m : Message} : m.IsUser → Block [m]
  | text {m : Message} : m.IsAssistantText → Block [m]
  | round {m : Message} {calls : List ToolCall} {results : List Message} :
      m.IsCallGroup calls → DistinctIds calls →
      List.Forall₂ (fun call result => result.Resolves call) calls results → Block (m :: results)

/-- A group of calls that ends after some results: those in `queue` still wait. -/
inductive CutBlock : List Message → List ToolCall → Prop
  | cut {m : Message} {front queue : List ToolCall} {results : List Message} :
      m.IsCallGroup (front ++ queue) → DistinctIds (front ++ queue) →
      List.Forall₂ (fun call result => result.Resolves call) front results →
      CutBlock (m :: results) queue

def Grammatical (history : List Message) : Prop :=
  ∃ blocks : List (List Message), (∀ block ∈ blocks, Block block) ∧ history = blocks.flatten

theorem Grammatical.append {a b : List Message} (ha : Grammatical a) (hb : Grammatical b) :
    Grammatical (a ++ b) := by
  obtain ⟨as, has, rfl⟩ := ha
  obtain ⟨bs, hbs, rfl⟩ := hb
  refine ⟨as ++ bs, fun block hblock => ?_, List.flatten_append.symm⟩
  rcases List.mem_append.mp hblock with h | h
  · exact has block h
  · exact hbs block h

theorem Block.grammatical {block : List Message} (h : Block block) : Grammatical block :=
  ⟨[block], by simpa using h, by simp⟩

/-! The shape check, role by role. -/

variable {m : Message}

theorem wellShaped_user_iff (hr : m.role = .user) : WellShaped m ↔ m.IsUser := by
  constructor
  · intro h
    have hshape : m.content ≠ [] ∧ m.toolCalls = none ∧ m.toolCallId = none ∧ m.name = none := by
      simpa [WellShaped, validateMessageShape, hr, and_assoc] using h
    obtain ⟨hcontent, hcalls, hid, hname⟩ := hshape
    exact ⟨hr, hcontent, hcalls, hid, hname⟩
  · intro h
    simp [WellShaped, validateMessageShape, hr, h.content, h.toolCalls, h.toolCallId, h.name]

theorem wellShaped_text_iff (hr : m.role = .assistant) (hcalls : m.toolCalls.getD [] = []) :
    WellShaped m ↔ m.IsAssistantText := by
  constructor
  · intro h
    have hshape : m.toolCallId = none ∧ m.name = none ∧ m.content ≠ [] := by
      simpa [WellShaped, validateMessageShape, hr, hcalls, and_assoc] using h
    obtain ⟨hid, hname, hcontent⟩ := hshape
    exact ⟨hr, hcontent, hcalls, hid, hname⟩
  · intro h
    simp [WellShaped, validateMessageShape, hr, h.content, hcalls, h.toolCallId, h.name]

theorem wellShaped_calls_iff {calls : List ToolCall} (hr : m.role = .assistant)
    (hcalls : m.toolCalls = some calls) (hne : calls ≠ []) :
    WellShaped m ↔ m.IsCallGroup calls := by
  constructor
  · intro h
    have hfalse : calls.isEmpty = false := by simpa using hne
    have hshape : m.toolCallId = none ∧ m.name = none ∧ m.content = [] ∧
        ∀ call ∈ calls, isBlank call.id = false ∧ call.arguments.isObject = true := by
      simpa [WellShaped, validateMessageShape, hr, hcalls, hfalse, and_assoc] using h
    obtain ⟨hid, hname, hcontent, hshapes⟩ := hshape
    exact ⟨hr, hcontent, hcalls, hne, hshapes, hid, hname⟩
  · intro h
    have hfalse : calls.isEmpty = false := by simpa using hne
    have hshapes : ∀ call ∈ calls, isBlank call.id = false ∧ call.arguments.isObject = true :=
      h.callShapes
    simpa [WellShaped, validateMessageShape, hr, h.content, hcalls, hfalse, h.toolCallId, h.name]
      using hshapes

theorem validToolContent_iff {content : List MessageContent} :
    validToolContent content = true ↔
      ∃ text, content = [.text text] ∧ JsonText.parses text = true := by
  unfold validToolContent
  split
  · simp
  · next hn =>
    constructor
    · intro h
      cases h
    · rintro ⟨text, rfl, _⟩
      exact absurd rfl (hn text)

theorem wellShaped_tool_iff (hr : m.role = .tool) : WellShaped m ↔ m.IsToolResult := by
  constructor
  · intro h
    have hshape : validToolContent m.content = true ∧ m.toolCalls = none ∧
        m.toolCallId.all isBlank = false ∧ m.name ≠ none := by
      simpa [WellShaped, validateMessageShape, hr, and_assoc] using h
    obtain ⟨hcontent, hcalls, hid, hname⟩ := hshape
    refine ⟨hr, validToolContent_iff.mp hcontent, hcalls, ?_, Option.ne_none_iff_exists'.mp hname⟩
    cases hopt : m.toolCallId with
    | none => simp [hopt] at hid
    | some id => exact ⟨id, rfl, by simpa [hopt] using hid⟩
  · intro h
    have hcontent := validToolContent_iff.mpr h.content
    obtain ⟨id, hid, hblank⟩ := h.toolCallId
    obtain ⟨name, hname⟩ := h.name
    simp [WellShaped, validateMessageShape, hr, hcontent, h.toolCalls, hid, hblank, hname]

theorem Message.IsUser.wellShaped (h : m.IsUser) : WellShaped m :=
  (wellShaped_user_iff h.role).mpr h

theorem Message.IsAssistantText.wellShaped (h : m.IsAssistantText) : WellShaped m :=
  (wellShaped_text_iff h.role h.toolCalls).mpr h

theorem Message.IsCallGroup.wellShaped {calls : List ToolCall} (h : m.IsCallGroup calls) :
    WellShaped m :=
  (wellShaped_calls_iff h.role h.toolCalls h.nonempty).mpr h

theorem Message.IsToolResult.wellShaped (h : m.IsToolResult) : WellShaped m :=
  (wellShaped_tool_iff h.role).mpr h

/-! A block is accepted by the scan. -/

variable {calls queue : List ToolCall} {block history results : List Message}

theorem wellShaped_results
    (h : List.Forall₂ (fun call result => result.Resolves call) calls results) :
    ∀ m ∈ results, WellShaped m := by
  induction h with
  | nil => simp
  | cons hm _ ih => exact List.forall_mem_cons.mpr ⟨hm.shape.wellShaped, ih⟩

theorem Block.wellShaped (h : Block block) : ∀ m ∈ block, WellShaped m := by
  cases h with
  | user hm => simpa using hm.wellShaped
  | text hm => simpa using hm.wellShaped
  | round hm _ hr => exact List.forall_mem_cons.mpr ⟨hm.wellShaped, wellShaped_results hr⟩

theorem CutBlock.wellShaped (h : CutBlock block queue) : ∀ m ∈ block, WellShaped m := by
  cases h with
  | cut hm _ hr => exact List.forall_mem_cons.mpr ⟨hm.wellShaped, wellShaped_results hr⟩

theorem CutBlock.complete (h : CutBlock block []) : Block block := by
  cases h with
  | @cut m front _ results hm hd hr =>
    rw [List.append_nil] at hm hd
    exact .round hm hd hr

theorem callLog_results
    (h : List.Forall₂ (fun call result => result.Resolves call) calls results) :
    ∃ keys, List.Forall₂ answers calls keys ∧ callLog results = keys.map .result := by
  induction h with
  | nil => exact ⟨[], .nil, rfl⟩
  | @cons call m _ _ hm _ ih =>
    obtain ⟨keys, hkeys, hlog⟩ := ih
    refine ⟨(m.toolCallId, m.name) :: keys, .cons ⟨hm.id, hm.name⟩ hkeys, ?_⟩
    have hentry : m.entry = .result (m.toolCallId, m.name) := by
      simp [Message.entry, hm.shape.role]
    rw [List.map_cons, callLog, List.map_cons, hentry]
    exact congrArg _ hlog

theorem CutBlock.scan (h : CutBlock block queue) : scanHistory block = some queue := by
  cases h with
  | @cut m front _ results hm hd hr =>
    obtain ⟨keys, hkeys, hlog⟩ := callLog_results hr
    have hentry : m.entry = .calls (front ++ queue) := by
      have hne : (front ++ queue).isEmpty = false := by simpa using hm.nonempty
      simp [Message.entry, hm.role, hm.toolCalls, hne]
    have hmap : callLog (m :: results) = .calls (front ++ queue) :: keys.map .result := by
      rw [callLog, List.map_cons, hentry]
      exact congrArg _ hlog
    rw [scanHistory, hmap]
    exact scanFrom_round hd hkeys

theorem Block.scan (h : Block block) : scanHistory block = some [] := by
  cases h with
  | user hm => simp [scanHistory, CallLog.scan, scanFrom, step, Message.entry, hm.role]
  | text hm =>
    simp [scanHistory, CallLog.scan, scanFrom, step, Message.entry, hm.role, hm.toolCalls]
  | @round m calls results hm hd hr =>
    have hnil : calls ++ [] = calls := List.append_nil calls
    have hcut : CutBlock (m :: results) [] := .cut (hnil.symm ▸ hm) (hnil.symm ▸ hd) hr
    exact hcut.scan

theorem Grammatical.scan (h : Grammatical history) :
    (∀ m ∈ history, WellShaped m) ∧ scanHistory history = some [] := by
  obtain ⟨blocks, hblocks, rfl⟩ := h
  induction blocks with
  | nil => exact ⟨by simp, rfl⟩
  | cons block blocks ih =>
    obtain ⟨hblock, hrest⟩ := List.forall_mem_cons.mp hblocks
    obtain ⟨hshapes, hscan⟩ := ih hrest
    rw [List.flatten_cons, scanHistory_append hblock.scan]
    exact ⟨List.forall_mem_append.mpr ⟨hblock.wellShaped, hshapes⟩, hscan⟩

/-! What the scan accepts is made of blocks. -/

theorem resolves_of_inOrder
    (h : List.Forall₂ (fun call m => m.IsResultOf call) calls results)
    (hshapes : ∀ m ∈ results, WellShaped m) :
    List.Forall₂ (fun call result => result.Resolves call) calls results := by
  induction h with
  | nil => exact .nil
  | @cons call m _ _ hm _ ih =>
    obtain ⟨hshape, hrest⟩ := List.forall_mem_cons.mp hshapes
    exact .cons ⟨(wellShaped_tool_iff hm.1).mp hshape, hm.2.1, hm.2.2⟩ (ih hrest)

theorem isCallGroup_of_entry (hm : WellShaped m) (h : m.entry = .calls calls) :
    m.IsCallGroup calls := by
  obtain ⟨hrole, hcalls⟩ := m.entry_eq_calls h
  have hne : calls ≠ [] := by
    rintro rfl
    simp [Message.entry, hrole, hcalls] at h
  have hsome : m.toolCalls = some calls := by
    cases hopt : m.toolCalls with
    | none => exact absurd (hopt ▸ hcalls).symm hne
    | some calls' => rw [← hcalls, hopt]; rfl
  exact (wellShaped_calls_iff hrole hsome hne).mp hm

theorem block_of_entry (hm : WellShaped m) (h : m.entry = .plain) : Block [m] := by
  obtain ⟨htool, hcalls⟩ := m.entry_eq_plain h
  cases hr : m.role with
  | system => exact absurd hr hm.role_ne_system
  | tool => exact absurd hr htool
  | user => exact .user ((wellShaped_user_iff hr).mp hm)
  | assistant => exact .text ((wellShaped_text_iff hr (hcalls hr)).mp hm)

theorem grammatical_of_resolved {log : List (Entry ToolCall ResultKey)}
    (h : Resolved answers DistinctIds log) (hlog : callLog history = log)
    (hshapes : ∀ m ∈ history, WellShaped m) : Grammatical history := by
  induction h generalizing history with
  | nil =>
    obtain rfl : history = [] := by simpa using hlog
    exact ⟨[], by simp, rfl⟩
  | plain _ ih =>
    obtain ⟨before, last, rfl, hbefore, hlast⟩ := List.map_eq_append_iff.mp hlog
    obtain ⟨m, rest, rfl, hm, hrest⟩ := List.map_eq_cons_iff.mp hlast
    obtain rfl : rest = [] := by simpa using hrest
    obtain ⟨hdone, hblock⟩ := List.forall_mem_append.mp hshapes
    exact (ih hbefore hdone).append (block_of_entry (hblock m (by simp)) hm).grammatical
  | round _ hd hf ih =>
    obtain ⟨before, last, rfl, hbefore, hlast⟩ := List.map_eq_append_iff.mp hlog
    obtain ⟨m, results, rfl, hm, hresults⟩ := List.map_eq_cons_iff.mp hlast
    obtain ⟨hdone, hblock⟩ := List.forall_mem_append.mp hshapes
    obtain ⟨hshape, hrest⟩ := List.forall_mem_cons.mp hblock
    have hround : Block (m :: results) := .round (isCallGroup_of_entry hshape hm) hd
      (resolves_of_inOrder (inOrder_of_entries hf hresults) hrest)
    exact (ih hbefore hdone).append hround.grammatical

end

/-- The last block of a snapshot, if one is cut, with the calls that wait in it. -/
def LastCut [JsonText] (block : List Message) (queue : List ToolCall) : Prop :=
  (block = [] ∧ queue = []) ∨ CutBlock block queue

section

variable [JsonText] {history : List Message} {queue : List ToolCall}

theorem scanHistory_iff :
    ((∀ m ∈ history, WellShaped m) ∧ scanHistory history = some queue) ↔
      ∃ done block, history = done ++ block ∧ Grammatical done ∧ LastCut block queue := by
  constructor
  · rintro ⟨hshapes, hscan⟩
    generalize hlog : callLog history = log
    rw [scanHistory, hlog] at hscan
    cases correlated_of_scan hscan with
    | settled hr =>
      exact ⟨history, [], by simp, grammatical_of_resolved hr hlog hshapes, .inl ⟨rfl, rfl⟩⟩
    | @waiting _ front _ _ hr hd _ hf =>
      obtain ⟨before, last, rfl, hbefore, hlast⟩ := List.map_eq_append_iff.mp hlog
      obtain ⟨m, results, rfl, hm, hresults⟩ := List.map_eq_cons_iff.mp hlast
      obtain ⟨hdone, hblock⟩ := List.forall_mem_append.mp hshapes
      obtain ⟨hshape, hrest⟩ := List.forall_mem_cons.mp hblock
      have hcut : CutBlock (m :: results) queue := .cut (isCallGroup_of_entry hshape hm) hd
        (resolves_of_inOrder (inOrder_of_entries hf hresults) hrest)
      exact ⟨before, m :: results, rfl, grammatical_of_resolved hr hbefore hdone, .inr hcut⟩
  · rintro ⟨done, block, rfl, hdone, hlast⟩
    obtain ⟨hshapes, hscan⟩ := hdone.scan
    rw [scanHistory_append hscan]
    rcases hlast with ⟨rfl, rfl⟩ | hcut
    · exact ⟨by simpa using hshapes, rfl⟩
    · exact ⟨List.forall_mem_append.mpr ⟨hshapes, hcut.wellShaped⟩, hcut.scan⟩

theorem grammatical_iff :
    ((∀ m ∈ history, WellShaped m) ∧ scanHistory history = some []) ↔ Grammatical history := by
  constructor
  · intro h
    obtain ⟨done, block, rfl, hdone, hlast⟩ := scanHistory_iff.mp h
    rcases hlast with ⟨rfl, _⟩ | hcut
    · simpa using hdone
    · exact hdone.append hcut.complete.grammatical
  · exact Grammatical.scan

end

/-- A history is accepted exactly when it consists of blocks; a snapshot, exactly when its history
consists of blocks and at most one cut block, whose waiting calls are its pending tools. -/
theorem histories_are_their_grammar [JsonText] :
    (∀ h, validateHistory h = .ok () ↔ Grammatical h) ∧
    (∀ s : AgentRunState, validateEffectStateHistory s = .ok () ↔
      ∃ done block queue, s.history = done ++ block ∧ Grammatical done ∧ LastCut block queue ∧
        s.pendingTools.map (fun c => (c.callId, c.name)) =
          queue.map (fun c => (c.id, c.name))) ∧
    ∀ a b, validateHistory a = .ok () → validateHistory b = .ok () →
      validateHistory (a ++ b) = .ok () := by
  have haccepted : ∀ h, validateHistory h = .ok () ↔ Grammatical h := fun h =>
    validateHistory_eq_ok_iff.trans grammatical_iff
  refine ⟨haccepted, fun s => ?_, fun a b ha hb => ?_⟩
  · rw [validateEffectStateHistory_eq_ok_iff]
    constructor
    · rintro ⟨hshapes, queue, hscan, hpending⟩
      obtain ⟨done, block, heq, hdone, hlast⟩ := scanHistory_iff.mp ⟨hshapes, hscan⟩
      exact ⟨done, block, queue, heq, hdone, hlast, hpending⟩
    · rintro ⟨done, block, queue, heq, hdone, hlast, hpending⟩
      obtain ⟨hshapes, hscan⟩ := scanHistory_iff.mpr ⟨done, block, heq, hdone, hlast⟩
      exact ⟨hshapes, queue, hscan, hpending⟩
  · rw [haccepted] at ha hb ⊢
    exact ha.append hb

end Agentive
