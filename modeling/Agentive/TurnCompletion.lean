import Agentive.TurnIsolation

/-! A turn that is collected to its end. Until an interrupt is sent, the text is made of the deltas
that have been accepted, and each tool request has had its answer. An interrupted turn only
fails. -/

namespace Agentive

namespace Codex

open DriverLoop

/-- The messages that the iterations receive. -/
def received (script : List TurnIteration) : List Value :=
  script.filterMap fun i =>
    match i.received with
    | .message message => some message
    | _ => none

theorem received_snoc_message {script : List TurnIteration} {i : TurnIteration} {message : Value}
    (h : i.received = .message message) :
    received (script ++ [i]) = received script ++ [message] := by
  simp [received, h]

theorem received_snoc_woken {script : List TurnIteration} {i : TurnIteration}
    (h : i.received = .woken) : received (script ++ [i]) = received script := by
  simp [received, h]

def isToolCall (message : Value) : Bool :=
  (message.get "id").isSome && decide (methodOf message = some "item/tool/call")

/-- The answer to a request has its identifier and a result. -/
def Answers (request reply : Value) : Prop :=
  ∃ id result, request.get "id" = some id ∧ reply = toolReply id result

theorem Answers.methodOf_eq_none {request reply : Value} (h : Answers request reply) :
    methodOf reply = none := by
  obtain ⟨id, result, -, rfl⟩ := h
  rfl

theorem no_interrupt_of_answers {requests replies : List Value}
    (h : List.Forall₂ Answers requests replies) :
    ∀ reply ∈ replies, methodOf reply ≠ some "turn/interrupt" := by
  induction h with
  | nil => nofun
  | cons ha _ ih =>
    intro reply hreply
    rcases List.mem_cons.mp hreply with rfl | hreply
    · simp [ha.methodOf_eq_none]
    · exact ih reply hreply

theorem id_of_toolRequest {message : Value} {r : ToolRequest} (h : toolRequest message = some r) :
    message.get "id" = some r.id := by
  simp only [toolRequest, Option.bind_eq_bind, Option.bind_eq_some_iff, Option.some.injEq] at h
  obtain ⟨id, hid, _, _, _, _, _, _, _, _, _, _, rfl⟩ := h
  exact hid

namespace Collector

variable (c : Collector)

/-- A notification that is not filtered out. -/
structure Accepts (message : Value) : Prop where
  notification : message.get "id" = none
  thread : namesOther (paramsOf message) ["threadId"] c.threadId = false
  turn : namesOther (paramsOf message) ["turnId"] c.turnId = false

instance (message : Value) : Decidable (c.Accepts message) :=
  decidable_of_iff
    (message.get "id" = none ∧ namesOther (paramsOf message) ["threadId"] c.threadId = false ∧
      namesOther (paramsOf message) ["turnId"] c.turnId = false)
    ⟨fun ⟨h, h', h''⟩ => ⟨h, h', h''⟩, fun ⟨h, h', h''⟩ => ⟨h, h', h''⟩⟩

/-- The text of an accepted delta. -/
def acceptedDelta (message : Value) : Option String :=
  if c.Accepts message ∧ methodOf message = some "item/agentMessage/delta" then
    ((paramsOf message).get "delta").bind Value.asStr
  else none

/-- The accepted end of a completed turn. -/
structure Completion (message : Value) : Prop where
  accepted : c.Accepts message
  method : methodOf message = some "turn/completed"
  status : (paramsOf message).stringAt ["turn", "status"] = some "completed"

theorem acceptedDelta_of_id {message : Value} (h : (message.get "id").isSome = true) :
    c.acceptedDelta message = none := by
  refine if_neg fun ⟨haccepted, _⟩ => ?_
  simp [haccepted.notification] at h

theorem completed_eq_ok {l : TurnLoop} {params : Value} {response : ModelResponse}
    (h : completed l params = .ok response) :
    l.interrupted = false ∧ params.stringAt ["turn", "status"] = some "completed" ∧
      response.text = if l.text = "" then none else some l.text := by
  rw [completed] at h
  cases hstatus : params.stringAt ["turn", "status"] with
  | none => simp [hstatus] at h
  | some status =>
    simp only [hstatus] at h
    by_cases hok : status = "completed" ∧ l.interrupted = false
    · rw [if_pos hok] at h
      obtain rfl := Except.ok.inj h
      exact ⟨hok.2, by rw [hok.1], rfl⟩
    · rw [if_neg hok] at h
      by_cases hinterrupted : status = "interrupted"
      · rw [if_pos hinterrupted] at h
        cases h
      rw [if_neg hinterrupted] at h
      by_cases hfailed : status = "failed"
      · rw [if_pos hfailed] at h
        cases h
      rw [if_neg hfailed] at h
      cases h

/-- What a notification does to the loop. -/
inductive Notified (message : Value) (l : TurnLoop) :
    Turn TurnLoop (Except ProviderError ModelResponse) → Prop
  | passed (h : l.interrupted = false → c.acceptedDelta message = none) :
      Notified message l (.next l)
  | text {delta : String} (hl : l.interrupted = false)
      (h : c.acceptedDelta message = some delta) :
      Notified message l (.next { l with text := l.text ++ delta })
  | usage (usage : Option ModelTokenUsage) (h : c.acceptedDelta message = none) :
      Notified message l (.next { l with usage })
  | ended (haccepted : c.Accepts message) (hmethod : methodOf message = some "turn/completed") :
      Notified message l (.ended l (completed l (paramsOf message)))

theorem acceptedDelta_of_method {message : Value} {method : String}
    (hmethod : methodOf message = some method) (h : method ≠ "item/agentMessage/delta") :
    c.acceptedDelta message = none := by
  refine if_neg fun ⟨_, hdelta⟩ => h ?_
  exact Option.some.inj (hmethod.symm.trans hdelta)

theorem notified_cases {message : Value} {method : String} (hid : message.get "id" = none)
    (hmethod : methodOf message = some method) (l : TurnLoop) :
    c.Notified message l (c.notified method (paramsOf message) l) := by
  rw [notified]
  by_cases hother : (namesOther (paramsOf message) ["threadId"] c.threadId ||
      namesOther (paramsOf message) ["turnId"] c.turnId) = true
  · rw [if_pos hother]
    refine .passed fun _ => if_neg ?_
    rintro ⟨haccepted, -⟩
    simp [haccepted.thread, haccepted.turn] at hother
  rw [if_neg hother]
  obtain ⟨hthread, hturn⟩ := Bool.or_eq_false_iff.mp (Bool.eq_false_iff.mpr hother)
  have haccepted : c.Accepts message := ⟨hid, hthread, hturn⟩
  by_cases hdelta : method = "item/agentMessage/delta"
  · rw [if_pos hdelta]
    have heq : c.acceptedDelta message = ((paramsOf message).get "delta").bind Value.asStr :=
      if_pos ⟨haccepted, hdelta ▸ hmethod⟩
    by_cases hl : l.interrupted = true
    · rw [if_pos hl]
      exact .passed fun hl' => absurd (hl.symm.trans hl') (by decide)
    rw [if_neg hl]
    cases hd : ((paramsOf message).get "delta").bind Value.asStr with
    | none => exact .passed fun _ => heq.trans hd
    | some delta => exact .text (Bool.eq_false_iff.mpr hl) (heq.trans hd)
  rw [if_neg hdelta]
  by_cases husage : method = "thread/tokenUsage/updated"
  · rw [if_pos husage]
    exact .usage _ (c.acceptedDelta_of_method hmethod hdelta)
  rw [if_neg husage]
  by_cases hcompleted : method = "turn/completed"
  · rw [if_pos hcompleted]
    exact .ended haccepted (hcompleted ▸ hmethod)
  rw [if_neg hcompleted]
  exact .passed fun _ => c.acceptedDelta_of_method hmethod hdelta

/-- What is known of the loop after the entries that it has taken. -/
structure Collected (taken : List TurnIteration) (l : TurnLoop) : Prop where
  text : l.interrupted = false → l.text = String.join ((received taken).filterMap c.acceptedDelta)
  answers : l.interrupted = false →
    List.Forall₂ Answers ((received taken).filter isToolCall) l.sent

theorem Collected.of_interrupted {c : Collector} (taken : List TurnIteration) {l : TurnLoop}
    (h : l.interrupted = true) : c.Collected taken l :=
  ⟨fun h' => absurd (h.symm.trans h') (by decide), fun h' => absurd (h.symm.trans h') (by decide)⟩

/-- What a message does to the loop. -/
inductive Handled (message : Value) (l : TurnLoop) :
    Turn TurnLoop (Except ProviderError ModelResponse) → Prop
  | notified {turn : Turn TurnLoop (Except ProviderError ModelResponse)}
      (hid : message.get "id" = none) (h : c.Notified message l turn) : Handled message l turn
  | acknowledged (h : l.interrupted = true) : Handled message l (.next l)
  | answered {reply : Value} (called : List (ToolInvocation × Value))
      (hcall : isToolCall message = true) (h : Answers message reply) :
      Handled message l (.next { l with sent := l.sent ++ [reply], called })
  | failed (u : TurnLoop) (e : ProviderError) : Handled message l (.ended u (.error e))
  | blocked (u : TurnLoop) : Handled message l (.blocked u)

theorem Collected.handled {c : Collector} {taken : List TurnIteration} {i : TurnIteration}
    {message : Value} {l v : TurnLoop} (h : c.Collected taken l)
    (hreceived : i.received = .message message) (hnext : c.Handled message l (.next v)) :
    c.Collected (taken ++ [i]) v := by
  by_cases hv : v.interrupted = true
  · exact .of_interrupted _ hv
  have hv' : v.interrupted = false := Bool.eq_false_iff.mpr hv
  have hcall : ∀ {m : Value}, m.get "id" = none → isToolCall m = false := by
    intro m hid
    simp [isToolCall, hid]
  constructor
  · intro _
    rw [received_snoc_message hreceived, List.filterMap_append, String.join_append]
    cases hnext with
    | notified _ hn =>
      cases hn with
      | passed hd => simp [hd hv', h.text hv']
      | text hl hd => simp [hd, h.text hl, String.join]
      | usage usage hd => simp [hd, h.text hv']
    | acknowledged hl => exact absurd hl hv
    | answered called hm ha =>
      have hid : (message.get "id").isSome = true := by
        simp only [isToolCall, Bool.and_eq_true] at hm
        exact hm.1
      simp [c.acceptedDelta_of_id hid, h.text hv']
  · intro _
    rw [received_snoc_message hreceived, List.filter_append]
    cases hnext with
    | notified hid hn =>
      simp only [List.filter_cons, hcall hid, List.filter_nil, Bool.false_eq_true, if_false,
        List.append_nil]
      cases hn with
      | passed => exact h.answers hv'
      | text hl => exact h.answers hl
      | usage => exact h.answers hv'
    | acknowledged hl => exact absurd hl hv
    | answered called hm ha =>
      simp only [List.filter_cons, hm, List.filter_nil, if_true]
      exact List.rel_append (h.answers hv') (.cons ha .nil)

section

variable [JsonText] [ArgumentSchema]

theorem respond_cases (i : TurnIteration) (message : Value) (l : TurnLoop) :
    (∃ reply called, Answers message reply ∧
        c.respond i message l = .next { l with sent := l.sent ++ [reply], called }) ∨
      (∃ u e, c.respond i message l = .ended u (.error e)) ∨
      ∃ u, c.respond i message l = .blocked u := by
  rw [respond]
  cases hr : toolRequest message with
  | none => exact .inr (.inl ⟨_, _, rfl⟩)
  | some r =>
    have hid : message.get "id" = some r.id := id_of_toolRequest hr
    simp only
    by_cases hother : r.threadId ≠ c.threadId ∨ r.turnId ≠ c.turnId ∨ r.callId = ""
    · exact .inr (.inl ⟨_, _, if_pos hother⟩)
    rw [if_neg hother]
    cases ha : c.answer i r with
    | mk result calls =>
      cases result with
      | none => exact .inr (.inr ⟨_, rfl⟩)
      | some result =>
        cases hsent : i.replySent with
        | none => exact .inr (.inr ⟨_, rfl⟩)
        | some outcome =>
          cases outcome with
          | error e => exact .inr (.inl ⟨_, _, rfl⟩)
          | ok _ => exact .inl ⟨_, _, ⟨r.id, result, hid, rfl⟩, rfl⟩

theorem handle_cases (i : TurnIteration) (message : Value) (l : TurnLoop) :
    c.Handled message l (c.handle i message l) := by
  rw [handle]
  by_cases hown : (message.get "id").bind Value.asU64 = some 4 ∧ l.interrupted = true
  · rw [if_pos hown]
    by_cases he : (message.get "error").isSome = true
    · rw [if_pos he]
      exact .failed _ _
    · rw [if_neg he]
      exact .acknowledged hown.2
  rw [if_neg hown]
  by_cases hid : (message.get "id").isSome = true
  · rw [if_pos hid]
    by_cases hmethod : methodOf message = some "item/tool/call"
    · rw [if_pos hmethod]
      rcases c.respond_cases i message l with ⟨reply, called, ha, heq⟩ | ⟨u, e, heq⟩ | ⟨u, heq⟩
      · rw [heq]
        exact .answered called (by simp [isToolCall, hid, hmethod]) ha
      · rw [heq]
        exact .failed u e
      · rw [heq]
        exact .blocked u
    · rw [if_neg hmethod]
      exact .failed _ _
  rw [if_neg hid]
  have hnone : message.get "id" = none := by simpa using hid
  cases hmethod : methodOf message with
  | none =>
    refine .notified hnone (.passed fun _ => if_neg ?_)
    rintro ⟨_, hdelta⟩
    simp [hmethod] at hdelta
  | some method => exact .notified hnone (c.notified_cases hnone hmethod l)

theorem Collected.receive_next {c : Collector} {taken : List TurnIteration} {i : TurnIteration}
    {l v : TurnLoop} (h : c.Collected taken l) (hnext : c.receive i l = .next v) :
    c.Collected (taken ++ [i]) v := by
  cases hreceived : i.received with
  | message m =>
    simp only [receive, hreceived] at hnext
    have hhandled := c.handle_cases i m l
    rw [hnext] at hhandled
    exact h.handled hreceived hhandled
  | woken =>
    simp only [receive, hreceived] at hnext
    by_cases hl : l.interrupted = true
    · simp [hl] at hnext
    · rw [if_neg hl] at hnext
      obtain rfl := Turn.next.inj hnext
      have heq : received (taken ++ [i]) = received taken := received_snoc_woken hreceived
      exact ⟨by rw [heq]; exact h.text, by rw [heq]; exact h.answers⟩
  | closed => simp [receive, hreceived] at hnext
  | failed e => simp [receive, hreceived] at hnext
  | pending =>
    simp only [receive, hreceived] at hnext
    by_cases hl : l.interrupted = true
    · simp [hl] at hnext
    · simp [hl] at hnext

theorem Collected.iterate_next {c : Collector} {taken : List TurnIteration} {i : TurnIteration}
    {l v : TurnLoop} (h : c.Collected taken l) (hnext : c.iterate i l = .next v) :
    c.Collected (taken ++ [i]) v := by
  rw [iterate] at hnext
  by_cases hcancelled : i.cancelled = true ∧ l.interrupted = false
  · rw [if_pos hcancelled] at hnext
    cases hsent : i.interruptSent with
    | error e => simp [hsent] at hnext
    | ok _ =>
      simp only [hsent] at hnext
      exact (Collected.of_interrupted taken rfl).receive_next hnext
  · rw [if_neg hcancelled] at hnext
    exact h.receive_next hnext

/-- A turn is only collected to its end by its accepted completion, and not after an interrupt. -/
theorem receive_ended_ok {i : TurnIteration} {l u : TurnLoop} {response : ModelResponse}
    (h : c.receive i l = .ended u (.ok response)) :
    u = l ∧ l.interrupted = false ∧
      response.text = (if l.text = "" then none else some l.text) ∧
      ∃ message, i.received = .message message ∧ c.Completion message := by
  cases hreceived : i.received with
  | message m =>
    simp only [receive, hreceived] at h
    have hhandled := c.handle_cases i m l
    rw [h] at hhandled
    generalize hresult : Except.ok response = result at hhandled
    cases hhandled with
    | failed u e => cases hresult
    | notified hid hn =>
      cases hn with
      | ended haccepted hmethod =>
        obtain ⟨hl, hstatus, htext⟩ := completed_eq_ok hresult.symm
        exact ⟨rfl, hl, htext, m, rfl, haccepted, hmethod, hstatus⟩
  | woken =>
    by_cases hl : l.interrupted = true
    · simp [receive, hreceived, hl] at h
    · simp [receive, hreceived, hl] at h
  | closed => simp [receive, hreceived] at h
  | failed e => simp [receive, hreceived] at h
  | pending =>
    by_cases hl : l.interrupted = true
    · simp [receive, hreceived, hl] at h
    · simp [receive, hreceived, hl] at h

theorem iterate_ended_ok {i : TurnIteration} {l u : TurnLoop} {response : ModelResponse}
    (h : c.iterate i l = .ended u (.ok response)) :
    u = l ∧ l.interrupted = false ∧
      response.text = (if l.text = "" then none else some l.text) ∧
      ∃ message, i.received = .message message ∧ c.Completion message := by
  rw [iterate] at h
  by_cases hcancelled : i.cancelled = true ∧ l.interrupted = false
  · rw [if_pos hcancelled] at h
    cases hsent : i.interruptSent with
    | error e => simp [hsent] at h
    | ok _ =>
      simp only [hsent] at h
      cases (c.receive_ended_ok h).2.1
  · rw [if_neg hcancelled] at h
    exact c.receive_ended_ok h

/-- What the text of a response is made of. -/
def textOf (taken : List TurnIteration) : Option String :=
  let text := String.join ((received taken).filterMap c.acceptedDelta)
  if text = "" then none else some text

/-- A call that returns a response has sent no interrupt. The turn was completed, each tool request
before has had its answer, and the text is that of the deltas before. -/
theorem collected_of_ok {script : List TurnIteration} {l : TurnLoop} {response : ModelResponse}
    (h : c.collectTurn script = (l, some (.ok response))) :
    ∃ before last after message, script = before ++ last :: after ∧
      last.received = .message message ∧ c.Completion message ∧
      response.text = c.textOf before ∧
      List.Forall₂ Answers ((received before).filter isToolCall) l.sent := by
  obtain ⟨before, last, after, t, rfl, hfed, hend⟩ := fed_of_feed h
  have hcollected : c.Collected before t :=
    hfed.invariant ⟨fun _ => rfl, fun _ => .nil⟩ fun _ _ _ _ hc hnext => hc.iterate_next hnext
  obtain ⟨rfl, hl, htext, message, hreceived, hcompletion⟩ := c.iterate_ended_ok hend
  refine ⟨before, last, after, message, rfl, hreceived, hcompletion, ?_, hcollected.answers hl⟩
  rw [htext, hcollected.text hl]
  rfl

/-- A turn that is collected to its end is complete, and an interrupted one is not collected. -/
theorem successful_turn_complete {script : List TurnIteration} {l : TurnLoop}
    {result : Except ProviderError ModelResponse}
    (h : c.collectTurn script = (l, some result)) :
    (∀ response, result = .ok response →
      (∀ message ∈ l.sent, methodOf message ≠ some "turn/interrupt") ∧
      ∃ before last after message, script = before ++ last :: after ∧
        last.received = .message message ∧ c.Completion message ∧
        response.text = c.textOf before ∧
        List.Forall₂ Answers ((received before).filter isToolCall) l.sent) ∧
    ((∃ message ∈ l.sent, methodOf message = some "turn/interrupt") → ∃ e, result = .error e) := by
  refine ⟨fun response hresponse => ?_, fun ⟨message, hsent, hmethod⟩ => ?_⟩
  · subst hresponse
    obtain ⟨before, last, after, message, hscript, hreceived, hcompletion, htext, hanswers⟩ :=
      c.collected_of_ok h
    exact ⟨no_interrupt_of_answers hanswers, before, last, after, message, hscript, hreceived,
      hcompletion, htext, hanswers⟩
  · cases result with
    | error e => exact ⟨e, rfl⟩
    | ok response =>
      obtain ⟨_, _, _, _, _, _, _, _, hanswers⟩ := c.collected_of_ok h
      exact absurd hmethod (no_interrupt_of_answers hanswers message hsent)

end

end Collector

namespace Sample

/-- A request for a tool that is not there. -/
def toolCall : Value :=
  .object
    [("id", .string "r"), ("method", .string "item/tool/call"),
      ("params", .object
        [("tool", .string "missing"), ("threadId", .string "t"), ("turnId", .string "own"),
          ("callId", .string "c")])]

def delta (text : String) : Value :=
  .object
    [("method", .string "item/agentMessage/delta"),
      ("params", .object
        [("threadId", .string "t"), ("turnId", .string "own"), ("delta", .string text)])]

/-- The turn says something, asks for a tool, says something else, and is completed. -/
def collectedScript : List TurnIteration :=
  [Collector.incoming (delta "a"),
    { Collector.incoming toolCall with replySent := some (.ok ()) },
    Collector.incoming (delta "b"), Collector.incoming collector.ownCompletion]

end Sample

theorem successful_turn_complete_sample :
    ∃ l before,
      @Collector.collectTurn Sample.collector Sample.jsonText Sample.argumentSchema
          Sample.collectedScript =
        (l, some (.ok ⟨some "ab", [], none, .stop⟩)) ∧
      l.sent.length = 1 ∧ some "ab" = Sample.collector.textOf before ∧
      List.Forall₂ Answers ((received before).filter isToolCall) l.sent := by
  let _ := Sample.jsonText
  let _ := Sample.argumentSchema
  have hresult : (Sample.collector.collectTurn Sample.collectedScript).2 =
      some (.ok ⟨some "ab", [], none, .stop⟩) := by decide +kernel
  have hlength : (Sample.collector.collectTurn Sample.collectedScript).1.sent.length = 1 := by
    decide +kernel
  have h : Sample.collector.collectTurn Sample.collectedScript =
      ((Sample.collector.collectTurn Sample.collectedScript).1,
        some (.ok ⟨some "ab", [], none, .stop⟩)) := Prod.ext rfl hresult
  obtain ⟨-, before, _, _, _, _, _, _, htext, hanswers⟩ :=
    (Collector.successful_turn_complete _ h).1 _ rfl
  exact ⟨_, before, h, hlength, htext, hanswers⟩

end Codex

end Agentive
