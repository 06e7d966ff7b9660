import Agentive.CodexSession
import Agentive.TurnCompletion

/-! What a session says and how it ends. Whatever the server does, the client says a beginning of
the handshake and then what the turn calls for, and it shuts down what it has opened. -/

namespace Agentive

namespace Codex

open DriverLoop

/-- A message that asks the server for something. Answers have no method. -/
def isRequest (message : Value) : Bool := (methodOf message).isSome

/-- A tool request of the turn comes in this iteration. -/
def Collector.Requested (c : Collector) (i : TurnIteration) (r : ToolRequest) : Prop :=
  ∃ message, i.received = .message message ∧ toolRequest message = some r ∧
    r.threadId = c.threadId ∧ r.turnId = c.turnId ∧ r.callId ≠ ""

/-- A message that answers the tool request of an iteration. -/
def Collector.Replies (c : Collector) (i : TurnIteration) (reply : Value) : Prop :=
  ∃ r result, c.Requested i r ∧ reply = toolReply r.id result

/-- What the client says in a turn: it interrupts the turn at most once, when it is cancelled, and
answers each tool request at most once, in their order. -/
structure Collector.Speech (c : Collector) (script : List TurnIteration) (said : List Value) :
    Prop where
  interrupts : said.filter isRequest = [] ∨
    (said.filter isRequest = [c.interruptRequest] ∧ ∃ i ∈ script, i.cancelled = true)
  replies : ∃ answered, answered.Sublist script ∧
    List.Forall₂ c.Replies answered (said.filter fun message => !isRequest message)

/-- A turn that is interrupted was found cancelled. -/
def TurnLoop.Cancelled (taken : List TurnIteration) (l : TurnLoop) : Prop :=
  l.interrupted = true → ∃ i ∈ taken, i.cancelled = true

namespace Collector

variable {c : Collector} {i : TurnIteration} {l : TurnLoop} {script : List TurnIteration}

theorem isRequest_of_replies {reply : Value} (h : c.Replies i reply) : isRequest reply = false := by
  obtain ⟨_, _, _, rfl⟩ := h
  rfl

/-- The speech of a turn at the head of an iteration. -/
structure Spoken (c : Collector) (taken : List TurnIteration) (l : TurnLoop) : Prop where
  interrupts : l.sent.filter isRequest = if l.interrupted then [c.interruptRequest] else []
  replies : ∃ answered, answered.Sublist taken ∧
    List.Forall₂ c.Replies answered (l.sent.filter fun message => !isRequest message)

theorem Spoken.speech (h : c.Spoken script l) (hcancelled : l.Cancelled script) :
    c.Speech script l.sent := by
  refine ⟨?_, h.replies⟩
  rw [h.interrupts]
  cases hi : l.interrupted with
  | false => exact .inl rfl
  | true => exact .inr ⟨rfl, hcancelled hi⟩

theorem Speech.extend {said : List Value} (h : c.Speech script said)
    (after : List TurnIteration) : c.Speech (script ++ after) said := by
  obtain ⟨answered, hsub, hall⟩ := h.replies
  refine ⟨?_, answered, hsub.trans (List.sublist_append_left _ _), hall⟩
  rcases h.interrupts with hnone | ⟨hone, i, hi, hc⟩
  · exact .inl hnone
  · exact .inr ⟨hone, i, List.mem_append_left _ hi, hc⟩

theorem notified_said (method : String) (params : Value) :
    (c.notified method params l).state.sent = l.sent ∧
      (c.notified method params l).state.interrupted = l.interrupted := by
  rw [notified]
  split
  · exact ⟨rfl, rfl⟩
  · split
    · split
      · exact ⟨rfl, rfl⟩
      · split <;> exact ⟨rfl, rfl⟩
    · split
      · exact ⟨rfl, rfl⟩
      · split <;> exact ⟨rfl, rfl⟩

section

variable [JsonText] [ArgumentSchema]

theorem respond_said {message : Value} (hreceived : i.received = .message message) :
    (∃ replies, (c.respond i message l).state.sent = l.sent ++ replies ∧
      (replies = [] ∨ ∃ reply, replies = [reply] ∧ c.Replies i reply)) ∧
      (c.respond i message l).state.interrupted = l.interrupted := by
  rw [respond]
  cases hr : toolRequest message with
  | none => exact ⟨⟨[], (List.append_nil _).symm, .inl rfl⟩, rfl⟩
  | some r =>
    simp only
    by_cases hother : r.threadId ≠ c.threadId ∨ r.turnId ≠ c.turnId ∨ r.callId = ""
    · rw [if_pos hother]
      exact ⟨⟨[], (List.append_nil _).symm, .inl rfl⟩, rfl⟩
    rw [if_neg hother]
    have hown : c.Requested i r := by
      refine ⟨message, hreceived, hr, ?_⟩
      simpa using hother
    cases ha : c.answer i r with
    | mk result calls =>
      cases result with
      | none => exact ⟨⟨[], (List.append_nil _).symm, .inl rfl⟩, rfl⟩
      | some result =>
        refine ⟨⟨[toolReply r.id result], ?_, .inr ⟨_, rfl, r, result, hown, rfl⟩⟩, ?_⟩
        · cases i.replySent with
          | none => rfl
          | some outcome => cases outcome <;> rfl
        · cases i.replySent with
          | none => rfl
          | some outcome => cases outcome <;> rfl

theorem receive_said :
    (∃ replies, (c.receive i l).state.sent = l.sent ++ replies ∧
      (replies = [] ∨ ∃ reply, replies = [reply] ∧ c.Replies i reply)) ∧
      (c.receive i l).state.interrupted = l.interrupted := by
  have hsilent {t : Turn TurnLoop (Except ProviderError ModelResponse)}
      (hs : t.state.sent = l.sent) (hi : t.state.interrupted = l.interrupted) :
      (∃ replies, t.state.sent = l.sent ++ replies ∧
        (replies = [] ∨ ∃ reply, replies = [reply] ∧ c.Replies i reply)) ∧
        t.state.interrupted = l.interrupted :=
    ⟨⟨[], by rw [hs, List.append_nil], .inl rfl⟩, hi⟩
  cases hreceived : i.received with
  | message message =>
    simp only [receive, hreceived, handle]
    split
    · split <;> exact hsilent rfl rfl
    · split
      · split
        · exact respond_said hreceived
        · exact hsilent rfl rfl
      · split
        · exact hsilent rfl rfl
        · exact hsilent (notified_said _ _).1 (notified_said _ _).2
  | woken =>
    simp only [receive, hreceived]
    split <;> exact hsilent rfl rfl
  | pending =>
    simp only [receive, hreceived]
    split <;> exact hsilent rfl rfl
  | closed =>
    simp only [receive, hreceived]
    exact hsilent rfl rfl
  | failed e =>
    simp only [receive, hreceived]
    exact hsilent rfl rfl

theorem receive_spoken {taken : List TurnIteration} (h : c.Spoken taken l) :
    c.Spoken (taken ++ [i]) (c.receive i l).state ∧
      (c.receive i l).state.interrupted = l.interrupted := by
  obtain ⟨⟨replies, hsent, hreplies⟩, hi⟩ := receive_said (c := c) (i := i) (l := l)
  obtain ⟨answered, hsub, hall⟩ := h.replies
  refine ⟨⟨?_, ?_⟩, hi⟩
  · have hnone : replies.filter isRequest = [] := by
      rcases hreplies with rfl | ⟨reply, rfl, hreply⟩
      · rfl
      · simp [isRequest_of_replies hreply]
    rw [hsent, hi, List.filter_append, hnone, List.append_nil, h.interrupts]
  · rw [hsent, List.filter_append]
    rcases hreplies with rfl | ⟨reply, rfl, hreply⟩
    · refine ⟨answered, hsub.trans (List.sublist_append_left _ _), ?_⟩
      simpa using hall
    · refine ⟨answered ++ [i], hsub.append_right [i], List.rel_append hall ?_⟩
      simp only [List.filter_cons, isRequest_of_replies hreply, Bool.not_false, if_true,
        List.filter_nil]
      exact .cons hreply .nil

/-- The interrupt is sent in an iteration that finds the turn cancelled for the first time. If it
cannot be sent the turn ends. -/
theorem iterate_spoken {taken : List TurnIteration} (h : c.Spoken taken l)
    (hcancelled : l.Cancelled taken) :
    c.Speech (taken ++ [i]) (c.iterate i l).state.sent ∧
      ∀ v, c.iterate i l = .next v → c.Spoken (taken ++ [i]) v ∧ v.Cancelled (taken ++ [i]) := by
  have hreceive {m : TurnLoop} (hm : c.Spoken taken m) (hc : m.Cancelled (taken ++ [i])) :
      c.Speech (taken ++ [i]) (c.receive i m).state.sent ∧
        ∀ v, c.receive i m = .next v →
          c.Spoken (taken ++ [i]) v ∧ v.Cancelled (taken ++ [i]) := by
    obtain ⟨hspoken, hi⟩ := receive_spoken (i := i) hm
    have hc' : (c.receive i m).state.Cancelled (taken ++ [i]) := fun h => hc (hi ▸ h)
    refine ⟨hspoken.speech hc', fun v hv => ?_⟩
    rw [hv] at hspoken hc'
    exact ⟨hspoken, hc'⟩
  rw [iterate]
  by_cases hinterrupt : i.cancelled = true ∧ l.interrupted = false
  · rw [if_pos hinterrupt]
    have hsaid : (l.sent ++ [c.interruptRequest]).filter isRequest = [c.interruptRequest] := by
      rw [List.filter_append, h.interrupts, hinterrupt.2]
      rfl
    have hreplies : (l.sent ++ [c.interruptRequest]).filter (fun m => !isRequest m) =
        l.sent.filter fun m => !isRequest m := by
      rw [List.filter_append]
      exact List.append_nil _
    have hnow : ∃ j ∈ taken ++ [i], j.cancelled = true := ⟨i, by simp, hinterrupt.1⟩
    cases hsent : i.interruptSent with
    | error e =>
      obtain ⟨answered, hsub, hall⟩ := h.replies
      refine ⟨⟨.inr ⟨hsaid, hnow⟩, answered, hsub.trans (List.sublist_append_left _ _), ?_⟩,
        fun v hv => by cases hv⟩
      rwa [Turn.state, hreplies]
    | ok _ =>
      refine hreceive ⟨hsaid, ?_⟩ fun _ => hnow
      rw [hreplies]
      exact h.replies
  · rw [if_neg hinterrupt]
    refine hreceive h fun hi => ?_
    obtain ⟨j, hj, hc⟩ := hcancelled hi
    exact ⟨j, List.mem_append_left _ hj, hc⟩

/-- The client keeps to its part in a turn, however the turn goes. -/
theorem collectTurn_speech (c : Collector) (script : List TurnIteration) :
    c.Speech script (c.collectTurn script).1.sent := by
  obtain ⟨before, l, hfed, hstands⟩ := fed_cases c.iterate script .start
  have hinv : c.Spoken before l ∧ l.Cancelled before :=
    hfed.invariant (I := fun taken l => c.Spoken taken l ∧ l.Cancelled taken)
      ⟨⟨rfl, [], .slnil, .nil⟩, nofun⟩ fun _ _ _ _ h hstep => (iterate_spoken h.1 h.2).2 _ hstep
  rw [collectTurn]
  rcases hstands with ⟨rfl, hstate⟩ | ⟨last, after, rfl, hstate⟩
  · rw [hstate]
    exact hinv.1.speech hinv.2
  · rw [hstate, ← List.singleton_append, ← List.append_assoc]
    exact (iterate_spoken hinv.1 hinv.2).1.extend after

end

end Collector

theorem mapM_eq_ok_iff {α β : Type} {f : α → Except PreflightError β} {items : List α}
    {results : List β} :
    items.mapM f = .ok results ↔ List.Forall₂ (fun item result => f item = .ok result) items
      results := by
  induction items generalizing results with
  | nil => cases results <;> simp [pure, Except.pure]
  | cons item items ih =>
    rw [List.mapM_cons, List.forall₂_cons_left_iff]
    cases hitem : f item with
    | error e => simp [bind, Except.bind]
    | ok result =>
      cases hitems : items.mapM f with
      | error e =>
        have hnone : ∀ rest, ¬ List.Forall₂ (fun item result => f item = .ok result) items rest :=
          fun rest h => by simp [ih.mpr h] at hitems
        simp [bind, Except.bind, hnone]
      | ok rest =>
        have hrest : ∀ other, List.Forall₂ (fun item result => f item = .ok result) items other ↔
            rest = other := fun other => by rw [← ih, hitems, Except.ok.injEq]
        simp [bind, Except.bind, pure, Except.pure, hrest, eq_comm]

/-- A message that App Server takes as input. -/
structure PlainInput (m : Message) : Prop where
  user : m.role = .user
  uncalled : m.toolCalls = none
  unanswered : m.toolCallId = none

theorem compileInput_eq_ok {request : ModelRequest} {input : List Value}
    (h : compileInput request = .ok input) : (∀ m ∈ request.messages, PlainInput m) ∧
      List.Forall₂ (fun content value => contentInput content = .ok value)
        (request.messages.flatMap (·.content)) input := by
  rw [compileInput] at h
  cases hm : request.messages.mapM messageInput with
  | error e => simp [hm, Except.map] at h
  | ok inputs =>
    obtain rfl : inputs.flatten = input := by simpa [hm, Except.map] using h
    have hall := mapM_eq_ok_iff.mp hm
    have hone {m : Message} {values : List Value} (h : messageInput m = .ok values) :
        PlainInput m ∧
          List.Forall₂ (fun content value => contentInput content = .ok value) m.content
            values := by
      rw [messageInput] at h
      split at h
      · cases h
      · next hplain =>
        simp only [ne_eq, not_or, not_not, Option.not_isSome_iff_eq_none] at hplain
        exact ⟨⟨hplain.1, hplain.2.1, hplain.2.2⟩, mapM_eq_ok_iff.mp h⟩
    clear hm h
    generalize request.messages = messages at hall
    induction hall with
    | nil => exact ⟨nofun, .nil⟩
    | cons hfirst _ ih =>
      refine ⟨List.forall_mem_cons.mpr ⟨(hone hfirst).1, ih.1⟩, ?_⟩
      exact List.rel_append (hone hfirst).2 ih.2

def Transcript.say (t : Transcript) (message : Value) : Transcript :=
  { t with sent := t.sent ++ [message] }

section

open Exchange

theorem requestResponse_eq (id : U64) (method : String) (params : Value)
    (script : RequestScript) (t : Transcript) :
    ∃ outcome, requestResponse id method params script t =
        (t.say (requestMessage id method params), outcome) ∧
      ∀ result, outcome = some (.ok result) →
        receiveResponse id script.received = some (.ok result) := by
  show ∃ outcome, andThen _ _ t = _ ∧ _
  rw [andThen, send]
  cases script.sent with
  | none => exact ⟨none, rfl, fun result h => by cases h⟩
  | some sent =>
    cases sent with
    | error e => exact ⟨some (.error e), rfl, fun result h => by cases h⟩
    | ok _ => exact ⟨receiveResponse id script.received, rfl, fun result h => h⟩

/-- A request phase says its message or, cancelled before, nothing, and returns the result that
the server gives it. -/
theorem triple_requestPhase (script : PhaseScript RequestScript) {id : U64} {method : String}
    {params : Value} (message : Value) (hmessage : requestMessage id method params = message)
    (t : Transcript) :
    Triple (fun u => u = t) (cancellablePhase script (requestResponse id method params))
      { ok := fun result u => u = t.say message ∧
          receiveResponse id script.met.received = some (.ok result)
        error := fun _ u => u = t ∨ u = t.say message
        waits := fun u => u = t.say message } := by
  intro u hu
  rw [hu, cancellablePhase]
  by_cases hc : script.cancelled = true
  · rw [if_pos hc]
    exact .inl rfl
  · rw [if_neg hc]
    obtain ⟨outcome, heq, hok⟩ := requestResponse_eq id method params script.met t
    rw [heq, hmessage]
    cases outcome with
    | none => cases script.cut <;> first | exact .inr rfl | exact rfl
    | some outcome =>
      cases outcome with
      | error e => exact .inr rfl
      | ok result => exact ⟨rfl, hok result rfl⟩

theorem triple_notificationPhase
    (script : PhaseScript (Option (Except ProviderError Unit))) {method : String}
    {params : Value} (message : Value) (hmessage : notificationMessage method params = message)
    (t : Transcript) :
    Triple (fun u => u = t) (cancellablePhase script (notification method params))
      { ok := fun _ u => u = t.say message
        error := fun _ u => u = t ∨ u = t.say message
        waits := fun u => u = t.say message } := by
  intro u hu
  rw [hu, cancellablePhase]
  by_cases hc : script.cancelled = true
  · rw [if_pos hc]
    exact .inl rfl
  · rw [if_neg hc, notification, send, hmessage]
    cases script.met with
    | none => cases script.cut <;> first | exact .inr rfl | exact rfl
    | some outcome =>
      cases outcome with
      | error e => exact .inr rfl
      | ok _ => rfl

theorem triple_orProtocolError {α : Type} (found : Option α) (t : Transcript) :
    Triple (fun u => u = t) (orProtocolError found)
      { ok := fun a u => u = t ∧ found = some a, error := fun _ u => u = t
        waits := fun _ => False } := by
  intro u hu
  rw [hu]
  cases found with
  | none => exact rfl
  | some a => exact ⟨rfl, rfl⟩

theorem triple_checkVersion (initialized : Value) (t : Transcript) :
    Triple (fun u => u = t) (checkVersion initialized)
      { ok := fun _ u => u = t, error := fun _ u => u = t, waits := fun _ => False } := by
  intro u hu
  rw [hu, checkVersion]
  split <;> exact rfl

end

/-- The messages of the handshake. -/
structure Handshake where
  version : String
  request : ModelRequest
  tools : List FrozenTool
  input : List Value

namespace Handshake

variable (h : Handshake)

def initializeMessage : Value := requestMessage 1 "initialize" (initializeParams h.version)

def initializedMessage : Value := notificationMessage "initialized" (.object [])

def threadMessage : Value := requestMessage 2 "thread/start" (threadParams h.request h.tools)

def turnMessage (threadId : String) : Value :=
  requestMessage 3 "turn/start" (turnParams h.request h.input threadId)

/-- The handshake up to the start of the turn. -/
def messages (threadId : String) : List Value :=
  [h.initializeMessage, initializedMessage, h.threadMessage, h.turnMessage threadId]

end Handshake

/-- The answer of the server to a request names an id there. -/
def PhaseScript.Names (script : PhaseScript RequestScript) (id : U64) (path : List String)
    (name : String) : Prop :=
  ∃ result, receiveResponse id script.met.received = some (.ok result) ∧
    result.stringAt path = some name

/-- What a client may have said: the handshake up to some message, and after the whole of it what
the turn calls for. It uses the ids that the server has named. -/
inductive Said (h : Handshake) (script : SessionScript) : List Value → Prop
  | opening (n : Nat) (hn : n ≤ 3) (threadId : String) :
    Said h script ((h.messages threadId).take n)
  | turn (threadId : String) (hthread : script.thread.Names 2 ["thread", "id"] threadId) :
    Said h script (h.messages threadId)
  | collecting (threadId turnId : String) (said : List Value)
      (hthread : script.thread.Names 2 ["thread", "id"] threadId)
      (hturn : script.turn.Names 3 ["turn", "id"] turnId)
      (hsaid : Collector.Speech ⟨threadId, turnId, h.tools⟩ script.collect said) :
    Said h script (h.messages threadId ++ said)

/-- The transcript of a session that has just been opened. -/
def Transcript.fresh : Transcript := { Transcript.empty with opened := 1 }

/-- An open session in which the client has kept to its part. -/
def Handshake.Keeps (h : Handshake) (script : SessionScript) (t : Transcript) : Prop :=
  t.opened = 1 ∧ t.shutdowns = 0 ∧ Said h script t.sent

open Exchange in
theorem triple_opening (script : SessionScript) :
    Triple (fun t => t = .empty) (cancellablePhase script.opening openSession)
      { ok := fun _ t => t = .fresh, error := fun _ t => t = .empty
        waits := fun t => t = .empty } := by
  intro t ht
  rw [ht, cancellablePhase]
  by_cases hc : script.opening.cancelled = true
  · rw [if_pos hc]
    exact rfl
  · rw [if_neg hc]
    generalize script.opening.met = met
    obtain _ | e | _ := met
    · cases script.opening.cut <;> exact rfl
    · exact rfl
    · exact rfl

section

variable [JsonText] [ArgumentSchema]

open Exchange

/-- The turn of a session that has returned a response. -/
structure Handshake.Returns (h : Handshake) (script : SessionScript) (response : ModelResponse)
    (said : List Value) : Prop where
  turn : ∃ threadId turnId, script.thread.Names 2 ["thread", "id"] threadId ∧
    script.turn.Names 3 ["turn", "id"] turnId ∧
    (Collector.collectTurn ⟨threadId, turnId, h.tools⟩ script.collect).2 = some (.ok response) ∧
    said = h.messages threadId ++
      (Collector.collectTurn ⟨threadId, turnId, h.tools⟩ script.collect).1.sent

/-- The client keeps to its part in an open session, wherever the session stops. -/
theorem triple_converse (h : Handshake) (script : SessionScript) :
    Triple (fun t => t = .fresh) (converse h.version h.request h.tools h.input script)
      { ok := fun response t => h.Keeps script t ∧ h.Returns script response t.sent
        error := fun _ t => h.Keeps script t
        waits := fun t => h.Keeps script t } := by
  let greeted := Transcript.fresh.say h.initializeMessage
  let ready := greeted.say Handshake.initializedMessage
  let asked := ready.say h.threadMessage
  have hfresh : h.Keeps script .fresh := ⟨rfl, rfl, .opening 0 (by decide) ""⟩
  have hgreeted : h.Keeps script greeted := ⟨rfl, rfl, .opening 1 (by decide) ""⟩
  have hready : h.Keeps script ready := ⟨rfl, rfl, .opening 2 (by decide) ""⟩
  have hasked : h.Keeps script asked := ⟨rfl, rfl, .opening 3 (by decide) ""⟩
  refine .bind (M := fun _ t => t = greeted) ?_ fun initialized => ?_
  · refine (triple_requestPhase _ h.initializeMessage rfl _).weaken (fun _ => id)
      (fun _ _ hu => hu.1) ?_ ?_
    · rintro _ _ (rfl | rfl)
      · exact hfresh
      · exact hgreeted
    · rintro _ rfl
      exact hgreeted
  refine .bind (M := fun _ t => t = greeted) ?_ fun _ => ?_
  · refine (triple_checkVersion _ _).weaken (fun _ => id) (fun _ _ => id) ?_ nofun
    rintro _ _ rfl
    exact hgreeted
  refine .bind (M := fun _ t => t = ready) ?_ fun _ => ?_
  · refine (triple_notificationPhase _ Handshake.initializedMessage rfl _).weaken (fun _ => id)
      (fun _ _ => id) ?_ ?_
    · rintro _ _ (rfl | rfl)
      · exact hgreeted
      · exact hready
    · rintro _ rfl
      exact hready
  refine .bind
    (triple_requestPhase _ h.threadMessage rfl ready |>.weaken (fun _ => id) (fun _ _ => id) ?_ ?_)
    fun thread => .assume fun hthread => ?_
  · rintro _ _ (rfl | rfl)
    · exact hready
    · exact hasked
  · rintro _ rfl
    exact hasked
  refine .bind (triple_orProtocolError _ asked |>.weaken (fun _ => id) (fun _ _ => id) ?_ nofun)
    fun threadId => .assume fun hid => ?_
  · rintro _ _ rfl
    exact hasked
  have hnamed : script.thread.Names 2 ["thread", "id"] threadId := ⟨thread, hthread, hid⟩
  let begun := asked.say (h.turnMessage threadId)
  have hbegun : h.Keeps script begun := ⟨rfl, rfl, .turn threadId hnamed⟩
  refine .bind
    (triple_requestPhase _ (h.turnMessage threadId) rfl asked |>.weaken (fun _ => id)
      (fun _ _ => id) ?_ ?_)
    fun turn => .assume fun hturn => ?_
  · rintro _ _ (rfl | rfl)
    · exact hasked
    · exact hbegun
  · rintro _ rfl
    exact hbegun
  refine .bind (triple_orProtocolError _ begun |>.weaken (fun _ => id) (fun _ _ => id) ?_ nofun)
    fun turnId => .assume fun hid' => ?_
  · rintro _ _ rfl
    exact hbegun
  have hnamed' : script.turn.Names 3 ["turn", "id"] turnId := ⟨turn, hturn, hid'⟩
  intro t ht
  rw [ht, collectTurn]
  have hspeech := Collector.collectTurn_speech ⟨threadId, turnId, h.tools⟩ script.collect
  have hkeeps := Said.collecting threadId turnId _ hnamed hnamed' hspeech
  have hreturns (response : ModelResponse) :
      (Collector.collectTurn ⟨threadId, turnId, h.tools⟩ script.collect).2 =
        some (.ok response) → h.Returns script response (h.messages threadId ++
          (Collector.collectTurn ⟨threadId, turnId, h.tools⟩ script.collect).1.sent) :=
    fun hend => ⟨threadId, turnId, hnamed, hnamed', hend, rfl⟩
  generalize Collector.collectTurn ⟨threadId, turnId, h.tools⟩ script.collect = collected
    at hkeeps hreturns
  obtain ⟨l, _ | e | response⟩ := collected
  · exact ⟨rfl, rfl, hkeeps⟩
  · exact ⟨rfl, rfl, hkeeps⟩
  · exact ⟨⟨rfl, rfl, hkeeps⟩, hreturns response rfl⟩

/-- The shutdown comes once, after whatever the session has come to. -/
theorem closing_cases {script : SessionScript} {h : Handshake} {t : Transcript}
    {result : Option (Except ProviderError ModelResponse)}
    (hrun : closing script.shutdown (converse h.version h.request h.tools h.input script) .fresh =
      (t, result)) :
    t.opened = 1 ∧ t.shutdowns ≤ 1 ∧ (result.isSome = true → t.shutdowns = 1) ∧
      Said h script t.sent ∧
      ∀ response, result = some (.ok response) →
        h.Returns script response t.sent ∧ script.shutdown = some (.ok ()) := by
  have hconverse := triple_converse h script .fresh rfl
  rw [closing] at hrun
  generalize converse h.version h.request h.tools h.input script .fresh = outcome
    at hconverse hrun
  obtain ⟨t, _ | e | response⟩ := outcome <;> cases hrun
  · obtain ⟨hopened, hshutdowns, hsaid⟩ := hconverse
    exact ⟨hopened, by simp [hshutdowns], by simp, hsaid, by simp⟩
  · obtain ⟨hopened, hshutdowns, hsaid⟩ := hconverse
    refine ⟨hopened, by simp [hshutdowns], fun _ => by simp [hshutdowns], hsaid, ?_⟩
    cases script.shutdown <;> simp
  · obtain ⟨⟨hopened, hshutdowns, hsaid⟩, hreturns⟩ := hconverse
    refine ⟨hopened, by simp [hshutdowns], fun _ => by simp [hshutdowns], hsaid, ?_⟩
    intro other hother
    cases hshutdown : script.shutdown with
    | none => simp [hshutdown] at hother
    | some closed =>
      cases closed with
      | error e => simp [hshutdown, Except.map] at hother
      | ok _ =>
        simp only [hshutdown, Option.map_some, Except.map, Option.some.injEq,
          Except.ok.injEq] at hother
        obtain rfl := hother
        exact ⟨hreturns, rfl⟩

end

section

variable [SchemaCompiler]

/-- The request can be said to App Server without loss: text and images of the user, and tools
that are declared as they are registered. -/
structure Handshake.Lossless (fuel : Nat) (tools : List CodexTool) (h : Handshake) : Prop where
  format : h.request.outputFormat = .text
  context : h.request.includeContext = true
  limit : h.request.maxOutputTokens = 0
  tools : freezeTools fuel h.request tools = some (.ok h.tools)
  messages : ∀ m ∈ h.request.messages, PlainInput m
  input : List.Forall₂ (fun content value => contentInput content = .ok value)
    (h.request.messages.flatMap (·.content)) h.input

theorem lossless_of_preflight {fuel : Nat} {h : Handshake} {tools : List CodexTool}
    (hpreflight : preflight fuel h.request tools = some (.ok (h.tools, h.input))) :
    h.Lossless fuel tools := by
  rw [preflight] at hpreflight
  by_cases hformat : h.request.outputFormat = .text
  · by_cases hcontext : h.request.includeContext = true
    · by_cases hlimit : h.request.maxOutputTokens = 0
      · simp only [hformat, hcontext, hlimit, ne_eq, not_true_eq_false, if_false, Bool.not_true,
          Bool.false_eq_true] at hpreflight
        cases hfreeze : freezeTools fuel h.request tools with
        | none => simp [hfreeze] at hpreflight
        | some frozen =>
          cases frozen with
          | error e => simp [hfreeze] at hpreflight
          | ok frozen =>
            cases hinput : compileInput h.request with
            | error e => simp [hfreeze, hinput] at hpreflight
            | ok input =>
              simp only [hfreeze, hinput, Option.some.injEq, Except.ok.injEq,
                Prod.mk.injEq] at hpreflight
              obtain ⟨rfl, rfl⟩ := hpreflight
              obtain ⟨hplain, hall⟩ := compileInput_eq_ok hinput
              exact ⟨hformat, hcontext, hlimit, hfreeze, hplain, hall⟩
      · simp [hformat, hcontext, hlimit] at hpreflight
    · simp [hformat, hcontext] at hpreflight
  · simp [hformat] at hpreflight

variable [JsonText] [ArgumentSchema]

/-- A session and how it ended. Nothing is said in a session that was not opened, and what was
opened is shut down. In an open session the client says a beginning of the handshake, for a
request without loss, and then keeps to the turn. A response is that of the turn. -/
structure Conforms (fuel : Nat) (version : String) (tools : List CodexTool)
    (request : ModelRequest) (script : SessionScript) (t : Transcript)
    (result : Option (Except ProviderError ModelResponse)) : Prop where
  opened : t.opened ≤ 1
  closed : t.shutdowns ≤ t.opened ∧ (result.isSome = true → t.shutdowns = t.opened)
  silent : t.opened = 0 → t.sent = [] ∧ t.called = [] ∧
    ∀ response, result ≠ some (.ok response)
  speaks : t.opened = 1 → ∃ h : Handshake, h.version = version ∧ h.request = request ∧
    h.Lossless fuel tools ∧ Said h script t.sent ∧
    ∀ response, result = some (.ok response) →
      h.Returns script response t.sent ∧ script.shutdown = some (.ok ())

theorem conforms_empty {fuel : Nat} {version : String} {tools : List CodexTool}
    {request : ModelRequest} {script : SessionScript}
    {result : Option (Except ProviderError ModelResponse)}
    (hresult : ∀ response, result ≠ some (.ok response)) :
    Conforms fuel version tools request script .empty result :=
  ⟨Nat.zero_le _, ⟨Nat.le_refl _, fun _ => rfl⟩, fun _ => ⟨rfl, rfl, hresult⟩,
    by simp [Transcript.empty]⟩

/-- Every session of `run_cancellable` conforms, whatever the server sends, and wherever it is
cancelled, times out or fails. -/
theorem session_conforms {fuel : Nat} {version : String} {tools : List CodexTool}
    {request : ModelRequest} {script : SessionScript} {t : Transcript}
    {result : Option (Except ProviderError ModelResponse)}
    (h : runCancellable fuel version tools request script = some (t, result)) :
    Conforms fuel version tools request script t result := by
  rw [runCancellable, Option.map_eq_some_iff] at h
  obtain ⟨checked, hpreflight, h⟩ := h
  cases checked with
  | error e =>
    cases h
    exact conforms_empty (by simp)
  | ok mapped =>
    obtain ⟨frozen, input⟩ := mapped
    have hlossless := lossless_of_preflight (h := ⟨version, request, frozen, input⟩) hpreflight
    have hrun : Exchange.andThen (cancellablePhase script.opening openSession)
        (fun _ => closing script.shutdown (converse version request frozen input script)) .empty =
        (t, result) := h
    have hopening := triple_opening script .empty rfl
    rw [Exchange.andThen] at hrun
    generalize cancellablePhase script.opening openSession .empty = outcome at hopening hrun
    obtain ⟨u, _ | e | _⟩ := outcome
    · obtain rfl : u = .empty := hopening
      cases hrun
      exact conforms_empty (by simp)
    · obtain rfl : u = .empty := hopening
      cases hrun
      exact conforms_empty (by simp)
    · obtain rfl : u = .fresh := hopening
      obtain ⟨hone, hshut, hended, hsaid, hreturns⟩ :=
        closing_cases (h := ⟨version, request, frozen, input⟩) hrun
      refine ⟨by omega, ⟨by omega, fun hr => (hended hr).trans hone.symm⟩, fun hzero => ?_, ?_⟩
      · omega
      · exact fun _ => ⟨⟨version, request, frozen, input⟩, rfl, rfl, hlossless, hsaid, hreturns⟩

end

namespace Sample

@[reducible] def schemaCompiler : SchemaCompiler := ⟨fun _ => true⟩

/-- A request with one text and one image. -/
def request : ModelRequest :=
  { instructions :=
      { core := { key := "core", version := 1, text := "" }, agent := none, run := none
        features := [] }
    messages :=
      [{ Message.user "look" with
          content := [.text "look", .image (.url "image") .png] }]
    tools := [], includeContext := true, model := none, maxOutputTokens := 0
    outputFormat := .text, invocationId := "run:provider:0" }

def answering (id : UInt64) (result : Value) : PhaseScript RequestScript :=
  { cancelled := false
    met :=
      { sent := some (.ok ())
        received := [.message (.object [("id", .number (.posInt id)), ("result", result)])] }
    cut := .pending }

def passing : PhaseScript (Option (Except ProviderError Unit)) :=
  { cancelled := false, met := some (.ok ()), cut := .pending }

/-- A session that goes through, with the turn of the collected script. -/
def sessionScript : SessionScript :=
  { opening := passing
    initialization := answering 1 (.object [("protocolVersion", .string "2")])
    initialized := passing
    thread := answering 2 (.object [("thread", .object [("id", .string "t")])])
    turn := answering 3 (.object [("turn", .object [("id", .string "own")])])
    collect := collectedScript
    shutdown := some (.ok ()) }

end Sample

theorem session_conforms_sample :
    ∃ t, @runCancellable Sample.schemaCompiler Sample.jsonText Sample.argumentSchema 0 "0.1.0" []
        Sample.request Sample.sessionScript = some (t, some (.ok ⟨some "ab", [], none, .stop⟩)) ∧
      t.sent.length = 5 ∧ t.shutdowns = 1 ∧
      @Conforms Sample.schemaCompiler Sample.jsonText Sample.argumentSchema 0 "0.1.0" []
        Sample.request Sample.sessionScript t (some (.ok ⟨some "ab", [], none, .stop⟩)) := by
  let _ := Sample.schemaCompiler
  let _ := Sample.jsonText
  let _ := Sample.argumentSchema
  have hresult : ((runCancellable 0 "0.1.0" [] Sample.request Sample.sessionScript).map
      fun run => (run.1.sent.length, run.1.shutdowns, run.2)) =
        some (5, 1, some (.ok ⟨some "ab", [], none, .stop⟩)) := by
    decide +kernel
  obtain ⟨⟨t, result⟩, hrun, hfields⟩ := Option.map_eq_some_iff.mp hresult
  obtain ⟨hlength, hshutdowns, rfl⟩ : t.sent.length = 5 ∧ t.shutdowns = 1 ∧
      result = some (.ok ⟨some "ab", [], none, .stop⟩) := by simpa using hfields
  exact ⟨t, hrun, hlength, hshutdowns, session_conforms hrun⟩

end Codex

end Agentive
