import Agentive.CodexProtocol

/-! The errors of a session over the stdio transport. They are texts of the crate: nothing that
the process, the server or a tool says goes into them. -/

namespace Agentive

namespace Codex

/-- How a line is written to the process. -/
inductive PipeWrite
  | unencoded
  | failed
  | written

def PipeWrite.outcome : PipeWrite → Except ProviderError Unit
  | .unencoded => .error protocolError
  | .failed => .error transportError
  | .written => .ok ()

/-- What is read from the process: a line, with the value that it is parsed to if it can be, or the
end, or an error. A read that goes on can be given up for the cancellation of the turn. -/
inductive PipeRead
  | line (parsed : Option Value)
  | eof
  | failed
  | woken
  | pending

def PipeRead.received : PipeRead → Received
  | .line (some message) => .message message
  | .line none => .failed protocolError
  | .eof => .closed
  | .failed => .failed transportError
  | .woken => .woken
  | .pending => .pending

/-- What the shutdown of the process meets: whether it has exited, how the wait for its exit goes
within two seconds, and how it is killed and reaped after them. -/
structure StdioShutdown where
  tryWait : Option Bool
  wait : Option Bool
  killed : Bool
  reaped : Bool

def StdioShutdown.outcome (s : StdioShutdown) : Except ProviderError Unit :=
  match s.tryWait with
  | none => .error transportError
  | some true => .ok ()
  | some false =>
    match s.wait with
    | some true => .ok ()
    | some false => .error transportError
    | none => if s.killed && s.reaped then .ok () else .error transportError

structure StdioRequest where
  sent : Option PipeWrite
  received : List PipeRead

def StdioRequest.script (s : StdioRequest) : RequestScript :=
  { sent := s.sent.map PipeWrite.outcome, received := s.received.map PipeRead.received }

/-- An iteration of a turn over the pipes. An interrupt that is not written in time ends it. -/
structure StdioIteration where
  cancelled : Bool
  interruptSent : Option PipeWrite
  received : PipeRead
  invocationId : ToolInvocationId
  tool : ToolRun
  replySent : Option PipeWrite

def StdioIteration.iteration (s : StdioIteration) : TurnIteration :=
  { cancelled := s.cancelled
    interruptSent := (s.interruptSent.map PipeWrite.outcome).getD (.error phaseTimeoutError)
    received := s.received.received
    invocationId := s.invocationId
    tool := s.tool
    replySent := s.replySent.map PipeWrite.outcome }

def PhaseScript.map {α β : Type} (f : α → β) (s : PhaseScript α) : PhaseScript β :=
  { cancelled := s.cancelled, met := f s.met, cut := s.cut }

/-- What a session over the pipes meets. The process is spawned, or it is not. -/
structure StdioScript where
  spawned : PhaseScript Bool
  initialization : PhaseScript StdioRequest
  initialized : PhaseScript (Option PipeWrite)
  thread : PhaseScript StdioRequest
  turn : PhaseScript StdioRequest
  collect : List StdioIteration
  shutdown : StdioShutdown

def StdioScript.session (s : StdioScript) : SessionScript :=
  { opening := s.spawned.map fun spawned =>
      some (if spawned then .ok () else .error transportError)
    initialization := s.initialization.map StdioRequest.script
    initialized := s.initialized.map (Option.map PipeWrite.outcome)
    thread := s.thread.map StdioRequest.script
    turn := s.turn.map StdioRequest.script
    collect := s.collect.map StdioIteration.iteration
    shutdown := some s.shutdown.outcome }

def unsupportedError (capability : String) : ProviderError :=
  (PreflightError.unsupported capability).intoProviderError

/-- The errors of the checks before a session is opened. -/
def preflightErrors : List ProviderError :=
  [.terminal .invalidRequest "codex app server structured output is not supported losslessly",
    unsupportedError "context exclusion", unsupportedError "exact output-token limits",
    PreflightError.invalidToolConfiguration.intoProviderError,
    unsupportedError "non-user history", unsupportedError "inline image"]

/-- The errors of an open session. -/
def sessionErrors : List ProviderError :=
  [transportError, protocolError, phaseTimeoutError, cancelledError, loginRequired,
    .new .rateLimited "codex app server is overloaded" true,
    .terminal .protocol "codex app server rejected the request",
    .terminal .unavailable "codex turn failed",
    .terminal .timeout "codex turn was interrupted"]

section

open Exchange DriverLoop

/-- An outcome whose error, if it is one, is an error of the session. -/
def Discreet {α : Type} (outcome : Option (Except ProviderError α)) : Prop :=
  ∀ e, outcome = some (.error e) → e ∈ sessionErrors

def discreetly {α : Type} : Post Transcript ProviderError α :=
  { ok := fun _ _ => True, error := fun e _ => e ∈ sessionErrors, waits := fun _ => True }

/-- A computation that fails with errors of the session only. -/
abbrev DiscreetSession {α : Type} (x : Session α) : Prop := Triple (fun _ => True) x discreetly

variable {α β : Type}

theorem holds_discreetly_iff {t : Transcript} {outcome : Option (Except ProviderError α)} :
    discreetly.Holds (t, outcome) ↔ Discreet outcome := by
  obtain _ | e | a := outcome
  · exact iff_of_true trivial (by simp [Discreet])
  · exact ⟨fun h e' he' => by cases he'; exact h, fun h => h e rfl⟩
  · exact iff_of_true trivial (by simp [Discreet])

theorem DiscreetSession.of_snd {x : Session α} (h : ∀ t, Discreet (x t).2) : DiscreetSession x :=
  fun t _ => holds_discreetly_iff.mpr (h t)

theorem DiscreetSession.snd {x : Session α} (h : DiscreetSession x) (t : Transcript) :
    Discreet (x t).2 :=
  holds_discreetly_iff.mp (h t trivial)

theorem DiscreetSession.bind {x : Session α} {f : α → Session β} (hx : DiscreetSession x)
    (hf : ∀ a, DiscreetSession (f a)) : DiscreetSession (x >>= f) :=
  Triple.bind (M := fun _ _ => True) hx hf

theorem discreet_ok (a : α) : Discreet (some (.ok a)) := by simp [Discreet]

theorem discreet_none : Discreet (α := α) none := by simp [Discreet]

theorem discreet_error {e : ProviderError} (h : e ∈ sessionErrors) :
    Discreet (α := α) (some (.error e)) := by
  intro e' he'
  cases he'
  exact h

theorem DiscreetSession.send (message : Value) {outcome : Option (Except ProviderError Unit)}
    (h : Discreet outcome) : DiscreetSession (send message outcome) :=
  .of_snd fun _ => h

/-- A phase adds two errors to those of its future. -/
theorem DiscreetSession.phase {script : PhaseScript α} {future : α → Session β}
    (h : DiscreetSession (future script.met)) :
    DiscreetSession (cancellablePhase script future) := by
  refine .of_snd fun t => ?_
  rw [cancellablePhase]
  by_cases hc : script.cancelled = true
  · rw [if_pos hc]
    exact discreet_error (by simp [sessionErrors])
  · rw [if_neg hc]
    have hfuture := h.snd t
    generalize future script.met t = result at hfuture
    obtain ⟨u, _ | outcome⟩ := result
    · cases script.cut
      · exact discreet_error (by simp [sessionErrors])
      · exact discreet_error (by simp [sessionErrors])
      · exact discreet_none
    · exact hfuture

theorem classifyServerError_mem (message : Value) :
    classifyServerError message ∈ sessionErrors := by
  simp only [classifyServerError]
  split
  · simp [sessionErrors]
  · split <;> simp [sessionErrors]

theorem classifyTurnFailure_mem (params : Value) : classifyTurnFailure params ∈ sessionErrors := by
  rw [classifyTurnFailure]
  split <;> simp [sessionErrors]

/-- The part of a read that fails without the server. -/
def Received.Discreet (received : Received) : Prop :=
  ∀ e, received = .failed e → e ∈ sessionErrors

theorem discreet_receiveResponse {id : U64} {received : List Received}
    (h : ∀ r ∈ received, r.Discreet) : Discreet (receiveResponse id received) := by
  induction received with
  | nil => exact discreet_none
  | cons first rest ih =>
    obtain ⟨hfirst, hrest⟩ := List.forall_mem_cons.mp h
    cases first with
    | message message =>
      rw [receiveResponse]
      split
      · exact discreet_error (by simp [sessionErrors])
      · split
        · exact ih hrest
        · split
          · exact discreet_error (classifyServerError_mem message)
          · split
            · exact discreet_error (by simp [sessionErrors])
            · exact discreet_ok _
    | closed => exact discreet_error (by simp [sessionErrors])
    | failed e => exact discreet_error (hfirst e rfl)
    | woken => exact discreet_none
    | pending => exact discreet_none

/-- What an iteration of the turn meets fails without the server, if at all. -/
structure TurnIteration.Discreet (i : TurnIteration) : Prop where
  interruptSent : Codex.Discreet (some i.interruptSent)
  received : i.received.Discreet
  replySent : Codex.Discreet i.replySent

/-- The turn does not end, or it ends without an error of its own. -/
def DiscreetTurn (turn : Turn TurnLoop (Except ProviderError ModelResponse)) : Prop :=
  ∀ l e, turn = .ended l (.error e) → e ∈ sessionErrors

theorem discreetTurn_next (l : TurnLoop) : DiscreetTurn (.next l) := by
  rintro _ _ ⟨⟩

theorem discreetTurn_blocked (l : TurnLoop) : DiscreetTurn (.blocked l) := by
  rintro _ _ ⟨⟩

theorem discreetTurn_ended {l : TurnLoop} {result : Except ProviderError ModelResponse}
    (h : Discreet (some result)) : DiscreetTurn (.ended l result) := by
  intro _ e he
  cases he
  exact h e rfl

theorem discreetTurn_error {l : TurnLoop} {e : ProviderError} (h : e ∈ sessionErrors) :
    DiscreetTurn (.ended l (.error e)) :=
  discreetTurn_ended (discreet_error h)

namespace Collector

variable {c : Collector} {i : TurnIteration} {l : TurnLoop}

theorem discreet_completed (l : TurnLoop) (params : Value) :
    Discreet (some (completed l params)) := by
  rw [completed]
  split
  · exact discreet_error (by simp [sessionErrors])
  · split
    · exact discreet_ok _
    · split
      · exact discreet_error (by simp [sessionErrors])
      · split
        · exact discreet_error (classifyTurnFailure_mem params)
        · exact discreet_error (by simp [sessionErrors])

theorem discreet_notified (method : String) (params : Value) :
    DiscreetTurn (c.notified method params l) := by
  rw [notified]
  split
  · exact discreetTurn_next _
  · split
    · split
      · exact discreetTurn_next _
      · split <;> exact discreetTurn_next _
    · split
      · exact discreetTurn_next _
      · split
        · exact discreetTurn_ended (discreet_completed l params)
        · exact discreetTurn_next _

section

variable [JsonText] [ArgumentSchema]

/-- What a tool says goes to the server. The turn fails where the answer cannot be sent. -/
theorem discreet_respond (hi : i.Discreet) (message : Value) :
    DiscreetTurn (c.respond i message l) := by
  rw [respond]
  split
  · exact discreetTurn_error (by simp [sessionErrors])
  · split
    · exact discreetTurn_error (by simp [sessionErrors])
    · generalize c.answer i _ = answered
      obtain ⟨_ | result, calls⟩ := answered
      · exact discreetTurn_blocked _
      · have hsent := hi.replySent
        generalize i.replySent = outcome at hsent
        obtain _ | e | _ := outcome
        · exact discreetTurn_blocked _
        · exact discreetTurn_error (hsent e rfl)
        · exact discreetTurn_next _

theorem discreet_receive (hi : i.Discreet) : DiscreetTurn (c.receive i l) := by
  have hreceived := hi.received
  rw [receive]
  split
  · rw [handle]
    split
    · split
      · exact discreetTurn_error (classifyServerError_mem _)
      · exact discreetTurn_next _
    · split
      · split
        · exact discreet_respond hi _
        · exact discreetTurn_error (by simp [sessionErrors])
      · split
        · exact discreetTurn_next _
        · exact discreet_notified _ _
  · exact discreetTurn_error (by simp [sessionErrors])
  · next e he => exact discreetTurn_error (hreceived e he)
  · split
    · exact discreetTurn_error (by simp [sessionErrors])
    · exact discreetTurn_next _
  · split
    · exact discreetTurn_error (by simp [sessionErrors])
    · exact discreetTurn_blocked _

theorem discreet_iterate (hi : i.Discreet) : DiscreetTurn (c.iterate i l) := by
  rw [iterate]
  split
  · have hsent := hi.interruptSent
    generalize i.interruptSent = outcome at hsent
    obtain e | _ := outcome
    · exact discreetTurn_error (hsent e rfl)
    · exact discreet_receive hi
  · exact discreet_receive hi

theorem discreet_collectTurn (c : Collector) {script : List TurnIteration}
    (h : ∀ i ∈ script, i.Discreet) : Discreet (c.collectTurn script).2 := by
  intro e he
  have hfeed : DriverLoop.feed c.iterate script .start =
      ((c.collectTurn script).1, some (.error e)) := Prod.ext rfl he
  obtain ⟨before, last, after, l, rfl, _, hend⟩ := DriverLoop.fed_of_feed hfeed
  exact discreet_iterate (h last (by simp)) _ e hend

end

end Collector

/-- What a session meets fails without the server, if at all. -/
structure SessionScript.Discreet (script : SessionScript) : Prop where
  opening : Codex.Discreet script.opening.met
  requests : ∀ phase ∈ [script.initialization, script.thread, script.turn],
    Codex.Discreet phase.met.sent ∧ ∀ r ∈ phase.met.received, r.Discreet
  initialized : Codex.Discreet script.initialized.met
  collect : ∀ i ∈ script.collect, i.Discreet
  shutdown : Codex.Discreet script.shutdown

theorem DiscreetSession.requestPhase {script : PhaseScript RequestScript} {id : U64}
    {method : String} {params : Value} (hsent : Discreet script.met.sent)
    (hreceived : ∀ r ∈ script.met.received, r.Discreet) :
    DiscreetSession (cancellablePhase script (requestResponse id method params)) :=
  .phase (.bind (.send _ hsent) fun _ => .of_snd fun _ => discreet_receiveResponse hreceived)

theorem DiscreetSession.orProtocolError (found : Option α) :
    DiscreetSession (orProtocolError found) := by
  refine .of_snd fun t => ?_
  cases found with
  | none => exact discreet_error (by simp [sessionErrors])
  | some a => exact discreet_ok a

theorem DiscreetSession.checkVersion (initialized : Value) :
    DiscreetSession (checkVersion initialized) := by
  refine .of_snd fun t => ?_
  rw [Codex.checkVersion]
  split
  · exact discreet_error (by simp [sessionErrors])
  · exact discreet_ok ()

section

variable [JsonText] [ArgumentSchema]

theorem DiscreetSession.converse {script : SessionScript} (h : script.Discreet)
    (version : String) (request : ModelRequest) (tools : List FrozenTool) (input : List Value) :
    DiscreetSession (converse version request tools input script) := by
  obtain ⟨hinitialization, hthread, hturn⟩ :
      (Discreet script.initialization.met.sent ∧
          ∀ r ∈ script.initialization.met.received, r.Discreet) ∧
        (Discreet script.thread.met.sent ∧ ∀ r ∈ script.thread.met.received, r.Discreet) ∧
        Discreet script.turn.met.sent ∧ ∀ r ∈ script.turn.met.received, r.Discreet := by
    simpa using h.requests
  refine .bind (.requestPhase hinitialization.1 hinitialization.2) fun initialized => ?_
  refine .bind (.checkVersion initialized) fun _ => ?_
  refine .bind (.phase (.send _ h.initialized)) fun _ => ?_
  refine .bind (.requestPhase hthread.1 hthread.2) fun thread => ?_
  refine .bind (.orProtocolError _) fun threadId => ?_
  refine .bind (.requestPhase hturn.1 hturn.2) fun turn => ?_
  refine .bind (.orProtocolError _) fun turnId => ?_
  exact .of_snd fun _ => Collector.discreet_collectTurn _ h.collect

end

theorem discreet_closing {x : Session α} {shutdown : Option (Except ProviderError Unit)}
    (hx : DiscreetSession x) (hshutdown : Discreet shutdown) :
    DiscreetSession (closing shutdown x) := by
  refine .of_snd fun t => ?_
  have hsnd := hx.snd t
  rw [closing]
  generalize x t = result at hsnd
  obtain ⟨u, _ | e | a⟩ := result
  · exact discreet_none
  · obtain _ | closed := shutdown
    · exact discreet_none
    · exact hsnd
  · obtain _ | e | _ := shutdown
    · exact discreet_none
    · exact discreet_error (hshutdown e rfl)
    · exact discreet_ok a

theorem DiscreetSession.opening {script : SessionScript} (h : Discreet script.opening.met) :
    DiscreetSession (cancellablePhase script.opening openSession) := by
  refine .phase (.of_snd fun t => ?_)
  generalize script.opening.met = met at h
  obtain _ | e | _ := met
  · exact discreet_none
  · exact discreet_error (h e rfl)
  · exact discreet_ok ()

end

theorem discreet_pipeWrite (write : PipeWrite) : Discreet (some write.outcome) := by
  cases write
  · exact discreet_error (by simp [sessionErrors])
  · exact discreet_error (by simp [sessionErrors])
  · exact discreet_ok ()

theorem discreet_pipeWrites (write : Option PipeWrite) :
    Discreet (write.map PipeWrite.outcome) := by
  cases write with
  | none => exact discreet_none
  | some write => exact discreet_pipeWrite write

theorem discreet_pipeRead (read : PipeRead) : read.received.Discreet := by
  intro e he
  cases read with
  | line parsed =>
    cases parsed <;> cases he
    simp [sessionErrors]
  | failed =>
    cases he
    simp [sessionErrors]
  | _ => cases he

theorem StdioRequest.discreet (s : StdioRequest) :
    Discreet s.script.sent ∧ ∀ r ∈ s.script.received, r.Discreet := by
  refine ⟨discreet_pipeWrites s.sent, fun r hr => ?_⟩
  obtain ⟨read, _, rfl⟩ := List.mem_map.mp hr
  exact discreet_pipeRead read

theorem StdioIteration.discreet (s : StdioIteration) : s.iteration.Discreet := by
  refine ⟨?_, discreet_pipeRead s.received, discreet_pipeWrites s.replySent⟩
  rw [iteration]
  cases s.interruptSent with
  | none => exact discreet_error (by simp [sessionErrors])
  | some write => exact discreet_pipeWrite write

theorem StdioShutdown.discreet (s : StdioShutdown) : Discreet (some s.outcome) := by
  have htransport : Discreet (some (.error transportError) : Option (Except ProviderError Unit)) :=
    discreet_error (by simp [sessionErrors])
  rw [outcome]
  split
  · exact htransport
  · exact discreet_ok ()
  · split
    · exact discreet_ok ()
    · exact htransport
    · split
      · exact discreet_ok ()
      · exact htransport

/-- The transport over the pipes brings no text of the process into an error. -/
theorem StdioScript.discreet (s : StdioScript) : s.session.Discreet := by
  refine ⟨?_, ?_, discreet_pipeWrites s.initialized.met, ?_, s.shutdown.discreet⟩
  · show Discreet (some (if s.spawned.met then .ok () else .error transportError))
    split
    · exact discreet_ok ()
    · exact discreet_error (by simp [sessionErrors])
  · simp only [List.forall_mem_cons]
    exact ⟨s.initialization.met.discreet, s.thread.met.discreet, s.turn.met.discreet,
      List.forall_mem_nil _⟩
  · intro i hi
    obtain ⟨iteration, _, rfl⟩ := List.mem_map.mp hi
    exact iteration.discreet

theorem exists_error_of_mapM {α β ε : Type} {f : α → Except ε β} {items : List α} {e : ε}
    (h : items.mapM f = .error e) : ∃ item ∈ items, f item = .error e := by
  induction items with
  | nil => cases h
  | cons item items ih =>
    rw [List.mapM_cons] at h
    cases hitem : f item with
    | error e' =>
      simp only [hitem, bind, Except.bind, Except.error.injEq] at h
      exact ⟨item, List.mem_cons_self, h ▸ hitem⟩
    | ok result =>
      cases hitems : items.mapM f with
      | error e' =>
        simp only [hitem, hitems, bind, Except.bind, Except.error.injEq] at h
        obtain ⟨other, hother, he⟩ := ih (h ▸ hitems)
        exact ⟨other, List.mem_cons_of_mem _ hother, he⟩
      | ok results => simp [hitem, hitems, bind, Except.bind, pure, Except.pure] at h

theorem compileInput_error {request : ModelRequest} {e : PreflightError}
    (h : compileInput request = .error e) :
    e = .unsupported "non-user history" ∨ e = .unsupported "inline image" := by
  rw [compileInput] at h
  cases hm : request.messages.mapM messageInput with
  | ok inputs => simp [hm, Except.map] at h
  | error e' =>
    obtain rfl : e' = e := by simpa [hm, Except.map] using h
    obtain ⟨m, _, he⟩ := exists_error_of_mapM hm
    rw [messageInput] at he
    split at he
    · cases he
      exact .inl rfl
    · obtain ⟨content, _, he⟩ := exists_error_of_mapM he
      cases content with
      | text text => cases he
      | image source mediaType =>
        cases source with
        | url url => cases he
        | inline bytes =>
          cases he
          exact .inr rfl

section

variable [SchemaCompiler]

theorem freezeDeclared_error {fuel : Nat} {descriptors declared : List ProviderToolDescriptor}
    {e : PreflightError} (h : freezeDeclared fuel descriptors declared = some (.error e)) :
    e = .invalidToolConfiguration := by
  induction descriptors generalizing declared with
  | nil => simp [freezeDeclared] at h
  | cons d rest ih =>
    rw [freezeDeclared] at h
    split at h
    · cases h
    · cases h
      rfl
    · split at h
      · cases h
        rfl
      · exact ih h

theorem freezeRegistered_error {fuel : Nat} {declared : List ProviderToolDescriptor}
    {tools : List CodexTool} {frozen : List FrozenTool} {registered : List ToolName}
    {e : PreflightError}
    (h : freezeRegistered fuel declared tools frozen registered = some (.error e)) :
    e = .invalidToolConfiguration := by
  induction tools generalizing frozen registered with
  | nil => simp [freezeRegistered] at h
  | cons tool rest ih =>
    rw [freezeRegistered] at h
    split at h
    · cases h
      rfl
    · split at h
      · cases h
      · cases h
        rfl
      · split at h
        · cases h
          rfl
        · split at h
          · exact ih h
          · split at h
            · cases h
              rfl
            · exact ih h

theorem freezeTools_error {fuel : Nat} {request : ModelRequest} {tools : List CodexTool}
    {e : PreflightError} (h : freezeTools fuel request tools = some (.error e)) :
    e = .invalidToolConfiguration := by
  rw [freezeTools] at h
  split at h
  · cases h
  · next hd =>
    cases h
    exact freezeDeclared_error hd
  · split at h
    · cases h
    · next hr =>
      cases h
      exact freezeRegistered_error hr
    · split at h
      · cases h
        rfl
      · cases h

theorem preflight_error {fuel : Nat} {request : ModelRequest} {tools : List CodexTool}
    {e : ProviderError} (h : preflight fuel request tools = some (.error e)) :
    e ∈ preflightErrors := by
  rw [preflight] at h
  split at h
  · cases h
    simp [preflightErrors]
  · split at h
    · cases h
      simp [preflightErrors, unsupportedError]
    · split at h
      · cases h
        simp [preflightErrors, unsupportedError]
      · split at h
        · cases h
        · next hfreeze =>
          cases h
          rw [freezeTools_error hfreeze]
          simp [preflightErrors]
        · split at h
          · next hinput =>
            cases h
            rcases compileInput_error hinput with rfl | rfl <;>
              simp [preflightErrors, unsupportedError]
          · cases h

variable [JsonText] [ArgumentSchema]

/-- A session over the pipes fails with one of fifteen errors, all of them written down in the
crate. Whatever the process, the server, a tool or the request says, it does not show there. -/
theorem session_errors_fixed (fuel : Nat) (version : String) (tools : List CodexTool)
    (request : ModelRequest) (script : StdioScript) (t : Transcript) (e : ProviderError)
    (h : runCancellable fuel version tools request script.session =
      some (t, some (.error e))) :
    (e ∈ preflightErrors ∧ t = .empty) ∨ e ∈ sessionErrors := by
  rw [runCancellable, Option.map_eq_some_iff] at h
  obtain ⟨checked, hpreflight, h⟩ := h
  cases checked with
  | error e' =>
    cases h
    exact .inl ⟨preflight_error hpreflight, rfl⟩
  | ok mapped =>
    obtain ⟨frozen, input⟩ := mapped
    have hdiscreet := script.discreet
    have hrun : DiscreetSession (cancellablePhase script.session.opening openSession >>= fun _ =>
        closing script.session.shutdown
          (converse version request frozen input script.session)) :=
      .bind (.opening hdiscreet.opening) fun _ =>
        discreet_closing (.converse hdiscreet version request frozen input) hdiscreet.shutdown
    refine .inr (hrun.snd .empty e ?_)
    exact congrArg Prod.snd h

end

namespace Sample

/-- The server refuses the first request, and says why. -/
def refusingScript : StdioScript :=
  let request : PhaseScript StdioRequest :=
    { cancelled := false
      met :=
        { sent := some .written
          received :=
            [.line (some (.object
              [("error", .object [("message", .string "token abc is unauthorized")]),
                ("id", .number (.posInt 1))]))] }
      cut := .timedOut }
  { spawned := { cancelled := false, met := true, cut := .pending }
    initialization := request
    initialized := { cancelled := false, met := some .written, cut := .pending }
    thread := request
    turn := request
    collect := []
    shutdown := { tryWait := some false, wait := some true, killed := false, reaped := false } }

end Sample

theorem session_errors_fixed_sample :
    ∃ t, @runCancellable Sample.schemaCompiler Sample.jsonText Sample.argumentSchema 0 "0.1.0" []
        Sample.request Sample.refusingScript.session = some (t, some (.error loginRequired)) ∧
      ((loginRequired ∈ preflightErrors ∧ t = .empty) ∨ loginRequired ∈ sessionErrors) := by
  let _ := Sample.schemaCompiler
  let _ := Sample.jsonText
  let _ := Sample.argumentSchema
  have hresult : (runCancellable 0 "0.1.0" [] Sample.request Sample.refusingScript.session).map
      Prod.snd = some (some (.error loginRequired)) := by
    decide +kernel
  obtain ⟨⟨t, result⟩, hrun, rfl⟩ := Option.map_eq_some_iff.mp hresult
  exact ⟨t, hrun, session_errors_fixed _ _ _ _ _ _ _ hrun⟩

end Codex

end Agentive
