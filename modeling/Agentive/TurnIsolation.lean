import Agentive.CodexTurn

/-! Notifications of another thread or turn. The loop passes over those that name the other thread
or turn where it looks for it. It does not look into the turn that an end of a turn describes. -/

namespace Agentive

namespace Codex

open DriverLoop

/-- No iteration meets a cancellation of the turn. -/
structure Uninterrupted (i : TurnIteration) : Prop where
  head : i.cancelled = false
  wait : i.received ≠ .woken
  tool : i.tool ≠ .cancelled

/-- What is at this place is not the identifier. -/
def DiffersAt (params : Value) (path : List String) (own : String) : Prop :=
  ∃ v, params.pointer path = some v ∧ v ≠ .string own

namespace Collector

variable (c : Collector)

/-- A notification that belongs to another thread, or to another turn. -/
structure Foreign (message : Value) : Prop where
  notification : message.get "id" = none
  elsewhere : DiffersAt (paramsOf message) ["threadId"] c.threadId ∨
    DiffersAt (paramsOf message) ["turnId"] c.turnId ∨
    DiffersAt (paramsOf message) ["turn", "id"] c.turnId

/-- A notification that the loop makes something of: it names no other thread or turn where the
loop looks for it, and is a piece of text, an update of the usage, or the end of a turn. -/
structure Heard (message : Value) : Prop where
  notification : message.get "id" = none
  thread : namesOther (paramsOf message) ["threadId"] c.threadId = false
  turn : namesOther (paramsOf message) ["turnId"] c.turnId = false
  effect : (methodOf message = some "item/agentMessage/delta" ∧
      ∃ delta, delta ≠ "" ∧ ((paramsOf message).get "delta").bind Value.asStr = some delta) ∨
    methodOf message = some "thread/tokenUsage/updated" ∨ methodOf message = some "turn/completed"

theorem notified_eq_next_of_not_heard {message : Value} {method : String}
    (hid : message.get "id" = none) (hmethod : methodOf message = some method)
    (h : ¬ c.Heard message) (l : TurnLoop) :
    c.notified method (paramsOf message) l = .next l := by
  rw [notified]
  by_cases hother : (namesOther (paramsOf message) ["threadId"] c.threadId ||
      namesOther (paramsOf message) ["turnId"] c.turnId) = true
  · rw [if_pos hother]
  rw [if_neg hother]
  obtain ⟨hthread, hturn⟩ := Bool.or_eq_false_iff.mp (Bool.eq_false_iff.mpr hother)
  by_cases hdelta : method = "item/agentMessage/delta"
  · rw [if_pos hdelta]
    by_cases hl : l.interrupted = true
    · rw [if_pos hl]
    rw [if_neg hl]
    cases hd : ((paramsOf message).get "delta").bind Value.asStr with
    | none => rfl
    | some delta =>
      by_cases hempty : delta = ""
      · simp [hempty]
      · exact absurd ⟨hid, hthread, hturn,
          .inl ⟨hdelta ▸ hmethod, delta, hempty, hd⟩⟩ h
  by_cases husage : method = "thread/tokenUsage/updated"
  · exact absurd ⟨hid, hthread, hturn, .inr (.inl (husage ▸ hmethod))⟩ h
  by_cases hcompleted : method = "turn/completed"
  · exact absurd ⟨hid, hthread, hturn, .inr (.inr (hcompleted ▸ hmethod))⟩ h
  rw [if_neg hdelta, if_neg husage, if_neg hcompleted]

section

variable [JsonText] [ArgumentSchema]

theorem iterate_notification {i : TurnIteration} {message : Value} (hi : i.cancelled = false)
    (hreceived : i.received = .message message) (hid : message.get "id" = none) (l : TurnLoop) :
    c.iterate i l =
      match methodOf message with
      | none => .next l
      | some method => c.notified method (paramsOf message) l := by
  rw [iterate, if_neg (by simp [hi]), receive, hreceived]
  exact (if_neg (by simp [hid])).trans (if_neg (by simp [hid]))

theorem iterate_unheard {i : TurnIteration} {message : Value} (hi : i.cancelled = false)
    (hreceived : i.received = .message message) (hid : message.get "id" = none)
    (h : ¬ c.Heard message) (l : TurnLoop) : c.iterate i l = .next l := by
  rw [c.iterate_notification hi hreceived hid]
  cases hmethod : methodOf message with
  | none => rfl
  | some method => exact c.notified_eq_next_of_not_heard hid hmethod h l

/-- What is seen of a call: the messages that it sends, and what it returns. -/
def outcome (script : List TurnIteration) :
    List Value × Option (Except ProviderError ModelResponse) :=
  ((c.collectTurn script).1.sent, (c.collectTurn script).2)

theorem outcome_eq_of_thinned {script kept : List TurnIteration}
    (h : Thinned (fun i => ∃ m, i.received = .message m ∧ c.Foreign m ∧ ¬ c.Heard m) script kept)
    (hscript : ∀ i ∈ script, Uninterrupted i) : c.outcome script = c.outcome kept := by
  have hfeed : c.collectTurn script = c.collectTurn kept := by
    refine feed_thinned h (fun i hi hdropped l => ?_) TurnLoop.start
    obtain ⟨m, hreceived, hforeign, hunheard⟩ := hdropped
    exact c.iterate_unheard (hscript i hi).head hreceived hforeign.notification hunheard l
  rw [outcome, outcome, hfeed]

end

/-- The end of this turn, as the server reports it. -/
def ownCompletion : Value :=
  .object
    [("method", .string "turn/completed"),
      ("params", .object
        [("threadId", .string c.threadId),
          ("turn", .object [("id", .string c.turnId), ("status", .string "completed")])])]

/-- An update of the usage of this thread that counts nothing. -/
def ownUsage : Value :=
  .object
    [("method", .string "thread/tokenUsage/updated"),
      ("params", .object [("threadId", .string c.threadId), ("tokenUsage", .object [])])]

def incoming (message : Value) : TurnIteration :=
  { cancelled := false
    interruptSent := .ok ()
    received := .message message
    invocationId := ⟨""⟩
    tool := .pending
    replySent := none }

theorem incoming_uninterrupted (message : Value) : Uninterrupted (incoming message) :=
  ⟨rfl, nofun, nofun⟩

section

variable [JsonText] [ArgumentSchema]

theorem iterate_ownCompletion {l : TurnLoop} (hl : l.interrupted = false) :
    c.iterate (incoming c.ownCompletion) l =
      .ended l (.ok
        { text := if l.text = "" then none else some l.text
          toolCalls := []
          usage := l.usage
          finishReason := .stop }) := by
  rw [c.iterate_notification rfl rfl rfl]
  have hthread : namesOther (paramsOf c.ownCompletion) ["threadId"] c.threadId = false := by
    simp [namesOther, Value.stringAt, Value.pointer, paramsOf, ownCompletion, Value.get,
      List.lookup_cons, Value.asStr]
  have hturn : namesOther (paramsOf c.ownCompletion) ["turnId"] c.turnId = false := rfl
  have hstatus : (paramsOf c.ownCompletion).stringAt ["turn", "status"] = some "completed" := rfl
  change c.notified "turn/completed" (paramsOf c.ownCompletion) l = _
  simp only [notified, hthread, hturn, completed, hstatus, hl, and_self, Bool.or_self]
  rfl

theorem iterate_ownUsage (l : TurnLoop) :
    c.iterate (incoming c.ownUsage) l =
      .next { l with usage := some ⟨none, none, none, none, none⟩ } := by
  rw [c.iterate_notification rfl rfl rfl]
  have hthread : namesOther (paramsOf c.ownUsage) ["threadId"] c.threadId = false := by
    simp [namesOther, Value.stringAt, Value.pointer, paramsOf, ownUsage, Value.get,
      List.lookup_cons, Value.asStr]
  have hturn : namesOther (paramsOf c.ownUsage) ["turnId"] c.turnId = false := rfl
  change c.notified "thread/tokenUsage/updated" (paramsOf c.ownUsage) l = _
  simp only [notified, hthread, hturn, Bool.or_self]
  rfl

theorem Heard.iterate_cases {c : Collector} {i : TurnIteration} {message : Value}
    (h : c.Heard message) (hi : i.cancelled = false) (hreceived : i.received = .message message) :
    (∃ delta, delta ≠ "" ∧ ∀ l : TurnLoop, l.interrupted = false →
        c.iterate i l = .next { l with text := l.text ++ delta }) ∨
      (∀ l, c.iterate i l = .next { l with usage := usageFrom (paramsOf message) }) ∨
      ∀ l, ∃ result, c.iterate i l = .ended l result := by
  rcases h.effect with ⟨hmethod, delta, hdelta, hd⟩ | hmethod | hmethod
  · left
    refine ⟨delta, hdelta, fun l hl => ?_⟩
    rw [c.iterate_notification hi hreceived h.notification]
    simp only [hmethod, notified, h.thread, h.turn, hl, hd, Bool.or_self]
    rfl
  · right
    left
    intro l
    rw [c.iterate_notification hi hreceived h.notification]
    simp only [hmethod, notified, h.thread, h.turn, Bool.or_self]
    rfl
  · right
    right
    intro l
    refine ⟨Collector.completed l (paramsOf message), ?_⟩
    rw [c.iterate_notification hi hreceived h.notification]
    simp only [hmethod, notified, h.thread, h.turn, Bool.or_self]
    rfl

theorem feed_ownCompletion {l : TurnLoop} (hl : l.interrupted = false) :
    feed c.iterate [incoming c.ownCompletion] l =
      (l, some (.ok
        { text := if l.text = "" then none else some l.text
          toolCalls := []
          usage := l.usage
          finishReason := .stop })) :=
  feed_cons_ended [] (c.iterate_ownCompletion hl)

/-- What the loop makes of a message shows in the outcome of some script: the text and the usage
in what a turn that then ends returns, and an end in that the call returns at all. -/
theorem Heard.shows {c : Collector} {i : TurnIteration} {message : Value} (h : c.Heard message)
    (hi : i.cancelled = false) (hreceived : i.received = .message message) :
    ∃ before after : List TurnIteration,
      (∀ j ∈ before ++ after, Uninterrupted j) ∧
        c.outcome (before ++ i :: after) ≠ c.outcome (before ++ after) := by
  have hown := incoming_uninterrupted c.ownCompletion
  have husage := incoming_uninterrupted c.ownUsage
  have hwithout : c.collectTurn [incoming c.ownCompletion] = _ := c.feed_ownCompletion rfl
  rcases h.iterate_cases hi hreceived with ⟨delta, hdelta, hnext⟩ | hnext | hended
  · have hwith : c.collectTurn [i, incoming c.ownCompletion] = _ :=
      (feed_cons_next _ (hnext _ rfl)).trans (c.feed_ownCompletion rfl)
    refine ⟨[], [incoming c.ownCompletion], by simpa using hown, fun heq => ?_⟩
    simp [outcome, hwith, hwithout, TurnLoop.start, hdelta] at heq
  · cases hu : usageFrom (paramsOf message) with
    | some u =>
      have hwith : c.collectTurn [i, incoming c.ownCompletion] = _ :=
        (feed_cons_next _ (hnext _)).trans (c.feed_ownCompletion rfl)
      refine ⟨[], [incoming c.ownCompletion], by simpa using hown, fun heq => ?_⟩
      simp [outcome, hwith, hwithout, TurnLoop.start, hu] at heq
    | none =>
      -- An update without usage shows only where there is a usage that it takes away.
      have hkeeps : c.collectTurn [incoming c.ownUsage, incoming c.ownCompletion] = _ :=
        (feed_cons_next _ (c.iterate_ownUsage _)).trans (c.feed_ownCompletion rfl)
      have hwith : c.collectTurn [incoming c.ownUsage, i, incoming c.ownCompletion] = _ :=
        (feed_cons_next _ (c.iterate_ownUsage _)).trans
          ((feed_cons_next _ (hnext _)).trans (c.feed_ownCompletion rfl))
      refine ⟨[incoming c.ownUsage], [incoming c.ownCompletion], by simp [hown, husage],
        fun heq => ?_⟩
      simp [outcome, hwith, hkeeps, TurnLoop.start, hu] at heq
  · obtain ⟨result, hended⟩ := hended .start
    have hwith : c.collectTurn [i] = _ := feed_cons_ended [] hended
    have hnone : c.collectTurn [] = (.start, none) := rfl
    refine ⟨[], [], by simp, fun heq => ?_⟩
    simp [outcome, hwith, hnone] at heq

/-- Notifications of other threads and turns make no difference as long as the loop makes nothing
of them; one that it makes something of does. -/
theorem foreign_notifications_isolated_iff :
    (∀ script kept : List TurnIteration, (∀ i ∈ script, Uninterrupted i) →
      Thinned (fun i => ∃ m, i.received = .message m ∧ c.Foreign m ∧ ¬ c.Heard m) script kept →
      c.outcome script = c.outcome kept) ∧
    ∀ (i : TurnIteration) (m : Value), Uninterrupted i → i.received = .message m → c.Foreign m →
      ((∀ before after : List TurnIteration, (∀ j ∈ before ++ after, Uninterrupted j) →
        c.outcome (before ++ i :: after) = c.outcome (before ++ after)) ↔ ¬ c.Heard m) := by
  refine ⟨fun script kept hscript h => c.outcome_eq_of_thinned h hscript,
    fun i m hi hreceived hforeign =>
      ⟨fun hsame hheard => ?_, fun hunheard before after hrest => ?_⟩⟩
  · obtain ⟨before, after, hrest, hne⟩ := hheard.shows hi.head hreceived
    exact hne (hsame before after hrest)
  · refine c.outcome_eq_of_thinned ?_ fun j hj => ?_
    · exact .drop_between ⟨m, hreceived, hforeign, hunheard⟩ before after
    · rcases List.mem_append.mp hj with hj | hj
      · exact hrest j (List.mem_append_left _ hj)
      · rcases List.mem_cons.mp hj with rfl | hj
        · exact hi
        · exact hrest j (List.mem_append_right _ hj)

end

end Collector

namespace Sample

@[reducible] def jsonText : JsonText := { toText := fun _ => "null", parses := fun _ => true }

@[reducible] def argumentSchema : ArgumentSchema :=
  { accepts := fun _ _ => true, decodeTask := fun _ => .error "no task" }

def collector : Collector := { threadId := "t", turnId := "own", tools := [] }

/-- Another turn of the same thread has failed. -/
def otherTurnFailed : Value :=
  .object
    [("method", .string "turn/completed"),
      ("params", .object
        [("threadId", .string "t"),
          ("turn", .object [("id", .string "other"), ("status", .string "failed")])])]

theorem otherTurnFailed_foreign : collector.Foreign otherTurnFailed :=
  ⟨rfl, .inr (.inr ⟨.string "other", rfl, by decide⟩)⟩

end Sample

/-- The failure of another turn fails this one, that would have been completed. -/
theorem foreign_turn_failure_fails_turn :
    ¬ ∀ (_ : JsonText) (_ : ArgumentSchema) (c : Collector) (script kept : List TurnIteration),
      (∀ i ∈ script, Uninterrupted i) →
      Thinned (fun i => ∃ m, i.received = .message m ∧ c.Foreign m) script kept →
      c.outcome script = c.outcome kept := by
  intro claim
  let c := Sample.collector
  have heq := claim Sample.jsonText Sample.argumentSchema c
    [Collector.incoming Sample.otherTurnFailed, Collector.incoming c.ownCompletion]
    [Collector.incoming c.ownCompletion]
    (by simp [Collector.incoming_uninterrupted])
    (.drop ⟨_, rfl, Sample.otherTurnFailed_foreign⟩ (.keep _ .nil))
  revert heq
  decide +kernel

end Codex

end Agentive
