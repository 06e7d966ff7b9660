import Agentive.Agent
import Mathlib.Data.List.Basic
import Mathlib.Logic.Function.Basic
import Mathlib.Logic.Relation

/-! The event buses of a tree of runs. The task of a run sends each of its events to the observers
of its own bus, one after another, and then to those of the buses above it. -/

namespace Agentive

/-- An event on its way up: one of the run itself, or one of a child run with the id of the
child. -/
inductive BusEvent
  | own (event : RunEvent)
  | child (runId : String) (event : BusEvent)
deriving DecidableEq

/-- The buses of a tree of runs. The bus of a child run has a parent and the id of its run; a
parent is there before its children. -/
structure BusTree (ι : Type) where
  parent : ι → Option (ι × String)
  depth : ι → Nat
  depth_lt : ∀ {i p : ι} {runId : String}, parent i = some (p, runId) → depth p < depth i

namespace BusTree

variable {ι : Type} (tree : BusTree ι)

/-- Events of the first bus come to the second. -/
abbrev OnPath : ι → ι → Prop :=
  Relation.ReflTransGen fun i p => ∃ runId, tree.parent i = some (p, runId)

/-- The event of a run as it comes to a bus. -/
inductive Carries (r : ι) (e : RunEvent) : ι → BusEvent → Prop
  | own : Carries r e r (.own e)
  | forwarded {i p : ι} {runId : String} {event : BusEvent} :
      Carries r e i event → tree.parent i = some (p, runId) → Carries r e p (.child runId event)

end BusTree

/-- The capacity of every channel of a bus. -/
def channelCapacity : Nat := 256

/-- An event in a channel, with the run that emitted it and its number among the events of that
run. -/
structure BusEntry (ι : Type) where
  origin : ι
  number : Nat
  event : BusEvent
deriving DecidableEq

/-- Where the call of `subscribe` stands that made a channel. -/
inductive Subscription (ι : Type)
  | unused
  | refused (bus : ι)
  | checked (bus : ι)
  | registered (bus : ι)
deriving DecidableEq

/-- A channel of an observer: what is sent and not received, what is received, the tasks that wait
for room in the order in which they came, whether the receiver is gone, and how many events each
run had begun when the channel was registered. -/
structure BusChannel (ι : Type) where
  subscription : Subscription ι
  queue : List (BusEntry ι)
  received : List (BusEntry ι)
  waiters : List ι
  dropped : Bool
  since : ι → Nat

/-- An event that a task is emitting: the bus it has come to, and the observers there that are
still to be served once the list of them has been copied. -/
structure Emission (ι : Type) where
  bus : ι
  event : BusEvent
  waiting : Option (List Nat)

/-- All buses, channels and emissions, with the events that each run has begun to emit and the
numbers of those whose emission was given up. -/
structure BusWorld (ι : Type) where
  observers : ι → List Nat
  closed : ι → Bool
  channels : Nat → BusChannel ι
  emission : ι → Option (Emission ι)
  emitted : ι → List RunEvent
  abandoned : ι → List Nat

/-- A step of one of the tasks: of the task of a run, of a subscriber, or of an observer. -/
inductive BusAction (ι : Type)
  | emit (r : ι) (event : RunEvent)
  | copy (r : ι)
  | send (r : ι)
  | finish (r : ι)
  | abandon (r : ι)
  | subscribe (channel : Nat) (bus : ι)
  | register (channel : Nat)
  | receive (channel : Nat)
  | drop (channel : Nat)
  | close (bus : ι)
  | clear (bus : ι)

namespace BusChannel

variable {ι : Type}

def unused : BusChannel ι :=
  { subscription := .unused, queue := [], received := [], waiters := [], dropped := false
    since := fun _ => 0 }

/-- Everything that was ever sent to the channel. -/
def log (ch : BusChannel ι) : List (BusEntry ι) := ch.received ++ ch.queue

variable [DecidableEq ι]

/-- The task whose event is sent waits no longer. -/
def push (ch : BusChannel ι) (entry : BusEntry ι) : BusChannel ι :=
  { ch with queue := ch.queue ++ [entry], waiters := ch.waiters.erase entry.origin }

def join (ch : BusChannel ι) (r : ι) : BusChannel ι := { ch with waiters := ch.waiters ++ [r] }

def leave (ch : BusChannel ι) (r : ι) : BusChannel ι := { ch with waiters := ch.waiters.erase r }

/-- What is before a task that wants to send: the events that are there, and the tasks that wait
for room and came earlier. Room that becomes free is theirs. -/
def ahead (ch : BusChannel ι) (r : ι) : Nat := ch.queue.length + ch.waiters.idxOf r

/-- What the channel got of the events of one run. -/
def entries (ch : BusChannel ι) (r : ι) : List (BusEntry ι) :=
  ch.log.filter fun x => x.origin = r

theorem mem_entries {ch : BusChannel ι} {r : ι} {x : BusEntry ι} :
    x ∈ ch.entries r ↔ x ∈ ch.log ∧ x.origin = r := by
  simp [entries]

theorem entries_push (ch : BusChannel ι) (x : BusEntry ι) (r : ι) :
    (ch.push x).entries r = ch.entries r ++ if x.origin = r then [x] else [] := by
  have hlog : (ch.push x).log = ch.log ++ [x] := (List.append_assoc _ _ _).symm
  rw [entries, hlog, List.filter_append]
  by_cases h : x.origin = r
  · simp [entries, h]
  · simp [entries, h]

end BusChannel

namespace BusWorld

variable {ι : Type} [DecidableEq ι]

def empty : BusWorld ι :=
  { observers := fun _ => [], closed := fun _ => false, channels := fun _ => .unused
    emission := fun _ => none, emitted := fun _ => [], abandoned := fun _ => [] }

def setEmission (w : BusWorld ι) (r : ι) (m : Option (Emission ι)) : BusWorld ι :=
  { w with emission := Function.update w.emission r m }

def setChannel (w : BusWorld ι) (c : Nat) (ch : BusChannel ι) : BusWorld ι :=
  { w with channels := Function.update w.channels c ch }

def setObservers (w : BusWorld ι) (b : ι) (observers : List Nat) : BusWorld ι :=
  { w with observers := Function.update w.observers b observers }

/-- The start of `emit` at the bus of a run. -/
def beginEmit (w : BusWorld ι) (r : ι) (event : RunEvent) : BusWorld ι :=
  { w.setEmission r (some { bus := r, event := .own event, waiting := none }) with
    emitted := Function.update w.emitted r (w.emitted r ++ [event]) }

/-- The list of the senders is copied under the lock. -/
def copyObservers (w : BusWorld ι) (r : ι) (m : Emission ι) : BusWorld ι :=
  w.setEmission r (some { m with waiting := some (w.observers m.bus) })

def entry (w : BusWorld ι) (r : ι) (m : Emission ι) : BusEntry ι :=
  { origin := r, number := (w.emitted r).length - 1, event := m.event }

/-- One observer has been served, or is gone. -/
def advance (w : BusWorld ι) (r : ι) (m : Emission ι) (rest : List Nat) : BusWorld ι :=
  w.setEmission r (some { m with waiting := some rest })

def deliver (w : BusWorld ι) (r : ι) (m : Emission ι) (c : Nat) : BusWorld ι :=
  w.setChannel c ((w.channels c).push (w.entry r m))

def joinChannel (w : BusWorld ι) (r : ι) (c : Nat) : BusWorld ι :=
  w.setChannel c ((w.channels c).join r)

/-- Observers that are gone leave the list. -/
def prune (w : BusWorld ι) (b : ι) : BusWorld ι :=
  w.setObservers b ((w.observers b).filter fun c => !(w.channels c).dropped)

/-- The end of `emit` at one bus: the event goes on to the parent, if there is one. -/
def forward (tree : BusTree ι) (w : BusWorld ι) (r : ι) (m : Emission ι) : BusWorld ι :=
  (w.prune m.bus).setEmission r <|
    (tree.parent m.bus).map fun (p, runId) =>
      { bus := p, event := .child runId m.event, waiting := none }

/-- A task that gives up its emission no longer waits for room. -/
def giveUp (w : BusWorld ι) (r : ι) : BusWorld ι :=
  { w.setEmission r none with
    channels := fun c => (w.channels c).leave r
    abandoned := Function.update w.abandoned r (w.abandoned r ++ [(w.emitted r).length - 1]) }

def openChannel (w : BusWorld ι) (c : Nat) (b : ι) : BusWorld ι :=
  w.setChannel c
    { BusChannel.unused with subscription := if w.closed b then .refused b else .checked b }

def registerChannel (w : BusWorld ι) (c : Nat) (b : ι) : BusWorld ι :=
  (w.setObservers b (w.observers b ++ [c])).setChannel c
    { w.channels c with
      subscription := .registered b
      since := fun r => (w.emitted r).length }

def receiveFrom (w : BusWorld ι) (c : Nat) (x : BusEntry ι) (rest : List (BusEntry ι)) :
    BusWorld ι :=
  w.setChannel c
    { w.channels c with queue := rest, received := (w.channels c).received ++ [x] }

/-- Nobody waits for a receiver that is gone. -/
def dropReceiver (w : BusWorld ι) (c : Nat) : BusWorld ι :=
  w.setChannel c { w.channels c with dropped := true, waiters := [] }

def markClosed (w : BusWorld ι) (b : ι) : BusWorld ι :=
  { w with closed := Function.update w.closed b true }

/-- A step of a world, where it is possible. A send that finds no room joins the tasks that wait
for it, and room is given to them in their order. -/
def act (tree : BusTree ι) (w : BusWorld ι) : BusAction ι → Option (BusWorld ι)
  | .emit r event => if (w.emission r).isNone then some (w.beginEmit r event) else none
  | .copy r =>
    match w.emission r with
    | some ⟨b, event, none⟩ => some (w.copyObservers r ⟨b, event, none⟩)
    | _ => none
  | .send r =>
    match w.emission r with
    | some ⟨b, event, some (c :: rest)⟩ =>
      let m : Emission ι := ⟨b, event, some (c :: rest)⟩
      if (w.channels c).dropped then some (w.advance r m rest)
      else if (w.channels c).ahead r < channelCapacity then
        some ((w.deliver r m c).advance r m rest)
      else if r ∈ (w.channels c).waiters then none
      else some (w.joinChannel r c)
    | _ => none
  | .finish r =>
    match w.emission r with
    | some ⟨b, event, some []⟩ => some (w.forward tree r ⟨b, event, some []⟩)
    | _ => none
  | .abandon r => if (w.emission r).isSome then some (w.giveUp r) else none
  | .subscribe c b =>
    if (w.channels c).subscription = .unused then some (w.openChannel c b) else none
  | .register c =>
    match (w.channels c).subscription with
    | .checked b => some (w.registerChannel c b)
    | _ => none
  | .receive c =>
    if (w.channels c).dropped then none
    else match (w.channels c).queue with
      | x :: rest => some (w.receiveFrom c x rest)
      | [] => none
  | .drop c => some (w.dropReceiver c)
  | .close b => some (w.markClosed b)
  | .clear b => if w.closed b then some (w.setObservers b []) else none

def acts (tree : BusTree ι) : List (BusAction ι) → BusWorld ι → Option (BusWorld ι)
  | [], w => some w
  | action :: rest, w => (w.act tree action).bind (acts tree rest)

/-- What a step can do. -/
inductive Step (tree : BusTree ι) (w : BusWorld ι) : BusWorld ι → Prop
  | emit {r : ι} (event : RunEvent) (idle : w.emission r = none) :
      Step tree w (w.beginEmit r event)
  | copy {r : ι} {m : Emission ι} (hm : w.emission r = some m) (hnone : m.waiting = none) :
      Step tree w (w.copyObservers r m)
  | skip {r : ι} {m : Emission ι} {c : Nat} {rest : List Nat} (hm : w.emission r = some m)
      (hwaiting : m.waiting = some (c :: rest)) (hdropped : (w.channels c).dropped = true) :
      Step tree w (w.advance r m rest)
  | send {r : ι} {m : Emission ι} {c : Nat} {rest : List Nat} (hm : w.emission r = some m)
      (hwaiting : m.waiting = some (c :: rest)) (hopen : (w.channels c).dropped = false)
      (hroom : (w.channels c).ahead r < channelCapacity) :
      Step tree w ((w.deliver r m c).advance r m rest)
  | join {r : ι} {m : Emission ι} {c : Nat} {rest : List Nat} (hm : w.emission r = some m)
      (hwaiting : m.waiting = some (c :: rest)) (hnew : r ∉ (w.channels c).waiters) :
      Step tree w (w.joinChannel r c)
  | forward {r : ι} {m : Emission ι} (hm : w.emission r = some m) (hdone : m.waiting = some []) :
      Step tree w (w.forward tree r m)
  | abandon {r : ι} {m : Emission ι} (hm : w.emission r = some m) : Step tree w (w.giveUp r)
  | subscribe {c : Nat} (b : ι) (hunused : (w.channels c).subscription = .unused) :
      Step tree w (w.openChannel c b)
  | register {c : Nat} {b : ι} (hchecked : (w.channels c).subscription = .checked b) :
      Step tree w (w.registerChannel c b)
  | receive {c : Nat} {x : BusEntry ι} {rest : List (BusEntry ι)}
      (hqueue : (w.channels c).queue = x :: rest) : Step tree w (w.receiveFrom c x rest)
  | drop (c : Nat) : Step tree w (w.dropReceiver c)
  | close (b : ι) : Step tree w (w.markClosed b)
  | clear {b : ι} (hclosed : w.closed b = true) : Step tree w (w.setObservers b [])

theorem step_of_act {tree : BusTree ι} {w w' : BusWorld ι} {action : BusAction ι}
    (h : w.act tree action = some w') : Step tree w w' := by
  cases action with
  | emit r event =>
    simp only [act, Option.isNone_iff_eq_none, Option.ite_none_right_eq_some,
      Option.some.injEq] at h
    obtain ⟨idle, rfl⟩ := h
    exact .emit event idle
  | copy r =>
    simp only [act] at h
    split at h
    · next b event hm =>
      obtain rfl := Option.some.inj h
      exact .copy hm rfl
    · cases h
  | send r =>
    simp only [act] at h
    split at h
    · next b event c rest hm =>
      by_cases hd : (w.channels c).dropped = true
      · rw [if_pos hd] at h
        obtain rfl := Option.some.inj h
        exact .skip hm rfl hd
      rw [if_neg hd] at h
      by_cases hroom : (w.channels c).ahead r < channelCapacity
      · rw [if_pos hroom] at h
        obtain rfl := Option.some.inj h
        exact .send hm rfl (Bool.eq_false_iff.mpr hd) hroom
      rw [if_neg hroom] at h
      by_cases hwaits : r ∈ (w.channels c).waiters
      · rw [if_pos hwaits] at h
        cases h
      · rw [if_neg hwaits] at h
        obtain rfl := Option.some.inj h
        exact .join hm rfl hwaits
    · cases h
  | finish r =>
    simp only [act] at h
    split at h
    · next b event hm =>
      obtain rfl := Option.some.inj h
      exact .forward hm rfl
    · cases h
  | abandon r =>
    simp only [act, Option.ite_none_right_eq_some, Option.some.injEq] at h
    obtain ⟨hsome, rfl⟩ := h
    obtain ⟨m, hm⟩ := Option.isSome_iff_exists.mp hsome
    exact .abandon hm
  | subscribe c b =>
    simp only [act, Option.ite_none_right_eq_some, Option.some.injEq] at h
    obtain ⟨hunused, rfl⟩ := h
    exact .subscribe b hunused
  | register c =>
    simp only [act] at h
    split at h
    · next b hchecked =>
      obtain rfl := Option.some.inj h
      exact .register hchecked
    · cases h
  | receive c =>
    simp only [act, Option.ite_none_left_eq_some] at h
    obtain ⟨_, h⟩ := h
    split at h
    · next x rest hqueue =>
      obtain rfl := Option.some.inj h
      exact .receive hqueue
    · cases h
  | drop c =>
    obtain rfl := Option.some.inj h
    exact .drop c
  | close b =>
    obtain rfl := Option.some.inj h
    exact .close b
  | clear b =>
    simp only [act, Option.ite_none_right_eq_some, Option.some.injEq] at h
    obtain ⟨hclosed, rfl⟩ := h
    exact .clear hclosed

/-- What holds of the empty world and survives every step holds after any actions. -/
theorem acts_invariant {tree : BusTree ι} {I : BusWorld ι → Prop}
    (hstep : ∀ w w', I w → Step tree w w' → I w') {actions : List (BusAction ι)}
    {w w' : BusWorld ι} (h : acts tree actions w = some w') (hw : I w) : I w' := by
  induction actions generalizing w with
  | nil =>
    obtain rfl := Option.some.inj h
    exact hw
  | cons action rest ih =>
    obtain ⟨u, hact, hrest⟩ := Option.bind_eq_some_iff.mp h
    exact ih hrest (hstep _ _ hw (step_of_act hact))

end BusWorld

end Agentive
