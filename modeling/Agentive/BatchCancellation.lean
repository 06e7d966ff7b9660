import Agentive.JoinPolling
import Agentive.ToolEffect

/-! Cancellation of a running tool batch. Ordinary tools and delegations react to the same token
in different ways: a tool fails when it is polled next, and a delegation forwards the
cancellation to its child run when it is polled next. -/

namespace Agentive

open JoinPolling

/-- A call of a batch. `refused` answers without running anything; a delegation that has been
polled has a child run, with a token of its own. -/
inductive Member
  | answered
  | refused
  | tool
  | delegation
  | child (cancelled finished : Bool)
deriving DecidableEq

/-- What a call does when it is polled and its own future decides. -/
inductive Answer
  | pending
  | ready
  | invalid (message : String)
  | deadline
deriving DecidableEq

/-- One poll of a call, under the parent's token. -/
def Member.poll (cancelled : Bool) (answer : Answer) : Member → Except RunError Member
  | .answered | .refused => .ok .answered
  | .tool =>
    if cancelled then .error .cancelled
    else match answer with
      | .ready => .ok .answered
      | .deadline => .error .cancelled
      | .pending | .invalid _ => .ok .tool
  | .delegation =>
    match answer with
    | .invalid message => .error (.providerProtocol message)
    | .ready => .ok .answered
    | .pending | .deadline => .ok (.child cancelled false)
  | .child _ true => .ok .answered
  | .child forwarded false => .ok (.child (forwarded || cancelled) false)

/-- The child run ends. -/
def Member.finish : Member → Member
  | .child cancelled _ => .child cancelled true
  | m => m

structure Batch where
  settled : List Member
  join : Join Member RunError
  later : List (List Member)
  cancelled : Bool
  done : Bool

/-- What happens next: a poll, the next wake-up of the join, the end of a child run, or the
cancellation of the parent. -/
inductive BatchEvent
  | poll (answer : Answer)
  | wake
  | childFinishes (i : Nat)
  | cancel

namespace Batch

def start (maxParallelToolCalls : Nat) (calls : List Member) : Batch :=
  { settled := [], join := .start [], later := chunks (max maxParallelToolCalls 1) calls
    cancelled := false, done := false }

/-- The polled tool finds its deadline passed, and cancels the token of the run. -/
def deadlineFires (b : Batch) (answer : Answer) : Bool :=
  match b.join.failure, b.join.waiting, answer with
  | none, .tool :: _, .deadline => true
  | _, _, _ => false

/-- The join is polled again. If all members have answered, the next chunk follows. -/
def wake (b : Batch) : Batch :=
  match b.join.failure, b.join.waiting with
  | none, [] =>
    if b.join.polled.all (· = .answered) then
      match b.later with
      | [] => { b with done := true }
      | chunk :: later =>
        { b with settled := b.settled ++ b.join.polled, join := .start chunk, later }
    else { b with join := b.join.wake }
  | _, _ => b

def step (b : Batch) : BatchEvent → Batch
  | .poll answer =>
    { b with
      join := b.join.pollNext (Member.poll b.cancelled answer)
      cancelled := b.cancelled || b.deadlineFires answer }
  | .wake => b.wake
  | .childFinishes i => { b with join := b.join.modify i Member.finish }
  | .cancel => { b with cancelled := true }

def run (b : Batch) (events : List BatchEvent) : Batch := events.foldl step b

/-- The batch has an outcome after which the parent run ends as cancelled: the cancellation of a
tool, or all outputs. -/
def reported (b : Batch) : Prop := b.join.failure = some .cancelled ∨ b.done = true

/-- A started child run that has not finished and whose token is not cancelled. -/
abbrev uncovered : Member := .child false false

def childrenStopped (b : Batch) : Prop := ∀ m ∈ b.settled ++ b.join.order, m ≠ uncovered

/-- No unfinished tool is polled before an unfinished child run. -/
def Covered (b : Batch) : Prop :=
  b.join.order.Pairwise fun a m => a = .tool → m ≠ uncovered

/-- The members of settled chunks have answered, and chunks to come have no child runs. -/
structure Sound (b : Batch) : Prop where
  settled : ∀ m ∈ b.settled, m = .answered
  fresh : ∀ chunk ∈ b.later, uncovered ∉ chunk
  done : b.done = true → b.later = [] ∧ ∀ m ∈ b.join.order, m = .answered

theorem poll_ne_uncovered {answer : Answer} {m m' : Member}
    (h : m.poll true answer = .ok m') : m' ≠ uncovered := by
  rintro rfl
  cases m with
  | child forwarded finished => cases forwarded <;> cases finished <;> simp [Member.poll] at h
  | delegation => cases answer <;> simp [Member.poll] at h
  | _ => simp [Member.poll] at h

theorem poll_eq_cancelled {cancelled : Bool} {answer : Answer} {m : Member}
    (h : m.poll cancelled answer = .error .cancelled) : m = .tool := by
  cases m with
  | tool => rfl
  | child forwarded finished => cases finished <;> simp [Member.poll] at h
  | delegation => cases answer <;> simp [Member.poll] at h
  | _ => simp [Member.poll] at h

theorem finish_eq_tool {m : Member} : m.finish = .tool ↔ m = .tool := by
  cases m <;> simp [Member.finish]

theorem finish_ne_uncovered {m : Member} : m.finish ≠ uncovered := by
  cases m <;> simp [Member.finish]

theorem Sound.start (maxParallelToolCalls : Nat) {calls : List Member}
    (h : uncovered ∉ calls) : Sound (start maxParallelToolCalls calls) := by
  refine ⟨by simp [Batch.start], fun chunk hc hm => h ?_, by simp [Batch.start]⟩
  have hflat : (Batch.start maxParallelToolCalls calls).later.flatten = calls :=
    flatten_chunksFrom _ [] calls
  rw [← hflat]
  exact List.mem_flatten_of_mem hc hm

theorem Sound.poll {b : Batch} (h : Sound b) (answer : Answer) : Sound (b.step (.poll answer)) := by
  refine ⟨h.settled, h.fresh, fun hd => ⟨(h.done hd).1, fun m hm => ?_⟩⟩
  have hall := (h.done hd).2
  rcases b.join.pollNext_cases (Member.poll b.cancelled answer) with
    he | ⟨_, first, rest, ho, ⟨e, _, _, hsame⟩ | ⟨m', hp, _, hnew⟩⟩
  · exact hall m (he ▸ hm)
  · exact hall m (hsame ▸ hm)
  · rw [ho] at hall
    have hm : m ∈ rest ++ [m'] := hnew ▸ hm
    rcases List.mem_append.mp hm with hm | hm
    · exact hall m (List.mem_cons_of_mem _ hm)
    · obtain rfl : first = .answered := hall first (by simp)
      obtain rfl := List.mem_singleton.mp hm
      exact (Except.ok.inj hp).symm

theorem Sound.wake {b : Batch} (h : Sound b) : Sound b.wake := by
  unfold Batch.wake
  split
  · next hf hw =>
    split
    · next hall =>
      have hanswered : ∀ m ∈ b.join.polled, m = .answered := by simpa using hall
      split
      · next hlater =>
        refine ⟨h.settled, h.fresh, fun _ => ⟨hlater, fun m hm => hanswered m ?_⟩⟩
        simpa [Join.order, hw] using hm
      · next chunk later hlater =>
        refine ⟨fun m hm => ?_, fun c hc => h.fresh c (by simp [hlater, hc]), fun hd => ?_⟩
        · rcases List.mem_append.mp hm with hm | hm
          · exact h.settled m hm
          · exact hanswered m hm
        · simp [(h.done hd).1] at hlater
    · exact ⟨h.settled, h.fresh, fun hd =>
        ⟨(h.done hd).1, fun m hm => (h.done hd).2 m (by simpa using hm)⟩⟩
  · exact h

theorem Sound.step {b : Batch} (h : Sound b) (event : BatchEvent) : Sound (b.step event) := by
  cases event with
  | poll answer => exact h.poll answer
  | wake => exact h.wake
  | childFinishes i =>
    refine ⟨h.settled, h.fresh, fun hd => ⟨(h.done hd).1, fun m hm => ?_⟩⟩
    have hall := (h.done hd).2
    have hm : m ∈ b.join.order.modify i Member.finish := Join.order_modify i _ b.join ▸ hm
    rcases mem_or_exists_of_mem_modify hm with hm | ⟨m', hm', rfl⟩
    · exact hall m hm
    · rw [hall m' hm']
      rfl
  | cancel => exact ⟨h.settled, h.fresh, h.done⟩

theorem Sound.run {b : Batch} (h : Sound b) (events : List BatchEvent) : Sound (b.run events) := by
  induction events generalizing b with
  | nil => exact h
  | cons event events ih => exact ih (h.step event)

/-- After the cancellation: the polled child runs have it, and a failure leaves none behind. -/
structure Covering (b : Batch) : Prop where
  cancelled : b.cancelled = true
  covered : Covered b
  failed : b.join.failure = some .cancelled → ∀ m ∈ b.join.order, m ≠ uncovered

theorem Covering.poll {b : Batch} (h : Covering b) (answer : Answer) :
    Covering (b.step (.poll answer)) := by
  have hc := h.cancelled
  refine ⟨by simp [Batch.step, hc], ?_, ?_⟩
  · refine Join.pairwise_pollNext h.covered fun m m' hp a _ => ?_
    rw [hc] at hp
    exact poll_ne_uncovered hp
  · intro hfail m hm
    rcases b.join.pollNext_cases (Member.poll b.cancelled answer) with
      he | ⟨_, first, rest, ho, ⟨e, hp, hset, hsame⟩ | ⟨m', _, hnone, _⟩⟩
    · simp only [Batch.step, he] at hfail hm
      exact h.failed hfail m hm
    · simp only [Batch.step, hset, Option.some.injEq] at hfail
      obtain rfl := poll_eq_cancelled (hfail ▸ hp)
      simp only [Batch.step, hsame, ho] at hm
      have hcov := h.covered
      rw [Covered, ho, List.pairwise_cons] at hcov
      rcases List.mem_cons.mp hm with rfl | hm
      · simp
      · exact hcov.1 m hm rfl
    · simp [Batch.step, hnone] at hfail

theorem Covering.wake {b : Batch} (h : Covering b) (hs : Sound b) : Covering b.wake := by
  unfold Batch.wake
  split
  · next hf hw =>
    split
    · split
      · exact ⟨h.cancelled, h.covered, h.failed⟩
      · next chunk later hlater =>
        have hfresh := hs.fresh chunk (by simp [hlater])
        refine ⟨h.cancelled, ?_, by simp [Join.start]⟩
        rw [Covered, Join.order_start]
        exact List.pairwise_of_forall_mem_list fun _ _ m hm _ he => hfresh (he ▸ hm)
    · refine ⟨h.cancelled, ?_, ?_⟩
      · rw [Covered, Join.order_wake]
        exact h.covered
      · rw [Join.order_wake]
        exact h.failed
  · exact h

theorem Covering.step {b : Batch} (h : Covering b) (hs : Sound b) (event : BatchEvent) :
    Covering (b.step event) := by
  cases event with
  | poll answer => exact h.poll answer
  | wake => exact h.wake hs
  | childFinishes i =>
    refine ⟨h.cancelled, ?_, ?_⟩
    · rw [Covered, Batch.step, Join.order_modify]
      refine pairwise_modify (fun a m hr ha => hr (finish_eq_tool.mp ha))
        (fun _ _ _ _ => finish_ne_uncovered) h.covered i
    · intro hf m hm
      rw [Batch.step, Join.order_modify] at hm
      rcases mem_or_exists_of_mem_modify hm with hm | ⟨m', _, rfl⟩
      · exact h.failed (by simpa [Batch.step] using hf) m hm
      · exact finish_ne_uncovered
  | cancel => exact ⟨rfl, h.covered, h.failed⟩

theorem Covering.run {b : Batch} (h : Covering b) (hs : Sound b) (events : List BatchEvent) :
    Covering (b.run events) := by
  induction events generalizing b with
  | nil => exact h
  | cons event events ih => exact ih (h.step hs event) (hs.step event)

theorem Covering.childrenStopped {b : Batch} (h : Covering b) (hs : Sound b)
    (hr : b.reported) : b.childrenStopped := by
  intro m hm
  rcases List.mem_append.mp hm with hm | hm
  · rw [hs.settled m hm]
    simp
  · rcases hr with hf | hd
    · exact h.failed hf m hm
    · rw [(hs.done hd).2 m hm]
      simp

/-- A join with an unfinished tool can be brought to its next poll. -/
theorem exists_run_waiting {b : Batch} (hf : b.join.failure = none)
    (ht : .tool ∈ b.join.order) :
    ∃ events, (b.run events).cancelled = b.cancelled ∧ (b.run events).join.failure = none ∧
      (b.run events).join.order = b.join.order ∧ (b.run events).join.waiting ≠ [] := by
  cases hw : b.join.waiting with
  | cons m rest => exact ⟨[], rfl, hf, rfl, by simp [run, hw]⟩
  | nil =>
    have hpolled : .tool ∈ b.join.polled := by simpa [Join.order, hw] using ht
    have hall : b.join.polled.all (· = .answered) = false :=
      List.all_eq_false.mpr ⟨_, hpolled, by simp⟩
    have hstep : b.run [.wake] = { b with join := b.join.wake } := by
      simp [run, Batch.step, Batch.wake, hw, hf, hall]
    refine ⟨[.wake], ?_⟩
    rw [hstep]
    exact ⟨rfl, hf, Join.order_wake b.join, List.ne_nil_of_mem ht⟩

theorem run_append (b : Batch) (events events' : List BatchEvent) :
    b.run (events ++ events') = (b.run events).run events' := List.foldl_append

/-- A cancelled join without a failure goes round to the first unfinished tool and fails there.
What follows the tool is not polled again. -/
theorem exists_run_failing {b : Batch} {front rest : List Member} (hc : b.cancelled = true)
    (hf : b.join.failure = none) (ho : b.join.order = front ++ .tool :: rest)
    (hfront : .tool ∉ front) :
    ∃ events, (b.run events).join.failure = some .cancelled ∧
      ∀ m ∈ rest, m ∈ (b.run events).join.order := by
  induction front generalizing b rest with
  | nil =>
    obtain ⟨events, hc', hf', ho', hw⟩ := exists_run_waiting hf (by simp [ho])
    obtain ⟨m, waiting, hw⟩ := List.exists_cons_of_ne_nil hw
    have hhead : m = .tool := by
      rw [ho, Join.order, hw] at ho'
      exact (List.cons.inj ho').1
    have hp : Member.poll (b.run events).cancelled .pending m = .error .cancelled := by
      rw [hc', hc, hhead]
      rfl
    have hpoll := Join.pollNext_error hf' hw hp
    have hjoin : (b.run (events ++ [.poll .pending])).join =
        { (b.run events).join with failure := some .cancelled } := by
      rw [run_append]
      exact hpoll
    refine ⟨events ++ [.poll .pending], by rw [hjoin], fun m hm => ?_⟩
    rw [hjoin]
    show m ∈ (b.run events).join.order
    simp [ho', ho, hm]
  | cons first front ih =>
    obtain ⟨hne, hfront⟩ := not_or.mp (List.mem_cons.not.mp hfront)
    obtain ⟨events, hc', hf', ho', hw⟩ := exists_run_waiting hf (by simp [ho])
    obtain ⟨m, waiting, hw⟩ := List.exists_cons_of_ne_nil hw
    have hhead : m = first ∧ waiting ++ (b.run events).join.polled = front ++ .tool :: rest := by
      rw [ho, Join.order, hw] at ho'
      exact List.cons.inj ho'
    obtain ⟨m', hp⟩ : ∃ m', Member.poll (b.run events).cancelled .pending m = .ok m' := by
      rw [hhead.1]
      cases first with
      | tool => exact absurd rfl hne
      | child forwarded finished => cases finished <;> exact ⟨_, rfl⟩
      | _ => exact ⟨_, rfl⟩
    have hpoll := Join.pollNext_ok hf' hw hp
    have horder : ((b.run events).step (.poll .pending)).join.order =
        front ++ .tool :: (rest ++ [m']) := by
      simp [Batch.step, hpoll, Join.order, ← List.append_assoc waiting, hhead.2]
    obtain ⟨more, hfail, hrest⟩ := ih (by simp [Batch.step, hc', hc]) (by simp [Batch.step, hpoll])
      horder hfront
    refine ⟨events ++ .poll .pending :: more, ?_⟩
    rw [run_append]
    exact ⟨hfail, fun m hm => hrest m (by simp [hm])⟩

/-- If some unfinished tool is polled before an unfinished child run, so is the first one. -/
theorem exists_first_tool {order : List Member}
    (h : ¬ order.Pairwise fun a m => a = .tool → m ≠ uncovered) :
    ∃ front rest, order = front ++ .tool :: rest ∧ .tool ∉ front ∧ uncovered ∈ rest := by
  induction order with
  | nil => simp at h
  | cons m order ih =>
    by_cases hm : m = .tool
    · subst hm
      refine ⟨[], order, rfl, by simp, ?_⟩
      by_contra hno
      refine h (List.pairwise_cons.mpr ⟨fun a ha _ he => hno (he ▸ ha), ?_⟩)
      exact List.pairwise_of_forall_mem_list fun _ _ a ha _ he => hno (he ▸ ha)
    · have hrest : ¬ order.Pairwise fun a m => a = .tool → m ≠ uncovered := fun hp =>
        h (List.pairwise_cons.mpr ⟨fun _ _ he => absurd he hm, hp⟩)
      obtain ⟨front, rest, rfl, hfront, hmem⟩ := ih hrest
      exact ⟨m :: front, rest, rfl, by simp [hfront, Ne.symm hm], hmem⟩

/-- A cancellation of the run reaches every child run of the batch, in whatever order the polls,
the wake-ups and the ends of child runs follow, exactly when at that moment no unfinished tool
is polled before an unfinished child run. -/
theorem cancellation_reaches_children_iff {maxParallelToolCalls : Nat} {calls : List Member}
    {events : List BatchEvent} (hcalls : uncovered ∉ calls)
    (hrunning : ((start maxParallelToolCalls calls).run events).join.failure = none) :
    (∀ later, (((start maxParallelToolCalls calls).run events).run (.cancel :: later)).reported →
      (((start maxParallelToolCalls calls).run events).run (.cancel :: later)).childrenStopped) ↔
    Covered ((start maxParallelToolCalls calls).run events) := by
  have hs := (Sound.start maxParallelToolCalls hcalls).run events
  generalize (start maxParallelToolCalls calls).run events = b at hs hrunning
  constructor
  · intro hall
    by_contra hno
    obtain ⟨front, rest, ho, hfront, hmem⟩ := exists_first_tool hno
    obtain ⟨later, hfail, hrest⟩ := exists_run_failing (b := b.step .cancel) rfl hrunning ho hfront
    have hstop := hall later (.inl hfail)
    exact hstop uncovered (List.mem_append_right _ (hrest _ hmem)) rfl
  · intro hcov later hr
    have hcovering : Covering (b.step .cancel) :=
      ⟨rfl, hcov, fun hf => by simp [Batch.step, hrunning] at hf⟩
    have hsound : Sound (b.step .cancel) := hs.step .cancel
    exact (hcovering.run hsound later).childrenStopped (hsound.run later) hr

theorem cancellation_reaches_children_sample :
    (((start 4 [.delegation, .tool]).run [.wake, .poll .pending, .poll .ready]).run
      [.cancel, .wake, .poll .pending, .poll .pending, .childFinishes 0, .wake, .poll .pending,
        .poll .pending, .wake]).childrenStopped :=
  (cancellation_reaches_children_iff (by decide) (by decide)).mpr (by unfold Covered; decide)
    [.wake, .poll .pending, .poll .pending, .childFinishes 0, .wake, .poll .pending,
      .poll .pending, .wake] (.inr (by decide))

/-- An ordinary tool before a delegation: the cancellation fails the tool, and the child run is
left behind. -/
theorem cancellation_leaves_child :
    ¬ ∀ (maxParallelToolCalls : Nat) (calls : List Member) (events later : List BatchEvent),
      uncovered ∉ calls →
      ((start maxParallelToolCalls calls).run events).join.failure = none →
      (((start maxParallelToolCalls calls).run events).run (.cancel :: later)).reported →
      (((start maxParallelToolCalls calls).run events).run (.cancel :: later)).childrenStopped := by
  intro claim
  have hstop := claim 4 [.tool, .delegation] [.wake, .poll .pending, .poll .pending]
    [.wake, .poll .pending] (by decide) (by decide) (.inl (by decide))
  exact hstop uncovered (by decide) rfl

end Batch

end Agentive
