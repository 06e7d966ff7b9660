import Agentive.DriverAgreement

/-! What an observer of a chain sees: the snapshots that its executions publish, in their order.
The cursor of a snapshot counts the committed effects, and nothing else that changes a state. -/

namespace Agentive

open AgentRunState DriverLoop

/-- A published snapshot, with the number of effects that the chain has committed by then. The
snapshot of the state that the workflow returns is marked. -/
structure Publication where
  snapshot : TemporalRunSnapshot
  commits : Nat
  returned : Bool
deriving DecidableEq

namespace ContinuationChain

def commits (c : ContinuationChain) : Nat :=
  (c.earlier ++ [c.execution.committed]).flatten.length

/-- What the last call of `update_snapshot` has published. -/
def published (c : ContinuationChain) (returned : Bool) : List Publication :=
  c.execution.snapshot.toList.map fun snapshot => { snapshot, commits := c.commits, returned }

variable [JsonText] [RequestText]

/-- A turn publishes once where it goes on, after a commit or at the start of an execution, and once
where the workflow returns, and never where it fails. -/
def publications (activities : Activities) (patched : Bool) :
    Nat → ContinuationChain → List Publication
  | 0, _ => []
  | fuel + 1, c =>
    match c.turn activities patched with
    | .next c => c.published false ++ publications activities patched fuel c
    | .blocked _ => []
    | .ended c (.ok _) => c.published true
    | .ended _ (.error _) => []

end ContinuationChain

/-- The publications of `fuel` iterations of a chain. -/
def publications [JsonText] [RequestText] (activities : Activities) (patched : Bool) (fuel : Nat)
    (input : TemporalWorkflowInput) : List Publication :=
  match beginExecution patched input [] with
  | .error _ => []
  | .ok l =>
    ContinuationChain.published ⟨l, []⟩ false ++
      ContinuationChain.publications activities patched fuel ⟨l, []⟩

/-- The runtime reports the cancellation of an activity. -/
def Activities.cancels (activities : Activities) : Prop :=
  ∃ i input options, activities i input options = .error .cancelled

namespace ExecutionLoop

variable [JsonText] [RequestText] {activities : Activities} {l l' : ExecutionLoop}
  {effect : AgentRunEffect}

theorem turn_publishes (h : l.turn activities = .next l') :
    l'.snapshot = some ⟨l'.input.state, l'.input.completedEffects⟩ ∧
      l'.input.completedEffects = l.input.completedEffects.saturatingAdd 1 ∧
      l'.committed.length = l.committed.length + 1 ∧
      l'.input.state.finishIfExhausted.1 = l'.input.state := by
  obtain ⟨effect, _, _, hnext⟩ := iterate_next h
  rcases perform_cases activities l effect with
    ⟨_, _, hperform, _⟩ | ⟨_, _, _, _, _, hperform, _⟩ |
      ⟨_, _, _, _, hperform, hinput, hsnapshot, hcommitted⟩ <;>
    rw [hperform] at hnext <;> cases hnext
  refine ⟨hsnapshot, by rw [hinput], ?_, by rw [hinput, finishIfExhausted_idem]⟩
  rw [hcommitted, List.length_append, List.length_singleton]

theorem turn_returned {state : AgentRunState}
    (h : l.turn activities = .ended l' (.returned state)) :
    l'.snapshot = some ⟨state, l.input.completedEffects⟩ ∧ l'.committed = l.committed ∧
      (state = l.input.state.finishIfExhausted.1 ∨
        activities.cancels ∧ state = l.input.state.cancel) := by
  rcases iterate_cases full activities l with
    ⟨hl, _⟩ | ⟨effect, _, _, ⟨_, hl⟩ | ⟨_, hl⟩⟩ <;> rw [turn, hl] at h
  · simp only [leave, setState, finishIfExhausted_idem] at h
    cases h
    exact ⟨rfl, rfl, .inl rfl⟩
  · cases h
  · rcases perform_cases activities l effect with
      ⟨_, _, hperform, _⟩ | ⟨_, _, _, _, hcancelled, hperform, hsnapshot, hcommitted⟩ |
        ⟨_, _, _, _, hperform, _⟩ <;> rw [hperform] at h <;> cases h
    exact ⟨hsnapshot, hcommitted, .inr ⟨⟨_, _, _, hcancelled⟩, rfl⟩⟩

theorem turn_continued {next : TemporalWorkflowInput}
    (h : l.turn activities = .ended l' (.continuedAsNew next)) :
    next = { l.input with effectsInExecution := 0 } ∧ l' = l := by
  rcases iterate_cases full activities l with
    ⟨hl, _⟩ | ⟨effect, _, _, ⟨_, hl⟩ | ⟨_, hl⟩⟩ <;> rw [turn, hl] at h
  · cases h
  · cases h
    exact ⟨rfl, rfl⟩
  · rcases perform_cases activities l effect with
      ⟨_, _, hperform, _⟩ | ⟨_, _, _, _, _, hperform, _⟩ | ⟨_, _, _, _, hperform, _⟩ <;>
      rw [hperform] at h <;> cases h

end ExecutionLoop

theorem beginExecution_ok {patched : Bool} {input : TemporalWorkflowInput}
    {selected : List AgentRunEffect} {l : ExecutionLoop}
    (h : beginExecution patched input selected = .ok l) :
    l = ExecutionLoop.updateSnapshot { input, snapshot := none, selected, committed := [] } := by
  unfold beginExecution at h
  split at h
  · cases h
  · split at h
    · cases h
    · exact (Except.ok.inj h).symm

namespace ContinuationChain

/-- The chain that started with this input has just published its state. Until its first commit this
is the state that it started with, and since then one that is not left exhausted. -/
structure Fresh (start : TemporalWorkflowInput) (c : ContinuationChain) : Prop where
  snapshot : c.execution.snapshot =
    some ⟨c.execution.input.state, c.execution.input.completedEffects⟩
  counter : c.execution.input.completedEffects.val =
    min (start.completedEffects.val + c.commits) 18446744073709551615
  settled : c.commits = 0 ∧ c.execution.input.state = start.state ∨
    c.execution.input.state.finishIfExhausted.1 = c.execution.input.state

variable {start : TemporalWorkflowInput} {c c' : ContinuationChain}

theorem Fresh.published (h : c.Fresh start) (returned : Bool) :
    c.published returned = [⟨⟨c.execution.input.state, c.execution.input.completedEffects⟩,
      c.commits, returned⟩] := by
  simp [ContinuationChain.published, h.snapshot]

theorem commits_eq (c : ContinuationChain) :
    c.commits = c.earlier.flatten.length + c.execution.committed.length := by
  simp [commits]

variable [JsonText] [RequestText] {activities : Activities} {patched : Bool}

/-- The turns of a chain: an iteration of its execution, or the start of the next one. -/
theorem turn_next (h : c.turn activities patched = .next c') :
    (∃ l, c.execution.turn activities = .next l ∧ c' = { c with execution := l }) ∨
      c'.execution.snapshot = some ⟨c.execution.input.state, c.execution.input.completedEffects⟩ ∧
        c'.execution.input = { c.execution.input with effectsInExecution := 0 } ∧
        c'.commits = c.commits := by
  simp only [turn] at h
  cases ht : c.execution.turn activities with
  | next l =>
    simp only [ht, Turn.next.injEq] at h
    exact .inl ⟨l, rfl, h.symm⟩
  | blocked l => simp [ht] at h
  | ended l e =>
    cases e with
    | returned state => simp [ht] at h
    | failed failure => simp [ht] at h
    | continuedAsNew next =>
      obtain ⟨rfl, rfl⟩ := ExecutionLoop.turn_continued ht
      simp only [ht] at h
      cases hb : beginExecution patched { c.execution.input with effectsInExecution := 0 }
          c.execution.selected with
      | error failure => simp [hb] at h
      | ok l =>
        obtain rfl := beginExecution_ok hb
        simp only [hb, Turn.next.injEq] at h
        obtain rfl := h
        exact .inr ⟨rfl, rfl, by simp [commits, ExecutionLoop.updateSnapshot]⟩

theorem turn_ok {state : AgentRunState} (h : c.turn activities patched = .ended c' (.ok state)) :
    ∃ l, c.execution.turn activities = .ended l (.returned state) ∧
      c' = { c with execution := l } := by
  simp only [turn] at h
  cases ht : c.execution.turn activities with
  | next l => simp [ht] at h
  | blocked l => simp [ht] at h
  | ended l e =>
    cases e with
    | returned state =>
      simp only [ht, Turn.ended.injEq, Except.ok.injEq] at h
      obtain ⟨rfl, rfl⟩ := h
      exact ⟨l, rfl, rfl⟩
    | failed failure => simp [ht] at h
    | continuedAsNew next =>
      simp only [ht] at h
      cases hb : beginExecution patched next l.selected <;> simp [hb] at h

/-- A turn that goes on publishes the state as it was, or the state after one more commit. -/
theorem Fresh.next (h : c.Fresh start) (hn : c.turn activities patched = .next c') :
    c'.Fresh start ∧
      (c'.commits = c.commits ∧ c'.execution.input.state = c.execution.input.state ∨
        c'.commits = c.commits + 1) := by
  rcases turn_next hn with ⟨l, hl, rfl⟩ | ⟨hsnapshot, hinput, hcommits⟩
  · obtain ⟨hsnapshot, hcounter, hcommitted, hsettled⟩ := ExecutionLoop.turn_publishes hl
    have hcommits : commits { c with execution := l } = c.commits + 1 := by
      rw [commits_eq, commits_eq, hcommitted, Nat.add_assoc]
    refine ⟨⟨hsnapshot, ?_, .inr hsettled⟩, .inr hcommits⟩
    show l.input.completedEffects.val = _
    rw [hcounter, hcommits, Capped.val_saturatingAdd, h.counter, Capped.val_one]
    omega
  · have hstate : c'.execution.input.state = c.execution.input.state := by rw [hinput]
    have hcounter : c'.execution.input.completedEffects = c.execution.input.completedEffects := by
      rw [hinput]
    refine ⟨⟨?_, ?_, ?_⟩, .inl ⟨hcommits, hstate⟩⟩
    · rw [hsnapshot, hstate, hcounter]
    · rw [hcounter, hcommits]
      exact h.counter
    · rw [hcommits, hstate]
      exact h.settled

/-- The state that is returned is the one published before, unless its activity was cancelled or the
chain was exhausted when it started. -/
theorem Fresh.returned {state : AgentRunState} (h : c.Fresh start)
    (hr : c.turn activities patched = .ended c' (.ok state)) :
    c'.published true =
        [⟨⟨state, c.execution.input.completedEffects⟩, c.commits, true⟩] ∧
      (state = c.execution.input.state ∨
        activities.cancels ∧ state = c.execution.input.state.cancel ∨
        c.commits = 0 ∧ state = start.state.finishIfExhausted.1) := by
  obtain ⟨l, hl, rfl⟩ := turn_ok hr
  obtain ⟨hsnapshot, hcommitted, hstate⟩ := ExecutionLoop.turn_returned hl
  have hcommits : commits { c with execution := l } = c.commits := by
    rw [commits_eq, commits_eq, hcommitted]
  refine ⟨by simp [ContinuationChain.published, hsnapshot, hcommits], ?_⟩
  rcases hstate with hfinished | hcancelled
  · rcases h.settled with ⟨hnone, hstart⟩ | hsettled
    · exact .inr (.inr ⟨hnone, by rw [hfinished, hstart]⟩)
    · exact .inl (by rw [hfinished, hsettled])
  · exact .inr (.inl hcancelled)

/-- The cursor of a publication counts the commits before it, up to the largest number. -/
def Counts (start : TemporalWorkflowInput) (p : Publication) : Prop :=
  p.snapshot.cursor.val =
    min (start.completedEffects.val + p.commits) 18446744073709551615

/-- What a publication tells of a later one: without a commit between them the state is the same,
or it is returned after a cancelled activity or from a start that is exhausted. -/
structure Follows (activities : Activities) (start : TemporalWorkflowInput) (p q : Publication) :
    Prop where
  commits : p.commits ≤ q.commits
  state : p.commits = q.commits → p.snapshot.state = q.snapshot.state ∨
    q.returned = true ∧ (activities.cancels ∧ q.snapshot.state = p.snapshot.state.cancel ∨
      q.commits = 0 ∧ q.snapshot.state = start.state.finishIfExhausted.1)

/-- What the state of a chain tells of its publications from then on. -/
theorem Fresh.follows (h : c.Fresh start) (fuel : Nat) {p q : Publication}
    (hp : p ∈ c.published false) (hq : q ∈ publications activities patched fuel c) :
    Counts start q ∧ Follows activities start p q := by
  rw [h.published, List.mem_singleton] at hp
  subst hp
  induction fuel generalizing c with
  | zero => cases hq
  | succ fuel ih =>
    cases ht : c.turn activities patched with
    | next c' =>
      obtain ⟨hfresh, hstep⟩ := h.next ht
      simp only [publications, ht, List.mem_append, hfresh.published, List.mem_singleton] at hq
      rcases hq with rfl | hq
      · refine ⟨hfresh.counter, ?_, fun hsame => .inl ?_⟩
        · rcases hstep with ⟨hcommits, _⟩ | hcommits <;> simp only [hcommits] <;> omega
        · rcases hstep with ⟨_, hstate⟩ | hcommits
          · exact hstate.symm
          · simp only [hcommits] at hsame
            omega
      · obtain ⟨hcounts, hle, hstate'⟩ := ih hfresh hq
        refine ⟨hcounts, ?_, fun hsame => ?_⟩
        · rcases hstep with ⟨hcommits, _⟩ | hcommits <;> simp only [hcommits] at hle ⊢ <;> omega
        · rcases hstep with ⟨hcommits, hstate⟩ | hcommits
          · simp only [hcommits, hstate] at hstate'
            exact hstate' hsame
          · simp only [hcommits] at hle hsame
            omega
    | blocked c' => simp [publications, ht] at hq
    | ended c' result =>
      cases result with
      | error failure => simp [publications, ht] at hq
      | ok state =>
        obtain ⟨hpublished, hstate⟩ := h.returned ht
        simp only [publications, ht, hpublished, List.mem_singleton] at hq
        subst hq
        refine ⟨h.counter, Nat.le_refl _, fun _ => ?_⟩
        rcases hstate with rfl | hcancelled | hexhausted
        · exact .inl rfl
        · exact .inr ⟨rfl, .inl hcancelled⟩
        · exact .inr ⟨rfl, .inr hexhausted⟩

variable (activities patched) in
/-- Only the last publication is returned, and each follows from all before it. -/
theorem Fresh.pairwise (h : c.Fresh start) (fuel : Nat) :
    (c.published false ++ publications activities patched fuel c).Pairwise fun p q =>
      p.returned = false ∧ Follows activities start p q := by
  have head {c : ContinuationChain} (h : c.Fresh start) (fuel : Nat)
      (htail : (publications activities patched fuel c).Pairwise fun p q =>
        p.returned = false ∧ Follows activities start p q) :
      (c.published false ++ publications activities patched fuel c).Pairwise fun p q =>
        p.returned = false ∧ Follows activities start p q := by
    refine List.pairwise_append.mpr ⟨?_, htail, fun p hp q hq => ⟨?_, (h.follows fuel hp hq).2⟩⟩
    · rw [h.published]
      exact List.pairwise_singleton _ _
    · rw [h.published, List.mem_singleton] at hp
      rw [hp]
  refine head h fuel ?_
  induction fuel generalizing c with
  | zero => exact .nil
  | succ fuel ih =>
    cases ht : c.turn activities patched with
    | next c' =>
      have hfresh := (h.next ht).1
      simp only [publications, ht]
      exact head hfresh fuel (ih hfresh)
    | blocked c' =>
      simp only [publications, ht]
      exact .nil
    | ended c' result =>
      cases result with
      | error failure =>
        simp only [publications, ht]
        exact .nil
      | ok state =>
        simp only [publications, ht, (h.returned ht).1]
        exact List.pairwise_singleton _ _

theorem Fresh.getLast?_publications (h : c.Fresh start) {fuel : Nat} {state : AgentRunState}
    (hd : drive (turn activities patched) fuel c = (c', some (.ok state))) :
    ∃ p, (publications activities patched fuel c).getLast? = some p ∧ p.returned = true ∧
      p.snapshot.state = state := by
  induction fuel generalizing c with
  | zero => cases hd
  | succ fuel ih =>
    rw [drive] at hd
    cases ht : c.turn activities patched with
    | next d =>
      simp only [ht] at hd
      obtain ⟨p, hlast, hp⟩ := ih (h.next ht).1 hd
      exact ⟨p, by simp [publications, ht, List.getLast?_append, hlast], hp⟩
    | blocked d => simp [ht] at hd
    | ended d result =>
      simp only [ht, Prod.mk.injEq, Option.some.injEq] at hd
      obtain ⟨rfl, rfl⟩ := hd
      exact ⟨_, by simp only [publications, ht, (h.returned ht).1]; rfl, rfl, rfl⟩

omit [JsonText] [RequestText] in
theorem Follows.cursor {p q : Publication} (h : Follows activities start p q)
    (hp : Counts start p) (hq : Counts start q) :
    p.snapshot.cursor ≤ q.snapshot.cursor ∧
      (p.commits < q.commits → p.snapshot.cursor < Capped.top →
        p.snapshot.cursor < q.snapshot.cursor) ∧
      (p.snapshot.cursor = q.snapshot.cursor → p.snapshot.cursor < Capped.top →
        p.commits = q.commits) := by
  have hle := h.commits
  rw [Counts] at hp hq
  refine ⟨?_, fun hlt hroom => ?_, fun hsame hroom => ?_⟩
  · rw [Capped.le_def]
    omega
  · rw [Capped.lt_def, Capped.val_top] at hroom
    rw [Capped.lt_def]
    omega
  · rw [Capped.lt_def, Capped.val_top] at hroom
    rw [hsame] at hp hroom
    omega

end ContinuationChain

theorem fresh_of_beginExecution {patched : Bool} {input : TemporalWorkflowInput}
    {l : ExecutionLoop} (h : beginExecution patched input [] = .ok l) :
    ContinuationChain.Fresh input ⟨l, []⟩ := by
  obtain rfl := beginExecution_ok h
  have hle := input.completedEffects.le_cap
  exact ⟨rfl, (Nat.min_eq_left hle).symm, .inl ⟨rfl, rfl⟩⟩

section

variable [JsonText] [RequestText]

/-- Cursors never decrease and grow with every commit, and below the largest cursor two snapshots
with one cursor have one state, except for the last one of a chain that returns after a cancelled
activity or starts exhausted; what a chain returns is published last. -/
theorem observation_cursors_identify_states (activities : Activities) (patched : Bool) (fuel : Nat)
    (input : TemporalWorkflowInput) :
    (∀ p ∈ publications activities patched fuel input, p.snapshot.cursor.val =
      min (input.completedEffects.val + p.commits) 18446744073709551615) ∧
    ((publications activities patched fuel input).Pairwise fun p q =>
      p.snapshot.cursor ≤ q.snapshot.cursor ∧
      (p.commits < q.commits → p.snapshot.cursor < Capped.top →
        p.snapshot.cursor < q.snapshot.cursor) ∧
      (p.snapshot.cursor = q.snapshot.cursor → p.snapshot.cursor < Capped.top →
        p.snapshot.state = q.snapshot.state ∨
          q.returned = true ∧ (activities.cancels ∧ q.snapshot.state = p.snapshot.state.cancel ∨
            q.commits = 0 ∧ q.snapshot.state = input.state.finishIfExhausted.1))) ∧
    (publications activities patched fuel input).Pairwise (fun p _ => p.returned = false) ∧
    ∀ r state, runChain activities patched fuel input = some r → r.result = .ok state →
      ∃ p, (publications activities patched fuel input).getLast? = some p ∧ p.returned = true ∧
        p.snapshot.state = state := by
  cases hb : beginExecution patched input [] with
  | error failure =>
    simp only [publications, runChain, hb]
    refine ⟨by simp, .nil, .nil, ?_⟩
    rintro r state ⟨⟩ ⟨⟩
  | ok l =>
    have hfresh := fresh_of_beginExecution hb
    have hpairs := hfresh.pairwise activities patched fuel
    have hpublications : publications activities patched fuel input =
        ContinuationChain.published ⟨l, []⟩ false ++
          ContinuationChain.publications activities patched fuel ⟨l, []⟩ := by
      simp only [publications, hb]
    have hcounts : ∀ p ∈ publications activities patched fuel input,
        ContinuationChain.Counts input p := by
      intro p hp
      rw [hpublications] at hp
      rcases List.mem_append.mp hp with hp | hp
      · rw [hfresh.published, List.mem_singleton] at hp
        subst hp
        exact hfresh.counter
      · have hstart := List.mem_singleton_self
          (⟨⟨l.input.state, l.input.completedEffects⟩, ContinuationChain.commits ⟨l, []⟩, false⟩ :
            Publication)
        rw [← hfresh.published] at hstart
        exact (hfresh.follows fuel hstart hp).1
    refine ⟨hcounts, ?_, ?_, fun r state hr hstate => ?_⟩
    · rw [← hpublications] at hpairs
      refine hpairs.imp_of_mem fun hp hq hpq => ?_
      obtain ⟨hle, hlt, hsame⟩ := hpq.2.cursor (hcounts _ hp) (hcounts _ hq)
      exact ⟨hle, hlt, fun heq hroom => hpq.2.state (hsame heq hroom)⟩
    · rw [hpublications]
      exact hpairs.imp And.left
    · simp only [runChain, hb] at hr
      obtain ⟨result, hdrive, rfl⟩ := Option.map_eq_some_iff.mp hr
      obtain rfl : result = .ok state := hstate
      obtain ⟨p, hlast, hp⟩ := hfresh.getLast?_publications (Prod.ext rfl hdrive)
      refine ⟨p, ?_, hp⟩
      rw [hpublications, List.getLast?_append, hlast, Option.some_or]

end

/-- A run whose first activity is cancelled publishes two states under one cursor. -/
theorem cancellation_keeps_cursor :
    ¬ ∀ (_ : JsonText) (_ : RequestText) (activities : Activities) (patched : Bool) (fuel : Nat)
      (state : AgentRunState) (config : TemporalRunConfig),
      (publications activities patched fuel (.new state config)).Pairwise fun p q =>
        p.snapshot.cursor = q.snapshot.cursor → p.snapshot.state = q.snapshot.state := by
  intro claim
  have hsame := claim Sample.jsonText Sample.requestText (fun _ _ _ => .error .cancelled) true 1
    Sample.state Sample.temporalConfig
  exact absurd hsame (by decide +kernel)

end Agentive
