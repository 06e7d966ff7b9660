import Agentive.EventDelivery

/-! Backpressure of the event buses. A task that emits waits for nothing but room in the channel of
an observer that is still there, and for the tasks that came to that channel before it. -/

namespace Agentive

namespace BusWorld

variable {ι : Type} [DecidableEq ι] {tree : BusTree ι} {w : BusWorld ι} {r : ι} {m : Emission ι}

/-- A step of the task that emits the events of the run `r`, without one of anybody else. -/
def OwnStep (tree : BusTree ι) (r : ι) (u v : BusWorld ι) : Prop :=
  ∃ action ∈ [.copy r, .send r, .finish r], u.act tree action = some v

/-- Every channel on the way of the emission has room for it, unless its observer is gone. -/
def HasRoom (tree : BusTree ι) (w : BusWorld ι) (r : ι) (m : Emission ι) : Prop :=
  ∀ c b, (w.channels c).subscription = .registered b → tree.OnPath r b → ¬ m.Passed tree b c →
    (w.channels c).dropped = true ∨ (w.channels c).ahead r < channelCapacity

theorem act_copy (hm : w.emission r = some m) (hnone : m.waiting = none) :
    w.act tree (.copy r) = some (w.copyObservers r m) := by
  obtain ⟨b, event, waiting⟩ := m
  obtain rfl : waiting = none := hnone
  simp only [act, hm]

theorem act_finish (hm : w.emission r = some m) (hdone : m.waiting = some []) :
    w.act tree (.finish r) = some (w.forward tree r m) := by
  obtain ⟨b, event, waiting⟩ := m
  obtain rfl : waiting = some [] := hdone
  simp only [act, hm]

theorem act_send {c : Nat} {rest : List Nat} (hm : w.emission r = some m)
    (hwaiting : m.waiting = some (c :: rest)) :
    w.act tree (.send r) =
      if (w.channels c).dropped then some (w.advance r m rest)
      else if (w.channels c).ahead r < channelCapacity then some (w.delivered r m c rest)
      else if r ∈ (w.channels c).waiters then none
      else some (w.joinChannel r c) := by
  obtain ⟨b, event, waiting⟩ := m
  obtain rfl : waiting = some (c :: rest) := hwaiting
  simp only [act, hm]

theorem OwnStep.step {u v : BusWorld ι} (h : OwnStep tree r u v) : Step tree u v := by
  obtain ⟨action, -, hact⟩ := h
  exact step_of_act hact

/-- The task that emits gives nothing up and begins nothing new. -/
theorem OwnStep.kept {u v : BusWorld ι} (h : OwnStep tree r u v) :
    v.emitted = u.emitted ∧ v.abandoned = u.abandoned := by
  obtain ⟨action, hmem, hact⟩ := h
  have hstep := step_of_act hact
  simp only [List.mem_cons, List.not_mem_nil, or_false] at hmem
  rcases hmem with rfl | rfl | rfl <;> simp only [act] at hact <;> split at hact
  · obtain rfl := Option.some.inj hact
    exact ⟨rfl, rfl⟩
  · cases hact
  · next b event c rest hm =>
    by_cases hd : (u.channels c).dropped = true
    · rw [if_pos hd] at hact
      obtain rfl := Option.some.inj hact
      exact ⟨rfl, rfl⟩
    rw [if_neg hd] at hact
    by_cases hroom : (u.channels c).ahead r < channelCapacity
    · rw [if_pos hroom] at hact
      obtain rfl := Option.some.inj hact
      exact ⟨rfl, rfl⟩
    rw [if_neg hroom] at hact
    by_cases hwaits : r ∈ (u.channels c).waiters
    · rw [if_pos hwaits] at hact
      cases hact
    · rw [if_neg hwaits] at hact
      obtain rfl := Option.some.inj hact
      exact ⟨rfl, rfl⟩
  · cases hact
  · obtain rfl := Option.some.inj hact
    exact ⟨rfl, rfl⟩
  · cases hact

/-- The task of the run waits exactly where it stands in a queue for room, its observer is there,
and the room is taken by what is before it. -/
theorem emission_waits_iff (hm : w.emission r = some m) :
    (∀ v, ¬ OwnStep tree r w v) ↔ ∃ c rest, m.waiting = some (c :: rest) ∧
      (w.channels c).dropped = false ∧ r ∈ (w.channels c).waiters ∧
      channelCapacity ≤ (w.channels c).ahead r := by
  constructor
  · intro hstuck
    cases hwaiting : m.waiting with
    | none => exact absurd ⟨_, by simp, act_copy hm hwaiting⟩ (hstuck _)
    | some l =>
      cases l with
      | nil => exact absurd ⟨_, by simp, act_finish hm hwaiting⟩ (hstuck _)
      | cons c rest =>
        have hact : w.act tree (.send r) = _ := act_send hm hwaiting
        by_cases hd : (w.channels c).dropped = true
        · rw [if_pos hd] at hact
          exact absurd ⟨_, by simp, hact⟩ (hstuck _)
        by_cases hroom : (w.channels c).ahead r < channelCapacity
        · rw [if_neg hd, if_pos hroom] at hact
          exact absurd ⟨_, by simp, hact⟩ (hstuck _)
        by_cases hwaits : r ∈ (w.channels c).waiters
        · exact ⟨c, rest, rfl, Bool.eq_false_iff.mpr hd, hwaits, Nat.le_of_not_lt hroom⟩
        · rw [if_neg hd, if_neg hroom, if_neg hwaits] at hact
          exact absurd ⟨_, by simp, hact⟩ (hstuck _)
  · rintro ⟨c, rest, hwaiting, hd, hwaits, hfull⟩ v ⟨action, hmem, hact⟩
    obtain ⟨b, event, waiting⟩ := m
    obtain rfl : waiting = some (c :: rest) := hwaiting
    simp only [List.mem_cons, List.not_mem_nil, or_false] at hmem
    rcases hmem with rfl | rfl | rfl
    · simp [act, hm] at hact
    · have hno : ¬ (w.channels c).ahead r < channelCapacity := Nat.not_lt_of_le hfull
      rw [act_send hm rfl, if_neg (by simp [hd]), if_neg hno, if_pos hwaits] at hact
      cases hact
    · simp [act, hm] at hact

section

variable {l : List ι} {r' : ι}

theorem idxOf_erase_of_lt (h : l.idxOf r' < l.idxOf r) :
    (l.erase r').idxOf r + 1 = l.idxOf r := by
  induction l with
  | nil => simp at h
  | cons x l ih =>
    by_cases hx : x = r
    · simp [hx] at h
    by_cases hx' : x = r'
    · subst hx'
      rw [List.erase_cons_head, List.idxOf_cons_ne _ hx]
    · rw [List.idxOf_cons_ne _ hx, List.idxOf_cons_ne _ hx'] at h
      rw [List.erase_cons_tail (by simpa using hx'), List.idxOf_cons_ne _ hx,
        List.idxOf_cons_ne _ hx, Nat.succ_add, ih (Nat.lt_of_succ_lt_succ h)]

theorem idxOf_erase_le (hne : r ≠ r') : (l.erase r').idxOf r ≤ l.idxOf r := by
  induction l with
  | nil => simp
  | cons x l ih =>
    by_cases hx' : x = r'
    · subst hx'
      rw [List.erase_cons_head, List.idxOf_cons_ne _ hne.symm]
      exact Nat.le_succ _
    rw [List.erase_cons_tail (by simpa using hx')]
    by_cases hx : x = r
    · simp [hx]
    · rw [List.idxOf_cons_ne _ hx, List.idxOf_cons_ne _ hx]
      exact Nat.succ_le_succ ih

end

section

variable {ch : BusChannel ι}

/-- A task that sends before one that waits leaves the queue for the channel, or there is room for
both. -/
theorem ahead_push {x : BusEntry ι} (hmem : r ∈ ch.waiters) (hne : r ≠ x.origin)
    (hroom : ch.ahead x.origin < channelCapacity) :
    (ch.push x).ahead r ≤ ch.ahead r ∨ (ch.push x).ahead r < channelCapacity := by
  have hlength : (ch.push x).queue.length = ch.queue.length + 1 := by simp [BusChannel.push]
  have hwaiters : (ch.push x).waiters = ch.waiters.erase x.origin := rfl
  simp only [BusChannel.ahead, hlength, hwaiters] at hroom ⊢
  rcases Nat.lt_or_ge (ch.waiters.idxOf x.origin) (ch.waiters.idxOf r) with hbefore | hbehind
  · have hindex := idxOf_erase_of_lt hbefore
    exact .inl (by omega)
  · have hindex := idxOf_erase_le (l := ch.waiters) hne
    have hdistinct : ch.waiters.idxOf r ≠ ch.waiters.idxOf x.origin := fun heq =>
      hne ((List.idxOf_inj hmem).mp heq)
    exact .inr (by omega)

theorem ahead_join (hmem : r ∈ ch.waiters) (r' : ι) : (ch.join r').ahead r = ch.ahead r := by
  simp [BusChannel.ahead, BusChannel.join, List.idxOf_append_of_mem hmem]

theorem ahead_leave {r' : ι} (hne : r ≠ r') : (ch.leave r').ahead r ≤ ch.ahead r :=
  Nat.add_le_add_left (idxOf_erase_le hne) _

end

/-- While a task stands in a queue, no step puts anything before it, unless there is room for it
anyway. -/
theorem Step.ahead {w' : BusWorld ι} {c : Nat} {rest : List Nat} (hstep : Step tree w w')
    (hw : Sound tree w) (hm : w.emission r = some m) (hwaiting : m.waiting = some (c :: rest))
    (hsame : w'.emission r = some m) (hopen : (w'.channels c).dropped = false) :
    (w.channels c).dropped = false ∧ (r ∈ (w.channels c).waiters →
      r ∈ (w'.channels c).waiters ∧ ((w'.channels c).ahead r ≤ (w.channels c).ahead r ∨
        (w'.channels c).ahead r < channelCapacity)) := by
  have hreg := (hw.waiting r m _ hm hwaiting).2 c (List.mem_cons_self ..)
  have hkept (hchannel : w'.channels c = w.channels c) :
      (w.channels c).dropped = false ∧ (r ∈ (w.channels c).waiters →
        r ∈ (w'.channels c).waiters ∧ ((w'.channels c).ahead r ≤ (w.channels c).ahead r ∨
          (w'.channels c).ahead r < channelCapacity)) := by
    rw [hchannel] at hopen ⊢
    exact ⟨hopen, fun hmem => ⟨hmem, .inl (Nat.le_refl _)⟩⟩
  cases hstep with
  | emit | copy | skip | forward | close | clear => exact hkept rfl
  | @send r' m' c' rest' hm' hwaiting' hopen' hroom =>
    by_cases hc : c' = c
    swap
    · exact hkept (delivered_channel_of_ne (Ne.symm hc))
    subst hc
    have hne : r ≠ r' := by
      rintro rfl
      have hnext := (delivered_emission w r m' c' rest').symm.trans hsame
      obtain rfl := Option.some.inj (hm.symm.trans hm')
      have hrest := congrArg Emission.waiting (Option.some.inj hnext)
      rw [hwaiting'] at hrest
      simp at hrest
    rw [delivered_channel]
    refine ⟨hopen', fun hmem => ⟨(List.mem_erase_of_ne hne).mpr hmem, ?_⟩⟩
    exact ahead_push hmem hne hroom
  | @join r' m' c' rest' hm' hwaiting' hnew =>
    by_cases hc : c' = c
    · subst hc
      have hchannel : (w.joinChannel r' c').channels c' = (w.channels c').join r' := by
        simp [joinChannel, setChannel]
      rw [hchannel] at hopen ⊢
      exact ⟨hopen, fun hmem => ⟨List.mem_append_left _ hmem, .inl (ahead_join hmem r').le⟩⟩
    · exact hkept (by simp [joinChannel, setChannel, Ne.symm hc])
  | @abandon r' m' hm' =>
    have hne : r ≠ r' := by
      rintro rfl
      simp [BusWorld.giveUp, setEmission] at hsame
    exact ⟨hopen, fun hmem => ⟨(List.mem_erase_of_ne hne).mpr hmem, .inl (ahead_leave hne)⟩⟩
  | @subscribe c' b hunused =>
    have hc : c ≠ c' := by
      rintro rfl
      rw [hunused] at hreg
      cases hreg
    exact hkept (by simp [BusWorld.openChannel, setChannel, hc])
  | @register c' b hchecked =>
    have hc : c ≠ c' := by
      rintro rfl
      rw [hchecked] at hreg
      cases hreg
    exact hkept (by simp [BusWorld.registerChannel, setChannel, setObservers, hc])
  | @receive c' x rest' hqueue =>
    by_cases hc : c' = c
    · subst hc
      have hchannel : (w.receiveFrom c' x rest').channels c' =
          { w.channels c' with queue := rest', received := (w.channels c').received ++ [x] } := by
        simp [BusWorld.receiveFrom, setChannel]
      rw [hchannel] at hopen ⊢
      refine ⟨hopen, fun hmem => ⟨hmem, .inl ?_⟩⟩
      simp only [BusChannel.ahead, hqueue, List.length_cons]
      omega
    · exact hkept (by simp [BusWorld.receiveFrom, setChannel, Ne.symm hc])
  | drop c' =>
    by_cases hc : c' = c
    · simp [BusWorld.dropReceiver, setChannel, hc] at hopen
    · exact hkept (by simp [BusWorld.dropReceiver, setChannel, Ne.symm hc])

/-- A run of the world during which the emission of `r` stays where it is, with the number of
events that the observer of the channel `c` receives. -/
inductive Waiting (tree : BusTree ι) (r : ι) (m : Emission ι) (c : Nat) (w : BusWorld ι) :
    BusWorld ι → Nat → Prop
  | start : Waiting tree r m c w w 0
  | other {u v : BusWorld ι} {k : Nat} (h : Waiting tree r m c w u k) (hstep : Step tree u v)
      (hsame : v.emission r = some m) : Waiting tree r m c w v k
  | receive {u v : BusWorld ι} {k : Nat} (h : Waiting tree r m c w u k)
      (hact : u.act tree (.receive c) = some v) (hsame : v.emission r = some m) :
      Waiting tree r m c w v (k + 1)

theorem ahead_receive {u v : BusWorld ι} {c : Nat} (h : u.act tree (.receive c) = some v) :
    (v.channels c).ahead r + 1 = (u.channels c).ahead r := by
  simp only [act, Option.ite_none_left_eq_some] at h
  obtain ⟨_, h⟩ := h
  split at h
  · next x rest hqueue =>
    obtain rfl := Option.some.inj h
    simp only [BusChannel.ahead, BusWorld.receiveFrom, setChannel, Function.update_self, hqueue,
      List.length_cons]
    omega
  · cases h

/-- Every event that the observer receives brings a waiting task nearer to its turn, and nothing
takes it farther away. -/
theorem Waiting.nearer {c k : Nat} {rest : List Nat} {v : BusWorld ι}
    (h : Waiting tree r m c w v k) (hw : Sound tree w) (hm : w.emission r = some m)
    (hwaiting : m.waiting = some (c :: rest)) (hmem : r ∈ (w.channels c).waiters) :
    Sound tree v ∧ v.emission r = some m ∧ ((v.channels c).dropped = false →
      r ∈ (v.channels c).waiters ∧ ((v.channels c).ahead r + k ≤ (w.channels c).ahead r ∨
        (v.channels c).ahead r < channelCapacity)) := by
  induction h with
  | start => exact ⟨hw, hm, fun _ => ⟨hmem, .inl (Nat.le_refl _)⟩⟩
  | other _ hstep hsame ih =>
    obtain ⟨hu, hmu, hnear⟩ := ih
    refine ⟨hu.step hstep, hsame, fun hopen => ?_⟩
    obtain ⟨hopenu, hstays⟩ := hstep.ahead hu hmu hwaiting hsame hopen
    obtain ⟨hmemu, hu'⟩ := hnear hopenu
    obtain ⟨hmemv, hv'⟩ := hstays hmemu
    exact ⟨hmemv, by omega⟩
  | receive _ hact hsame ih =>
    obtain ⟨hu, hmu, hnear⟩ := ih
    refine ⟨hu.step (step_of_act hact), hsame, fun hopen => ?_⟩
    obtain ⟨hopenu, hstays⟩ := (step_of_act hact).ahead hu hmu hwaiting hsame hopen
    obtain ⟨hmemu, hu'⟩ := hnear hopenu
    have hless : _ = _ := ahead_receive (r := r) hact
    exact ⟨(hstays hmemu).1, by omega⟩

/-- The emission serves the observers that are left at its bus. -/
theorem serves_observers (l : List Nat) (hw : Sound tree w) (hm : w.emission r = some m)
    (hwaiting : m.waiting = some l) (hroom : HasRoom tree w r m) :
    ∃ v, Relation.ReflTransGen (OwnStep tree r) w v ∧ Sound tree v ∧
      v.emission r = some { m with waiting := some [] } ∧
      HasRoom tree v r { m with waiting := some [] } := by
  induction l generalizing w m with
  | nil =>
    have hsame : { m with waiting := some [] } = m := by rw [← hwaiting]
    rw [hsame]
    exact ⟨w, .refl, hw, hm, hroom⟩
  | cons c rest ih =>
    obtain ⟨hnodup, hregs⟩ := hw.waiting r m _ hm hwaiting
    obtain ⟨e, -, hcarries⟩ := hw.carried r m hm
    have hnot : ¬ m.Passed tree m.bus c := by
      rintro (hlt | ⟨_, l, hl, hnotin⟩)
      · exact Nat.lt_irrefl _ hlt
      · rw [hwaiting] at hl
        obtain rfl := Option.some.inj hl
        exact hnotin (List.mem_cons_self ..)
    have hserved : ∀ b, (w.channels c).subscription = .registered b →
        Emission.Passed tree { m with waiting := some rest } b c := by
      intro b hreg
      have hb := Subscription.registered.inj (hreg.symm.trans (hregs c (List.mem_cons_self ..)))
      exact .inr ⟨hb, rest, rfl, (List.nodup_cons.mp hnodup).1⟩
    have hact : w.act tree (.send r) = _ := act_send hm hwaiting
    by_cases hd : (w.channels c).dropped = true
    · rw [if_pos hd] at hact
      have hnext : (w.advance r m rest).emission r = some { m with waiting := some rest } := by
        simp [BusWorld.advance, setEmission]
      have hroom' : HasRoom tree (w.advance r m rest) r { m with waiting := some rest } := by
        intro c' b hreg hpath hcome
        by_cases hc : c' = c
        · subst hc
          exact absurd (hserved b hreg) hcome
        · exact hroom c' b hreg hpath fun hp =>
            hcome ((Emission.passed_advance hwaiting hc).mpr hp)
      obtain ⟨v, hreach, hv⟩ := ih (hw.advance hm hwaiting hd) hnext rfl hroom'
      exact ⟨v, .head ⟨_, by simp, hact⟩ hreach, hv⟩
    · have hfree := (hroom c m.bus (hregs c (List.mem_cons_self ..)) hcarries.onPath
        hnot).resolve_left hd
      rw [if_neg hd, if_pos hfree] at hact
      have hsub := channel_delivered BusChannel.subscription w r m c rest rfl
      have hroom' : HasRoom tree (w.delivered r m c rest) r { m with waiting := some rest } := by
        intro c' b hreg hpath hcome
        rw [hsub] at hreg
        by_cases hc : c' = c
        · subst hc
          exact absurd (hserved b hreg) hcome
        · rw [delivered_channel_of_ne hc]
          exact hroom c' b hreg hpath fun hp =>
            hcome ((Emission.passed_advance hwaiting hc).mpr hp)
      obtain ⟨v, hreach, hv⟩ := ih (hw.delivered hm hwaiting) (delivered_emission w r m c rest)
        rfl hroom'
      exact ⟨v, .head ⟨_, by simp, hact⟩ hreach, hv⟩

/-- An emission whose list of observers is copied has passed what it had passed before. -/
theorem serves_bus (hw : Sound tree w) (hm : w.emission r = some m) (hroom : HasRoom tree w r m) :
    ∃ v, Relation.ReflTransGen (OwnStep tree r) w v ∧ Sound tree v ∧
      v.emission r = some { m with waiting := some [] } ∧
      HasRoom tree v r { m with waiting := some [] } := by
  cases hwaiting : m.waiting with
  | some l => exact serves_observers l hw hm hwaiting hroom
  | none =>
    have hnext : (w.copyObservers r m).emission r =
        some { m with waiting := some (w.observers m.bus) } := by
      simp [BusWorld.copyObservers, setEmission]
    have hroom' : HasRoom tree (w.copyObservers r m) r
        { m with waiting := some (w.observers m.bus) } := by
      intro c b hreg hpath hcome
      refine hroom c b hreg hpath ?_
      rintro (hlt | ⟨_, l, hl, _⟩)
      · exact hcome (.inl hlt)
      · simp [hwaiting] at hl
    obtain ⟨v, hreach, hv⟩ := serves_observers _ (hw.copyObservers hm hwaiting) hnext rfl hroom'
    exact ⟨v, .head ⟨_, by simp, act_copy hm hwaiting⟩ hreach, hv⟩

/-- Where there is room on the way of an emission, its task comes to the end of it by steps of its
own. -/
theorem reaches_end (hw : Sound tree w) (hm : w.emission r = some m)
    (hroom : HasRoom tree w r m) :
    ∃ v, Relation.ReflTransGen (OwnStep tree r) w v ∧ v.emission r = none ∧
      v.emitted = w.emitted ∧ v.abandoned = w.abandoned := by
  obtain ⟨d, hd⟩ : ∃ d, tree.depth m.bus = d := ⟨_, rfl⟩
  have hreaches : ∃ v, Relation.ReflTransGen (OwnStep tree r) w v ∧ v.emission r = none := by
    induction d using Nat.strong_induction_on generalizing w m with
    | _ d ih =>
      obtain ⟨u, hreach, hu, hmu, hroomu⟩ := serves_bus hw hm hroom
      have hact : u.act tree (.finish r) = _ := act_finish hmu rfl
      have hforward := hu.forward hmu rfl
      have hown : OwnStep tree r u (u.forward tree r { m with waiting := some [] }) :=
        ⟨_, by simp, hact⟩
      cases hparent : tree.parent m.bus with
      | none =>
        refine ⟨_, hreach.tail hown, ?_⟩
        simp [BusWorld.forward, setEmission, hparent]
      | some link =>
        obtain ⟨p, runId⟩ := link
        have hlt := tree.depth_lt hparent
        have hnext : (u.forward tree r { m with waiting := some [] }).emission r =
            some ⟨p, .child runId m.event, none⟩ := by
          simp [BusWorld.forward, setEmission, hparent]
        have hroom' : HasRoom tree (u.forward tree r { m with waiting := some [] }) r
            ⟨p, .child runId m.event, none⟩ := by
          intro c b hreg hpath hcome
          refine hroomu c b hreg hpath ?_
          rintro (hlt' | ⟨rfl, -⟩)
          · exact hcome (.inl (hlt.trans hlt'))
          · exact hcome (.inl hlt)
        obtain ⟨v, hreach', hv⟩ := ih (tree.depth p) (hd ▸ hlt) hforward hnext hroom' rfl
        exact ⟨v, (hreach.tail hown).trans hreach', hv⟩
  obtain ⟨v, hreach, hv⟩ := hreaches
  refine ⟨v, hreach, hv, ?_⟩
  clear hv
  induction hreach with
  | refl => exact ⟨rfl, rfl⟩
  | tail _ hstep ih =>
    obtain ⟨hemitted, habandoned⟩ := hstep.kept
    exact ⟨hemitted.trans ih.1, habandoned.trans ih.2⟩

/-- A task waits for room that is taken by what is before it, and for nothing else; while it waits,
nothing gets before it, and the observer has to receive no more than what is before it. Where there
is room on its way, the event comes to every bus there, and nothing is given up. -/
theorem emission_completes {actions : List (BusAction ι)}
    (h : acts tree actions empty = some w) (hm : w.emission r = some m) :
    ((∀ v, ¬ OwnStep tree r w v) ↔ ∃ c rest, m.waiting = some (c :: rest) ∧
      (w.channels c).dropped = false ∧ r ∈ (w.channels c).waiters ∧
      channelCapacity ≤ (w.channels c).ahead r) ∧
    (∀ c rest k v, m.waiting = some (c :: rest) → r ∈ (w.channels c).waiters →
      Waiting tree r m c w v k → (v.channels c).dropped = false →
      (v.channels c).ahead r + k ≤ (w.channels c).ahead r ∨
        (v.channels c).ahead r < channelCapacity) ∧
    (HasRoom tree w r m → ∃ v, Relation.ReflTransGen (OwnStep tree r) w v ∧
      v.emission r = none ∧ v.emitted = w.emitted ∧ v.abandoned = w.abandoned) := by
  have hw := sound_of_acts h
  refine ⟨emission_waits_iff hm, fun c rest k v hwaiting hmem hrun hopen => ?_,
    reaches_end hw hm⟩
  exact ((hrun.nearer hw hm hwaiting hmem).2.2 hopen).2

end BusWorld

namespace Sample

/-- The child has begun to emit, and its event has come to no observer yet. -/
def emittingWorld : BusWorld Bool :=
  (BusWorld.acts busTree (busActions.take 3) .empty).getD .empty

end Sample

theorem emission_completes_sample :
    ∃ v, Relation.ReflTransGen (BusWorld.OwnStep Sample.busTree false) Sample.emittingWorld v ∧
      v.emission false = none ∧ v.emitted = Sample.emittingWorld.emitted ∧
      v.abandoned = Sample.emittingWorld.abandoned := by
  have h : BusWorld.acts Sample.busTree (Sample.busActions.take 3) .empty =
      some Sample.emittingWorld := rfl
  have hm : Sample.emittingWorld.emission false =
      some ⟨false, .own (.modelCallStarted 0), none⟩ := rfl
  refine (BusWorld.emission_completes h hm).2.2 fun c b _ _ _ => .inr ?_
  by_cases hc : c = 0
  · subst hc
    decide
  · have hunused : Sample.emittingWorld.channels c = .unused := by
      change Function.update (Function.update (fun _ => BusChannel.unused) 0 _) 0 _ c = _
      rw [Function.update_of_ne hc, Function.update_of_ne hc]
    rw [hunused]
    decide

end Agentive
