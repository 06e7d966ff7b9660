import Agentive.EventBus
import Mathlib.Data.List.Sort

/-! What the observers of the buses are told. An observer gets the events of every run below its
bus once each, in the order in which the run emitted them, and misses none of them. -/

namespace Agentive

variable {ι : Type}

namespace BusTree

variable {tree : BusTree ι} {r b b' : ι}

theorem OnPath.eq_or_depth_lt (h : tree.OnPath r b) : b = r ∨ tree.depth b < tree.depth r := by
  induction h with
  | refl => exact .inl rfl
  | tail _ hstep ih =>
    obtain ⟨runId, hparent⟩ := hstep
    have hlt := tree.depth_lt hparent
    rcases ih with rfl | hlt'
    · exact .inr hlt
    · exact .inr (hlt.trans hlt')

theorem OnPath.total (h : tree.OnPath r b) (h' : tree.OnPath r b') :
    tree.OnPath b b' ∨ tree.OnPath b' b := by
  refine Relation.ReflTransGen.total_of_right_unique ?_ h h'
  rintro i p q ⟨_, hp⟩ ⟨_, hq⟩
  rw [hp] at hq
  exact congrArg Prod.fst (Option.some.inj hq)

theorem Carries.onPath {e : RunEvent} {event : BusEvent} (h : tree.Carries r e b event) :
    tree.OnPath r b := by
  induction h with
  | own => exact .refl
  | forwarded _ hparent ih => exact ih.tail ⟨_, hparent⟩

/-- From a bus that an event has come to, the event comes to every later bus of its path through
the parent. -/
theorem OnPath.parent (hb : tree.OnPath r b) (hb' : tree.OnPath r b') (hne : b ≠ b')
    (hnot : ¬ tree.depth b' < tree.depth b) :
    ∃ p runId, tree.parent b' = some (p, runId) ∧ ¬ tree.depth p < tree.depth b := by
  rcases hb.total hb' with h | h
  · rcases h.eq_or_depth_lt with h | h
    · exact absurd h.symm hne
    · exact absurd h hnot
  · rcases Relation.ReflTransGen.cases_head h with h | ⟨p, ⟨runId, hparent⟩, hp⟩
    · exact absurd h.symm hne
    · have hpath : tree.OnPath p b := hp
      refine ⟨p, runId, hparent, ?_⟩
      rcases hpath.eq_or_depth_lt with rfl | hlt
      · exact Nat.lt_irrefl _
      · exact Nat.not_lt_of_lt hlt

end BusTree

/-- The emission has passed the channel of an observer: its bus is behind it, or the observer has
been served there. -/
def Emission.Passed (tree : BusTree ι) (m : Emission ι) (b : ι) (c : Nat) : Prop :=
  tree.depth m.bus < tree.depth b ∨ b = m.bus ∧ ∃ l, m.waiting = some l ∧ c ∉ l

namespace BusWorld

variable [DecidableEq ι] {tree : BusTree ι} {w w' : BusWorld ι}

/-- What the channel `c` at the bus `b` has been told of the events of the run `r`. -/
structure Told (tree : BusTree ι) (w : BusWorld ι) (c : Nat) (b r : ι) : Prop where
  order : ((w.channels c).entries r).Pairwise fun x y => x.number < y.number
  events : ∀ x ∈ (w.channels c).entries r,
    ∃ e, (w.emitted r)[x.number]? = some e ∧ tree.Carries r e b x.event
  current : ∀ m, w.emission r = some m →
    (∃ x ∈ (w.channels c).entries r, x.number + 1 = (w.emitted r).length) → m.Passed tree b c
  complete : (w.channels c).dropped = false → w.closed b = false → tree.OnPath r b →
    ∀ n, (w.channels c).since r ≤ n → n < (w.emitted r).length → n ∉ w.abandoned r →
      (∃ x ∈ (w.channels c).entries r, x.number = n) ∨
        n + 1 = (w.emitted r).length ∧ ∃ m, w.emission r = some m ∧ ¬ m.Passed tree b c

/-- The channels that the buses know are registered with them, and every emission carries the last
event of its run to those of them that it has not served. -/
structure Sound (tree : BusTree ι) (w : BusWorld ι) : Prop where
  observed : ∀ b c, c ∈ w.observers b → (w.channels c).subscription = .registered b
  nodup : ∀ b, (w.observers b).Nodup
  kept : ∀ b c, (w.channels c).subscription = .registered b → (w.channels c).dropped = false →
    w.closed b = false → c ∈ w.observers b
  silent : ∀ c, (∀ b, (w.channels c).subscription ≠ .registered b) → (w.channels c).log = []
  carried : ∀ r m, w.emission r = some m →
    ∃ e, (w.emitted r)[(w.emitted r).length - 1]? = some e ∧ tree.Carries r e m.bus m.event
  waiting : ∀ r m l, w.emission r = some m → m.waiting = some l →
    l.Nodup ∧ ∀ c ∈ l, (w.channels c).subscription = .registered m.bus
  told : ∀ c b r, (w.channels c).subscription = .registered b → Told tree w c b r

theorem Told.number_lt {c : Nat} {b r : ι} {x : BusEntry ι} (h : Told tree w c b r)
    (hx : x ∈ (w.channels c).entries r) : x.number < (w.emitted r).length := by
  obtain ⟨e, he, -⟩ := h.events x hx
  exact (List.getElem?_eq_some_iff.mp he).1

/-- A step that this channel and this run have no part in. -/
theorem Told.frame {c : Nat} {b r : ι} (h : Told tree w c b r)
    (hentries : (w'.channels c).entries r = (w.channels c).entries r)
    (hsince : (w'.channels c).since r = (w.channels c).since r)
    (hdropped : (w'.channels c).dropped = false → (w.channels c).dropped = false)
    (hclosed : w'.closed b = false → w.closed b = false)
    (hemission : w'.emission r = w.emission r) (hemitted : w'.emitted r = w.emitted r)
    (habandoned : w'.abandoned r = w.abandoned r) : Told tree w' c b r := by
  constructor
  · rw [hentries]
    exact h.order
  · rw [hentries, hemitted]
    exact h.events
  · rw [hentries, hemitted, hemission]
    exact h.current
  · intro hd hc
    rw [hentries, hsince, hemitted, hemission, habandoned]
    exact h.complete (hdropped hd) (hclosed hc)

/-- A step that takes the emission of the run on, but sends nothing to this channel. -/
theorem Told.moves {c : Nat} {b r : ι} {m : Emission ι} (h : Told tree w c b r)
    (hm : w.emission r = some m) (hchannel : w'.channels c = w.channels c)
    (hclosed : w'.closed b = w.closed b) (hemitted : w'.emitted r = w.emitted r)
    (habandoned : w'.abandoned r = w.abandoned r)
    (hpassed : ∀ m', w'.emission r = some m' → m.Passed tree b c → m'.Passed tree b c)
    (hcoming : (w.channels c).dropped = false → w.closed b = false → tree.OnPath r b →
      ¬ m.Passed tree b c → ∃ m', w'.emission r = some m' ∧ ¬ m'.Passed tree b c) :
    Told tree w' c b r := by
  constructor
  · rw [hchannel]
    exact h.order
  · rw [hchannel, hemitted]
    exact h.events
  · rw [hchannel, hemitted]
    exact fun m' hm' hx => hpassed m' hm' (h.current m hm hx)
  · rw [hchannel, hclosed, hemitted, habandoned]
    intro hd hc hpath n hsince hn hnot
    rcases h.complete hd hc hpath n hsince hn hnot with hx | ⟨hlast, m₀, hm₀, hcome⟩
    · exact .inl hx
    · obtain rfl := Option.some.inj (hm.symm.trans hm₀)
      exact .inr ⟨hlast, hcoming hd hc hpath hcome⟩

omit [DecidableEq ι] in
/-- A field of a channel that an update leaves as it is. -/
theorem channel_setChannel {α : Type} (f : BusChannel ι → α) (w : BusWorld ι) (c : Nat)
    (ch : BusChannel ι) (h : f ch = f (w.channels c)) (c' : Nat) :
    f ((w.setChannel c ch).channels c') = f (w.channels c') := by
  by_cases hc : c' = c
  · subst hc
    simpa [setChannel] using h
  · simp [setChannel, hc]

theorem sound_empty (tree : BusTree ι) : Sound tree empty where
  observed := fun _ _ h => by cases h
  nodup := fun _ => List.nodup_nil
  kept := fun _ _ h => by cases h
  silent := fun _ _ => rfl
  carried := fun _ _ h => by cases h
  waiting := fun _ _ _ h => by cases h
  told := fun _ _ _ h => by cases h

theorem Sound.beginEmit (h : Sound tree w) {r : ι} (event : RunEvent)
    (hidle : w.emission r = none) : Sound tree (w.beginEmit r event) where
  observed := h.observed
  nodup := h.nodup
  kept := h.kept
  silent := h.silent
  carried := by
    intro r' m hm
    by_cases hr : r' = r
    · subst hr
      simp only [BusWorld.beginEmit, setEmission, Function.update_self] at hm ⊢
      obtain rfl := Option.some.inj hm
      exact ⟨event, by simp, .own⟩
    · simp only [BusWorld.beginEmit, setEmission, Function.update_of_ne hr] at hm ⊢
      exact h.carried r' m hm
  waiting := by
    intro r' m l hm hl
    by_cases hr : r' = r
    · subst hr
      simp only [BusWorld.beginEmit, setEmission, Function.update_self] at hm
      obtain rfl := Option.some.inj hm
      cases hl
    · simp only [BusWorld.beginEmit, setEmission, Function.update_of_ne hr] at hm
      exact h.waiting r' m l hm hl
  told := by
    intro c b r' hreg
    have ht := h.told c b r' hreg
    by_cases hr : r' = r
    · subst hr
      have hemitted : (w.beginEmit r' event).emitted r' = w.emitted r' ++ [event] := by
        simp [BusWorld.beginEmit]
      have hemission : (w.beginEmit r' event).emission r' = some ⟨r', .own event, none⟩ := by
        simp [BusWorld.beginEmit, setEmission]
      constructor
      · exact ht.order
      · intro x hx
        obtain ⟨e, he, hcarries⟩ := ht.events x hx
        have hlt := (List.getElem?_eq_some_iff.mp he).1
        exact ⟨e, by rw [hemitted, List.getElem?_append_left hlt, he], hcarries⟩
      · rintro m - ⟨x, hx, hlast⟩
        have hlt := ht.number_lt hx
        rw [hemitted, List.length_append, List.length_singleton] at hlast
        omega
      · intro hd hc hpath n hsince hn hnot
        rw [hemitted, List.length_append, List.length_singleton] at hn ⊢
        by_cases hlast : n = (w.emitted r').length
        · refine .inr ⟨by omega, _, hemission, ?_⟩
          rintro (hlt | ⟨_, l, hl, _⟩)
          · rcases hpath.eq_or_depth_lt with rfl | hlt'
            · exact Nat.lt_irrefl _ hlt
            · exact Nat.lt_irrefl _ (hlt.trans hlt')
          · cases hl
        · rcases ht.complete hd hc hpath n hsince (by omega) hnot with hx | ⟨_, m, hm, _⟩
          · exact .inl hx
          · simp [hidle] at hm
    · refine ht.frame rfl rfl id id ?_ ?_ rfl <;> simp [BusWorld.beginEmit, setEmission, hr]

theorem Sound.moves (h : Sound tree w) {r : ι} {m : Emission ι} {next : Option (Emission ι)}
    (hm : w.emission r = some m)
    (hcarried : ∀ m', next = some m' → ∃ e,
      (w.emitted r)[(w.emitted r).length - 1]? = some e ∧ tree.Carries r e m'.bus m'.event)
    (hwaiting : ∀ m' l, next = some m' → m'.waiting = some l →
      l.Nodup ∧ ∀ c ∈ l, (w.channels c).subscription = .registered m'.bus)
    (htold : ∀ c b, (w.channels c).subscription = .registered b →
      (∀ m', next = some m' → m.Passed tree b c → m'.Passed tree b c) ∧
        ((w.channels c).dropped = false → w.closed b = false → tree.OnPath r b →
          ¬ m.Passed tree b c → ∃ m', next = some m' ∧ ¬ m'.Passed tree b c)) :
    Sound tree (w.setEmission r next) where
  observed := h.observed
  nodup := h.nodup
  kept := h.kept
  silent := h.silent
  carried := by
    intro r' m' hm'
    by_cases hr : r' = r
    · subst hr
      simp only [setEmission, Function.update_self] at hm' ⊢
      exact hcarried m' hm'
    · simp only [setEmission, Function.update_of_ne hr] at hm' ⊢
      exact h.carried r' m' hm'
  waiting := by
    intro r' m' l hm' hl
    by_cases hr : r' = r
    · subst hr
      simp only [setEmission, Function.update_self] at hm'
      exact hwaiting m' l hm' hl
    · simp only [setEmission, Function.update_of_ne hr] at hm'
      exact h.waiting r' m' l hm' hl
  told := by
    intro c b r' hreg
    have ht := h.told c b r' hreg
    by_cases hr : r' = r
    · subst hr
      have hnext : (w.setEmission r' next).emission r' = next := by simp [setEmission]
      obtain ⟨hpassed, hcoming⟩ := htold c b hreg
      refine ht.moves hm rfl rfl rfl rfl ?_ ?_
      · rw [hnext]
        exact hpassed
      · rw [hnext]
        exact hcoming
    · exact ht.frame rfl rfl id id (by simp [setEmission, hr]) rfl rfl

theorem Sound.copyObservers (h : Sound tree w) {r : ι} {m : Emission ι}
    (hm : w.emission r = some m) (hnone : m.waiting = none) :
    Sound tree (w.copyObservers r m) := by
  refine h.moves hm ?_ ?_ fun c b hreg => ⟨?_, ?_⟩
  · rintro m' ⟨⟩
    exact h.carried r m hm
  · rintro m' l ⟨⟩ hl
    obtain rfl := Option.some.inj hl
    exact ⟨h.nodup m.bus, fun c hc => h.observed _ _ hc⟩
  · rintro m' ⟨⟩ (hlt | ⟨_, l, hl, _⟩)
    · exact .inl hlt
    · simp [hnone] at hl
  · intro hd hc hpath hnot
    refine ⟨_, rfl, ?_⟩
    rintro (hlt | ⟨rfl, l, hl, hnotin⟩)
    · exact hnot (.inl hlt)
    · obtain rfl := Option.some.inj hl
      exact hnotin (h.kept _ _ hreg hd hc)

omit [DecidableEq ι] in
/-- The observer at the head of the list is behind the emission, whether it was served or is
gone. -/
theorem Emission.passed_advance {m : Emission ι} {b : ι} {c c' : Nat} {rest : List Nat}
    (hwaiting : m.waiting = some (c :: rest)) (hne : c' ≠ c) :
    Emission.Passed tree { m with waiting := some rest } b c' ↔ m.Passed tree b c' := by
  constructor
  · rintro (hlt | ⟨hb, l, hl, hnot⟩)
    · exact .inl hlt
    · obtain rfl := Option.some.inj hl
      exact .inr ⟨hb, _, hwaiting, by simp [hne, hnot]⟩
  · rintro (hlt | ⟨hb, l, hl, hnot⟩)
    · exact .inl hlt
    · rw [hwaiting] at hl
      obtain rfl := Option.some.inj hl
      exact .inr ⟨hb, _, rfl, fun hin => hnot (List.mem_cons_of_mem _ hin)⟩

theorem Sound.advance (h : Sound tree w) {r : ι} {m : Emission ι} {c : Nat} {rest : List Nat}
    (hm : w.emission r = some m) (hwaiting : m.waiting = some (c :: rest))
    (hdropped : (w.channels c).dropped = true) : Sound tree (w.advance r m rest) := by
  obtain ⟨hnodup, hregs⟩ := h.waiting r m _ hm hwaiting
  refine h.moves hm ?_ ?_ fun c' b hreg => ⟨?_, ?_⟩
  · rintro m' ⟨⟩
    exact h.carried r m hm
  · rintro m' l ⟨⟩ hl
    obtain rfl := Option.some.inj hl
    exact ⟨(List.nodup_cons.mp hnodup).2, fun c' hc' => hregs c' (List.mem_cons_of_mem _ hc')⟩
  · rintro m' ⟨⟩ (hlt | ⟨hb, l, hl, hnot⟩)
    · exact .inl hlt
    · rw [hwaiting] at hl
      obtain rfl := Option.some.inj hl
      exact .inr ⟨hb, _, rfl, fun hin => hnot (List.mem_cons_of_mem _ hin)⟩
  · intro hd _ _ hnot
    by_cases hc : c' = c
    · subst hc
      simp [hdropped] at hd
    · exact ⟨_, rfl, fun hp => hnot ((Emission.passed_advance hwaiting hc).mp hp)⟩

section

variable {r : ι} {m : Emission ι} {c : Nat} {rest : List Nat}

/-- The world after the observer at the head of the list has been sent the event. -/
abbrev delivered (w : BusWorld ι) (r : ι) (m : Emission ι) (c : Nat) (rest : List Nat) :
    BusWorld ι := (w.deliver r m c).advance r m rest

theorem channel_delivered {α : Type} (f : BusChannel ι → α) (w : BusWorld ι) (r : ι)
    (m : Emission ι) (c : Nat) (rest : List Nat)
    (h : f ((w.channels c).push (w.entry r m)) = f (w.channels c)) (c' : Nat) :
    f ((w.delivered r m c rest).channels c') = f (w.channels c') :=
  channel_setChannel f w c _ h c'

theorem delivered_channel (w : BusWorld ι) (r : ι) (m : Emission ι) (c : Nat) (rest : List Nat) :
    (w.delivered r m c rest).channels c = (w.channels c).push (w.entry r m) := by
  simp [delivered, BusWorld.deliver, BusWorld.advance, setChannel, setEmission]

theorem delivered_channel_of_ne {c' : Nat} (h : c' ≠ c) :
    (w.delivered r m c rest).channels c' = w.channels c' := by
  simp [delivered, BusWorld.deliver, BusWorld.advance, setChannel, setEmission, h]

theorem delivered_emission (w : BusWorld ι) (r : ι) (m : Emission ι) (c : Nat)
    (rest : List Nat) :
    (w.delivered r m c rest).emission r = some { m with waiting := some rest } := by
  simp [delivered, BusWorld.advance, setEmission]

theorem delivered_emission_of_ne {r' : ι} (h : r' ≠ r) :
    (w.delivered r m c rest).emission r' = w.emission r' := by
  simp [delivered, BusWorld.deliver, BusWorld.advance, setChannel, setEmission, h]

/-- The observer that is served gets the event of the emission, and no entry before has its
number. -/
theorem Told.delivered {e : RunEvent} (h : Told tree w c m.bus r) (hm : w.emission r = some m)
    (hwaiting : m.waiting = some (c :: rest)) (hnot : c ∉ rest)
    (he : (w.emitted r)[(w.emitted r).length - 1]? = some e)
    (hcarries : tree.Carries r e m.bus m.event) :
    Told tree (w.delivered r m c rest) c m.bus r := by
  have horigin : (w.entry r m).origin = r := rfl
  have hentries : ((w.delivered r m c rest).channels c).entries r =
      (w.channels c).entries r ++ [w.entry r m] := by
    rw [delivered_channel, BusChannel.entries_push, if_pos horigin]
  have hnumber : (w.entry r m).number + 1 = (w.emitted r).length := by
    have hlt := (List.getElem?_eq_some_iff.mp he).1
    simp only [entry]
    omega
  have hfresh : ∀ x ∈ (w.channels c).entries r, x.number < (w.entry r m).number := by
    intro x hx
    have hlt := h.number_lt hx
    by_contra hge
    rcases h.current m hm ⟨x, hx, by omega⟩ with hp | ⟨_, l, hl, hnotin⟩
    · exact Nat.lt_irrefl _ hp
    · rw [hwaiting] at hl
      obtain rfl := Option.some.inj hl
      exact hnotin (List.mem_cons_self ..)
  constructor
  · rw [hentries, List.pairwise_append]
    refine ⟨h.order, List.pairwise_singleton _ _, fun x hx y hy => ?_⟩
    rw [List.mem_singleton.mp hy]
    exact hfresh x hx
  · rw [hentries]
    intro x hx
    rcases List.mem_append.mp hx with hx | hx
    · exact h.events x hx
    · rw [List.mem_singleton.mp hx]
      exact ⟨e, he, hcarries⟩
  · rw [delivered_emission]
    rintro m' ⟨⟩ -
    exact .inr ⟨rfl, rest, rfl, hnot⟩
  · rw [hentries, channel_delivered BusChannel.since w r m c rest rfl,
      channel_delivered BusChannel.dropped w r m c rest rfl]
    intro hd hclosed hpath n hn hlen habandoned
    rcases h.complete hd hclosed hpath n hn hlen habandoned with ⟨x, hx, hxn⟩ | ⟨hlast, -⟩
    · exact .inl ⟨x, List.mem_append_left _ hx, hxn⟩
    · exact .inl ⟨w.entry r m, by simp, by omega⟩

theorem Sound.delivered (h : Sound tree w) (hm : w.emission r = some m)
    (hwaiting : m.waiting = some (c :: rest)) : Sound tree (w.delivered r m c rest) := by
  obtain ⟨hnodup, hregs⟩ := h.waiting r m _ hm hwaiting
  obtain ⟨hnot, hrest⟩ := List.nodup_cons.mp hnodup
  obtain ⟨e, he, hcarries⟩ := h.carried r m hm
  have hsub := channel_delivered BusChannel.subscription w r m c rest rfl
  have hdropped := channel_delivered BusChannel.dropped w r m c rest rfl
  have hsince := channel_delivered BusChannel.since w r m c rest rfl
  have hemission := delivered_emission w r m c rest
  constructor
  · intro b c' hc'
    rw [hsub]
    exact h.observed b c' hc'
  · exact h.nodup
  · intro b c'
    rw [hsub, hdropped]
    exact h.kept b c'
  · intro c' hc'
    simp only [hsub] at hc'
    by_cases hc : c' = c
    · subst hc
      exact absurd (hregs c' (List.mem_cons_self ..)) (hc' m.bus)
    · rw [delivered_channel_of_ne hc]
      exact h.silent c' hc'
  · intro r' m' hm'
    by_cases hr : r' = r
    · subst hr
      rw [hemission] at hm'
      obtain rfl := Option.some.inj hm'
      exact ⟨e, he, hcarries⟩
    · rw [delivered_emission_of_ne hr] at hm'
      exact h.carried r' m' hm'
  · intro r' m' l hm' hl
    simp only [hsub]
    by_cases hr : r' = r
    · subst hr
      rw [hemission] at hm'
      obtain rfl := Option.some.inj hm'
      obtain rfl := Option.some.inj hl
      exact ⟨hrest, fun c' hc' => hregs c' (List.mem_cons_of_mem _ hc')⟩
    · rw [delivered_emission_of_ne hr] at hm'
      exact h.waiting r' m' l hm' hl
  · intro c' b r' hreg
    rw [hsub] at hreg
    have ht := h.told c' b r' hreg
    by_cases hr : r' = r
    swap
    · refine ht.frame ?_ (by rw [hsince]) (by rw [hdropped]; exact id) id
        (delivered_emission_of_ne hr) rfl rfl
      by_cases hc : c' = c
      · subst hc
        have horigin : (w.entry r m).origin ≠ r' := fun heq => hr heq.symm
        rw [delivered_channel, BusChannel.entries_push, if_neg horigin, List.append_nil]
      · rw [delivered_channel_of_ne hc]
    subst hr
    by_cases hc : c' = c
    · subst hc
      have hb : b = m.bus :=
        Subscription.registered.inj (hreg.symm.trans (hregs c' (List.mem_cons_self ..)))
      subst hb
      exact ht.delivered hm hwaiting hnot he hcarries
    · refine ht.moves hm (delivered_channel_of_ne hc) rfl rfl rfl ?_ ?_
      · rw [hemission]
        rintro m' ⟨⟩ hp
        exact (Emission.passed_advance hwaiting hc).mpr hp
      · intro _ _ _ hcome
        exact ⟨_, hemission, fun hp => hcome ((Emission.passed_advance hwaiting hc).mp hp)⟩

end

theorem Sound.prune (h : Sound tree w) (b : ι) : Sound tree (w.prune b) where
  observed := by
    intro b' c hc
    by_cases hb : b' = b
    · subst hb
      simp only [BusWorld.prune, setObservers, Function.update_self, List.mem_filter] at hc
      exact h.observed b' c hc.1
    · simp only [BusWorld.prune, setObservers, Function.update_of_ne hb] at hc
      exact h.observed b' c hc
  nodup := by
    intro b'
    by_cases hb : b' = b
    · subst hb
      simpa [BusWorld.prune, setObservers] using (h.nodup b').filter _
    · simpa [BusWorld.prune, setObservers, hb] using h.nodup b'
  kept := by
    intro b' c hreg hd hc
    have hmem := h.kept b' c hreg hd hc
    have hd' : (w.channels c).dropped = false := hd
    by_cases hb : b' = b
    · subst hb
      simpa [BusWorld.prune, setObservers, hd'] using hmem
    · simpa [BusWorld.prune, setObservers, hb] using hmem
  silent := h.silent
  carried := h.carried
  waiting := h.waiting
  told := fun c b' r hreg => (h.told c b' r hreg).frame rfl rfl id id rfl rfl rfl

/-- An emission that has served the observers of its bus leaves it for the parent. -/
theorem Sound.forward (h : Sound tree w) {r : ι} {m : Emission ι} (hm : w.emission r = some m)
    (hdone : m.waiting = some []) : Sound tree (w.forward tree r m) := by
  obtain ⟨e, he, hcarries⟩ := h.carried r m hm
  have hm' : (w.prune m.bus).emission r = some m := hm
  refine (h.prune m.bus).moves hm' ?_ ?_ fun c b _ => ⟨?_, ?_⟩
  · intro m' hnext
    obtain ⟨⟨p, runId⟩, hparent, rfl⟩ := Option.map_eq_some_iff.mp hnext
    exact ⟨e, he, hcarries.forwarded hparent⟩
  · intro m' l hnext hl
    obtain ⟨⟨p, runId⟩, _, rfl⟩ := Option.map_eq_some_iff.mp hnext
    cases hl
  · intro m' hnext hpassed
    obtain ⟨⟨p, runId⟩, hparent, rfl⟩ := Option.map_eq_some_iff.mp hnext
    have hlt := tree.depth_lt hparent
    rcases hpassed with hlt' | ⟨rfl, -⟩
    · exact .inl (hlt.trans hlt')
    · exact .inl hlt
  · intro _ _ hpath hnot
    have hne : b ≠ m.bus := fun hb => hnot (.inr ⟨hb, [], hdone, List.not_mem_nil⟩)
    obtain ⟨p, runId, hparent, hge⟩ :=
      hpath.parent hcarries.onPath hne fun hlt => hnot (.inl hlt)
    refine ⟨_, by rw [hparent, Option.map_some], ?_⟩
    rintro (hlt | ⟨_, l, hl, _⟩)
    · exact hge hlt
    · cases hl

theorem Sound.giveUp (h : Sound tree w) {r : ι} {m : Emission ι} (hm : w.emission r = some m) :
    Sound tree (w.giveUp r) where
  observed := h.observed
  nodup := h.nodup
  kept := h.kept
  silent := h.silent
  carried := by
    intro r' m' hm'
    by_cases hr : r' = r
    · simp [BusWorld.giveUp, setEmission, hr] at hm'
    · simp only [BusWorld.giveUp, setEmission, Function.update_of_ne hr] at hm' ⊢
      exact h.carried r' m' hm'
  waiting := by
    intro r' m' l hm' hl
    by_cases hr : r' = r
    · simp [BusWorld.giveUp, setEmission, hr] at hm'
    · simp only [BusWorld.giveUp, setEmission, Function.update_of_ne hr] at hm'
      exact h.waiting r' m' l hm' hl
  told := by
    intro c b r' hreg
    have ht := h.told c b r' hreg
    by_cases hr : r' = r
    · subst hr
      have habandoned : (w.giveUp r').abandoned r' =
          w.abandoned r' ++ [(w.emitted r').length - 1] := by
        simp [BusWorld.giveUp]
      constructor
      · exact ht.order
      · exact ht.events
      · intro m' hm'
        simp [BusWorld.giveUp, setEmission] at hm'
      · rw [habandoned]
        intro hd hc hpath n hsince hn hnot
        simp only [List.mem_append, List.mem_singleton, not_or] at hnot
        rcases ht.complete hd hc hpath n hsince hn hnot.1 with hx | ⟨hlast, -⟩
        · exact .inl hx
        · exact absurd (by omega) hnot.2
    · refine ht.frame rfl rfl id id ?_ rfl ?_ <;> simp [BusWorld.giveUp, setEmission, hr]

/-- A step of a channel that sends nothing to it and leaves its registration as it is. -/
theorem Sound.setChannel (h : Sound tree w) (c : Nat) {ch : BusChannel ι}
    (hsub : ∀ b, ch.subscription = .registered b ↔ (w.channels c).subscription = .registered b)
    (hlog : ch.log = (w.channels c).log)
    (hkept : ∀ b, (w.channels c).subscription = .registered b →
      ch.since = (w.channels c).since ∧
        (ch.dropped = false → (w.channels c).dropped = false)) :
    Sound tree (w.setChannel c ch) := by
  have hreg (c' : Nat) (b : ι) : ((w.setChannel c ch).channels c').subscription = .registered b ↔
      (w.channels c').subscription = .registered b := by
    by_cases hc : c' = c
    · subst hc
      simpa [BusWorld.setChannel] using hsub b
    · simp [BusWorld.setChannel, hc]
  have hdropped {c' : Nat} {b : ι} (hr : (w.channels c').subscription = .registered b)
      (hd : ((w.setChannel c ch).channels c').dropped = false) :
      (w.channels c').dropped = false := by
    by_cases hc : c' = c
    · subst hc
      simp only [BusWorld.setChannel, Function.update_self] at hd
      exact (hkept b hr).2 hd
    · simpa [BusWorld.setChannel, hc] using hd
  have hlogs := channel_setChannel BusChannel.log w c ch hlog
  constructor
  · exact fun b c' hc' => (hreg c' b).mpr (h.observed b c' hc')
  · exact h.nodup
  · intro b c' hr hd
    have hr' := (hreg c' b).mp hr
    exact h.kept b c' hr' (hdropped hr' hd)
  · intro c' hnot
    rw [hlogs]
    exact h.silent c' fun b hr => hnot b ((hreg c' b).mpr hr)
  · exact h.carried
  · intro r m l hm hl
    obtain ⟨hnodup, hregs⟩ := h.waiting r m l hm hl
    exact ⟨hnodup, fun c' hc' => (hreg c' _).mpr (hregs c' hc')⟩
  · intro c' b r hr
    have hr' := (hreg c' b).mp hr
    refine (h.told c' b r hr').frame ?_ ?_ (hdropped hr') id rfl rfl rfl
    · rw [BusChannel.entries, hlogs]
      rfl
    · by_cases hc : c' = c
      · subst hc
        simp [BusWorld.setChannel, (hkept b hr').1]
      · simp [BusWorld.setChannel, hc]

theorem Sound.openChannel (h : Sound tree w) {c : Nat} (b : ι)
    (hunused : (w.channels c).subscription = .unused) : Sound tree (w.openChannel c b) := by
  have hnot (b' : ι) : (w.channels c).subscription ≠ .registered b' := by simp [hunused]
  refine h.setChannel c (fun b' => ?_) ?_ fun b' hr => absurd hr (hnot b')
  · refine ⟨fun hr => ?_, fun hr => absurd hr (hnot b')⟩
    by_cases hc : w.closed b = true
    · simp [hc] at hr
    · simp [hc] at hr
  · exact (h.silent c hnot).symm

theorem Sound.receiveFrom (h : Sound tree w) {c : Nat} {x : BusEntry ι}
    {rest : List (BusEntry ι)} (hqueue : (w.channels c).queue = x :: rest) :
    Sound tree (w.receiveFrom c x rest) := by
  refine h.setChannel c (fun b => Iff.rfl) ?_ fun b _ => ⟨rfl, id⟩
  simp [BusChannel.log, hqueue]

theorem Sound.dropReceiver (h : Sound tree w) (c : Nat) : Sound tree (w.dropReceiver c) :=
  h.setChannel c (fun _ => Iff.rfl) rfl fun _ _ => ⟨rfl, fun hd => by cases hd⟩

theorem Sound.joinChannel (h : Sound tree w) (r : ι) (c : Nat) :
    Sound tree (w.joinChannel r c) :=
  h.setChannel c (fun _ => Iff.rfl) rfl fun _ _ => ⟨rfl, id⟩

theorem Sound.markClosed (h : Sound tree w) (b : ι) : Sound tree (w.markClosed b) := by
  have hclosed (b' : ι) (hc : (w.markClosed b).closed b' = false) : w.closed b' = false := by
    by_cases hb : b' = b
    · simp [BusWorld.markClosed, hb] at hc
    · simpa [BusWorld.markClosed, hb] using hc
  exact
    { observed := h.observed
      nodup := h.nodup
      kept := fun b' c hr hd hc => h.kept b' c hr hd (hclosed b' hc)
      silent := h.silent
      carried := h.carried
      waiting := h.waiting
      told := fun c b' r hr => (h.told c b' r hr).frame rfl rfl id (hclosed b') rfl rfl rfl }

theorem Sound.clear (h : Sound tree w) {b : ι} (hclosed : w.closed b = true) :
    Sound tree (w.setObservers b []) where
  observed := by
    intro b' c hc
    by_cases hb : b' = b
    · simp [setObservers, hb] at hc
    · exact h.observed b' c (by simpa [setObservers, hb] using hc)
  nodup := by
    intro b'
    by_cases hb : b' = b
    · simp [setObservers, hb]
    · simpa [setObservers, hb] using h.nodup b'
  kept := by
    intro b' c hr hd hc
    by_cases hb : b' = b
    · rw [hb] at hc
      exact absurd (hclosed.symm.trans hc) (by decide)
    · simpa [setObservers, hb] using h.kept b' c hr hd hc
  silent := h.silent
  carried := h.carried
  waiting := h.waiting
  told := fun c b' r hr => (h.told c b' r hr).frame rfl rfl id id rfl rfl rfl

theorem Sound.registerChannel (h : Sound tree w) {c : Nat} {b : ι}
    (hchecked : (w.channels c).subscription = .checked b) :
    Sound tree (w.registerChannel c b) := by
  have hnot (b' : ι) : (w.channels c).subscription ≠ .registered b' := by simp [hchecked]
  have hself : (w.registerChannel c b).channels c =
      { w.channels c with
        subscription := .registered b
        since := fun r => (w.emitted r).length } := by
    simp [BusWorld.registerChannel, BusWorld.setChannel]
  have hother {c' : Nat} (hc : c' ≠ c) :
      (w.registerChannel c b).channels c' = w.channels c' := by
    simp [BusWorld.registerChannel, BusWorld.setChannel, setObservers, hc]
  have hreg {c' : Nat} {b' : ι} (hr : (w.channels c').subscription = .registered b') :
      ((w.registerChannel c b).channels c').subscription = .registered b' := by
    rw [hother fun hc => hnot b' (hc ▸ hr)]
    exact hr
  have hobservers : (w.registerChannel c b).observers b = w.observers b ++ [c] := by
    simp [BusWorld.registerChannel, BusWorld.setChannel, setObservers]
  have hobservers' {b' : ι} (hb : b' ≠ b) :
      (w.registerChannel c b).observers b' = w.observers b' := by
    simp [BusWorld.registerChannel, BusWorld.setChannel, setObservers, hb]
  constructor
  · intro b' c' hc'
    by_cases hb : b' = b
    · subst hb
      rw [hobservers, List.mem_append, List.mem_singleton] at hc'
      rcases hc' with hc' | rfl
      · exact hreg (h.observed b' c' hc')
      · rw [hself]
    · rw [hobservers' hb] at hc'
      exact hreg (h.observed b' c' hc')
  · intro b'
    by_cases hb : b' = b
    · subst hb
      rw [hobservers, ← List.concat_eq_append]
      exact (h.nodup b').concat fun hc => hnot b' (h.observed b' c hc)
    · rw [hobservers' hb]
      exact h.nodup b'
  · intro b' c' hr hd hclosed
    by_cases hc : c' = c
    · subst hc
      rw [hself] at hr
      obtain rfl := Subscription.registered.inj hr
      simp [hobservers]
    · rw [hother hc] at hr hd
      have hmem := h.kept b' c' hr hd hclosed
      by_cases hb : b' = b
      · subst hb
        rw [hobservers]
        exact List.mem_append_left _ hmem
      · rw [hobservers' hb]
        exact hmem
  · intro c' hc'
    by_cases hc : c' = c
    · subst hc
      exact absurd (by rw [hself]) (hc' b)
    · rw [hother hc] at hc' ⊢
      exact h.silent c' hc'
  · exact h.carried
  · intro r m l hm hl
    obtain ⟨hnodup, hregs⟩ := h.waiting r m l hm hl
    exact ⟨hnodup, fun c' hc' => hreg (hregs c' hc')⟩
  · intro c' b' r hr
    by_cases hc : c' = c
    · subst hc
      -- The channel is new: it has no entries, and every event has begun before it.
      have hentries : ((w.registerChannel c' b).channels c').entries r = [] := by
        have hlog := h.silent c' hnot
        rw [hself, BusChannel.entries]
        exact congrArg (List.filter _) hlog
      constructor
      · simp [hentries]
      · simp [hentries]
      · simp [hentries]
      · rw [hself]
        intro _ _ _ n hsince hn
        exact absurd hn (Nat.not_lt_of_le hsince)
    · rw [hother hc] at hr
      exact (h.told c' b' r hr).frame (by rw [hother hc]) (by rw [hother hc])
        (by rw [hother hc]; exact id) id rfl rfl rfl

theorem Sound.step (h : Sound tree w) (hstep : Step tree w w') : Sound tree w' := by
  cases hstep with
  | emit event idle => exact h.beginEmit event idle
  | copy hm hnone => exact h.copyObservers hm hnone
  | skip hm hwaiting hdropped => exact h.advance hm hwaiting hdropped
  | send hm hwaiting _ _ => exact h.delivered hm hwaiting
  | join _ _ _ => exact h.joinChannel _ _
  | forward hm hdone => exact h.forward hm hdone
  | abandon hm => exact h.giveUp hm
  | subscribe b hunused => exact h.openChannel b hunused
  | register hchecked => exact h.registerChannel hchecked
  | receive hqueue => exact h.receiveFrom hqueue
  | drop c => exact h.dropReceiver c
  | close b => exact h.markClosed b
  | clear hclosed => exact h.clear hclosed

theorem sound_of_acts {actions : List (BusAction ι)} (h : acts tree actions empty = some w) :
    Sound tree w :=
  acts_invariant (fun _ _ hs hstep => hs.step hstep) h (sound_empty tree)

/-- The event of the run `r` with this number began after the channel was registered, and its
emission was not given up. -/
def due (w : BusWorld ι) (c : Nat) (r : ι) (n : Nat) : Bool :=
  decide ((w.channels c).since r ≤ n) && !(w.abandoned r).contains n

/-- An observer gets only events of runs at or below its bus, those of every run in their order and
none of them twice. As long as it listens and the bus is not closed, it gets each event of such a
run that began after its registration and was not given up. -/
theorem events_delivered {actions : List (BusAction ι)} {c : Nat} {b : ι}
    (h : acts tree actions empty = some w)
    (hreg : (w.channels c).subscription = .registered b) :
    (∀ x ∈ (w.channels c).log, tree.OnPath x.origin b ∧
      ∃ e, (w.emitted x.origin)[x.number]? = some e ∧ tree.Carries x.origin e b x.event) ∧
    (∀ r, ((w.channels c).entries r).Pairwise (fun x y => x.number < y.number)) ∧
    ∀ r, tree.OnPath r b → (w.channels c).dropped = false → w.closed b = false →
      w.emission r = none →
      (((w.channels c).entries r).map (·.number)).filter (w.due c r) =
        (List.range (w.emitted r).length).filter (w.due c r) := by
  have htold (r : ι) : Told tree w c b r := (sound_of_acts h).told c b r hreg
  refine ⟨fun x hx => ?_, fun r => (htold r).order, fun r hpath hd hclosed hidle => ?_⟩
  · obtain ⟨e, he, hcarries⟩ := (htold x.origin).events x (BusChannel.mem_entries.mpr ⟨hx, rfl⟩)
    exact ⟨hcarries.onPath, e, he, hcarries⟩
  have ht := htold r
  have hnumbers : (((w.channels c).entries r).map (·.number)).Pairwise (· < ·) :=
    List.pairwise_map.mpr ht.order
  refine (hnumbers.filter _).eq_of_mem_iff (List.pairwise_lt_range.filter _) fun n => ?_
  simp only [List.mem_filter, List.mem_range, and_congr_left_iff]
  intro hdue
  constructor
  · intro hn
    obtain ⟨x, hx, rfl⟩ := List.mem_map.mp hn
    exact ht.number_lt hx
  · intro hn
    simp only [due, Bool.and_eq_true, decide_eq_true_eq, Bool.not_eq_true',
      List.contains_eq_mem, decide_eq_false_iff_not] at hdue
    rcases ht.complete hd hclosed hpath n hdue.1 hn hdue.2 with ⟨x, hx, rfl⟩ | ⟨-, m, hm, -⟩
    · exact List.mem_map_of_mem hx
    · simp [hidle] at hm

end BusWorld

namespace Sample

/-- The bus of a run, `true`, and that of a child run. -/
def busTree : BusTree Bool where
  parent := fun b => if b then none else some (true, "child")
  depth := fun b => if b then 0 else 1
  depth_lt := by
    intro i p runId h
    cases i <;> simp_all

/-- An observer listens to the parent while the child emits two events. -/
def busActions : List (BusAction Bool) :=
  [.subscribe 0 true, .register 0, .emit false (.modelCallStarted 0), .copy false,
    .finish false, .copy false, .send false, .finish false,
    .emit false (.statusChanged .completed), .copy false, .finish false, .receive 0,
    .copy false, .send false, .finish false]

def busWorld : BusWorld Bool := (BusWorld.acts busTree busActions .empty).getD .empty

end Sample

theorem events_delivered_sample :
    ((Sample.busWorld.channels 0).entries false).map (·.event) =
        [.child "child" (.own (.modelCallStarted 0)),
          .child "child" (.own (.statusChanged .completed))] ∧
      (((Sample.busWorld.channels 0).entries false).map (·.number)).filter
          (Sample.busWorld.due 0 false) =
        (List.range (Sample.busWorld.emitted false).length).filter
          (Sample.busWorld.due 0 false) := by
  have h : BusWorld.acts Sample.busTree Sample.busActions .empty = some Sample.busWorld := rfl
  have hpath : Sample.busTree.OnPath false true := .single ⟨"child", rfl⟩
  exact ⟨by decide, (BusWorld.events_delivered h (by decide)).2.2 false hpath (by decide)
    (by decide) rfl⟩

end Agentive
