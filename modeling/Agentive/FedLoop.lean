import Agentive.DriverLoop

/-! Loops whose turns are fed from a list, one entry a turn. What such a loop has come to is read
off the entries that it has taken. -/

namespace DriverLoop

universe u v w

variable {ι : Type u} {σ : Type v} {ρ : Type w} {step : ι → σ → Turn σ ρ}

/-- The loop takes one entry a turn. Without a result it waits, or the entries are used up. -/
def feed (step : ι → σ → Turn σ ρ) : List ι → σ → σ × Option ρ
  | [], s => (s, none)
  | i :: rest, s =>
    match step i s with
    | .next t => feed step rest t
    | .ended t result => (t, some result)
    | .blocked t => (t, none)

theorem feed_cons_next {i : ι} {s t : σ} (rest : List ι) (h : step i s = .next t) :
    feed step (i :: rest) s = feed step rest t := by
  rw [feed, h]

theorem feed_cons_ended {i : ι} {s t : σ} {result : ρ} (rest : List ι)
    (h : step i s = .ended t result) : feed step (i :: rest) s = (t, some result) := by
  rw [feed, h]

/-- The entries lead the loop from one head to another. -/
inductive Fed (step : ι → σ → Turn σ ρ) : List ι → σ → σ → Prop
  | nil (s : σ) : Fed step [] s s
  | snoc {entries : List ι} {i : ι} {s t u : σ} (h : Fed step entries s t)
      (hstep : step i t = .next u) : Fed step (entries ++ [i]) s u

theorem Fed.cons {entries : List ι} {i : ι} {s t u : σ} (hstep : step i s = .next t)
    (h : Fed step entries t u) : Fed step (i :: entries) s u := by
  induction h with
  | nil => exact .snoc (.nil _) hstep
  | snoc _ hlast ih => exact .snoc (ih hstep) hlast

/-- What holds at the start and after each entry holds of the entries that have been taken. -/
theorem Fed.invariant {entries : List ι} {s t : σ} {I : List ι → σ → Prop}
    (h : Fed step entries s t) (hstart : I [] s)
    (hstep : ∀ entries i u v, I entries u → step i u = .next v → I (entries ++ [i]) v) :
    I entries t := by
  induction h with
  | nil => exact hstart
  | snoc _ hnext ih => exact hstep _ _ _ _ (ih hstart) hnext

/-- A loop that has ended was ended by one entry, and none of the later ones was taken. -/
theorem fed_of_feed {entries : List ι} {s u : σ} {result : ρ}
    (h : feed step entries s = (u, some result)) :
    ∃ before last after t, entries = before ++ last :: after ∧ Fed step before s t ∧
      step last t = .ended u result := by
  induction entries generalizing s with
  | nil => cases h
  | cons i rest ih =>
    rw [feed] at h
    cases hstep : step i s with
    | next v =>
      simp only [hstep] at h
      obtain ⟨before, last, after, t, rfl, hfed, hend⟩ := ih h
      exact ⟨i :: before, last, after, t, rfl, hfed.cons hstep, hend⟩
    | ended v r =>
      simp only [hstep, Prod.mk.injEq, Option.some.injEq] at h
      obtain ⟨rfl, rfl⟩ := h
      exact ⟨[], i, rest, s, rfl, .nil s, hstep⟩
    | blocked v => simp [hstep] at h

/-- Where a fed loop stands: it has taken all entries, or its last turn led no further. -/
theorem fed_cases (step : ι → σ → Turn σ ρ) (entries : List ι) (s : σ) :
    ∃ before t, Fed step before s t ∧
      ((before = entries ∧ (feed step entries s).1 = t) ∨
        ∃ last after, entries = before ++ last :: after ∧
          (feed step entries s).1 = (step last t).state) := by
  induction entries generalizing s with
  | nil => exact ⟨[], s, .nil s, .inl ⟨rfl, rfl⟩⟩
  | cons i rest ih =>
    cases hstep : step i s with
    | next v =>
      obtain ⟨before, t, hfed, ⟨rfl, hfeed⟩ | ⟨last, after, rfl, hfeed⟩⟩ := ih v
      · exact ⟨_, t, hfed.cons hstep, .inl ⟨rfl, by rw [feed_cons_next _ hstep, hfeed]⟩⟩
      · exact ⟨_, t, hfed.cons hstep,
          .inr ⟨last, after, rfl, by rw [feed_cons_next _ hstep, hfeed]⟩⟩
    | ended v r =>
      refine ⟨[], s, .nil s, .inr ⟨i, rest, rfl, ?_⟩⟩
      rw [feed, hstep]
      rfl
    | blocked v =>
      refine ⟨[], s, .nil s, .inr ⟨i, rest, rfl, ?_⟩⟩
      rw [feed, hstep]
      rfl

/-- Some entries of the list, each of them in `D`, are left out. -/
inductive Thinned (D : ι → Prop) : List ι → List ι → Prop
  | nil : Thinned D [] []
  | keep (i : ι) {entries kept : List ι} (h : Thinned D entries kept) :
      Thinned D (i :: entries) (i :: kept)
  | drop {i : ι} {entries kept : List ι} (hi : D i) (h : Thinned D entries kept) :
      Thinned D (i :: entries) kept

theorem Thinned.refl {D : ι → Prop} (entries : List ι) : Thinned D entries entries := by
  induction entries with
  | nil => exact .nil
  | cons i rest ih => exact .keep i ih

theorem Thinned.drop_between {D : ι → Prop} {i : ι} (hi : D i) (before after : List ι) :
    Thinned D (before ++ i :: after) (before ++ after) := by
  induction before with
  | nil => exact .drop hi (.refl after)
  | cons j rest ih => exact .keep j ih

/-- Entries that the loop passes over make no difference. -/
theorem feed_thinned {D : ι → Prop} {entries kept : List ι} (h : Thinned D entries kept)
    (hpass : ∀ i ∈ entries, D i → ∀ s, step i s = .next s) (s : σ) :
    feed step entries s = feed step kept s := by
  induction h generalizing s with
  | nil => rfl
  | keep i _ ih =>
    have hrest := ih fun j hj => hpass j (List.mem_cons_of_mem _ hj)
    rw [feed, feed]
    cases step i s with
    | next t => exact hrest t
    | ended t result => rfl
    | blocked t => rfl
  | drop hi _ ih =>
    rw [feed, hpass _ List.mem_cons_self hi s]
    exact ih (fun j hj => hpass j (List.mem_cons_of_mem _ hj)) s

end DriverLoop
