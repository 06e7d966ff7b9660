import Mathlib.Logic.Relation

/-! Loops that take one turn after another until a turn ends them or gets stuck. What a loop does
is read off the states it reaches and one turn from each of them. -/

namespace DriverLoop

universe u v w

variable {σ : Type u} {τ : Type v} {ρ : Type w}

inductive Turn (σ : Type u) (ρ : Type w)
  | next (s : σ)
  | ended (s : σ) (result : ρ)
  | blocked (s : σ)

/-- The state that a turn leaves. -/
def Turn.state : Turn σ ρ → σ
  | .next s | .ended s _ | .blocked s => s

/-- At most `fuel` turns; without a result the loop has not ended by then. -/
def drive (turn : σ → Turn σ ρ) : Nat → σ → σ × Option ρ
  | 0, s => (s, none)
  | fuel + 1, s =>
    match turn s with
    | .next s => drive turn fuel s
    | .ended s result => (s, some result)
    | .blocked s => (s, none)

/-- The loop comes from the head of one turn to the head of another. -/
abbrev Reaches (turn : σ → Turn σ ρ) : σ → σ → Prop :=
  Relation.ReflTransGen fun s t => turn s = .next t

theorem Reaches.invariant {turn : σ → Turn σ ρ} {s t : σ} {I : σ → Prop} (h : Reaches turn s t)
    (hs : I s) (hstep : ∀ u v, I u → turn u = .next v → I v) : I t := by
  induction h with
  | refl => exact hs
  | tail _ hnext ih => exact hstep _ _ ih hnext

theorem drive_of_next {turn : σ → Turn σ ρ} {s t : σ} (h : turn s = .next t) (fuel : Nat) :
    drive turn (fuel + 1) s = drive turn fuel t := by
  rw [drive, h]

theorem exists_drive_eq {turn : σ → Turn σ ρ} {s t u : σ} {result : ρ} (h : Reaches turn s t)
    (hend : turn t = .ended u result) : ∃ fuel, drive turn fuel s = (u, some result) := by
  induction h using Relation.ReflTransGen.head_induction_on with
  | refl => exact ⟨1, by rw [drive, hend]⟩
  | head hnext _ ih =>
    obtain ⟨fuel, hf⟩ := ih
    exact ⟨fuel + 1, by rw [drive_of_next hnext, hf]⟩

theorem reaches_of_drive {turn : σ → Turn σ ρ} {fuel : Nat} {s u : σ} {result : ρ}
    (h : drive turn fuel s = (u, some result)) :
    ∃ t, Reaches turn s t ∧ turn t = .ended u result := by
  induction fuel generalizing s with
  | zero => simp [drive] at h
  | succ fuel ih =>
    cases ht : turn s with
    | next v =>
      obtain ⟨t, hr, hend⟩ := ih (drive_of_next ht fuel ▸ h)
      exact ⟨t, .head ht hr, hend⟩
    | ended v r =>
      simp only [drive, ht, Prod.mk.injEq, Option.some.injEq] at h
      exact ⟨s, .refl, by rw [ht, h.1, h.2]⟩
    | blocked v => simp [drive, ht] at h

/-- The heads of the turns that a loop takes with this fuel. -/
def visited (turn : σ → Turn σ ρ) : Nat → σ → List σ
  | 0, _ => []
  | fuel + 1, s =>
    s :: match turn s with
      | .next t => visited turn fuel t
      | .ended _ _ | .blocked _ => []

theorem reaches_of_mem_visited {turn : σ → Turn σ ρ} {fuel : Nat} {s t : σ}
    (h : t ∈ visited turn fuel s) : Reaches turn s t := by
  induction fuel generalizing s with
  | zero => cases h
  | succ fuel ih =>
    rw [visited] at h
    rcases List.mem_cons.mp h with rfl | h
    · exact .refl
    · cases hnext : turn s with
      | next u =>
        rw [hnext] at h
        exact .head hnext (ih h)
      | ended u result => simp [hnext] at h
      | blocked u => simp [hnext] at h

theorem Reaches.mem_visited {turn : σ → Turn σ ρ} {fuel : Nat} {s t : σ} (h : Reaches turn s t)
    (hend : (drive turn fuel s).2.isSome = true) : t ∈ visited turn fuel s := by
  induction fuel generalizing s with
  | zero => simp [drive] at hend
  | succ fuel ih =>
    rcases h.cases_head with rfl | ⟨u, hnext, hu⟩
    · exact List.mem_cons_self
    · have htail : t ∈ visited turn fuel u := ih hu (drive_of_next hnext fuel ▸ hend)
      rw [visited, hnext]
      exact List.mem_cons_of_mem _ htail

theorem Reaches.eq_of_stops {turn : σ → Turn σ ρ} {s t u : σ} (ht : Reaches turn s t)
    (hu : Reaches turn s u) (hstop : ∀ v, turn t ≠ .next v) (hstop' : ∀ v, turn u ≠ .next v) :
    t = u := by
  have hunique : Relator.RightUnique fun s t => turn s = .next t := by
    intro a b c hb hc
    exact Turn.next.inj (hb.symm.trans hc)
  rcases Relation.ReflTransGen.total_of_right_unique hunique ht hu with h | h
  · rcases h.cases_head with rfl | ⟨v, hv, _⟩
    · rfl
    · exact absurd hv (hstop v)
  · rcases h.cases_head with rfl | ⟨v, hv, _⟩
    · rfl
    · exact absurd hv (hstop' v)

theorem drive_ended_unique {turn : σ → Turn σ ρ} {fuel fuel' : Nat} {s u u' : σ}
    {result result' : ρ} (h : drive turn fuel s = (u, some result))
    (h' : drive turn fuel' s = (u', some result')) : u = u' ∧ result = result' := by
  obtain ⟨t, ht, hend⟩ := reaches_of_drive h
  obtain ⟨t', ht', hend'⟩ := reaches_of_drive h'
  obtain rfl := ht.eq_of_stops ht' (by simp [hend]) (by simp [hend'])
  exact Turn.ended.inj (hend.symm.trans hend')

/-- What every turn preserves holds at the head of the last turn, so what one turn makes of it
holds where the loop stops or is cut off. -/
theorem drive_invariant {turn : σ → Turn σ ρ} {I J : σ → Prop} (hweak : ∀ s, I s → J s)
    (hnext : ∀ s t, I s → turn s = .next t → I t) (hturn : ∀ s, I s → J (turn s).state)
    (fuel : Nat) (s : σ) (hs : I s) : J (drive turn fuel s).1 := by
  induction fuel generalizing s with
  | zero => exact hweak s hs
  | succ fuel ih =>
    have hj := hturn s hs
    cases ht : turn s with
    | next t =>
      rw [drive_of_next ht]
      exact ih t (hnext s t hs ht)
    | ended t result => simpa [drive, ht, Turn.state] using hj
    | blocked t => simpa [drive, ht, Turn.state] using hj

/-- A loop that goes down with every turn comes to a turn that leads no further. -/
theorem exists_reaches_stop {turn : σ → Turn σ ρ} {I : σ → Prop} {r : σ → σ → Prop}
    (hwf : WellFounded r) (hnext : ∀ s t, I s → turn s = .next t → I t ∧ r t s) (s : σ)
    (hs : I s) : ∃ t, Reaches turn s t ∧ I t ∧ ∀ u, turn t ≠ .next u := by
  induction s using hwf.induction with
  | _ s ih =>
    by_cases hstop : ∃ t, turn s = .next t
    · obtain ⟨t, ht⟩ := hstop
      obtain ⟨hi, hr⟩ := hnext s t hs ht
      obtain ⟨u, hu, hstop⟩ := ih t hr hi
      exact ⟨u, .head ht hu, hstop⟩
    · exact ⟨s, .refl, hs, fun t ht => hstop ⟨t, ht⟩⟩

theorem exists_drive_ended {turn : σ → Turn σ ρ} {I : σ → Prop} {r : σ → σ → Prop}
    (hwf : WellFounded r) (hnext : ∀ s t, I s → turn s = .next t → I t ∧ r t s)
    (hblocked : ∀ s t, I s → turn s ≠ .blocked t) (s : σ) (hs : I s) :
    ∃ fuel t result, drive turn fuel s = (t, some result) := by
  obtain ⟨t, hr, hi, hstop⟩ := exists_reaches_stop hwf hnext s hs
  cases ht : turn t with
  | next u => exact absurd ht (hstop u)
  | ended u result =>
    obtain ⟨fuel, hd⟩ := exists_drive_eq hr ht
    exact ⟨fuel, u, result, hd⟩
  | blocked u => exact absurd ht (hblocked t u hi)

/-- Forward simulation: each turn of one loop is matched by some turns of the other. -/
theorem Reaches.simulate {α : Type u} {β : Type v} {ρ₁ ρ₂ : Type w} {turn₁ : α → Turn α ρ₁}
    {turn₂ : β → Turn β ρ₂} {R : α → β → Prop}
    (hstep : ∀ a b a', R a b → turn₁ a = .next a' → ∃ b', Reaches turn₂ b b' ∧ R a' b')
    {a a' : α} {b : β} (hab : R a b) (h : Reaches turn₁ a a') :
    ∃ b', Reaches turn₂ b b' ∧ R a' b' := by
  induction h with
  | refl => exact ⟨b, .refl, hab⟩
  | tail _ hnext ih =>
    obtain ⟨c, hc, hr⟩ := ih
    obtain ⟨b', hb, hr'⟩ := hstep _ _ _ hr hnext
    exact ⟨b', hc.trans hb, hr'⟩

end DriverLoop
