/-! Computations that change a state and return a value, fail, or never end. What they do is said
by a triple with one condition for each of the three. -/

universe u v w

/-- A computation over the states `σ` that can fail with `ε`. Without an outcome it never ends. -/
def Exchange (σ : Type u) (ε : Type v) (α : Type w) := σ → σ × Option (Except ε α)

namespace Exchange

variable {σ ε α β : Type u}

/-- An outcome that leaves the state. -/
def done (outcome : Option (Except ε α)) : Exchange σ ε α := fun s => (s, outcome)

def fail (e : ε) : Exchange σ ε α := done (some (.error e))

/-- What comes after the first computation, if it returns. -/
def andThen (x : Exchange σ ε α) (f : α → Exchange σ ε β) : Exchange σ ε β := fun s =>
  match x s with
  | (t, some (.ok a)) => f a t
  | (t, some (.error e)) => (t, some (.error e))
  | (t, none) => (t, none)

instance : Monad (Exchange σ ε) where
  pure a := done (some (.ok a))
  bind := andThen

/-- The conditions under which a computation may stand: after a value, after an error, and while
it does not end. -/
structure Post (σ ε α : Type u) where
  ok : α → σ → Prop
  error : ε → σ → Prop
  waits : σ → Prop

def Post.Holds (Q : Post σ ε α) : σ × Option (Except ε α) → Prop
  | (s, some (.ok a)) => Q.ok a s
  | (s, some (.error e)) => Q.error e s
  | (s, none) => Q.waits s

def Triple (P : σ → Prop) (x : Exchange σ ε α) (Q : Post σ ε α) : Prop := ∀ s, P s → Q.Holds (x s)

variable {P P' : σ → Prop} {x : Exchange σ ε α} {f : α → Exchange σ ε β} {Q : Post σ ε α}
  {R : Post σ ε β}

/-- The rule of sequence: errors and waiting of the first computation are those of the whole. -/
theorem Triple.bind {M : α → σ → Prop}
    (hx : Triple P x { ok := M, error := R.error, waits := R.waits })
    (hf : ∀ a, Triple (M a) (f a) R) : Triple P (x >>= f) R := by
  intro s hs
  have hfirst := hx s hs
  show R.Holds (andThen x f s)
  rw [andThen]
  generalize x s = result at hfirst
  obtain ⟨t, _ | e | a⟩ := result
  · exact hfirst
  · exact hfirst
  · exact hf a t hfirst

/-- The rule of consequence. -/
theorem Triple.weaken {Q' : Post σ ε α} (h : Triple P x Q) (hP : ∀ s, P' s → P s)
    (hok : ∀ a s, Q.ok a s → Q'.ok a s) (herror : ∀ e s, Q.error e s → Q'.error e s)
    (hwaits : ∀ s, Q.waits s → Q'.waits s) : Triple P' x Q' := by
  intro s hs
  have hx := h s (hP s hs)
  generalize x s = result at hx ⊢
  obtain ⟨t, _ | e | a⟩ := result
  · exact hwaits t hx
  · exact herror e t hx
  · exact hok a t hx

/-- A condition that does not speak of the state is known before the computation starts. -/
theorem Triple.assume {fact : Prop} (h : fact → Triple P x Q) :
    Triple (fun s => P s ∧ fact) x Q := fun s hs => h hs.2 s hs.1

end Exchange
