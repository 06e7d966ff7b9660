import Mathlib.Logic.Function.Basic

/-! Operations that interleave in small steps, and an object that performs each of them at once.
The steps of an operation refine the object if one of them is its commit and the others do
nothing at the object. -/

namespace AtomicObject

universe u v w

variable {ι : Type u} {α : Type v} {ρ : Type w}

/-- The steps of any operations, one after another. -/
inductive Run {σ : Type v} (step : ι → σ → σ → Prop) : List ι → σ → σ → Prop
  | nil (s : σ) : Run step [] s s
  | cons {i : ι} {l : List ι} {s t u : σ} (head : step i s t) (tail : Run step l t u) :
      Run step (i :: l) s u

/-- An object and the replies that it has given. -/
structure Served (ι : Type u) (α : Type v) (ρ : Type w) where
  object : α
  replies : ι → Option ρ

/-- A step as the object sees it: nothing, or the one commit of the operation. -/
inductive Serve [DecidableEq ι] (perform : ι → α → ρ × α) (i : ι) :
    Served ι α ρ → Served ι α ρ → Prop
  | idle (a : Served ι α ρ) : Serve perform i a a
  | commit (a : Served ι α ρ) (fresh : a.replies i = none) :
      Serve perform i a
        ⟨(perform i a.object).2, Function.update a.replies i (some (perform i a.object).1)⟩

namespace Run

variable {σ : Type v} {step : ι → σ → σ → Prop} {l m : List ι} {s t : σ}

theorem invariant {I : σ → Prop} (hstep : ∀ i s t, I s → step i s t → I t) (h : Run step l s t)
    (hs : I s) : I t := by
  induction h with
  | nil => exact hs
  | cons head _ ih => exact ih (hstep _ _ _ hs head)

/-- Forward simulation, step by step and under the same labels. -/
theorem simulate {β : Type w} {step' : ι → β → β → Prop} {R : σ → β → Prop}
    (hstep : ∀ i s t b, R s b → step i s t → ∃ c, step' i b c ∧ R t c) (h : Run step l s t)
    {b : β} (hb : R s b) : ∃ c, Run step' l b c ∧ R t c := by
  induction h generalizing b with
  | nil => exact ⟨b, .nil b, hb⟩
  | cons head _ ih =>
    obtain ⟨c, hhead, hc⟩ := hstep _ _ _ _ hb head
    obtain ⟨d, htail, hd⟩ := ih hc
    exact ⟨d, .cons hhead htail, hd⟩

end Run

end AtomicObject
