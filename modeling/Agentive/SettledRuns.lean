import Mathlib.Data.List.Forall2

/-! Runs that are compared at their quiet states only. Between two quiet states a system may take
any number of steps, as long as every state on the way settles to the same one. -/

namespace SettledRuns

universe u v

/-- A system with the state that each of its states settles to. A state that will get quiet gets
nearer to it with every step. -/
structure System (σ : Type u) where
  step : σ → σ
  quiet : σ → Bool
  settle : σ → σ
  rank : σ → Nat
  inv : σ → Prop
  inv_step : ∀ {s}, inv s → inv (step s)
  settle_of_quiet : ∀ {s}, quiet s = true → settle s = s
  settle_step : ∀ {s}, inv s → quiet s = false → settle (step s) = settle s
  rank_step : ∀ {s}, inv s → quiet s = false → quiet (settle s) = true → rank (step s) < rank s

namespace System

variable {σ : Type u} {τ : Type v}

/-- The states of the first `n` steps, the one before them included. -/
def run (A : System σ) : Nat → σ → List σ
  | 0, s => [s]
  | n + 1, s => s :: A.run n (A.step s)

def settled (A : System σ) (n : Nat) (s : σ) : List σ := (A.run n s).filter A.quiet

variable {A : System σ} {B : System τ} {s : σ} {t : τ}

theorem settled_succ (n : Nat) (s : σ) :
    A.settled (n + 1) s = (if A.quiet s then [s] else []) ++ A.settled n (A.step s) := by
  by_cases h : A.quiet s = true
  · simp [settled, run, h]
  · simp [settled, run, h]

/-- Once a state gets quiet, its run shows the quiet state and goes on from there. -/
theorem settled_settle (hinv : A.inv s) (hq : A.quiet (A.settle s) = true) :
    ∃ j, ∀ m, A.settled (j + m) s = A.settled m (A.settle s) := by
  induction hk : A.rank s using Nat.strongRecOn generalizing s with
  | _ k ih =>
    by_cases h : A.quiet s = true
    · refine ⟨0, fun m => ?_⟩
      rw [A.settle_of_quiet h, Nat.zero_add]
    · have hn : A.quiet s = false := by simpa using h
      have hstep := A.settle_step hinv hn
      have hlt := A.rank_step hinv hn hq
      obtain ⟨j, hj⟩ := ih _ (hk ▸ hlt) (A.inv_step hinv) (by rw [hstep]; exact hq) rfl
      refine ⟨j + 1, fun m => ?_⟩
      have hm : j + 1 + m = j + m + 1 := by omega
      rw [hm, settled_succ, if_neg h, hj m, hstep]
      rfl

/-- Two states that settle to related ones, and of which both are quiet or none. -/
structure Paired (A : System σ) (B : System τ) (R : σ → τ → Prop) (s : σ) (t : τ) : Prop where
  left : A.inv s
  right : B.inv t
  quiet : A.quiet s = B.quiet t
  settles : R (A.settle s) (B.settle t)

/-- Related states are quiet together, and related quiet states step to paired ones. -/
structure Simulates (A : System σ) (B : System τ) (R : σ → τ → Prop) : Prop where
  quiet : ∀ {s t}, R s t → A.quiet s = B.quiet t
  step : ∀ {s t}, R s t → A.quiet s = true → Paired A B R (A.step s) (B.step t)
  right : ∀ {s t}, R s t → B.inv t

theorem Paired.related {R : σ → τ → Prop} (h : Paired A B R s t) (hq : A.quiet s = true) :
    R s t := by
  have hs := h.settles
  rwa [A.settle_of_quiet hq, B.settle_of_quiet (h.quiet ▸ hq)] at hs

/-- However many steps one run takes, the other has shown the same quiet states at some time. -/
theorem Simulates.visits {R : σ → τ → Prop} (hsim : Simulates A B R) (n : Nat)
    (h : Paired A B R s t) : ∃ m, List.Forall₂ R (A.settled n s) (B.settled m t) := by
  induction n generalizing s t with
  | zero =>
    refine ⟨0, ?_⟩
    by_cases hq : A.quiet s = true
    · have ht : B.quiet t = true := h.quiet ▸ hq
      have hr : R s t := h.related hq
      simpa [System.settled, run, hq, ht] using hr
    · have ht : ¬ B.quiet t = true := h.quiet ▸ hq
      simp [System.settled, run, hq, ht]
  | succ n ih =>
    by_cases hq : A.quiet s = true
    · have ht : B.quiet t = true := h.quiet ▸ hq
      have hr : R s t := h.related hq
      obtain ⟨m, hm⟩ := ih (hsim.step hr hq)
      refine ⟨m + 1, ?_⟩
      rw [settled_succ, settled_succ, if_pos hq, if_pos ht]
      exact .cons hr hm
    · have hn : A.quiet s = false := by simpa using hq
      have ht : B.quiet t = false := h.quiet ▸ hn
      have hstep := A.settle_step h.left hn
      rw [settled_succ, if_neg hq]
      by_cases hs : A.quiet (A.step s) = true
      -- The left run gets quiet with this step, so the right one is led to its quiet state.
      · have heq : A.settle s = A.step s := hstep ▸ A.settle_of_quiet hs
        have hr : R (A.step s) (B.settle t) := heq ▸ h.settles
        have hqt : B.quiet (B.settle t) = true := hsim.quiet hr ▸ hs
        obtain ⟨j, hj⟩ := settled_settle h.right hqt
        have hpair : Paired A B R (A.step s) (B.settle t) :=
          { left := A.inv_step h.left
            right := hsim.right hr
            quiet := hsim.quiet hr
            settles := by rwa [A.settle_of_quiet hs, B.settle_of_quiet hqt] }
        obtain ⟨m, hm⟩ := ih hpair
        exact ⟨j + m, by simpa [hj m] using hm⟩
      · have hpair : Paired A B R (A.step s) t :=
          { left := A.inv_step h.left
            right := h.right
            quiet := by rw [ht]; simpa using hs
            settles := hstep.symm ▸ h.settles }
        obtain ⟨m, hm⟩ := ih hpair
        exact ⟨m, by simpa using hm⟩

end System

end SettledRuns
