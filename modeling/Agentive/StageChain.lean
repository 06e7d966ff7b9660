import Mathlib.Order.Basic

/-! Chains of transformations of which some apply and leave a record. A chain is undone from its
records, the last one first. -/

namespace StageChain

universe u v w

variable {κ : Type u} {α : Type v} {ε : Type w}

/-- A transformation that applied, with the record that it left. -/
structure Step (κ : Type u) (α : Type v) where
  record : κ
  input : α
  output : α

/-- The steps lead from `a` to `b`. -/
def Linked : α → List (Step κ α) → α → Prop
  | a, [], b => a = b
  | a, s :: steps, b => a = s.input ∧ Linked s.output steps b

def undo (back : κ → α → Except ε α) (records : List κ) (b : α) : Except ε α :=
  records.reverse.foldlM (fun b k => back k b) b

variable {back : κ → α → Except ε α}

theorem undo_nil (b : α) : undo back [] b = .ok b := rfl

theorem undo_cons (k : κ) (records : List κ) (b : α) :
    undo back (k :: records) b = undo back records b >>= back k := by
  rw [undo, List.reverse_cons, List.foldlM_append]
  simp [undo]

theorem Linked.undo {a b : α} {steps : List (Step κ α)} (h : Linked a steps b)
    (hback : ∀ s ∈ steps, back s.record s.output = .ok s.input) :
    StageChain.undo back (steps.map (·.record)) b = .ok a := by
  induction steps generalizing a with
  | nil =>
    obtain rfl : a = b := h
    exact undo_nil a
  | cons s steps ih =>
    obtain ⟨rfl, hrest⟩ := h
    obtain ⟨hs, hall⟩ := List.forall_mem_cons.mp hback
    rw [List.map_cons, undo_cons, ih hrest hall]
    exact hs

/-- If no step can be undone to another value than its input, a chain that can be undone is one
of which every step can be undone. -/
theorem Linked.of_undo {a b z : α} {steps : List (Step κ α)} (h : Linked a steps b)
    (hexact : ∀ s ∈ steps, ∀ z, back s.record s.output = .ok z → z = s.input)
    (hu : StageChain.undo back (steps.map (·.record)) b = .ok z) :
    z = a ∧ ∀ s ∈ steps, back s.record s.output = .ok s.input := by
  induction steps generalizing a z with
  | nil =>
    obtain rfl : a = b := h
    exact ⟨(Except.ok.inj hu).symm, by simp⟩
  | cons s steps ih =>
    obtain ⟨rfl, hrest⟩ := h
    obtain ⟨hs, hall⟩ := List.forall_mem_cons.mp hexact
    rw [List.map_cons, undo_cons] at hu
    cases hy : StageChain.undo back (steps.map (·.record)) b with
    | error e => simp [hy, bind, Except.bind] at hu
    | ok y =>
      obtain ⟨rfl, hback⟩ := ih hrest hall hy
      have hz : back s.record s.output = .ok z := by simpa [hy, bind, Except.bind] using hu
      obtain rfl := hs z hz
      exact ⟨rfl, List.forall_mem_cons.mpr ⟨hz, hback⟩⟩

end StageChain
