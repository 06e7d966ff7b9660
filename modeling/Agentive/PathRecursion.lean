import Mathlib.Data.List.Basic

/-! Recursion with labels. A call goes to something of a lower rank, or below a label that is not
on the path to it yet; the labels that are left bound how deep the calls go. -/

namespace PathRecursion

universe u v

section

variable {κ : Type u} [DecidableEq κ] {labels path : List κ} {label : κ} {top rank rank' : Nat}

/-- The labels that are not on the path. -/
def unseen (labels path : List κ) : List κ := labels.filter (· ∉ path)

theorem unseen_concat (labels path : List κ) (label : κ) :
    unseen labels (path ++ [label]) = (unseen labels path).filter (· ≠ label) := by
  rw [unseen, unseen, List.filter_filter]
  apply List.filter_congr
  intro l _
  by_cases hl : l = label
  · simp [hl]
  · simp [hl]

theorem length_unseen_concat_lt (hmem : label ∈ labels) (hfresh : label ∉ path) :
    (unseen labels (path ++ [label])).length < (unseen labels path).length := by
  have hunseen : label ∈ unseen labels path :=
    List.mem_filter.mpr ⟨hmem, decide_eq_true hfresh⟩
  rw [unseen_concat]
  apply List.length_filter_lt_length_iff_exists.mpr
  exact ⟨label, hunseen, by simp⟩

/-- How deep the calls from something of this rank go, where all that is below a label has a rank
below `top`. -/
def callDepth (labels path : List κ) (top rank : Nat) : Nat :=
  rank + (unseen labels path).length * top

theorem callDepth_lt_of_rank (h : rank' < rank) :
    callDepth labels path top rank' < callDepth labels path top rank :=
  Nat.add_lt_add_right h _

theorem callDepth_lt_of_label (hmem : label ∈ labels) (hfresh : label ∉ path)
    (hrank : rank' < top) :
    callDepth labels (path ++ [label]) top rank' < callDepth labels path top rank := by
  have hlt := length_unseen_concat_lt hmem hfresh
  have hmul := Nat.mul_le_mul_right top (Nat.succ_le_of_lt hlt)
  have hsucc := Nat.succ_mul (unseen labels (path ++ [label])).length top
  show rank' + _ < rank + _
  omega

end

section

variable {α : Type u} {ρ : Type v} {run : Nat → α → Option ρ} {calls : α → α → Prop}

/-- With one step more than it needs for each of its calls, the recursion has an answer. -/
def AnswersCalls (run : Nat → α → Option ρ) (calls : α → α → Prop) : Prop :=
  ∀ fuel a, (∀ b, calls a b → ∃ r, run fuel b = some r) → ∃ r, run (fuel + 1) a = some r

/-- Where no call goes as deep as its caller, the recursion comes to an end. -/
theorem AnswersCalls.answers (h : AnswersCalls run calls) {depth : α → Nat}
    (hdepth : ∀ a b, calls a b → depth b < depth a) {fuel : Nat} {a : α} (hfuel : depth a < fuel) :
    ∃ r, run fuel a = some r := by
  induction fuel generalizing a with
  | zero => omega
  | succ fuel ih =>
    apply h
    intro b hb
    have hlt := hdepth a b hb
    exact ih (by omega)

end

end PathRecursion
