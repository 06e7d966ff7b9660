import Mathlib.Algebra.BigOperators.Group.List.Basic
import Mathlib.Algebra.GroupWithZero.Nat
import Mathlib.Algebra.Order.Group.Nat

/-! Spending under a limit when the books run ahead of the spending: an amount is charged before
or after it is spent, and shares of what is left are handed out for others to spend. -/

namespace Allowance

/-- All that was spent has been charged, and stays within the limit. -/
structure Covered (limit charged spent : Nat) : Prop where
  charged : spent ≤ charged
  limit : spent ≤ limit

variable {limit charged charged' spent cost : Nat}

theorem covered_zero (limit charged : Nat) : Covered limit charged 0 :=
  ⟨Nat.zero_le _, Nat.zero_le _⟩

theorem Covered.spent_add_le (h : Covered limit charged spent) (hcost : cost ≤ limit - charged) :
    spent + cost ≤ limit := by
  have h1 := h.charged
  have h2 := h.limit
  omega

/-- Spending what is left keeps the books covered when they charge it up to the limit. -/
theorem Covered.spend (h : Covered limit charged spent) (hcost : cost ≤ limit - charged)
    (hcharge : min (charged + cost) limit ≤ charged') : Covered limit charged' (spent + cost) := by
  have h1 := h.charged
  have h2 := h.spent_add_le hcost
  exact ⟨by omega, h2⟩

/-- With one share kept back, `n` equal shares of an amount do not use it up. -/
theorem mul_share_lt (n : Nat) {amount : Nat} (h : 0 < amount) :
    n * (amount / (n + 1)) < amount := by
  by_cases hzero : amount / (n + 1) = 0
  · rw [hzero]
    omega
  · have hle := Nat.div_mul_le_self amount (n + 1)
    have hlt : n * (amount / (n + 1)) < (n + 1) * (amount / (n + 1)) :=
      Nat.mul_lt_mul_of_pos_right (Nat.lt_succ_self n) (Nat.pos_of_ne_zero hzero)
    rw [Nat.mul_comm] at hle
    omega

theorem mul_share_le (n amount : Nat) : n * (amount / (n + 1)) ≤ amount := by
  by_cases h : 0 < amount
  · exact Nat.le_of_lt (mul_share_lt n h)
  · simp [Nat.eq_zero_of_not_pos h]

/-- Costs of at most a share each, borne only by the members that get a share. -/
theorem sum_le_mul_share {α : Type} {cost : α → Nat} {shares : α → Bool} {share : Nat}
    (members : List α) (hshare : ∀ a ∈ members, shares a = true → cost a ≤ share)
    (hfree : ∀ a ∈ members, shares a = false → cost a = 0) :
    (members.map cost).sum ≤ (members.filter shares).length * share := by
  induction members with
  | nil => simp
  | cons a members ih =>
    have hrest := ih (fun b hb => hshare b (by simp [hb])) (fun b hb => hfree b (by simp [hb]))
    cases ha : shares a with
    | true =>
      have hle := hshare a (by simp) ha
      simp only [List.map_cons, List.sum_cons, List.filter_cons_of_pos ha, List.length_cons,
        Nat.succ_mul]
      omega
    | false =>
      have hzero := hfree a (by simp) ha
      rw [List.filter_cons_of_neg (by simp [ha])]
      simpa [hzero] using hrest

end Allowance
