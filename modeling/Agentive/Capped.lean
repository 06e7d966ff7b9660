import Mathlib.Order.Basic

/-! Natural numbers below a fixed cap, with the saturating arithmetic of fixed-width counters.
Every operation is described by its value, so that bounds on counters are left to `omega`. -/

/-- A natural number that never exceeds `cap`. -/
structure Capped (cap : Nat) where
  val : Nat
  le_cap : val ≤ cap
deriving DecidableEq

namespace Capped

variable {cap : Nat}

@[ext] theorem ext {a b : Capped cap} (h : a.val = b.val) : a = b := by
  cases a
  cases b
  simpa using h

/-- The conversion of a number that may be too large: the cap stands in for it. -/
def clamp (n : Nat) : Capped cap := ⟨min n cap, Nat.min_le_right n cap⟩

instance (n : Nat) : OfNat (Capped cap) n := ⟨clamp n⟩

instance : LE (Capped cap) := ⟨fun a b => a.val ≤ b.val⟩
instance : LT (Capped cap) := ⟨fun a b => a.val < b.val⟩
instance (a b : Capped cap) : Decidable (a ≤ b) := inferInstanceAs (Decidable (a.val ≤ b.val))
instance (a b : Capped cap) : Decidable (a < b) := inferInstanceAs (Decidable (a.val < b.val))

def top : Capped cap := ⟨cap, Nat.le_refl cap⟩

def saturatingAdd (a b : Capped cap) : Capped cap := clamp (a.val + b.val)

def saturatingMul (a b : Capped cap) : Capped cap := clamp (a.val * b.val)

def saturatingSub (a b : Capped cap) : Capped cap :=
  ⟨a.val - b.val, Nat.le_trans (Nat.sub_le a.val b.val) a.le_cap⟩

def div (a b : Capped cap) : Capped cap :=
  ⟨a.val / b.val, Nat.le_trans (Nat.div_le_self a.val b.val) a.le_cap⟩

def max (a b : Capped cap) : Capped cap :=
  ⟨Nat.max a.val b.val, Nat.max_le.mpr ⟨a.le_cap, b.le_cap⟩⟩

def min (a b : Capped cap) : Capped cap :=
  ⟨Nat.min a.val b.val, Nat.le_trans (Nat.min_le_left a.val b.val) a.le_cap⟩

/-- A counter read at another width. -/
def cast {cap' : Nat} (a : Capped cap) : Capped cap' := clamp a.val

/-- The running total after one size more, unless it goes beyond the limit. -/
def addWithin (limit total : Capped cap) (size : Nat) : Option (Capped cap) :=
  if limit < total.saturatingAdd (clamp size) then none else some (total.saturatingAdd (clamp size))

@[simp] theorem val_clamp (n : Nat) : (clamp n : Capped cap).val = Min.min n cap := rfl

@[simp] theorem val_zero : (0 : Capped cap).val = 0 := Nat.zero_min cap

@[simp] theorem val_one : (1 : Capped cap).val = Min.min 1 cap := rfl

@[simp] theorem val_top : (top : Capped cap).val = cap := rfl

@[simp] theorem val_saturatingAdd (a b : Capped cap) :
    (a.saturatingAdd b).val = Min.min (a.val + b.val) cap := rfl

@[simp] theorem val_saturatingMul (a b : Capped cap) :
    (a.saturatingMul b).val = Min.min (a.val * b.val) cap := rfl

@[simp] theorem val_saturatingSub (a b : Capped cap) :
    (a.saturatingSub b).val = a.val - b.val := rfl

@[simp] theorem val_div (a b : Capped cap) : (a.div b).val = a.val / b.val := rfl

@[simp] theorem val_max (a b : Capped cap) : (a.max b).val = Max.max a.val b.val := rfl

@[simp] theorem val_min (a b : Capped cap) : (a.min b).val = Min.min a.val b.val := rfl

@[simp] theorem val_cast {cap' : Nat} (a : Capped cap) :
    (a.cast : Capped cap').val = Min.min a.val cap' := rfl

theorem val_of_addWithin {limit total total' : Capped cap} {size : Nat} (hlimit : limit.val < cap)
    (h : limit.addWithin total size = some total') :
    total'.val = total.val + size ∧ total'.val ≤ limit.val := by
  rw [addWithin] at h
  by_cases hlt : limit < total.saturatingAdd (clamp size)
  · rw [if_pos hlt] at h
    cases h
  · rw [if_neg hlt] at h
    obtain rfl := Option.some.inj h
    have hle : (total.saturatingAdd (clamp size)).val ≤ limit.val := Nat.not_lt.mp hlt
    simp only [val_saturatingAdd, val_clamp] at hle ⊢
    omega

theorem le_def {a b : Capped cap} : a ≤ b ↔ a.val ≤ b.val := Iff.rfl

theorem lt_def {a b : Capped cap} : a < b ↔ a.val < b.val := Iff.rfl

end Capped
