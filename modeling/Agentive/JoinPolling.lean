import Mathlib.Order.Basic

/-! A join polls its members in order, pass after pass, and stops at the first one that fails.
The members wait for their next poll in a circle: those of the current pass that are still to
come, then those that were polled already. -/

namespace JoinPolling

universe u v

variable {μ : Type u} {ε : Type v}

theorem modify_append (f : μ → μ) (as bs : List μ) (i : Nat) :
    (as ++ bs).modify i f =
      if i < as.length then as.modify i f ++ bs else as ++ bs.modify (i - as.length) f := by
  induction as generalizing i with
  | nil => simp
  | cons a as ih =>
    cases i with
    | zero => simp
    | succ i =>
      simp only [List.cons_append, List.modify_succ_cons, ih, List.length_cons,
        Nat.add_lt_add_iff_right, Nat.add_sub_add_right]
      split <;> rfl

theorem mem_or_exists_of_mem_modify {f : μ → μ} {as : List μ} {i : Nat} {b : μ}
    (h : b ∈ as.modify i f) : b ∈ as ∨ ∃ a ∈ as, b = f a := by
  induction as generalizing i with
  | nil => simp at h
  | cons a as ih =>
    cases i with
    | zero =>
      rw [List.modify_zero_cons] at h
      rcases List.mem_cons.mp h with rfl | h
      · exact .inr ⟨a, by simp, rfl⟩
      · exact .inl (by simp [h])
    | succ i =>
      rw [List.modify_succ_cons] at h
      rcases List.mem_cons.mp h with rfl | h
      · exact .inl (by simp)
      · rcases ih h with h | ⟨c, hc, rfl⟩
        · exact .inl (by simp [h])
        · exact .inr ⟨c, by simp [hc], rfl⟩

theorem pairwise_modify {r : μ → μ → Prop} {f : μ → μ} (hl : ∀ a b, r a b → r (f a) b)
    (hr : ∀ a b, r a b → r a (f b)) {as : List μ} (h : as.Pairwise r) (i : Nat) :
    (as.modify i f).Pairwise r := by
  induction as generalizing i with
  | nil => simp
  | cons a as ih =>
    obtain ⟨ha, has⟩ := List.pairwise_cons.mp h
    cases i with
    | zero =>
      rw [List.modify_zero_cons]
      exact List.pairwise_cons.mpr ⟨fun b hb => hl a b (ha b hb), has⟩
    | succ i =>
      rw [List.modify_succ_cons]
      refine List.pairwise_cons.mpr ⟨fun b hb => ?_, ih has i⟩
      rcases mem_or_exists_of_mem_modify hb with hb | ⟨c, hc, rfl⟩
      · exact ha b hb
      · exact hr a c (ha c hc)

/-- The members polled in the current pass, those still to come, and the failure if there is
one. -/
structure Join (μ : Type u) (ε : Type v) where
  polled : List μ
  waiting : List μ
  failure : Option ε

namespace Join

def start (members : List μ) : Join μ ε := { polled := [], waiting := members, failure := none }

/-- The members in the order of their next polls. -/
def order (j : Join μ ε) : List μ := j.waiting ++ j.polled

def pollNext (poll : μ → Except ε μ) (j : Join μ ε) : Join μ ε :=
  match j.failure, j.waiting with
  | none, m :: rest =>
    match poll m with
    | .error e => { j with failure := some e }
    | .ok m => { j with polled := j.polled ++ [m], waiting := rest }
  | _, _ => j

/-- The next pass. -/
def wake (j : Join μ ε) : Join μ ε := { j with polled := [], waiting := j.order }

/-- A member that changes outside its polls. -/
def modify (i : Nat) (f : μ → μ) (j : Join μ ε) : Join μ ε :=
  if i < j.waiting.length then { j with waiting := j.waiting.modify i f }
  else { j with polled := j.polled.modify (i - j.waiting.length) f }

@[simp] theorem order_start (members : List μ) :
    (start members : Join μ ε).order = members := List.append_nil members

@[simp] theorem order_wake (j : Join μ ε) : j.wake.order = j.order := List.append_nil j.order

@[simp] theorem failure_modify (i : Nat) (f : μ → μ) (j : Join μ ε) :
    (j.modify i f).failure = j.failure := by
  unfold modify
  split <;> rfl

theorem order_modify (i : Nat) (f : μ → μ) (j : Join μ ε) :
    (j.modify i f).order = j.order.modify i f := by
  rw [order, order, modify_append]
  unfold modify
  split <;> rfl

/-- A poll fails at the head of the circle, or it moves the head to the end. -/
theorem pollNext_cases (poll : μ → Except ε μ) (j : Join μ ε) :
    j.pollNext poll = j ∨
    (j.failure = none ∧ ∃ m rest, j.order = m :: rest ∧
      ((∃ e, poll m = .error e ∧ (j.pollNext poll).failure = some e ∧
          (j.pollNext poll).order = j.order) ∨
        ∃ m', poll m = .ok m' ∧ (j.pollNext poll).failure = none ∧
          (j.pollNext poll).order = rest ++ [m'])) := by
  unfold pollNext
  cases hf : j.failure with
  | some e => exact .inl rfl
  | none =>
    cases hw : j.waiting with
    | nil => exact .inl rfl
    | cons m rest =>
      refine .inr ⟨rfl, m, rest ++ j.polled, by simp [order, hw], ?_⟩
      cases hp : poll m with
      | error e => exact .inl ⟨e, rfl, by simp [hp], by simp [order, hp, hw]⟩
      | ok m' => exact .inr ⟨m', rfl, by simp [hp], by simp [order, hp]⟩

theorem pollNext_ok {poll : μ → Except ε μ} {j : Join μ ε} {m m' : μ} {rest : List μ}
    (hf : j.failure = none) (hw : j.waiting = m :: rest) (hp : poll m = .ok m') :
    j.pollNext poll = { polled := j.polled ++ [m'], waiting := rest, failure := none } := by
  simp [pollNext, hf, hw, hp]

theorem pollNext_error {poll : μ → Except ε μ} {j : Join μ ε} {m : μ} {rest : List μ} {e : ε}
    (hf : j.failure = none) (hw : j.waiting = m :: rest) (hp : poll m = .error e) :
    j.pollNext poll = { j with failure := some e } := by
  simp [pollNext, hf, hw, hp]

/-- A relation between earlier and later members of the circle survives a poll, if the polled
member stands in it to everything before its new place. -/
theorem pairwise_pollNext {r : μ → μ → Prop} {poll : μ → Except ε μ} {j : Join μ ε}
    (h : j.order.Pairwise r) (hpoll : ∀ m m', poll m = .ok m' → ∀ a, r a m') :
    (j.pollNext poll).order.Pairwise r := by
  rcases j.pollNext_cases poll with he | ⟨_, m, rest, ho, ⟨e, _, _, hsame⟩ | ⟨m', hp, _, hnew⟩⟩
  · rwa [he]
  · rwa [hsame]
  · rw [hnew, List.pairwise_append]
    rw [ho] at h
    exact ⟨(List.pairwise_cons.mp h).2, List.pairwise_singleton _ _, fun a _ b hb =>
      List.mem_singleton.mp hb ▸ hpoll m m' hp a⟩

end Join

end JoinPolling
