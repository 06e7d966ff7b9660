import Mathlib.Data.List.Induction
import Mathlib.Order.Basic

/-! Words that carry no lengths, read from their end: a separator in front of a word that is free
of it, and an ascending run of symbols in front of which one of its own members is repeated. -/

namespace Framing

universe u v

variable {α : Type u} {β : Type v}

theorem separator_inj {z : α} {a b l m : List α} (hl : z ∉ l) (hm : z ∉ m)
    (h : a ++ z :: l = b ++ z :: m) : a = b ∧ l = m := by
  rcases List.append_eq_append_iff.mp h with ⟨c, rfl, hc⟩ | ⟨c, rfl, hc⟩
  · cases c with
    | nil => exact ⟨by simp, List.cons.inj hc |>.2⟩
    | cons x c =>
      obtain ⟨rfl, rfl⟩ := List.cons.inj hc
      exact absurd (by simp) hl
  · cases c with
    | nil => exact ⟨by simp, (List.cons.inj hc).2.symm⟩
    | cons x c =>
      obtain ⟨rfl, rfl⟩ := List.cons.inj hc
      exact absurd (by simp) hm

section

variable {code : β → List α} {width : Nat} (hwidth : ∀ x, (code x).length = width)
  (hinj : Function.Injective code)

include hwidth

theorem length_flatMap (vs : List β) : (vs.flatMap code).length = vs.length * width := by
  induction vs with
  | nil => simp
  | cons v vs ih =>
    rw [List.flatMap_cons, List.length_append, ih, hwidth, List.length_cons, Nat.succ_mul]
    omega

include hinj

theorem flatMap_inj {vs ws : List β} (hlen : vs.length = ws.length)
    (h : vs.flatMap code = ws.flatMap code) : vs = ws := by
  induction vs generalizing ws with
  | nil => exact (List.length_eq_zero_iff.mp hlen.symm).symm
  | cons v vs ih =>
    cases ws with
    | nil => simp at hlen
    | cons w ws =>
      rw [List.flatMap_cons, List.flatMap_cons] at h
      obtain ⟨hcode, hrest⟩ := List.append_inj h (by rw [hwidth, hwidth])
      rw [hinj hcode, ih (by simpa using hlen) hrest]

/-- A run cannot be longer than another one that ends the same word: its symbol in front of the
other run would be below all members of that run, and the mark there is one of them. -/
theorem run_inj_of_length_le [Preorder β] {a b : List α} {e f : β} {vs ws : List β}
    (hws : ws.Pairwise (· < ·)) (he : e ∈ vs) (hlen : vs.length ≤ ws.length)
    (h : a ++ code e ++ vs.flatMap code = b ++ code f ++ ws.flatMap code) :
    a = b ∧ e = f ∧ vs = ws := by
  obtain ⟨us, ws', rfl, hlen'⟩ : ∃ us ws', ws = us ++ ws' ∧ vs.length = ws'.length := by
    refine ⟨ws.take (ws.length - vs.length), ws.drop (ws.length - vs.length),
      (List.take_append_drop _ _).symm, ?_⟩
    rw [List.length_drop]
    omega
  rw [List.flatMap_append, ← List.append_assoc] at h
  obtain ⟨hfront, hrun⟩ := List.append_inj' h (by
    rw [length_flatMap hwidth, length_flatMap hwidth, hlen'])
  obtain rfl := flatMap_inj hwidth hinj hlen' hrun
  cases us using List.reverseRecOn with
  | nil =>
    rw [List.flatMap_nil, List.append_nil] at hfront
    obtain ⟨hab, hcode⟩ := List.append_inj' hfront (by rw [hwidth, hwidth])
    exact ⟨hab, hinj hcode, rfl⟩
  | append_singleton us u =>
    rw [List.flatMap_append, List.flatMap_singleton, ← List.append_assoc] at hfront
    obtain ⟨_, hcode⟩ := List.append_inj' hfront (by rw [hwidth, hwidth])
    obtain rfl := hinj hcode
    have hbelow := (List.pairwise_append.mp hws).2.2 e (by simp) e he
    exact absurd hbelow (lt_irrefl e)

theorem run_inj [Preorder β] {a b : List α} {e f : β} {vs ws : List β}
    (hvs : vs.Pairwise (· < ·)) (hws : ws.Pairwise (· < ·)) (he : e ∈ vs) (hf : f ∈ ws)
    (h : a ++ code e ++ vs.flatMap code = b ++ code f ++ ws.flatMap code) :
    a = b ∧ e = f ∧ vs = ws := by
  rcases Nat.le_total vs.length ws.length with hlen | hlen
  · exact run_inj_of_length_le hwidth hinj hws he hlen h
  · obtain ⟨hab, hef, hvw⟩ := run_inj_of_length_le hwidth hinj hvs hf hlen h.symm
    exact ⟨hab.symm, hef.symm, hvw.symm⟩

end

end Framing
