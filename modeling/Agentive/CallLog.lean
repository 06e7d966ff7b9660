import Mathlib.Data.List.Forall2
import Mathlib.Data.List.Induction

/-! Logs in which a group of calls is followed by the results of its calls, in call order and
with nothing between. Reading such a log from left to right keeps the queue of calls that still
wait for a result. -/

namespace CallLog

universe u v

variable {α : Type u} {β : Type v}

inductive Entry (α : Type u) (β : Type v)
  | plain
  | calls (as : List α)
  | result (b : β)

variable (answers : α → β → Prop) (admissible : List α → Prop)
  [∀ a b, Decidable (answers a b)] [∀ as, Decidable (admissible as)]

/-- The queue after one more entry, unless the entry may not stand there. -/
def step : List α → Entry α β → Option (List α)
  | [], .plain => some []
  | [], .calls as => if admissible as then some as else none
  | a :: as, .result b => if answers a b then some as else none
  | _, _ => none

def scanFrom (queue : List α) : List (Entry α β) → Option (List α)
  | [] => some queue
  | e :: log => (step answers admissible queue e).bind fun queue => scanFrom queue log

def scan (log : List (Entry α β)) : Option (List α) := scanFrom answers admissible [] log

/-- A log in which every group of calls has all its results. -/
inductive Resolved : List (Entry α β) → Prop
  | nil : Resolved []
  | plain {log : List (Entry α β)} : Resolved log → Resolved (log ++ [.plain])
  | round {log : List (Entry α β)} {as : List α} {bs : List β} :
      Resolved log → admissible as → List.Forall₂ answers as bs →
      Resolved (log ++ .calls as :: bs.map .result)

/-- A resolved log, or a resolved log and a last group of calls that waits for the calls of
`queue`. -/
inductive Correlated : List (Entry α β) → List α → Prop
  | settled {log : List (Entry α β)} : Resolved answers admissible log → Correlated log []
  | waiting {log : List (Entry α β)} {front queue : List α} {bs : List β} :
      Resolved answers admissible log → admissible (front ++ queue) → queue ≠ [] →
      List.Forall₂ answers front bs →
      Correlated (log ++ .calls (front ++ queue) :: bs.map .result) queue

variable {answers admissible}

theorem scanFrom_append (queue : List α) (log log' : List (Entry α β)) :
    scanFrom answers admissible queue (log ++ log') =
      (scanFrom answers admissible queue log).bind fun queue =>
        scanFrom answers admissible queue log' := by
  induction log generalizing queue with
  | nil => rfl
  | cons e log ih =>
    cases h : step answers admissible queue e with
    | none => simp [scanFrom, h]
    | some queue' => simp [scanFrom, h, ih]

theorem scan_concat {log : List (Entry α β)} {queue : List α} (e : Entry α β)
    (h : scan answers admissible log = some queue) :
    scan answers admissible (log ++ [e]) = step answers admissible queue e := by
  have hlog : scanFrom answers admissible [] log = some queue := h
  rw [scan, scanFrom_append, hlog]
  simp [scanFrom]

/-- The results of the first calls in a queue leave the rest of the queue. -/
theorem scanFrom_results {front : List α} {bs : List β} (h : List.Forall₂ answers front bs)
    (queue : List α) :
    scanFrom answers admissible (front ++ queue) (bs.map .result) = some queue := by
  induction h with
  | nil => rfl
  | cons hab _ ih => simpa [scanFrom, step, hab] using ih

/-- A group of calls with the results of the first of them leaves the others. -/
theorem scanFrom_round {front queue : List α} {bs : List β} (ha : admissible (front ++ queue))
    (h : List.Forall₂ answers front bs) :
    scanFrom answers admissible [] (.calls (front ++ queue) :: bs.map .result) = some queue := by
  simpa [scanFrom, step, ha] using scanFrom_results h queue

theorem forall₂_concat {r : α → β → Prop} {as : List α} {bs : List β} {a : α} {b : β}
    (h : List.Forall₂ r as bs) (hab : r a b) : List.Forall₂ r (as ++ [a]) (bs ++ [b]) :=
  List.rel_append h (.cons hab .nil)

theorem Correlated.step {log : List (Entry α β)} {queue queue' : List α} {e : Entry α β}
    (h : Correlated answers admissible log queue)
    (hs : CallLog.step answers admissible queue e = some queue') :
    Correlated answers admissible (log ++ [e]) queue' := by
  cases h with
  | settled hr =>
    cases e with
    | plain =>
      obtain rfl : [] = queue' := by simpa [CallLog.step] using hs
      exact .settled hr.plain
    | calls as =>
      simp only [CallLog.step, Option.ite_none_right_eq_some, Option.some.injEq] at hs
      obtain ⟨ha, rfl⟩ := hs
      cases as with
      | nil => exact .settled (hr.round ha .nil)
      | cons a as => exact .waiting hr ha (by simp) .nil
    | result b => simp [CallLog.step] at hs
  | @waiting done front queue bs hr ha hne hf =>
    obtain ⟨a, rest, rfl⟩ := List.exists_cons_of_ne_nil hne
    cases e with
    | plain => simp [CallLog.step] at hs
    | calls as => simp [CallLog.step] at hs
    | result b =>
      simp only [CallLog.step, Option.ite_none_right_eq_some, Option.some.injEq] at hs
      obtain ⟨hab, rfl⟩ := hs
      have hf' := forall₂_concat hf hab
      have hlog : (done ++ .calls (front ++ a :: rest) :: bs.map .result) ++ [.result b] =
          done ++ .calls ((front ++ [a]) ++ rest) :: (bs ++ [b]).map .result := by simp
      rw [hlog]
      cases rest with
      | nil =>
        rw [List.append_nil]
        exact .settled (hr.round (by simpa using ha) hf')
      | cons c rest => exact .waiting hr (by simpa using ha) (by simp) hf'

/-- What the scan accepts is correlated with the queue that it leaves. -/
theorem correlated_of_scan {log : List (Entry α β)} {queue : List α}
    (h : scan answers admissible log = some queue) : Correlated answers admissible log queue := by
  induction log using List.reverseRecOn generalizing queue with
  | nil =>
    obtain rfl : [] = queue := by simpa [scan, scanFrom] using h
    exact .settled .nil
  | append_singleton log e ih =>
    cases hq : scan answers admissible log with
    | none =>
      rw [scan] at hq
      simp [scan, scanFrom_append, hq] at h
    | some q =>
      rw [scan_concat e hq] at h
      exact (ih hq).step h

end CallLog
