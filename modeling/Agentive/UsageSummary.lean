import Agentive.Usage
import Mathlib.Algebra.BigOperators.Group.List.Basic
import Mathlib.Tactic.Push
import Mathlib.Tactic.Tauto

/-! The aggregate of a run's usage against the entries it was made from. A call without a report
that comes after other calls leaves no trace in the aggregate. -/

namespace Agentive

inductive TokenField
  | input
  | output
  | cachedInput
  | reasoning
  | providerTotal

namespace TokenUsage

def get (u : TokenUsage) : TokenField → Option U64
  | .input => u.input
  | .output => u.output
  | .cachedInput => u.cachedInput
  | .reasoning => u.reasoning
  | .providerTotal => u.providerTotal

@[simp] theorem get_unknown (f : TokenField) : unknown.get f = none := by cases f <;> rfl

@[simp] theorem get_merge (u rhs : TokenUsage) (f : TokenField) :
    (u.merge rhs).get f = mergeOpt (u.get f) (rhs.get f) := by cases f <;> rfl

theorem ext_get {u v : TokenUsage} (h : ∀ f, u.get f = v.get f) : u = v := by
  cases u
  cases v
  rw [TokenUsage.mk.injEq]
  exact ⟨h .input, h .output, h .cachedInput, h .reasoning, h .providerTotal⟩

end TokenUsage

/-- The saturating sum of some measurements, if there are any and none is missing. -/
def totalReported (l : List (Option U64)) : Option U64 :=
  if l ≠ [] ∧ ∀ m ∈ l, m.isSome = true then
    some (Capped.clamp (l.map fun m => (m.getD 0).val).sum)
  else none

theorem totalReported_eq_some_iff {l : List (Option U64)} {x : U64} :
    totalReported l = some x ↔ l ≠ [] ∧ (∀ m ∈ l, m.isSome = true) ∧
      x = Capped.clamp (l.map fun m => (m.getD 0).val).sum := by
  unfold totalReported
  split
  · next h =>
    rw [Option.some.injEq]
    exact ⟨fun heq => ⟨h.1, h.2, heq.symm⟩, fun hall => hall.2.2.symm⟩
  · next h =>
    simp only [reduceCtorEq, false_iff]
    exact fun hall => h ⟨hall.1, hall.2.1⟩

theorem totalReported_eq_none_of_mem {l : List (Option U64)} (h : none ∈ l) :
    totalReported l = none := by
  unfold totalReported
  rw [if_neg]
  intro hall
  have hnone := hall.2 none h
  cases hnone

theorem totalReported_eq_none_iff {l : List (Option U64)} (hne : l ≠ []) :
    totalReported l = none ↔ none ∈ l := by
  refine ⟨fun h => ?_, totalReported_eq_none_of_mem⟩
  by_contra hmem
  have hall : ∀ m ∈ l, m.isSome = true := by
    intro m hm
    rw [Option.isSome_iff_ne_none]
    rintro rfl
    exact hmem hm
  rw [totalReported, if_pos ⟨hne, hall⟩] at h
  cases h

theorem totalReported_append {a b : List (Option U64)} (ha : a ≠ []) (hb : b ≠ []) :
    totalReported (a ++ b) = mergeOpt (totalReported a) (totalReported b) := by
  by_cases hall : (∀ m ∈ a, m.isSome = true) ∧ ∀ m ∈ b, m.isSome = true
  · have happend : ∀ m ∈ a ++ b, m.isSome = true := by
      intro m hm
      rcases List.mem_append.mp hm with hm | hm
      · exact hall.1 m hm
      · exact hall.2 m hm
    have hne : a ++ b ≠ [] := by simp [ha]
    rw [totalReported, totalReported, totalReported, if_pos ⟨hne, happend⟩, if_pos ⟨ha, hall.1⟩,
      if_pos ⟨hb, hall.2⟩, mergeOpt, Option.some.injEq]
    apply Capped.ext
    simp only [List.map_append, List.sum_append, Capped.val_clamp, Capped.val_saturatingAdd]
    omega
  · have hnone : totalReported a = none ∨ totalReported b = none := by
      by_cases hfirst : ∀ m ∈ a, m.isSome = true
      · exact .inr (if_neg fun h => hall ⟨hfirst, h.2⟩)
      · exact .inl (if_neg fun h => hfirst h.2)
    have hleft : totalReported (a ++ b) = none := by
      apply if_neg
      intro h
      exact hall ⟨fun m hm => h.2 m (List.mem_append_left _ hm),
        fun m hm => h.2 m (List.mem_append_right _ hm)⟩
    rw [hleft]
    rcases hnone with h | h <;> rw [h]
    · rfl
    · cases totalReported a <;> rfl

theorem totalReported_perm {a b : List (Option U64)} (h : a.Perm b) :
    totalReported a = totalReported b := by
  have hne : a ≠ [] ↔ b ≠ [] :=
    not_congr ⟨fun ha => (ha ▸ h).nil_eq.symm, fun hb => (hb ▸ h).eq_nil⟩
  have hall : (∀ m ∈ a, m.isSome = true) ↔ ∀ m ∈ b, m.isSome = true :=
    ⟨fun ha m hm => ha m (h.mem_iff.mpr hm), fun hb m hm => hb m (h.mem_iff.mp hm)⟩
  unfold totalReported
  rw [(h.map fun m => (m.getD 0).val).sum_eq]
  exact if_congr (and_congr hne hall) rfl rfl

/-- How a usage has come about: calls, and the usages of children that were made the same way. -/
inductive UsageHistory
  | new
  | addCall (before : UsageHistory) (model : String) (report : Option ModelTokenUsage)
  | mergeChild (before child : UsageHistory)

namespace UsageHistory

def usage : UsageHistory → RunUsage
  | .new => .new
  | .addCall before model report => before.usage.addCall model report
  | .mergeChild before child => before.usage.mergeChild child.usage

def children : UsageHistory → List UsageHistory
  | .new => []
  | .addCall before _ _ => before.children
  | .mergeChild before child => before.children ++ [child]

/-- A call without a report was recorded after another call, here or in a child. -/
def skips : UsageHistory → Bool
  | .new => false
  | .addCall before _ report =>
    before.skips || report.isNone && !before.usage.modelCalls.isEmpty
  | .mergeChild before child => before.skips || child.skips

def counted : UsageHistory → List TokenUsage
  | .new => []
  | .addCall before _ (some report) => before.counted ++ [.fromModel report]
  | .addCall before _ none =>
    if before.usage.modelCalls.isEmpty then [.unknown] else before.counted
  | .mergeChild before child => before.counted ++ child.counted

def entries (h : UsageHistory) : List TokenUsage := h.usage.modelCalls.map (·.usage)

/-- The usage is the fold of its entries. -/
structure FoldsEntries (h : UsageHistory) : Prop where
  aggregate : ∀ f x, h.usage.aggregate.get f = some x ↔
    h.entries ≠ [] ∧ (∀ u ∈ h.entries, (u.get f).isSome = true) ∧
      x = Capped.clamp (h.entries.map fun u => ((u.get f).getD 0).val).sum
  complete : h.usage.complete = true ↔
    (∀ u ∈ h.entries, u.complete = true) ∧ ∀ child ∈ h.children, child.usage.complete = true

theorem entries_addCall (before : UsageHistory) (model : String)
    (report : Option ModelTokenUsage) :
    (before.addCall model report).entries =
      before.entries ++ [report.elim .unknown TokenUsage.fromModel] := by
  simp [entries, usage, ModelCallUsage.ofReport]

theorem entries_mergeChild (before child : UsageHistory) :
    (before.mergeChild child).entries = before.entries ++ child.entries := by
  simp [entries, usage]

theorem entries_eq_nil {h : UsageHistory} :
    h.entries = [] ↔ h.usage.modelCalls.isEmpty = true := by
  simp [entries]

/-- The entries are the counted ones and unknown ones, and there are unknown ones besides if and
only if a call was skipped. -/
theorem entries_perm (h : UsageHistory) :
    ∃ n, h.entries.Perm (h.counted ++ List.replicate n .unknown) ∧
      (h.skips = true ↔ 0 < n) ∧ (h.counted = [] ↔ h.entries = []) := by
  induction h with
  | new => exact ⟨0, .refl _, by simp [skips], by simp [counted, entries, usage, RunUsage.new]⟩
  | addCall before model report ih =>
    obtain ⟨n, hperm, hskips, hnil⟩ := ih
    rw [entries_addCall]
    cases report with
    | some report =>
      refine ⟨n, ?_, by simpa [skips] using hskips, by simp [counted]⟩
      refine (hperm.append_right _).trans ?_
      simp only [counted, List.append_assoc]
      exact (List.perm_append_comm).append_left _
    | none =>
      by_cases hempty : before.usage.modelCalls.isEmpty = true
      · have hentries := entries_eq_nil.mpr hempty
        have hn : n = 0 := by
          have hlen := hperm.length_eq
          simp only [hentries, List.length_nil, List.length_append, List.length_replicate] at hlen
          omega
        refine ⟨0, ?_, ?_, by simp [counted, hempty]⟩
        · simp [hentries, counted, hempty]
        · have hfalse : before.skips = false := by
            by_contra hne
            have hpos := hskips.mp (by simpa using hne)
            omega
          simp [skips, hfalse, hempty]
      · refine ⟨n + 1, ?_, by simp [skips, hempty], ?_⟩
        · rw [List.replicate_succ']
          simpa [counted, hempty, ← List.append_assoc] using hperm.append_right [.unknown]
        · have hne : before.entries ≠ [] := fun h => hempty (entries_eq_nil.mp h)
          simp [counted, hempty, hnil, hne]
  | mergeChild before child ihb ihc =>
    obtain ⟨n, hperm, hskips, hnil⟩ := ihb
    obtain ⟨m, hpermc, hskipsc, hnilc⟩ := ihc
    rw [entries_mergeChild]
    refine ⟨n + m, ?_, ?_, by simp [counted, hnil, hnilc]⟩
    · refine (hperm.append hpermc).trans ?_
      rw [← List.replicate_append_replicate, counted]
      simp only [List.append_assoc]
      refine List.Perm.append_left _ ?_
      rw [← List.append_assoc, ← List.append_assoc]
      exact List.perm_append_comm.append_right _
    · simp only [skips, Bool.or_eq_true, hskips, hskipsc]
      omega

theorem get_aggregate (h : UsageHistory) (f : TokenField) :
    h.usage.aggregate.get f = totalReported (h.counted.map (·.get f)) := by
  induction h with
  | new => simp [usage, RunUsage.new, counted, totalReported]
  | addCall before model report ih =>
    obtain ⟨_, _, _, hnil⟩ := entries_perm before
    cases report with
    | some report =>
      have hsingle : totalReported [(TokenUsage.fromModel report).get f] =
          (TokenUsage.fromModel report).get f := by
        cases hget : (TokenUsage.fromModel report).get f with
        | none => rfl
        | some x =>
          rw [totalReported_eq_some_iff]
          refine ⟨by simp, by simp, Capped.ext ?_⟩
          have hcap := x.le_cap
          simp [hcap]
      by_cases hempty : before.usage.modelCalls.isEmpty = true
      · have hcounted := hnil.mpr (entries_eq_nil.mpr hempty)
        simp [usage, RunUsage.addCall, hempty, counted, hcounted, hsingle]
      · have hcounted : before.counted ≠ [] := fun h => hempty (entries_eq_nil.mp (hnil.mp h))
        simp only [usage, RunUsage.addCall, hempty, Bool.false_eq_true, if_false,
          TokenUsage.get_merge, ih, counted, List.map_append, List.map_cons, List.map_nil]
        rw [totalReported_append (by simpa using hcounted) (by simp), hsingle]
    | none =>
      by_cases hempty : before.usage.modelCalls.isEmpty = true
      · have hcounted := hnil.mpr (entries_eq_nil.mpr hempty)
        simp [usage, RunUsage.addCall, counted, hempty, ih, hcounted, totalReported]
      · simp [usage, RunUsage.addCall, counted, hempty, ih]
  | mergeChild before child ihb ihc =>
    obtain ⟨_, _, _, hnilb⟩ := entries_perm before
    obtain ⟨_, _, _, hnilc⟩ := entries_perm child
    by_cases hchild : child.usage.modelCalls.isEmpty = true
    · have hcounted := hnilc.mpr (entries_eq_nil.mpr hchild)
      simp [usage, RunUsage.mergeChild, hchild, counted, hcounted, ihb]
    · have hne : child.counted ≠ [] := fun h => hchild (entries_eq_nil.mp (hnilc.mp h))
      by_cases hempty : before.usage.modelCalls.isEmpty = true
      · have hcounted := hnilb.mpr (entries_eq_nil.mpr hempty)
        simp [usage, RunUsage.mergeChild, hchild, hempty, counted, hcounted, ihc]
      · have hneb : before.counted ≠ [] := fun h => hempty (entries_eq_nil.mp (hnilb.mp h))
        simp only [usage, RunUsage.mergeChild, hchild, hempty, Bool.false_eq_true, if_false,
          TokenUsage.get_merge, ihb, ihc, counted, List.map_append]
        rw [totalReported_append (by simpa using hneb) (by simpa using hne)]

theorem complete_iff_entries (h : UsageHistory) :
    h.usage.complete = true ↔ ∀ u ∈ h.entries, u.complete = true := by
  induction h with
  | new => simp [usage, RunUsage.new, entries]
  | addCall before model report ih =>
    rw [entries_addCall]
    cases report with
    | some report =>
      simp only [usage, RunUsage.addCall, Bool.and_eq_true, ih, List.forall_mem_append,
        List.forall_mem_singleton, Option.elim_some]
    | none =>
      have hunknown : TokenUsage.unknown.complete = false := rfl
      simp [usage, RunUsage.addCall, hunknown]
  | mergeChild before child ihb ihc =>
    rw [entries_mergeChild]
    simp only [usage, RunUsage.mergeChild, Bool.and_eq_true, ihb, ihc, List.forall_mem_append]

theorem complete_of_mem_children {h child : UsageHistory} (hmem : child ∈ h.children)
    (hall : ∀ u ∈ h.entries, u.complete = true) : child.usage.complete = true := by
  induction h with
  | new => simp [children] at hmem
  | addCall before model report ih =>
    rw [entries_addCall] at hall
    exact ih hmem fun u hu => hall u (List.mem_append_left _ hu)
  | mergeChild before last ihb _ =>
    rw [entries_mergeChild] at hall
    rcases List.mem_append.mp hmem with hmem | hmem
    · exact ihb hmem fun u hu => hall u (List.mem_append_left _ hu)
    · obtain rfl := List.mem_singleton.mp hmem
      exact child.complete_iff_entries.mpr fun u hu => hall u (List.mem_append_right _ hu)

theorem complete_iff (h : UsageHistory) :
    h.usage.complete = true ↔
      (∀ u ∈ h.entries, u.complete = true) ∧ ∀ child ∈ h.children, child.usage.complete = true := by
  rw [complete_iff_entries]
  exact ⟨fun hall => ⟨hall, fun _ hmem => complete_of_mem_children hmem hall⟩, fun hall => hall.1⟩

theorem foldsEntries_iff_totalReported (h : UsageHistory) :
    h.FoldsEntries ↔
      ∀ f, h.usage.aggregate.get f = totalReported (h.entries.map (·.get f)) := by
  have hiff (f : TokenField) (x : U64) :
      (h.entries ≠ [] ∧ (∀ u ∈ h.entries, (u.get f).isSome = true) ∧
        x = Capped.clamp (h.entries.map fun u => ((u.get f).getD 0).val).sum) ↔
      totalReported (h.entries.map (·.get f)) = some x := by
    rw [totalReported_eq_some_iff]
    simp [List.map_map, Function.comp_def]
  constructor
  · intro hfolds f
    apply Option.ext
    intro x
    exact (hfolds.aggregate f x).trans (hiff f x)
  · intro hall
    refine ⟨fun f x => ?_, h.complete_iff⟩
    rw [hall f, hiff f x]

theorem unknown_mem_entries {h : UsageHistory} (hskip : h.skips = true) :
    TokenUsage.unknown ∈ h.entries := by
  obtain ⟨n, hperm, hskips, _⟩ := entries_perm h
  have hpos := hskips.mp hskip
  refine hperm.mem_iff.mpr (List.mem_append_right _ ?_)
  exact List.mem_replicate.mpr ⟨by omega, rfl⟩

theorem counted_ne_nil {h : UsageHistory} (hskip : h.skips = true) : h.counted ≠ [] := by
  obtain ⟨_, _, _, hnil⟩ := entries_perm h
  intro hc
  have hmem := unknown_mem_entries hskip
  rw [hnil.mp hc] at hmem
  cases hmem

theorem entries_perm_counted {h : UsageHistory} (hskip : ¬ h.skips = true) :
    h.entries.Perm h.counted := by
  obtain ⟨n, hperm, hskips, _⟩ := entries_perm h
  have hzero : n = 0 := by
    by_contra hn
    exact hskip (hskips.mpr (Nat.pos_of_ne_zero hn))
  subst hzero
  simpa using hperm

/-- A skipped call leaves nothing to report, so the aggregate has to lack every measurement. -/
theorem foldsEntries_iff (h : UsageHistory) :
    h.FoldsEntries ↔ (h.skips = true → ∀ f, ∃ u ∈ h.counted, u.get f = none) := by
  rw [foldsEntries_iff_totalReported]
  simp only [get_aggregate]
  by_cases hskip : h.skips = true
  · rw [forall_prop_of_true hskip]
    refine forall_congr' fun f => ?_
    have hmissing : totalReported (h.entries.map (·.get f)) = none := by
      apply totalReported_eq_none_of_mem
      exact List.mem_map.mpr ⟨.unknown, unknown_mem_entries hskip, TokenUsage.get_unknown f⟩
    have hne : h.counted.map (·.get f) ≠ [] := by simpa using counted_ne_nil hskip
    rw [hmissing, totalReported_eq_none_iff hne, List.mem_map]
  · have hperm := entries_perm_counted hskip
    simp only [hskip, Bool.false_eq_true, false_implies, iff_true]
    exact fun f => (totalReported_perm (hperm.map _)).symm

/-- The fold does not see the order of the entries, nor how they were grouped. -/
theorem FoldsEntries.eq_of_perm {h h' : UsageHistory} (hh : h.FoldsEntries)
    (hh' : h'.FoldsEntries) (hperm : h.usage.modelCalls.Perm h'.usage.modelCalls) :
    h.usage.aggregate = h'.usage.aggregate ∧ h.usage.complete = h'.usage.complete := by
  have hentries : h.entries.Perm h'.entries := hperm.map _
  rw [foldsEntries_iff_totalReported] at hh hh'
  constructor
  · apply TokenUsage.ext_get
    intro f
    rw [hh f, hh' f]
    exact totalReported_perm (hentries.map _)
  · rw [Bool.eq_iff_iff, complete_iff_entries, complete_iff_entries]
    exact ⟨fun hall u hu => hall u (hentries.mem_iff.mpr hu),
      fun hall u hu => hall u (hentries.mem_iff.mp hu)⟩

end UsageHistory

open UsageHistory in
/-- The aggregate is the fold of the entries exactly when a skipped call cannot be missed: each
measurement that it lacks another call lacks too. Where it is, neither the order of the calls
nor their grouping matters. -/
theorem usage_folds_iff (h : UsageHistory) :
    (h.FoldsEntries ↔ (h.skips = true → ∀ f, ∃ u ∈ h.counted, u.get f = none)) ∧
      ∀ h' : UsageHistory, h.FoldsEntries → h'.FoldsEntries →
        h.usage.modelCalls.Perm h'.usage.modelCalls →
        h.usage.aggregate = h'.usage.aggregate ∧ h.usage.complete = h'.usage.complete := by
  constructor
  · exact foldsEntries_iff h
  · intro h' hh hh' hperm
    exact hh.eq_of_perm hh' hperm

/-- A second call without a report, after one that reports its input tokens. -/
theorem missing_report_forgotten : ¬ ∀ h : UsageHistory, h.FoldsEntries := by
  intro claim
  have hfolds := claim (.addCall (.addCall .new "model"
    (some { input := some 3, output := none, cachedInput := none, reasoning := none,
            providerTotal := none })) "model" none)
  have hsome := (hfolds.aggregate .input 3).mp rfl
  have hunknown := hsome.2.1 .unknown (by decide)
  cases hunknown

end Agentive
