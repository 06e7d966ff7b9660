import Mathlib.Algebra.BigOperators.Group.Multiset.Basic
import Mathlib.Algebra.GroupWithZero.Nat
import Mathlib.Algebra.Order.BigOperators.Group.Multiset
import Mathlib.Algebra.Order.Group.Multiset
import Mathlib.Algebra.Order.Group.Nat
import Mathlib.Logic.Relation

/-! Tasks in sequence and in parallel, and runs that outlive a failure of what has started them.
How much is in flight at once is computed from the shape of the work. -/

namespace ForkJoin

universe u

variable {τ : Type u}

/-- A run is awaited by what has started it, and goes on where that is dropped. Failing work is
dropped at some moment, whatever of it is still going on. -/
inductive Work (τ : Type u)
  | done
  | task (label : τ) (begun : Bool)
  | seq (first rest : Work τ)
  | par (left right : Work τ)
  | run (body : Work τ)
  | failing (body : Work τ)

namespace Work

def seqAll : List (Work τ) → Work τ
  | [] => done
  | w :: ws => seq w (seqAll ws)

def parAll : List (Work τ) → Work τ
  | [] => done
  | w :: ws => par w (parAll ws)

def runless : Work τ → Bool
  | done | task _ _ => true
  | seq first rest => first.runless && rest.runless
  | par left right => left.runless && right.runless
  | run _ => false
  | failing body => body.runless

def idle : Work τ → Bool
  | done => true
  | task _ _ | run _ => false
  | seq first rest => first.idle && rest.idle
  | par left right => left.idle && right.idle
  | failing body => body.idle

/-- Nothing else goes on beside a run or fails there. -/
def alone : Work τ → Bool
  | done | task _ _ => true
  | seq first rest => first.alone && rest.alone
  | par left right =>
    left.runless && right.runless || left.alone && right.idle || left.idle && right.alone
  | run body => body.alone
  | failing body => body.runless

def runs : Work τ → Nat
  | done | task _ _ => 0
  | seq first rest => first.runs + rest.runs
  | par left right => left.runs + right.runs
  | run body => body.runs + 1
  | failing body => body.runs

@[simp] theorem runs_seqAll (ws : List (Work τ)) : (seqAll ws).runs = (ws.map runs).sum := by
  induction ws with
  | nil => rfl
  | cons w ws ih => simp [seqAll, runs, ih]

@[simp] theorem runs_parAll (ws : List (Work τ)) : (parAll ws).runs = (ws.map runs).sum := by
  induction ws with
  | nil => rfl
  | cons w ws ih => simp [parAll, runs, ih]

def dropped : Work τ → Multiset (Work τ)
  | done | task _ _ => 0
  | seq first _ => first.dropped
  | par left right => left.dropped + right.dropped
  | run body => {body}
  | failing body => body.dropped

/-- One step of the work, and the runs that it leaves behind. -/
inductive Step : Work τ → Work τ → Multiset (Work τ) → Prop
  | start (label : τ) : Step (task label false) (task label true) 0
  | finish (label : τ) : Step (task label true) done 0
  | first {a a' b : Work τ} {os : Multiset (Work τ)} (h : Step a a' os) :
      Step (seq a b) (seq a' b) os
  | next (b : Work τ) : Step (seq done b) b 0
  | left {a a' b : Work τ} {os : Multiset (Work τ)} (h : Step a a' os) :
      Step (par a b) (par a' b) os
  | right {a b b' : Work τ} {os : Multiset (Work τ)} (h : Step b b' os) :
      Step (par a b) (par a b') os
  | join : Step (par done done) done 0
  | body {a a' : Work τ} {os : Multiset (Work τ)} (h : Step a a' os) : Step (run a) (run a') os
  | answer : Step (run done) done 0
  | go {a a' : Work τ} {os : Multiset (Work τ)} (h : Step a a' os) :
      Step (failing a) (failing a') os
  | fail (a : Work τ) : Step (failing a) done a.dropped

section

variable (cost : τ → Nat)

/-- What is in flight now. The rest of a sequence has not begun. -/
def inFlight : Work τ → Nat
  | done => 0
  | task label begun => if begun then cost label else 0
  | seq first _ => first.inFlight
  | par left right => left.inFlight + right.inFlight
  | run body => body.inFlight
  | failing body => body.inFlight

mutual

/-- The most that can be in flight at once, runs that have been left behind included. -/
def peak : Work τ → Nat
  | done => 0
  | task label _ => cost label
  | seq first rest => max first.peak (first.residue + rest.peak)
  | par left right => left.peak + right.peak
  | run body => body.peak
  | failing body => body.peak

/-- The most that can be in flight once the work is done. -/
def residue : Work τ → Nat
  | done => 0
  | task _ _ => 0
  | seq first rest => first.residue + rest.residue
  | par left right => left.residue + right.residue
  | run body => body.residue
  | failing body => body.spill

/-- The most that can be in flight once the work is dropped. -/
def spill : Work τ → Nat
  | done => 0
  | task _ _ => 0
  | seq first rest => max first.spill (first.residue + rest.spill)
  | par left right => left.spill + right.spill
  | run body => body.peak
  | failing body => body.spill

end

def load (runs : Multiset (Work τ)) : Nat := (runs.map (peak cost)).sum

@[simp] theorem load_zero : load cost 0 = 0 := rfl

@[simp] theorem load_cons (w : Work τ) (runs : Multiset (Work τ)) :
    load cost (w ::ₘ runs) = w.peak cost + load cost runs := by
  simp [load]

@[simp] theorem load_add (runs runs' : Multiset (Work τ)) :
    load cost (runs + runs') = load cost runs + load cost runs' := by
  rw [load, Multiset.map_add, Multiset.sum_add]
  rfl

def flying (runs : Multiset (Work τ)) : Nat := (runs.map (inFlight cost)).sum

@[simp] theorem flying_zero : flying cost 0 = 0 := rfl

@[simp] theorem flying_cons (w : Work τ) (runs : Multiset (Work τ)) :
    flying cost (w ::ₘ runs) = w.inFlight cost + flying cost runs := by
  simp [flying]

@[simp] theorem flying_add (runs runs' : Multiset (Work τ)) :
    flying cost (runs + runs') = flying cost runs + flying cost runs' := by
  rw [flying, Multiset.map_add, Multiset.sum_add]
  rfl

variable {w w' : Work τ} {os : Multiset (Work τ)}

theorem inFlight_le_peak (w : Work τ) : w.inFlight cost ≤ w.peak cost := by
  induction w with
  | done => exact Nat.le_refl _
  | task label begun => cases begun <;> simp [inFlight, peak]
  | seq first rest ihf ihr => exact Nat.le_trans ihf (Nat.le_max_left _ _)
  | par left right ihl ihr => exact Nat.add_le_add ihl ihr
  | run body ih => exact ih
  | failing body ih => exact ih

theorem spill_le_peak (w : Work τ) : w.spill cost ≤ w.peak cost := by
  induction w with
  | done => exact Nat.le_refl _
  | task label begun => exact Nat.zero_le _
  | seq first rest ihf ihr =>
    simp only [spill, peak]
    omega
  | par left right ihl ihr => exact Nat.add_le_add ihl ihr
  | run body ih => exact Nat.le_refl _
  | failing body ih => exact ih

theorem load_dropped_le (w : Work τ) : load cost w.dropped ≤ w.spill cost := by
  induction w with
  | done => exact Nat.le_refl _
  | task label begun => exact Nat.le_refl _
  | seq first rest ihf ihr => exact Nat.le_trans ihf (Nat.le_max_left _ _)
  | par left right ihl ihr =>
    rw [dropped, load_add]
    exact Nat.add_le_add ihl ihr
  | run body ih => simp [dropped, spill, load]
  | failing body ih => exact ih

theorem residue_of_runless (h : w.runless = true) :
    w.residue cost = 0 ∧ w.spill cost = 0 := by
  induction w with
  | done => exact ⟨rfl, rfl⟩
  | task label begun => exact ⟨rfl, rfl⟩
  | seq first rest ihf ihr =>
    simp only [runless, Bool.and_eq_true] at h
    simp [residue, spill, ihf h.1, ihr h.2]
  | par left right ihl ihr =>
    simp only [runless, Bool.and_eq_true] at h
    simp [residue, spill, ihl h.1, ihr h.2]
  | run body ih => cases h
  | failing body ih => exact ⟨(ih h).2, (ih h).2⟩

theorem peak_of_idle (h : w.idle = true) : w.peak cost = 0 ∧ w.runless = true := by
  induction w with
  | done => exact ⟨rfl, rfl⟩
  | task label begun => cases h
  | seq first rest ihf ihr =>
    simp only [idle, Bool.and_eq_true] at h
    have hresidue := (residue_of_runless cost (ihf h.1).2).1
    simp [peak, runless, ihf h.1, ihr h.2, hresidue]
  | par left right ihl ihr =>
    simp only [idle, Bool.and_eq_true] at h
    simp [peak, runless, ihl h.1, ihr h.2]
  | run body ih => cases h
  | failing body ih => exact ih h

theorem residue_of_alone (h : w.alone = true) : w.residue cost = 0 := by
  induction w with
  | done => rfl
  | task label begun => rfl
  | seq first rest ihf ihr =>
    simp only [alone, Bool.and_eq_true] at h
    simp [residue, ihf h.1, ihr h.2]
  | par left right ihl ihr =>
    simp only [alone, Bool.or_eq_true, Bool.and_eq_true] at h
    rcases h with (⟨hl, hr⟩ | ⟨hl, hr⟩) | ⟨hl, hr⟩
    · simp [residue, residue_of_runless cost hl, residue_of_runless cost hr]
    · simp [residue, ihl hl, residue_of_runless cost (peak_of_idle cost hr).2]
    · simp [residue, ihr hr, residue_of_runless cost (peak_of_idle cost hl).2]
  | run body ih => exact ih h
  | failing body ih => exact (residue_of_runless cost h).2

theorem peak_seqAll_le {ws : List (Work τ)} {n : Nat} (h : (seqAll ws).alone = true)
    (hle : ∀ w ∈ ws, w.alone = true → w.peak cost ≤ n) : (seqAll ws).peak cost ≤ n := by
  induction ws with
  | nil => exact Nat.zero_le _
  | cons w ws ih =>
    simp only [seqAll, alone, Bool.and_eq_true] at h
    have hw := hle w List.mem_cons_self h.1
    have hrest := ih h.2 fun v hv => hle v (List.mem_cons_of_mem _ hv)
    have hresidue := residue_of_alone cost h.1
    simp only [seqAll, peak]
    omega

theorem peak_parAll_of_runless {ws : List (Work τ)} (h : (parAll ws).runless = true)
    (hone : ∀ w ∈ ws, w.runless = true → w.peak cost ≤ 1) :
    (parAll ws).peak cost ≤ ws.length := by
  induction ws with
  | nil => exact Nat.zero_le _
  | cons w ws ih =>
    simp only [parAll, runless, Bool.and_eq_true] at h
    have hw := hone w List.mem_cons_self h.1
    have hrest := ih h.2 fun v hv => hone v (List.mem_cons_of_mem _ hv)
    simp only [parAll, peak, List.length_cons]
    omega

theorem peak_parAll_le {ws : List (Work τ)} {n : Nat} (h : (parAll ws).alone = true)
    (hlen : ws.length ≤ n) (hone : ∀ w ∈ ws, w.runless = true → w.peak cost ≤ 1)
    (hle : ∀ w ∈ ws, w.alone = true → w.peak cost ≤ n) : (parAll ws).peak cost ≤ n := by
  induction ws with
  | nil => exact Nat.zero_le _
  | cons w ws ih =>
    have hw := hle w List.mem_cons_self
    have hrest (ha : (parAll ws).alone = true) : (parAll ws).peak cost ≤ n := by
      refine ih ha ?_ (fun v hv => hone v (List.mem_cons_of_mem _ hv))
        fun v hv => hle v (List.mem_cons_of_mem _ hv)
      rw [List.length_cons] at hlen
      omega
    have hrunless (hr : (parAll (w :: ws)).runless = true) :=
      peak_parAll_of_runless cost hr hone
    simp only [parAll, alone, runless, peak, Bool.or_eq_true, Bool.and_eq_true] at h hrunless ⊢
    rcases h with (hboth | ⟨ha, hi⟩) | ⟨hi, ha⟩
    · exact Nat.le_trans (hrunless hboth) hlen
    · have hzero := (peak_of_idle cost hi).1
      have := hw ha
      omega
    · have hzero := (peak_of_idle cost hi).1
      have := hrest ha
      omega

/-- A step makes room for what it leaves behind. -/
theorem Step.load_le (h : Step w w' os) :
    w'.peak cost + load cost os ≤ w.peak cost ∧
      w'.residue cost + load cost os ≤ w.residue cost ∧
      w'.spill cost + load cost os ≤ w.spill cost := by
  induction h with
  | start label => simp [peak, residue, spill]
  | finish label => simp [peak, residue, spill]
  | first h ih =>
    simp only [peak, residue, spill]
    omega
  | next b => simp [peak, residue, spill]
  | left h ih =>
    simp only [peak, residue, spill]
    omega
  | right h ih =>
    simp only [peak, residue, spill]
    omega
  | join => simp [peak, residue, spill]
  | body h ih => exact ⟨ih.1, ih.2.1, ih.1⟩
  | answer => simp [peak, residue, spill]
  | go h ih => exact ⟨ih.1, ih.2.2, ih.2.2⟩
  | fail a =>
    have hdropped := load_dropped_le cost a
    have hspill := spill_le_peak cost a
    simp only [peak, residue, spill]
    omega

end

end Work

open Work

structure Config (τ : Type u) where
  main : Work τ
  detached : Multiset (Work τ)

namespace Config

variable {c c' d : Config τ} {a b w : Work τ} {os os' : Multiset (Work τ)}

inductive Move : Config τ → Config τ → Prop
  | main {w w' : Work τ} {os rest : Multiset (Work τ)} (h : Step w w' os) :
      Move ⟨w, rest⟩ ⟨w', os + rest⟩
  | detached {w o o' : Work τ} {os rest : Multiset (Work τ)} (h : Step o o' os) :
      Move ⟨w, o ::ₘ rest⟩ ⟨w, o' ::ₘ (os + rest)⟩

abbrev Reaches : Config τ → Config τ → Prop := Relation.ReflTransGen Move

section

variable (cost : τ → Nat)

def inFlight (c : Config τ) : Nat := c.main.inFlight cost + flying cost c.detached

def load (c : Config τ) : Nat := c.main.peak cost + Work.load cost c.detached

variable {cost}

theorem inFlight_le_load (c : Config τ) : c.inFlight cost ≤ c.load cost := by
  have hmain := Work.inFlight_le_peak cost c.main
  have hdetached : flying cost c.detached ≤ Work.load cost c.detached :=
    Multiset.sum_map_le_sum_map _ _ fun w _ => Work.inFlight_le_peak cost w
  exact Nat.add_le_add hmain hdetached

theorem Move.load_le (h : Move c c') : c'.load cost ≤ c.load cost := by
  cases h with
  | main h =>
    have hstep := (h.load_le cost).1
    simp only [load, load_add]
    omega
  | detached h =>
    have hstep := (h.load_le cost).1
    simp only [load, load_add, load_cons]
    omega

theorem Reaches.load_le (h : Reaches c c') : c'.load cost ≤ c.load cost := by
  induction h with
  | refl => exact Nat.le_refl _
  | tail _ hmove ih => exact Nat.le_trans hmove.load_le ih

end

/-! Schedules of the parts are schedules of the whole. -/

theorem Reaches.frame (h : Reaches c c') (rest : Multiset (Work τ)) :
    Reaches ⟨c.main, c.detached + rest⟩ ⟨c'.main, c'.detached + rest⟩ := by
  induction h with
  | refl => exact .refl
  | tail _ hmove ih =>
    refine ih.tail ?_
    cases hmove with
    | main h => simpa only [add_assoc] using Move.main h
    | detached h => simpa only [add_assoc, Multiset.cons_add] using Move.detached h

theorem Reaches.within {f : Work τ → Work τ}
    (hf : ∀ {a a' os}, Step a a' os → Step (f a) (f a') os) (h : Reaches c c') :
    Reaches ⟨f c.main, c.detached⟩ ⟨f c'.main, c'.detached⟩ := by
  induction h with
  | refl => exact .refl
  | tail _ hmove ih =>
    refine ih.tail ?_
    cases hmove with
    | main h => exact .main (hf h)
    | detached h => exact .detached h

theorem Reaches.leave (h : Reaches c c') (w : Work τ) :
    Reaches ⟨w, c.main ::ₘ c.detached⟩ ⟨w, c'.main ::ₘ c'.detached⟩ := by
  induction h with
  | refl => exact .refl
  | tail _ hmove ih =>
    refine ih.tail ?_
    cases hmove with
    | main h => exact .detached h
    | @detached v o o' os rest h =>
      have hstep : Move ⟨w, o ::ₘ v ::ₘ rest⟩ ⟨w, o' ::ₘ (os + v ::ₘ rest)⟩ := .detached h
      rwa [Multiset.add_cons, Multiset.cons_swap o v, Multiset.cons_swap o' v] at hstep

theorem Reaches.sequence (ha : Reaches ⟨a, 0⟩ ⟨done, os⟩) (hb : Reaches ⟨b, 0⟩ c) :
    Reaches ⟨seq a b, 0⟩ ⟨c.main, c.detached + os⟩ := by
  have hfirst : Reaches ⟨seq a b, 0⟩ ⟨seq done b, os⟩ := ha.within (f := fun a => seq a b) .first
  have hnext : Move ⟨seq done b, os⟩ ⟨b, 0 + os⟩ := .main (.next b)
  exact (hfirst.tail hnext).trans (hb.frame os)

theorem Reaches.parallel (ha : Reaches ⟨a, 0⟩ c) (hb : Reaches ⟨b, 0⟩ d) :
    Reaches ⟨par a b, 0⟩ ⟨par c.main d.main, d.detached + c.detached⟩ := by
  have hleft : Reaches ⟨par a b, 0⟩ ⟨par c.main b, c.detached⟩ :=
    ha.within (f := fun a => par a b) .left
  have hright : Reaches ⟨par c.main b, 0⟩ ⟨par c.main d.main, d.detached⟩ :=
    hb.within (f := fun b => par c.main b) .right
  have hframe := hright.frame c.detached
  simp only [zero_add] at hframe
  exact hleft.trans hframe

/-- What has been left behind can go on like this, whatever else there is. -/
def Drives (os os' : Multiset (Work τ)) : Prop := ∀ w : Work τ, Reaches ⟨w, os⟩ ⟨w, os'⟩

theorem Drives.refl (os : Multiset (Work τ)) : Drives os os := fun _ => .refl

theorem Drives.add {rs rs' : Multiset (Work τ)} (h : Drives os os') (h' : Drives rs rs') :
    Drives (os + rs) (os' + rs') := by
  intro w
  have hos := (h w).frame rs
  have hrs := (h' w).frame os'
  simp only [add_comm rs, add_comm rs'] at hrs
  exact hos.trans hrs

/-! Some schedule reaches the peak. -/

section

variable (cost : τ → Nat)

structure Attains (w : Work τ) : Prop where
  peak : ∃ c, Reaches ⟨w, 0⟩ c ∧ c.inFlight cost = w.peak cost
  residue : ∃ os, Reaches ⟨w, 0⟩ ⟨done, os⟩ ∧ flying cost os = w.residue cost
  spill : ∃ c os, Reaches ⟨w, 0⟩ c ∧ Drives (c.main.dropped + c.detached) os ∧
    flying cost os = w.spill cost

theorem attains_seq {cost : τ → Nat} (ha : Attains cost a) (hb : Attains cost b) :
    Attains cost (seq a b) := by
  obtain ⟨⟨ca, hca, hpeakA⟩, ⟨left, hleft, hresidueA⟩, ⟨da, sa, hda, hdrives, hspillA⟩⟩ := ha
  obtain ⟨⟨cb, hcb, hpeakB⟩, ⟨left', hleft', hresidueB⟩, ⟨db, sb, hdb, hdrives', hspillB⟩⟩ := hb
  refine ⟨?_, ⟨left' + left, hleft.sequence hleft', ?_⟩, ?_⟩
  · rcases Nat.le_total (a.residue cost + b.peak cost) (a.peak cost) with hle | hle
    · refine ⟨_, hca.within (f := fun a => seq a b) .first, ?_⟩
      rw [Work.peak, Nat.max_eq_left hle]
      exact hpeakA
    · refine ⟨_, hleft.sequence hcb, ?_⟩
      rw [Work.peak, Nat.max_eq_right hle, ← hresidueA, ← hpeakB]
      simp only [inFlight, flying_add]
      omega
  · simp only [flying_add, Work.residue]
    omega
  · rcases Nat.le_total (a.residue cost + b.spill cost) (a.spill cost) with hle | hle
    · refine ⟨_, sa, hda.within (f := fun a => seq a b) .first, hdrives, ?_⟩
      rw [Work.spill, Nat.max_eq_left hle]
      exact hspillA
    · refine ⟨_, sb + left, hleft.sequence hdb, ?_, ?_⟩
      · rw [← add_assoc]
        exact hdrives'.add (.refl left)
      · rw [Work.spill, Nat.max_eq_right hle, flying_add]
        omega

theorem attains_par {cost : τ → Nat} (ha : Attains cost a) (hb : Attains cost b) :
    Attains cost (par a b) := by
  obtain ⟨⟨ca, hca, hpeakA⟩, ⟨left, hleft, hresidueA⟩, ⟨da, sa, hda, hdrives, hspillA⟩⟩ := ha
  obtain ⟨⟨cb, hcb, hpeakB⟩, ⟨left', hleft', hresidueB⟩, ⟨db, sb, hdb, hdrives', hspillB⟩⟩ := hb
  refine ⟨⟨_, hca.parallel hcb, ?_⟩, ⟨left' + left, ?_, ?_⟩, ⟨_, sa + sb, hda.parallel hdb, ?_, ?_⟩⟩
  · rw [Work.peak, ← hpeakA, ← hpeakB]
    simp only [inFlight, Work.inFlight, flying_add]
    omega
  · have hjoin : Move ⟨par done done, left' + left⟩ ⟨done, 0 + (left' + left)⟩ := .main .join
    rw [zero_add] at hjoin
    exact (hleft.parallel hleft').tail hjoin
  · simp only [flying_add, Work.residue]
    omega
  · have hboth := hdrives.add hdrives'
    simp only [Work.dropped]
    rwa [add_add_add_comm, add_comm da.detached] at hboth
  · simp only [flying_add, Work.spill]
    omega

/-- Each of the bounds is reached. The induction is on the shape of the work. -/
theorem attains (cost : τ → Nat) (w : Work τ) : Attains cost w := by
  induction w with
  | done => exact ⟨⟨_, .refl, rfl⟩, ⟨0, .refl, rfl⟩, ⟨_, 0, .refl, .refl _, rfl⟩⟩
  | task label begun =>
    have hbegun : Reaches ⟨task label begun, 0⟩ ⟨task label true, 0⟩ := by
      cases begun with
      | true => exact .refl
      | false => exact .single (.main (.start label))
    refine ⟨⟨_, hbegun, ?_⟩, ⟨0, hbegun.tail (.main (.finish label)), rfl⟩,
      ⟨_, 0, .refl, .refl _, rfl⟩⟩
    simp [inFlight, Work.inFlight, Work.peak]
  | seq first rest ihf ihr => exact attains_seq ihf ihr
  | par left right ihl ihr => exact attains_par ihl ihr
  | run body ih =>
    obtain ⟨⟨c, hc, hpeak⟩, ⟨left, hleft, hresidue⟩, _⟩ := ih
    refine ⟨⟨_, hc.within .body, hpeak⟩, ⟨left, ?_, hresidue⟩,
      ⟨⟨run body, 0⟩, c.main ::ₘ c.detached, .refl, fun w => hc.leave w, ?_⟩⟩
    · have hanswer : Move ⟨run done, left⟩ ⟨done, 0 + left⟩ := .main .answer
      rw [zero_add] at hanswer
      exact (hleft.within .body).tail hanswer
    · rw [flying_cons]
      exact hpeak
  | failing body ih =>
    obtain ⟨⟨c, hc, hpeak⟩, _, ⟨d, os, hd, hdrives, hspill⟩⟩ := ih
    refine ⟨⟨_, hc.within .go, hpeak⟩, ⟨os, ?_, hspill⟩,
      ⟨_, os, hd.within .go, hdrives, hspill⟩⟩
    exact ((hd.within .go).tail (.main (.fail d.main))).trans (hdrives done)

/-- No more than the peak is in flight at any moment of any schedule, and at some moment of some
schedule as much is. -/
theorem inFlight_le_iff {cost : τ → Nat} {n : Nat} :
    (∀ c, Reaches ⟨w, 0⟩ c → c.inFlight cost ≤ n) ↔ w.peak cost ≤ n := by
  constructor
  · intro h
    obtain ⟨c, hc, hpeak⟩ := (attains cost w).peak
    exact hpeak ▸ h c hc
  · intro h c hc
    have hload : c.load cost ≤ w.peak cost := hc.load_le
    exact Nat.le_trans c.inFlight_le_load (Nat.le_trans hload h)

end

end Config

end ForkJoin
