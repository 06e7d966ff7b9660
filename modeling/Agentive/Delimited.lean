import Mathlib.Data.List.Basic

/-! Formats that delimit themselves: what one of them has written is read back in front of any
rest, so that formats can follow one another. -/

namespace Delimited

universe u v w

structure Format (α : Type u) (β : Type v) where
  write : β → List α
  read : List α → Option (β × List α)
  read_write : ∀ b rest, read (write b ++ rest) = some (b, rest)

namespace Format

variable {α : Type u} {β : Type v} {γ : Type w}

/-- One format after another. -/
def pair (f : Format α β) (g : Format α γ) : Format α (β × γ) where
  write b := f.write b.1 ++ g.write b.2
  read word :=
    match f.read word with
    | none => none
    | some (b, word) =>
      match g.read word with
      | none => none
      | some (c, rest) => some ((b, c), rest)
  read_write b rest := by
    rw [List.append_assoc, f.read_write]
    simp only [g.read_write]

section

variable [BEq α] [LawfulBEq α]

theorem dropPrefix?_append (word rest : List α) : (word ++ rest).dropPrefix? word = some rest :=
  List.dropPrefix?_append_of_beq rest BEq.rfl

/-- A format behind a fixed word. -/
def behind (mark : List α) (f : Format α β) : Format α β where
  write b := mark ++ f.write b
  read word :=
    match word.dropPrefix? mark with
    | none => none
    | some word => f.read word
  read_write b rest := by
    rw [List.append_assoc, dropPrefix?_append]
    exact f.read_write b rest

/-- Reads up to a closing word, for no more than `fuel` members. -/
def readMany (f : Format α β) (close : List α) : Nat → List α → Option (List β × List α)
  | 0, _ => none
  | fuel + 1, word =>
    match word.dropPrefix? close with
    | some rest => some ([], rest)
    | none =>
      match f.read word with
      | none => none
      | some (b, word) =>
        match readMany f close fuel word with
        | none => none
        | some (bs, rest) => some (b :: bs, rest)

/-- The closing word is never read as the start of a member. -/
def Closes (f : Format α β) (close : List α) : Prop :=
  ∀ b rest, (f.write b ++ rest).dropPrefix? close = none

theorem Closes.write_ne_nil {f : Format α β} {close : List α} (h : f.Closes close) (b : β) :
    f.write b ≠ [] := by
  intro hnil
  have hclose := h b (close ++ [])
  rw [hnil, List.nil_append, dropPrefix?_append] at hclose
  cases hclose

theorem readMany_write {f : Format α β} {close : List α} (h : f.Closes close) (bs : List β)
    (rest : List α) {fuel : Nat} (hfuel : bs.length < fuel) :
    f.readMany close fuel (bs.flatMap f.write ++ close ++ rest) = some (bs, rest) := by
  induction bs generalizing fuel with
  | nil =>
    obtain ⟨fuel, rfl⟩ := Nat.exists_eq_succ_of_ne_zero (Nat.ne_zero_of_lt hfuel)
    simp only [List.flatMap_nil, List.nil_append, readMany, dropPrefix?_append]
  | cons b bs ih =>
    obtain ⟨fuel, rfl⟩ := Nat.exists_eq_succ_of_ne_zero (Nat.ne_zero_of_lt hfuel)
    have hrest := ih (Nat.lt_of_succ_lt_succ hfuel)
    simp only [List.flatMap_cons, List.append_assoc] at hrest ⊢
    simp only [readMany, h b, f.read_write, hrest]

theorem length_le_length_flatMap {f : Format α β} {close : List α} (h : f.Closes close)
    (bs : List β) : bs.length ≤ (bs.flatMap f.write).length := by
  induction bs with
  | nil => exact Nat.le_refl _
  | cons b bs ih =>
    have hpos := List.length_pos_iff.mpr (h.write_ne_nil b)
    rw [List.flatMap_cons, List.length_append, List.length_cons]
    omega

/-- Members one after another, up to a closing word. -/
def many (f : Format α β) (close : List α) (h : f.Closes close) : Format α (List β) where
  write bs := bs.flatMap f.write ++ close
  read word := f.readMany close (word.length + 1) word
  read_write bs rest := by
    refine readMany_write h bs rest ?_
    have hle := length_le_length_flatMap h bs
    simp only [List.length_append]
    omega

end

end Format

/-- Names for some symbols, behind a mark that has a name itself. No name starts another one. -/
structure Escape (α : Type u) where
  mark : α
  names : List (α × List α)
  marked : mark ∈ names.map Prod.fst
  separate : ∀ e ∈ names, ∀ e' ∈ names, e.2 <+: e'.2 → e = e'

namespace Escape

variable {α : Type u} [BEq α] [LawfulBEq α]

def write (x : Escape α) (a : α) : List α :=
  match x.names.lookup a with
  | some name => x.mark :: name
  | none => [a]

/-- The symbol whose name stands behind a mark. -/
def named (x : Escape α) (word : List α) : Option (α × List α) :=
  x.names.findSome? fun e => (word.dropPrefix? e.2).map fun rest => (e.1, rest)

def read (x : Escape α) : List α → Option (α × List α)
  | [] => none
  | a :: word => if a == x.mark then x.named word else some (a, word)

theorem mem_of_lookup {a : α} {name : List α} {names : List (α × List α)}
    (h : names.lookup a = some name) : (a, name) ∈ names := by
  obtain ⟨before, after, rfl, _⟩ := List.lookup_eq_some_iff.mp h
  simp

theorem notMem_of_lookup {a : α} {names : List (α × List α)} (h : names.lookup a = none) :
    a ∉ names.map Prod.fst := by
  rw [List.lookup_eq_none_iff] at h
  intro hmem
  obtain ⟨e, he, rfl⟩ := List.mem_map.mp hmem
  simpa using h e he

theorem named_append (x : Escape α) {a : α} {name : List α} (h : (a, name) ∈ x.names)
    (rest : List α) : x.named (name ++ rest) = some (a, rest) := by
  have hsome : (x.named (name ++ rest)).isSome = true := by
    rw [named, List.findSome?_isSome_iff]
    exact ⟨(a, name), h, by simp [Format.dropPrefix?_append]⟩
  obtain ⟨result, hresult⟩ := Option.isSome_iff_exists.mp hsome
  obtain ⟨e, he, hread⟩ := List.exists_of_findSome?_eq_some hresult
  obtain ⟨rest', hdrop, rfl⟩ := Option.map_eq_some_iff.mp hread
  obtain ⟨word, hword, hbeq⟩ := List.dropPrefix?_eq_some_iff.mp hdrop
  obtain rfl := eq_of_beq hbeq
  have hname : name <+: name ++ rest := List.prefix_append _ _
  have hother : e.2 <+: name ++ rest := ⟨rest', hword.symm⟩
  obtain rfl : e = (a, name) := by
    rcases List.prefix_or_prefix_of_prefix hname hother with hpre | hpre
    · exact (x.separate _ h _ he hpre).symm
    · exact x.separate _ he _ h hpre
  rw [hresult, List.append_cancel_left hword]

/-- One symbol, escaped where it has a name. -/
def format (x : Escape α) : Format α α where
  write := x.write
  read := x.read
  read_write a rest := by
    cases hl : x.names.lookup a with
    | some name =>
      have hread := x.named_append (mem_of_lookup hl) rest
      simp only [write, hl, List.cons_append, read, BEq.rfl, if_true, hread]
    | none =>
      have hne : (a == x.mark) = false := by
        rw [beq_eq_false_iff_ne]
        rintro rfl
        exact notMem_of_lookup hl x.marked
      simp only [write, hl, List.cons_append, List.nil_append, read, hne, Bool.false_eq_true,
        if_false]

/-- A word that starts with an escaped symbol other than the mark closes escaped text. -/
theorem closes (x : Escape α) {a : α} (word : List α) (hne : a ≠ x.mark)
    (ha : a ∈ x.names.map Prod.fst) : x.format.Closes (a :: word) := by
  intro b rest
  cases hl : x.names.lookup b with
  | some name =>
    have hbeq : (x.mark == a) = false := by simpa using hne.symm
    simp only [format, write, hl, List.cons_append, List.dropPrefix?, hbeq, Bool.false_eq_true,
      if_false]
  | none =>
    have hbeq : (b == a) = false := by
      rw [beq_eq_false_iff_ne]
      rintro rfl
      exact notMem_of_lookup hl ha
    simp only [format, write, hl, List.cons_append, List.dropPrefix?, hbeq, Bool.false_eq_true,
      if_false]

end Escape

end Delimited
