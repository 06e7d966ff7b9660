import Agentive.DocumentCodec

/-! How deep the documents of a codec go: a record or a sequence is one level above its parts. -/

namespace Document

/-- Documents within a number of levels, in which no member is given twice. -/
class Levels (V : Type) [Medium V] where
  Fits : Nat → V → Prop
  fits_null : ∀ n, Fits n Medium.null
  fits_text : ∀ n s, Fits n (Medium.text s)
  fits_sequence : ∀ n vs, Fits (n + 1) (Medium.sequence vs) ↔ ∀ v ∈ vs, Fits n v
  fits_members : ∀ n ms, Fits (n + 1) (Medium.members ms) ↔
    (ms.map (·.1)).Nodup ∧ ∀ p ∈ ms, Fits n p.2

attribute [simp] Levels.fits_null Levels.fits_text Levels.fits_sequence

variable {V : Type} [Medium V] [Levels V] {α β ρ σ : Type} {n : Nat}

def Codec.Fits (c : Codec V α) (n : Nat) (a : α) : Prop := Levels.Fits n (c.encode a)

def Fields.Fits (fs : Fields V ρ) (n : Nat) (r : ρ) : Prop := ∀ p ∈ fs.encode r, Levels.Fits n p.2

def Variants.Fits (vs : Variants V α) (n : Nat) (a : α) : Prop :=
  ∀ p ∈ vs.encode a, Levels.Fits n p.2

namespace Fields

@[simp] theorem fits_required {name : String} {c : Codec V α} {a : α} :
    (required name c).Fits n a ↔ c.Fits n a := by
  simp [Fits, required, Codec.Fits]

@[simp] theorem fits_defaulted {name : String} {c : Codec V α} {d a : α} {hd : c.Good d} :
    (defaulted name c d hd).Fits n a ↔ c.Fits n a := by
  simp [Fits, defaulted, Codec.Fits]

@[simp] theorem fits_skipped [DecidableEq α] {name : String} {c : Codec V α} {d a : α}
    {hd : c.Good d} : (skipped name c d hd).Fits n a ↔ (a ≠ d → c.Fits n a) := by
  by_cases h : a = d <;> simp [Fits, skipped, Codec.Fits, h]

@[simp] theorem fits_empty {r : Unit} : (empty : Fields V Unit).Fits n r := by
  simp [Fits, empty]

@[simp] theorem fits_and {fs : Fields V ρ} {gs : Fields V σ} {h : ∀ n ∈ fs.names, n ∉ gs.names}
    {r : ρ × σ} : (fs.and gs h).Fits n r ↔ fs.Fits n r.1 ∧ gs.Fits n r.2 := by
  simp only [Fits, Fields.and, List.forall_mem_append]

end Fields

namespace Variants

@[simp] theorem fits_case {tag : String} {fs : Fields V ρ} {r : ρ} :
    (case tag fs).Fits n r ↔ fs.Fits n r := Iff.rfl

@[simp] theorem fits_or {vs : Variants V α} {ws : Variants V β} {h : ∀ t ∈ vs.tags, t ∉ ws.tags}
    {a : α ⊕ β} : (vs.or ws h).Fits n a ↔ Sum.elim (vs.Fits n) (ws.Fits n) a := by
  cases a <;> exact Iff.rfl

end Variants

namespace Codec

@[simp] theorem fits_convert {c : Codec V α} {write : β → α} {read : α → Option β}
    {h : ∀ a b, read a = some b → write b = a} {b : β} :
    (c.convert write read h).Fits n b ↔ c.Fits n (write b) := Iff.rfl

@[simp] theorem fits_via {c : Codec V α} {write : β → α} {read : α → β}
    {hwrite : ∀ a, write (read a) = a} {hread : ∀ b, read (write b) = b} {b : β} :
    (c.via write read hwrite hread).Fits n b ↔ c.Fits n (write b) := Iff.rfl

@[simp] theorem fits_list {c : Codec V α} {as : List α} :
    c.list.Fits (n + 1) as ↔ ∀ a ∈ as, c.Fits n a := by
  simp [Fits, list]

@[simp] theorem fits_nullable {c : Codec V α} {h : c.Solid} {o : Option α} :
    (c.nullable h).Fits n o ↔ ∀ a ∈ o, c.Fits n a := by
  cases o <;> simp [Fits, nullable]

@[simp] theorem fits_record {fs : Fields V ρ} {strict : Bool} {r : ρ} :
    (record fs strict).Fits (n + 1) r ↔ fs.Fits n r := by
  simp only [Fits, record, Levels.fits_members, fs.encode_nodup r, true_and]
  exact Iff.rfl

@[simp] theorem fits_tagged {key : String} {vs : Variants V α}
    {hkey : ∀ t ∈ vs.tags, key ∉ vs.names t} {a : α} :
    (tagged key vs hkey).Fits (n + 1) a ↔ vs.Fits n a := by
  simp only [Fits, tagged, Levels.fits_members, vs.nodup_cons hkey a, true_and,
    List.forall_mem_cons, Levels.fits_text]
  exact Iff.rfl

@[simp] theorem fits_only {key : String} {c : Codec V α} {a : α} :
    (only key c).Fits (n + 1) a ↔ c.Fits n a := by
  simp [Fits, only, Levels.fits_members]

@[simp] theorem fits_names {name : α → String} {ofName : String → Option α}
    {h : ∀ a, ofName (name a) = some a} {a : α} : (names (V := V) name ofName h).Fits n a :=
  Levels.fits_text n _

@[simp] theorem fits_orElse {c : Codec V α} {d : Codec V β}
    {h : ∀ b, d.Good b → c.decode (d.encode b) = none} {s : α ⊕ β} :
    (orElse c d h).Fits n s ↔ Sum.elim (c.Fits n) (d.Fits n) s := by
  cases s <;> exact Iff.rfl

end Codec

@[simp] theorem Fields.fits_optional {name : String} {c : Codec V α} {h : c.Solid}
    {o : Option α} : (optional name c h).Fits n o ↔ ∀ a ∈ o, c.Fits n a :=
  fits_defaulted.trans Codec.fits_nullable

end Document
