import Mathlib.Data.List.Nodup

/-! Codecs of document trees, put together from the codecs of their parts. A reader may accept
other documents than its writer makes, with members left out or added. What it has accepted is
written such that it is read back, and every codec carries the proof of that. -/

namespace Document

/-- Trees of texts, sequences and named members, with one empty tree. -/
class Medium (V : Type) where
  null : V
  text : String → V
  sequence : List V → V
  members : List (String × V) → V
  isNull : V → Bool
  toText : V → Option String
  toSequence : V → Option (List V)
  toMembers : V → Option (List (String × V))
  isNull_iff : ∀ v, isNull v = true ↔ v = null
  toText_text : ∀ s, toText (text s) = some s
  toSequence_sequence : ∀ vs, toSequence (sequence vs) = some vs
  toSequence_null : toSequence null = none
  toMembers_members : ∀ ms, toMembers (members ms) = some ms
  toMembers_null : toMembers null = none

attribute [simp] Medium.toText_text Medium.toSequence_sequence Medium.toSequence_null
  Medium.toMembers_members Medium.toMembers_null

variable {V α β ρ σ : Type}

structure Codec (V α : Type) where
  encode : α → V
  decode : V → Option α
  stable : ∀ {v a}, decode v = some a → decode (encode a) = some a

namespace Codec

/-- The values that are read back. -/
def Good (c : Codec V α) (a : α) : Prop := c.decode (c.encode a) = some a

/-- A codec that reads all that it writes. -/
def total (encode : α → V) (decode : V → Option α) (h : ∀ a, decode (encode a) = some a) :
    Codec V α where
  encode := encode
  decode := decode
  stable _ := h _

@[simp] theorem good_total {encode : α → V} {decode : V → Option α}
    {h : ∀ a, decode (encode a) = some a} {a : α} : (total encode decode h).Good a := h a

/-- Values that are written as others, some of which are refused when they are read. -/
def convert (c : Codec V α) (write : β → α) (read : α → Option β)
    (h : ∀ a b, read a = some b → write b = a) : Codec V β where
  encode b := c.encode (write b)
  decode v := (c.decode v).bind read
  stable := by
    intro v b hv
    obtain ⟨a, ha, hread⟩ := Option.bind_eq_some_iff.mp hv
    rw [h a b hread, c.stable ha, Option.bind_some, hread]

@[simp] theorem good_convert {c : Codec V α} {write : β → α} {read : α → Option β}
    {h : ∀ a b, read a = some b → write b = a} {b : β} :
    (c.convert write read h).Good b ↔ c.Good (write b) ∧ read (write b) = some b := by
  constructor
  · intro hgood
    obtain ⟨a, ha, hread⟩ := Option.bind_eq_some_iff.mp hgood
    obtain rfl := h a b hread
    exact ⟨ha, hread⟩
  · rintro ⟨hgood, hread⟩
    show (c.decode (c.encode (write b))).bind read = some b
    rw [hgood, Option.bind_some, hread]

/-- Values that are written as others, which all are read. -/
def via (c : Codec V α) (write : β → α) (read : α → β) (hwrite : ∀ a, write (read a) = a)
    (_ : ∀ b, read (write b) = b) : Codec V β where
  encode b := c.encode (write b)
  decode v := (c.decode v).map read
  stable := by
    intro v b hv
    obtain ⟨a, ha, rfl⟩ := Option.map_eq_some_iff.mp hv
    rw [hwrite, c.stable ha, Option.map_some]

@[simp] theorem good_via {c : Codec V α} {write : β → α} {read : α → β}
    {hwrite : ∀ a, write (read a) = a} {hread : ∀ b, read (write b) = b} {b : β} :
    (c.via write read hwrite hread).Good b ↔ c.Good (write b) := by
  constructor
  · intro hgood
    obtain ⟨a, ha, rfl⟩ := Option.map_eq_some_iff.mp hgood
    show c.decode (c.encode (write (read a))) = some (write (read a))
    rw [hwrite]
    exact c.stable ha
  · intro hgood
    show (c.decode (c.encode (write b))).map read = some b
    rw [hgood, Option.map_some, hread]

theorem good_of_mapM {c : Codec V α} {vs : List V} {as : List α}
    (h : vs.mapM c.decode = some as) : ∀ a ∈ as, c.Good a := by
  induction vs generalizing as with
  | nil =>
    cases h
    simp
  | cons v vs ih =>
    simp only [List.mapM_cons, Option.bind_eq_bind, Option.bind_eq_some_iff, Option.pure_def,
      Option.some.injEq] at h
    obtain ⟨a, ha, as', has, rfl⟩ := h
    exact List.forall_mem_cons.mpr ⟨c.stable ha, ih has⟩

theorem mapM_of_good {c : Codec V α} {as : List α} (h : ∀ a ∈ as, c.Good a) :
    (as.map c.encode).mapM c.decode = some as := by
  induction as with
  | nil => rfl
  | cons a as ih =>
    obtain ⟨ha, has⟩ := List.forall_mem_cons.mp h
    have hread : c.decode (c.encode a) = some a := ha
    simp [hread, ih has]

section

variable [Medium V]

def list (c : Codec V α) : Codec V (List α) where
  encode as := Medium.sequence (as.map c.encode)
  decode v := (Medium.toSequence v).bind fun vs => vs.mapM c.decode
  stable := by
    intro v as hv
    obtain ⟨vs, _, hvs⟩ := Option.bind_eq_some_iff.mp hv
    rw [Medium.toSequence_sequence, Option.bind_some, mapM_of_good (good_of_mapM hvs)]

@[simp] theorem good_list {c : Codec V α} {as : List α} : c.list.Good as ↔ ∀ a ∈ as, c.Good a := by
  have hread : c.list.decode (c.list.encode as) = (as.map c.encode).mapM c.decode := by
    simp only [list, Medium.toSequence_sequence, Option.bind_some]
  constructor
  · intro hgood
    exact good_of_mapM (hread.symm.trans hgood)
  · intro hall
    exact hread.trans (mapM_of_good hall)

/-- The empty document is refused. -/
def Solid (c : Codec V α) : Prop := c.decode Medium.null = none

theorem solid_convert {c : Codec V α} (hc : c.Solid) (write : β → α) (read : α → Option β)
    (h : ∀ a b, read a = some b → write b = a) : (c.convert write read h).Solid := by
  show (c.decode Medium.null).bind read = none
  rw [hc, Option.bind_none]

theorem solid_via {c : Codec V α} (hc : c.Solid) (write : β → α) (read : α → β)
    (hwrite : ∀ a, write (read a) = a) (hread : ∀ b, read (write b) = b) :
    (c.via write read hwrite hread).Solid := by
  show (c.decode Medium.null).map read = none
  rw [hc, Option.map_none]

theorem solid_list (c : Codec V α) : c.list.Solid := by
  simp [Solid, list]

theorem isNull_encode {c : Codec V α} (hc : c.Solid) {a : α} (h : c.Good a) :
    ¬ Medium.isNull (c.encode a) = true := by
  intro hnull
  rw [Good, (Medium.isNull_iff _).mp hnull, hc] at h
  cases h

/-- A value that may be missing. -/
def nullable (c : Codec V α) (h : c.Solid) : Codec V (Option α) where
  encode o := o.elim Medium.null c.encode
  decode v := if Medium.isNull v then some none else (c.decode v).map some
  stable := by
    intro v o hv
    cases o with
    | none => exact if_pos ((Medium.isNull_iff _).mpr rfl)
    | some a =>
      by_cases hnull : Medium.isNull v = true
      · simp [hnull] at hv
      · have ha : c.decode v = some a := by simpa [hnull] using hv
        rw [Option.elim_some, if_neg (isNull_encode h (c.stable ha)), c.stable ha, Option.map_some]

@[simp] theorem good_nullable {c : Codec V α} {h : c.Solid} {o : Option α} :
    (c.nullable h).Good o ↔ ∀ a ∈ o, c.Good a := by
  cases o with
  | none => simp [Good, nullable, Medium.isNull_iff]
  | some a =>
    constructor
    · intro hgood b hb
      obtain rfl := Option.mem_some.mp hb
      by_cases hnull : Medium.isNull (c.encode a) = true
      · simp [Good, nullable, hnull] at hgood
      · simpa [Good, nullable, hnull] using hgood
    · intro hall
      have ha : c.Good a := hall a rfl
      have hread : c.decode (c.encode a) = some a := ha
      simp [Good, nullable, isNull_encode h ha, hread]

end

end Codec

/-- The member of this name, the first if there are several. -/
def member (ms : List (String × V)) (name : String) : Option V :=
  (ms.find? fun p => p.1 = name).map (·.2)

theorem member_cons (p : String × V) (ms : List (String × V)) (name : String) :
    member (p :: ms) name = if p.1 = name then some p.2 else member ms name := by
  unfold member
  rw [List.find?_cons]
  by_cases h : p.1 = name <;> simp [h]

@[simp] theorem member_singleton (name : String) (v : V) : member [(name, v)] name = some v := by
  rw [member_cons, if_pos rfl]

theorem member_cons_of_ne {p : String × V} {ms : List (String × V)} {name : String}
    (h : p.1 ≠ name) : member (p :: ms) name = member ms name := by
  rw [member_cons, if_neg h]

theorem member_append (ms ns : List (String × V)) (name : String) :
    member (ms ++ ns) name = (member ms name).or (member ns name) := by
  induction ms with
  | nil => rfl
  | cons p ms ih =>
    rw [List.cons_append, member_cons, member_cons]
    by_cases h : p.1 = name
    · rw [if_pos h, if_pos h, Option.some_or]
    · rw [if_neg h, if_neg h, ih]

theorem member_eq_none {ms : List (String × V)} {name : String}
    (h : ∀ p ∈ ms, p.1 ≠ name) : member ms name = none := by
  induction ms with
  | nil => rfl
  | cons p ms ih =>
    rw [member_cons_of_ne (h p (List.mem_cons_self ..))]
    exact ih fun q hq => h q (List.mem_cons_of_mem p hq)

/-- No member of these names is given twice. -/
def once (names : List String) (ms : List (String × V)) : Bool :=
  names.all fun n => decide ((ms.map (·.1)).count n ≤ 1)

theorem once_of_nodup {names : List String} {ms : List (String × V)}
    (h : (ms.map (·.1)).Nodup) : once names ms = true := by
  rw [once, List.all_eq_true]
  intro n _
  exact decide_eq_true (List.nodup_iff_count_le_one.mp h n)

/-- The fields of a record, read through the members of its document. -/
structure Fields (V ρ : Type) where
  names : List String
  encode : ρ → List (String × V)
  decode : (String → Option V) → Option ρ
  encode_names : ∀ r, ∀ p ∈ encode r, p.1 ∈ names
  encode_nodup : ∀ r, ((encode r).map (·.1)).Nodup
  decode_congr : ∀ {f g}, (∀ n ∈ names, f n = g n) → decode f = decode g
  stable : ∀ {f r}, decode f = some r → decode (member (encode r)) = some r

namespace Fields

def Good (fs : Fields V ρ) (r : ρ) : Prop := fs.decode (member (fs.encode r)) = some r

def required (name : String) (c : Codec V α) : Fields V α where
  names := [name]
  encode a := [(name, c.encode a)]
  decode f := (f name).bind c.decode
  encode_names := by simp
  encode_nodup := by simp
  decode_congr h := by rw [h name (by simp)]
  stable := by
    intro f a hf
    obtain ⟨v, _, hv⟩ := Option.bind_eq_some_iff.mp hf
    rw [member_singleton, Option.bind_some, c.stable hv]

/-- What a field that may be left out is read as. -/
def orDefault (c : Codec V α) (d : α) (o : Option V) : Option α := o.elim (some d) c.decode

theorem good_of_orDefault {c : Codec V α} {d : α} (hd : c.Good d) {o : Option V} {a : α}
    (h : orDefault c d o = some a) : c.Good a := by
  cases o with
  | none => exact Option.some.inj h ▸ hd
  | some v => exact c.stable h

/-- A field that stands for its default where it is missing. -/
def defaulted (name : String) (c : Codec V α) (d : α) (hd : c.Good d) : Fields V α where
  names := [name]
  encode a := [(name, c.encode a)]
  decode f := orDefault c d (f name)
  encode_names := by simp
  encode_nodup := by simp
  decode_congr h := by rw [h name (by simp)]
  stable := by
    intro f a hf
    rw [member_singleton]
    exact good_of_orDefault hd hf

/-- A field without a value where it is missing. -/
def optional [Medium V] (name : String) (c : Codec V α) (h : c.Solid) : Fields V (Option α) :=
  defaulted name (c.nullable h) none (by simp)

/-- A field that is not written where it is at its default. -/
def skipped [DecidableEq α] (name : String) (c : Codec V α) (d : α) (hd : c.Good d) :
    Fields V α where
  names := [name]
  encode a := if a = d then [] else [(name, c.encode a)]
  decode f := orDefault c d (f name)
  encode_names a p hp := by
    by_cases h : a = d
    · simp [h] at hp
    · rw [if_neg h, List.mem_singleton] at hp
      simp [hp]
  encode_nodup a := by by_cases h : a = d <;> simp [h]
  decode_congr h := by rw [h name (by simp)]
  stable := by
    intro f a hf
    by_cases h : a = d
    · rw [if_pos h, h]
      rfl
    · rw [if_neg h, member_singleton]
      exact good_of_orDefault hd hf

def empty : Fields V Unit where
  names := []
  encode _ := []
  decode _ := some ()
  encode_names := by simp
  encode_nodup := by simp
  decode_congr _ := rfl
  stable _ := rfl

theorem known_encode (fs : Fields V ρ) (r : ρ) :
    ((fs.encode r).all fun p => fs.names.contains p.1) = true := by
  rw [List.all_eq_true]
  intro p hp
  exact List.contains_iff_mem.mpr (fs.encode_names r p hp)

theorem decode_append_left (fs : Fields V ρ) {ms ns : List (String × V)}
    (h : ∀ p ∈ ns, p.1 ∉ fs.names) : fs.decode (member (ms ++ ns)) = fs.decode (member ms) := by
  apply fs.decode_congr
  intro n hn
  have hnone : member ns n = none := member_eq_none fun p hp heq => h p hp (heq ▸ hn)
  rw [member_append, hnone, Option.or_none]

theorem decode_append_right (fs : Fields V ρ) {ms ns : List (String × V)}
    (h : ∀ p ∈ ms, p.1 ∉ fs.names) : fs.decode (member (ms ++ ns)) = fs.decode (member ns) := by
  apply fs.decode_congr
  intro n hn
  have hnone : member ms n = none := member_eq_none fun p hp heq => h p hp (heq ▸ hn)
  rw [member_append, hnone, Option.none_or]

/-- Fields with different names side by side. -/
def and (fs : Fields V ρ) (gs : Fields V σ) (h : ∀ n ∈ fs.names, n ∉ gs.names := by simp) :
    Fields V (ρ × σ) where
  names := fs.names ++ gs.names
  encode r := fs.encode r.1 ++ gs.encode r.2
  decode f := (fs.decode f).bind fun r => (gs.decode f).map fun s => (r, s)
  encode_names r p hp := by
    rw [List.mem_append] at hp ⊢
    exact hp.imp (fs.encode_names r.1 p) (gs.encode_names r.2 p)
  encode_nodup r := by
    rw [List.map_append, List.nodup_append']
    refine ⟨fs.encode_nodup r.1, gs.encode_nodup r.2, ?_⟩
    intro n hfs hgs
    obtain ⟨p, hp, rfl⟩ := List.mem_map.mp hfs
    obtain ⟨q, hq, heq⟩ := List.mem_map.mp hgs
    exact h p.1 (fs.encode_names r.1 p hp) (heq ▸ gs.encode_names r.2 q hq)
  decode_congr hfg := by
    rw [fs.decode_congr fun n hn => hfg n (List.mem_append_left _ hn),
      gs.decode_congr fun n hn => hfg n (List.mem_append_right _ hn)]
  stable := by
    intro f r hf
    obtain ⟨r₁, hr₁, hf⟩ := Option.bind_eq_some_iff.mp hf
    obtain ⟨r₂, hr₂, rfl⟩ := Option.map_eq_some_iff.mp hf
    rw [fs.decode_append_left fun p hp hn => h _ hn (gs.encode_names r₂ p hp),
      gs.decode_append_right fun p hp hn => h _ (fs.encode_names r₁ p hp) hn,
      fs.stable hr₁, gs.stable hr₂]
    rfl

@[simp] theorem names_required (name : String) (c : Codec V α) :
    (required name c).names = [name] := by simp only [required]

@[simp] theorem names_defaulted (name : String) (c : Codec V α) (d : α) (hd : c.Good d) :
    (defaulted name c d hd).names = [name] := by simp only [defaulted]

@[simp] theorem names_optional [Medium V] (name : String) (c : Codec V α) (h : c.Solid) :
    (optional name c h).names = [name] := by simp only [optional, defaulted]

@[simp] theorem names_skipped [DecidableEq α] (name : String) (c : Codec V α) (d : α)
    (hd : c.Good d) : (skipped name c d hd).names = [name] := by simp only [skipped]

@[simp] theorem names_empty : (empty : Fields V Unit).names = [] := by simp only [empty]

@[simp] theorem names_and (fs : Fields V ρ) (gs : Fields V σ)
    (h : ∀ n ∈ fs.names, n ∉ gs.names) : (fs.and gs h).names = fs.names ++ gs.names := by
  simp only [and]

@[simp] theorem good_required {name : String} {c : Codec V α} {a : α} :
    (required name c).Good a ↔ c.Good a := by
  show (member [(name, c.encode a)] name).bind c.decode = some a ↔ _
  rw [member_singleton, Option.bind_some, Codec.Good]

@[simp] theorem good_defaulted {name : String} {c : Codec V α} {d a : α} {hd : c.Good d} :
    (defaulted name c d hd).Good a ↔ c.Good a := by
  show orDefault c d (member [(name, c.encode a)] name) = some a ↔ _
  rw [member_singleton]
  exact Iff.rfl

@[simp] theorem good_optional [Medium V] {name : String} {c : Codec V α} {h : c.Solid}
    {o : Option α} : (optional name c h).Good o ↔ ∀ a ∈ o, c.Good a :=
  good_defaulted.trans Codec.good_nullable

@[simp] theorem good_skipped [DecidableEq α] {name : String} {c : Codec V α} {d a : α}
    {hd : c.Good d} : (skipped name c d hd).Good a ↔ c.Good a := by
  show orDefault c d (member (if a = d then [] else [(name, c.encode a)]) name) = some a ↔ _
  by_cases h : a = d
  · rw [if_pos h, h]
    exact ⟨fun _ => hd, fun _ => rfl⟩
  · rw [if_neg h, member_singleton]
    exact Iff.rfl

@[simp] theorem good_empty {r : Unit} : (empty : Fields V Unit).Good r := rfl

@[simp] theorem good_and {fs : Fields V ρ} {gs : Fields V σ} {h : ∀ n ∈ fs.names, n ∉ gs.names}
    {r : ρ × σ} : (fs.and gs h).Good r ↔ fs.Good r.1 ∧ gs.Good r.2 := by
  have hread : (fs.and gs h).decode (member ((fs.and gs h).encode r)) =
      (fs.decode (member (fs.encode r.1))).bind fun a =>
        (gs.decode (member (gs.encode r.2))).map fun b => (a, b) := by
    simp only [and]
    rw [fs.decode_append_left fun p hp hn => h _ hn (gs.encode_names r.2 p hp),
      gs.decode_append_right fun p hp hn => h _ (fs.encode_names r.1 p hp) hn]
  rw [Good, hread, Good, Good]
  constructor
  · intro hgood
    obtain ⟨a, ha, hgood⟩ := Option.bind_eq_some_iff.mp hgood
    obtain ⟨b, hb, rfl⟩ := Option.map_eq_some_iff.mp hgood
    exact ⟨ha, hb⟩
  · rintro ⟨ha, hb⟩
    rw [ha, hb]
    rfl

end Fields

namespace Codec

variable [Medium V]

/-- Records. No member is given twice, and a strict record refuses members that are none of its
fields. -/
def record (fs : Fields V ρ) (strict : Bool) : Codec V ρ where
  encode r := Medium.members (fs.encode r)
  decode v := (Medium.toMembers v).bind fun ms =>
    if (!strict || ms.all fun p => fs.names.contains p.1) && once fs.names ms then
      fs.decode (member ms)
    else none
  stable := by
    intro v r hv
    obtain ⟨ms, _, hms⟩ := Option.bind_eq_some_iff.mp hv
    obtain ⟨_, hr⟩ := Option.ite_none_right_eq_some.mp hms
    rw [Medium.toMembers_members, Option.bind_some, fs.known_encode r,
      once_of_nodup (fs.encode_nodup r), Bool.or_true, Bool.and_true, if_pos rfl, fs.stable hr]

@[simp] theorem good_record {fs : Fields V ρ} {strict : Bool} {r : ρ} :
    (record fs strict).Good r ↔ fs.Good r := by
  have hread : (record fs strict).decode ((record fs strict).encode r) =
      fs.decode (member (fs.encode r)) := by
    simp only [record]
    rw [Medium.toMembers_members, Option.bind_some, fs.known_encode r,
      once_of_nodup (fs.encode_nodup r), Bool.or_true, Bool.and_true, if_pos rfl]
  rw [Good, hread]
  exact Iff.rfl

theorem solid_record (fs : Fields V ρ) (strict : Bool) : (record fs strict).Solid := by
  simp [Solid, record]

end Codec

/-- The variants of a type that are told apart by a tag beside their fields. -/
structure Variants (V α : Type) where
  tags : List String
  names : String → List String
  tag : α → String
  encode : α → List (String × V)
  decode : String → (String → Option V) → Option α
  tag_mem : ∀ a, tag a ∈ tags
  tag_of_decode : ∀ {t f a}, decode t f = some a → tag a = t
  encode_names : ∀ a, ∀ p ∈ encode a, p.1 ∈ names (tag a)
  encode_nodup : ∀ a, ((encode a).map (·.1)).Nodup
  decode_congr : ∀ {t f g}, (∀ n ∈ names t, f n = g n) → decode t f = decode t g
  stable : ∀ {t f a}, decode t f = some a → decode (tag a) (member (encode a)) = some a

namespace Variants

def Good (vs : Variants V α) (a : α) : Prop :=
  vs.decode (vs.tag a) (member (vs.encode a)) = some a

def case (tag : String) (fs : Fields V ρ) : Variants V ρ where
  tags := [tag]
  names _ := fs.names
  tag _ := tag
  encode := fs.encode
  decode t f := if t = tag then fs.decode f else none
  tag_mem := by simp
  tag_of_decode h := (Option.ite_none_right_eq_some.mp h).1.symm
  encode_names := fs.encode_names
  encode_nodup := fs.encode_nodup
  decode_congr h := by rw [fs.decode_congr h]
  stable h := by rw [if_pos rfl, fs.stable (Option.ite_none_right_eq_some.mp h).2]

def or (vs : Variants V α) (ws : Variants V β) (h : ∀ t ∈ vs.tags, t ∉ ws.tags := by simp) :
    Variants V (α ⊕ β) where
  tags := vs.tags ++ ws.tags
  names t := if t ∈ vs.tags then vs.names t else ws.names t
  tag := Sum.elim vs.tag ws.tag
  encode := Sum.elim vs.encode ws.encode
  decode t f :=
    if t ∈ vs.tags then (vs.decode t f).map Sum.inl else (ws.decode t f).map Sum.inr
  tag_mem := by
    rintro (a | b)
    · exact List.mem_append_left _ (vs.tag_mem a)
    · exact List.mem_append_right _ (ws.tag_mem b)
  tag_of_decode := by
    intro t f a hf
    by_cases ht : t ∈ vs.tags
    · rw [if_pos ht] at hf
      obtain ⟨b, hb, rfl⟩ := Option.map_eq_some_iff.mp hf
      exact vs.tag_of_decode hb
    · rw [if_neg ht] at hf
      obtain ⟨b, hb, rfl⟩ := Option.map_eq_some_iff.mp hf
      exact ws.tag_of_decode hb
  encode_names := by
    rintro (a | b) p hp
    · rw [Sum.elim_inl, if_pos (vs.tag_mem a)]
      exact vs.encode_names a p hp
    · rw [Sum.elim_inr, if_neg fun ht => h _ ht (ws.tag_mem b)]
      exact ws.encode_names b p hp
  encode_nodup := by
    rintro (a | b)
    · exact vs.encode_nodup a
    · exact ws.encode_nodup b
  decode_congr := by
    intro t f g hfg
    by_cases ht : t ∈ vs.tags
    · simp only [ht, if_true] at hfg ⊢
      rw [vs.decode_congr hfg]
    · simp only [ht, if_false] at hfg ⊢
      rw [ws.decode_congr hfg]
  stable := by
    intro t f a hf
    by_cases ht : t ∈ vs.tags
    · rw [if_pos ht] at hf
      obtain ⟨b, hb, rfl⟩ := Option.map_eq_some_iff.mp hf
      rw [Sum.elim_inl, Sum.elim_inl, if_pos (vs.tag_mem b), vs.stable hb, Option.map_some]
    · rw [if_neg ht] at hf
      obtain ⟨b, hb, rfl⟩ := Option.map_eq_some_iff.mp hf
      rw [Sum.elim_inr, Sum.elim_inr, if_neg fun ht => h _ ht (ws.tag_mem b), ws.stable hb,
        Option.map_some]

theorem nodup_cons (vs : Variants V α) {key : String} (hkey : ∀ t ∈ vs.tags, key ∉ vs.names t)
    {v : V} (a : α) : (((key, v) :: vs.encode a).map (·.1)).Nodup := by
  rw [List.map_cons, List.nodup_cons]
  refine ⟨?_, vs.encode_nodup a⟩
  intro hmem
  obtain ⟨p, hp, rfl⟩ := List.mem_map.mp hmem
  exact hkey _ (vs.tag_mem a) (vs.encode_names a p hp)

theorem decode_cons (vs : Variants V α) {key : String} (hkey : ∀ t ∈ vs.tags, key ∉ vs.names t)
    {v : V} (a : α) : vs.decode (vs.tag a) (member ((key, v) :: vs.encode a)) =
      vs.decode (vs.tag a) (member (vs.encode a)) := by
  apply vs.decode_congr
  rintro n hn
  apply member_cons_of_ne
  rintro rfl
  exact hkey _ (vs.tag_mem a) hn

@[simp] theorem tags_case (tag : String) (fs : Fields V ρ) : (case tag fs).tags = [tag] := by
  simp only [case]

@[simp] theorem names_case (tag : String) (fs : Fields V ρ) (t : String) :
    (case tag fs).names t = fs.names := by simp only [case]

@[simp] theorem tags_or (vs : Variants V α) (ws : Variants V β) (h : ∀ t ∈ vs.tags, t ∉ ws.tags) :
    (vs.or ws h).tags = vs.tags ++ ws.tags := by simp only [or]

@[simp] theorem names_or (vs : Variants V α) (ws : Variants V β) (h : ∀ t ∈ vs.tags, t ∉ ws.tags)
    (t : String) : (vs.or ws h).names t = if t ∈ vs.tags then vs.names t else ws.names t := by
  simp only [or]

@[simp] theorem good_case {tag : String} {fs : Fields V ρ} {r : ρ} :
    (case tag fs).Good r ↔ fs.Good r := by
  simp [Good, case, Fields.Good]

@[simp] theorem good_or {vs : Variants V α} {ws : Variants V β} {h : ∀ t ∈ vs.tags, t ∉ ws.tags}
    {a : α ⊕ β} : (vs.or ws h).Good a ↔ Sum.elim vs.Good ws.Good a := by
  rcases a with a | b
  · simp [Good, or, vs.tag_mem a]
  · have ht : ws.tag b ∉ vs.tags := fun ht => h _ ht (ws.tag_mem b)
    simp [Good, or, ht]

end Variants

namespace Codec

section

variable [Medium V]

/-- Variants with their tag among their members. -/
def tagged (key : String) (vs : Variants V α)
    (hkey : ∀ t ∈ vs.tags, key ∉ vs.names t := by simp) : Codec V α where
  encode a := Medium.members ((key, Medium.text (vs.tag a)) :: vs.encode a)
  decode v := (Medium.toMembers v).bind fun ms =>
    (member ms key).bind fun tag => (Medium.toText tag).bind fun t =>
      if once (key :: vs.names t) ms then vs.decode t (member ms) else none
  stable := by
    intro v a hv
    obtain ⟨ms, _, hv⟩ := Option.bind_eq_some_iff.mp hv
    obtain ⟨tag, _, hv⟩ := Option.bind_eq_some_iff.mp hv
    obtain ⟨t, _, hv⟩ := Option.bind_eq_some_iff.mp hv
    obtain ⟨_, ha⟩ := Option.ite_none_right_eq_some.mp hv
    rw [Medium.toMembers_members, Option.bind_some, member_cons, if_pos rfl, Option.bind_some,
      Medium.toText_text, Option.bind_some, once_of_nodup (vs.nodup_cons hkey a), if_pos rfl,
      vs.decode_cons hkey a, vs.stable ha]

theorem decode_encode_tagged {key : String} {vs : Variants V α}
    {hkey : ∀ t ∈ vs.tags, key ∉ vs.names t} (a : α) :
    (tagged key vs hkey).decode ((tagged key vs hkey).encode a) =
      vs.decode (vs.tag a) (member (vs.encode a)) := by
  simp only [tagged]
  rw [Medium.toMembers_members, Option.bind_some, member_cons, if_pos rfl, Option.bind_some,
    Medium.toText_text, Option.bind_some, once_of_nodup (vs.nodup_cons hkey a), if_pos rfl]
  exact vs.decode_cons hkey a

@[simp] theorem good_tagged {key : String} {vs : Variants V α}
    {hkey : ∀ t ∈ vs.tags, key ∉ vs.names t} {a : α} :
    (tagged key vs hkey).Good a ↔ vs.Good a := by
  rw [Good, decode_encode_tagged]
  exact Iff.rfl

/-- The only member of a record. -/
def only (key : String) (c : Codec V α) : Codec V α where
  encode a := Medium.members [(key, c.encode a)]
  decode v := (Medium.toMembers v).bind fun ms =>
    match ms with
    | [p] => if p.1 = key then c.decode p.2 else none
    | _ => none
  stable := by
    intro v a hv
    obtain ⟨ms, _, hv⟩ := Option.bind_eq_some_iff.mp hv
    rw [Medium.toMembers_members, Option.bind_some]
    rcases ms with _ | ⟨p, _ | ⟨q, ms⟩⟩
    · cases hv
    · exact (if_pos rfl).trans (c.stable (Option.ite_none_right_eq_some.mp hv).2)
    · cases hv

@[simp] theorem good_only {key : String} {c : Codec V α} {a : α} :
    (only key c).Good a ↔ c.Good a := by
  simp [Good, only]

/-- Names of values. A name may also be the only member of a record, with nothing in it. -/
def names (name : α → String) (ofName : String → Option α)
    (h : ∀ a, ofName (name a) = some a) : Codec V α where
  encode a := Medium.text (name a)
  decode v :=
    match Medium.toText v with
    | some s => ofName s
    | none => (Medium.toMembers v).bind fun ms =>
      match ms with
      | [p] => if Medium.isNull p.2 then ofName p.1 else none
      | _ => none
  stable _ := by simp only [Medium.toText_text, h]

@[simp] theorem good_names {name : α → String} {ofName : String → Option α}
    {h : ∀ a, ofName (name a) = some a} {a : α} : (names (V := V) name ofName h).Good a := by
  simp only [Good, names, Medium.toText_text, h]

end

/-- Values of two types: what the first codec refuses is left to the second. -/
def orElse (c : Codec V α) (d : Codec V β) (h : ∀ b, d.Good b → c.decode (d.encode b) = none) :
    Codec V (α ⊕ β) where
  encode := Sum.elim c.encode d.encode
  decode v := (c.decode v).elim ((d.decode v).map .inr) fun a => some (.inl a)
  stable := by
    intro v s hv
    cases hc : c.decode v with
    | some a =>
      rw [hc] at hv
      cases hv
      rw [Sum.elim_inl, c.stable hc]
      rfl
    | none =>
      rw [hc] at hv
      obtain ⟨b, hb, rfl⟩ := Option.map_eq_some_iff.mp hv
      rw [Sum.elim_inr, h b (d.stable hb), d.stable hb]
      rfl

@[simp] theorem good_orElse {c : Codec V α} {d : Codec V β}
    {h : ∀ b, d.Good b → c.decode (d.encode b) = none} {s : α ⊕ β} :
    (orElse c d h).Good s ↔ Sum.elim c.Good d.Good s := by
  rcases s with a | b
  · cases ha : c.decode (c.encode a) with
    | none =>
      cases hd : d.decode (c.encode a) <;> simp [Good, orElse, ha, hd]
    | some a' => simp [Good, orElse, ha]
  · constructor
    · intro hgood
      cases hc : c.decode (d.encode b) with
      | some a => simp [Good, orElse, hc] at hgood
      | none => simpa [Good, orElse, hc] using hgood
    · intro hgood
      have hb : d.decode (d.encode b) = some b := hgood
      simp [Good, orElse, h b hgood, hb]

end Codec

end Document
