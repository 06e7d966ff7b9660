import Agentive.Framing
import Agentive.Payload
import Mathlib.Data.List.Forall2
import Mathlib.Order.Fin.Basic

/-! The bytes under the fingerprint of a pipeline determine its default storage and the contracts
of its codecs. -/

namespace Agentive

/-! Identities and versions as bytes. -/

theorem utf8Size_of_stable {c : Char} (h : (c.isLower || c.isDigit || c == '-') = true) :
    c.utf8Size = 1 ∧ 45 ≤ c.toNat ∧ c.toNat < 123 := by
  have hrange : 45 ≤ c.toNat ∧ c.toNat < 123 := by
    have hlower : c.isLower = (decide (c.val ≥ 'a'.val) && decide (c.val ≤ 'z'.val)) := rfl
    simp only [Bool.or_eq_true, hlower, Char.isDigit, Bool.and_eq_true, decide_eq_true_eq,
      beq_iff_eq, UInt32.le_iff_toNat_le] at h
    rcases h with (h | h) | rfl
    · have h1 : 97 ≤ c.toNat := h.1
      have h2 : c.toNat ≤ 122 := h.2
      omega
    · have h1 : 48 ≤ c.toNat := h.1
      have h2 : c.toNat ≤ 57 := h.2
      omega
    · decide
  refine ⟨?_, hrange⟩
  have hle : c.toNat ≤ 127 := by omega
  exact Char.utf8Size_eq_one_iff.mpr (UInt32.le_iff_toNat_le.mpr hle)

/-- The characters of an identity are bytes, none of them zero and no two of them the same. -/
theorem utf8_of_stable {text : String} (h : isStableIdentity text = true) :
    utf8 text = text.toList.map (UInt8.ofNat ·.toNat) ∧
      ∀ c ∈ text.toList, 45 ≤ c.toNat ∧ c.toNat < 123 := by
  have hall : ∀ c ∈ text.toList, (c.isLower || c.isDigit || c == '-') = true := by
    simp only [isStableIdentity, Bool.and_eq_true, List.all_eq_true] at h
    exact h.2
  refine ⟨?_, fun c hc => (utf8Size_of_stable (hall c hc)).2⟩
  rw [utf8, List.map_eq_flatMap]
  refine List.flatMap_congr fun c hc => ?_
  rw [String.utf8EncodeChar_eq_singleton (utf8Size_of_stable (hall c hc)).1]
  rfl

theorem zero_notMem_utf8 {text : String} (h : isStableIdentity text = true) : 0 ∉ utf8 text := by
  obtain ⟨hutf, hrange⟩ := utf8_of_stable h
  rw [hutf]
  intro hmem
  obtain ⟨c, hc, hzero⟩ := List.mem_map.mp hmem
  have hbounds := hrange c hc
  have hval := congrArg UInt8.toNat hzero
  simp only [UInt8.toNat_ofNat', UInt8.reduceToNat] at hval
  omega

theorem length_toBeBytes (version : CodecVersion) : (CodecVersion.toBeBytes version).length = 2 :=
  rfl

theorem toBeBytes_injective : Function.Injective CodecVersion.toBeBytes := by
  intro v w h
  simp only [CodecVersion.toBeBytes, List.cons.injEq, and_true] at h
  have hhigh := congrArg UInt8.toNat h.1
  have hlow := congrArg UInt8.toNat h.2
  simp only [UInt8.toNat_ofNat'] at hhigh hlow
  have hv := v.isLt
  have hw := w.isLt
  exact Fin.ext (by omega)

/-! The contract of the last codec is read from the end of the bytes. -/

theorem fingerprintBytes_inj {a b : Bytes} {d e : CodecDescriptor}
    (h : a ++ d.fingerprintBytes = b ++ e.fingerprintBytes) : a = b ∧ d = e := by
  have hruns : (a ++ 0 :: utf8 d.id.text) ++ CodecVersion.toBeBytes d.encodeVersion ++
      d.decodeVersions.flatMap CodecVersion.toBeBytes =
        (b ++ 0 :: utf8 e.id.text) ++ CodecVersion.toBeBytes e.encodeVersion ++
          e.decodeVersions.flatMap CodecVersion.toBeBytes := by
    simpa [CodecDescriptor.fingerprintBytes] using h
  obtain ⟨hids, hencode, hdecode⟩ := Framing.run_inj length_toBeBytes toBeBytes_injective
    d.ascending e.ascending d.readsOwn e.readsOwn hruns
  obtain ⟨hab, htext⟩ := Framing.separator_inj (zero_notMem_utf8 d.id.valid)
    (zero_notMem_utf8 e.id.valid) hids
  have hid : d.id = e.id := by
    have htext := utf8_injective htext
    obtain ⟨⟨_, _⟩, _, _, _, _⟩ := d
    obtain ⟨⟨_, _⟩, _, _, _, _⟩ := e
    simpa using htext
  refine ⟨hab, ?_⟩
  cases d
  cases e
  simp_all

/-- The fixed text and the default storage at the start of the bytes. -/
def fingerprintHeader (defaultStorage : StorageId) : Bytes :=
  utf8 "agentive-temporal-pipeline-v1" ++ [0] ++ utf8 defaultStorage.text

theorem fingerprintPreimage_eq_ok {defaultStorage : StorageId} {codecs : List PayloadCodec}
    {bytes : Bytes} (h : fingerprintPreimage defaultStorage codecs = .ok bytes) :
    ∃ ds, List.Forall₂ (fun codec d => codec.descriptor = .ok d) codecs ds ∧
      bytes = fingerprintHeader defaultStorage ++ ds.flatMap (·.fingerprintBytes) := by
  unfold fingerprintPreimage at h
  rw [← fingerprintHeader] at h
  generalize fingerprintHeader defaultStorage = start at h ⊢
  induction codecs generalizing start with
  | nil =>
    obtain rfl := Except.ok.inj h
    exact ⟨[], .nil, by simp⟩
  | cons codec codecs ih =>
    rw [List.foldlM_cons] at h
    cases hd : codec.descriptor with
    | error e =>
      rw [hd] at h
      cases h
    | ok d =>
      rw [hd] at h
      obtain ⟨ds, hds, hbytes⟩ := ih _ h
      exact ⟨d :: ds, .cons hd hds, by rw [hbytes, List.flatMap_cons, List.append_assoc]⟩

/-- A zero byte follows the default storage only if there is a codec. -/
theorem header_ne_append {st st' : StorageId} {ds : List CodecDescriptor} {d : CodecDescriptor} :
    fingerprintHeader st ≠
      fingerprintHeader st' ++ (ds.flatMap (·.fingerprintBytes) ++ d.fingerprintBytes) := by
  intro h
  simp only [fingerprintHeader, List.append_assoc, List.append_cancel_left_eq] at h
  apply zero_notMem_utf8 st.valid
  rw [h]
  simp [CodecDescriptor.fingerprintBytes]

theorem header_append_inj {st st' : StorageId} {ds es : List CodecDescriptor}
    (h : fingerprintHeader st ++ ds.flatMap (·.fingerprintBytes) =
      fingerprintHeader st' ++ es.flatMap (·.fingerprintBytes)) : st = st' ∧ ds = es := by
  induction ds using List.reverseRecOn generalizing es with
  | nil =>
    cases es using List.reverseRecOn with
    | nil =>
      simp only [fingerprintHeader, List.flatMap_nil, List.append_nil, List.append_assoc,
        List.append_cancel_left_eq] at h
      have htext := utf8_injective h
      cases st
      cases st'
      exact ⟨by simpa using htext, rfl⟩
    | append_singleton es e =>
      rw [List.flatMap_nil, List.append_nil, List.flatMap_append, List.flatMap_singleton] at h
      exact absurd h header_ne_append
  | append_singleton ds d ih =>
    cases es using List.reverseRecOn with
    | nil =>
      rw [List.flatMap_nil, List.append_nil, List.flatMap_append, List.flatMap_singleton] at h
      exact absurd h.symm header_ne_append
    | append_singleton es e =>
      rw [List.flatMap_append, List.flatMap_append, List.flatMap_singleton,
        List.flatMap_singleton, ← List.append_assoc, ← List.append_assoc] at h
      obtain ⟨hrest, rfl⟩ := fingerprintBytes_inj h
      obtain ⟨hst, rfl⟩ := ih hrest
      exact ⟨hst, rfl⟩

/-- Pipelines with the same bytes under their fingerprints have the same default storage, and one
by one codecs of the same identity, encode version and decode versions. -/
theorem fingerprint_preimage_injective {st st' : StorageId} {codecs codecs' : List PayloadCodec}
    {bytes : Bytes} (h : fingerprintPreimage st codecs = .ok bytes)
    (h' : fingerprintPreimage st' codecs' = .ok bytes) :
    st = st' ∧ List.Forall₂
      (fun codec codec' => ∃ d, codec.descriptor = .ok d ∧ codec'.descriptor = .ok d)
      codecs codecs' := by
  obtain ⟨ds, hds, hbytes⟩ := fingerprintPreimage_eq_ok h
  obtain ⟨es, hes, hbytes'⟩ := fingerprintPreimage_eq_ok h'
  obtain ⟨hst, rfl⟩ := header_append_inj (hbytes.symm.trans hbytes')
  refine ⟨hst, ?_⟩
  clear h h' hbytes hbytes'
  induction hds generalizing codecs' with
  | nil =>
    cases hes
    exact .nil
  | cons hd _ ih =>
    cases hes with
    | cons he hes => exact .cons ⟨_, hd, he⟩ (ih hes)

namespace Sample

/-- A codec that writes version 1 and still reads version 3. -/
def fingerprinted : PayloadCodec :=
  { descriptor := CodecDescriptor.new ⟨"zstd", by decide⟩ 1 [3, 1]
    encode := fun _ => .ok .notHandled
    decode := fun _ bytes _ => .ok bytes }

/-- The same to the fingerprint: its versions are listed in another order. -/
def relisted : PayloadCodec :=
  { descriptor := CodecDescriptor.new ⟨"zstd", by decide⟩ 1 [1, 3]
    encode := fun bytes => .ok (.applied bytes.reverse)
    decode := fun _ bytes _ => .ok bytes.reverse }

def sealing : PayloadCodec :=
  { descriptor := CodecDescriptor.new ⟨"seal", by decide⟩ 2 [2]
    encode := fun bytes => .ok (.applied (0 :: bytes))
    decode := fun _ bytes _ => .ok bytes.tail }

end Sample

theorem fingerprint_preimage_injective_sample :
    (∃ bytes, fingerprintPreimage ⟨"local", by decide⟩ [Sample.fingerprinted, Sample.sealing] =
        .ok bytes ∧
      fingerprintPreimage ⟨"local", by decide⟩ [Sample.relisted, Sample.sealing] = .ok bytes) ∧
      List.Forall₂ (fun codec codec' => ∃ d, codec.descriptor = .ok d ∧ codec'.descriptor = .ok d)
        [Sample.fingerprinted, Sample.sealing] [Sample.relisted, Sample.sealing] := by
  have h : fingerprintPreimage ⟨"local", by decide⟩ [Sample.fingerprinted, Sample.sealing] =
    .ok _ := rfl
  have h' : fingerprintPreimage ⟨"local", by decide⟩ [Sample.relisted, Sample.sealing] =
    .ok _ := rfl
  exact ⟨⟨_, h, h'⟩, (fingerprint_preimage_injective h h').2⟩

end Agentive
