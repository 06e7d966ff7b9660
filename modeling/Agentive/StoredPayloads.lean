import Agentive.Pipeline
import Mathlib.Data.List.Pairwise

/-! What a writer stores, a reader reads. The reader undoes the chain of applied codecs, under
its own limits and with its own selection of codecs. -/

namespace Agentive

open StageChain

/-- The codec reads this version of this codec id. -/
def PayloadCodec.Owns (codec : PayloadCodec) (key : CodecId × CodecVersion) : Prop :=
  ∃ d, codec.descriptor = .ok d ∧ d.id = key.1 ∧ key.2 ∈ d.decodeVersions

theorem PayloadCodec.decodes_iff {codec : PayloadCodec} {used : CodecUse} :
    codec.decodes used = true ↔ codec.Owns (used.id, used.version) := by
  cases hd : codec.descriptor <;> simp [PayloadCodec.decodes, PayloadCodec.Owns, hd]

theorem claimVersions_ok {id : CodecId} {versions : List CodecVersion}
    {owners owners' : List (CodecId × CodecVersion)}
    (h : claimVersions id versions owners = .ok owners') :
    (∀ v ∈ versions, (id, v) ∉ owners) ∧ ∀ key, key ∈ owners ∨ key.1 = id ∧ key.2 ∈ versions →
      key ∈ owners' := by
  induction versions generalizing owners with
  | nil =>
    obtain rfl := Except.ok.inj h
    simp
  | cons v versions ih =>
    by_cases hm : (id, v) ∈ owners
    · simp [claimVersions, hm] at h
    · simp only [claimVersions, hm, if_false] at h
      obtain ⟨hfresh, hmem⟩ := ih h
      refine ⟨?_, ?_⟩
      · intro u hu
        rcases List.mem_cons.mp hu with rfl | hu
        · exact hm
        · exact fun ho => hfresh u hu (List.mem_cons_of_mem _ ho)
      · rintro ⟨i, u⟩ (ho | ⟨rfl, hu⟩)
        · exact hmem _ (.inl (List.mem_cons_of_mem _ ho))
        · rcases List.mem_cons.mp hu with rfl | hu
          · exact hmem _ (.inl List.mem_cons_self)
          · exact hmem _ (.inr ⟨rfl, hu⟩)

theorem claimOwners_ok {codecs : List PayloadCodec}
    {owners owners' : List (CodecId × CodecVersion)}
    (h : claimOwners codecs owners = .ok owners') :
    (∀ c ∈ codecs, ∀ key, c.Owns key → key ∉ owners) ∧
      codecs.Pairwise fun c c' => ∀ key, c.Owns key → ¬ c'.Owns key := by
  induction codecs generalizing owners with
  | nil => simp
  | cons c codecs ih =>
    cases hd : c.descriptor with
    | error e => simp [claimOwners, hd] at h
    | ok d =>
      simp only [claimOwners, hd] at h
      cases hv : claimVersions d.id d.decodeVersions owners with
      | error e => simp [hv] at h
      | ok owners₁ =>
        simp only [hv] at h
        obtain ⟨hfresh, hmem⟩ := claimVersions_ok hv
        obtain ⟨hrest, hpair⟩ := ih h
        have howns {key : CodecId × CodecVersion} (ho : c.Owns key) :
            key.1 = d.id ∧ key.2 ∈ d.decodeVersions := by
          obtain ⟨d', hd', hid, hver⟩ := ho
          obtain rfl := Except.ok.inj (hd.symm.trans hd')
          exact ⟨hid.symm, hver⟩
        refine ⟨?_, List.pairwise_cons.mpr ⟨?_, hpair⟩⟩
        · intro c' hc' key ho
          rcases List.mem_cons.mp hc' with rfl | hc'
          · obtain ⟨hid, hver⟩ := howns ho
            have hkey : key = (d.id, key.2) := Prod.ext hid rfl
            exact hkey ▸ hfresh key.2 hver
          · exact fun hk => hrest c' hc' key ho (hmem key (.inl hk))
        · exact fun c' hc' key ho ho' => hrest c' hc' key ho' (hmem key (.inr (howns ho)))

section

variable [Sha256] {σ : Type}

/-- The codec selected for a record is the one that wrote it, if the pipeline has it. -/
theorem PayloadPipeline.find_decodes (p : PayloadPipeline σ) {codec : PayloadCodec}
    {used : CodecUse} (hc : codec ∈ p.codecs) (ho : codec.Owns (used.id, used.version)) :
    p.codecs.find? (·.decodes used) = some codec := by
  obtain ⟨owners, howned⟩ := p.owned
  have hpair := (claimOwners_ok howned).2
  cases hf : p.codecs.find? (·.decodes used) with
  | none =>
    have hn := List.find?_eq_none.mp hf codec hc
    exact absurd (PayloadCodec.decodes_iff.mpr ho) hn
  | some found =>
    have hsome : found.decodes used = true := by
      simpa using List.find?_some hf
    have hfound := PayloadCodec.decodes_iff.mp hsome
    by_contra hne
    have hsymm : Std.Symm fun c c' : PayloadCodec => ∀ key, c.Owns key → ¬ c'.Owns key :=
      ⟨fun _ _ h key ho' ho => h key ho ho'⟩
    exact hpair.forall (List.mem_of_find?_eq_some hf) hc (fun he => hne (by rw [he])) _ hfound ho

end

/-- The inputs of the codecs that apply, in order. -/
def codecInputs : List PayloadCodec → Bytes → List Bytes
  | [], _ => []
  | codec :: codecs, bytes =>
    match codec.encode bytes with
    | .ok (.applied transformed) => bytes :: codecInputs codecs transformed
    | _ => codecInputs codecs bytes

/-- The bytes that the codecs leave. -/
def codecOutput : List PayloadCodec → Bytes → Bytes
  | [], bytes => bytes
  | codec :: codecs, bytes =>
    match codec.encode bytes with
    | .ok (.applied transformed) => codecOutput codecs transformed
    | _ => codecOutput codecs bytes

/-- The step was made by a codec of the list. -/
def MadeBy (codecs : List PayloadCodec) (s : Step CodecUse Bytes) : Prop :=
  ∃ c ∈ codecs, ∃ d, c.descriptor = .ok d ∧ s.record = ⟨d.id, d.encodeVersion⟩ ∧
    c.encode s.input = .ok (.applied s.output)

theorem MadeBy.cons {codecs : List PayloadCodec} {s : Step CodecUse Bytes} (c : PayloadCodec)
    (h : MadeBy codecs s) : MadeBy (c :: codecs) s := by
  obtain ⟨c', hc', hrest⟩ := h
  exact ⟨c', List.mem_cons_of_mem c hc', hrest⟩

theorem applyCodecs_linked {codecs : List PayloadCodec} {bytes out : Bytes}
    {used : List CodecUse} (h : applyCodecs codecs bytes = .ok (out, used)) :
    out = codecOutput codecs bytes ∧ ∃ steps, Linked bytes steps out ∧
      used = steps.map (·.record) ∧ codecInputs codecs bytes = steps.map (·.input) ∧
      ∀ s ∈ steps, MadeBy codecs s := by
  induction codecs generalizing bytes out used with
  | nil =>
    simp only [applyCodecs, Except.ok.injEq, Prod.mk.injEq] at h
    obtain ⟨rfl, rfl⟩ := h
    exact ⟨rfl, [], rfl, rfl, rfl, by simp⟩
  | cons c codecs ih =>
    cases he : c.encode bytes with
    | error e => simp [applyCodecs, he] at h
    | ok outcome =>
      cases outcome with
      | notHandled =>
        obtain ⟨hout, steps, hl, hu, hi, hm⟩ := ih (by simpa [applyCodecs, he] using h)
        simp only [codecOutput, codecInputs, he]
        exact ⟨hout, steps, hl, hu, hi, fun s hs => (hm s hs).cons c⟩
      | applied transformed =>
        cases hd : c.descriptor with
        | error e => simp [applyCodecs, he, hd] at h
        | ok d =>
          cases ha : applyCodecs codecs transformed with
          | error e => simp [applyCodecs, he, hd, ha] at h
          | ok result =>
            simp only [applyCodecs, he, hd, ha, Except.ok.injEq, Prod.mk.injEq] at h
            obtain ⟨rfl, rfl⟩ := h
            obtain ⟨hout, steps, hl, hu, hi, hm⟩ := ih ha
            simp only [codecOutput, codecInputs, he]
            refine ⟨hout, ⟨⟨d.id, d.encodeVersion⟩, bytes, transformed⟩ :: steps, ⟨rfl, hl⟩,
              by simp [hu], by simp [hi], ?_⟩
            refine List.forall_mem_cons.mpr ⟨⟨c, by simp, d, hd, rfl, he⟩, ?_⟩
            exact fun s hs => (hm s hs).cons c

section

variable [Sha256] {σ : Type} {r : PayloadPipeline σ} {codecs : List PayloadCodec}
  {s : Step CodecUse Bytes}

/-- What the reader makes of one step of the writer. -/
theorem decodeUse_eq (hm : MadeBy codecs s) (hc : ∀ c ∈ codecs, c ∈ r.codecs) :
    ∃ c ∈ codecs, ∃ d, c.descriptor = .ok d ∧ c.encode s.input = .ok (.applied s.output) ∧
      r.decodeUse s.record s.output = r.decodeWith c d.encodeVersion s.output := by
  obtain ⟨c, hmem, d, hd, hrec, he⟩ := hm
  have hf : r.codecs.find? (·.decodes s.record) = some c :=
    r.find_decodes (hc c hmem) ⟨d, hd, by rw [hrec], by rw [hrec]; exact d.readsOwn⟩
  rw [hrec] at hf
  exact ⟨c, hmem, d, hd, he, by simp only [PayloadPipeline.decodeUse, hrec, hf]⟩

theorem decodeUse_of_fits (hm : MadeBy codecs s) (hc : ∀ c ∈ codecs, c ∈ r.codecs)
    (hlawful : ∀ c ∈ codecs, c.Lawful)
    (hfit : s.input.length ≤ r.limits.decodedPayloadBytes.val) :
    r.decodeUse s.record s.output = .ok s.input := by
  obtain ⟨c, hmem, d, hd, he, heq⟩ := decodeUse_eq hm hc
  rw [heq, PayloadPipeline.decodeWith, hlawful c hmem d _ _ hd he _ hfit]
  simp [Nat.not_lt.mpr hfit]

theorem decodeUse_exact (hm : MadeBy codecs s) (hc : ∀ c ∈ codecs, c ∈ r.codecs)
    (hexact : ∀ c ∈ codecs, c.Exact) {z : Bytes} (hz : r.decodeUse s.record s.output = .ok z) :
    z = s.input ∧ s.input.length ≤ r.limits.decodedPayloadBytes.val := by
  obtain ⟨c, hmem, d, hd, he, heq⟩ := decodeUse_eq hm hc
  rw [heq, PayloadPipeline.decodeWith] at hz
  cases hdec : c.decode d.encodeVersion s.output r.limits.decodedPayloadBytes with
  | error e => simp [hdec] at hz
  | ok bytes =>
    obtain rfl := hexact c hmem d _ _ hd he _ _ hdec
    simp only [hdec] at hz
    split at hz
    · cases hz
    · next hle => exact ⟨(Except.ok.inj hz).symm, Nat.le_of_not_lt hle⟩

/-- The reader can undo the chain that codecs make of some bytes: it has room for the input of
every applied codec, and transformed bytes are not empty. -/
structure Fits (limit : Usize) (codecs : List PayloadCodec) (bytes : Bytes) : Prop where
  inputs : ∀ input ∈ codecInputs codecs bytes, input.length ≤ limit.val
  output : codecInputs codecs bytes ≠ [] → codecOutput codecs bytes ≠ []

variable {w : PayloadPipeline σ}

/-- The reference of a write passes the reader's check unless it stands for no bytes at all. -/
theorem validate_new {objectId : ObjectId} {out : Bytes} {used : List CodecUse}
    {reference : ExternalReference} (hbatch : out.length ≤ r.limits.batchBytes.val)
    (hfp : w.fingerprint ∈ r.acceptedFingerprints)
    (hn : ExternalReference.new w.defaultStorage objectId out used w.fingerprint = .ok reference) :
    reference.validate r.limits r.acceptedFingerprints =
      if out = [] ∧ used ≠ [] then .error .malformedReference else .ok () := by
  have hlen : out.length ≤ 18446744073709551615 := Nat.le_trans hbatch r.limits.batchBytes.le_cap
  simp only [ExternalReference.new, hlen, dite_true, Except.ok.injEq] at hn
  subst hn
  have hany : r.acceptedFingerprints.any (fun f => w.fingerprint.toHex = f.toHex) = true :=
    List.any_eq_true.mpr ⟨_, hfp, by simp⟩
  simp only [ExternalReference.validate, isSha256Text_hex, hany, Capped.lt_def, ne_eq,
    not_true_eq_false, false_or, List.length_eq_zero_iff, Bool.not_true, Bool.false_eq_true,
    if_false, Nat.not_lt.mpr hbatch]

theorem readStored_new {objectId : ObjectId} {out : Bytes} {used : List CodecUse}
    {reference : ExternalReference} {driver : StorageDriver σ} {later : σ}
    (hdriver : r.storages.lookup w.defaultStorage = some driver)
    (hread : ∀ maxBytes : Usize, out.length ≤ maxBytes.val →
      driver.read later (.v1For objectId) maxBytes = .ok out)
    (hn : ExternalReference.new w.defaultStorage objectId out used w.fingerprint = .ok reference) :
    r.readStored later reference = .ok out := by
  unfold ExternalReference.new at hn
  split at hn
  · next hlen =>
    obtain rfl := Except.ok.inj hn
    have hread := hread ⟨out.length, hlen⟩ (Nat.le_refl _)
    simp [PayloadPipeline.readStored, hdriver, hread, ExternalReference.matchesBytes]
  · cases hn

theorem new_codecs {objectId : ObjectId} {out : Bytes} {used : List CodecUse}
    {reference : ExternalReference}
    (hn : ExternalReference.new w.defaultStorage objectId out used w.fingerprint = .ok reference) :
    reference.codecs = used := by
  unfold ExternalReference.new at hn
  split at hn
  · rw [← Except.ok.inj hn]
  · cases hn

variable [PayloadJson]

theorem prepare_ok {p : Payload} {prepared : PreparedPayload} (h : w.prepare p = .ok prepared) :
    ∃ bytes, PayloadJson.toVec p = .ok bytes ∧
      bytes.length ≤ w.limits.decodedPayloadBytes.val ∧
      applyCodecs w.codecs bytes = .ok (prepared.bytes, prepared.codecs) ∧
      prepared.bytes.length ≤ w.limits.batchBytes.val ∧ prepared.decodedSize = bytes.length := by
  unfold PayloadPipeline.prepare at h
  cases hb : PayloadJson.toVec p with
  | error message => simp [hb] at h
  | ok bytes =>
    simp only [hb] at h
    by_cases hsize : w.limits.decodedPayloadBytes.val < bytes.length
    · simp [hsize] at h
    rw [if_neg hsize] at h
    cases ha : applyCodecs w.codecs bytes with
    | error e => simp [ha] at h
    | ok result =>
      obtain ⟨out, used⟩ := result
      simp only [ha] at h
      by_cases hbatch : w.limits.batchBytes.val < out.length
      · simp [hbatch] at h
      rw [if_neg hbatch] at h
      obtain rfl := Except.ok.inj h
      exact ⟨bytes, rfl, Nat.le_of_not_lt hsize, ha, Nat.le_of_not_lt hbatch, rfl⟩

/-- What an accepted write leaves in the storage and in the returned payload. -/
theorem storePrepared_ok {objectId : ObjectId} {world world' : σ} {prepared : PreparedPayload}
    {stored : Payload} (h : w.storePrepared objectId world prepared = (.ok stored, world')) :
    ∃ driver reference data, w.storages.lookup w.defaultStorage = some driver ∧
      driver.createImmutable world (.v1For objectId) prepared.bytes = (.ok (), world') ∧
      ExternalReference.new w.defaultStorage objectId prepared.bytes prepared.codecs w.fingerprint =
        .ok reference ∧
      PayloadJson.referenceToVec reference = .ok data ∧
      stored = (Payload.new data).withMetadata "encoding" (utf8 REFERENCE_MARKER) := by
  unfold PayloadPipeline.storePrepared at h
  cases hd : w.storages.lookup w.defaultStorage with
  | none => simp [hd] at h
  | some driver =>
    simp only [hd] at h
    cases hc : driver.createImmutable world (.v1For objectId) prepared.bytes with
    | mk created world₁ =>
      cases created with
      | error e => simp [hc] at h
      | ok =>
        simp only [hc] at h
        cases hn : ExternalReference.new w.defaultStorage objectId prepared.bytes prepared.codecs
            w.fingerprint with
        | error e => simp [hn] at h
        | ok reference =>
          simp only [hn] at h
          cases hr : PayloadJson.referenceToVec reference with
          | error message => simp [hr] at h
          | ok data =>
            simp only [hr, Prod.mk.injEq, Except.ok.injEq] at h
            obtain ⟨rfl, rfl⟩ := h
            exact ⟨driver, reference, data, rfl, hc, rfl, hr, rfl⟩

theorem encode_ok {objectId : ObjectId} {world world' : σ} {p stored : Payload}
    (h : w.encode objectId world p = (.ok stored, world')) :
    ∃ prepared, w.prepare p = .ok prepared ∧
      w.storePrepared objectId world prepared = (.ok stored, world') := by
  unfold PayloadPipeline.encode at h
  cases hp : w.prepare p with
  | error e => simp [hp] at h
  | ok prepared => exact ⟨prepared, rfl, by simpa [hp] using h⟩

theorem decode_stored (hjson : PayloadJson.Lawful) {reference : ExternalReference} {data : Bytes}
    (hdata : PayloadJson.referenceToVec reference = .ok data) (later : σ) :
    ((Payload.new data).withMetadata "encoding" (utf8 REFERENCE_MARKER)).isExternalReference =
        true ∧
      r.decode later ((Payload.new data).withMetadata "encoding" (utf8 REFERENCE_MARKER)) =
        r.resolve later reference := by
  have hmarked : ((Payload.new data).withMetadata "encoding" (utf8 REFERENCE_MARKER)
      ).isExternalReference = true := by
    simp [Payload.isExternalReference, Payload.withMetadata, Payload.new, insertMetadata]
  have hslice := hjson.reference _ _ hdata
  refine ⟨hmarked, ?_⟩
  simp only [PayloadPipeline.decode, Payload.withMetadata, Payload.new, hslice]
  rfl

/-- What a reader makes of a reference that it accepts and whose bytes it finds. -/
theorem resolve_eq {reference : ExternalReference} {later : σ} {out : Bytes} {p : Payload}
    (hv : reference.validate r.limits r.acceptedFingerprints = .ok ())
    (hs : r.readStored later reference = .ok out) :
    r.resolve later reference = .ok p ↔
      ∃ bytes, undo r.decodeUse reference.codecs out = .ok bytes ∧
        PayloadJson.fromSlice bytes = some p := by
  simp only [PayloadPipeline.resolve, hv, hs]
  cases undo r.decodeUse reference.codecs out with
  | error e => simp
  | ok bytes => cases hf : PayloadJson.fromSlice bytes <;> simp [hf]

theorem resolve_of_fits (hjson : PayloadJson.Lawful) {objectId : ObjectId} {later : σ} {p : Payload}
    {bytes out : Bytes} {used : List CodecUse} {reference : ExternalReference}
    (hfp : w.fingerprint ∈ r.acceptedFingerprints) (hcodecs : ∀ c ∈ w.codecs, c ∈ r.codecs)
    (hlawful : ∀ c ∈ w.codecs, c.Lawful) (hout : out.length ≤ r.limits.batchBytes.val)
    (hbytes : PayloadJson.toVec p = .ok bytes)
    (happly : applyCodecs w.codecs bytes = .ok (out, used))
    (hnew : ExternalReference.new w.defaultStorage objectId out used w.fingerprint = .ok reference)
    (hread : r.readStored later reference = .ok out)
    (hfits : Fits r.limits.decodedPayloadBytes w.codecs bytes) :
    r.resolve later reference = .ok p := by
  obtain ⟨rfl, steps, hlinked, hused, hinputs, hmade⟩ := applyCodecs_linked happly
  have hsteps : codecInputs w.codecs bytes ≠ [] ↔ used ≠ [] := by simp [hinputs, hused]
  have hvalid := validate_new (r := r) hout hfp hnew
  rw [if_neg fun hempty => hfits.output (hsteps.mpr hempty.2) hempty.1] at hvalid
  refine (resolve_eq hvalid hread).mpr ⟨bytes, ?_, hjson.payload _ _ hbytes⟩
  rw [new_codecs hnew, hused]
  refine hlinked.undo fun s hs => decodeUse_of_fits (hmade s hs) hcodecs hlawful ?_
  exact hfits.inputs _ (hinputs ▸ List.mem_map_of_mem hs)

/-- By codecs that never return other bytes than the original, stored bytes are read back as what
was written, and only if the reader has room for the whole chain. -/
theorem resolve_exact (hjson : PayloadJson.Lawful) {objectId : ObjectId} {later : σ}
    {p q : Payload} {bytes out : Bytes} {used : List CodecUse} {reference : ExternalReference}
    (hfp : w.fingerprint ∈ r.acceptedFingerprints) (hcodecs : ∀ c ∈ w.codecs, c ∈ r.codecs)
    (hexact : ∀ c ∈ w.codecs, c.Exact) (hout : out.length ≤ r.limits.batchBytes.val)
    (hbytes : PayloadJson.toVec p = .ok bytes)
    (happly : applyCodecs w.codecs bytes = .ok (out, used))
    (hnew : ExternalReference.new w.defaultStorage objectId out used w.fingerprint = .ok reference)
    (hread : r.readStored later reference = .ok out) (hr : r.resolve later reference = .ok q) :
    q = p ∧ Fits r.limits.decodedPayloadBytes w.codecs bytes := by
  obtain ⟨rfl, steps, hlinked, hused, hinputs, hmade⟩ :
      out = codecOutput w.codecs bytes ∧ _ := applyCodecs_linked happly
  have hsteps : codecInputs w.codecs bytes ≠ [] ↔ used ≠ [] := by
    have hused : used = steps.map (·.record) := hused
    simp [hinputs, hused]
  have hvalid := validate_new (r := r) hout hfp hnew
  have hnonempty : ¬ (codecOutput w.codecs bytes = [] ∧ used ≠ []) := by
    intro hempty
    rw [if_pos hempty] at hvalid
    simp [PayloadPipeline.resolve, hvalid] at hr
  rw [if_neg hnonempty] at hvalid
  obtain ⟨z, hundo, hslice⟩ := (resolve_eq hvalid hread).mp hr
  rw [new_codecs hnew, hused] at hundo
  obtain ⟨rfl, hback⟩ := hlinked.of_undo
    (fun s hs _ hz => (decodeUse_exact (hmade s hs) hcodecs hexact hz).1) hundo
  refine ⟨Option.some.inj (hslice.symm.trans (hjson.payload _ _ hbytes)), fun input hi => ?_,
    fun hne hnil => hnonempty ⟨hnil, hsteps.mp hne⟩⟩
  rw [hinputs] at hi
  obtain ⟨s, hs, rfl⟩ := List.mem_map.mp hi
  exact (decodeUse_exact (hmade s hs) hcodecs hexact (hback s hs)).2

/-- A stored payload is read back when its chain of codecs fits the reader; by codecs that never
return other bytes than the original, exactly then. -/
theorem stored_payload_readable_iff {objectId : ObjectId} {world world' later : σ}
    {p stored : Payload} {bytes : Bytes} (hjson : PayloadJson.Lawful)
    (hstorage : r.storages.lookup w.defaultStorage = w.storages.lookup w.defaultStorage)
    (hdriver : ∀ driver, w.storages.lookup w.defaultStorage = some driver → driver.Lawful ∧
      ∀ maxBytes, driver.read later (.v1For objectId) maxBytes =
        driver.read world' (.v1For objectId) maxBytes)
    (hfp : w.fingerprint ∈ r.acceptedFingerprints) (hcodecs : ∀ c ∈ w.codecs, c ∈ r.codecs)
    (hlawful : ∀ c ∈ w.codecs, c.Lawful) (hbatch : w.limits.batchBytes ≤ r.limits.batchBytes)
    (hbytes : PayloadJson.toVec p = .ok bytes)
    (henc : w.encode objectId world p = (.ok stored, world')) :
    stored.isExternalReference = true ∧
    (Fits r.limits.decodedPayloadBytes w.codecs bytes → r.decode later stored = .ok p) ∧
    ((∀ c ∈ w.codecs, c.Exact) →
      (r.decode later stored = .ok p ↔ Fits r.limits.decodedPayloadBytes w.codecs bytes)) := by
  obtain ⟨⟨out, used, size⟩, hprepare, hstore⟩ := encode_ok henc
  obtain ⟨bytes', htext, _, happly, hout, _⟩ := prepare_ok hprepare
  obtain ⟨driver, reference, data, hlookup, hcreate, hnew, hdata, rfl⟩ := storePrepared_ok hstore
  obtain rfl := Except.ok.inj (hbytes.symm.trans htext)
  obtain ⟨hlawfulDriver, hkept⟩ := hdriver driver hlookup
  obtain ⟨hmarked, hdecode⟩ := decode_stored (r := r) hjson hdata later
  have hout : out.length ≤ r.limits.batchBytes.val := Nat.le_trans hout hbatch
  have hread := readStored_new (hstorage.trans hlookup)
    (fun maxBytes hle => (hkept maxBytes).trans (hlawfulDriver _ _ _ _ hcreate maxBytes hle)) hnew
  rw [hdecode]
  have forward (hfits : Fits r.limits.decodedPayloadBytes w.codecs bytes) :
      r.resolve later reference = .ok p :=
    resolve_of_fits hjson hfp hcodecs hlawful hout hbytes happly hnew hread hfits
  refine ⟨hmarked, forward, fun hexact => ⟨fun hr => ?_, forward⟩⟩
  exact (resolve_exact hjson hfp hcodecs hexact hout hbytes happly hnew hread hr).2

end

namespace Sample

def descriptorOf (id : CodecId) : CodecDescriptor :=
  { id, encodeVersion := 1, decodeVersions := [1], ascending := by simp, readsOwn := by simp }

def double : PayloadCodec where
  descriptor := .ok (descriptorOf ⟨"double", by decide⟩)
  encode a := .ok (.applied (a ++ a))
  decode _ b limit :=
    let a := b.take (b.length / 2)
    if b = a ++ a ∧ a.length ≤ limit.val then .ok a else .error (.codec "not doubled")

/-- A codec that keeps one half of an input whose halves are equal. -/
def halve : PayloadCodec where
  descriptor := .ok (descriptorOf ⟨"halve", by decide⟩)
  encode a :=
    let h := a.take (a.length / 2)
    if a = h ++ h then .ok (.applied h) else .ok .notHandled
  decode _ b limit :=
    if (b ++ b).length ≤ limit.val then .ok (b ++ b)
    else .error (.sizeLimit "decoded payload")

theorem double_lawful : double.Lawful := by
  intro d a b _ he limit hle
  have hb : a ++ a = b := by simpa [double] using he
  have hhalf : b.take (b.length / 2) = a := by
    rw [← hb, List.length_append, ← Nat.two_mul, Nat.mul_div_cancel_left _ (by omega)]
    simp
  simp only [double, hhalf]
  rw [if_pos ⟨hb.symm, hle⟩]

theorem halve_lawful : halve.Lawful := by
  intro d a b _ he limit hle
  simp only [halve] at he
  split at he
  · next ha =>
    obtain rfl : a.take (a.length / 2) = b := by simpa using he
    simp only [halve]
    rw [← ha, if_pos hle]
  · cases he

def payload : Payload := .new [7]

def payloadText : Bytes := utf8 "\x7b\"data\":[7],\"metadata\":\x7b\x7d\x7d"

def objectId : ObjectId := ⟨#v[1, 2, 3, 4, 5, 6, 71, 8, 137, 10, 11, 12, 13, 14, 15, 16]⟩

def localStorage : StorageId := ⟨"local", by decide⟩

def fingerprint : PipelineFingerprint :=
  ⟨#v[225, 165, 173, 120, 103, 185, 222, 233, 209, 197, 14, 59, 139, 49, 243, 34, 199, 219,
      193, 240, 167, 224, 12, 143, 77, 249, 24, 10, 110, 44, 120, 45]⟩

def payloadDigest : Vector UInt8 32 :=
  #v[99, 19, 93, 116, 78, 249, 2, 1, 61, 247, 157, 174, 188, 197, 196, 52, 159, 250, 15,
      106, 187, 177, 117, 38, 118, 236, 99, 130, 211, 98, 230, 91]

@[reducible] def sha256 : Sha256 where
  digest bytes :=
    if fingerprintPreimage localStorage [double, halve] = .ok bytes then fingerprint.bytes
    else if bytes = payloadText then payloadDigest
    else Vector.replicate 32 0

def reference : ExternalReference :=
  { version := 1, storageId := localStorage, objectId, encodedSize := 26
    sha256 := "63135d744ef902013df79daebcc5c4349ffa0f6abbb1752676ec6382d362e65b"
    codecs := [⟨⟨"double", by decide⟩, 1⟩, ⟨⟨"halve", by decide⟩, 1⟩]
    pipelineFingerprint := "e1a5ad7867b9dee9d1c50e3b8b31f322c7dbc1f0a7e00c8f4df9180a6e2c782d" }

def referenceText : Bytes :=
  utf8 ("\x7b\"version\":1,\"storage_id\":\"local\",\"object_id\":" ++
    "\"0102030405064708890a0b0c0d0e0f10\",\"encoded_size\":26,\"sha256\":" ++
    "\"63135d744ef902013df79daebcc5c4349ffa0f6abbb1752676ec6382d362e65b\"," ++
    "\"codecs\":[\x7b\"id\":\"double\",\"version\":1\x7d,\x7b\"id\":\"halve\"," ++
    "\"version\":1\x7d],\"pipeline_fingerprint\":" ++
    "\"e1a5ad7867b9dee9d1c50e3b8b31f322c7dbc1f0a7e00c8f4df9180a6e2c782d\"\x7d")

/-- The JSON texts of one payload and of one reference. -/
@[reducible] def payloadJson (text : Bytes) : PayloadJson where
  toVec p := if p = payload then .ok payloadText else .error "unsupported"
  fromSlice bytes := if bytes = payloadText then some payload else none
  referenceToVec r := if r = reference then .ok text else .error "unsupported"
  referenceFromSlice bytes := if bytes = text then some reference else none

theorem payloadJson_lawful (text : Bytes) : @PayloadJson.Lawful (payloadJson text) := by
  refine @PayloadJson.Lawful.mk (payloadJson text) ?_ ?_
  · intro p bytes h
    simp only [PayloadJson.toVec] at h
    split at h
    · next hp => simp [PayloadJson.fromSlice, hp, ← Except.ok.inj h]
    · cases h
  · intro r bytes h
    simp only [PayloadJson.referenceToVec] at h
    split at h
    · next hr => simp [PayloadJson.referenceFromSlice, hr, ← Except.ok.inj h]
    · cases h

theorem limit_pos : 0 < (26 : Usize).val := by decide

def limits (decodedPayloadBytes : Usize) (h : 0 < decodedPayloadBytes.val) : PayloadLimits :=
  { decodedPayloadBytes, batchBytes := 26, decoded_pos := h, batch_pos := limit_pos }

theorem localStorage_registered :
    ([(localStorage, inMemoryStorage)].lookup localStorage).isSome = true := by decide

/-- A pipeline that doubles and then halves. -/
def pipeline (limits : PayloadLimits) : @PayloadPipeline sha256 (List (ObjectKey × Bytes)) :=
  let _ := sha256
  { storages := [(localStorage, inMemoryStorage)], defaultStorage := localStorage
    codecs := [double, halve], limits, fingerprint, acceptedFingerprints := [fingerprint]
    registered := localStorage_registered
    owned := ⟨_, rfl⟩, calculated := by decide +kernel, accepted := by decide }

def stored (text : Bytes) : Payload :=
  (Payload.new text).withMetadata "encoding" (utf8 REFERENCE_MARKER)

theorem pipeline_prepare (text : Bytes) :
    @PayloadPipeline.prepare sha256 (payloadJson text) _ (pipeline (limits 26 (by decide)))
      payload = .ok { bytes := payloadText, codecs := reference.codecs, decodedSize := 26 } := by
  have hvec : @PayloadJson.toVec (payloadJson text) payload = .ok payloadText := if_pos rfl
  have happly : applyCodecs [double, halve] payloadText =
      .ok (payloadText, reference.codecs) := by decide +kernel
  have hlen : payloadText.length = 26 := by decide
  have hlimit : (26 : Usize).val = 26 := rfl
  simp [PayloadPipeline.prepare, hvec, happly, hlen, pipeline, limits, hlimit]

theorem reference_new :
    @ExternalReference.new sha256 localStorage objectId payloadText reference.codecs fingerprint =
      .ok reference := by
  decide +kernel

theorem pipeline_encode (text : Bytes) :
    @PayloadPipeline.encode sha256 (payloadJson text) _ (pipeline (limits 26 (by decide)))
      objectId [] payload = (.ok (stored text), [(.v1For objectId, payloadText)]) := by
  let _ := sha256
  have hlookup : (pipeline (limits 26 (by decide))).storages.lookup localStorage =
      some inMemoryStorage := by simp [pipeline]
  have hcreate : inMemoryStorage.createImmutable [] (.v1For objectId) payloadText =
      (.ok (), [(.v1For objectId, payloadText)]) := rfl
  have hnew : ExternalReference.new localStorage objectId payloadText reference.codecs
      (pipeline (limits 26 (by decide))).fingerprint = .ok reference := reference_new
  have hstorage : (pipeline (limits 26 (by decide))).defaultStorage = localStorage := rfl
  simp only [PayloadPipeline.encode, pipeline_prepare, PayloadPipeline.storePrepared, hstorage,
    hlookup, hcreate, hnew, PayloadJson.referenceToVec, if_true, stored]

theorem pipeline_decode (text : Bytes) (l : PayloadLimits) (world : List (ObjectKey × Bytes)) :
    @PayloadPipeline.decode sha256 (payloadJson text) _ (pipeline l) world (stored text) =
      @PayloadPipeline.resolve sha256 (payloadJson text) _ (pipeline l) world reference := by
  have hmarked : (stored text).isExternalReference = true := by
    simp [stored, Payload.isExternalReference, Payload.withMetadata, Payload.new, insertMetadata]
  have hdata : (stored text).data = text := rfl
  simp only [PayloadPipeline.decode, hmarked, Bool.not_true, Bool.false_eq_true, if_false, hdata,
    PayloadJson.referenceFromSlice, if_true]

theorem pipeline_resolve (text : Bytes) :
    @PayloadPipeline.resolve sha256 (payloadJson text) _ (pipeline (limits 26 (by decide)))
      [(.v1For objectId, payloadText)] reference = .error (.sizeLimit "decoded payload") := by
  let _ := sha256
  have hvalid : reference.validate (limits 26 (by decide)) [fingerprint] = .ok () := by
    decide +kernel
  have hread : (pipeline (limits 26 (by decide))).readStored
      [(.v1For objectId, payloadText)] reference = .ok payloadText := by decide +kernel
  have hundo : StageChain.undo (pipeline (limits 26 (by decide))).decodeUse reference.codecs
      payloadText = .error (.sizeLimit "decoded payload") := by decide +kernel
  have hlimits : (pipeline (limits 26 (by decide))).limits = limits 26 (by decide) := rfl
  have haccepted : (pipeline (limits 26 (by decide))).acceptedFingerprints = [fingerprint] := rfl
  simp only [PayloadPipeline.resolve, hlimits, haccepted, hvalid, hread, hundo]

end Sample

section

open Sample

theorem stored_payload_readable_sample :
    let _ := sha256
    let _ := payloadJson referenceText
    (pipeline (limits 52 (by decide))).decode [(.v1For objectId, payloadText)]
      (stored referenceText) = .ok payload := by
  let _ := sha256
  let _ := payloadJson referenceText
  refine (stored_payload_readable_iff (w := pipeline (limits 26 (by decide)))
    (r := pipeline (limits 52 (by decide))) (payloadJson_lawful referenceText) rfl ?_
    (by decide) (fun _ hc => hc) ?_ (by decide) (if_pos rfl) (pipeline_encode referenceText)).2.1 ?_
  · intro driver hd
    obtain rfl : inMemoryStorage = driver := by simpa [pipeline] using hd
    exact ⟨inMemoryStorage_lawful, fun _ => rfl⟩
  · intro c hc
    obtain rfl | rfl : c = double ∨ c = halve := by simpa [pipeline] using hc
    · exact double_lawful
    · exact halve_lawful
  · exact ⟨by decide +kernel, by decide +kernel⟩

/-- A codec that enlarges its input before one that shrinks it: the writer accepts the payload,
and the same pipeline refuses to read it. -/
theorem stored_payload_unreadable :
    ¬ ∀ (_ : Sha256) (_ : PayloadJson) (σ : Type) (w r : PayloadPipeline σ) (objectId : ObjectId)
      (world world' : σ) (p stored : Payload), PayloadJson.Lawful →
      r.storages.lookup w.defaultStorage = w.storages.lookup w.defaultStorage →
      (∀ driver, w.storages.lookup w.defaultStorage = some driver → driver.Lawful) →
      w.fingerprint ∈ r.acceptedFingerprints → (∀ c ∈ w.codecs, c ∈ r.codecs) →
      (∀ c ∈ w.codecs, c.Lawful) →
      w.limits.decodedPayloadBytes ≤ r.limits.decodedPayloadBytes →
      w.limits.batchBytes ≤ r.limits.batchBytes → p.claimsExternalReference = false →
      w.encode objectId world p = (.ok stored, world') → r.decode world' stored = .ok p := by
  intro claim
  let _ := sha256
  let _ := payloadJson referenceText
  have hread := claim sha256 (payloadJson referenceText) _ (pipeline (limits 26 (by decide)))
    (pipeline (limits 26 (by decide))) objectId [] _ payload _ (payloadJson_lawful referenceText)
    rfl ?_ (by decide) (fun _ hc => hc) ?_ (by decide) (by decide) (by decide)
    (pipeline_encode referenceText)
  · rw [pipeline_decode, pipeline_resolve] at hread
    cases hread
  · intro driver hd
    obtain rfl : inMemoryStorage = driver := by simpa [pipeline] using hd
    exact inMemoryStorage_lawful
  · intro c hc
    obtain rfl | rfl : c = double ∨ c = halve := by simpa [pipeline] using hc
    · exact double_lawful
    · exact halve_lawful

end

end Agentive
