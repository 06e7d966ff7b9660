import Agentive.BatchRoundTrip

/-! What a batch read takes in. Nothing is read before the declared sizes are admitted, a read asks
for no more than has been declared, and what a codec returns is checked before the next. -/

namespace Agentive

/-- A read of a storage, with what came of it. -/
structure StorageRead where
  storage : StorageId
  key : ObjectKey
  maxBytes : Usize
  result : Except PayloadError Bytes

/-- The bytes that a read has fetched. -/
def StorageRead.fetched (r : StorageRead) : Nat :=
  match r.result with
  | .ok bytes => bytes.length
  | .error _ => 0

/-- A driver returns at most what it is asked for. -/
def StorageDriver.Bounded {σ : Type} (driver : StorageDriver σ) : Prop :=
  ∀ w key maxBytes bytes, driver.read w key maxBytes = .ok bytes → bytes.length ≤ maxBytes.val

theorem inMemoryStorage_bounded : inMemoryStorage.Bounded := by
  intro w key maxBytes bytes h
  cases hl : w.lookup key with
  | none => simp [inMemoryStorage, hl] at h
  | some stored =>
    by_cases hlt : maxBytes.val < stored.length
    · simp [inMemoryStorage, hl, hlt] at h
    · have heq : stored = bytes := by simpa [inMemoryStorage, hl, hlt] using h
      rw [← heq]
      exact Nat.not_lt.mp hlt

/-- What one payload has read, and what its codecs have been given, in order. -/
structure DecodeTrace where
  reads : List StorageRead
  inputs : List Bytes

def DecodeTrace.fetched (trace : DecodeTrace) : Nat := (trace.reads.map StorageRead.fetched).sum

namespace PayloadPipeline

variable [Sha256] {σ : Type} (p : PayloadPipeline σ)

/-- The reader's loop over the recorded codecs, the last one first, with what each is given. -/
def undoTraced : List CodecUse → Bytes → Except PayloadError Bytes × List Bytes
  | [], bytes => (.ok bytes, [])
  | used :: rest, bytes =>
    match p.codecs.find? (·.decodes used) with
    | none => (.error .unknownCodec, [])
    | some codec =>
      match p.decodeWith codec used.version bytes with
      | .error e => (.error e, [bytes])
      | .ok out => ((undoTraced rest out).1, bytes :: (undoTraced rest out).2)

def readTraced (w : σ) (reference : ExternalReference) :
    Except PayloadError Bytes × List StorageRead :=
  match p.storages.lookup reference.storageId with
  | none => (.error .unknownStorage, [])
  | some driver =>
    let result := driver.read w (.v1For reference.objectId) reference.encodedSize
    let read : StorageRead :=
      { storage := reference.storageId, key := .v1For reference.objectId
        maxBytes := reference.encodedSize, result }
    match result with
    | .error e => (.error e, [read])
    | .ok bytes =>
      if bytes.length ≠ reference.encodedSize.val ∨ !reference.matchesBytes bytes then
        (.error .integrityMismatch, [read])
      else (.ok bytes, [read])

section

variable [PayloadJson]

def resolveTraced (w : σ) (reference : ExternalReference) :
    Except PayloadError Payload × DecodeTrace :=
  match reference.validate p.limits p.acceptedFingerprints with
  | .error e => (.error e, ⟨[], []⟩)
  | .ok () =>
    match p.readTraced w reference with
    | (.error e, reads) => (.error e, ⟨reads, []⟩)
    | (.ok bytes, reads) =>
      match p.undoTraced reference.codecs.reverse bytes with
      | (.error e, inputs) => (.error e, ⟨reads, inputs⟩)
      | (.ok bytes, inputs) =>
        match PayloadJson.fromSlice bytes with
        | none => (.error .malformedReference, ⟨reads, inputs⟩)
        | some payload => (.ok payload, ⟨reads, inputs⟩)

def decodeTraced (w : σ) (payload : Payload) : Except PayloadError Payload × DecodeTrace :=
  if !payload.isExternalReference then
    if payload.claimsExternalReference then (.error .malformedReference, ⟨[], []⟩)
    else (.ok payload, ⟨[], []⟩)
  else match PayloadJson.referenceFromSlice payload.data with
    | none => (.error .malformedReference, ⟨[], []⟩)
    | some reference => p.resolveTraced w reference

/-- The traces are those of the payloads that the loop has come to. -/
def decodeAllTraced (w : σ) :
    List Payload → Usize → Except PayloadError (List Payload) × List DecodeTrace
  | [], _ => (.ok [], [])
  | payload :: payloads, decodedTotal =>
    match p.decodeTraced w payload with
    | (.error e, trace) => (.error e, [trace])
    | (.ok decoded, trace) =>
      match PayloadJson.toVec decoded with
      | .error message => (.error (.json message), [trace])
      | .ok bytes =>
        match p.limits.batchBytes.addWithin decodedTotal bytes.length with
        | none => (.error (.sizeLimit "batch"), [trace])
        | some decodedTotal =>
          match decodeAllTraced w payloads decodedTotal with
          | (.error e, traces) => (.error e, trace :: traces)
          | (.ok rest, traces) => (.ok (decoded :: rest), trace :: traces)

def decodeBatchTraced (w : σ) (payloads : List Payload) :
    Except PayloadError (List Payload) × List DecodeTrace :=
  match p.admitBatch payloads 0 with
  | .error e => (.error e, [])
  | .ok () => p.decodeAllTraced w payloads 0

end

variable {p}

theorem undoTraced_fst (records : List CodecUse) (bytes : Bytes) :
    (p.undoTraced records bytes).1 = records.foldlM (fun b k => p.decodeUse k b) bytes := by
  induction records generalizing bytes with
  | nil => rfl
  | cons used rest ih =>
    rw [undoTraced, List.foldlM_cons, decodeUse]
    cases hc : p.codecs.find? (·.decodes used) with
    | none => rfl
    | some codec =>
      simp only
      cases hd : p.decodeWith codec used.version bytes with
      | error e => rfl
      | ok out => exact ih out

theorem decodeWith_length_le {codec : PayloadCodec} {version : CodecVersion} {bytes out : Bytes}
    (h : p.decodeWith codec version bytes = .ok out) :
    out.length ≤ p.limits.decodedPayloadBytes.val := by
  rw [decodeWith] at h
  cases hd : codec.decode version bytes p.limits.decodedPayloadBytes with
  | error e => simp [hd] at h
  | ok decoded =>
    simp only [hd] at h
    by_cases hlt : p.limits.decodedPayloadBytes.val < decoded.length
    · rw [if_pos hlt] at h
      cases h
    · rw [if_neg hlt] at h
      obtain rfl := Except.ok.inj h
      exact Nat.not_lt.mp hlt

theorem readTraced_fst (w : σ) (reference : ExternalReference) :
    (p.readTraced w reference).1 = p.readStored w reference := by
  rw [readTraced, readStored]
  cases p.storages.lookup reference.storageId with
  | none => rfl
  | some driver =>
    simp only
    cases driver.read w (.v1For reference.objectId) reference.encodedSize with
    | error e => rfl
    | ok bytes =>
      simp only
      by_cases hbad : bytes.length ≠ reference.encodedSize.val ∨
          (!reference.matchesBytes bytes) = true
      · rw [if_pos hbad, if_pos hbad]
      · rw [if_neg hbad, if_neg hbad]

theorem undoTraced_inputs (records : List CodecUse) (bytes : Bytes) :
    (∀ input ∈ (p.undoTraced records bytes).2.tail,
      input.length ≤ p.limits.decodedPayloadBytes.val) ∧
    ((p.undoTraced records bytes).2 = [] ∨ (p.undoTraced records bytes).2.head? = some bytes) := by
  induction records generalizing bytes with
  | nil => simp [undoTraced]
  | cons used rest ih =>
    rw [undoTraced]
    cases hc : p.codecs.find? (·.decodes used) with
    | none => simp
    | some codec =>
      simp only
      cases hd : p.decodeWith codec used.version bytes with
      | error e => simp
      | ok out =>
        obtain ⟨htail, hhead⟩ := ih out
        refine ⟨?_, .inr rfl⟩
        simp only [List.tail_cons]
        intro input hinput
        rcases hhead with hnil | hhead
        · rw [hnil] at hinput
          cases hinput
        · rw [List.head?_eq_some_iff] at hhead
          obtain ⟨rest', hrest⟩ := hhead
          rw [hrest, List.tail_cons] at htail
          rw [hrest] at hinput
          rcases List.mem_cons.mp hinput with rfl | hinput
          · exact decodeWith_length_le hd
          · exact htail input hinput

/-- The storages' drivers keep to what they are asked for. -/
def DriversBounded (p : PayloadPipeline σ) : Prop :=
  ∀ id driver, p.storages.lookup id = some driver → driver.Bounded

theorem readTraced_fetched (hdrivers : p.DriversBounded) (w : σ) (reference : ExternalReference) :
    ((p.readTraced w reference).2.map StorageRead.fetched).sum ≤ reference.encodedSize.val := by
  rw [readTraced]
  cases hl : p.storages.lookup reference.storageId with
  | none => simp
  | some driver =>
    simp only
    cases hr : driver.read w (.v1For reference.objectId) reference.encodedSize with
    | error e => simp [StorageRead.fetched]
    | ok bytes =>
      have hle : bytes.length ≤ reference.encodedSize.val := hdrivers _ _ hl _ _ _ _ hr
      simp only
      by_cases hbad : bytes.length ≠ reference.encodedSize.val ∨
          (!reference.matchesBytes bytes) = true
      · rw [if_pos hbad]
        simpa [StorageRead.fetched] using hle
      · rw [if_neg hbad]
        simpa [StorageRead.fetched] using hle

section

variable [PayloadJson]

theorem resolveTraced_fst (w : σ) (reference : ExternalReference) :
    (p.resolveTraced w reference).1 = p.resolve w reference := by
  rw [resolveTraced, resolve, ← readTraced_fst]
  cases reference.validate p.limits p.acceptedFingerprints with
  | error e => rfl
  | ok _ =>
    simp only
    cases p.readTraced w reference with
    | mk result reads =>
      cases result with
      | error e => rfl
      | ok bytes =>
        have hundo := undoTraced_fst (p := p) reference.codecs.reverse bytes
        cases hu : p.undoTraced reference.codecs.reverse bytes with
        | mk result inputs =>
          rw [hu] at hundo
          simp only [StageChain.undo, ← hundo, hu]
          cases result with
          | error e => rfl
          | ok out =>
            simp only
            cases PayloadJson.fromSlice out with
            | none => rfl
            | some payload => rfl

theorem decodeTraced_fst (w : σ) (payload : Payload) :
    (p.decodeTraced w payload).1 = p.decode w payload := by
  rw [decodeTraced, decode]
  by_cases hexternal : (!payload.isExternalReference) = true
  · rw [if_pos hexternal, if_pos hexternal]
    by_cases hclaims : payload.claimsExternalReference = true
    · rw [if_pos hclaims, if_pos hclaims]
    · rw [if_neg hclaims, if_neg hclaims]
  · rw [if_neg hexternal, if_neg hexternal]
    cases PayloadJson.referenceFromSlice payload.data with
    | none => rfl
    | some reference => exact resolveTraced_fst w reference

theorem decodeAllTraced_fst (w : σ) (payloads : List Payload) (decodedTotal : Usize) :
    (p.decodeAllTraced w payloads decodedTotal).1 = p.decodeAll w payloads decodedTotal := by
  induction payloads generalizing decodedTotal with
  | nil => rfl
  | cons payload payloads ih =>
    rw [decodeAllTraced, decodeAll, ← decodeTraced_fst]
    cases p.decodeTraced w payload with
    | mk result trace =>
      cases result with
      | error e => rfl
      | ok decoded =>
        simp only
        cases PayloadJson.toVec decoded with
        | error message => rfl
        | ok bytes =>
          simp only
          cases p.limits.batchBytes.addWithin decodedTotal bytes.length with
          | none => rfl
          | some total =>
            simp only [← ih total]
            cases p.decodeAllTraced w payloads total with
            | mk result traces =>
              cases result with
              | error e => rfl
              | ok rest => rfl

theorem decodeBatchTraced_fst (w : σ) (payloads : List Payload) :
    (p.decodeBatchTraced w payloads).1 = p.decodeBatch w payloads := by
  rw [decodeBatchTraced, decodeBatch]
  cases p.admitBatch payloads 0 with
  | error e => rfl
  | ok _ => exact decodeAllTraced_fst w payloads 0

/-- The trace of a reference has the read of it, if that was made, and the inputs of its codecs. -/
theorem resolveTraced_snd (w : σ) (reference : ExternalReference) :
    ((p.resolveTraced w reference).2.reads = [] ∨
      (p.resolveTraced w reference).2.reads = (p.readTraced w reference).2) ∧
    ((p.resolveTraced w reference).2.inputs = [] ∨ ∃ bytes,
      (p.resolveTraced w reference).2.inputs =
        (p.undoTraced reference.codecs.reverse bytes).2) := by
  rw [resolveTraced]
  cases reference.validate p.limits p.acceptedFingerprints with
  | error e => exact ⟨.inl rfl, .inl rfl⟩
  | ok _ =>
    simp only
    cases p.readTraced w reference with
    | mk result reads =>
      cases result with
      | error e => exact ⟨.inr rfl, .inl rfl⟩
      | ok bytes =>
        simp only
        cases hu : p.undoTraced reference.codecs.reverse bytes with
        | mk result inputs =>
          have hinputs : inputs = (p.undoTraced reference.codecs.reverse bytes).2 := by rw [hu]
          cases result with
          | error e => exact ⟨.inr rfl, .inr ⟨bytes, hinputs⟩⟩
          | ok out =>
            simp only
            cases PayloadJson.fromSlice out with
            | none => exact ⟨.inr rfl, .inr ⟨bytes, hinputs⟩⟩
            | some payload => exact ⟨.inr rfl, .inr ⟨bytes, hinputs⟩⟩

theorem decodeTraced_snd (w : σ) (payload : Payload) :
    ((p.decodeTraced w payload).2.reads = [] ∧ (p.decodeTraced w payload).2.inputs = []) ∨
      ∃ reference, payload.isExternalReference = true ∧
        PayloadJson.referenceFromSlice payload.data = some reference ∧
        (p.decodeTraced w payload).2 = (p.resolveTraced w reference).2 := by
  rw [decodeTraced]
  by_cases hexternal : payload.isExternalReference = true
  · rw [if_neg (by simp [hexternal])]
    cases hr : PayloadJson.referenceFromSlice payload.data with
    | none => exact .inl ⟨rfl, rfl⟩
    | some reference => exact .inr ⟨reference, hexternal, rfl, rfl⟩
  · rw [if_pos (by simp [hexternal])]
    by_cases hclaims : payload.claimsExternalReference = true
    · rw [if_pos hclaims]
      exact .inl ⟨rfl, rfl⟩
    · rw [if_neg hclaims]
      exact .inl ⟨rfl, rfl⟩

theorem decodeTraced_fetched (hdrivers : p.DriversBounded) (w : σ) {payload : Payload} {size : Nat}
    (hsize : declaredSize payload = .ok size) : (p.decodeTraced w payload).2.fetched ≤ size := by
  rcases p.decodeTraced_snd w payload with ⟨hreads, -⟩ | ⟨reference, hexternal, hr, heq⟩
  · simp [DecodeTrace.fetched, hreads]
  · have hdeclared : reference.encodedSize.val = size := by
      simpa [declaredSize, hexternal, hr] using hsize
    rw [heq, DecodeTrace.fetched, ← hdeclared]
    rcases (p.resolveTraced_snd w reference).1 with hnil | hreads
    · simp [hnil]
    · rw [hreads]
      exact readTraced_fetched hdrivers w reference

theorem decodeTraced_inputs (w : σ) (payload : Payload) :
    ∀ input ∈ (p.decodeTraced w payload).2.inputs.tail,
      input.length ≤ p.limits.decodedPayloadBytes.val := by
  rcases p.decodeTraced_snd w payload with ⟨-, hinputs⟩ | ⟨reference, -, -, heq⟩
  · simp [hinputs]
  · rw [heq]
    rcases (p.resolveTraced_snd w reference).2 with hnil | ⟨bytes, hinputs⟩
    · simp [hnil]
    · rw [hinputs]
      exact (undoTraced_inputs _ bytes).1

theorem decodeAllTraced_snd (w : σ) (payloads : List Payload) (decodedTotal : Usize) :
    ∃ n, (p.decodeAllTraced w payloads decodedTotal).2 =
      (payloads.take n).map fun payload => (p.decodeTraced w payload).2 := by
  induction payloads generalizing decodedTotal with
  | nil => exact ⟨0, rfl⟩
  | cons payload payloads ih =>
    rw [decodeAllTraced]
    cases hd : p.decodeTraced w payload with
    | mk result trace =>
      have hone : [trace] =
          ((payload :: payloads).take 1).map fun payload => (p.decodeTraced w payload).2 := by
        simp [hd]
      cases result with
      | error e => exact ⟨1, hone⟩
      | ok decoded =>
        simp only
        cases PayloadJson.toVec decoded with
        | error message => exact ⟨1, hone⟩
        | ok bytes =>
          simp only
          cases p.limits.batchBytes.addWithin decodedTotal bytes.length with
          | none => exact ⟨1, hone⟩
          | some total =>
            obtain ⟨n, hn⟩ := ih total
            have hmore : trace :: (p.decodeAllTraced w payloads total).2 =
                ((payload :: payloads).take (n + 1)).map
                  fun payload => (p.decodeTraced w payload).2 := by
              simp [hd, hn]
            refine ⟨n + 1, hmore ▸ ?_⟩
            simp only
            cases p.decodeAllTraced w payloads total with
            | mk result traces =>
              cases result with
              | error e => rfl
              | ok rest => rfl

theorem admitBatch_cons {payload : Payload} (payloads : List Payload) {total total' : Usize}
    {size : Nat} (hsize : declaredSize payload = .ok size)
    (hroom : p.limits.batchBytes.addWithin total size = some total') :
    p.admitBatch (payload :: payloads) total = p.admitBatch payloads total' := by
  rw [admitBatch, hsize]
  simp only [hroom]

theorem decodeBatchTraced_of_first {w : σ} {payload : Payload} {payloads : List Payload}
    {e : PayloadError} {trace : DecodeTrace}
    (hsizes : p.admitBatch (payload :: payloads) 0 = .ok ())
    (hfirst : p.decodeTraced w payload = (.error e, trace)) :
    (p.decodeBatchTraced w (payload :: payloads)).2 = [trace] := by
  rw [decodeBatchTraced, hsizes]
  simp only [decodeAllTraced, hfirst]

theorem admitBatch_sizes {payloads : List Payload} {total : Usize}
    (h : p.admitBatch payloads total = .ok ()) :
    ∃ sizes, List.Forall₂ (fun payload size => declaredSize payload = .ok size) payloads sizes ∧
      p.Admits total sizes := by
  induction payloads generalizing total with
  | nil => exact ⟨[], .nil, rfl⟩
  | cons payload payloads ih =>
    rw [admitBatch] at h
    cases hsize : declaredSize payload with
    | error e => simp [hsize] at h
    | ok size =>
      simp only [hsize] at h
      cases ha : p.limits.batchBytes.addWithin total size with
      | none => simp [ha] at h
      | some total' =>
        simp only [ha] at h
        obtain ⟨sizes, hsizes, hadmits⟩ := ih h
        exact ⟨size :: sizes, .cons hsize hsizes, admits_cons.mpr ⟨total', ha, hadmits⟩⟩

theorem decodeAll_texts {w : σ} {payloads decoded : List Payload} {total : Usize}
    (h : p.decodeAll w payloads total = .ok decoded) :
    ∃ texts, List.Forall₂ (fun payload text => PayloadJson.toVec payload = .ok text) decoded texts ∧
      p.Admits total (texts.map List.length) := by
  induction payloads generalizing decoded total with
  | nil =>
    obtain rfl := Except.ok.inj h
    exact ⟨[], .nil, rfl⟩
  | cons payload payloads ih =>
    rw [decodeAll] at h
    cases hd : p.decode w payload with
    | error e => simp [hd] at h
    | ok first =>
      simp only [hd] at h
      cases ht : PayloadJson.toVec first with
      | error message => simp [ht] at h
      | ok text =>
        simp only [ht] at h
        cases ha : p.limits.batchBytes.addWithin total text.length with
        | none => simp [ha] at h
        | some total' =>
          simp only [ha] at h
          cases hr : p.decodeAll w payloads total' with
          | error e => simp [hr] at h
          | ok rest =>
            simp only [hr] at h
            obtain rfl := Except.ok.inj h
            obtain ⟨texts, htexts, hadmits⟩ := ih hr
            exact ⟨text :: texts, .cons ht htexts, admits_cons.mpr ⟨total', ha, hadmits⟩⟩

omit [PayloadJson] in
theorem Admits.sum_le {total : Usize} {sizes : List Nat} (h : p.Admits total sizes)
    (hlimit : p.limits.batchBytes < .top) (htotal : total.val ≤ p.limits.batchBytes.val) :
    total.val + sizes.sum ≤ p.limits.batchBytes.val := by
  induction sizes generalizing total with
  | nil => simpa using htotal
  | cons size sizes ih =>
    obtain ⟨total', ha, hrest⟩ := admits_cons.mp h
    obtain ⟨hval, hle⟩ := Capped.val_of_addWithin hlimit ha
    have hsum := ih hrest hle
    rw [List.sum_cons]
    omega

/-- The bytes that a payload says it stands for. -/
def declaredBytes (payload : Payload) : Nat :=
  match declaredSize payload with
  | .ok size => size
  | .error _ => 0

omit [Sha256] in
theorem declaredBytes_of_declaredSize {payload : Payload} {size : Nat}
    (h : declaredSize payload = .ok size) : declaredBytes payload = size := by
  rw [declaredBytes, h]

omit [Sha256] in
theorem declaredBytes_eq {payloads : List Payload} {sizes : List Nat}
    (h : List.Forall₂ (fun payload size => declaredSize payload = .ok size) payloads sizes) :
    payloads.map declaredBytes = sizes := by
  induction h with
  | nil => rfl
  | cons hsize _ ih => rw [List.map_cons, ih, declaredBytes_of_declaredSize hsize]

omit [Sha256] in
theorem exists_declaredSize {payloads : List Payload} {sizes : List Nat}
    (h : List.Forall₂ (fun payload size => declaredSize payload = .ok size) payloads sizes) :
    ∀ payload ∈ payloads, ∃ size, declaredSize payload = .ok size := by
  induction h with
  | nil => nofun
  | cons hsize _ ih => exact List.forall_mem_cons.mpr ⟨⟨_, hsize⟩, ih⟩

/-- The bytes that a batch read has fetched from all storages. -/
def fetchedBytes (traces : List DecodeTrace) : Nat := (traces.map DecodeTrace.fetched).sum

theorem fetchedBytes_le (hdrivers : p.DriversBounded) (w : σ) {payloads : List Payload}
    {sizes : List Nat}
    (h : List.Forall₂ (fun payload size => declaredSize payload = .ok size) payloads sizes)
    (n : Nat) :
    fetchedBytes ((payloads.take n).map fun payload => (p.decodeTraced w payload).2) ≤
      sizes.sum := by
  induction h generalizing n with
  | nil => simp [fetchedBytes]
  | @cons payload size payloads sizes hsize _ ih =>
    cases n with
    | zero => simp [fetchedBytes]
    | succ n =>
      have hfirst := decodeTraced_fetched hdrivers w hsize
      have hrest := ih n
      simp only [fetchedBytes, List.take_succ_cons, List.map_cons, List.sum_cons] at hrest ⊢
      omega

/-- A batch read is the one of the pipeline; it reads nothing unless all marked references parse;
with a limit below the largest number it reads nothing unless the declared sizes fit, and then
fetches and returns no more than the limit; and no codec hands on more than its limit. -/
theorem batch_reads_bounded (hdrivers : p.DriversBounded) (w : σ) (payloads : List Payload) :
    (p.decodeBatchTraced w payloads).1 = p.decodeBatch w payloads ∧
    ((∃ payload ∈ payloads, payload.isExternalReference = true ∧
        PayloadJson.referenceFromSlice payload.data = none) →
      (p.decodeBatchTraced w payloads).2 = []) ∧
    (p.limits.batchBytes < .top →
      (p.limits.batchBytes.val < (payloads.map declaredBytes).sum →
        (p.decodeBatchTraced w payloads).2 = []) ∧
      fetchedBytes (p.decodeBatchTraced w payloads).2 ≤ p.limits.batchBytes.val ∧
      ∀ decoded, (p.decodeBatchTraced w payloads).1 = .ok decoded →
        ∃ texts, List.Forall₂ (fun q text => PayloadJson.toVec q = .ok text) decoded texts ∧
          (texts.map List.length).sum ≤ p.limits.batchBytes.val) ∧
    ∀ trace ∈ (p.decodeBatchTraced w payloads).2, ∀ input ∈ trace.inputs.tail,
      input.length ≤ p.limits.decodedPayloadBytes.val := by
  refine ⟨p.decodeBatchTraced_fst w payloads, ?_⟩
  have hfst := p.decodeBatchTraced_fst w payloads
  rw [decodeBatchTraced] at hfst ⊢
  cases ha : p.admitBatch payloads 0 with
  | error e => simp [fetchedBytes]
  | ok _ =>
    simp only [ha] at hfst ⊢
    obtain ⟨sizes, hsizes, hadmits⟩ := admitBatch_sizes ha
    obtain ⟨n, hn⟩ := decodeAllTraced_snd (p := p) w payloads 0
    have hdeclared := declaredBytes_eq hsizes
    refine ⟨?_, fun hlimit => ⟨fun hlt => ?_, ?_, fun decoded hok => ?_⟩, ?_⟩
    · rintro ⟨payload, hmem, hexternal, hnone⟩
      obtain ⟨size, hsize⟩ := exists_declaredSize hsizes payload hmem
      simp [declaredSize, hexternal, hnone] at hsize
    · have hsum := hadmits.sum_le hlimit (Nat.zero_le _)
      rw [Capped.val_zero, Nat.zero_add] at hsum
      rw [hdeclared] at hlt
      omega
    · have hsum := hadmits.sum_le hlimit (Nat.zero_le _)
      rw [Capped.val_zero, Nat.zero_add] at hsum
      rw [hn]
      exact Nat.le_trans (fetchedBytes_le hdrivers w hsizes n) hsum
    · rw [decodeAllTraced_fst] at hok
      obtain ⟨texts, htexts, hfit⟩ := decodeAll_texts hok
      have hsum := hfit.sum_le hlimit (Nat.zero_le _)
      rw [Capped.val_zero, Nat.zero_add] at hsum
      exact ⟨texts, htexts, hsum⟩
    · rw [hn]
      intro trace htrace
      obtain ⟨payload, -, rfl⟩ := List.mem_map.mp htrace
      exact decodeTraced_inputs w payload

end

end PayloadPipeline

namespace Sample

/-- A reference that claims as many bytes as can be claimed. -/
def boundlessReference : ExternalReference :=
  { reference with encodedSize := .top, codecs := [] }

def boundlessText : Bytes :=
  utf8 ("\x7b\"version\":1,\"storage_id\":\"local\",\"object_id\":" ++
    "\"0102030405064708890a0b0c0d0e0f10\",\"encoded_size\":18446744073709551615,\"sha256\":" ++
    "\"63135d744ef902013df79daebcc5c4349ffa0f6abbb1752676ec6382d362e65b\"," ++
    "\"codecs\":[],\"pipeline_fingerprint\":" ++
    "\"e1a5ad7867b9dee9d1c50e3b8b31f322c7dbc1f0a7e00c8f4df9180a6e2c782d\"\x7d")

@[reducible] def boundlessJson : PayloadJson where
  toVec _ := .error "unsupported"
  fromSlice _ := none
  referenceToVec r := if r = boundlessReference then .ok boundlessText else .error "unsupported"
  referenceFromSlice bytes := if bytes = boundlessText then some boundlessReference else none

/-- Limits that leave the batch unlimited. -/
def boundless : PayloadLimits :=
  { decodedPayloadBytes := 26, batchBytes := .top, decoded_pos := limit_pos,
    batch_pos := by decide }

theorem pipeline_driversBounded (l : PayloadLimits) :
    @PayloadPipeline.DriversBounded sha256 _ (pipeline l) := by
  intro id driver hlookup
  by_cases hid : id = localStorage
  · obtain rfl : inMemoryStorage = driver := by simpa [pipeline, hid] using hlookup
    exact inMemoryStorage_bounded
  · have hbeq : (id == localStorage) = false := by simpa using hid
    simp [pipeline, List.lookup_cons, hbeq] at hlookup

end Sample

section

open Sample

theorem batch_reads_bounded_sample :
    let _ := sha256
    let _ := payloadJson referenceText
    PayloadPipeline.fetchedBytes
      ((pipeline (limits 52 (by decide))).decodeBatchTraced [(.v1For objectId, payloadText)]
        [stored referenceText, stored referenceText]).2 ≤ 26 := by
  let _ := sha256
  let _ := payloadJson referenceText
  have h := PayloadPipeline.batch_reads_bounded
    (pipeline_driversBounded (limits 52 (by decide))) [(.v1For objectId, payloadText)]
    [stored referenceText, stored referenceText]
  exact (h.2.2.1 (by decide)).2.1

end

namespace Sample

theorem stored_marked (text : Bytes) : (stored text).isExternalReference = true := by
  simp [stored, Payload.isExternalReference, Payload.withMetadata, Payload.new, insertMetadata]

theorem stored_data (text : Bytes) : (stored text).data = text := by
  simp [stored, Payload.withMetadata, Payload.new]

theorem boundless_referenceFromSlice :
    @PayloadJson.referenceFromSlice boundlessJson boundlessText = some boundlessReference :=
  if_pos rfl

theorem boundless_declaredSize :
    @PayloadPipeline.declaredSize boundlessJson (stored boundlessText) =
      .ok 18446744073709551615 := by
  simp only [PayloadPipeline.declaredSize, stored_marked, stored_data,
    boundless_referenceFromSlice, if_true]
  rfl

/-- The storage is asked for the object of the first reference, and does not have it. -/
theorem boundless_decodeTraced :
    let _ := sha256
    let _ := boundlessJson
    (pipeline boundless).decodeTraced [] (stored boundlessText) =
      (.error .missingObject,
        ⟨[⟨localStorage, .v1For objectId, .top, .error .missingObject⟩], []⟩) := by
  let _ := sha256
  let _ := boundlessJson
  have hvalid : boundlessReference.validate boundless [fingerprint] = .ok () := by decide +kernel
  have hlookup : (pipeline boundless).storages.lookup localStorage = some inMemoryStorage := by
    simp [pipeline]
  have hread : inMemoryStorage.read [] (.v1For objectId) .top = .error .missingObject := rfl
  have hresolve : (pipeline boundless).resolveTraced [] boundlessReference =
      (.error .missingObject,
        ⟨[⟨localStorage, .v1For objectId, .top, .error .missingObject⟩], []⟩) := by
    have hlimits : (pipeline boundless).limits = boundless := rfl
    have haccepted : (pipeline boundless).acceptedFingerprints = [fingerprint] := rfl
    have hstorage : boundlessReference.storageId = localStorage := rfl
    have hobject : boundlessReference.objectId = objectId := rfl
    have hsize : boundlessReference.encodedSize = .top := rfl
    simp only [PayloadPipeline.resolveTraced, hlimits, haccepted, hvalid,
      PayloadPipeline.readTraced, hstorage, hobject, hsize, hlookup, hread]
  simp only [PayloadPipeline.decodeTraced, stored_marked, stored_data,
    boundless_referenceFromSlice, Bool.not_true, Bool.false_eq_true, if_false, hresolve]

theorem boundless_declaredBytes :
    @PayloadPipeline.declaredBytes boundlessJson (stored boundlessText) =
      18446744073709551615 :=
  @PayloadPipeline.declaredBytes_of_declaredSize boundlessJson _ _ boundless_declaredSize

theorem boundless_decodeBatchTraced :
    (@PayloadPipeline.decodeBatchTraced sha256 _ (pipeline boundless) boundlessJson []
      [stored boundlessText, stored boundlessText]).2 =
        [⟨[⟨localStorage, .v1For objectId, .top, .error .missingObject⟩], []⟩] := by
  let _ := sha256
  have hlimit : (pipeline boundless).limits.batchBytes = .top := rfl
  have hroom : (Capped.top : Usize).addWithin 0 18446744073709551615 = some .top := by decide
  have hroom' : (Capped.top : Usize).addWithin .top 18446744073709551615 = some .top := by decide
  rw [← hlimit] at hroom hroom'
  let _ := boundlessJson
  have hadmit : (pipeline boundless).admitBatch [stored boundlessText, stored boundlessText] 0 =
      .ok () :=
    (PayloadPipeline.admitBatch_cons _ boundless_declaredSize hroom).trans
      ((PayloadPipeline.admitBatch_cons _ boundless_declaredSize hroom').trans rfl)
  exact PayloadPipeline.decodeBatchTraced_of_first hadmit boundless_decodeTraced

end Sample

section

open Sample

/-- Two references that claim more than can be counted, below a limit that is the largest number:
the sum of what they claim stops at the limit, and the first one is read. -/
theorem boundless_batch_reads :
    ¬ ∀ (_ : Sha256) (_ : PayloadJson) (σ : Type) (p : PayloadPipeline σ) (w : σ)
      (payloads : List Payload), p.DriversBounded →
      p.limits.batchBytes.val < (payloads.map PayloadPipeline.declaredBytes).sum →
      ∀ trace ∈ (p.decodeBatchTraced w payloads).2, trace.reads = [] := by
  intro claim
  have hnone := claim sha256 boundlessJson _ (pipeline boundless) []
    [stored boundlessText, stored boundlessText] (pipeline_driversBounded boundless)
    (by simp only [List.map_cons, List.map_nil, boundless_declaredBytes]; decide)
  rw [boundless_decodeBatchTraced] at hnone
  have hreads := hnone _ List.mem_cons_self
  cases hreads

end

end Agentive
