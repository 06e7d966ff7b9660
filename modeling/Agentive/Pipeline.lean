import Agentive.Payload
import Agentive.StageChain

/-! The payload pipeline: a chain of codecs and an external storage. What a writer stores is read
back by a reader that undoes the applied codecs, the last one first. -/

namespace Agentive

structure PayloadPipelineBuilder (σ : Type) where
  storages : List (StorageId × StorageDriver σ)
  defaultStorage : Option StorageId
  codecs : List PayloadCodec
  historicalFingerprints : List PipelineFingerprint
  limits : PayloadLimits

/-- The loop over the versions that one codec reads. -/
def claimVersions (id : CodecId) :
    List CodecVersion → List (CodecId × CodecVersion) →
      Except PayloadError (List (CodecId × CodecVersion))
  | [], owners => .ok owners
  | version :: versions, owners =>
    if (id, version) ∈ owners then
      .error (.invalidInput "codec registry" "codec decode ownership overlaps")
    else claimVersions id versions ((id, version) :: owners)

/-- The loop over the codecs: no two codecs read the same version of one codec id. -/
def claimOwners :
    List PayloadCodec → List (CodecId × CodecVersion) →
      Except PayloadError (List (CodecId × CodecVersion))
  | [], owners => .ok owners
  | codec :: codecs, owners =>
    match codec.descriptor with
    | .error e => .error e
    | .ok d =>
      match claimVersions d.id d.decodeVersions owners with
      | .error e => .error e
      | .ok owners => claimOwners codecs owners

/-- An immutable pipeline. Its default storage is registered and its codecs do not overlap. -/
structure PayloadPipeline [Sha256] (σ : Type) where
  storages : List (StorageId × StorageDriver σ)
  defaultStorage : StorageId
  codecs : List PayloadCodec
  limits : PayloadLimits
  fingerprint : PipelineFingerprint
  acceptedFingerprints : List PipelineFingerprint
  registered : (storages.lookup defaultStorage).isSome = true
  owned : ∃ owners, claimOwners codecs [] = .ok owners
  calculated : PipelineFingerprint.calculate defaultStorage codecs = .ok fingerprint
  accepted : fingerprint ∈ acceptedFingerprints

namespace PayloadPipelineBuilder

variable {σ : Type}

def new : PayloadPipelineBuilder σ :=
  { storages := [], defaultStorage := none, codecs := [], historicalFingerprints := []
    limits := default }

def storage (b : PayloadPipelineBuilder σ) (id : StorageId) (driver : StorageDriver σ) :
    Except PayloadError (PayloadPipelineBuilder σ) :=
  if (b.storages.lookup id).isSome then
    .error (.invalidInput "storage registry" "storage id is already registered")
  else .ok { b with storages := (id, driver) :: b.storages }

def build [Sha256] (b : PayloadPipelineBuilder σ) : Except PayloadError (PayloadPipeline σ) :=
  match b.defaultStorage with
  | none => .error (.invalidInput "storage registry" "a default writer is required")
  | some defaultStorage =>
    if hr : (b.storages.lookup defaultStorage).isSome = true then
      match ho : claimOwners b.codecs [] with
      | .error e => .error e
      | .ok owners =>
        match hf : PipelineFingerprint.calculate defaultStorage b.codecs with
        | .error e => .error e
        | .ok fingerprint =>
          .ok
            { storages := b.storages, defaultStorage, codecs := b.codecs, limits := b.limits
              fingerprint, acceptedFingerprints := fingerprint :: b.historicalFingerprints
              registered := hr, owned := ⟨owners, ho⟩, calculated := hf
              accepted := List.mem_cons_self }
    else .error (.invalidInput "storage registry" "default writer is not registered")

end PayloadPipelineBuilder

structure PreparedPayload where
  bytes : Bytes
  codecs : List CodecUse
  decodedSize : Nat
deriving DecidableEq

/-- The loop of the writer over its codecs. -/
def applyCodecs : List PayloadCodec → Bytes → Except PayloadError (Bytes × List CodecUse)
  | [], bytes => .ok (bytes, [])
  | codec :: codecs, bytes =>
    match codec.encode bytes with
    | .error e => .error e
    | .ok .notHandled => applyCodecs codecs bytes
    | .ok (.applied transformed) =>
      match codec.descriptor with
      | .error e => .error e
      | .ok d =>
        match applyCodecs codecs transformed with
        | .error e => .error e
        | .ok (out, used) => .ok (out, { id := d.id, version := d.encodeVersion } :: used)

namespace PayloadPipeline

variable [Sha256] [PayloadJson] {σ : Type}

def prepare (p : PayloadPipeline σ) (payload : Payload) : Except PayloadError PreparedPayload :=
  match PayloadJson.toVec payload with
  | .error message => .error (.json message)
  | .ok bytes =>
    if p.limits.decodedPayloadBytes.val < bytes.length then
      .error (.sizeLimit "decoded payload")
    else match applyCodecs p.codecs bytes with
      | .error e => .error e
      | .ok (out, used) =>
        if p.limits.batchBytes.val < out.length then .error (.sizeLimit "batch")
        else .ok { bytes := out, codecs := used, decodedSize := bytes.length }

/-- Stores a prepared payload under a fresh object id; `w` is the state of the storages. -/
def storePrepared (p : PayloadPipeline σ) (objectId : ObjectId) (w : σ)
    (prepared : PreparedPayload) : Except PayloadError Payload × σ :=
  match p.storages.lookup p.defaultStorage with
  | none => (.error .unknownStorage, w)
  | some driver =>
    match driver.createImmutable w (.v1For objectId) prepared.bytes with
    | (.error e, w) => (.error e, w)
    | (.ok (), w) =>
      match ExternalReference.new p.defaultStorage objectId prepared.bytes prepared.codecs
          p.fingerprint with
      | .error e => (.error e, w)
      | .ok reference =>
        match PayloadJson.referenceToVec reference with
        | .error message => (.error (.json message), w)
        | .ok data =>
          (.ok ((Payload.new data).withMetadata "encoding" (utf8 REFERENCE_MARKER)), w)

def encode (p : PayloadPipeline σ) (objectId : ObjectId) (w : σ) (payload : Payload) :
    Except PayloadError Payload × σ :=
  match p.prepare payload with
  | .error e => (.error e, w)
  | .ok prepared => p.storePrepared objectId w prepared

/-- A codec's decoding under the reader's limit. -/
def decodeWith (p : PayloadPipeline σ) (codec : PayloadCodec) (version : CodecVersion)
    (bytes : Bytes) : Except PayloadError Bytes :=
  match codec.decode version bytes p.limits.decodedPayloadBytes with
  | .error e => .error e
  | .ok bytes =>
    if p.limits.decodedPayloadBytes.val < bytes.length then
      .error (.sizeLimit "decoded payload")
    else .ok bytes

/-- One turn of the reader's loop over the recorded codecs. -/
def decodeUse (p : PayloadPipeline σ) (used : CodecUse) (bytes : Bytes) :
    Except PayloadError Bytes :=
  match p.codecs.find? (·.decodes used) with
  | none => .error .unknownCodec
  | some codec => p.decodeWith codec used.version bytes

/-- The bytes that a reference stands for, before the codecs are undone. -/
def readStored (p : PayloadPipeline σ) (w : σ) (reference : ExternalReference) :
    Except PayloadError Bytes :=
  match p.storages.lookup reference.storageId with
  | none => .error .unknownStorage
  | some driver =>
    match driver.read w (.v1For reference.objectId) reference.encodedSize with
    | .error e => .error e
    | .ok bytes =>
      if bytes.length ≠ reference.encodedSize.val ∨ !reference.matchesBytes bytes then
        .error .integrityMismatch
      else .ok bytes

def resolve (p : PayloadPipeline σ) (w : σ) (reference : ExternalReference) :
    Except PayloadError Payload :=
  match reference.validate p.limits p.acceptedFingerprints with
  | .error e => .error e
  | .ok () =>
    match p.readStored w reference with
    | .error e => .error e
    | .ok bytes =>
      match StageChain.undo p.decodeUse reference.codecs bytes with
      | .error e => .error e
      | .ok bytes =>
        match PayloadJson.fromSlice bytes with
        | none => .error .malformedReference
        | some payload => .ok payload

def decode (p : PayloadPipeline σ) (w : σ) (payload : Payload) : Except PayloadError Payload :=
  if !payload.isExternalReference then
    if payload.claimsExternalReference then .error .malformedReference else .ok payload
  else match PayloadJson.referenceFromSlice payload.data with
    | none => .error .malformedReference
    | some reference => p.resolve w reference

/-- The loop of a batch write that prepares its payloads, under the aggregate limits. -/
def prepareBatch (p : PayloadPipeline σ) :
    List Payload → Usize → Usize → Except PayloadError (List PreparedPayload)
  | [], _, _ => .ok []
  | payload :: payloads, decodedTotal, storedTotal =>
    match p.prepare payload with
    | .error e => .error e
    | .ok prepared =>
      match p.limits.batchBytes.addWithin decodedTotal prepared.decodedSize with
      | none => .error (.sizeLimit "batch")
      | some decodedTotal =>
        match p.limits.batchBytes.addWithin storedTotal prepared.bytes.length with
        | none => .error (.sizeLimit "batch")
        | some storedTotal =>
          match p.prepareBatch payloads decodedTotal storedTotal with
          | .error e => .error e
          | .ok rest => .ok (prepared :: rest)

/-- Stores prepared payloads one after another, up to the first error. -/
def storeBatch (p : PayloadPipeline σ) (objectIds : Nat → ObjectId) :
    Nat → σ → List PreparedPayload → Except PayloadError (List Payload) × σ
  | _, w, [] => (.ok [], w)
  | i, w, prepared :: rest =>
    match p.storePrepared (objectIds i) w prepared with
    | (.error e, w) => (.error e, w)
    | (.ok stored, w) =>
      match p.storeBatch objectIds (i + 1) w rest with
      | (.error e, w) => (.error e, w)
      | (.ok more, w) => (.ok (stored :: more), w)

def encodeBatch (p : PayloadPipeline σ) (objectIds : Nat → ObjectId) (w : σ)
    (payloads : List Payload) : Except PayloadError (List Payload) × σ :=
  match p.prepareBatch payloads 0 0 with
  | .error e => (.error e, w)
  | .ok prepared => p.storeBatch objectIds 0 w prepared

/-- The size that a payload of a batch declares before anything is read. -/
def declaredSize (payload : Payload) : Except PayloadError Nat :=
  if payload.isExternalReference then
    match PayloadJson.referenceFromSlice payload.data with
    | none => .error .malformedReference
    | some reference => .ok reference.encodedSize.val
  else .ok payload.data.length

/-- The loop of a batch read over the declared sizes. -/
def admitBatch (p : PayloadPipeline σ) : List Payload → Usize → Except PayloadError Unit
  | [], _ => .ok ()
  | payload :: payloads, storedTotal =>
    match declaredSize payload with
    | .error e => .error e
    | .ok size =>
      match p.limits.batchBytes.addWithin storedTotal size with
      | none => .error (.sizeLimit "batch")
      | some storedTotal => p.admitBatch payloads storedTotal

/-- The loop of a batch read that decodes its payloads. -/
def decodeAll (p : PayloadPipeline σ) (w : σ) :
    List Payload → Usize → Except PayloadError (List Payload)
  | [], _ => .ok []
  | payload :: payloads, decodedTotal =>
    match p.decode w payload with
    | .error e => .error e
    | .ok decoded =>
      match PayloadJson.toVec decoded with
      | .error message => .error (.json message)
      | .ok bytes =>
        match p.limits.batchBytes.addWithin decodedTotal bytes.length with
        | none => .error (.sizeLimit "batch")
        | some decodedTotal =>
          match p.decodeAll w payloads decodedTotal with
          | .error e => .error e
          | .ok rest => .ok (decoded :: rest)

def decodeBatch (p : PayloadPipeline σ) (w : σ) (payloads : List Payload) :
    Except PayloadError (List Payload) :=
  match p.admitBatch payloads 0 with
  | .error e => .error e
  | .ok () => p.decodeAll w payloads 0

end PayloadPipeline

end Agentive
