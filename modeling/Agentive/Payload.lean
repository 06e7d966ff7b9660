import Agentive.Message
import Mathlib.Data.Fin.Basic
import Mathlib.Data.List.Induction

/-! Payloads, codecs, object storage and the reference that stands for a stored payload. -/

namespace Agentive

abbrev Bytes := List UInt8

/-- `usize` of a 64-bit target. -/
abbrev Usize := Capped 18446744073709551615

inductive RetryDisposition
  | retryable
  | terminal
deriving DecidableEq

inductive PayloadError
  | invalidInput (kind reason : String)
  | missingObject
  | immutableConflict
  | integrityMismatch
  | sizeLimit (kind : String)
  | unknownStorage
  | pipelineMismatch
  | unknownCodec
  | malformedReference
  | codec (message : String)
  | io (message : String) (retry : RetryDisposition)
  | json (message : String)
deriving DecidableEq

def PayloadError.retryDisposition : PayloadError → RetryDisposition
  | .io _ retry => retry
  | _ => .terminal

def utf8 (text : String) : Bytes := text.toList.flatMap String.utf8EncodeChar

theorem utf8_injective : Function.Injective utf8 := by
  intro a b h
  have hbytes : a.toList.utf8Encode = b.toList.utf8Encode := congrArg List.toByteArray h
  rw [String.utf8Encode_toList, String.utf8Encode_toList] at hbytes
  exact String.toByteArray_inj.mp hbytes

def isLowerHexDigit (c : Char) : Bool := c.isDigit || ('a' ≤ c && c ≤ 'f')

def hexDigit (n : Nat) : Char := if n < 10 then Char.ofNat (48 + n) else Char.ofNat (87 + n)

def hexByte (byte : UInt8) : List Char := [hexDigit (byte.toNat / 16), hexDigit (byte.toNat % 16)]

def hex (bytes : Bytes) : String := String.ofList (bytes.flatMap hexByte)

/-- The text of 64 lowercase hexadecimal characters. -/
def isSha256Text (text : String) : Bool :=
  text.utf8ByteSize == 64 && text.toList.all isLowerHexDigit

theorem hexBytes_length (bytes : Bytes) : (bytes.flatMap hexByte).length = 2 * bytes.length := by
  induction bytes with
  | nil => rfl
  | cons byte bytes ih =>
    rw [List.flatMap_cons, List.length_append, ih, List.length_cons]
    simp only [hexByte, List.length_cons, List.length_nil]
    omega

theorem hexDigit_isLowerHexDigit {n : Nat} (h : n < 16) :
    isLowerHexDigit (hexDigit n) = true ∧ (hexDigit n).utf8Size = 1 := by
  have hall : ∀ m : Fin 16, isLowerHexDigit (hexDigit m) = true ∧ (hexDigit m).utf8Size = 1 := by
    decide
  exact hall ⟨n, h⟩

theorem utf8ByteSize_ofList_of_ascii {cs : List Char} (h : ∀ c ∈ cs, c.utf8Size = 1) :
    (String.ofList cs).utf8ByteSize = cs.length := by
  induction cs using List.reverseRecOn with
  | nil => rfl
  | append_singleton cs c ih =>
    rw [String.ofList_append, String.utf8ByteSize_append, ih fun d hd => h d (by simp [hd])]
    simp [h c (by simp)]

theorem isSha256Text_hex (bytes : Vector UInt8 32) : isSha256Text (hex bytes.toList) = true := by
  have hdigits (byte : UInt8) : ∀ c ∈ hexByte byte, isLowerHexDigit c = true ∧ c.utf8Size = 1 := by
    have hlt := byte.toNat_lt
    simp only [hexByte, List.forall_mem_cons, List.not_mem_nil, false_implies, implies_true,
      and_true]
    exact ⟨hexDigit_isLowerHexDigit (by omega), hexDigit_isLowerHexDigit (by omega)⟩
  have hall : ∀ c ∈ bytes.toList.flatMap hexByte, isLowerHexDigit c = true ∧ c.utf8Size = 1 := by
    intro c hc
    obtain ⟨byte, _, hbyte⟩ := List.mem_flatMap.mp hc
    exact hdigits byte c hbyte
  have hlen : (bytes.toList.flatMap hexByte).length = 64 := by
    rw [hexBytes_length, Vector.length_toList]
  rw [isSha256Text, Bool.and_eq_true, beq_iff_eq, hex,
    utf8ByteSize_ofList_of_ascii fun c hc => (hall c hc).2]
  refine ⟨hlen, ?_⟩
  rw [String.toList_ofList]
  exact List.all_eq_true.mpr fun c hc => (hall c hc).1

/-- The SHA-256 digest of some bytes. -/
class Sha256 where
  digest : Bytes → Vector UInt8 32

def isStableIdentity (value : String) : Bool :=
  value.utf8ByteSize != 0 && decide (value.utf8ByteSize ≤ 64) &&
    value.toList.all (fun c => c.isLower || c.isDigit || c == '-')

structure CodecId where
  text : String
  valid : isStableIdentity text = true
deriving DecidableEq

abbrev CodecVersion := Fin 65536

/-- One version more in an ascending list of versions. -/
def insertVersion (version : CodecVersion) : List CodecVersion → List CodecVersion
  | [] => [version]
  | v :: versions =>
    if version < v then version :: v :: versions
    else if version = v then v :: versions
    else v :: insertVersion version versions

theorem mem_insertVersion {u version : CodecVersion} {versions : List CodecVersion} :
    u ∈ insertVersion version versions ↔ u = version ∨ u ∈ versions := by
  induction versions with
  | nil => simp [insertVersion]
  | cons v versions ih => grind [insertVersion]

theorem insertVersion_ascending {version : CodecVersion} {versions : List CodecVersion}
    (h : versions.Pairwise (· < ·)) : (insertVersion version versions).Pairwise (· < ·) := by
  induction versions with
  | nil => simp [insertVersion]
  | cons v versions ih =>
    obtain ⟨hv, hrest⟩ := List.pairwise_cons.mp h
    unfold insertVersion
    split
    · next hlt =>
      refine List.pairwise_cons.mpr ⟨fun u hu => ?_, h⟩
      rcases List.mem_cons.mp hu with rfl | hu
      · exact hlt
      · exact Fin.lt_trans hlt (hv u hu)
    · next hge =>
      split
      · exact h
      · next hne =>
        refine List.pairwise_cons.mpr ⟨fun u hu => ?_, ih hrest⟩
        rcases mem_insertVersion.mp hu with rfl | hu
        · have hval : u.val ≠ v.val := fun he => hne (Fin.ext he)
          have hle := Fin.not_lt.mp hge
          exact Fin.lt_def.mpr (by have := Fin.le_def.mp hle; omega)
        · exact hv u hu

/-- A set of versions, in ascending order. -/
def collectVersions (versions : List CodecVersion) : List CodecVersion :=
  versions.foldr insertVersion []

theorem collectVersions_ascending (versions : List CodecVersion) :
    (collectVersions versions).Pairwise (· < ·) := by
  induction versions with
  | nil => exact .nil
  | cons v versions ih => exact insertVersion_ascending ih

/-- A codec's write and read contract: what it writes it also reads. -/
structure CodecDescriptor where
  id : CodecId
  encodeVersion : CodecVersion
  decodeVersions : List CodecVersion
  ascending : decodeVersions.Pairwise (· < ·)
  readsOwn : encodeVersion ∈ decodeVersions
deriving DecidableEq

def CodecDescriptor.new (id : CodecId) (encodeVersion : CodecVersion)
    (decodeVersions : List CodecVersion) : Except PayloadError CodecDescriptor :=
  if h : encodeVersion ∈ collectVersions decodeVersions then
    .ok
      { id, encodeVersion, decodeVersions := collectVersions decodeVersions
        ascending := collectVersions_ascending decodeVersions, readsOwn := h }
  else
    .error (.invalidInput "codec descriptor"
      "the encode version must be accepted for decoding")

inductive CodecOutcome
  | applied (bytes : Bytes)
  | notHandled
deriving DecidableEq

structure PayloadCodec where
  descriptor : Except PayloadError CodecDescriptor
  encode : Bytes → Except PayloadError CodecOutcome
  decode : CodecVersion → Bytes → Usize → Except PayloadError Bytes

structure StorageId where
  text : String
  valid : isStableIdentity text = true
deriving DecidableEq

structure ObjectId where
  bytes : Vector UInt8 16
deriving DecidableEq

def ObjectId.toHex (id : ObjectId) : String := hex id.bytes.toList

structure ObjectKey where
  text : String
deriving DecidableEq

def ObjectKey.v1For (id : ObjectId) : ObjectKey :=
  ⟨"v1/objects/" ++ String.ofList (id.toHex.toList.take 3) ++ "/" ++ id.toHex⟩

/-- A codec undoes what it applied, whenever the limit leaves room for the original. -/
def PayloadCodec.Lawful (codec : PayloadCodec) : Prop :=
  ∀ d a b, codec.descriptor = .ok d → codec.encode a = .ok (.applied b) →
    ∀ limit : Usize, a.length ≤ limit.val → codec.decode d.encodeVersion b limit = .ok a

/-- A codec never undoes what it applied to other bytes than the original. -/
def PayloadCodec.Exact (codec : PayloadCodec) : Prop :=
  ∀ d a b, codec.descriptor = .ok d → codec.encode a = .ok (.applied b) →
    ∀ limit z, codec.decode d.encodeVersion b limit = .ok z → z = a

/-- A storage driver over the state `σ` of the outside world. -/
structure StorageDriver (σ : Type) where
  createImmutable : σ → ObjectKey → Bytes → Except PayloadError Unit × σ
  read : σ → ObjectKey → Usize → Except PayloadError Bytes

/-- A driver returns what was created under a key. -/
def StorageDriver.Lawful {σ : Type} (driver : StorageDriver σ) : Prop :=
  ∀ w w' key bytes, driver.createImmutable w key bytes = (.ok (), w') →
    ∀ maxBytes : Usize, bytes.length ≤ maxBytes.val → driver.read w' key maxBytes = .ok bytes

/-- The in-process driver. -/
def inMemoryStorage : StorageDriver (List (ObjectKey × Bytes)) where
  createImmutable objects key bytes :=
    match objects.lookup key with
    | some existing =>
      if existing = bytes then (.ok (), objects) else (.error .immutableConflict, objects)
    | none => (.ok (), (key, bytes) :: objects)
  read objects key maxBytes :=
    match objects.lookup key with
    | none => .error .missingObject
    | some bytes =>
      if maxBytes.val < bytes.length then .error (.sizeLimit "stored payload") else .ok bytes

theorem inMemoryStorage_lawful : inMemoryStorage.Lawful := by
  intro w w' key bytes hc maxBytes hle
  have hread (objects : List (ObjectKey × Bytes)) (h : objects.lookup key = some bytes) :
      inMemoryStorage.read objects key maxBytes = .ok bytes := by
    simp [inMemoryStorage, h, Nat.not_lt.mpr hle]
  cases hl : w.lookup key with
  | none =>
    have hw : (key, bytes) :: w = w' := by simpa [inMemoryStorage, hl] using hc
    exact hread w' (by simp [← hw])
  | some existing =>
    by_cases he : existing = bytes
    · have hw : w = w' := by simpa [inMemoryStorage, hl, he] using hc
      exact hread w' (by rw [← hw, hl, he])
    · simp [inMemoryStorage, hl, he] at hc

structure Payload where
  data : Bytes
  metadata : List (String × Bytes)
deriving DecidableEq

def REFERENCE_MARKER : String := "agentive.io/external-storage-v1"

def REFERENCE_MARKER_PREFIX : Bytes := utf8 "agentive.io/external-storage-"

def REFERENCE_VERSION : Nat := 1

/-- One entry of an ordered map: the entry of an equal key is replaced. -/
def insertMetadata (key : String) (value : Bytes) :
    List (String × Bytes) → List (String × Bytes)
  | [] => [(key, value)]
  | (k, v) :: rest =>
    if key = k then (key, value) :: rest
    else if key < k then (key, value) :: (k, v) :: rest
    else (k, v) :: insertMetadata key value rest

namespace Payload

def new (data : Bytes) : Payload := { data, metadata := [] }

def withMetadata (p : Payload) (key : String) (value : Bytes) : Payload :=
  { p with metadata := insertMetadata key value p.metadata }

def isExternalReference (p : Payload) : Bool :=
  (p.metadata.lookup "encoding").any fun value => value = utf8 REFERENCE_MARKER

def claimsExternalReference (p : Payload) : Bool :=
  (p.metadata.lookup "encoding").any fun value => REFERENCE_MARKER_PREFIX.isPrefixOf value

end Payload

/-- Limits on retrieval and decompression; both are nonzero. -/
structure PayloadLimits where
  decodedPayloadBytes : Usize
  batchBytes : Usize
  decoded_pos : 0 < decodedPayloadBytes.val
  batch_pos : 0 < batchBytes.val

def PayloadLimits.new (decodedPayloadBytes batchBytes : Usize) :
    Except PayloadError PayloadLimits :=
  if h : 0 < decodedPayloadBytes.val ∧ 0 < batchBytes.val then
    .ok { decodedPayloadBytes, batchBytes, decoded_pos := h.1, batch_pos := h.2 }
  else .error (.invalidInput "payload limits" "limits must be nonzero")

def DEFAULT_MAX_DECODED_BYTES : Usize := ⟨67108864, by decide⟩

instance : Inhabited PayloadLimits :=
  ⟨{ decodedPayloadBytes := DEFAULT_MAX_DECODED_BYTES, batchBytes := DEFAULT_MAX_DECODED_BYTES,
     decoded_pos := by decide, batch_pos := by decide }⟩

structure PipelineFingerprint where
  bytes : Vector UInt8 32
deriving DecidableEq

def PipelineFingerprint.toHex (f : PipelineFingerprint) : String := hex f.bytes.toList

def CodecVersion.toBeBytes (version : CodecVersion) : Bytes :=
  [UInt8.ofNat (version.val / 256), UInt8.ofNat (version.val % 256)]

/-- What one codec adds to the bytes under the fingerprint. -/
def CodecDescriptor.fingerprintBytes (d : CodecDescriptor) : Bytes :=
  0 :: utf8 d.id.text ++ CodecVersion.toBeBytes d.encodeVersion ++
    d.decodeVersions.flatMap CodecVersion.toBeBytes

/-- The bytes under the fingerprint of a pipeline. -/
def fingerprintPreimage (defaultStorage : StorageId) (codecs : List PayloadCodec) :
    Except PayloadError Bytes :=
  codecs.foldlM (fun bytes codec =>
    match codec.descriptor with
    | .error e => .error e
    | .ok d => .ok (bytes ++ d.fingerprintBytes))
    (utf8 "agentive-temporal-pipeline-v1" ++ [0] ++ utf8 defaultStorage.text)

def PipelineFingerprint.calculate [Sha256] (defaultStorage : StorageId)
    (codecs : List PayloadCodec) : Except PayloadError PipelineFingerprint :=
  match fingerprintPreimage defaultStorage codecs with
  | .error e => .error e
  | .ok bytes => .ok ⟨Sha256.digest bytes⟩

structure CodecUse where
  id : CodecId
  version : CodecVersion
deriving DecidableEq

def PayloadCodec.decodes (codec : PayloadCodec) (used : CodecUse) : Bool :=
  match codec.descriptor with
  | .ok d => d.id = used.id && decide (used.version ∈ d.decodeVersions)
  | .error _ => false

structure ExternalReference where
  version : Nat
  storageId : StorageId
  objectId : ObjectId
  encodedSize : U64
  sha256 : String
  codecs : List CodecUse
  pipelineFingerprint : String
deriving DecidableEq

/-- `serde_json::to_vec` and `serde_json::from_slice` of payloads and references. -/
class PayloadJson where
  toVec : Payload → Except String Bytes
  fromSlice : Bytes → Option Payload
  referenceToVec : ExternalReference → Except String Bytes
  referenceFromSlice : Bytes → Option ExternalReference

/-- What is written as JSON is read back. -/
structure PayloadJson.Lawful [PayloadJson] : Prop where
  payload : ∀ p bytes, PayloadJson.toVec p = .ok bytes → PayloadJson.fromSlice bytes = some p
  reference : ∀ r bytes, PayloadJson.referenceToVec r = .ok bytes →
    PayloadJson.referenceFromSlice bytes = some r

namespace ExternalReference

variable [Sha256]

def new (storageId : StorageId) (objectId : ObjectId) (bytes : Bytes) (codecs : List CodecUse)
    (fingerprint : PipelineFingerprint) : Except PayloadError ExternalReference :=
  if h : bytes.length ≤ 18446744073709551615 then
    .ok
      { version := REFERENCE_VERSION, storageId, objectId, encodedSize := ⟨bytes.length, h⟩
        sha256 := hex (Sha256.digest bytes).toList, codecs
        pipelineFingerprint := fingerprint.toHex }
  else .error (.sizeLimit "stored payload")

omit [Sha256] in
def validate (r : ExternalReference) (limits : PayloadLimits)
    (fingerprints : List PipelineFingerprint) : Except PayloadError Unit :=
  if r.version ≠ REFERENCE_VERSION ∨ r.encodedSize.val = 0 ∧ r.codecs ≠ [] then
    .error .malformedReference
  else if limits.batchBytes < r.encodedSize then .error (.sizeLimit "batch")
  else if !isSha256Text r.sha256 then .error .malformedReference
  else if !fingerprints.any (fun f => r.pipelineFingerprint = f.toHex) then
    .error .pipelineMismatch
  else .ok ()

def matchesBytes (r : ExternalReference) (bytes : Bytes) : Bool :=
  hex (Sha256.digest bytes).toList = r.sha256

end ExternalReference

end Agentive
