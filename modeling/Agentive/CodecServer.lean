import Agentive.Base64
import Agentive.BoundedReads

/-! The codec server: batches of payloads on the wire, and the handler that decodes them through
the pipeline. The body of a request has a limit of its own. -/

namespace Agentive

def RetryDisposition.text : RetryDisposition → String
  | .retryable => "Retryable"
  | .terminal => "Terminal"

def PayloadError.message : PayloadError → String
  | .invalidInput kind reason => "invalid " ++ kind ++ ": " ++ reason
  | .missingObject => "external payload object is missing"
  | .immutableConflict => "immutable object conflicts with different bytes"
  | .integrityMismatch => "external payload integrity verification failed"
  | .sizeLimit kind => "payload exceeds configured " ++ kind ++ " limit"
  | .unknownStorage => "unknown storage id"
  | .pipelineMismatch => "payload pipeline fingerprint does not match"
  | .unknownCodec => "codec is unavailable or does not support its recorded version"
  | .malformedReference => "malformed external payload reference"
  | .codec message => "payload codec failed: " ++ message
  | .io message _ => "storage I/O failed: " ++ message
  | .json message => "payload JSON failed: " ++ message

/-- The `STANDARD` engine of the base64 library. -/
class Base64Engine where
  encode : Bytes → String
  decode : String → Option Bytes

def Base64Engine.Lawful [Base64Engine] : Prop :=
  ∀ bytes, Base64Engine.decode (Base64Engine.encode bytes) = some bytes

structure WirePayload where
  metadata : List (String × String)
  data : String
deriving DecidableEq

/-- `serde_json::to_vec` and `serde_json::from_slice` of requests and responses. -/
class WireJson where
  requestToVec : List WirePayload → Except String Bytes
  requestFromSlice : Bytes → Except String (List WirePayload)
  responseToVec : List WirePayload → Except String Bytes
  responseFromSlice : Bytes → Except String (List WirePayload)

/-- What is written as JSON is read back. -/
structure WireJson.Lawful [WireJson] : Prop where
  request : ∀ payloads bytes, WireJson.requestToVec payloads = .ok bytes →
    WireJson.requestFromSlice bytes = .ok payloads
  response : ∀ payloads bytes, WireJson.responseToVec payloads = .ok bytes →
    WireJson.responseFromSlice bytes = .ok payloads

section

variable [Base64Engine]

def Payload.toWire (payload : Payload) : WirePayload :=
  { metadata := payload.metadata.map fun entry => (entry.1, Base64Engine.encode entry.2)
    data := Base64Engine.encode payload.data }

def WirePayload.decodeMetadata : List (String × String) →
    Except PayloadError (List (String × Bytes))
  | [] => .ok []
  | (key, value) :: rest =>
    match Base64Engine.decode value with
    | none =>
      .error (.invalidInput "codec server payload" "payload metadata must be canonical base64")
    | some bytes =>
      match decodeMetadata rest with
      | .error e => .error e
      | .ok entries => .ok ((key, bytes) :: entries)

def WirePayload.toPayload (wire : WirePayload) : Except PayloadError Payload :=
  match Base64Engine.decode wire.data with
  | none => .error (.invalidInput "codec server payload" "payload data must be canonical base64")
  | some data =>
    match decodeMetadata wire.metadata with
    | .error e => .error e
    | .ok metadata => .ok { data, metadata }

/-- The payloads of a batch, up to the first that cannot be read. -/
def WirePayload.collect : List WirePayload → Except PayloadError (List Payload)
  | [] => .ok []
  | wire :: rest =>
    match wire.toPayload with
    | .error e => .error e
    | .ok payload =>
      match collect rest with
      | .error e => .error e
      | .ok payloads => .ok (payload :: payloads)

/-- `CodecServerRequest::from_payloads`. -/
def fromPayloads (payloads : List Payload) : List WirePayload := payloads.map Payload.toWire

end

inductive StatusCode
  | ok
  | badRequest
  | notFound
  | payloadTooLarge
deriving DecidableEq

structure HttpRequest where
  method : String
  path : String
  body : Bytes

structure HttpResponse where
  status : StatusCode
  contentType : String
  body : Bytes

def HttpResponse.json (status : StatusCode) (value : Except String Bytes) : HttpResponse :=
  { status
    contentType := "application/json"
    body := match value with
      | .ok body => body
      | .error _ => utf8 "\x7b\"error\":\"response serialization failed\"\x7d" }

def errorBody [JsonText] (members : List (String × String)) : Except String Bytes :=
  .ok (utf8 (JsonText.toText (.object (members.map fun m => (m.1, .string m.2)))))

namespace PayloadPipeline

variable [Sha256] [PayloadJson] [Base64Engine] [WireJson] [JsonText] {σ : Type}

omit [PayloadJson] [Base64Engine] [WireJson] [JsonText] in
def wireBodyLimit (p : PayloadPipeline σ) : Usize :=
  (p.limits.batchBytes.saturatingMul 2).saturatingAdd 65536

/-- What a body comes to, once it is within its limit. -/
def decodeBody (p : PayloadPipeline σ) (w : σ) (body : Bytes) :
    Except PayloadError (List Payload) :=
  match WireJson.requestFromSlice body with
  | .error message => .error (.json message)
  | .ok wires =>
    match WirePayload.collect wires with
    | .error e => .error e
    | .ok payloads => p.decodeBatch w payloads

/-- `CodecServer::handle`. -/
def handle (p : PayloadPipeline σ) (w : σ) (request : HttpRequest) : HttpResponse :=
  if request.method ≠ "POST" ∨ request.path ≠ "/decode" then
    .json .notFound (errorBody [("error", "not found")])
  else if p.wireBodyLimit.val < request.body.length then
    .json .payloadTooLarge (errorBody [("error", "payload exceeds configured batch limit")])
  else match p.decodeBody w request.body with
    | .ok payloads => .json .ok (WireJson.responseToVec (payloads.map Payload.toWire))
    | .error e =>
      .json .badRequest
        (errorBody [("error", e.message), ("retry", e.retryDisposition.text)])

end PayloadPipeline

/-- The payloads of the body of a response. -/
def intoPayloads [Base64Engine] [WireJson] (body : Bytes) : Except PayloadError (List Payload) :=
  match WireJson.responseFromSlice body with
  | .error message => .error (.json message)
  | .ok wires => WirePayload.collect wires

section

variable [Base64Engine]

theorem decodeMetadata_encode (h : Base64Engine.Lawful) (metadata : List (String × Bytes)) :
    WirePayload.decodeMetadata
      (metadata.map fun entry => (entry.1, Base64Engine.encode entry.2)) = .ok metadata := by
  induction metadata with
  | nil => rfl
  | cons entry rest ih => simp only [List.map_cons, WirePayload.decodeMetadata, h entry.2, ih]

theorem toPayload_toWire (h : Base64Engine.Lawful) (payload : Payload) :
    payload.toWire.toPayload = .ok payload := by
  simp only [WirePayload.toPayload, Payload.toWire, h payload.data, decodeMetadata_encode h]

theorem collect_fromPayloads (h : Base64Engine.Lawful) (payloads : List Payload) :
    WirePayload.collect (fromPayloads payloads) = .ok payloads := by
  induction payloads with
  | nil => rfl
  | cons payload rest ih =>
    rw [fromPayloads] at ih ⊢
    simp only [List.map_cons, WirePayload.collect, toPayload_toWire h, ih]

end

namespace PayloadPipeline

variable [Sha256] [PayloadJson] [Base64Engine] [WireJson] [JsonText] {σ : Type}

/-- A request to decode these bytes is answered with these payloads. -/
def Answers (p : PayloadPipeline σ) (w : σ) (body : Bytes) (payloads : List Payload) : Prop :=
  (p.handle w ⟨"POST", "/decode", body⟩).status = .ok ∧
    intoPayloads (p.handle w ⟨"POST", "/decode", body⟩).body = .ok payloads

theorem handle_of_fits {p : PayloadPipeline σ} {w : σ} {body : Bytes}
    (hfits : body.length ≤ p.wireBodyLimit.val) :
    p.handle w ⟨"POST", "/decode", body⟩ =
      match p.decodeBody w body with
      | .ok payloads => .json .ok (WireJson.responseToVec (payloads.map Payload.toWire))
      | .error e =>
        .json .badRequest
          (errorBody [("error", e.message), ("retry", e.retryDisposition.text)]) := by
  rw [handle, if_neg (by simp), if_neg (Nat.not_lt.mpr hfits)]

theorem not_answers_of_too_large {p : PayloadPipeline σ} {w : σ} {body : Bytes}
    (hlarge : p.wireBodyLimit.val < body.length) (payloads : List Payload) :
    ¬ p.Answers w body payloads := by
  rintro ⟨hstatus, -⟩
  rw [handle, if_neg (by simp), if_pos hlarge] at hstatus
  cases hstatus

theorem answers_iff_of_fits {p : PayloadPipeline σ} {w : σ} {payloads : List Payload}
    {body : Bytes} (hbase64 : Base64Engine.Lawful) (hjson : WireJson.Lawful)
    (hbody : WireJson.requestToVec (fromPayloads payloads) = .ok body)
    (hresponse : ∀ decoded, p.decodeBatch w payloads = .ok decoded →
      ∃ text, WireJson.responseToVec (decoded.map Payload.toWire) = .ok text)
    (hfits : body.length ≤ p.wireBodyLimit.val) (decoded : List Payload) :
    p.Answers w body decoded ↔ p.decodeBatch w payloads = .ok decoded := by
  have hdecode : p.decodeBody w body = p.decodeBatch w payloads := by
    simp only [decodeBody, hjson.request _ _ hbody, collect_fromPayloads hbase64]
  rw [Answers, handle_of_fits hfits, hdecode]
  cases hbatch : p.decodeBatch w payloads with
  | error e => simp [HttpResponse.json]
  | ok qs =>
    obtain ⟨text, htext⟩ := hresponse qs hbatch
    have hread := hjson.response _ _ htext
    have hcollect := collect_fromPayloads hbase64 qs
    rw [fromPayloads] at hcollect
    simp only [HttpResponse.json, htext, intoPayloads, hread, hcollect, true_and]

/-- The server agrees with its pipeline exactly on the bodies within its own limit, and where the
pipeline, too, refuses the batch. -/
theorem codec_server_agrees_iff (p : PayloadPipeline σ) (w : σ) {payloads : List Payload}
    {body : Bytes} (hbase64 : Base64Engine.Lawful) (hjson : WireJson.Lawful)
    (hbody : WireJson.requestToVec (fromPayloads payloads) = .ok body)
    (hresponse : ∀ decoded, p.decodeBatch w payloads = .ok decoded →
      ∃ text, WireJson.responseToVec (decoded.map Payload.toWire) = .ok text) :
    (∀ decoded, p.Answers w body decoded ↔ p.decodeBatch w payloads = .ok decoded) ↔
      body.length ≤ p.wireBodyLimit.val ∨ ∃ e, p.decodeBatch w payloads = .error e := by
  constructor
  · intro hagrees
    by_cases hfits : body.length ≤ p.wireBodyLimit.val
    · exact .inl hfits
    cases hbatch : p.decodeBatch w payloads with
    | error e => exact .inr ⟨e, rfl⟩
    | ok decoded =>
      exact absurd ((hagrees decoded).mpr hbatch)
        (not_answers_of_too_large (Nat.not_le.mp hfits) decoded)
  · rintro (hfits | ⟨e, he⟩) decoded
    · exact answers_iff_of_fits hbase64 hjson hbody hresponse hfits decoded
    · by_cases hfits : body.length ≤ p.wireBodyLimit.val
      · exact answers_iff_of_fits hbase64 hjson hbody hresponse hfits decoded
      · simp [not_answers_of_too_large (Nat.not_le.mp hfits) decoded, he]

end PayloadPipeline

theorem toList_length_le_utf8 (text : String) : text.toList.length ≤ (utf8 text).length := by
  rw [utf8]
  induction text.toList with
  | nil => exact Nat.le_refl _
  | cons c rest ih =>
    have hpos := c.utf8Size_pos
    rw [List.flatMap_cons, List.length_append, String.length_utf8EncodeChar, List.length_cons]
    omega

theorem length_utf8_le (text : String) : (utf8 text).length ≤ 4 * text.toList.length := by
  rw [utf8]
  induction text.toList with
  | nil => exact Nat.le_refl _
  | cons c rest ih =>
    have hle := c.utf8Size_le_four
    rw [List.flatMap_cons, List.length_append, String.length_utf8EncodeChar, List.length_cons]
    omega

namespace Sample

@[reducible] def base64 : Base64Engine := { encode := Base64.encode, decode := Base64.decode }

theorem base64_lawful : @Base64Engine.Lawful base64 := Base64.decode_encode

/-- A reference with one more entry in its metadata. -/
def padded (padding : Bytes) : Payload := (stored referenceText).withMetadata "padding" padding

def wireRequest (padding : Bytes) : Bytes :=
  utf8 ("\x7b\"payloads\":[\x7b\"metadata\":\x7b\"encoding\":\"" ++
    Base64.encode (utf8 REFERENCE_MARKER) ++ "\",\"padding\":\"" ++ Base64.encode padding ++
    "\"\x7d,\"data\":\"" ++ Base64.encode referenceText ++ "\"\x7d]\x7d")

def wireResponse : Bytes :=
  utf8 "\x7b\"payloads\":[\x7b\"metadata\":\x7b\x7d,\"data\":\"Bw==\"\x7d]\x7d"

def wireOf (payload : Payload) : List WirePayload := @fromPayloads base64 [payload]

/-- The JSON texts of one request and of one response. -/
@[reducible] def wireJson (padding : Bytes) : WireJson where
  requestToVec wires :=
    if wires = wireOf (padded padding) then .ok (wireRequest padding) else .error "unsupported"
  requestFromSlice bytes :=
    if bytes = wireRequest padding then .ok (wireOf (padded padding)) else .error "unsupported"
  responseToVec wires := if wires = wireOf payload then .ok wireResponse else .error "unsupported"
  responseFromSlice bytes :=
    if bytes = wireResponse then .ok (wireOf payload) else .error "unsupported"

theorem wireJson_lawful (padding : Bytes) : @WireJson.Lawful (wireJson padding) := by
  refine @WireJson.Lawful.mk (wireJson padding) ?_ ?_
  · intro wires bytes h
    simp only [WireJson.requestToVec] at h
    by_cases hw : wires = wireOf (padded padding)
    · rw [if_pos hw] at h
      simp only [WireJson.requestFromSlice, ← Except.ok.inj h, if_true, hw]
    · rw [if_neg hw] at h
      cases h
  · intro wires bytes h
    simp only [WireJson.responseToVec] at h
    by_cases hw : wires = wireOf payload
    · rw [if_pos hw] at h
      simp only [WireJson.responseFromSlice, ← Except.ok.inj h, if_true, hw]
    · rw [if_neg hw] at h
      cases h

theorem padded_marked (padding : Bytes) : (padded padding).isExternalReference = true := by
  have hne : ¬ "padding" = "encoding" := by decide
  have hlt : ¬ "padding" < "encoding" := by decide
  simp [padded, stored, Payload.isExternalReference, Payload.withMetadata, Payload.new,
    insertMetadata, hlt]

theorem padded_data (padding : Bytes) : (padded padding).data = referenceText := by
  simp [padded, stored, Payload.withMetadata, Payload.new]

theorem padded_resolve :
    @PayloadPipeline.resolve sha256 (payloadJson referenceText) _
      (pipeline (limits 52 (by decide))) [(.v1For objectId, payloadText)] reference =
      .ok payload := by
  let _ := sha256
  let _ := payloadJson referenceText
  have hvalid : reference.validate (pipeline (limits 52 (by decide))).limits
      (pipeline (limits 52 (by decide))).acceptedFingerprints = .ok () := by decide +kernel
  have hread : (pipeline (limits 52 (by decide))).readStored
      [(.v1For objectId, payloadText)] reference = .ok payloadText := by decide +kernel
  have hundo : StageChain.undo (pipeline (limits 52 (by decide))).decodeUse reference.codecs
      payloadText = .ok payloadText := by decide +kernel
  exact (resolve_eq hvalid hread).mpr ⟨payloadText, hundo, if_pos rfl⟩

theorem padded_referenceFromSlice :
    @PayloadJson.referenceFromSlice (payloadJson referenceText) referenceText = some reference :=
  if_pos rfl

theorem padded_decode (padding : Bytes) :
    @PayloadPipeline.decode sha256 (payloadJson referenceText) _
      (pipeline (limits 52 (by decide))) [(.v1For objectId, payloadText)] (padded padding) =
      .ok payload := by
  simp only [PayloadPipeline.decode, padded_marked, padded_data, padded_referenceFromSlice,
    Bool.not_true, Bool.false_eq_true, if_false, padded_resolve]

theorem padded_declaredSize (padding : Bytes) :
    @PayloadPipeline.declaredSize (payloadJson referenceText) (padded padding) = .ok 26 := by
  simp only [PayloadPipeline.declaredSize, padded_marked, padded_data, padded_referenceFromSlice,
    if_true]
  rfl

theorem padded_decodeBatch (padding : Bytes) :
    @PayloadPipeline.decodeBatch sha256 (payloadJson referenceText) _
      (pipeline (limits 52 (by decide))) [(.v1For objectId, payloadText)] [padded padding] =
      .ok [payload] := by
  let _ := sha256
  let _ := payloadJson referenceText
  have hadmits : (pipeline (limits 52 (by decide))).Admits 0 [26] := rfl
  have hlen : [26] = [payloadText].map List.length := by decide
  have hadmit := PayloadPipeline.admitBatch_ok
    (.cons (padded_declaredSize padding) .nil) hadmits
  rw [hlen] at hadmits
  have htexts : List.Forall₂ (fun payload text => PayloadJson.toVec payload = .ok text)
      [payload] [payloadText] := .cons (if_pos rfl) .nil
  rw [PayloadPipeline.decodeBatch, hadmit]
  exact PayloadPipeline.decodeAll_ok (.cons (padded_decode padding) .nil) htexts hadmits

theorem padded_body (padding : Bytes) :
    @WireJson.requestToVec (wireJson padding) (@fromPayloads base64 [padded padding]) =
      .ok (wireRequest padding) :=
  if_pos rfl

theorem padded_response (padding : Bytes) {decoded : List Payload}
    (h : @PayloadPipeline.decodeBatch sha256 (payloadJson referenceText) _
      (pipeline (limits 52 (by decide))) [(.v1For objectId, payloadText)] [padded padding] =
      .ok decoded) :
    ∃ text, @WireJson.responseToVec (wireJson padding) (decoded.map (@Payload.toWire base64)) =
      .ok text := by
  rw [padded_decodeBatch] at h
  obtain rfl := Except.ok.inj h
  exact ⟨wireResponse, if_pos rfl⟩

@[reducible] def errorText : JsonText := { toText := fun _ => "null", parses := fun _ => true }

theorem length_wireRequest (padding : Bytes) :
    4 * ((padding.length + 2) / 3) ≤ (wireRequest padding).length := by
  refine Nat.le_trans ?_ (toList_length_le_utf8 _)
  rw [← Base64.length_encodeChars]
  simp only [String.toList_append, List.length_append, Base64.encode, String.toList_ofList]
  omega

theorem length_wireRequest_le (padding : Bytes) :
    (wireRequest padding).length ≤ 4 * (4 * ((padding.length + 2) / 3) + 3100) := by
  have hreference : referenceText.length ≤ 2000 := by
    refine Nat.le_trans (length_utf8_le _) ?_
    simp only [String.toList_append, List.length_append]
    decide +kernel
  have hmarker : (utf8 REFERENCE_MARKER).length ≤ 200 :=
    Nat.le_trans (length_utf8_le _) (by decide)
  have htexts : "\x7b\"payloads\":[\x7b\"metadata\":\x7b\"encoding\":\"".toList.length +
      "\",\"padding\":\"".toList.length + "\"\x7d,\"data\":\"".toList.length +
      "\"\x7d]\x7d".toList.length ≤ 80 := by decide
  refine Nat.le_trans (length_utf8_le _) (Nat.mul_le_mul_left 4 ?_)
  simp only [String.toList_append, List.length_append, Base64.encode, String.toList_ofList,
    Base64.length_encodeChars]
  omega

theorem padded_wireBodyLimit :
    (@PayloadPipeline.wireBodyLimit sha256 _ (pipeline (limits 52 (by decide)))).val = 65588 := by
  rfl

end Sample

section

open Sample

theorem codec_server_agrees_sample :
    let _ := sha256
    let _ := payloadJson referenceText
    let _ := base64
    let _ := wireJson []
    let _ := errorText
    (pipeline (limits 52 (by decide))).Answers [(.v1For objectId, payloadText)] (wireRequest [])
      [payload] := by
  let _ := sha256
  let _ := payloadJson referenceText
  let _ := base64
  let _ := wireJson []
  let _ := errorText
  have hfits : (wireRequest []).length ≤ 65588 :=
    Nat.le_trans (length_wireRequest_le []) (by decide)
  have h := PayloadPipeline.codec_server_agrees_iff (pipeline (limits 52 (by decide)))
    [(.v1For objectId, payloadText)] base64_lawful (wireJson_lawful []) (padded_body [])
    (fun _ => padded_response [])
  exact (h.mpr (.inl hfits) [payload]).mpr (padded_decodeBatch [])

/-- A reference whose metadata has a long entry: the pipeline decodes the batch, and the server
refuses its body. -/
theorem codec_server_refuses_admitted_batch :
    ¬ ∀ (_ : Sha256) (_ : PayloadJson) (_ : Base64Engine) (_ : WireJson) (_ : JsonText)
      (σ : Type) (p : PayloadPipeline σ) (w : σ) (payloads : List Payload) (body : Bytes),
      Base64Engine.Lawful → WireJson.Lawful →
      WireJson.requestToVec (fromPayloads payloads) = .ok body →
      (∀ decoded, p.decodeBatch w payloads = .ok decoded →
        ∃ text, WireJson.responseToVec (decoded.map Payload.toWire) = .ok text) →
      ∀ decoded, p.Answers w body decoded ↔ p.decodeBatch w payloads = .ok decoded := by
  intro claim
  let padding : Bytes := List.replicate 49192 0
  have hagrees := claim sha256 (payloadJson referenceText) base64 (wireJson padding) errorText _
    (pipeline (limits 52 (by decide))) [(.v1For objectId, payloadText)] [padded padding]
    (wireRequest padding) base64_lawful (wireJson_lawful padding) (padded_body padding)
    (fun _ => padded_response padding) [payload]
  have hlarge : 65588 < (wireRequest padding).length := by
    have hlength := length_wireRequest padding
    rw [List.length_replicate] at hlength
    omega
  rw [← padded_wireBodyLimit] at hlarge
  exact @PayloadPipeline.not_answers_of_too_large sha256 (payloadJson referenceText) base64
    (wireJson padding) errorText _ _ _ _ hlarge _ (hagrees.mpr (padded_decodeBatch padding))

end

end Agentive
