import Agentive.BatchRoundTrip
import Agentive.Delimited
import Mathlib.Data.List.Nodup

/-! Envelopes that a pipeline delivers: the pass-through branch refuses them, the branch that
reads stored objects does not look at what it returns. -/

namespace Agentive

open StageChain

namespace PayloadPipeline

section

variable [Sha256] {σ : Type} {p : PayloadPipeline σ} {w : σ} {reference : ExternalReference}

theorem readStored_eq_ok_iff {stored : Bytes} : p.readStored w reference = .ok stored ↔
    ∃ driver, p.storages.lookup reference.storageId = some driver ∧
      driver.read w (.v1For reference.objectId) reference.encodedSize = .ok stored ∧
      stored.length = reference.encodedSize.val ∧ reference.matchesBytes stored = true := by
  unfold readStored
  constructor
  · intro h
    split at h
    · cases h
    · next driver hd =>
      split at h
      · cases h
      · next bytes hr =>
        split at h
        · cases h
        · next hgood =>
          obtain rfl := Except.ok.inj h
          obtain ⟨hlen, hmatch⟩ := not_or.mp hgood
          exact ⟨driver, hd, hr, not_not.mp hlen, by simpa using hmatch⟩
  · rintro ⟨driver, hd, hr, hlen, hmatch⟩
    simp [hd, hr, hlen, hmatch]

variable [PayloadJson] {payload q : Payload}

/-- A valid reference to an object that is the written form of `q`. -/
structure Refers (p : PayloadPipeline σ) (w : σ) (payload : Payload)
    (reference : ExternalReference) (driver : StorageDriver σ) (stored json : Bytes)
    (q : Payload) : Prop where
  marked : payload.isExternalReference = true
  parsed : PayloadJson.referenceFromSlice payload.data = some reference
  valid : reference.validate p.limits p.acceptedFingerprints = .ok ()
  storage : p.storages.lookup reference.storageId = some driver
  read : driver.read w (.v1For reference.objectId) reference.encodedSize = .ok stored
  complete : stored.length = reference.encodedSize.val
  checked : reference.matchesBytes stored = true
  undone : undo p.decodeUse reference.codecs stored = .ok json
  text : PayloadJson.fromSlice json = some q

/-- A registered storage hands out these bytes for the object, and they are within the limit. -/
def Stores (p : PayloadPipeline σ) (w : σ) (id : StorageId) (objectId : ObjectId)
    (bytes : Bytes) : Prop :=
  ∃ driver, ∃ size : U64, p.storages.lookup id = some driver ∧ size.val = bytes.length ∧
    size ≤ p.limits.batchBytes ∧ driver.read w (.v1For objectId) size = .ok bytes

/-- Some codecs undone, one of the objects that the storages hold is the text of an envelope. -/
def StoresEnvelope (p : PayloadPipeline σ) (w : σ) : Prop :=
  ∃ id objectId bytes codecs text q, p.Stores w id objectId bytes ∧
    (bytes = [] → codecs = []) ∧ undo p.decodeUse codecs bytes = .ok text ∧
    PayloadJson.fromSlice text = some q ∧ q.claimsExternalReference = true

/-- No decoding, of one payload or of a batch, delivers an envelope. -/
def DeliversNoEnvelope (p : PayloadPipeline σ) (w : σ) : Prop :=
  (∀ payload q, p.decode w payload = .ok q → q.claimsExternalReference = false) ∧
    ∀ payloads qs, p.decodeBatch w payloads = .ok qs →
      ∀ q ∈ qs, q.claimsExternalReference = false

theorem resolve_eq_ok_iff : p.resolve w reference = .ok q ↔
    reference.validate p.limits p.acceptedFingerprints = .ok () ∧ ∃ stored json,
      p.readStored w reference = .ok stored ∧
      undo p.decodeUse reference.codecs stored = .ok json ∧
      PayloadJson.fromSlice json = some q := by
  unfold resolve
  cases hv : reference.validate p.limits p.acceptedFingerprints with
  | error e => simp
  | ok =>
    cases hs : p.readStored w reference with
    | error e => simp
    | ok stored =>
      cases hu : undo p.decodeUse reference.codecs stored with
      | error e => simp [hu]
      | ok json => cases hf : PayloadJson.fromSlice json <;> simp [hu, hf]

/-- A decoded payload was passed through, or is what a stored object was written from. -/
theorem decode_eq_ok_iff : p.decode w payload = .ok q ↔
    (payload.isExternalReference = false ∧ payload.claimsExternalReference = false ∧
      q = payload) ∨
    ∃ reference driver stored json, p.Refers w payload reference driver stored json q := by
  unfold decode
  cases hm : payload.isExternalReference with
  | false =>
    have hno : ¬ ∃ reference driver stored json,
        p.Refers w payload reference driver stored json q := by
      rintro ⟨_, _, _, _, h⟩
      cases hm.symm.trans h.marked
    cases hc : payload.claimsExternalReference <;> simp [hno, eq_comm]
  | true =>
    cases hp : PayloadJson.referenceFromSlice payload.data with
    | none =>
      simp only [Bool.not_true, Bool.false_eq_true, if_false, reduceCtorEq, false_and, false_or,
        false_iff]
      rintro ⟨_, _, _, _, h⟩
      cases hp.symm.trans h.parsed
    | some reference =>
      simp only [Bool.not_true, Bool.false_eq_true, if_false, reduceCtorEq, false_and, false_or]
      rw [resolve_eq_ok_iff]
      constructor
      · rintro ⟨hv, stored, json, hs, hu, hf⟩
        obtain ⟨driver, hd, hr, hlen, hmatch⟩ := readStored_eq_ok_iff.mp hs
        exact ⟨reference, driver, stored, json, hm, hp, hv, hd, hr, hlen, hmatch, hu, hf⟩
      · rintro ⟨reference', driver, stored, json, h⟩
        obtain rfl := Option.some.inj (hp.symm.trans h.parsed)
        exact ⟨h.valid, stored, json,
          readStored_eq_ok_iff.mpr ⟨driver, h.storage, h.read, h.complete, h.checked⟩, h.undone,
          h.text⟩

theorem decodeAll_forall₂ {payloads qs : List Payload} {total : Usize}
    (h : p.decodeAll w payloads total = .ok qs) :
    List.Forall₂ (fun payload q => p.decode w payload = .ok q) payloads qs := by
  induction payloads generalizing qs total with
  | nil =>
    obtain rfl := Except.ok.inj h
    exact .nil
  | cons payload payloads ih =>
    rw [decodeAll] at h
    cases hd : p.decode w payload with
    | error e => simp [hd] at h
    | ok decoded =>
      simp only [hd] at h
      cases hb : PayloadJson.toVec decoded with
      | error message => simp [hb] at h
      | ok bytes =>
        simp only [hb] at h
        cases ha : p.limits.batchBytes.addWithin total bytes.length with
        | none => simp [ha] at h
        | some total' =>
          simp only [ha] at h
          cases hrest : p.decodeAll w payloads total' with
          | error e => simp [hrest] at h
          | ok rest =>
            simp only [hrest] at h
            obtain rfl := Except.ok.inj h
            exact .cons hd (ih hrest)

theorem decodeBatch_mem {payloads qs : List Payload} (h : p.decodeBatch w payloads = .ok qs)
    (hq : q ∈ qs) : ∃ payload ∈ payloads, p.decode w payload = .ok q := by
  have hall : List.Forall₂ (fun payload q => p.decode w payload = .ok q) payloads qs := by
    unfold decodeBatch at h
    split at h
    · cases h
    · exact decodeAll_forall₂ h
  clear h
  induction hall with
  | nil => cases hq
  | cons hhead _ ih =>
    rcases List.mem_cons.mp hq with rfl | hq
    · exact ⟨_, List.mem_cons_self, hhead⟩
    · obtain ⟨payload, hmem, hdecode⟩ := ih hq
      exact ⟨payload, List.mem_cons_of_mem _ hmem, hdecode⟩

/-- An envelope that comes out of a decoding is held by a storage. -/
theorem storesEnvelope_of_decode (h : p.decode w payload = .ok q)
    (hq : q.claimsExternalReference = true) : p.StoresEnvelope w := by
  rcases decode_eq_ok_iff.mp h with ⟨_, hclaims, rfl⟩ | ⟨reference, driver, stored, json, hr⟩
  · simp [hclaims] at hq
  · have hvalid := hr.valid
    unfold ExternalReference.validate at hvalid
    split at hvalid
    · cases hvalid
    next hempty =>
    split at hvalid
    · cases hvalid
    next hlimit =>
    refine ⟨reference.storageId, reference.objectId, stored, reference.codecs, json, q,
      ⟨driver, reference.encodedSize, hr.storage, hr.complete.symm,
        Nat.le_of_not_lt hlimit, hr.read⟩, fun hnil => ?_, hr.undone, hr.text, hq⟩
    by_contra hcodecs
    exact hempty (.inr ⟨by rw [← hr.complete, hnil]; rfl, hcodecs⟩)

/-- Whatever a storage holds, there is a payload that refers to it. -/
theorem exists_decode {id : StorageId} {objectId : ObjectId} {bytes text : Bytes}
    {codecs : List CodecUse}
    (hreference : ∀ reference, ∃ data, PayloadJson.referenceFromSlice data = some reference)
    (hstores : p.Stores w id objectId bytes) (hempty : bytes = [] → codecs = [])
    (hundo : undo p.decodeUse codecs bytes = .ok text)
    (htext : PayloadJson.fromSlice text = some q) : ∃ payload, p.decode w payload = .ok q := by
  obtain ⟨driver, size, hlookup, hsize, hlimit, hread⟩ := hstores
  let reference : ExternalReference :=
    { version := REFERENCE_VERSION, storageId := id, objectId, encodedSize := size
      sha256 := hex (Sha256.digest bytes).toList, codecs
      pipelineFingerprint := p.fingerprint.toHex }
  obtain ⟨data, hdata⟩ := hreference reference
  refine ⟨(Payload.new data).withMetadata "encoding" (utf8 REFERENCE_MARKER),
    decode_eq_ok_iff.mpr (.inr ⟨reference, driver, bytes, text, ?_⟩)⟩
  have haccepted : p.acceptedFingerprints.any (fun f => p.fingerprint.toHex = f.toHex) = true :=
    List.any_eq_true.mpr ⟨_, p.accepted, by simp⟩
  have hwithin : ¬ p.limits.batchBytes < size := Nat.not_lt.mpr hlimit
  have hcodecs : ¬ (size.val = 0 ∧ codecs ≠ []) := by
    rintro ⟨hzero, hne⟩
    exact hne (hempty (List.length_eq_zero_iff.mp (hsize.symm.trans hzero)))
  exact
    { marked := by
        simp [Payload.isExternalReference, Payload.withMetadata, Payload.new, insertMetadata]
      parsed := hdata
      valid := by
        simp only [ExternalReference.validate, reference, ne_eq, not_true_eq_false, false_or,
          if_neg hcodecs, if_neg hwithin, isSha256Text_hex, haccepted,
          Bool.not_true, Bool.false_eq_true, if_false]
      storage := hlookup
      read := hread
      complete := hsize.symm
      checked := by simp [ExternalReference.matchesBytes, reference]
      undone := hundo
      text := htext }

theorem deliversNoEnvelope_iff
    (hreference : ∀ reference, ∃ data, PayloadJson.referenceFromSlice data = some reference) :
    p.DeliversNoEnvelope w ↔ ¬ p.StoresEnvelope w := by
  constructor
  · rintro h ⟨id, objectId, bytes, codecs, text, q, hstores, hempty, hundo, htext, hq⟩
    obtain ⟨payload, hdecode⟩ := exists_decode hreference hstores hempty hundo htext
    simp [h.1 payload q hdecode] at hq
  · intro h
    have hone : ∀ payload q, p.decode w payload = .ok q → q.claimsExternalReference = false := by
      intro payload q hdecode
      by_contra hq
      exact h (storesEnvelope_of_decode hdecode (by simpa using hq))
    refine ⟨hone, fun payloads qs hbatch q hq => ?_⟩
    obtain ⟨payload, _, hdecode⟩ := decodeBatch_mem hbatch hq
    exact hone payload q hdecode

/-- A call of a writer, with the object ids that it draws. -/
inductive Write
  | encode (objectId : ObjectId) (payload : Payload)
  | encodeBatch (objectIds : Nat → ObjectId) (payloads : List Payload)

def Write.objectIds : Write → List ObjectId
  | encode objectId _ => [objectId]
  | encodeBatch objectIds payloads => (List.range payloads.length).map objectIds

/-- What was given to a call that succeeded, with what the call returned for it, and the state of
the storages after the call. -/
def write (p : PayloadPipeline σ) (w : σ) : Write → List (Payload × Payload) × σ
  | .encode objectId payload =>
    match p.encode objectId w payload with
    | (.ok stored, w) => ([(payload, stored)], w)
    | (.error _, w) => ([], w)
  | .encodeBatch objectIds payloads =>
    match p.encodeBatch objectIds w payloads with
    | (.ok stored, w) => (payloads.zip stored, w)
    | (.error _, w) => ([], w)

/-- A history of calls, whether they succeed or fail. -/
def writes (p : PayloadPipeline σ) : σ → List Write → List (Payload × Payload) × σ
  | w, [] => ([], w)
  | w, call :: calls =>
    ((p.write w call).1 ++ (p.writes (p.write w call).2 calls).1,
      (p.writes (p.write w call).2 calls).2)

/-- The payload was stored, in an object of one of these ids, and the other one refers to it. -/
def Recorded (p : PayloadPipeline σ) (w : σ) (objectIds : List ObjectId)
    (payload stored : Payload) : Prop :=
  ∃ objectId ∈ objectIds, ∃ prepared, p.prepare payload = .ok prepared ∧
    p.HoldsAt w objectId prepared stored

/-- The reader has room for the whole chain of codecs. -/
def Readable (p : PayloadPipeline σ) (payload : Payload) : Prop :=
  ∀ bytes, PayloadJson.toVec payload = .ok bytes →
    Fits p.limits.decodedPayloadBytes p.codecs bytes

theorem zip_recorded {objectIds : Nat → ObjectId} {payloads stored : List Payload}
    {prepared : List PreparedPayload} {n : Nat}
    (hprepare : List.Forall₂ (fun payload pr => p.prepare payload = .ok pr) payloads prepared)
    (hheld : List.Forall₂ (fun pr s => ∃ k < n, p.HoldsAt w (objectIds (0 + k)) pr s)
      prepared stored) {pair : Payload × Payload} (hpair : pair ∈ payloads.zip stored) :
    p.Recorded w ((List.range n).map objectIds) pair.1 pair.2 := by
  induction hprepare generalizing stored with
  | nil => simp at hpair
  | cons hhead _ ih =>
    cases hheld with
    | cons hfirst hrest =>
      rcases List.mem_cons.mp hpair with rfl | hpair
      · obtain ⟨k, hk, hheld⟩ := hfirst
        rw [Nat.zero_add] at hheld
        exact ⟨_, List.mem_map_of_mem (List.mem_range.mpr hk), _, hhead, hheld⟩
      · exact ih hrest hpair

theorem decode_recorded (hjson : PayloadJson.Lawful) (hlawful : ∀ c ∈ p.codecs, c.Lawful)
    {objectIds : List ObjectId} {stored : Payload}
    (h : p.Recorded w objectIds payload stored) :
    (p.Readable payload → p.decode w stored = .ok payload) ∧
      ((∀ c ∈ p.codecs, c.Exact) → p.decode w stored = .ok q →
        q = payload ∧ p.Readable payload) := by
  obtain ⟨objectId, _, prepared, hprepare, driver, reference, data, hlookup, hread, hnew, hdata,
    rfl⟩ := h
  obtain ⟨bytes, htext, _, happly, hout, _⟩ := prepare_ok hprepare
  obtain ⟨_, hdecode⟩ := decode_stored (r := p) hjson hdata w
  have hstored := readStored_new hlookup hread hnew
  rw [hdecode]
  refine ⟨fun hreadable => ?_, fun hexact hr => ?_⟩
  · exact resolve_of_fits hjson p.accepted (fun _ hc => hc) hlawful hout htext happly hnew hstored
      (hreadable bytes htext)
  · obtain ⟨rfl, hfits⟩ := resolve_exact hjson p.accepted (fun _ hc => hc) hexact hout htext happly
      hnew hstored hr
    refine ⟨rfl, fun bytes' htext' => ?_⟩
    obtain rfl := Except.ok.inj (htext.symm.trans htext')
    exact hfits

section

variable (hdriver : ∀ driver, p.storages.lookup p.defaultStorage = some driver →
  driver.Lawful ∧ driver.Keeps)

include hdriver

theorem write_keeps {call : Write} {driver : StorageDriver σ} {objectId : ObjectId}
    {stored : Bytes} {maxBytes : Usize}
    (hlookup : p.storages.lookup p.defaultStorage = some driver)
    (hfresh : objectId ∉ call.objectIds)
    (hread : driver.read w (.v1For objectId) maxBytes = .ok stored) :
    driver.read (p.write w call).2 (.v1For objectId) maxBytes = .ok stored := by
  have hkeeps := (hdriver driver hlookup).2
  cases call with
  | encode id payload =>
    have hne : ObjectKey.v1For id ≠ .v1For objectId :=
      fun h => hfresh (by simp [Write.objectIds, ObjectKey.v1For_injective h])
    have hafter : driver.read (p.encode id w payload).2 (.v1For objectId) maxBytes =
        .ok stored := by
      unfold encode
      cases p.prepare payload with
      | error e => exact hread
      | ok prepared =>
        simp only [storePrepared_snd hlookup]
        exact hkeeps _ _ _ _ _ _ _ _ hne rfl hread
    rw [write]
    cases h : p.encode id w payload with
    | mk out w' =>
      rw [h] at hafter
      cases out <;> exact hafter
  | encodeBatch ids payloads =>
    have hafter : driver.read (p.encodeBatch ids w payloads).2 (.v1For objectId) maxBytes =
        .ok stored := by
      unfold encodeBatch
      cases hb : p.prepareBatch payloads 0 0 with
      | error e => exact hread
      | ok prepared =>
        refine storeBatch_keeps hlookup hkeeps (fun k hk heq => hfresh ?_) hread
        rw [Nat.zero_add] at heq
        rw [← (prepareBatch_ok hb).1.length_eq] at hk
        exact List.mem_map.mpr ⟨k, List.mem_range.mpr hk, heq⟩
    rw [write]
    cases h : p.encodeBatch ids w payloads with
    | mk out w' =>
      rw [h] at hafter
      cases out <;> exact hafter

theorem writes_keep {calls : List Write} {driver : StorageDriver σ} {objectId : ObjectId}
    {stored : Bytes} {maxBytes : Usize}
    (hlookup : p.storages.lookup p.defaultStorage = some driver)
    (hfresh : objectId ∉ calls.flatMap Write.objectIds)
    (hread : driver.read w (.v1For objectId) maxBytes = .ok stored) :
    driver.read (p.writes w calls).2 (.v1For objectId) maxBytes = .ok stored := by
  induction calls generalizing w with
  | nil => exact hread
  | cons call calls ih =>
    rw [List.flatMap_cons, List.mem_append, not_or] at hfresh
    exact ih hfresh.2 (write_keeps hdriver hlookup hfresh.1 hread)

theorem write_recorded {call : Write} (hfresh : call.objectIds.Nodup) {pair : Payload × Payload}
    (hpair : pair ∈ (p.write w call).1) :
    p.Recorded (p.write w call).2 call.objectIds pair.1 pair.2 := by
  cases call with
  | encode id payload =>
    rw [write] at hpair ⊢
    cases h : p.encode id w payload with
    | mk out w' =>
      cases out with
      | error e => simp [h] at hpair
      | ok s =>
        simp only [h, List.mem_singleton] at hpair ⊢
        subst hpair
        obtain ⟨prepared, hprepare, hstore⟩ := encode_ok h
        exact ⟨id, by simp [Write.objectIds], prepared, hprepare,
          storePrepared_holds (fun driver hl => (hdriver driver hl).1) hstore⟩
  | encodeBatch ids payloads =>
    rw [write] at hpair ⊢
    cases h : p.encodeBatch ids w payloads with
    | mk out w' =>
      cases out with
      | error e => simp [h] at hpair
      | ok stored =>
        simp only [h] at hpair ⊢
        rw [encodeBatch] at h
        cases hb : p.prepareBatch payloads 0 0 with
        | error e => simp [hb] at h
        | ok prepared =>
          simp only [hb] at h
          have hprepare := (prepareBatch_ok hb).1
          have hdistinct : ∀ j k, j < k → k < prepared.length → ids (0 + j) ≠ ids (0 + k) := by
            intro j k hjk hk heq
            rw [← hprepare.length_eq] at hk
            rw [Nat.zero_add, Nat.zero_add] at heq
            have hinj := List.inj_on_of_nodup_map hfresh
            exact Nat.ne_of_lt hjk (hinj (List.mem_range.mpr (Nat.lt_trans hjk hk))
              (List.mem_range.mpr hk) heq)
          have hheld := storeBatch_ok hdriver hdistinct h
          rw [← hprepare.length_eq] at hheld
          exact zip_recorded hprepare hheld hpair

/-- What a history of calls has returned still refers to what was given. -/
theorem writes_recorded {calls : List Write} (hfresh : (calls.flatMap Write.objectIds).Nodup)
    {pair : Payload × Payload} (hpair : pair ∈ (p.writes w calls).1) :
    p.Recorded (p.writes w calls).2 (calls.flatMap Write.objectIds) pair.1 pair.2 := by
  induction calls generalizing w with
  | nil => cases hpair
  | cons call calls ih =>
    rw [List.flatMap_cons] at hfresh ⊢
    obtain ⟨hcall, hcalls, hapart⟩ := List.nodup_append.mp hfresh
    rcases List.mem_append.mp hpair with hpair | hpair
    · obtain ⟨objectId, hid, prepared, hprepare, driver, reference, data, hlookup, hread, hrest⟩ :=
        write_recorded hdriver hcall hpair
      have hother : objectId ∉ calls.flatMap Write.objectIds :=
        fun hmem => hapart objectId hid objectId hmem rfl
      have hkept : ∀ maxBytes : Usize, prepared.bytes.length ≤ maxBytes.val →
          driver.read (p.writes (p.write w call).2 calls).2 (.v1For objectId) maxBytes =
            .ok prepared.bytes :=
        fun maxBytes hle => writes_keep hdriver hlookup hother (hread maxBytes hle)
      exact ⟨objectId, List.mem_append_left _ hid, prepared, hprepare, driver, reference, data,
        hlookup, hkept, hrest⟩
    · obtain ⟨objectId, hid, hheld⟩ := ih hcalls hpair
      exact ⟨objectId, List.mem_append_right _ hid, hheld⟩

end

end

end PayloadPipeline

/-- Exactly where no storage holds the written form of an envelope, no decoding delivers one. In a
history of writes, what was returned delivers none exactly if none was given that is readable. -/
theorem residual_envelopes_iff [Sha256] [PayloadJson] {σ : Type} (p : PayloadPipeline σ)
    (hjson : PayloadJson.Lawful)
    (hreference : ∀ reference, ∃ data, PayloadJson.referenceToVec reference = .ok data) :
    (∀ w, p.DeliversNoEnvelope w ↔ ¬ p.StoresEnvelope w) ∧
    ((∀ c ∈ p.codecs, c.Lawful) →
      (∀ driver, p.storages.lookup p.defaultStorage = some driver → driver.Lawful ∧ driver.Keeps) →
      ∀ (w : σ) (calls : List PayloadPipeline.Write),
        (calls.flatMap PayloadPipeline.Write.objectIds).Nodup →
        ((∀ c ∈ p.codecs, c.Exact) ∨ ∀ pair ∈ (p.writes w calls).1, p.Readable pair.1) →
        ((∀ pair ∈ (p.writes w calls).1, ∀ q, p.decode (p.writes w calls).2 pair.2 = .ok q →
            q.claimsExternalReference = false) ↔
          ∀ pair ∈ (p.writes w calls).1, p.Readable pair.1 →
            pair.1.claimsExternalReference = false)) := by
  refine ⟨fun w => PayloadPipeline.deliversNoEnvelope_iff fun reference => ?_,
    fun hlawful hdriver w calls hfresh hcodecs => ⟨?_, ?_⟩⟩
  · obtain ⟨data, hdata⟩ := hreference reference
    exact ⟨data, hjson.reference _ _ hdata⟩
  · intro h pair hpair hreadable
    have hrecorded := PayloadPipeline.writes_recorded hdriver hfresh hpair
    exact h pair hpair _
      ((PayloadPipeline.decode_recorded (q := pair.1) hjson hlawful hrecorded).1 hreadable)
  · intro h pair hpair q hdecode
    obtain ⟨hread, hback⟩ := PayloadPipeline.decode_recorded (q := q) hjson hlawful
      (PayloadPipeline.writes_recorded hdriver hfresh hpair)
    rcases hcodecs with hexact | hreadable
    · obtain ⟨rfl, hreadable⟩ := hback hexact hdecode
      exact h pair hpair hreadable
    · have hreadable := hreadable pair hpair
      obtain rfl := Except.ok.inj ((hread hreadable).symm.trans hdecode)
      exact h pair hpair hreadable

namespace Sample

open Delimited

/-- A payload that was encoded once already, up to its reference. -/
def envelope : Payload := (Payload.new [7]).withMetadata "encoding" (utf8 REFERENCE_MARKER)

def envelopeText : Bytes :=
  utf8 "\x7b\"data\":[7],\"metadata\":\x7b\"encoding\":" ++
    utf8 "[97,103,101,110,116,105,118,101,46,105,111,47,101,120,116,101,114,110,97,108,45," ++
    utf8 "115,116,111,114,97,103,101,45,118,49]\x7d\x7d"

def plainFingerprint : PipelineFingerprint :=
  ⟨#v[186, 195, 30, 73, 214, 241, 62, 199, 222, 206, 5, 82, 150, 145, 150, 142, 221, 225, 187,
      116, 178, 12, 170, 108, 68, 62, 206, 126, 118, 75, 188, 111]⟩

def envelopeDigest : Vector UInt8 32 :=
  #v[104, 33, 189, 163, 150, 222, 112, 247, 73, 217, 10, 197, 226, 199, 1, 179, 37, 18, 195,
    163, 65, 208, 37, 6, 218, 8, 96, 209, 54, 67, 151, 246]

@[reducible] def plainSha256 : Sha256 where
  digest bytes :=
    if fingerprintPreimage localStorage [] = .ok bytes then plainFingerprint.bytes
    else if bytes = envelopeText then envelopeDigest
    else if bytes = payloadText then payloadDigest
    else Vector.replicate 32 0

def envelopeReference : ExternalReference :=
  { version := 1, storageId := localStorage, objectId, encodedSize := 154
    sha256 := "6821bda396de70f749d90ac5e2c701b32512c3a341d02506da0860d1364397f6", codecs := []
    pipelineFingerprint := "bac31e49d6f13ec7dece05529691968edde1bb74b20caa6c443ece7e764bbc6f" }

def envelopeReferenceText : Bytes :=
  utf8 "\x7b\"version\":1,\"storage_id\":\"local\",\"object_id\":" ++
    utf8 "\"0102030405064708890a0b0c0d0e0f10\",\"encoded_size\":154,\"sha256\":" ++
    utf8 "\"6821bda396de70f749d90ac5e2c701b32512c3a341d02506da0860d1364397f6\"," ++
    utf8 "\"codecs\":[],\"pipeline_fingerprint\":" ++
    utf8 "\"bac31e49d6f13ec7dece05529691968edde1bb74b20caa6c443ece7e764bbc6f\"\x7d"

def plainReference : ExternalReference :=
  { version := 1, storageId := localStorage, objectId := secondId, encodedSize := 26
    sha256 := "63135d744ef902013df79daebcc5c4349ffa0f6abbb1752676ec6382d362e65b", codecs := []
    pipelineFingerprint := "bac31e49d6f13ec7dece05529691968edde1bb74b20caa6c443ece7e764bbc6f" }

def plainReferenceText : Bytes :=
  utf8 "\x7b\"version\":1,\"storage_id\":\"local\",\"object_id\":" ++
    utf8 "\"100f0e0d0c0b0a890847060504030201\",\"encoded_size\":26,\"sha256\":" ++
    utf8 "\"63135d744ef902013df79daebcc5c4349ffa0f6abbb1752676ec6382d362e65b\"," ++
    utf8 "\"codecs\":[],\"pipeline_fingerprint\":" ++
    utf8 "\"bac31e49d6f13ec7dece05529691968edde1bb74b20caa6c443ece7e764bbc6f\"\x7d"

def unaryFormat : Format UInt8 Nat where
  write n := List.replicate n 1 ++ [0]
  read word := some ((word.takeWhile (· == 1)).length, (word.dropWhile (· == 1)).drop 1)
  read_write n rest := by
    have htake : (List.replicate n (1 : UInt8) ++ [0] ++ rest).takeWhile (· == 1) =
        List.replicate n 1 := by
      rw [List.append_assoc, List.takeWhile_append_of_pos (by simp)]
      simp
    have hdrop : (List.replicate n (1 : UInt8) ++ [0] ++ rest).dropWhile (· == 1) = 0 :: rest := by
      rw [List.append_assoc, List.dropWhile_append_of_pos (by simp)]
      simp
    rw [htake, hdrop]
    simp

theorem unaryFormat_closes : unaryFormat.Closes [2] := by
  intro n rest
  cases n <;> simp [unaryFormat, List.replicate_succ, List.dropPrefix?]

def numbersFormat : Format UInt8 (List Nat) := unaryFormat.many [2] unaryFormat_closes

theorem numbersFormat_closes : numbersFormat.Closes [3] := by
  intro ns rest
  cases ns with
  | nil => simp [numbersFormat, Format.many, List.dropPrefix?]
  | cons n ns =>
    cases n <;> simp [numbersFormat, Format.many, unaryFormat, List.replicate_succ,
      List.dropPrefix?]

def membersFormat : Format UInt8 (List (List Nat)) := numbersFormat.many [3] numbersFormat_closes

def charCodes (s : String) : List Nat := s.toList.map Char.toNat

def ofCharCodes (codes : List Nat) : String := String.ofList (codes.map Char.ofNat)

@[simp] theorem ofCharCodes_charCodes (s : String) : ofCharCodes (charCodes s) = s := by
  simp [ofCharCodes, charCodes, Function.comp_def]

/-- The members of a reference, each as a list of numbers. -/
def referenceMembers (r : ExternalReference) : List (List Nat) :=
  [r.version] :: charCodes r.storageId.text :: r.objectId.bytes.toList.map UInt8.toNat ::
    [r.encodedSize.val] :: charCodes r.sha256 :: charCodes r.pipelineFingerprint ::
    r.codecs.map fun used => used.version.val :: charCodes used.id.text

def codecUseOf : List Nat → Option CodecUse
  | version :: id =>
    if hid : isStableIdentity (ofCharCodes id) = true then
      if hversion : version < 65536 then some ⟨⟨ofCharCodes id, hid⟩, ⟨version, hversion⟩⟩ else none
    else none
  | [] => none

def referenceOf : List (List Nat) → Option ExternalReference
  | [version] :: storage :: object :: [size] :: sha256 :: fingerprint :: codecs =>
    if hs : isStableIdentity (ofCharCodes storage) = true then
      if ho : (object.map UInt8.ofNat).toArray.size = 16 then
        if hsize : size ≤ 18446744073709551615 then
          (codecs.mapM codecUseOf).map fun codecs =>
            { version, storageId := ⟨ofCharCodes storage, hs⟩
              objectId := ⟨⟨(object.map UInt8.ofNat).toArray, ho⟩⟩, encodedSize := ⟨size, hsize⟩
              sha256 := ofCharCodes sha256, codecs
              pipelineFingerprint := ofCharCodes fingerprint }
        else none
      else none
    else none
  | _ => none

theorem mapM_codecUseOf (codecs : List CodecUse) :
    (codecs.map fun used => used.version.val :: charCodes used.id.text).mapM codecUseOf =
      some codecs := by
  induction codecs with
  | nil => rfl
  | cons used codecs ih => simp [List.mapM_cons, ih, codecUseOf, used.id.valid]

theorem referenceOf_members (r : ExternalReference) :
    referenceOf (referenceMembers r) = some r := by
  have hbytes : (r.objectId.bytes.toList.map UInt8.toNat).map UInt8.ofNat =
      r.objectId.bytes.toList := by
    simp [Function.comp_def]
  have hvector : (⟨r.objectId.bytes.toList.toArray, by simp⟩ : Vector UInt8 16) =
      r.objectId.bytes := by
    cases r.objectId.bytes
    rfl
  simp only [referenceMembers, referenceOf, ofCharCodes_charCodes, r.storageId.valid, dite_true,
    hbytes, mapM_codecUseOf]
  simp [r.encodedSize.le_cap, hvector]

/-- The JSON texts of two payloads and of the references to them; other references have some text
of their own. -/
@[reducible] def envelopeJson : PayloadJson where
  toVec p :=
    if p = envelope then .ok envelopeText else if p = payload then .ok payloadText
    else .error "unsupported"
  fromSlice bytes :=
    if bytes = envelopeText then some envelope else if bytes = payloadText then some payload
    else none
  referenceToVec r :=
    if r = envelopeReference then .ok envelopeReferenceText
    else if r = plainReference then .ok plainReferenceText
    else .ok (0 :: membersFormat.write (referenceMembers r))
  referenceFromSlice bytes :=
    if bytes = envelopeReferenceText then some envelopeReference
    else if bytes = plainReferenceText then some plainReference
    else (membersFormat.read (bytes.drop 1)).bind fun members => referenceOf members.1

theorem envelopeJson_writes (reference : ExternalReference) :
    ∃ data, @PayloadJson.referenceToVec envelopeJson reference = .ok data := by
  simp only [PayloadJson.referenceToVec]
  split
  · exact ⟨_, rfl⟩
  · split <;> exact ⟨_, rfl⟩

theorem envelopeJson_lawful : @PayloadJson.Lawful envelopeJson := by
  have htexts : payloadText ≠ envelopeText := by decide +kernel
  have hreferences : plainReferenceText ≠ envelopeReferenceText := by decide +kernel
  have hfirst : envelopeReferenceText.head? = some 123 ∧ plainReferenceText.head? = some 123 := by
    decide +kernel
  refine @PayloadJson.Lawful.mk envelopeJson ?_ ?_
  · intro p bytes h
    simp only [PayloadJson.toVec] at h
    split at h
    · next hp => simp [PayloadJson.fromSlice, hp, ← Except.ok.inj h]
    · split at h
      · next hp => simp [PayloadJson.fromSlice, hp, ← Except.ok.inj h, htexts]
      · cases h
  · intro r bytes h
    simp only [PayloadJson.referenceToVec] at h
    split at h
    · next hr => simp [PayloadJson.referenceFromSlice, hr, ← Except.ok.inj h]
    · split at h
      · next hr => simp [PayloadJson.referenceFromSlice, hr, ← Except.ok.inj h, hreferences]
      · obtain rfl := Except.ok.inj h
        have hother (text : Bytes) (htext : text.head? = some 123) :
            0 :: membersFormat.write (referenceMembers r) ≠ text := by
          rintro rfl
          simp at htext
        have hread := membersFormat.read_write (referenceMembers r) []
        rw [List.append_nil] at hread
        simp only [PayloadJson.referenceFromSlice, if_neg (hother _ hfirst.1),
          if_neg (hother _ hfirst.2), List.drop_one, List.tail_cons, hread, Option.bind_some,
          referenceOf_members]

def plainPipeline : @PayloadPipeline plainSha256 (List (ObjectKey × Bytes)) :=
  let _ := plainSha256
  { storages := [(localStorage, inMemoryStorage)], defaultStorage := localStorage, codecs := []
    limits := default, fingerprint := plainFingerprint
    acceptedFingerprints := [plainFingerprint], registered := localStorage_registered
    owned := ⟨_, rfl⟩, calculated := by decide +kernel, accepted := by decide }

theorem referenceFromSlice_stored :
    @PayloadJson.referenceFromSlice envelopeJson (stored envelopeReferenceText).data =
      some envelopeReference := by
  have hdata (text : Bytes) : (stored text).data = text := rfl
  simp only [hdata, PayloadJson.referenceFromSlice, if_true]

theorem envelopeText_length : envelopeText.length = 154 := by decide +kernel

theorem digest_envelopeText : @Sha256.digest plainSha256 envelopeText = envelopeDigest := by
  have hne : fingerprintPreimage localStorage [] ≠ .ok envelopeText := by decide +kernel
  simp only [Sha256.digest, if_neg hne, if_true]

theorem plainPipeline_refers :
    @PayloadPipeline.Refers plainSha256 _ envelopeJson plainPipeline
      [(.v1For objectId, envelopeText)] (stored envelopeReferenceText) envelopeReference
      inMemoryStorage envelopeText envelopeText envelope := by
  let _ := plainSha256
  let _ := envelopeJson
  have hsize : envelopeReference.encodedSize.val = 154 := rfl
  have hread : inMemoryStorage.read [(.v1For objectId, envelopeText)] (.v1For objectId)
      envelopeReference.encodedSize = .ok envelopeText := by
    simp [inMemoryStorage, hsize, envelopeText_length]
  have hchecked : envelopeReference.matchesBytes envelopeText = true := by
    simp only [ExternalReference.matchesBytes, digest_envelopeText]
    decide +kernel
  exact
    { marked := by
        simp [stored, Payload.isExternalReference, Payload.withMetadata, Payload.new,
          insertMetadata]
      parsed := referenceFromSlice_stored
      valid := by decide +kernel
      storage := by simp [plainPipeline, envelopeReference]
      read := hread
      complete := envelopeText_length
      checked := hchecked
      undone := rfl
      text := if_pos rfl }

end Sample

section

open Sample

/-- A history that stores an ordinary payload, and then an envelope in a batch. -/
def Sample.envelopeWrites : List PayloadPipeline.Write :=
  [.encode secondId payload, .encodeBatch (fun _ => objectId) [envelope]]

theorem residual_envelopes_sample :
    let _ := plainSha256
    let _ := envelopeJson
    (plainPipeline.writes [] envelopeWrites).1 =
        [(payload, stored plainReferenceText), (envelope, stored envelopeReferenceText)] ∧
      plainPipeline.DeliversNoEnvelope [] ∧
      ¬ ∀ pair ∈ (plainPipeline.writes [] envelopeWrites).1, ∀ q,
        plainPipeline.decode (plainPipeline.writes [] envelopeWrites).2 pair.2 = .ok q →
          q.claimsExternalReference = false := by
  let _ := plainSha256
  let _ := envelopeJson
  have hwrites : (plainPipeline.writes [] envelopeWrites).1 =
      [(payload, stored plainReferenceText), (envelope, stored envelopeReferenceText)] := by
    decide +kernel
  have hlookup {id : StorageId} {driver : StorageDriver (List (ObjectKey × Bytes))}
      (h : plainPipeline.storages.lookup id = some driver) : inMemoryStorage = driver := by
    have h : [(localStorage, inMemoryStorage)].lookup id = some driver := h
    rw [List.lookup_cons] at h
    cases hid : id == localStorage with
    | false => simp [hid] at h
    | true => simpa [hid] using h
  obtain ⟨hstate, hruns⟩ :=
    residual_envelopes_iff plainPipeline envelopeJson_lawful envelopeJson_writes
  refine ⟨hwrites, (hstate []).mpr ?_, fun h => ?_⟩
  · rintro ⟨id, objectId, bytes, codecs, text, q, ⟨driver, size, hdriver, _, _, hread⟩, _⟩
    obtain rfl := hlookup hdriver
    cases hread
  · have hiff := hruns nofun (fun driver hdriver => ?_) [] envelopeWrites (by decide) (.inl nofun)
    · have hclaims := hiff.mp h (envelope, stored envelopeReferenceText) (by rw [hwrites]; simp)
        fun bytes _ => { inputs := nofun, output := fun hne => absurd rfl hne }
      exact absurd hclaims (by decide +kernel)
    · obtain rfl := hlookup hdriver
      exact ⟨inMemoryStorage_lawful, inMemoryStorage_keeps⟩

end

/-- An envelope that was stored as any other payload is handed out as it was written. -/
theorem envelope_delivered :
    ¬ ∀ (_ : Sha256) (_ : PayloadJson) (σ : Type) (p : PayloadPipeline σ) (w : σ)
      (payload q : Payload), p.decode w payload = .ok q → q.claimsExternalReference = false := by
  intro claim
  let _ := Sample.plainSha256
  let _ := Sample.envelopeJson
  have hclaims : Sample.envelope.claimsExternalReference = true := by decide +kernel
  have hq := claim Sample.plainSha256 Sample.envelopeJson _ Sample.plainPipeline
    [(.v1For Sample.objectId, Sample.envelopeText)] (Sample.stored Sample.envelopeReferenceText)
    Sample.envelope
    (PayloadPipeline.decode_eq_ok_iff.mpr (.inr ⟨_, _, _, _, Sample.plainPipeline_refers⟩))
  simp [hclaims] at hq

end Agentive
