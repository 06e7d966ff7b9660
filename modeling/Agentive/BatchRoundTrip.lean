import Agentive.ObjectPath
import Agentive.StoredPayloads
import Mathlib.Data.List.Forall2

/-! A batch that was written is read back whole. Reader and writer keep the same two totals, of
what is stored and of what it is decoded to. -/

namespace Agentive

open StageChain

/-- Objects stay readable while others are created. -/
def StorageDriver.Keeps {σ : Type} (driver : StorageDriver σ) : Prop :=
  ∀ w w' key key' bytes stored maxBytes result, key' ≠ key →
    driver.createImmutable w key' bytes = (result, w') →
    driver.read w key maxBytes = .ok stored → driver.read w' key maxBytes = .ok stored

theorem inMemoryStorage_keeps : inMemoryStorage.Keeps := by
  intro w w' key key' bytes stored maxBytes result hne hcreate hread
  have hlookup : w'.lookup key = w.lookup key := by
    cases hl : w.lookup key' with
    | none =>
      have hw : (key', bytes) :: w = w' := by
        simp only [inMemoryStorage, hl, Prod.mk.injEq] at hcreate
        exact hcreate.2
      have hbeq : (key == key') = false := by simpa using hne.symm
      rw [← hw, List.lookup_cons, hbeq]
    | some existing =>
      have hw : w = w' := by
        by_cases he : existing = bytes
        · simp only [inMemoryStorage, hl, he, if_true, Prod.mk.injEq] at hcreate
          exact hcreate.2
        · simp only [inMemoryStorage, hl, he, if_false, Prod.mk.injEq] at hcreate
          exact hcreate.2
      rw [hw]
  simpa only [inMemoryStorage, hlookup] using hread

/-- What a codec applies is not empty, and it is shorter than its input. -/
def PayloadCodec.Shrinks (codec : PayloadCodec) : Prop :=
  ∀ a b, codec.encode a = .ok (.applied b) → b ≠ [] ∧ b.length < a.length

theorem codecInputs_length_le {codecs : List PayloadCodec} (hs : ∀ c ∈ codecs, c.Shrinks)
    (bytes : Bytes) : ∀ input ∈ codecInputs codecs bytes, input.length ≤ bytes.length := by
  induction codecs generalizing bytes with
  | nil => simp [codecInputs]
  | cons c codecs ih =>
    have hrest (bytes : Bytes) := ih (fun c' hc' => hs c' (List.mem_cons_of_mem _ hc')) bytes
    intro input hi
    rw [codecInputs] at hi
    split at hi
    · next transformed he =>
      have hshort := (hs c List.mem_cons_self _ _ he).2
      rcases List.mem_cons.mp hi with rfl | hi
      · exact Nat.le_refl _
      · have hle := hrest transformed input hi
        omega
    · exact hrest bytes input hi

theorem codecOutput_ne_nil {codecs : List PayloadCodec} (hs : ∀ c ∈ codecs, c.Shrinks)
    {bytes : Bytes} (h : codecInputs codecs bytes ≠ [] ∨ bytes ≠ []) :
    codecOutput codecs bytes ≠ [] := by
  induction codecs generalizing bytes with
  | nil => simpa [codecInputs, codecOutput] using h
  | cons c codecs ih =>
    have hrest : ∀ c ∈ codecs, c.Shrinks := fun c' hc' => hs c' (List.mem_cons_of_mem _ hc')
    rw [codecOutput]
    rw [codecInputs] at h
    split
    · next transformed he =>
      exact ih hrest (.inr (hs c List.mem_cons_self _ _ he).1)
    · next hnot =>
      split at h
      · next transformed he => exact absurd he (hnot transformed)
      · exact ih hrest h

theorem fits_of_shrinks {limit : Usize} {codecs : List PayloadCodec} {bytes : Bytes}
    (hs : ∀ c ∈ codecs, c.Shrinks) (hle : bytes.length ≤ limit.val) : Fits limit codecs bytes :=
  { inputs := fun input hi => Nat.le_trans (codecInputs_length_le hs bytes input hi) hle
    output := fun hne => codecOutput_ne_nil hs (.inl hne) }

namespace PayloadPipeline

section

variable [Sha256] [PayloadJson] {σ : Type} {p : PayloadPipeline σ}

/-- The sizes are admitted one after another. -/
def Admits (p : PayloadPipeline σ) (total : Usize) (sizes : List Nat) : Prop :=
  (sizes.foldlM p.limits.batchBytes.addWithin total).isSome = true

omit [PayloadJson] in
theorem admits_cons {total : Usize} {size : Nat} {sizes : List Nat} :
    p.Admits total (size :: sizes) ↔
      ∃ total', p.limits.batchBytes.addWithin total size = some total' ∧ p.Admits total' sizes := by
  rw [Admits, List.foldlM_cons]
  cases ha : p.limits.batchBytes.addWithin total size with
  | none => simp
  | some total' => simp [Admits]

theorem prepareBatch_ok {payloads : List Payload} {prepared : List PreparedPayload}
    {decodedTotal storedTotal : Usize}
    (h : p.prepareBatch payloads decodedTotal storedTotal = .ok prepared) :
    List.Forall₂ (fun payload pr => p.prepare payload = .ok pr) payloads prepared ∧
      p.Admits decodedTotal (prepared.map (·.decodedSize)) ∧
      p.Admits storedTotal (prepared.map (·.bytes.length)) := by
  induction payloads generalizing prepared decodedTotal storedTotal with
  | nil =>
    obtain rfl := Except.ok.inj h
    exact ⟨.nil, rfl, rfl⟩
  | cons payload payloads ih =>
    rw [prepareBatch] at h
    cases hp : p.prepare payload with
    | error e => simp [hp] at h
    | ok pr =>
      simp only [hp] at h
      cases hd : p.limits.batchBytes.addWithin decodedTotal pr.decodedSize with
      | none => simp [hd] at h
      | some decodedTotal' =>
        simp only [hd] at h
        cases hs : p.limits.batchBytes.addWithin storedTotal pr.bytes.length with
        | none => simp [hs] at h
        | some storedTotal' =>
          simp only [hs] at h
          cases hr : p.prepareBatch payloads decodedTotal' storedTotal' with
          | error e => simp [hr] at h
          | ok rest =>
            simp only [hr] at h
            obtain rfl := Except.ok.inj h
            obtain ⟨hall, hdecoded, hstored⟩ := ih hr
            refine ⟨.cons hp hall, ?_, ?_⟩
            · exact admits_cons.mpr ⟨decodedTotal', hd, hdecoded⟩
            · exact admits_cons.mpr ⟨storedTotal', hs, hstored⟩

theorem admitBatch_ok {stored : List Payload} {sizes : List Nat} {total : Usize}
    (hsizes : List.Forall₂ (fun s size => declaredSize s = .ok size) stored sizes)
    (h : p.Admits total sizes) : p.admitBatch stored total = .ok () := by
  induction hsizes generalizing total with
  | nil => rfl
  | cons hsize _ ih =>
    obtain ⟨total', hroom, hrest⟩ := admits_cons.mp h
    rw [admitBatch, hsize]
    simp only [hroom]
    exact ih hrest

theorem decodeAll_ok {w : σ} {stored payloads : List Payload} {texts : List Bytes} {total : Usize}
    (hdecode : List.Forall₂ (fun s payload => p.decode w s = .ok payload) stored payloads)
    (htexts : List.Forall₂ (fun payload text => PayloadJson.toVec payload = .ok text)
      payloads texts)
    (h : p.Admits total (texts.map List.length)) : p.decodeAll w stored total = .ok payloads := by
  induction hdecode generalizing texts total with
  | nil => rfl
  | cons hhead _ ih =>
    cases htexts with
    | cons htext htexts =>
      rw [List.map_cons] at h
      obtain ⟨total', hroom, hrest⟩ := admits_cons.mp h
      rw [decodeAll, hhead]
      simp only [htext, hroom, ih htexts hrest]

/-- The storage holds the bytes of a prepared payload in this object, and the stored payload
refers to it. -/
def HoldsAt (p : PayloadPipeline σ) (w : σ) (objectId : ObjectId) (pr : PreparedPayload)
    (s : Payload) : Prop :=
  ∃ driver reference data, p.storages.lookup p.defaultStorage = some driver ∧
    (∀ maxBytes : Usize, pr.bytes.length ≤ maxBytes.val →
      driver.read w (.v1For objectId) maxBytes = .ok pr.bytes) ∧
    ExternalReference.new p.defaultStorage objectId pr.bytes pr.codecs p.fingerprint =
      .ok reference ∧
    PayloadJson.referenceToVec reference = .ok data ∧
    s = (Payload.new data).withMetadata "encoding" (utf8 REFERENCE_MARKER)

def Holds (p : PayloadPipeline σ) (w : σ) (pr : PreparedPayload) (s : Payload) : Prop :=
  ∃ objectId, p.HoldsAt w objectId pr s

theorem storePrepared_snd {objectId : ObjectId} {w : σ} {pr : PreparedPayload}
    {driver : StorageDriver σ} (hlookup : p.storages.lookup p.defaultStorage = some driver) :
    (p.storePrepared objectId w pr).2 =
      (driver.createImmutable w (.v1For objectId) pr.bytes).2 := by
  rw [storePrepared, hlookup]
  cases hc : driver.createImmutable w (.v1For objectId) pr.bytes with
  | mk created w' =>
    cases created with
    | error e => simp [hc]
    | ok =>
      simp only [hc]
      split
      · rfl
      · split <;> rfl

/-- The objects that are written later do not disturb an object that is there. -/
theorem storeBatch_keeps {objectIds : Nat → ObjectId} {i : Nat} {w : σ}
    {prepared : List PreparedPayload} {driver : StorageDriver σ}
    (hlookup : p.storages.lookup p.defaultStorage = some driver) (hkeeps : driver.Keeps)
    {objectId : ObjectId} {stored : Bytes} {maxBytes : Usize}
    (hfresh : ∀ k < prepared.length, objectIds (i + k) ≠ objectId)
    (hread : driver.read w (.v1For objectId) maxBytes = .ok stored) :
    driver.read (p.storeBatch objectIds i w prepared).2 (.v1For objectId) maxBytes =
      .ok stored := by
  induction prepared generalizing i w with
  | nil => exact hread
  | cons pr prepared ih =>
    have hne : ObjectKey.v1For (objectIds i) ≠ .v1For objectId := by
      have hhead := hfresh 0 (by simp)
      exact fun he => hhead (ObjectKey.v1For_injective he)
    have hrest : ∀ k < prepared.length, objectIds (i + 1 + k) ≠ objectId := by
      intro k hk
      have hnext := hfresh (k + 1) (by simp only [List.length_cons]; omega)
      rwa [show i + 1 + k = i + (k + 1) by omega]
    have hmid : driver.read (p.storePrepared (objectIds i) w pr).2 (.v1For objectId) maxBytes =
        .ok stored := by
      rw [storePrepared_snd hlookup]
      exact hkeeps _ _ _ _ _ _ _ _ hne rfl hread
    rw [storeBatch]
    cases hs : p.storePrepared (objectIds i) w pr with
    | mk out w₁ =>
      rw [hs] at hmid
      cases out with
      | error e => exact hmid
      | ok s =>
        have hlast := ih hrest hmid
        cases hb : p.storeBatch objectIds (i + 1) w₁ prepared with
        | mk rest w₂ =>
          rw [hb] at hlast
          cases rest <;> simpa only [hb] using hlast

theorem storePrepared_holds {objectId : ObjectId} {w w' : σ} {pr : PreparedPayload} {s : Payload}
    (hdriver : ∀ driver, p.storages.lookup p.defaultStorage = some driver → driver.Lawful)
    (h : p.storePrepared objectId w pr = (.ok s, w')) : p.HoldsAt w' objectId pr s := by
  obtain ⟨driver, reference, data, hlookup, hcreate, hnew, hdata, rfl⟩ := storePrepared_ok h
  exact ⟨driver, reference, data, hlookup, hdriver driver hlookup _ _ _ _ hcreate, hnew, hdata,
    rfl⟩

theorem storeBatch_ok {objectIds : Nat → ObjectId} {i : Nat} {w w' : σ}
    {prepared : List PreparedPayload} {stored : List Payload}
    (hdriver : ∀ driver, p.storages.lookup p.defaultStorage = some driver →
      driver.Lawful ∧ driver.Keeps)
    (hfresh : ∀ j k, j < k → k < prepared.length → objectIds (i + j) ≠ objectIds (i + k))
    (h : p.storeBatch objectIds i w prepared = (.ok stored, w')) :
    List.Forall₂ (fun pr s => ∃ k < prepared.length, p.HoldsAt w' (objectIds (i + k)) pr s)
      prepared stored := by
  induction prepared generalizing i w stored with
  | nil =>
    obtain ⟨hnil, _⟩ := Prod.mk.inj h
    obtain rfl := Except.ok.inj hnil
    exact .nil
  | cons pr prepared ih =>
    rw [storeBatch] at h
    cases hs : p.storePrepared (objectIds i) w pr with
    | mk out w₁ =>
      cases out with
      | error e => simp [hs] at h
      | ok s =>
        simp only [hs] at h
        cases hb : p.storeBatch objectIds (i + 1) w₁ prepared with
        | mk rest w₂ =>
          cases rest with
          | error e => simp [hb] at h
          | ok more =>
            simp only [hb, Prod.mk.injEq, Except.ok.injEq] at h
            obtain ⟨rfl, rfl⟩ := h
            have hshift (k : Nat) : i + 1 + k = i + (k + 1) := by omega
            have hother : ∀ k < prepared.length, objectIds (i + 1 + k) ≠ objectIds i := by
              intro k hk
              have hne := hfresh 0 (k + 1) (by omega) (by simp only [List.length_cons]; omega)
              rw [hshift]
              exact hne.symm
            have hrest : ∀ j k, j < k → k < prepared.length →
                objectIds (i + 1 + j) ≠ objectIds (i + 1 + k) := by
              intro j k hjk hk
              rw [hshift, hshift]
              exact hfresh (j + 1) (k + 1) (by omega) (by simp only [List.length_cons]; omega)
            obtain ⟨driver, reference, data, hlookup, hread, hnew, hdata, hrefers⟩ :=
              storePrepared_holds (fun driver hl => (hdriver driver hl).1) hs
            refine .cons ⟨0, by simp, driver, reference, data, hlookup, ?_, hnew, hdata, hrefers⟩ ?_
            · intro maxBytes hle
              have hlast :=
                storeBatch_keeps hlookup (hdriver driver hlookup).2 hother (hread maxBytes hle)
              rwa [hb] at hlast
            · refine (ih hrest hb).imp fun _ _ hheld => ?_
              obtain ⟨k, hk, hheld⟩ := hheld
              exact ⟨k + 1, by simp only [List.length_cons]; omega, hshift k ▸ hheld⟩

/-- A held payload is a reference that declares the stored size, and the reader returns what was
prepared. -/
theorem holds_ok {w : σ} {pr : PreparedPayload} {s payload : Payload} (hjson : PayloadJson.Lawful)
    (hcodecs : ∀ c ∈ p.codecs, c.Lawful ∧ c.Shrinks) (hprepare : p.prepare payload = .ok pr)
    (h : p.Holds w pr s) :
    s.isExternalReference = true ∧ declaredSize s = .ok pr.bytes.length ∧
      p.decode w s = .ok payload := by
  obtain ⟨objectId, driver, reference, data, hlookup, hread, hnew, hdata, rfl⟩ := h
  obtain ⟨bytes, htext, hsize, happly, hbatch, _⟩ := prepare_ok hprepare
  obtain ⟨hmarked, hdecode⟩ := decode_stored (r := p) hjson hdata w
  have hfits : Fits p.limits.decodedPayloadBytes p.codecs bytes :=
    fits_of_shrinks (fun c hc => (hcodecs c hc).2) hsize
  have hstored := readStored_new hlookup hread hnew
  have hslice := hjson.reference _ _ hdata
  have hencoded : reference.encodedSize.val = pr.bytes.length := by
    unfold ExternalReference.new at hnew
    split at hnew
    · rw [← Except.ok.inj hnew]
    · cases hnew
  refine ⟨hmarked, ?_, ?_⟩
  · rw [declaredSize, if_pos hmarked]
    simp only [Payload.withMetadata, Payload.new, hslice, hencoded]
  · rw [hdecode]
    exact resolve_of_fits hjson p.accepted (fun _ hc => hc) (fun c hc => (hcodecs c hc).1) hbatch
      htext happly hnew hstored hfits

theorem holds_all {w : σ} {payloads stored : List Payload} {prepared : List PreparedPayload}
    (hjson : PayloadJson.Lawful) (hcodecs : ∀ c ∈ p.codecs, c.Lawful ∧ c.Shrinks)
    (hprepare : List.Forall₂ (fun payload pr => p.prepare payload = .ok pr) payloads prepared)
    (hholds : List.Forall₂ (p.Holds w) prepared stored) :
    (∀ s ∈ stored, s.isExternalReference = true) ∧
      List.Forall₂ (fun s size => declaredSize s = .ok size) stored
        (prepared.map (·.bytes.length)) ∧
      List.Forall₂ (fun s payload => p.decode w s = .ok payload) stored payloads ∧
      ∃ texts, List.Forall₂ (fun payload text => PayloadJson.toVec payload = .ok text) payloads
          texts ∧ texts.map List.length = prepared.map (·.decodedSize) := by
  induction hprepare generalizing stored with
  | nil =>
    cases hholds
    exact ⟨by simp, .nil, .nil, [], .nil, rfl⟩
  | cons hhead _ ih =>
    cases hholds with
    | cons hhold hrest =>
      obtain ⟨hmarked, hsize, hdecode⟩ := holds_ok hjson hcodecs hhead hhold
      obtain ⟨text, htext, _, _, _, hlength⟩ := prepare_ok hhead
      obtain ⟨hmarkeds, hsizes, hdecodes, texts, htexts, hlengths⟩ := ih hrest
      refine ⟨List.forall_mem_cons.mpr ⟨hmarked, hmarkeds⟩, .cons hsize hsizes,
        .cons hdecode hdecodes, text :: texts, .cons htext htexts, ?_⟩
      rw [List.map_cons, List.map_cons, hlengths, hlength]

/-- A batch that was accepted is read back in its order, by the pipeline that wrote it. -/
theorem batch_round_trip {objectIds : Nat → ObjectId} {w w' : σ} {payloads stored : List Payload}
    (hjson : PayloadJson.Lawful) (hcodecs : ∀ c ∈ p.codecs, c.Lawful ∧ c.Shrinks)
    (hdriver : ∀ driver, p.storages.lookup p.defaultStorage = some driver →
      driver.Lawful ∧ driver.Keeps)
    (hfresh : ∀ j k, j < k → k < payloads.length → objectIds j ≠ objectIds k)
    (h : p.encodeBatch objectIds w payloads = (.ok stored, w')) :
    stored.length = payloads.length ∧ (∀ s ∈ stored, s.isExternalReference = true) ∧
      p.decodeBatch w' stored = .ok payloads := by
  rw [encodeBatch] at h
  cases hb : p.prepareBatch payloads 0 0 with
  | error e => simp [hb] at h
  | ok prepared =>
    simp only [hb] at h
    obtain ⟨hprepare, hdecoded, hstored⟩ := prepareBatch_ok hb
    have hfresh : ∀ j k, j < k → k < prepared.length → objectIds (0 + j) ≠ objectIds (0 + k) := by
      intro j k hjk hk
      rw [Nat.zero_add, Nat.zero_add]
      exact hfresh j k hjk (hprepare.length_eq ▸ hk)
    have hholds : List.Forall₂ (p.Holds w') prepared stored := by
      refine (storeBatch_ok hdriver hfresh h).imp fun _ _ hheld => ?_
      obtain ⟨_, _, hheld⟩ := hheld
      exact ⟨_, hheld⟩
    obtain ⟨hmarked, hsizes, hdecode, texts, htexts, hlengths⟩ :=
      holds_all hjson hcodecs hprepare hholds
    refine ⟨hdecode.length_eq, hmarked, ?_⟩
    rw [decodeBatch, admitBatch_ok hsizes hstored]
    exact decodeAll_ok hdecode htexts (hlengths ▸ hdecoded)

end

end PayloadPipeline

namespace Sample

/-- The beginning of a payload's JSON text. -/
def textStart : Bytes := utf8 "\x7b\"data\":"

def trim : PayloadCodec where
  descriptor := .ok (descriptorOf ⟨"trim", by decide⟩)
  encode a :=
    let rest := a.drop textStart.length
    if a = textStart ++ rest ∧ rest ≠ [] then .ok (.applied rest) else .ok .notHandled
  decode _ b limit :=
    if (textStart ++ b).length ≤ limit.val then .ok (textStart ++ b)
    else .error (.sizeLimit "decoded payload")

theorem trim_applied {a b : Bytes} (h : trim.encode a = .ok (.applied b)) :
    a = textStart ++ b ∧ b ≠ [] := by
  simp only [trim] at h
  split at h
  · next ha =>
    obtain rfl : a.drop textStart.length = b := by simpa using h
    exact ha
  · cases h

theorem trim_lawful : trim.Lawful := by
  intro d a b _ he limit hle
  obtain ⟨rfl, _⟩ := trim_applied he
  exact if_pos hle

theorem trim_shrinks : trim.Shrinks := by
  intro a b he
  obtain ⟨rfl, hne⟩ := trim_applied he
  have hstart : 0 < textStart.length := by decide
  refine ⟨hne, ?_⟩
  rw [List.length_append]
  omega

def trimFingerprint : PipelineFingerprint :=
  ⟨#v[249, 65, 180, 237, 223, 235, 130, 205, 77, 26, 42, 109, 167, 114, 43, 236, 232, 223,
      108, 240, 204, 48, 63, 218, 17, 102, 229, 64, 4, 72, 57, 61]⟩

def trimmedDigest : Vector UInt8 32 :=
  #v[240, 89, 93, 110, 185, 92, 111, 185, 47, 60, 216, 32, 115, 185, 128, 123, 142, 137, 167,
      75, 183, 57, 73, 146, 3, 38, 39, 127, 22, 68, 241, 131]

@[reducible] def trimSha256 : Sha256 where
  digest bytes :=
    if fingerprintPreimage localStorage [trim] = .ok bytes then trimFingerprint.bytes
    else if bytes = payloadText.drop textStart.length then trimmedDigest
    else Vector.replicate 32 0

def secondId : ObjectId := ⟨#v[16, 15, 14, 13, 12, 11, 10, 137, 8, 71, 6, 5, 4, 3, 2, 1]⟩

def trimmedReference (objectId : ObjectId) : ExternalReference :=
  { version := 1, storageId := localStorage, objectId, encodedSize := 18
    sha256 := "f0595d6eb95c6fb92f3cd82073b9807b8e89a74bb73949920326277f1644f183"
    codecs := [⟨⟨"trim", by decide⟩, 1⟩]
    pipelineFingerprint := "f941b4eddfeb82cd4d1a2a6da7722bece8df6cf0cc303fda1166e5400448393d" }

def trimmedReferenceText (objectId : ObjectId) : Bytes :=
  utf8 ("\x7b\"version\":1,\"storage_id\":\"local\",\"object_id\":\"" ++ objectId.toHex ++
    "\",\"encoded_size\":18,\"sha256\":" ++
    "\"f0595d6eb95c6fb92f3cd82073b9807b8e89a74bb73949920326277f1644f183\"," ++
    "\"codecs\":[\x7b\"id\":\"trim\",\"version\":1\x7d],\"pipeline_fingerprint\":" ++
    "\"f941b4eddfeb82cd4d1a2a6da7722bece8df6cf0cc303fda1166e5400448393d\"\x7d")

/-- The JSON texts of one payload and of the references to two objects. -/
@[reducible] def trimmedJson : PayloadJson where
  toVec p := if p = payload then .ok payloadText else .error "unsupported"
  fromSlice bytes := if bytes = payloadText then some payload else none
  referenceToVec r :=
    if r = trimmedReference objectId then .ok (trimmedReferenceText objectId)
    else if r = trimmedReference secondId then .ok (trimmedReferenceText secondId)
    else .error "unsupported"
  referenceFromSlice bytes :=
    if bytes = trimmedReferenceText objectId then some (trimmedReference objectId)
    else if bytes = trimmedReferenceText secondId then some (trimmedReference secondId)
    else none

theorem trimmedReferenceText_injective : Function.Injective trimmedReferenceText := by
  intro a b h
  have htext := congrArg String.toList (utf8_injective h)
  simp only [String.toList_append, List.append_assoc, List.append_right_inj] at htext
  have hlength : a.toHex.toList.length = b.toHex.toList.length := by
    rw [ObjectId.length_toHex, ObjectId.length_toHex]
  exact ObjectId.toHex_injective (String.toList_inj.mp (List.append_inj htext hlength).1)

theorem trimmedJson_lawful : @PayloadJson.Lawful trimmedJson := by
  refine @PayloadJson.Lawful.mk trimmedJson ?_ ?_
  · intro p bytes h
    simp only [PayloadJson.toVec] at h
    split at h
    · next hp => simp [PayloadJson.fromSlice, hp, ← Except.ok.inj h]
    · cases h
  · intro r bytes h
    have hids : secondId ≠ objectId := by decide
    have hne := trimmedReferenceText_injective.ne hids
    simp only [PayloadJson.referenceToVec] at h
    split at h
    · next hr => simp [PayloadJson.referenceFromSlice, hr, ← Except.ok.inj h]
    · split at h
      · next hr => simp [PayloadJson.referenceFromSlice, hr, ← Except.ok.inj h, hne]
      · cases h

def trimPipeline : @PayloadPipeline trimSha256 (List (ObjectKey × Bytes)) :=
  let _ := trimSha256
  { storages := [(localStorage, inMemoryStorage)], defaultStorage := localStorage
    codecs := [trim], limits := ⟨26, 52, limit_pos, by decide⟩, fingerprint := trimFingerprint
    acceptedFingerprints := [trimFingerprint], registered := localStorage_registered
    owned := ⟨_, rfl⟩, calculated := by decide +kernel, accepted := by decide }

def twoIds (i : Nat) : ObjectId := if i = 0 then objectId else secondId

def trimmed : PreparedPayload :=
  { bytes := payloadText.drop textStart.length, codecs := [⟨⟨"trim", by decide⟩, 1⟩]
    decodedSize := 26 }

theorem trimmed_length : trimmed.bytes.length = 18 := by decide

theorem trimPipeline_prepare :
    @PayloadPipeline.prepare trimSha256 trimmedJson _ trimPipeline payload = .ok trimmed := by
  have hvec : @PayloadJson.toVec trimmedJson payload = .ok payloadText := if_pos rfl
  have happly : applyCodecs [trim] payloadText = .ok (trimmed.bytes, trimmed.codecs) := by
    decide +kernel
  have hlen : payloadText.length = 26 := by decide
  simp [PayloadPipeline.prepare, hvec, happly, hlen, trimPipeline, trimmed_length]
  decide

theorem reference_trimmed (id : ObjectId) :
    @ExternalReference.new trimSha256 localStorage id trimmed.bytes trimmed.codecs
      trimFingerprint = .ok (trimmedReference id) := by
  have hdigest : hex (@Sha256.digest trimSha256 trimmed.bytes).toList =
      (trimmedReference objectId).sha256 := by decide +kernel
  have hfingerprint : trimFingerprint.toHex =
      (trimmedReference objectId).pipelineFingerprint := by decide +kernel
  have hle : trimmed.bytes.length ≤ 18446744073709551615 := by rw [trimmed_length]; decide
  simp only [ExternalReference.new, hle, dite_true, hdigest, hfingerprint]
  rfl

theorem trimPipeline_storePrepared (id : ObjectId) {objects : List (ObjectKey × Bytes)}
    (hlookup : objects.lookup (.v1For id) = none)
    (hvec : @PayloadJson.referenceToVec trimmedJson (trimmedReference id) =
      .ok (trimmedReferenceText id)) :
    @PayloadPipeline.storePrepared trimSha256 trimmedJson _ trimPipeline id objects trimmed =
      (.ok (stored (trimmedReferenceText id)), (.v1For id, trimmed.bytes) :: objects) := by
  let _ := trimSha256
  have hstorage : trimPipeline.storages.lookup trimPipeline.defaultStorage =
      some inMemoryStorage := by simp [trimPipeline]
  have hcreate : inMemoryStorage.createImmutable objects (.v1For id) trimmed.bytes =
      (.ok (), (.v1For id, trimmed.bytes) :: objects) := by simp [inMemoryStorage, hlookup]
  have hnew : ExternalReference.new trimPipeline.defaultStorage id trimmed.bytes trimmed.codecs
      trimPipeline.fingerprint = .ok (trimmedReference id) := reference_trimmed id
  simp only [PayloadPipeline.storePrepared, hstorage, hcreate, hnew, hvec, stored]

theorem trimPipeline_encodeBatch :
    @PayloadPipeline.encodeBatch trimSha256 trimmedJson _ trimPipeline twoIds []
      [payload, payload] =
      (.ok [stored (trimmedReferenceText objectId), stored (trimmedReferenceText secondId)],
        [(.v1For secondId, trimmed.bytes), (.v1For objectId, trimmed.bytes)]) := by
  let _ := trimSha256
  let _ := trimmedJson
  have hids : secondId ≠ objectId := by decide
  have hbatch : trimPipeline.prepareBatch [payload, payload] 0 0 = .ok [trimmed, trimmed] := by
    have hroom : trimPipeline.limits.batchBytes.addWithin 0 26 = some 26 := by decide
    have hroom₂ : trimPipeline.limits.batchBytes.addWithin 26 26 = some 52 := by decide
    have hstored : trimPipeline.limits.batchBytes.addWithin 0 18 = some 18 := by decide
    have hstored' : trimPipeline.limits.batchBytes.addWithin 18 18 = some 36 := by decide
    have hsize : trimmed.decodedSize = 26 := rfl
    simp only [PayloadPipeline.prepareBatch, trimPipeline_prepare, hsize, trimmed_length, hroom,
      hroom₂, hstored, hstored']
  have hfirst := trimPipeline_storePrepared objectId List.lookup_nil (if_pos rfl)
  have hlookup : [(ObjectKey.v1For objectId, trimmed.bytes)].lookup (.v1For secondId) = none := by
    have hkeys := beq_false_of_ne (ObjectKey.v1For_injective.ne hids)
    rw [List.lookup_cons, hkeys]
    rfl
  have hne : trimmedReference secondId ≠ trimmedReference objectId := fun h =>
    hids (congrArg ExternalReference.objectId h)
  have hsecond := trimPipeline_storePrepared secondId hlookup ((if_neg hne).trans (if_pos rfl))
  have hzero : twoIds 0 = objectId := rfl
  have hone : twoIds (0 + 1) = secondId := rfl
  simp only [PayloadPipeline.encodeBatch, hbatch, PayloadPipeline.storeBatch, hzero, hone, hfirst,
    hsecond]

end Sample

section

open Sample

theorem batch_round_trip_sample :
    let _ := trimSha256
    let _ := trimmedJson
    trimPipeline.decodeBatch
      [(.v1For secondId, trimmed.bytes), (.v1For objectId, trimmed.bytes)]
      [stored (trimmedReferenceText objectId), stored (trimmedReferenceText secondId)] =
        .ok [payload, payload] := by
  let _ := trimSha256
  let _ := trimmedJson
  refine (PayloadPipeline.batch_round_trip (p := trimPipeline) trimmedJson_lawful ?_ ?_ ?_
    trimPipeline_encodeBatch).2.2
  · intro c hc
    obtain rfl : c = trim := by simpa [trimPipeline] using hc
    exact ⟨trim_lawful, trim_shrinks⟩
  · intro driver hd
    obtain rfl : inMemoryStorage = driver := by simpa [trimPipeline] using hd
    exact ⟨inMemoryStorage_lawful, inMemoryStorage_keeps⟩
  · intro j k hjk hk
    obtain ⟨rfl, rfl⟩ : j = 0 ∧ k = 1 := by
      simp only [List.length_cons, List.length_nil] at hk
      omega
    decide

end

end Agentive
