import Agentive.BatchRoundTrip

/-! The objects that a batch write leaves behind. Nothing is stored before every payload has been
prepared, and then one object for each payload, up to the first that the driver rejects. -/

namespace Agentive

/-- What the storages hold under a key, in a state of the world. -/
abbrev Contents (σ : Type) := StorageId → σ → ObjectKey → Option Bytes

/-- A driver that creates objects in a storage: it changes nothing under other keys, and no object
of any storage. -/
structure StorageDriver.CreatesIn {σ : Type} (driver : StorageDriver σ) (contents : Contents σ)
    (id : StorageId) : Prop where
  created : ∀ w w' key bytes, driver.createImmutable w key bytes = (.ok (), w') →
    contents id w' key = some bytes
  others : ∀ w w' key bytes result key', driver.createImmutable w key bytes = (result, w') →
    key' ≠ key → contents id w' key' = contents id w key'
  kept : ∀ w w' key bytes result storage key' stored,
    driver.createImmutable w key bytes = (result, w') →
    contents storage w key' = some stored → contents storage w' key' = some stored

/-- A driver that adds nothing when it fails. -/
def StorageDriver.AddsNothingOnFailure {σ : Type} (driver : StorageDriver σ)
    (contents : Contents σ) (id : StorageId) : Prop :=
  ∀ w w' key bytes e, driver.createImmutable w key bytes = (.error e, w') →
    contents id w' = contents id w

/-- All storages are one here. -/
def inMemoryContents : Contents (List (ObjectKey × Bytes)) :=
  fun _ objects key => objects.lookup key

theorem inMemoryStorage_creates_cases {w w' : List (ObjectKey × Bytes)} {key : ObjectKey}
    {bytes : Bytes} {result : Except PayloadError Unit}
    (h : inMemoryStorage.createImmutable w key bytes = (result, w')) :
    (w.lookup key = none ∧ result = .ok () ∧ w' = (key, bytes) :: w) ∨
      (w' = w ∧ (result = .ok () → w.lookup key = some bytes)) := by
  cases hl : w.lookup key with
  | none =>
    simp only [inMemoryStorage, hl, Prod.mk.injEq] at h
    exact .inl ⟨rfl, h.1.symm, h.2.symm⟩
  | some existing =>
    by_cases he : existing = bytes
    · simp only [inMemoryStorage, hl, he, if_true, Prod.mk.injEq] at h
      exact .inr ⟨h.2.symm, fun _ => by rw [he]⟩
    · simp only [inMemoryStorage, hl, he, if_false, Prod.mk.injEq] at h
      refine .inr ⟨h.2.symm, fun hok => ?_⟩
      cases h.1.trans hok

theorem inMemoryStorage_createsIn (id : StorageId) :
    inMemoryStorage.CreatesIn inMemoryContents id where
  created w w' key bytes h := by
    rcases inMemoryStorage_creates_cases h with ⟨-, -, rfl⟩ | ⟨rfl, hfound⟩
    · simp [inMemoryContents]
    · exact hfound rfl
  others w w' key bytes result key' h hne := by
    rcases inMemoryStorage_creates_cases h with ⟨-, -, rfl⟩ | ⟨rfl, -⟩
    · have hbeq : (key' == key) = false := by simpa using hne
      rw [inMemoryContents, inMemoryContents, List.lookup_cons, hbeq]
    · rfl
  kept w w' key bytes result storage key' stored h hstored := by
    rcases inMemoryStorage_creates_cases h with ⟨hnone, -, rfl⟩ | ⟨rfl, -⟩
    · have hbeq : (key' == key) = false := by
        refine beq_false_of_ne fun heq => ?_
        rw [inMemoryContents, heq, hnone] at hstored
        cases hstored
      rw [inMemoryContents, List.lookup_cons, hbeq]
      exact hstored
    · exact hstored

/-- A stored payload refers to an object with these bytes. -/
def RefersTo [Sha256] [PayloadJson] (storage : StorageId) (id : ObjectId) (bytes : Bytes)
    (s : Payload) : Prop :=
  ∃ reference data, PayloadJson.referenceToVec reference = .ok data ∧
    s = (Payload.new data).withMetadata "encoding" (utf8 REFERENCE_MARKER) ∧
    reference.storageId = storage ∧ reference.objectId = id ∧
    reference.encodedSize.val = bytes.length ∧ reference.matchesBytes bytes = true

namespace PayloadPipeline

section

variable [Sha256] {σ : Type} {p : PayloadPipeline σ} {contents : Contents σ}

/-- Between two states of the world, exactly the objects of these payloads have been added to the
default storage, one for each, and no object of any storage has been changed. -/
structure Added (p : PayloadPipeline σ) (contents : Contents σ) (objectIds : Nat → ObjectId)
    (prepared : List PreparedPayload) (w w' : σ) : Prop where
  absent : ∀ k < prepared.length, contents p.defaultStorage w (.v1For (objectIds k)) = none
  present : ∀ k pr, prepared[k]? = some pr →
    contents p.defaultStorage w' (.v1For (objectIds k)) = some pr.bytes
  distinct : ∀ j k, j < k → k < prepared.length →
    ObjectKey.v1For (objectIds j) ≠ .v1For (objectIds k)
  others : ∀ key, (∀ k < prepared.length, key ≠ .v1For (objectIds k)) →
    contents p.defaultStorage w' key = contents p.defaultStorage w key
  kept : ∀ storage key stored, contents storage w key = some stored →
    contents storage w' key = some stored

theorem Added.nil (objectIds : Nat → ObjectId) (w : σ) : Added p contents objectIds [] w w :=
  { absent := nofun
    present := nofun
    distinct := nofun
    others := fun _ _ => rfl
    kept := fun _ _ _ h => h }

theorem Added.snoc {objectIds : Nat → ObjectId} {done : List PreparedPayload} {w₀ w w' : σ}
    {pr : PreparedPayload} {driver : StorageDriver σ}
    (h : Added p contents objectIds done w₀ w)
    (hdriver : driver.CreatesIn contents p.defaultStorage)
    (hcreate : driver.createImmutable w (.v1For (objectIds done.length)) pr.bytes = (.ok (), w'))
    (habsent : contents p.defaultStorage w₀ (.v1For (objectIds done.length)) = none)
    (hdistinct : ∀ j < done.length,
      ObjectKey.v1For (objectIds j) ≠ .v1For (objectIds done.length)) :
    Added p contents objectIds (done ++ [pr]) w₀ w' := by
  have hlength : (done ++ [pr]).length = done.length + 1 := by simp
  have hlt {k : Nat} (hk : k < (done ++ [pr]).length) : k < done.length ∨ k = done.length := by
    omega
  constructor
  · intro k hk
    rcases hlt hk with hk | rfl
    · exact h.absent k hk
    · exact habsent
  · intro k pr' hpr
    rcases hlt (List.getElem?_eq_some_iff.mp hpr).1 with hk | rfl
    · rw [List.getElem?_append_left hk] at hpr
      rw [hdriver.others _ _ _ _ _ _ hcreate (hdistinct k hk)]
      exact h.present k pr' hpr
    · obtain rfl : pr = pr' := by simpa using hpr
      exact hdriver.created _ _ _ _ hcreate
  · intro j k hjk hk
    rcases hlt hk with hk | rfl
    · exact h.distinct j k hjk hk
    · exact hdistinct j hjk
  · intro key hkey
    rw [hdriver.others _ _ _ _ _ _ hcreate (hkey done.length (by omega))]
    exact h.others key fun k hk => hkey k (by omega)
  · intro storage key stored hstored
    exact hdriver.kept _ _ _ _ _ _ _ _ hcreate (h.kept storage key stored hstored)

theorem Added.rejected {objectIds : Nat → ObjectId} {done : List PreparedPayload} {w₀ w w' : σ}
    {key : ObjectKey} {bytes : Bytes} {e : PayloadError} {driver : StorageDriver σ}
    (h : Added p contents objectIds done w₀ w)
    (hdriver : driver.CreatesIn contents p.defaultStorage)
    (hadds : driver.AddsNothingOnFailure contents p.defaultStorage)
    (hcreate : driver.createImmutable w key bytes = (.error e, w')) :
    Added p contents objectIds done w₀ w' := by
  have hsame := hadds _ _ _ _ _ hcreate
  refine ⟨h.absent, ?_, h.distinct, ?_, fun storage key stored hstored => ?_⟩
  · rw [hsame]
    exact h.present
  · rw [hsame]
    exact h.others
  · exact hdriver.kept _ _ _ _ _ _ _ _ hcreate (h.kept storage key stored hstored)

variable [PayloadJson]

theorem refersTo_of_stored {objectId : ObjectId} {w w' : σ} {pr : PreparedPayload} {s : Payload}
    (h : p.storePrepared objectId w pr = (.ok s, w')) :
    RefersTo p.defaultStorage objectId pr.bytes s := by
  obtain ⟨driver, reference, data, -, -, hnew, hdata, rfl⟩ := storePrepared_ok h
  unfold ExternalReference.new at hnew
  by_cases hlength : pr.bytes.length ≤ 18446744073709551615
  · rw [dif_pos hlength] at hnew
    obtain rfl := Except.ok.inj hnew
    exact ⟨_, data, hdata, rfl, rfl, rfl, rfl, by simp [ExternalReference.matchesBytes]⟩
  · rw [dif_neg hlength] at hnew
    cases hnew

theorem exists_prepared {payloads : List Payload} {prepared : List PreparedPayload}
    (h : List.Forall₂ (fun payload pr => p.prepare payload = .ok pr) payloads prepared) :
    ∀ payload ∈ payloads, ∃ pr, p.prepare payload = .ok pr := by
  induction h with
  | nil => nofun
  | cons hp _ ih => exact List.forall_mem_cons.mpr ⟨⟨_, hp⟩, ih⟩

theorem storeBatch_cons_ok {objectIds : Nat → ObjectId} {i : Nat} {w w' : σ}
    {pr : PreparedPayload} {rest : List PreparedPayload} {stored : List Payload}
    (h : p.storeBatch objectIds i w (pr :: rest) = (.ok stored, w')) :
    ∃ s more w₁, p.storePrepared (objectIds i) w pr = (.ok s, w₁) ∧
      p.storeBatch objectIds (i + 1) w₁ rest = (.ok more, w') ∧ stored = s :: more := by
  rw [storeBatch] at h
  cases hs : p.storePrepared (objectIds i) w pr with
  | mk out w₁ =>
    cases out with
    | error e => simp [hs] at h
    | ok s =>
      simp only [hs] at h
      cases hb : p.storeBatch objectIds (i + 1) w₁ rest with
      | mk more w₂ =>
        cases more with
        | error e => simp [hb] at h
        | ok more =>
          simp only [hb, Prod.mk.injEq, Except.ok.injEq] at h
          obtain ⟨rfl, rfl⟩ := h
          exact ⟨s, more, w₁, rfl, hb, rfl⟩

theorem storeBatch_refers {objectIds : Nat → ObjectId} {i : Nat} {w w' : σ}
    {prepared : List PreparedPayload} {stored : List Payload}
    (h : p.storeBatch objectIds i w prepared = (.ok stored, w')) :
    stored.length = prepared.length ∧
      ∀ k pr s, prepared[k]? = some pr → stored[k]? = some s →
        RefersTo p.defaultStorage (objectIds (i + k)) pr.bytes s := by
  induction prepared generalizing i w stored with
  | nil =>
    obtain ⟨hnil, _⟩ := Prod.mk.inj h
    obtain rfl := Except.ok.inj hnil
    exact ⟨rfl, nofun⟩
  | cons pr rest ih =>
    obtain ⟨s, more, w₁, hs, hb, rfl⟩ := storeBatch_cons_ok h
    obtain ⟨hlength, hrefers⟩ := ih hb
    refine ⟨by simp [hlength], fun k pr' s' hpr hs' => ?_⟩
    cases k with
    | zero =>
      obtain rfl : pr = pr' := by simpa using hpr
      obtain rfl : s = s' := by simpa using hs'
      exact refersTo_of_stored hs
    | succ k =>
      have hnext := hrefers k pr' s' (by simpa using hpr) (by simpa using hs')
      rwa [show i + (k + 1) = i + 1 + k by omega]

theorem storeBatch_added (done : List PreparedPayload) {objectIds : Nat → ObjectId} {w₀ w w' : σ}
    {rest : List PreparedPayload} {stored : List Payload}
    (hdriver : ∀ driver, p.storages.lookup p.defaultStorage = some driver →
      driver.CreatesIn contents p.defaultStorage)
    (habsent : ∀ k < (done ++ rest).length,
      contents p.defaultStorage w₀ (.v1For (objectIds k)) = none)
    (hdistinct : ∀ j k, j < k → k < (done ++ rest).length → objectIds j ≠ objectIds k)
    (hdone : Added p contents objectIds done w₀ w)
    (h : p.storeBatch objectIds done.length w rest = (.ok stored, w')) :
    Added p contents objectIds (done ++ rest) w₀ w' := by
  induction rest generalizing done w stored with
  | nil =>
    obtain ⟨-, rfl⟩ := Prod.mk.inj h
    rwa [List.append_nil]
  | cons pr rest ih =>
    obtain ⟨s, more, w₁, hs, hb, -⟩ := storeBatch_cons_ok h
    obtain ⟨driver, -, -, hlookup, hcreate, -⟩ := storePrepared_ok hs
    have hlt : done.length < (done ++ pr :: rest).length := by simp
    have hnext : Added p contents objectIds (done ++ [pr]) w₀ w₁ :=
      hdone.snoc (hdriver driver hlookup) hcreate (habsent _ hlt) fun j hj heq =>
        hdistinct j _ hj hlt (ObjectKey.v1For_injective heq)
    rw [List.append_cons] at habsent hdistinct ⊢
    exact ih _ habsent hdistinct hnext (by simpa using hb)

/-- A batch fails with the first of its payloads that cannot be stored. -/
theorem storeBatch_error (rest : List PreparedPayload) {objectIds : Nat → ObjectId} {i : Nat}
    {w w₁ w' : σ} {first : List PreparedPayload} {pr : PreparedPayload} {stored : List Payload}
    {e : PayloadError} (hfirst : p.storeBatch objectIds i w first = (.ok stored, w₁))
    (h : p.storePrepared (objectIds (i + first.length)) w₁ pr = (.error e, w')) :
    p.storeBatch objectIds i w (first ++ pr :: rest) = (.error e, w') := by
  induction first generalizing i w stored with
  | nil =>
    obtain ⟨-, rfl⟩ := Prod.mk.inj hfirst
    rw [List.nil_append, storeBatch]
    simp only [List.length_nil, Nat.add_zero] at h
    simp only [h]
  | cons pr' first ih =>
    obtain ⟨s, more, w₂, hs, hb, -⟩ := storeBatch_cons_ok hfirst
    have hrest := ih hb (by rwa [List.length_cons, ← Nat.add_assoc, Nat.add_right_comm] at h)
    rw [List.cons_append, storeBatch]
    simp only [hs, hrest]

/-- A batch write that fails before it stores has changed nothing; one that succeeds has added one
object for each payload, to which the result refers; and one whose store is rejected has added
those of the payloads before. -/
theorem batch_objects_added {objectIds : Nat → ObjectId} {w : σ} {payloads : List Payload}
    (hdriver : ∀ driver, p.storages.lookup p.defaultStorage = some driver →
      driver.CreatesIn contents p.defaultStorage)
    (habsent : ∀ k < payloads.length,
      contents p.defaultStorage w (.v1For (objectIds k)) = none)
    (hdistinct : ∀ j k, j < k → k < payloads.length → objectIds j ≠ objectIds k) :
    ((∀ e, p.prepareBatch payloads 0 0 = .error e →
        p.encodeBatch objectIds w payloads = (.error e, w)) ∧
      ((∃ payload ∈ payloads, ∃ e, p.prepare payload = .error e) →
        ∃ e, p.encodeBatch objectIds w payloads = (.error e, w))) ∧
    (∀ stored w', p.encodeBatch objectIds w payloads = (.ok stored, w') →
      ∃ prepared, List.Forall₂ (fun payload pr => p.prepare payload = .ok pr) payloads prepared ∧
        Added p contents objectIds prepared w w' ∧ stored.length = prepared.length ∧
        ∀ k pr s, prepared[k]? = some pr → stored[k]? = some s →
          RefersTo p.defaultStorage (objectIds k) pr.bytes s) ∧
    ∀ prepared k pr stored driver w₁ w' e, p.prepareBatch payloads 0 0 = .ok prepared →
      prepared[k]? = some pr → p.storages.lookup p.defaultStorage = some driver →
      driver.AddsNothingOnFailure contents p.defaultStorage →
      p.storeBatch objectIds 0 w (prepared.take k) = (.ok stored, w₁) →
      driver.createImmutable w₁ (.v1For (objectIds k)) pr.bytes = (.error e, w') →
      p.encodeBatch objectIds w payloads = (.error e, w') ∧
        Added p contents objectIds (prepared.take k) w w' := by
  have hprepares {e : PayloadError} (he : p.prepareBatch payloads 0 0 = .error e) :
      p.encodeBatch objectIds w payloads = (.error e, w) := by
    rw [encodeBatch, he]
  refine ⟨⟨fun e => hprepares, ?_⟩, fun stored w' h => ?_,
    fun prepared k pr stored driver w₁ w' e hprepared hpr hlookup hadds hfirst hcreate => ?_⟩
  · rintro ⟨payload, hmem, e, he⟩
    cases hb : p.prepareBatch payloads 0 0 with
    | error e => exact ⟨e, hprepares hb⟩
    | ok prepared =>
      obtain ⟨pr, hpr⟩ := exists_prepared (prepareBatch_ok hb).1 payload hmem
      cases he.symm.trans hpr
  · rw [encodeBatch] at h
    cases hb : p.prepareBatch payloads 0 0 with
    | error e => simp [hb] at h
    | ok prepared =>
      simp only [hb] at h
      have hprepare := (prepareBatch_ok hb).1
      have hlength := hprepare.length_eq
      obtain ⟨hstored, hrefers⟩ := storeBatch_refers h
      refine ⟨prepared, hprepare, ?_, hstored, fun k pr s hpr hs => ?_⟩
      · exact storeBatch_added [] hdriver (by simpa [← hlength] using habsent)
          (by simpa [← hlength] using hdistinct) (.nil objectIds w) h
      · simpa using hrefers k pr s hpr hs
  · have hlength := (prepareBatch_ok hprepared).1.length_eq
    have hk : k < prepared.length := (List.getElem?_eq_some_iff.mp hpr).1
    have htake : (prepared.take k).length = k := by simp; omega
    have hsplit : prepared.take k ++ pr :: prepared.drop (k + 1) = prepared := by
      obtain ⟨-, rfl⟩ := List.getElem?_eq_some_iff.mp hpr
      rw [← List.drop_eq_getElem_cons hk, List.take_append_drop]
    have hrejected : p.storePrepared (objectIds (0 + (prepared.take k).length)) w₁ pr =
        (.error e, w') := by
      rw [htake, Nat.zero_add, storePrepared, hlookup]
      simp only [hcreate]
    have hbatch := storeBatch_error (prepared.drop (k + 1)) hfirst hrejected
    rw [hsplit] at hbatch
    have hbefore : Added p contents objectIds (prepared.take k) w w₁ :=
      storeBatch_added [] hdriver
        (fun j hj => habsent j (by simp only [List.nil_append] at hj; omega))
        (fun i j hij hj => hdistinct i j hij (by simp only [List.nil_append] at hj; omega))
        (.nil objectIds w) hfirst
    refine ⟨?_, hbefore.rejected (hdriver driver hlookup) hadds hcreate⟩
    rw [encodeBatch, hprepared]
    exact hbatch

end

end PayloadPipeline

section

open Sample

theorem batch_objects_added_sample :
    let _ := trimSha256
    let _ := trimmedJson
    ∃ prepared, prepared.length = 2 ∧
      PayloadPipeline.Added trimPipeline inMemoryContents twoIds prepared []
        [(.v1For secondId, trimmed.bytes), (.v1For objectId, trimmed.bytes)] := by
  let _ := trimSha256
  let _ := trimmedJson
  have hcreates : ∀ driver,
      trimPipeline.storages.lookup trimPipeline.defaultStorage = some driver →
        driver.CreatesIn inMemoryContents trimPipeline.defaultStorage := by
    intro driver hlookup
    obtain rfl : inMemoryStorage = driver := by simpa [trimPipeline] using hlookup
    exact inMemoryStorage_createsIn _
  have habsent : ∀ k < [payload, payload].length,
      inMemoryContents trimPipeline.defaultStorage [] (.v1For (twoIds k)) = none := fun _ _ => rfl
  have hdistinct : ∀ j k, j < k → k < [payload, payload].length → twoIds j ≠ twoIds k := by
    intro j k hjk hk
    obtain ⟨rfl, rfl⟩ : j = 0 ∧ k = 1 := by
      simp only [List.length_cons, List.length_nil] at hk
      omega
    decide
  obtain ⟨prepared, hprepare, hadded, -⟩ :=
    (PayloadPipeline.batch_objects_added hcreates habsent hdistinct).2.1 _ _
      trimPipeline_encodeBatch
  exact ⟨prepared, hprepare.length_eq.symm, hadded⟩

end

end Agentive
