import Agentive.StorageSteps

/-! Objects in files are created once, whole. Nothing changes a file after it was linked, so a
creation takes effect at its link, and a read when it opens the file: the files are the storage in
memory at which the calls are performed in this order. -/

namespace Agentive

open AtomicObject

namespace StorageCall

def final (root : Path) (c : StorageCall) : Path := objectPath root c.object

def temp (root : Path) (c : StorageCall) : Path :=
  tempPath (shardPath root c.object) c.temporary

def Stands (root : Path) (c : StorageCall) (fs : FileSystem) (reply : Option StorageReply)
    (stage : StorageStage) : Prop :=
  match c.operation with
  | .create bytes => StandsCreate fs (c.final root) (c.temp root) bytes reply stage
  | .read maxBytes => StandsRead fs (c.final root) maxBytes reply stage

/-- The whole call, at a storage in memory. -/
def perform (c : StorageCall) (objects : List (ObjectKey × Bytes)) :
    StorageReply × List (ObjectKey × Bytes) :=
  match c.operation with
  | .create bytes =>
    let (result, objects) := inMemoryStorage.createImmutable objects (.v1For c.object) bytes
    (.created result, objects)
  | .read maxBytes =>
    (.read (inMemoryStorage.read objects (.v1For c.object) maxBytes), objects)

variable {root : Path} {c : StorageCall} {fs fs' : FileSystem} {reply : Option StorageReply}
  {stage stage' : StorageStage} {event : SystemEvent} {objects : List (ObjectKey × Bytes)}

theorem perform_create_new {bytes : Bytes} (hc : c.operation = .create bytes)
    (h : objects.lookup (.v1For c.object) = none) :
    c.perform objects = (.created (.ok ()), (.v1For c.object, bytes) :: objects) := by
  simp [perform, hc, inMemoryStorage, h]

theorem perform_create_found {bytes existing : Bytes} (hc : c.operation = .create bytes)
    (h : objects.lookup (.v1For c.object) = some existing) :
    c.perform objects = (.created (compareExisting existing bytes), objects) := by
  by_cases he : existing = bytes <;> simp [perform, hc, inMemoryStorage, h, compareExisting, he]

theorem perform_read_missing {maxBytes : Usize} (hc : c.operation = .read maxBytes)
    (h : objects.lookup (.v1For c.object) = none) :
    c.perform objects = (.read (.error .missingObject), objects) := by
  simp [perform, hc, inMemoryStorage, h]

theorem perform_read {maxBytes : Usize} {bytes : Bytes} (hc : c.operation = .read maxBytes)
    (h : objects.lookup (.v1For c.object) = some bytes) :
    c.perform objects = (readReply maxBytes bytes, objects) := by
  simp [perform, hc, inMemoryStorage, h, readReply]

theorem step_eq (hstage : ∀ r, stage ≠ .returned r) (hcrashed : stage ≠ .crashed)
    (hevent : event ≠ .crash) : c.step root fs stage event =
      match c.operation with
      | .create bytes => createStep (c.final root) (c.temp root) bytes fs stage event
      | .read maxBytes => readStep (c.final root) maxBytes fs stage event := by
  unfold step
  split
  · exact absurd rfl (hstage _)
  · exact absurd rfl hcrashed
  · exact absurd rfl hevent
  · rw [pathFor_v1For]
    cases c.operation with
    | create bytes =>
      simp only [parent_objectPath]
      rfl
    | read maxBytes => rfl

/-- A step is at the call's own file, or it is the commit of the call. -/
theorem step_cases (hb : fs.Bounded) (hs : c.Stands root fs reply stage)
    (h : c.step root fs stage event = some (fs', stage')) :
    (fs.Private (c.temp root) fs' ∧ c.Stands root fs' reply stage') ∨
    (reply = none ∧ ∃ bytes file, c.operation = .create bytes ∧
      fs.inode (c.temp root) = some file ∧ fs.data file = bytes ∧
      fs.inode (c.final root) = none ∧ fs' = fs.link file (c.final root) ∧
      stage' = .cleaning (.ok ())) ∨
    (reply = none ∧ fs' = fs ∧ ∀ objects : List (ObjectKey × Bytes),
      objects.lookup (.v1For c.object) = fs.contents (c.final root) →
      (c.perform objects).2 = objects ∧
      c.Stands root fs (some (c.perform objects).1) stage') := by
  have hstage : ∀ r, stage ≠ .returned r := by
    rintro r rfl
    cases h
  have hcrashed : stage ≠ .crashed := by
    rintro rfl
    cases h
  by_cases hevent : event = .crash
  · subst hevent
    have hcrash : c.step root fs stage .crash = some (fs, .crashed) := by
      unfold step
      split
      · exact absurd rfl (hstage _)
      · exact absurd rfl hcrashed
      · rfl
      · next hne => exact absurd rfl hne
    rw [hcrash] at h
    simp only [Option.some.injEq, Prod.mk.injEq] at h
    obtain ⟨rfl, rfl⟩ := h
    refine .inl ⟨.idle, ?_⟩
    unfold Stands
    cases c.operation <;> exact True.intro
  rw [step_eq hstage hcrashed hevent] at h
  unfold Stands at hs ⊢
  cases hc : c.operation with
  | create bytes =>
    simp only [hc] at h hs
    rcases createStep_cases hb hs h with hprivate | ⟨hreply, rfl, file, hfile, hdata, hfinal, rfl⟩ |
      ⟨hreply, rfl, rfl, existing, hcontents⟩
    · exact .inl hprivate
    · exact .inr (.inl ⟨hreply, bytes, file, rfl, hfile, hdata, hfinal, rfl, rfl⟩)
    · refine .inr (.inr ⟨hreply, rfl, fun objects hlookup => ?_⟩)
      have hperform := perform_create_found hc (hlookup.trans hcontents)
      rw [hperform]
      exact ⟨rfl, existing, hcontents, rfl⟩
  | read maxBytes =>
    simp only [hc] at h hs
    obtain ⟨rfl, hstands | ⟨hreply, hfinal, rfl⟩ | ⟨hreply, file, hfinal, rfl⟩⟩ :=
      readStep_cases hs h
    · exact .inl ⟨.idle, hstands⟩
    · refine .inr (.inr ⟨hreply, rfl, fun objects hlookup => ?_⟩)
      have hmissing : fs'.contents (c.final root) = none := by simp [FileSystem.contents, hfinal]
      rw [perform_read_missing hc (hlookup.trans hmissing)]
      exact ⟨rfl, .inr rfl⟩
    · refine .inr (.inr ⟨hreply, rfl, fun objects hlookup => ?_⟩)
      have hcontents := FileSystem.contents_eq_some.mpr ⟨file, hfinal, rfl⟩
      rw [perform_read hc (hlookup.trans hcontents)]
      exact ⟨rfl, hfinal, rfl⟩

/-- The steps of others leave a call where it stands. -/
theorem Stands.keep (hs : c.Stands root fs reply stage)
    (hinode : fs'.inode (c.temp root) = fs.inode (c.temp root))
    (htemp : fs'.contents (c.temp root) = fs.contents (c.temp root))
    (howns : ∀ file, fs.Owns (c.temp root) file → fs'.Owns (c.temp root) file)
    (hfinal : ∀ file, fs.inode (c.final root) = some file →
      fs'.inode (c.final root) = some file ∧ fs'.data file = fs.data file) :
    c.Stands root fs' reply stage := by
  unfold Stands at hs ⊢
  cases hc : c.operation with
  | create bytes =>
    simp only [hc] at hs
    exact hs.keep hinode htemp howns hfinal
  | read maxBytes =>
    simp only [hc] at hs
    exact hs.keep hfinal

end StorageCall

theorem StorageCall.perform_keeps {c : StorageCall} {objects : List (ObjectKey × Bytes)}
    {key : ObjectKey} {bytes : Bytes} (h : objects.lookup key = some bytes) :
    (c.perform objects).2.lookup key = some bytes := by
  cases hc : c.operation with
  | create own =>
    cases hl : objects.lookup (.v1For c.object) with
    | none =>
      have hne : key ≠ .v1For c.object := fun he => by
        rw [he, hl] at h
        cases h
      have hkey := beq_false_of_ne hne
      rw [perform_create_new hc hl, List.lookup_cons, hkey]
      exact h
    | some existing =>
      rw [perform_create_found hc hl]
      exact h
  | read maxBytes =>
    simp only [perform, hc]
    exact h

/-- What a reply of the storage in memory says about an object, from then on. -/
inductive Replied (found : Option Bytes) : StorageOperation → StorageReply → Prop
  | created (bytes : Bytes) (h : found = some bytes) :
      Replied found (.create bytes) (.created (.ok ()))
  | conflict (bytes existing : Bytes) (h : found = some existing) (hne : existing ≠ bytes) :
      Replied found (.create bytes) (.created (.error .immutableConflict))
  | bytes (maxBytes : Usize) (bytes : Bytes) (h : found = some bytes)
      (hle : bytes.length ≤ maxBytes.val) : Replied found (.read maxBytes) (.read (.ok bytes))
  | tooLong (maxBytes : Usize) (bytes : Bytes) (h : found = some bytes)
      (hlt : maxBytes.val < bytes.length) :
      Replied found (.read maxBytes) (.read (.error (.sizeLimit "stored payload")))
  | missing (maxBytes : Usize) : Replied found (.read maxBytes) (.read (.error .missingObject))

theorem Replied.keep {found found' : Option Bytes} {operation : StorageOperation}
    {reply : StorageReply} (h : Replied found operation reply)
    (hkeep : ∀ bytes, found = some bytes → found' = some bytes) :
    Replied found' operation reply := by
  cases h with
  | created bytes h => exact .created bytes (hkeep _ h)
  | conflict bytes existing h hne => exact .conflict bytes existing (hkeep _ h) hne
  | bytes maxBytes bytes h hle => exact .bytes maxBytes bytes (hkeep _ h) hle
  | tooLong maxBytes bytes h hlt => exact .tooLong maxBytes bytes (hkeep _ h) hlt
  | missing maxBytes => exact .missing maxBytes

theorem StorageCall.replied_perform (c : StorageCall) (objects : List (ObjectKey × Bytes)) :
    Replied ((c.perform objects).2.lookup (.v1For c.object)) c.operation
      (c.perform objects).1 := by
  cases hc : c.operation with
  | create bytes =>
    cases hl : objects.lookup (.v1For c.object) with
    | none =>
      rw [perform_create_new hc hl]
      exact .created bytes (by simp)
    | some existing =>
      rw [perform_create_found hc hl, compareExisting]
      split
      · next he => exact .created bytes (he ▸ hl)
      · next he => exact .conflict bytes existing hl he
  | read maxBytes =>
    cases hl : objects.lookup (.v1For c.object) with
    | none =>
      rw [perform_read_missing hc hl]
      exact .missing maxBytes
    | some bytes =>
      rw [perform_read hc hl, readReply]
      split
      · next hlong => exact .tooLong maxBytes bytes hl hlong
      · next hfits => exact .bytes maxBytes bytes hl (Nat.le_of_not_lt hfits)

section

variable {ι : Type} {root : Path} {calls : ι → StorageCall} {w w' : StorageWorld ι}
  {a : Served ι (List (ObjectKey × Bytes)) StorageReply} {i : ι}

/-- The files are a storage in memory at which some of the calls have been performed. -/
structure Refines (root : Path) (calls : ι → StorageCall) (w : StorageWorld ι)
    (a : Served ι (List (ObjectKey × Bytes)) StorageReply) : Prop where
  bounded : w.fs.Bounded
  objects : ∀ id, a.object.lookup (.v1For id) = w.fs.contents (objectPath root id)
  stands : ∀ i, (calls i).Stands root w.fs (a.replies i) (w.stage i)

/-- Nothing was called yet, and there are no objects and no files with the temporary names. -/
structure StorageWorld.Initial (root : Path) (calls : ι → StorageCall) (w : StorageWorld ι) :
    Prop where
  bounded : w.fs.Bounded
  objects : ∀ id, w.fs.inode (objectPath root id) = none
  temporaries : ∀ i, w.fs.inode ((calls i).temp root) = none
  called : ∀ i, w.stage i = .called

theorem StorageWorld.Initial.refines (h : w.Initial root calls) :
    Refines root calls w ⟨[], fun _ => none⟩ := by
  refine ⟨h.bounded, fun id => ?_, fun i => ?_⟩
  · simp [FileSystem.contents, h.objects id]
  · unfold StorageCall.Stands
    rw [h.called i]
    cases (calls i).operation with
    | create bytes => exact ⟨h.temporaries i, rfl⟩
    | read maxBytes => rfl

theorem Refines.settled (h : Refines root calls w a) {reply : StorageReply}
    (hr : w.stage i = .returned reply) : Settled (a.replies i) reply := by
  have hstands := h.stands i
  unfold StorageCall.Stands at hstands
  rw [hr] at hstands
  cases hc : (calls i).operation with
  | create bytes =>
    simp only [hc] at hstands
    exact hstands
  | read maxBytes =>
    simp only [hc] at hstands
    exact hstands

/-- The storage in memory holds what creations were given, and what it has replied is still so. -/
structure Recorded (calls : ι → StorageCall)
    (a : Served ι (List (ObjectKey × Bytes)) StorageReply) : Prop where
  written : ∀ id bytes, a.object.lookup (.v1For id) = some bytes →
    ∃ i, (calls i).object = id ∧ (calls i).operation = .create bytes
  replied : ∀ i reply, a.replies i = some reply →
    Replied (a.object.lookup (.v1For (calls i).object)) (calls i).operation reply

theorem Refines.replied (h : Refines root calls w a) (hrecorded : Recorded calls a)
    {operation : StorageOperation} {reply : StorageReply} (hc : (calls i).operation = operation)
    (hr : w.stage i = .returned reply) (hio : reply.isIo = false) :
    Replied (w.fs.contents (objectPath root (calls i).object)) operation reply := by
  rcases h.settled hr with hfailed | hreply
  · cases hio.symm.trans hfailed
  · rw [← h.objects, ← hc]
    exact hrecorded.replied i reply hreply

variable [DecidableEq ι]

/-- Each step of a call is a step of the storage in memory, by the same call. -/
theorem step_refines (hfresh : Function.Injective fun i => (calls i).temp root)
    (h : Refines root calls w a) (hstep : StorageWorld.Step root calls i w w') :
    ∃ b, Serve (fun i => (calls i).perform) i a b ∧ Refines root calls w' b := by
  obtain ⟨event, hstep⟩ := hstep
  unfold StorageWorld.step at hstep
  cases hcall : (calls i).step root w.fs (w.stage i) event with
  | none => simp [hcall] at hstep
  | some result =>
    obtain ⟨fs, stage⟩ := result
    simp only [hcall, Option.some.injEq] at hstep
    subst hstep
    have hnames {j : ι} (hj : j ≠ i) : (calls j).temp root ≠ (calls i).temp root :=
      hfresh.ne hj
    have hothers {j : ι} {reply : Option StorageReply} (hj : j ≠ i) (hreply : reply = a.replies j)
        {fs' : FileSystem} (hkeep : (calls j).Stands root w.fs (a.replies j) (w.stage j) →
          (calls j).Stands root fs' (a.replies j) (w.stage j)) :
        (calls j).Stands root fs' reply (Function.update w.stage i stage j) := by
      rw [Function.update_of_ne hj, hreply]
      exact hkeep (h.stands j)
    rcases (calls i).step_cases h.bounded (h.stands i) hcall with ⟨hprivate, hstands⟩ |
      ⟨hreply, bytes, file, hc, hfile, hdata, hfinal, rfl, rfl⟩ | ⟨hreply, rfl, hcommit⟩
    · refine ⟨a, .idle a, hprivate.bounded h.bounded, fun id => ?_, fun j => ?_⟩
      · rw [h.objects id, hprivate.contents_eq h.bounded tempPath_ne_objectPath.symm]
      · by_cases hj : j = i
        · subst hj
          simpa only [Function.update_self] using hstands
        · refine hothers hj rfl fun hs => hs.keep ?_ ?_ ?_ ?_
          · exact hprivate.inode_eq (hnames hj)
          · exact hprivate.contents_eq h.bounded (hnames hj)
          · exact fun file => hprivate.owns h.bounded (hnames hj)
          · intro file hfile
            have hne : (calls j).final root ≠ (calls i).temp root := tempPath_ne_objectPath.symm
            exact ⟨(hprivate.inode_eq hne).trans hfile, hprivate.data_eq h.bounded hne hfile⟩
    · have hmissing : w.fs.contents (objectPath root (calls i).object) = none := by
        rw [FileSystem.contents, show w.fs.inode (objectPath root (calls i).object) = none
          from hfinal]
        rfl
      have hcreated := (calls i).perform_create_new hc ((h.objects _).trans hmissing)
      refine ⟨_, .commit a hreply, h.bounded.link hfile, fun id => ?_, fun j => ?_⟩
      · rw [hcreated]
        by_cases hid : id = (calls i).object
        · subst hid
          rw [List.lookup_cons, beq_self_eq_true, ← hdata]
          exact FileSystem.contents_link_self.symm
        · have hkey := beq_false_of_ne (ObjectKey.v1For_injective.ne hid)
          have hpath : objectPath root id ≠ (calls i).final root :=
            (objectPath_injective root).ne hid
          rw [List.lookup_cons, hkey, FileSystem.contents_link_of_ne hpath]
          exact h.objects id
      · by_cases hj : j = i
        · subst hj
          simp only [Function.update_self, hcreated]
          unfold StorageCall.Stands
          simp only [hc]
          exact .inr rfl
        · have hpath : (calls j).temp root ≠ (calls i).final root := tempPath_ne_objectPath
          refine hothers hj (Function.update_of_ne hj _ _) fun hs => hs.keep ?_ ?_ ?_ ?_
          · exact FileSystem.inode_link_of_ne hpath
          · exact FileSystem.contents_link_of_ne hpath
          · exact fun own howns => howns.link hfile (hnames hj) hpath
          · intro existing hexisting
            have hne : (calls j).final root ≠ (calls i).final root := by
              intro he
              rw [he, hfinal] at hexisting
              cases hexisting
            exact ⟨(FileSystem.inode_link_of_ne hne).trans hexisting, rfl⟩
    · obtain ⟨hobjects, hstands⟩ := hcommit a.object (h.objects _)
      refine ⟨_, .commit a hreply, h.bounded, fun id => ?_, fun j => ?_⟩
      · rw [hobjects]
        exact h.objects id
      · by_cases hj : j = i
        · subst hj
          simpa only [Function.update_self] using hstands
        · exact hothers hj (Function.update_of_ne hj _ _) id

variable {b : Served ι (List (ObjectKey × Bytes)) StorageReply}

theorem serve_keeps (h : Serve (fun i => (calls i).perform) i a b) {key : ObjectKey}
    {bytes : Bytes} (hl : a.object.lookup key = some bytes) :
    b.object.lookup key = some bytes := by
  cases h with
  | idle => exact hl
  | commit _ => exact StorageCall.perform_keeps hl

theorem recorded_serve (h : Recorded calls a) (hserve : Serve (fun i => (calls i).perform) i a b) :
    Recorded calls b := by
  cases hserve with
  | idle => exact h
  | commit _ =>
    refine ⟨fun id bytes hl => ?_, fun j reply hj => ?_⟩
    · cases hold : a.object.lookup (.v1For id) with
      | some existing =>
        have hsame := StorageCall.perform_keeps (c := calls i) hold
        obtain rfl := Option.some.inj (hsame.symm.trans hl)
        exact h.written id existing hold
      | none =>
        cases hc : (calls i).operation with
        | create own =>
          cases hown : a.object.lookup (.v1For (calls i).object) with
          | none =>
            simp only [StorageCall.perform_create_new hc hown] at hl
            by_cases hid : id = (calls i).object
            · subst hid
              rw [List.lookup_cons, beq_self_eq_true] at hl
              obtain rfl := Option.some.inj hl
              exact ⟨i, rfl, hc⟩
            · have hkey := beq_false_of_ne (ObjectKey.v1For_injective.ne hid)
              rw [List.lookup_cons, hkey] at hl
              exact h.written id bytes hl
          | some existing =>
            simp only [StorageCall.perform_create_found hc hown] at hl
            exact h.written id bytes hl
        | read maxBytes =>
          simp only [StorageCall.perform, hc] at hl
          exact h.written id bytes hl
    · by_cases hij : j = i
      · subst hij
        simp only [Function.update_self] at hj
        obtain rfl := Option.some.inj hj
        exact (calls j).replied_perform a.object
      · simp only [Function.update_of_ne hij] at hj
        exact (h.replied j reply hj).keep fun _ => StorageCall.perform_keeps

/-- Objects appear once, with all of their bytes, and stay as they are; what creations and reads
return agrees with them. The files do what a storage in memory does. -/
theorem immutable_objects {u : StorageWorld ι} {l m : List ι}
    (hfresh : Function.Injective fun i => (calls i).temp root) (hinitial : u.Initial root calls)
    (hrun : Run (StorageWorld.Step root calls) l u w)
    (hlater : Run (StorageWorld.Step root calls) m w w') :
    (∀ id bytes, w.fs.contents (objectPath root id) = some bytes →
      (∃ i, (calls i).object = id ∧ (calls i).operation = .create bytes) ∧
        w'.fs.contents (objectPath root id) = some bytes) ∧
    (∀ i bytes, (calls i).operation = .create bytes →
      (w.stage i = .returned (.created (.ok ())) →
        w.fs.contents (objectPath root (calls i).object) = some bytes) ∧
      (w.stage i = .returned (.created (.error .immutableConflict)) →
        ∃ existing, w.fs.contents (objectPath root (calls i).object) = some existing ∧
          existing ≠ bytes)) ∧
    (∀ i maxBytes, (calls i).operation = .read maxBytes →
      (∀ bytes, w.stage i = .returned (.read (.ok bytes)) →
        w.fs.contents (objectPath root (calls i).object) = some bytes ∧
          bytes.length ≤ maxBytes.val) ∧
      ∀ kind, w.stage i = .returned (.read (.error (.sizeLimit kind))) →
        ∃ bytes, w.fs.contents (objectPath root (calls i).object) = some bytes ∧
          maxBytes.val < bytes.length) ∧
    ∃ a, Run (Serve fun i => (calls i).perform) l ⟨[], fun _ => none⟩ a ∧
      (∀ id, a.object.lookup (.v1For id) = w.fs.contents (objectPath root id)) ∧
      ∀ i reply, w.stage i = .returned reply →
        reply.isIo = true ∨ a.replies i = some reply := by
  have hstep (i : ι) (s t : StorageWorld ι)
      (a : Served ι (List (ObjectKey × Bytes)) StorageReply) (h : Refines root calls s a)
      (hs : StorageWorld.Step root calls i s t) :=
    step_refines hfresh h hs
  obtain ⟨a, hserve, href⟩ := hrun.simulate hstep hinitial.refines
  obtain ⟨b, hmore, href'⟩ := hlater.simulate hstep href
  have hrecorded : Recorded calls a :=
    hserve.invariant (fun _ _ _ => recorded_serve)
      { written := fun _ _ hl => by simp at hl
        replied := fun _ _ hreply => by simp at hreply }
  refine ⟨fun id bytes hbytes => ⟨?_, ?_⟩, fun i bytes hc => ⟨fun hr => ?_, fun hr => ?_⟩,
    fun i maxBytes hc => ⟨fun bytes hr => ?_, fun kind hr => ?_⟩, a, hserve, href.objects,
    fun i reply => href.settled⟩
  · exact hrecorded.written id bytes ((href.objects id).trans hbytes)
  · have hkept : b.object.lookup (.v1For id) = some bytes :=
      hmore.invariant (I := fun s => s.object.lookup (.v1For id) = some bytes)
        (fun _ _ _ hs hserve => serve_keeps hserve hs) ((href.objects id).trans hbytes)
    exact (href'.objects id).symm.trans hkept
  · cases href.replied hrecorded hc hr rfl with
    | created _ h => exact h
  · cases href.replied hrecorded hc hr rfl with
    | conflict _ existing h hne => exact ⟨existing, h, hne⟩
  · cases href.replied hrecorded hc hr rfl with
    | bytes _ _ h hle => exact ⟨h, hle⟩
  · cases href.replied hrecorded hc hr rfl with
    | tooLong _ bytes h hlt => exact ⟨bytes, h, hlt⟩

end

theorem StorageWorld.run_of_runEvents {ι : Type} [DecidableEq ι] {root : Path}
    {calls : ι → StorageCall} {events : List (ι × SystemEvent)} {w w' : StorageWorld ι}
    (h : StorageWorld.runEvents root calls events w = some w') :
    Run (StorageWorld.Step root calls) (events.map (·.1)) w w' := by
  induction events generalizing w with
  | nil =>
    obtain rfl := Option.some.inj h
    exact .nil w
  | cons e events ih =>
    obtain ⟨i, event⟩ := e
    rw [StorageWorld.runEvents] at h
    cases hs : w.step root calls i event with
    | none => simp [hs] at h
    | some v =>
      simp only [hs] at h
      exact .cons ⟨event, hs⟩ (ih h)

namespace Sample

def racers : Fin 3 → StorageCall
  | 0 => ⟨⟨Vector.replicate 16 1⟩, ⟨Vector.replicate 16 2⟩, .create [1]⟩
  | 1 => ⟨⟨Vector.replicate 16 1⟩, ⟨Vector.replicate 16 3⟩, .create [2]⟩
  | 2 => ⟨⟨Vector.replicate 16 1⟩, ⟨Vector.replicate 16 4⟩, .read 5⟩

def emptyDisk : StorageWorld (Fin 3) :=
  { fs := { inode := fun _ => none, data := fun _ => [], next := 0 }, stage := fun _ => .called }

/-- Two creations write, one links its file and crashes, the other finds the object. -/
def race : List (Fin 3 × SystemEvent) :=
  [(0, .done), (0, .done), (1, .done), (1, .done), (1, .chunk 1), (0, .chunk 1), (0, .done),
    (0, .done), (1, .done), (1, .done), (0, .done), (0, .crash), (1, .done), (2, .done),
    (1, .done), (1, .chunk 4), (1, .done), (2, .done), (2, .chunk 7), (1, .done), (2, .done)]

theorem racers_fresh : Function.Injective fun i => (racers i).temp ["storage"] := by
  have htemporaries : ∀ i j, (racers i).temporary = (racers j).temporary → i = j := by decide
  exact fun i j h => htemporaries i j (tempPath_inj h)

theorem race_stages : ((StorageWorld.runEvents ["storage"] racers race emptyDisk).map
    fun w => (w.stage 0, w.stage 1, w.stage 2)) =
      some (.crashed, .returned (.created (.error .immutableConflict)),
        .returned (.read (.ok [1]))) := by
  decide +kernel

end Sample

open Sample in
theorem immutable_objects_sample :
    ∃ w, StorageWorld.runEvents ["storage"] racers race emptyDisk = some w ∧
      w.fs.contents (objectPath ["storage"] ⟨Vector.replicate 16 1⟩) = some [1] ∧
      ∃ existing, w.fs.contents (objectPath ["storage"] ⟨Vector.replicate 16 1⟩) =
        some existing ∧ existing ≠ [2] := by
  have hstages := race_stages
  cases hw : StorageWorld.runEvents ["storage"] racers race emptyDisk with
  | none => simp [hw] at hstages
  | some w =>
    simp only [hw, Option.map_some, Option.some.injEq, Prod.mk.injEq] at hstages
    obtain ⟨_, hconflict, hread⟩ := hstages
    have hinitial : emptyDisk.Initial ["storage"] racers :=
      { bounded := fun _ _ h => by cases h
        objects := fun _ => rfl, temporaries := fun _ => rfl, called := fun _ => rfl }
    have hall := immutable_objects racers_fresh hinitial (StorageWorld.run_of_runEvents hw)
      (.nil w)
    exact ⟨w, rfl, (hall.2.2.1 2 5 rfl).1 [1] hread |>.1, (hall.2.1 1 [2] rfl).2 hconflict⟩

end Agentive
