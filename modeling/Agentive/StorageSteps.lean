import Agentive.FilesystemStorage

/-! What one system call of a creation or of a read does. Until its link, what a creation writes is
its own file; after that its object is there, and it only reads. -/

namespace Agentive

namespace FileSystem

/-- No file has more than its number. -/
def Bounded (fs : FileSystem) : Prop := ∀ path file, fs.inode path = some file → file < fs.next

/-- The file has this name and no other. -/
def Owns (fs : FileSystem) (path : Path) (file : Nat) : Prop :=
  fs.inode path = some file ∧ ∀ other, fs.inode other = some file → other = path

/-- What a call does to its own temporary file. -/
inductive Private (fs : FileSystem) (temp : Path) : FileSystem → Prop
  | idle : Private fs temp fs
  | created (file : Nat) (fs' : FileSystem) (h : fs.createNew temp = some (file, fs')) :
      Private fs temp fs'
  | appended (file : Nat) (chunk : Bytes) (own : fs.Owns temp file) :
      Private fs temp (fs.append file chunk)
  | removed : Private fs temp (fs.removeFile temp)

variable {fs fs' : FileSystem} {temp path : Path}

theorem createNew_eq {file : Nat} (h : fs.createNew temp = some (file, fs')) :
    fs.inode temp = none ∧ file = fs.next ∧
      fs'.inode = Function.update fs.inode temp (some file) ∧
      fs'.data = Function.update fs.data file [] ∧ fs'.next = fs.next + 1 := by
  unfold createNew at h
  split at h
  · cases h
  · next hnone =>
    simp only [Option.some.injEq, Prod.mk.injEq] at h
    obtain ⟨rfl, rfl⟩ := h
    exact ⟨hnone, rfl, rfl, rfl, rfl⟩

theorem Private.inode_eq (h : Private fs temp fs') (hne : path ≠ temp) :
    fs'.inode path = fs.inode path := by
  cases h with
  | idle => rfl
  | created file _ h =>
    rw [(createNew_eq h).2.2.1]
    exact Function.update_of_ne hne _ _
  | appended file chunk own => rfl
  | removed => exact Function.update_of_ne hne _ _

theorem Private.data_eq (h : Private fs temp fs') (hb : fs.Bounded) (hne : path ≠ temp)
    {file : Nat} (hfile : fs.inode path = some file) : fs'.data file = fs.data file := by
  cases h with
  | idle => rfl
  | created next _ h =>
    obtain ⟨_, rfl, _, hdata, _⟩ := createNew_eq h
    have hlt := hb path file hfile
    rw [hdata]
    exact Function.update_of_ne (by omega) _ _
  | appended own chunk howns =>
    have hfiles : file ≠ own := fun he => hne (howns.2 path (he ▸ hfile))
    exact Function.update_of_ne hfiles _ _
  | removed => rfl

theorem Private.bounded (h : Private fs temp fs') (hb : fs.Bounded) : fs'.Bounded := by
  intro path file hfile
  cases h with
  | idle => exact hb path file hfile
  | created next _ h =>
    obtain ⟨_, rfl, hinode, _, hnext⟩ := createNew_eq h
    rw [hinode] at hfile
    by_cases hp : path = temp
    · rw [hp, Function.update_self] at hfile
      have hself := Option.some.inj hfile
      omega
    · rw [Function.update_of_ne hp] at hfile
      have hlt := hb path file hfile
      omega
  | appended own chunk howns => exact hb path file hfile
  | removed =>
    by_cases hp : path = temp
    · rw [hp, inode_removeFile, Function.update_self] at hfile
      cases hfile
    · rw [inode_removeFile, Function.update_of_ne hp] at hfile
      exact hb path file hfile

theorem Private.contents_eq (h : Private fs temp fs') (hb : fs.Bounded) (hne : path ≠ temp) :
    fs'.contents path = fs.contents path := by
  rw [contents, contents, h.inode_eq hne]
  cases hfile : fs.inode path with
  | none => rfl
  | some file => simp [h.data_eq hb hne hfile]

/-- The files of another call are still its own. -/
theorem Private.owns (h : Private fs temp fs') (hb : fs.Bounded) (hne : path ≠ temp) {file : Nat}
    (howns : fs.Owns path file) : fs'.Owns path file := by
  refine ⟨(h.inode_eq hne).trans howns.1, fun other hother => ?_⟩
  by_cases ho : other = temp
  · subst ho
    cases h with
    | idle => exact howns.2 other hother
    | created next _ h =>
      obtain ⟨_, rfl, hinode, _, _⟩ := createNew_eq h
      rw [hinode, Function.update_self] at hother
      have hself := Option.some.inj hother
      have hlt := hb path file howns.1
      omega
    | appended own chunk howns' => exact howns.2 other hother
    | removed =>
      rw [inode_removeFile, Function.update_self] at hother
      cases hother
  · exact howns.2 other ((h.inode_eq ho).symm.trans hother)

theorem contents_eq_some {bytes : Bytes} :
    fs.contents path = some bytes ↔ ∃ file, fs.inode path = some file ∧ fs.data file = bytes := by
  simp [contents]

section

variable {file : Nat} {final : Path} (hfile : fs.inode temp = some file)

theorem inode_link_of_ne (hne : path ≠ final) :
    (fs.link file final).inode path = fs.inode path := Function.update_of_ne hne _ _

theorem contents_link_of_ne (hne : path ≠ final) :
    (fs.link file final).contents path = fs.contents path := by
  rw [contents, contents, inode_link_of_ne hne, data_link]

theorem contents_link_self : (fs.link file final).contents final = some (fs.data file) := by
  rw [contents, inode_link, Function.update_self, data_link]
  rfl

include hfile

theorem Bounded.link (hb : fs.Bounded) : (fs.link file final).Bounded := by
  intro path other hother
  by_cases hp : path = final
  · rw [hp, inode_link, Function.update_self] at hother
    obtain rfl := Option.some.inj hother
    exact hb temp file hfile
  · rw [inode_link, Function.update_of_ne hp] at hother
    exact hb path other hother

/-- A new name for one file leaves the owner of another file alone. -/
theorem Owns.link {own : Nat} (howns : fs.Owns path own) (htemp : path ≠ temp)
    (hfinal : path ≠ final) : (fs.link file final).Owns path own := by
  have hfiles : file ≠ own := fun he => htemp (howns.2 temp (he ▸ hfile)).symm
  refine ⟨?_, fun other hother => ?_⟩
  · rw [inode_link, Function.update_of_ne hfinal]
    exact howns.1
  · by_cases ho : other = final
    · rw [ho, inode_link, Function.update_self] at hother
      exact absurd (Option.some.inj hother) hfiles
    · rw [inode_link, Function.update_of_ne ho] at hother
      exact howns.2 other hother

end

theorem readChunk_prefix {file size : Nat} {already : Bytes} (h : already <+: fs.data file) :
    fs.readChunk file size already <+: fs.data file := by
  have htake := List.prefix_iff_eq_take.mp h
  have hchunk : fs.readChunk file size already =
      (fs.data file).take (already.length + size) := by
    rw [readChunk, List.take_add, ← htake]
  rw [hchunk]
  exact List.take_prefix _ _

theorem eq_of_atEnd {file : Nat} {already : Bytes} (h : already <+: fs.data file)
    (hend : fs.atEnd file already = true) : already = fs.data file :=
  h.eq_of_length_le (by simpa [atEnd] using hend)

end FileSystem

/-- A returned reply is the one that the object gave, or reports a failed system call. -/
def Settled (reply : Option StorageReply) (r : StorageReply) : Prop :=
  r.isIo = true ∨ reply = some r

/-- What is true of a creation between its steps; `reply` is what the object has replied. -/
def StandsCreate (fs : FileSystem) (final temp : Path) (bytes : Bytes)
    (reply : Option StorageReply) : StorageStage → Prop
  | .called | .opening => fs.inode temp = none ∧ reply = none
  | .writing file written =>
    fs.Owns temp file ∧ fs.data file = bytes.take written ∧ reply = none
  | .syncing | .linking => fs.contents temp = some bytes ∧ reply = none
  | .comparing => ∃ existing, fs.contents final = some existing ∧
      reply = some (.created (compareExisting existing bytes))
  | .rereading file existing => fs.inode final = some file ∧ existing <+: fs.data file ∧
      reply = some (.created (compareExisting (fs.data file) bytes))
  | .cleaning result => Settled reply (.created result)
  | .returned r => Settled reply r
  | .crashed => True
  | .opened _ | .reading .. => False

/-- The reply to a read of an object with these bytes. -/
def readReply (maxBytes : Usize) (bytes : Bytes) : StorageReply :=
  .read (if maxBytes.val < bytes.length then .error (.sizeLimit "stored payload") else .ok bytes)

def StandsRead (fs : FileSystem) (final : Path) (maxBytes : Usize)
    (reply : Option StorageReply) : StorageStage → Prop
  | .called => reply = none
  | .opened file => fs.inode final = some file ∧
      reply = some (readReply maxBytes (fs.data file))
  | .reading file bytes => fs.inode final = some file ∧ bytes <+: fs.data file ∧
      (fs.data file).length ≤ maxBytes.val ∧ reply = some (.read (.ok (fs.data file)))
  | .returned r => Settled reply r
  | .crashed => True
  | _ => False

section

variable {fs fs' : FileSystem} {final temp : Path} {bytes : Bytes} {reply : Option StorageReply}
  {stage stage' : StorageStage} {event : SystemEvent}

theorem createStep_failed {message : String} {retry : RetryDisposition}
    (hs : StandsCreate fs final temp bytes reply stage)
    (h : createStep final temp bytes fs stage (.failed message retry) = some (fs', stage')) :
    fs.Private temp fs' ∧ StandsCreate fs' final temp bytes reply stage' := by
  cases stage with
  | called | opening | writing | syncing | linking | comparing | rereading =>
    simp only [createStep, Option.some.injEq, Prod.mk.injEq] at h
    obtain ⟨rfl, rfl⟩ := h
    exact ⟨.idle, .inl rfl⟩
  | cleaning result =>
    cases result with
    | ok =>
      simp only [createStep, Option.some.injEq, Prod.mk.injEq] at h
      obtain ⟨rfl, rfl⟩ := h
      exact ⟨.idle, .inl rfl⟩
    | error e =>
      simp only [createStep, Option.some.injEq, Prod.mk.injEq] at h
      obtain ⟨rfl, rfl⟩ := h
      exact ⟨.idle, hs⟩
  | opened | reading => exact hs.elim
  | returned | crashed => cases h

theorem createStep_chunk {size : Nat} (hs : StandsCreate fs final temp bytes reply stage)
    (h : createStep final temp bytes fs stage (.chunk size) = some (fs', stage')) :
    fs.Private temp fs' ∧ StandsCreate fs' final temp bytes reply stage' := by
  cases stage with
  | writing file written =>
    obtain ⟨howns, hdata, hreply⟩ := hs
    simp only [createStep] at h
    by_cases hroom : 0 < size ∧ written + size ≤ bytes.length
    · rw [if_pos hroom, Option.some.injEq, Prod.mk.injEq] at h
      obtain ⟨rfl, rfl⟩ := h
      refine ⟨.appended file _ howns, howns, ?_, hreply⟩
      rw [FileSystem.data_append, Function.update_self, hdata, List.take_add]
    · rw [if_neg hroom] at h
      cases h
  | rereading file existing =>
    obtain ⟨hfile, hprefix, hreply⟩ := hs
    simp only [createStep, Option.some.injEq, Prod.mk.injEq] at h
    obtain ⟨rfl, rfl⟩ := h
    exact ⟨.idle, hfile, FileSystem.readChunk_prefix hprefix, hreply⟩
  | called | opening | syncing | linking | comparing | cleaning => cases h
  | opened | reading => exact hs.elim
  | returned | crashed => cases h

theorem stands_created (hb : fs.Bounded) {file : Nat}
    (hnew : fs.createNew temp = some (file, fs')) : fs'.Owns temp file ∧ fs'.data file = [] := by
  obtain ⟨_, rfl, hinode, hdata, _⟩ := FileSystem.createNew_eq hnew
  refine ⟨⟨?_, fun other hother => ?_⟩, ?_⟩
  · rw [hinode, Function.update_self]
  · by_contra hne
    rw [hinode, Function.update_of_ne hne] at hother
    exact Nat.lt_irrefl _ (hb _ _ hother)
  · rw [hdata, Function.update_self]

/-- A step of a creation is at its own file, or it is its commit: it links the file, or finds that
the object is there. -/
theorem createStep_cases (hb : fs.Bounded) (hs : StandsCreate fs final temp bytes reply stage)
    (h : createStep final temp bytes fs stage event = some (fs', stage')) :
    (fs.Private temp fs' ∧ StandsCreate fs' final temp bytes reply stage') ∨
    (reply = none ∧ stage' = .cleaning (.ok ()) ∧ ∃ file, fs.inode temp = some file ∧
      fs.data file = bytes ∧ fs.inode final = none ∧ fs' = fs.link file final) ∨
    (reply = none ∧ stage' = .comparing ∧ fs' = fs ∧
      ∃ existing, fs.contents final = some existing) := by
  cases event with
  | failed message retry => exact .inl (createStep_failed hs h)
  | chunk size => exact .inl (createStep_chunk hs h)
  | crash => cases stage <;> cases h
  | done =>
    cases stage with
    | called | syncing =>
      simp only [createStep, Option.some.injEq, Prod.mk.injEq] at h
      obtain ⟨rfl, rfl⟩ := h
      exact .inl ⟨.idle, hs⟩
    | opening =>
      cases hnew : fs.createNew temp with
      | none => simp [createStep, hnew] at h
      | some created =>
        obtain ⟨file, fs₁⟩ := created
        simp only [createStep, hnew, Option.some.injEq, Prod.mk.injEq] at h
        obtain ⟨rfl, rfl⟩ := h
        obtain ⟨howns, hdata⟩ := stands_created hb hnew
        exact .inl ⟨.created _ _ hnew, howns, hdata, hs.2⟩
    | writing file written =>
      obtain ⟨howns, hdata, hreply⟩ := hs
      simp only [createStep] at h
      by_cases hlength : written = bytes.length
      · rw [if_pos hlength, Option.some.injEq, Prod.mk.injEq] at h
        obtain ⟨rfl, rfl⟩ := h
        rw [hlength, List.take_length] at hdata
        exact .inl ⟨.idle, FileSystem.contents_eq_some.mpr ⟨file, howns.1, hdata⟩, hreply⟩
      · rw [if_neg hlength] at h
        cases h
    | linking =>
      obtain ⟨htemp, hreply⟩ := hs
      obtain ⟨file, hfile, hdata⟩ := FileSystem.contents_eq_some.mp htemp
      simp only [createStep, FileSystem.hardLink, hfile] at h
      cases hfinal : fs.inode final with
      | none =>
        simp only [hfinal, Option.some.injEq, Prod.mk.injEq] at h
        obtain ⟨rfl, rfl⟩ := h
        exact .inr (.inl ⟨hreply, rfl, file, hfile, hdata, rfl, rfl⟩)
      | some existing =>
        simp only [hfinal, Option.some.injEq, Prod.mk.injEq] at h
        obtain ⟨rfl, rfl⟩ := h
        have hcontents := FileSystem.contents_eq_some.mpr ⟨existing, hfinal, rfl⟩
        exact .inr (.inr ⟨hreply, rfl, rfl, _, hcontents⟩)
    | comparing =>
      obtain ⟨existing, hcontents, hreply⟩ := hs
      obtain ⟨file, hfile, rfl⟩ := FileSystem.contents_eq_some.mp hcontents
      simp only [createStep, hfile, Option.some.injEq, Prod.mk.injEq] at h
      obtain ⟨rfl, rfl⟩ := h
      exact .inl ⟨.idle, hfile, List.nil_prefix, hreply⟩
    | rereading file existing =>
      obtain ⟨hfile, hprefix, hreply⟩ := hs
      simp only [createStep] at h
      by_cases hend : fs.atEnd file existing = true
      · rw [if_pos hend, Option.some.injEq, Prod.mk.injEq] at h
        obtain ⟨rfl, rfl⟩ := h
        rw [← FileSystem.eq_of_atEnd hprefix hend] at hreply
        exact .inl ⟨.idle, .inr hreply⟩
      · rw [if_neg hend] at h
        cases h
    | cleaning result =>
      simp only [createStep, Option.some.injEq, Prod.mk.injEq] at h
      obtain ⟨rfl, rfl⟩ := h
      exact .inl ⟨.removed, hs⟩
    | opened | reading => exact hs.elim
    | returned | crashed => cases h

section

variable {maxBytes : Usize}

theorem readStep_failed {message : String} {retry : RetryDisposition}
    (hs : StandsRead fs final maxBytes reply stage)
    (h : readStep final maxBytes fs stage (.failed message retry) = some (fs', stage')) :
    fs' = fs ∧ StandsRead fs final maxBytes reply stage' := by
  cases stage with
  | called | opened | reading =>
    simp only [readStep, Option.some.injEq, Prod.mk.injEq] at h
    obtain ⟨rfl, rfl⟩ := h
    exact ⟨rfl, .inl rfl⟩
  | returned | crashed => cases h
  | opening | writing | syncing | linking | comparing | rereading | cleaning => exact hs.elim

theorem readStep_chunk {size : Nat} (hs : StandsRead fs final maxBytes reply stage)
    (h : readStep final maxBytes fs stage (.chunk size) = some (fs', stage')) :
    fs' = fs ∧ StandsRead fs final maxBytes reply stage' := by
  cases stage with
  | reading file bytes =>
    obtain ⟨hfile, hprefix, hfits, hreply⟩ := hs
    simp only [readStep, Option.some.injEq, Prod.mk.injEq] at h
    obtain ⟨rfl, rfl⟩ := h
    exact ⟨rfl, hfile, FileSystem.readChunk_prefix hprefix, hfits, hreply⟩
  | called | opened | returned | crashed => cases h
  | opening | writing | syncing | linking | comparing | rereading | cleaning => exact hs.elim

theorem eq_of_readStop {file : Nat} {already : Bytes} (hread : already <+: fs.data file)
    (hfits : (fs.data file).length ≤ maxBytes.val)
    (hstop : (fs.atEnd file already ||
      decide (already.length = (readLimit maxBytes).val)) = true) :
    already = fs.data file := by
  have hlimit : maxBytes.val ≤ (readLimit maxBytes).val := by
    have hcap := maxBytes.le_cap
    simp only [readLimit, Capped.val_saturatingAdd, Capped.val_cast, Capped.val_one]
    omega
  rcases Bool.or_eq_true_iff.mp hstop with hend | hfull
  · exact FileSystem.eq_of_atEnd hread hend
  · have hfull := of_decide_eq_true hfull
    exact hread.eq_of_length_le (by omega)

/-- A step of a read leaves the file system alone; opening the file is its commit. -/
theorem readStep_cases (hs : StandsRead fs final maxBytes reply stage)
    (h : readStep final maxBytes fs stage event = some (fs', stage')) :
    fs' = fs ∧ (StandsRead fs final maxBytes reply stage' ∨
      (reply = none ∧ fs.inode final = none ∧
        stage' = .returned (.read (.error .missingObject))) ∨
      (reply = none ∧ ∃ file, fs.inode final = some file ∧ stage' = .opened file)) := by
  cases event with
  | failed message retry => exact (readStep_failed hs h).imp_right .inl
  | chunk size => exact (readStep_chunk hs h).imp_right .inl
  | crash => cases stage <;> cases h
  | done =>
    cases stage with
    | called =>
      simp only [readStep] at h
      cases hfinal : fs.inode final with
      | none =>
        simp only [hfinal, Option.some.injEq, Prod.mk.injEq] at h
        obtain ⟨rfl, rfl⟩ := h
        exact ⟨rfl, .inr (.inl ⟨hs, rfl, rfl⟩)⟩
      | some file =>
        simp only [hfinal, Option.some.injEq, Prod.mk.injEq] at h
        obtain ⟨rfl, rfl⟩ := h
        exact ⟨rfl, .inr (.inr ⟨hs, file, rfl, rfl⟩)⟩
    | opened file =>
      obtain ⟨hfile, hreply⟩ := hs
      simp only [readStep] at h
      rw [readReply] at hreply
      by_cases hlong : maxBytes.val < (fs.data file).length
      · rw [if_pos hlong, Option.some.injEq, Prod.mk.injEq] at h
        obtain ⟨rfl, rfl⟩ := h
        rw [if_pos hlong] at hreply
        exact ⟨rfl, .inl (.inr hreply)⟩
      · rw [if_neg hlong, Option.some.injEq, Prod.mk.injEq] at h
        obtain ⟨rfl, rfl⟩ := h
        rw [if_neg hlong] at hreply
        exact ⟨rfl, .inl ⟨hfile, List.nil_prefix, Nat.le_of_not_lt hlong, hreply⟩⟩
    | reading file already =>
      obtain ⟨hfile, hprefix, hfits, hreply⟩ := hs
      have hle := hprefix.length_le
      simp only [readStep] at h
      by_cases hstop : (fs.atEnd file already ||
          decide (already.length = (readLimit maxBytes).val)) = true
      · rw [if_pos hstop, if_neg (by omega), Option.some.injEq, Prod.mk.injEq] at h
        obtain ⟨rfl, rfl⟩ := h
        have hall := eq_of_readStop hprefix hfits hstop
        exact ⟨rfl, .inl (.inr (hall ▸ hreply))⟩
      · rw [if_neg hstop] at h
        cases h
    | returned | crashed => cases h
    | opening | writing | syncing | linking | comparing | rereading | cleaning => exact hs.elim

end

/-- The steps of others leave a creation where it stands. -/
theorem StandsCreate.keep (hs : StandsCreate fs final temp bytes reply stage)
    (hinode : fs'.inode temp = fs.inode temp) (htemp : fs'.contents temp = fs.contents temp)
    (howns : ∀ file, fs.Owns temp file → fs'.Owns temp file)
    (hfinal : ∀ file, fs.inode final = some file →
      fs'.inode final = some file ∧ fs'.data file = fs.data file) :
    StandsCreate fs' final temp bytes reply stage := by
  cases stage with
  | called => exact ⟨hinode.trans hs.1, hs.2⟩
  | opening => exact ⟨hinode.trans hs.1, hs.2⟩
  | writing file written =>
    obtain ⟨hown, hdata, hreply⟩ := hs
    have hsame : fs'.data file = fs.data file := by
      simpa [FileSystem.contents, hinode, hown.1] using htemp
    exact ⟨howns file hown, hsame.trans hdata, hreply⟩
  | syncing => exact ⟨htemp.trans hs.1, hs.2⟩
  | linking => exact ⟨htemp.trans hs.1, hs.2⟩
  | comparing =>
    obtain ⟨existing, hcontents, hreply⟩ := hs
    obtain ⟨file, hfile, rfl⟩ := FileSystem.contents_eq_some.mp hcontents
    obtain ⟨hfile', hdata⟩ := hfinal file hfile
    exact ⟨_, FileSystem.contents_eq_some.mpr ⟨file, hfile', hdata⟩, hreply⟩
  | rereading file existing =>
    obtain ⟨hfile, hprefix, hreply⟩ := hs
    obtain ⟨hfile', hdata⟩ := hfinal file hfile
    rw [← hdata] at hprefix hreply
    exact ⟨hfile', hprefix, hreply⟩
  | cleaning => exact hs
  | returned => exact hs
  | crashed => exact hs
  | opened => exact hs
  | reading => exact hs

theorem StandsRead.keep {maxBytes : Usize} (hs : StandsRead fs final maxBytes reply stage)
    (hfinal : ∀ file, fs.inode final = some file →
      fs'.inode final = some file ∧ fs'.data file = fs.data file) :
    StandsRead fs' final maxBytes reply stage := by
  cases stage with
  | opened file =>
    obtain ⟨hfile, hreply⟩ := hs
    obtain ⟨hfile', hdata⟩ := hfinal file hfile
    rw [← hdata] at hreply
    exact ⟨hfile', hreply⟩
  | reading file bytes =>
    obtain ⟨hfile, hprefix, hfits, hreply⟩ := hs
    obtain ⟨hfile', hdata⟩ := hfinal file hfile
    rw [← hdata] at hprefix hfits hreply
    exact ⟨hfile', hprefix, hfits, hreply⟩
  | _ => exact hs

end

end Agentive
