import Agentive.AtomicObject
import Agentive.ObjectPath

/-! The storage of objects in files. A file system knows files by numbers, so that a link gives a
file a second name. Calls take one system call after another and may crash between any two. -/

namespace Agentive

/-- Names and bytes of files. No file has had a number from `next` on. -/
structure FileSystem where
  inode : Path → Option Nat
  data : Nat → Bytes
  next : Nat

inductive LinkError
  | notFound
  | alreadyExists
deriving DecidableEq

namespace FileSystem

/-- The file system as a map from paths to bytes. -/
def contents (fs : FileSystem) (path : Path) : Option Bytes := (fs.inode path).map fs.data

/-- A new file under a name that has none. -/
def createNew (fs : FileSystem) (path : Path) : Option (Nat × FileSystem) :=
  match fs.inode path with
  | some _ => none
  | none =>
    some (fs.next,
      { inode := Function.update fs.inode path (some fs.next)
        data := Function.update fs.data fs.next []
        next := fs.next + 1 })

def append (fs : FileSystem) (file : Nat) (chunk : Bytes) : FileSystem :=
  { fs with data := Function.update fs.data file (fs.data file ++ chunk) }

@[simp] theorem inode_append (fs : FileSystem) (file : Nat) (chunk : Bytes) :
    (fs.append file chunk).inode = fs.inode := rfl

@[simp] theorem data_append (fs : FileSystem) (file : Nat) (chunk : Bytes) :
    (fs.append file chunk).data = Function.update fs.data file (fs.data file ++ chunk) := rfl

def link (fs : FileSystem) (file : Nat) (path : Path) : FileSystem :=
  { fs with inode := Function.update fs.inode path (some file) }

@[simp] theorem inode_link (fs : FileSystem) (file : Nat) (path : Path) :
    (fs.link file path).inode = Function.update fs.inode path (some file) := rfl

@[simp] theorem data_link (fs : FileSystem) (file : Nat) (path : Path) :
    (fs.link file path).data = fs.data := rfl

def hardLink (fs : FileSystem) (source target : Path) : Except LinkError FileSystem :=
  match fs.inode source, fs.inode target with
  | none, _ => .error .notFound
  | some _, some _ => .error .alreadyExists
  | some file, none => .ok (fs.link file target)

def removeFile (fs : FileSystem) (path : Path) : FileSystem :=
  { fs with inode := Function.update fs.inode path none }

@[simp] theorem inode_removeFile (fs : FileSystem) (path : Path) :
    (fs.removeFile path).inode = Function.update fs.inode path none := rfl

end FileSystem

inductive StorageOperation
  | create (bytes : Bytes)
  | read (maxBytes : Usize)
deriving DecidableEq

/-- A call of the driver; a creation writes under a random temporary name first. -/
structure StorageCall where
  object : ObjectId
  temporary : ObjectId
  operation : StorageOperation

inductive StorageReply
  | created (result : Except PayloadError Unit)
  | read (result : Except PayloadError Bytes)
deriving DecidableEq

/-- The error of a system call, reported to the caller. -/
def StorageReply.isIo : StorageReply → Bool
  | .created (.error (.io ..)) | .read (.error (.io ..)) => true
  | _ => false

/-- Where a call stands: what it does next, with its open file and what it has read. -/
inductive StorageStage
  | called
  | opening
  | writing (file written : Nat)
  | syncing
  | linking
  | comparing
  | rereading (file : Nat) (existing : Bytes)
  | cleaning (result : Except PayloadError Unit)
  | opened (file : Nat)
  | reading (file : Nat) (bytes : Bytes)
  | returned (reply : StorageReply)
  | crashed
deriving DecidableEq

/-- How the next system call of a call goes. -/
inductive SystemEvent
  | done
  | chunk (size : Nat)
  | failed (message : String) (retry : RetryDisposition)
  | crash
deriving DecidableEq

def compareExisting (existing bytes : Bytes) : Except PayloadError Unit :=
  if existing = bytes then .ok () else .error .immutableConflict

/-- One read of at most `size` bytes, behind those that were read already. -/
def FileSystem.readChunk (fs : FileSystem) (file size : Nat) (already : Bytes) : Bytes :=
  already ++ ((fs.data file).drop already.length).take size

def FileSystem.atEnd (fs : FileSystem) (file : Nat) (already : Bytes) : Bool :=
  (fs.data file).length ≤ already.length

def createStep (final temp : Path) (bytes : Bytes) (fs : FileSystem) :
    StorageStage → SystemEvent → Option (FileSystem × StorageStage)
  | .called, .done => some (fs, .opening)
  | .called, .failed message retry => some (fs, .returned (.created (.error (.io message retry))))
  | .opening, .done =>
    match fs.createNew temp with
    | none => none
    | some (file, fs) => some (fs, .writing file 0)
  | .writing file written, .chunk size =>
    if 0 < size ∧ written + size ≤ bytes.length then
      some (fs.append file ((bytes.drop written).take size), .writing file (written + size))
    else none
  | .writing _ written, .done => if written = bytes.length then some (fs, .syncing) else none
  | .syncing, .done => some (fs, .linking)
  | .linking, .done =>
    match fs.hardLink temp final with
    | .ok fs => some (fs, .cleaning (.ok ()))
    | .error .alreadyExists => some (fs, .comparing)
    | .error .notFound => none
  | .comparing, .done =>
    match fs.inode final with
    | none => some (fs, .cleaning (.error .missingObject))
    | some file => some (fs, .rereading file [])
  | .rereading file existing, .chunk size =>
    some (fs, .rereading file (fs.readChunk file size existing))
  | .rereading file existing, .done =>
    if fs.atEnd file existing then some (fs, .cleaning (compareExisting existing bytes)) else none
  | .opening, .failed message retry | .writing .., .failed message retry
  | .syncing, .failed message retry | .linking, .failed message retry
  | .comparing, .failed message retry | .rereading .., .failed message retry =>
    some (fs, .cleaning (.error (.io message retry)))
  | .cleaning result, .done => some (fs.removeFile temp, .returned (.created result))
  | .cleaning (.ok ()), .failed message retry =>
    some (fs, .returned (.created (.error (.io message retry))))
  | .cleaning (.error e), .failed .. => some (fs, .returned (.created (.error e)))
  | _, _ => none

def readLimit (maxBytes : Usize) : U64 := maxBytes.cast.saturatingAdd 1

def readStep (final : Path) (maxBytes : Usize) (fs : FileSystem) :
    StorageStage → SystemEvent → Option (FileSystem × StorageStage)
  | .called, .done =>
    match fs.inode final with
    | none => some (fs, .returned (.read (.error .missingObject)))
    | some file => some (fs, .opened file)
  | .opened file, .done =>
    if maxBytes.val < (fs.data file).length then
      some (fs, .returned (.read (.error (.sizeLimit "stored payload"))))
    else some (fs, .reading file [])
  | .reading file bytes, .chunk size =>
    some (fs, .reading file
      (fs.readChunk file (min size ((readLimit maxBytes).val - bytes.length)) bytes))
  | .reading file bytes, .done =>
    if fs.atEnd file bytes || bytes.length = (readLimit maxBytes).val then
      if maxBytes.val < bytes.length then
        some (fs, .returned (.read (.error (.sizeLimit "stored payload"))))
      else some (fs, .returned (.read (.ok bytes)))
    else none
  | .called, .failed message retry | .opened _, .failed message retry
  | .reading .., .failed message retry => some (fs, .returned (.read (.error (.io message retry))))
  | _, _ => none

namespace StorageCall

/-- A call that is refused before its first system call. -/
def refused (c : StorageCall) (fs : FileSystem) (e : PayloadError) :
    StorageStage → Option (FileSystem × StorageStage)
  | .called =>
    match c.operation with
    | .create _ => some (fs, .returned (.created (.error e)))
    | .read _ => some (fs, .returned (.read (.error e)))
  | _ => none

def step (root : Path) (c : StorageCall) (fs : FileSystem) (stage : StorageStage)
    (event : SystemEvent) : Option (FileSystem × StorageStage) :=
  match stage, event with
  | .returned _, _ | .crashed, _ => none
  | _, .crash => some (fs, .crashed)
  | _, _ =>
    match pathFor root (.v1For c.object), c.operation with
    | .error e, _ => c.refused fs e stage
    | .ok final, .create bytes =>
      match parent final with
      | none => c.refused fs .malformedReference stage
      | some dir => createStep final (tempPath dir c.temporary) bytes fs stage event
    | .ok final, .read maxBytes => readStep final maxBytes fs stage event

end StorageCall

/-- A file system and the calls that work on it. -/
structure StorageWorld (ι : Type) where
  fs : FileSystem
  stage : ι → StorageStage

namespace StorageWorld

variable {ι : Type} [DecidableEq ι]

def step (root : Path) (calls : ι → StorageCall) (w : StorageWorld ι) (i : ι)
    (event : SystemEvent) : Option (StorageWorld ι) :=
  match (calls i).step root w.fs (w.stage i) event with
  | none => none
  | some (fs, stage) => some { fs, stage := Function.update w.stage i stage }

/-- One system call of one call, or its crash. -/
def Step (root : Path) (calls : ι → StorageCall) (i : ι) (w w' : StorageWorld ι) : Prop :=
  ∃ event, w.step root calls i event = some w'

end StorageWorld

/-- Some calls, in any order, by any number of steps each. -/
def StorageWorld.runEvents {ι : Type} [DecidableEq ι] (root : Path) (calls : ι → StorageCall) :
    List (ι × SystemEvent) → StorageWorld ι → Option (StorageWorld ι)
  | [], w => some w
  | (i, event) :: events, w =>
    match w.step root calls i event with
    | none => none
    | some w => runEvents root calls events w

end Agentive
