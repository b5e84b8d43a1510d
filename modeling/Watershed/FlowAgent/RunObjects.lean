/-
  The objects of a run (`conversations/run_objects.rs`): files named by the SHA-256 digests of
  their bytes, persisted in batches and read by their URIs.

  A crash leaves the directory in some state that it passed through, so the disk keeps a record
  of those states; a file that is written passes through every part of its bytes. The answers of
  the operating system and the digest are parameters.
-/
import Mathlib.Data.List.AList
import Watershed.Lib.StringMap
import Watershed.FlowAgent.Validate

namespace Watershed.FlowAgent.RunObjects

open Fallible
open Watershed.Proto

/-! ## Limits -/

/-- Maximum bytes stored in one immutable Run-owned object chunk. -/
def maxSessionObjectBytes : Nat := 16 * 1024 * 1024

/-- Maximum canonically named immutable objects owned by one Run. -/
def maxSessionObjects : Nat := 131072

def maxSessionBundleBytes : Nat := 11 * 512 * 1024 * 1024

def maxSessionContextManifestBytes : Nat := 48 * 1024 * 1024

def maxSessionMetadataBytes : Nat := 16 * 1024 * 1024

/-- Object-data share after reserving the event, manifest and metadata maxima. -/
def maxSessionObjectTotalBytes : Nat :=
  maxSessionBundleBytes - maxSessionEventBytes - maxSessionContextManifestBytes -
    maxSessionMetadataBytes

def ensureSessionObjectTotal (bytes : Nat) : Except RuntimeError Unit :=
  refuseIf (maxSessionObjectTotalBytes < bytes)
    ("Run bundle object data size " ++ toString bytes ++ " bytes exceeds max " ++
      toString maxSessionObjectTotalBytes)

/-- `checked_add` of `u64` and `usize`. -/
def checkedAdd (a b : Nat) : Option Nat := if a + b < 2 ^ 64 then some (a + b) else none

/-! ## The disk -/

inductive FileKind where
  | file
  | symlink
  | other
  deriving DecidableEq

inductive FileName where
  | utf8 (name : String)
  /-- Bytes that are not UTF-8. -/
  | other (bytes : List UInt8)
  deriving DecidableEq

def FileName.intoString : FileName → Option String
  | .utf8 name => some name
  | .other _ => none

structure ObjectFile where
  kind : FileKind
  bytes : List UInt8
  deriving DecidableEq

abbrev ObjectDirectory := AList fun _ : FileName => ObjectFile

/-- What a directory lists: names with their files. -/
abbrev Listing := List (Sigma fun _ : FileName => ObjectFile)

/-- The answers of the operating system, by the number of calls made before; `none` is success. -/
structure ObjectSystem where
  openDirectory : Nat → Option RuntimeError
  entries : Nat → Option String
  metadata : Nat → Option RuntimeError
  openFile : Nat → Option RuntimeError
  readToEnd : Nat → Option String
  create : Nat → Option RuntimeError
  /-- How many of the bytes are in the file when the write fails. -/
  write : Nat → Option (Nat × String)
  syncCheckpoint : Nat → Option RuntimeError
  syncAll : Nat → Option String
  syncDirectory : Nat → Option RuntimeError
  remove : Nat → Option RuntimeError
  /-- What is said about a file that does not exist. -/
  notFound : String

structure ObjectDisk where
  directory : ObjectDirectory
  /-- The states that the directory passed through. -/
  passed : List ObjectDirectory
  calls : Nat

namespace ObjectDisk

def start (directory : ObjectDirectory) : ObjectDisk :=
  { directory := directory, passed := [directory], calls := 0 }

/-- A call that only may fail. -/
def call {ε : Type} (answer : Nat → Option ε) : Fallible ε ObjectDisk Unit := fun disk =>
  (match answer disk.calls with
    | none => .ok ()
    | some error => .error error,
   { disk with calls := disk.calls + 1 })

/-- The directory becomes the last of `states`, by way of the others. -/
def passThrough (disk : ObjectDisk) (states : List ObjectDirectory) : ObjectDisk :=
  { disk with
    directory := states.getLastD disk.directory
    passed := disk.passed ++ states }

end ObjectDisk

def objectPath (objectDir digest : String) : String := objectDir ++ "/" ++ digest

section
variable (sys : ObjectSystem) (path leaf : String)

def fileNamed : Fallible RuntimeError ObjectDisk ObjectFile := do
  let found ← read fun disk => disk.directory.lookup (.utf8 leaf)
  okOr found (.io path sys.notFound)

/-- The kind and the length of a file. -/
def metadata : Fallible RuntimeError ObjectDisk ObjectFile := do
  ObjectDisk.call sys.metadata
  fileNamed sys path leaf

/-- Opens a file for reading or for updating; it has to be a real one. -/
def openAnchoredFile : Fallible RuntimeError ObjectDisk ObjectFile := do
  let metadata ← metadata sys path leaf
  lift (refuseIf (metadata.kind = .symlink) (path ++ " must not be a symlink or reparse point"))
  lift (refuseIf (metadata.kind ≠ .file) (path ++ " must be a file"))
  ObjectDisk.call sys.openFile
  pure metadata

/-- At most `limit` bytes of an open file. -/
def readToEnd (file : ObjectFile) (limit : Nat) : Fallible String ObjectDisk (List UInt8) := do
  ObjectDisk.call sys.readToEnd
  pure (file.bytes.take limit)

/-- Creates an empty file; a name that is taken is refused. -/
def createAnchoredFile : Fallible RuntimeError ObjectDisk Unit := do
  let found ← read fun disk => disk.directory.lookup (.utf8 leaf)
  match found with
  | some file =>
    if file.kind = .symlink then
      fail (.protocol (path ++ " must not be a symlink or reparse point"))
    else fail (.io path "file already exists")
  | none => do
    ObjectDisk.call sys.create
    change fun disk => disk.passThrough [disk.directory.insert (.utf8 leaf) ⟨.file, []⟩]

/-- `write_all` on a file that was just created. -/
def writeAll (leaf : String) (bytes : List UInt8) : Fallible String ObjectDisk Unit := do
  let answer ← read fun disk => sys.write disk.calls
  let written := match answer with
    | none => bytes.length
    | some (written, _) => written
  change fun disk => { disk.passThrough ((List.range (written + 1)).map fun n =>
    disk.directory.insert (.utf8 leaf) ⟨.file, bytes.take n⟩) with calls := disk.calls + 1 }
  match answer with
  | none => pure ()
  | some (_, source) => fail source

def removeFile : Fallible RuntimeError ObjectDisk Unit := do
  let _ ← fileNamed sys path leaf
  ObjectDisk.call sys.remove
  change fun disk => disk.passThrough [disk.directory.erase (.utf8 leaf)]

end

/-! ## The store -/

structure ContextObject where
  bytes : List UInt8
  digest : String
  deriving DecidableEq

structure RunObjectEntry where
  directorySynced : Bool
  length : Nat

structure RunObjectWriter where
  accountedBytes : Nat
  failed : Bool
  maximumObjects : Nat
  /-- The path of the directory. -/
  objectDir : String
  objects : StringMap RunObjectEntry

structure RunObjectUsageSnapshot where
  objectBytes : Nat
  objectCount : Nat
  deriving DecidableEq

/-- The 32 bytes of a digest are kept by their text; both have the same order. -/
def parseRunObjectDigest (value : String) : Except RuntimeError String :=
  if isLowercaseSha256Hex value.toList then .ok value
  else .error (.protocol "run object must be a lowercase SHA-256 digest")

def validateRecoveryObjectUri (uri : String) : Except RuntimeError String :=
  (parseSessionObjectUri uri).mapError fun _ =>
    .protocol "productive recovery object URI is invalid"

/-! ### Opening -/

section
variable (sys : ObjectSystem)

/-- One entry of the directory in `open_with_limit`. -/
def inventoryEntry (maximumObjects : Nat) (accountedBytes : Nat)
    (objects : StringMap RunObjectEntry) (name : FileName) (file : ObjectFile) :
    Except RuntimeError (Nat × StringMap RunObjectEntry) := do
  let name ← require name.intoString "run object name must be UTF-8"
  refuseIf (file.kind = .symlink ∨ file.kind ≠ .file ∨ maxSessionObjectBytes < file.bytes.length)
    "run object inventory is invalid"
  refuseIf (objects.size = maximumObjects) "run object count exceeds its limit"
  let digest ← parseRunObjectDigest name
  refuseIf (2 ^ 32 ≤ file.bytes.length) "run object inventory is invalid"
  let accountedBytes ← require (checkedAdd accountedBytes file.bytes.length)
    "run object byte count overflow"
  pure (accountedBytes,
    objects.insert digest { directorySynced := false, length := file.bytes.length })

def inventory (objectDir : String) (maximumObjects : Nat) :
    Listing → Nat → StringMap RunObjectEntry →
      Fallible RuntimeError ObjectDisk (Nat × StringMap RunObjectEntry)
  | [], accountedBytes, objects => pure (accountedBytes, objects)
  | ⟨name, file⟩ :: listing, accountedBytes, objects => do
    (ObjectDisk.call sys.entries).mapError (.io objectDir)
    ObjectDisk.call sys.metadata
    let counted ← lift (inventoryEntry maximumObjects accountedBytes objects name file)
    inventory objectDir maximumObjects listing counted.1 counted.2

/-- `listing` is what the system says is in the directory, in its own order. -/
def openWithLimit (objectDir : String) (listing : Listing) (maximumObjects : Nat) :
    Fallible RuntimeError ObjectDisk RunObjectWriter := do
  ObjectDisk.call sys.openDirectory
  (ObjectDisk.call sys.entries).mapError (.io objectDir)
  let counted ← inventory sys objectDir maximumObjects listing 0 ∅
  lift (ensureSessionObjectTotal counted.1)
  pure
    { accountedBytes := counted.1
      failed := false
      maximumObjects := maximumObjects
      objectDir := objectDir
      objects := counted.2 }

def RunObjectStore.open (objectDir : String) (listing : Listing) :
    Fallible RuntimeError ObjectDisk RunObjectWriter :=
  openWithLimit sys objectDir listing maxSessionObjects

end

/-! ### Admission of a batch -/

section
variable (sha256Hex : List UInt8 → String)

def addCandidate (candidates : StringMap ContextObject) (object : ContextObject) :
    Except RuntimeError (StringMap ContextObject) := do
  let digest ← parseRunObjectDigest object.digest
  refuseIf (sha256Hex object.bytes ≠ object.digest) "run object digest does not match its bytes"
  refuseIf (maxSessionObjectBytes < object.bytes.length) "run object exceeds its size limit"
  refuseIf (candidates[digest]?.any fun prior => prior.bytes ≠ object.bytes)
    "run object batch maps one digest to different bytes"
  pure (candidates.insert digest object)

/-- The candidates that are not in the inventory, in the order of their digests. -/
def newCandidates (writer : RunObjectWriter) (candidates : StringMap ContextObject) :
    List (String × ContextObject) :=
  candidates.toList.filter fun candidate => !writer.objects.contains candidate.1

def addObjectBytes (total : Nat) (candidate : String × ContextObject) : Except RuntimeError Nat :=
  require (checkedAdd total candidate.2.bytes.length) "run object byte count overflow"

/-- The part of `persist` before anything is read or written. -/
def admitBatch (writer : RunObjectWriter) (objects : List ContextObject) :
    Except RuntimeError (StringMap ContextObject) := do
  refuseIf writer.failed "run object store is closed after a prior failure"
  let candidates ← objects.foldlM (addCandidate sha256Hex) ∅
  let candidateCount ← require
    (checkedAdd writer.objects.size (newCandidates writer candidates).length)
    "run object count overflow"
  refuseIf (writer.maximumObjects < candidateCount) "run object count exceeds its limit"
  let candidateBytes ←
    (newCandidates writer candidates).foldlM addObjectBytes writer.accountedBytes
  ensureSessionObjectTotal candidateBytes
  pure candidates

end

/-! ### Persisting -/

structure Store where
  writer : RunObjectWriter
  disk : ObjectDisk

/-- A computation on the disk. -/
def onDisk {ε α : Type} (m : Fallible ε ObjectDisk α) : Fallible ε Store α :=
  zoom Store.disk (fun disk store => { store with disk := disk }) m

/-- `RunObjectWriter::fail`. -/
def close {α : Type} (error : RuntimeError) : Fallible RuntimeError Store α := do
  change fun store => { store with writer := { store.writer with failed := true } }
  fail error

/-- `match … { Err(error) => return self.fail(error), … }`. -/
def orClose {α : Type} (m : Fallible RuntimeError ObjectDisk α) :
    Fallible RuntimeError Store α := do
  match ← attempt (onDisk m) with
  | .ok a => pure a
  | .error error => close error

def closeIf (refused : Prop) [Decidable refused] (message : String) :
    Fallible RuntimeError Store Unit :=
  if refused then close (.protocol message) else pure ()

section
variable (sys : ObjectSystem)

/-- An object of the inventory is still the one that is persisted again. -/
def verifyObject (entry : RunObjectEntry) (object : ContextObject) :
    Fallible RuntimeError Store Unit := do
  let path ← read fun store => objectPath store.writer.objectDir object.digest
  let metadata ← orClose (metadata sys path object.digest)
  closeIf (metadata.kind ≠ .file ∨ metadata.bytes.length ≠ entry.length ∨
    metadata.bytes.length ≠ object.bytes.length) "existing run object does not match its digest"
  let file ← orClose (openAnchoredFile sys path object.digest)
  let bytes ← orClose ((readToEnd sys file (object.bytes.length + 1)).mapError (.io path))
  closeIf (bytes ≠ object.bytes) "existing run object does not match its digest"
  onDisk (ObjectDisk.call sys.syncCheckpoint)
  onDisk ((ObjectDisk.call sys.syncAll).mapError (.io path))

/-- Verifies the candidates of the inventory; returns those whose directory entry is not known
    to be synchronized. -/
def verifyExisting : List (String × ContextObject) → Fallible RuntimeError Store (List String)
  | [] => pure []
  | (digest, object) :: candidates => do
    let found ← read fun store => store.writer.objects[digest]?
    match found with
    | none => verifyExisting candidates
    | some entry => do
      verifyObject sys entry object
      let newly ← verifyExisting candidates
      pure (if entry.directorySynced then newly else digest :: newly)

def failCreated {α : Type} (error : RuntimeError) (path leaf : String) :
    Fallible RuntimeError Store α := do
  let cleanup ← attempt (onDisk (do
    removeFile sys path leaf
    ObjectDisk.call sys.syncDirectory))
  match cleanup with
  | .ok _ => fail error
  | .error _ => close error

/-- A new object enters the inventory. -/
def account (digest : String) (object : ContextObject) (store : Store) : Store :=
  { store with writer := { store.writer with
      objects := store.writer.objects.insert digest
        { directorySynced := true, length := object.bytes.length }
      accountedBytes := store.writer.accountedBytes + object.bytes.length } }

def createObject (digest : String) (object : ContextObject) : Fallible RuntimeError Store Unit := do
  let path ← read fun store => objectPath store.writer.objectDir object.digest
  orClose (createAnchoredFile sys path object.digest)
  match ← attempt (onDisk (do
    writeAll sys object.digest object.bytes
    ObjectDisk.call sys.syncAll)) with
  | .error source => failCreated sys (.io path source) path object.digest
  | .ok _ =>
    match ← attempt (onDisk (ObjectDisk.call sys.syncDirectory)) with
    | .error error => failCreated sys error path object.digest
    | .ok _ => change (account digest object)

def createMissing : List (String × ContextObject) → Fallible RuntimeError Store Unit
  | [] => pure ()
  | (digest, object) :: candidates => do
    let present ← read fun store => store.writer.objects.contains digest
    if present then createMissing candidates
    else do
      createObject sys digest object
      createMissing candidates

/-- The directory entries of these objects are synchronized. -/
def markSynced (digests : List String) (store : Store) : Store :=
  { store with writer := { store.writer with
      objects := digests.foldl (fun objects digest =>
        objects.modify digest fun entry => { entry with directorySynced := true })
        store.writer.objects } }

variable (sha256Hex : List UInt8 → String)

def RunObjectWriter.persist (objects : List ContextObject) :
    Fallible RuntimeError Store Unit := do
  let writer ← read Store.writer
  let candidates ← lift (admitBatch sha256Hex writer objects)
  let newly ← verifyExisting sys candidates.toList
  if newly.isEmpty then pure () else onDisk (ObjectDisk.call sys.syncDirectory)
  createMissing sys candidates.toList
  change (markSynced newly)

def RunObjectStore.persist (objects : List ContextObject) : Fallible RuntimeError Store Unit :=
  if objects.isEmpty then pure () else RunObjectWriter.persist sys sha256Hex objects

/-! ### Reading -/

def readRunObjectUri (objectDir uri : String) : Fallible RuntimeError ObjectDisk (List UInt8) := do
  let digest ← lift (validateRecoveryObjectUri uri)
  let path := objectPath objectDir digest
  let file ← openAnchoredFile sys path digest
  lift (refuseIf (maxSessionObjectBytes < file.bytes.length)
    "productive recovery object exceeds its byte limit")
  let bytes ← (readToEnd sys file (maxSessionObjectBytes + 1)).mapError (.io path)
  lift (refuseIf (maxSessionObjectBytes < bytes.length)
    "productive recovery object exceeds its byte limit")
  lift (refuseIf (sha256Hex bytes ≠ digest)
    "productive recovery object does not match its URI digest")
  pure bytes

def RunObjectStore.read (uri : String) : Fallible RuntimeError Store (List UInt8) := do
  let writer ← Fallible.read Store.writer
  lift (refuseIf writer.failed "run object store is closed after a prior failure")
  onDisk (readRunObjectUri sys sha256Hex writer.objectDir uri)

end

def RunObjectStore.usageSnapshot (writer : RunObjectWriter) :
    Except RuntimeError RunObjectUsageSnapshot := do
  refuseIf writer.failed "run object store is closed after a prior failure"
  pure { objectBytes := writer.accountedBytes, objectCount := writer.objects.size }

end Watershed.FlowAgent.RunObjects
