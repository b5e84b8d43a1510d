/-
  The segmented log of a session and its appender (`segmented_appender.rs`,
  `fs_guards/segmented_jsonl.rs`).

  A log is a list of segment files. The appender writes batches of records to the last segment
  and starts the next one when a record does not fit. The answers of the operating system are a
  parameter, `System`: every call may fail, and a failing write leaves any part of its bytes.
-/
import Watershed.FlowAgent.Basic

namespace Watershed.FlowAgent

open Fallible

/-! ## Limits and paths -/

/-- Maximum bytes of one segment file. -/
def maxSessionSegmentBytes : Nat := 16 * 1024 * 1024

def maxSegmentOrdinal : Nat := 999999

structure SessionStreamLimits where
  maxSegments : Nat
  maxTotalBytes : Nat
  deriving DecidableEq

/-- A file named in a directory that is held open. -/
structure AnchoredFile where
  parent : String
  leaf : String
  deriving DecidableEq

namespace AnchoredFile

def diagnosticPath (file : AnchoredFile) : String := file.parent ++ "/" ++ file.leaf

end AnchoredFile

/-- `{ordinal:06}`. -/
def sixDigits (ordinal : Nat) : String :=
  let digits := toString ordinal
  String.ofList (List.replicate (6 - digits.length) '0') ++ digits

def segmentedJsonlLeaf (stem : String) (ordinal : Nat) : Option String :=
  if ordinal = 1 then some (stem ++ ".jsonl")
  else if 2 ≤ ordinal ∧ ordinal ≤ maxSegmentOrdinal then
    some (stem ++ "." ++ sixDigits ordinal ++ ".jsonl")
  else none

def segmentedJsonlLeafStem (name : String) : Option String :=
  (name.dropSuffix? ".jsonl").map (·.copy)

def segmentedJsonlStem (base : AnchoredFile) : Except RuntimeError String := do
  let stem ← require (segmentedJsonlLeafStem base.leaf)
    (base.diagnosticPath ++ " segmented JSONL path must end in .jsonl")
  refuseIf (stem.toList.any fun c => 128 ≤ c.toNat)
    (base.diagnosticPath ++ " segmented JSONL stem must be ASCII")
  pure stem

def segmentedJsonlPath (base : AnchoredFile) (ordinal : Nat) : Except RuntimeError AnchoredFile :=
  if ordinal = 1 then .ok base
  else do
    let stem ← segmentedJsonlStem base
    let leaf ← require (segmentedJsonlLeaf stem ordinal) "segmented JSONL ordinal is exhausted"
    pure { base with leaf := leaf }

/-! ## The disk -/

/-- The answers of the operating system, by the number of calls made before. Where an answer is
    optional, `none` is success. -/
structure System where
  /-- How many of the bytes are in the file when the write fails. -/
  write : Nat → Option (Nat × String)
  seek : Nat → Option String
  setLen : Nat → Option String
  syncAll : Nat → Option String
  metadata : Nat → Option String
  /-- The checks that an open file is still the one its path names. -/
  verifyOwned : Nat → Option RuntimeError
  /-- Whether the watched directory changed. -/
  changed : Nat → Except RuntimeError Bool
  reserve : Nat → Option RuntimeError
  syncParent : Nat → Option RuntimeError
  /-- Opening a segment for appending, with the check that it is the file that was expected. -/
  openAppend : Nat → Option RuntimeError

/-- The segment files of a log, the base file first, and how often the system was called. -/
structure Disk where
  segments : List (List UInt8)
  calls : Nat

namespace Disk

/-- The bytes of the segment with the given ordinal. -/
def content (disk : Disk) (ordinal : Nat) : List UInt8 := disk.segments.getD (ordinal - 1) []

def setContent (disk : Disk) (ordinal : Nat) (bytes : List UInt8) : Disk :=
  { disk with segments := disk.segments.set (ordinal - 1) bytes }

/-- A call that only may fail. -/
def call {ε : Type} (answer : Nat → Option ε) : Fallible ε Disk Unit := fun disk =>
  (match answer disk.calls with
    | none => .ok ()
    | some error => .error error,
   { disk with calls := disk.calls + 1 })

end Disk

section
variable (sys : System)

def fileLen (ordinal : Nat) : Fallible String Disk Nat := do
  Disk.call sys.metadata
  read fun disk => (disk.content ordinal).length

/-- `write_all` on a file opened for appending. -/
def writeAll (ordinal : Nat) (bytes : List UInt8) : Fallible String Disk Unit := fun disk =>
  let append (part : List UInt8) : Disk :=
    { disk.setContent ordinal (disk.content ordinal ++ part) with calls := disk.calls + 1 }
  match sys.write disk.calls with
  | none => (.ok (), append bytes)
  | some (written, source) => (.error source, append (bytes.take written))

/-- `set_len`: cuts the file, or fills it up with zeros. -/
def setLen (ordinal len : Nat) : Fallible String Disk Unit := do
  Disk.call sys.setLen
  change fun disk =>
    let bytes := disk.content ordinal
    disk.setContent ordinal (bytes.take len ++ List.replicate (len - bytes.length) 0)

def cleanupIncompleteSuffix (ordinal retainedLen : Nat) : Fallible String Disk Unit := do
  setLen sys ordinal retainedLen
  Disk.call sys.syncAll

/-- Creates the next segment; a name that is taken is refused. -/
def reserveNewAnchoredFile (next : AnchoredFile) (ordinal : Nat) :
    Fallible RuntimeError Disk Unit := do
  Disk.call sys.reserve
  let count ← read fun disk => disk.segments.length
  if count + 1 = ordinal then change fun disk => { disk with segments := disk.segments ++ [[]] }
  else fail (.io next.diagnosticPath "File exists")

/-! ## Rotation -/

def sessionStreamRecordRequiresRotation (path : AnchoredFile) (limits : SessionStreamLimits)
    (currentBytes currentOrdinal totalBytes appendedBytes : Nat) : Except RuntimeError Bool := do
  refuseIf (maxSessionSegmentBytes < appendedBytes)
    (path.diagnosticPath ++ " JSONL record is " ++ toString appendedBytes ++
      " bytes; max segment size is " ++ toString maxSessionSegmentBytes)
  let total := saturatingAdd totalBytes appendedBytes
  refuseIf (limits.maxTotalBytes < total)
    (path.diagnosticPath ++ " segmented JSONL size " ++ toString total ++ " bytes exceeds max " ++
      toString limits.maxTotalBytes)
  if currentBytes = 0 ∨ saturatingAdd currentBytes appendedBytes ≤ maxSessionSegmentBytes then
    pure false
  else do
    refuseIf (limits.maxSegments ≤ currentOrdinal)
      (path.diagnosticPath ++ " segment count exceeds max " ++ toString limits.maxSegments)
    pure true

structure SessionLogAppender where
  basePath : AnchoredFile
  currentBytes : Nat
  currentOrdinal : Nat
  /-- The directory is watched, so it is only scanned when it changed. -/
  inventoryWatch : Bool
  limits : SessionStreamLimits
  /-- The sizes of the segments before the current one. -/
  sealedSegments : List Nat
  totalBytes : Nat
  deriving DecidableEq

namespace SessionLogAppender

variable (appender : SessionLogAppender)

def currentPath : Except RuntimeError AnchoredFile :=
  segmentedJsonlPath appender.basePath appender.currentOrdinal

/-- The directory holds the expected number of segments, and no more than allowed. -/
def verifySegmentedJsonlInventory (base : AnchoredFile) (limits : SessionStreamLimits)
    (expectedSegmentCount : Nat) : Fallible RuntimeError Disk Unit := do
  let count ← read fun disk => disk.segments.length
  lift (refuseIf (2 ≤ count ∧ limits.maxSegments < count)
    (base.diagnosticPath ++ " segment count exceeds max " ++ toString limits.maxSegments))
  lift (refuseIf (count ≠ expectedSegmentCount)
    (base.diagnosticPath ++ " segment inventory changed outside append semantics: expected " ++
      toString expectedSegmentCount ++ " segments, found " ++ toString count))

/-- An open segment is the file its path names, and has the size it was left with. -/
def verifySegment (path : AnchoredFile) (ordinal bytes : Nat) : Fallible RuntimeError Disk Unit := do
  Disk.call sys.verifyOwned
  let actual ← (fileLen sys ordinal).mapError (.io path.diagnosticPath)
  lift (refuseIf (actual ≠ bytes)
    (path.diagnosticPath ++ " changed outside append semantics: expected " ++ toString bytes ++
      " bytes, found " ++ toString actual))

def verifySealed (base : AnchoredFile) : Nat → List Nat → Fallible RuntimeError Disk Unit
  | _, [] => pure ()
  | ordinal, bytes :: rest => do
    let path ← lift (segmentedJsonlPath base ordinal)
    verifySegment sys path ordinal bytes
    verifySealed base (ordinal + 1) rest

def inventoryChanged : Fallible RuntimeError Disk Bool :=
  if appender.inventoryWatch then fun disk =>
    (sys.changed disk.calls, { disk with calls := disk.calls + 1 })
  else pure false

def verifyInventory (scanInventory : Bool) :
    Fallible RuntimeError Disk Unit :=
  if scanInventory then
    verifySegmentedJsonlInventory appender.basePath appender.limits appender.currentOrdinal
  else pure ()

/-- One pass of `verify_current_segment`. -/
def verifyPass (scanInventory : Bool) :
    Fallible RuntimeError Disk AnchoredFile := do
  appender.verifyInventory scanInventory
  verifySealed sys appender.basePath 1 appender.sealedSegments
  let current ← lift appender.currentPath
  verifySegment sys current appender.currentOrdinal appender.currentBytes
  pure current

/-- A change of the directory during a pass that did not scan it makes for a second pass. -/
def verifyCurrentSegment :
    Fallible RuntimeError Disk AnchoredFile := do
  let changed ← appender.inventoryChanged sys
  let scanInventory := !appender.inventoryWatch || changed
  let current ← appender.verifyPass sys scanInventory
  let changed ← appender.inventoryChanged sys
  let refused : RuntimeError :=
    .protocol (appender.basePath.diagnosticPath ++ " segment inventory changed during verification")
  if !changed then pure current
  else if scanInventory then fail refused
  else do
    let current ← appender.verifyPass sys true
    let changed ← appender.inventoryChanged sys
    if changed then fail refused else pure current

end SessionLogAppender

/-- An appender and the disk it writes to. -/
structure Session where
  appender : SessionLogAppender
  disk : Disk

/-- A computation on the disk. -/
def onDisk {ε α : Type} (m : Fallible ε Disk α) : Fallible ε Session α :=
  zoom Session.disk (fun disk session => { session with disk := disk }) m

namespace SessionLogAppender

def verifySession : Fallible RuntimeError Session AnchoredFile := fun session =>
  onDisk (session.appender.verifyCurrentSegment sys) session

/-- Starts the next segment: `nextOrdinal` was just reserved. -/
def moveTo (nextOrdinal : Nat) (session : Session) : Session :=
  let appender := session.appender
  { session with appender := { appender with
      sealedSegments := appender.sealedSegments ++ [appender.currentBytes]
      currentOrdinal := nextOrdinal
      currentBytes := 0 } }

def rotate (currentPath : AnchoredFile) : Fallible RuntimeError Session AnchoredFile := do
  onDisk ((Disk.call sys.syncAll).mapError (.io currentPath.diagnosticPath))
  let _ ← verifySession sys
  let appender ← read Session.appender
  let nextOrdinal := saturatingAdd appender.currentOrdinal 1
  let next ← lift (segmentedJsonlPath appender.basePath nextOrdinal)
  onDisk (reserveNewAnchoredFile sys next nextOrdinal)
  onDisk (Disk.call sys.syncParent)
  onDisk (Disk.call sys.openAppend)
  change (moveTo nextOrdinal)
  verifySession sys

/-- The segment for a record: the current one, or a new one if the record does not fit. -/
def rotateBefore (appendedBytes : Nat) : Fallible RuntimeError Session AnchoredFile := do
  let currentPath ← verifySession sys
  let appender ← read Session.appender
  let rotation ← lift (sessionStreamRecordRequiresRotation appender.basePath appender.limits
    appender.currentBytes appender.currentOrdinal appender.totalBytes appendedBytes)
  if rotation then rotate sys currentPath else pure currentPath

end SessionLogAppender

/-! ## Writing a batch to one segment -/

/-- Why a batch was not appended, and how many of its records were; `none` if that is not
    known. -/
structure BatchAppendFailure where
  committedEvents : Option Nat
  error : RuntimeError
  deriving DecidableEq

def BatchAppendFailure.noneCommitted (error : RuntimeError) : BatchAppendFailure :=
  { committedEvents := some 0, error := error }

/-- Where each record ends, counted from the batch's start at `start`. -/
def completePrefixes : Nat → List (List UInt8) → List Nat
  | _, [] => []
  | start, event :: events => (start + event.length) :: completePrefixes (start + event.length) events

/-- What a failed write reports once its cleanup is over. -/
def failedWrite (path source : String) (ordinal retainedLen committedEvents : Nat) :
    Except String Unit → Fallible BatchAppendFailure Disk Unit
  | .ok () => fail { committedEvents := some committedEvents, error := .io path source }
  | .error rollback => do
    let len ← attempt (fileLen sys ordinal)
    fail
      { committedEvents := if len.toOption = some retainedLen then some committedEvents else none
        error := .protocol (path ++ " append failed (" ++ source ++
          ") and incomplete-suffix cleanup failed (" ++ rollback ++ ")") }

/-- After a failed write: cuts the file back to its last complete record. -/
def cleanupFailedWrite (path : String) (ordinal originalLen : Nat) (events : List (List UInt8))
    (cleanup : Nat → Fallible String Disk Unit) (source : String) :
    Fallible BatchAppendFailure Disk Unit := do
  let currentLen ← attempt (fileLen sys ordinal)
  let written := currentLen.toOption.getD originalLen - originalLen
  -- The prefixes grow, so these are the ones before their partition point.
  let complete := (completePrefixes 0 events).takeWhile (· ≤ written)
  let retainedLen := saturatingAdd originalLen (complete.getLastD 0)
  let rollback ← attempt (cleanup retainedLen)
  failedWrite sys path source ordinal retainedLen complete.length rollback

def appendNativeEventBatchWith (path : String) (ordinal originalLen : Nat)
    (events : List (List UInt8)) (write : List UInt8 → Fallible String Disk Unit)
    (cleanup : Nat → Fallible String Disk Unit) : Fallible BatchAppendFailure Disk Unit := do
  (Disk.call sys.seek).mapError fun source => .noneCommitted (.io path source)
  match ← attempt (write events.flatten) with
  | .ok () => pure ()
  | .error source => cleanupFailedWrite sys path ordinal originalLen events cleanup source

/-! ## Appending -/

namespace SessionLogAppender

/-- The records that go to the current segment together: how many, and their bytes. -/
def fillBatch (availableSegmentBytes totalBytes maxTotalBytes : Nat) :
    Nat → List (List UInt8) → Nat × Nat
  | batchBytes, [] => (0, batchBytes)
  | batchBytes, event :: events =>
    let candidate := saturatingAdd batchBytes event.length
    if availableSegmentBytes < candidate ∨ maxTotalBytes < saturatingAdd totalBytes candidate then
      (0, batchBytes)
    else
      let rest := fillBatch availableSegmentBytes totalBytes maxTotalBytes candidate events
      (rest.1 + 1, rest.2)

/-- Counts bytes that reached the current segment. -/
def advance (bytes : Nat) (session : Session) : Session :=
  let appender := session.appender
  { session with appender := { appender with
      currentBytes := saturatingAdd appender.currentBytes bytes
      totalBytes := saturatingAdd appender.totalBytes bytes } }

/-- Writes one batch to the current segment and counts what reached it. -/
def writeBatch (currentPath : AnchoredFile) (committedEvents batchBytes : Nat)
    (batch : List (List UInt8)) : Fallible BatchAppendFailure Session Unit := do
  let appender ← read Session.appender
  let ordinal := appender.currentOrdinal
  let result ← attempt (onDisk (appendNativeEventBatchWith sys currentPath.diagnosticPath ordinal
    appender.currentBytes batch (writeAll sys ordinal) (cleanupIncompleteSuffix sys ordinal)))
  match result with
  | .ok () => change (advance batchBytes)
  | .error failure =>
    match failure.committedEvents with
    | none => fail failure
    | some batchCommitted => do
      change (advance (((batch.take batchCommitted).map List.length).foldl saturatingAdd 0))
      fail { failure with committedEvents := some (committedEvents + batchCommitted) }

/-- One round of `append_batch`: `event` is the first record that is not committed yet. Returns
    how many records the round committed. -/
def appendRound (committedEvents : Nat) (event : List UInt8) (events : List (List UInt8)) :
    Fallible BatchAppendFailure Session Nat := do
  let currentPath ← (rotateBefore sys event.length).mapError fun error =>
    { committedEvents := some committedEvents, error := error }
  let appender ← read Session.appender
  let fill := fillBatch (maxSessionSegmentBytes - appender.currentBytes) appender.totalBytes
    appender.limits.maxTotalBytes 0 (event :: events)
  writeBatch sys currentPath committedEvents fill.2 ((event :: events).take fill.1)
  pure fill.1

/-- The loop of `append_batch` over the records that are not committed yet; `none` if a round
    returns without having committed a record, or if `rounds` rounds do not suffice. -/
def appendLoop : Nat → Nat → List (List UInt8) → Session →
    Option (Except BatchAppendFailure Unit × Session)
  | _, _, [], session => some (.ok (), session)
  | 0, _, _ :: _, _ => none
  | rounds + 1, committedEvents, event :: events, session =>
    match appendRound sys committedEvents event events session with
    | (.error failure, after) => some (.error failure, after)
    | (.ok count, after) =>
      if count = 0 then none
      else appendLoop rounds (committedEvents + count) ((event :: events).drop count) after

/-- If every round commits a record, as many rounds as records suffice. -/
def appendBatch (events : List (List UInt8)) (session : Session) :
    Option (Except BatchAppendFailure Unit × Session) :=
  appendLoop sys events.length 0 events session

/-! ## Opening -/

/-- The checks of one segment file when a log is opened. -/
def inspectSegment (segment : AnchoredFile) (final : Bool) (bytes : List UInt8) :
    Except RuntimeError Unit := do
  refuseIf (maxSessionSegmentBytes < bytes.length)
    (segment.diagnosticPath ++ " segment size " ++ toString bytes.length ++
      " bytes exceeds max " ++ toString maxSessionSegmentBytes)
  if bytes = [] then
    refuseIf (final = false) (segment.diagnosticPath ++ " non-final segment must end with LF")
  else
    refuseIf (bytes.getLast? ≠ some 10) (segment.diagnosticPath ++ " segment must end with LF")

/-- Inspects the segments from `ordinal` on and adds up their sizes. -/
def inspectSegments (base : AnchoredFile) : Nat → Nat → List (List UInt8) → Except RuntimeError Nat
  | _, totalBytes, [] => .ok totalBytes
  | ordinal, totalBytes, bytes :: rest => do
    let segment ← segmentedJsonlPath base ordinal
    inspectSegment segment rest.isEmpty bytes
    inspectSegments base (ordinal + 1) (saturatingAdd totalBytes bytes.length) rest

/-- `session_stream_inventory`: what the appender of an existing log starts with. -/
def sessionStreamInventory (base : AnchoredFile) (limits : SessionStreamLimits) (watch : Bool)
    (segments : List (List UInt8)) : Except RuntimeError SessionLogAppender := do
  refuseIf (2 ≤ segments.length ∧ limits.maxSegments < segments.length)
    (base.diagnosticPath ++ " segment count exceeds max " ++ toString limits.maxSegments)
  let totalBytes ← inspectSegments base 1 0 segments
  refuseIf (limits.maxTotalBytes < totalBytes)
    (base.diagnosticPath ++ " segmented JSONL size " ++ toString totalBytes ++
      " bytes exceeds max " ++ toString limits.maxTotalBytes)
  pure
    { basePath := base
      currentBytes := (segments.getLastD []).length
      currentOrdinal := segments.length
      inventoryWatch := watch
      limits := limits
      sealedSegments := segments.dropLast.map List.length
      totalBytes := totalBytes }

def openWithLimits (base : AnchoredFile) (limits : SessionStreamLimits) (watch : Bool) :
    Fallible RuntimeError Disk SessionLogAppender := do
  let segments ← read Disk.segments
  if segments = [] then fail (.io base.diagnosticPath "No such file or directory")
  else do
    let appender ← lift (sessionStreamInventory base limits watch segments)
    Disk.call sys.openAppend
    let _ ← appender.verifyCurrentSegment sys
    pure appender

/-- Appends one batch after the other; the reports come back in order. -/
def appendBatches : List (List (List UInt8)) → Session →
    Option (List (Except BatchAppendFailure Unit) × Session)
  | [], session => some ([], session)
  | events :: batches, session => do
    let (report, after) ← appendBatch sys events session
    let (reports, last) ← appendBatches batches after
    pure (report :: reports, last)

end SessionLogAppender

end

end Watershed.FlowAgent
