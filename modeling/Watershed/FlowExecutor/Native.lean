/-
  The native backend (`backend.rs`, `backend/native.rs`, `backend/linux.rs`, `backend/macos.rs`,
  `backend/protection.rs`, the rest of `backend/supervision.rs`) and the documents that the
  Executor writes (`protocol.rs`).

  What the operating system answers is a host: files, clocks, and how a command runs. Descriptors
  are left out, apart from the failures of their preparation. A result of `none` is a command whose
  supervision does not end.
-/
import Watershed.FlowExecutor.Supervision
import Watershed.Proto.ExecutorStream

namespace Watershed.FlowExecutor

open Watershed.Proto Watershed.Proto.Executor

/-! ## Errors -/

structure BackendError where
  code : ExecutorErrorCodeV0
  message : String
  definitive : Bool
  deriving DecidableEq

namespace BackendError

variable (message : String)

def unavailable : BackendError :=
  { code := .unavailable, message, definitive := true }

def unsupported : BackendError :=
  { code := .policyUnsupported, message, definitive := true }

def setup : BackendError :=
  { code := .sandboxSetupFailed, message, definitive := true }

def uncertain : BackendError :=
  { code := .invalidResponse, message, definitive := false }

end BackendError

/-- The text of an error of the operating system. The description is at most 127 bytes long and
    one line; its number follows it. -/
structure OsError where
  text : String
  short : byteSize text.toList ≤ 256
  line : text.toList.any isControl = false

/-! ## Protected objects -/

structure Metadata where
  device : UInt64
  inode : UInt64
  isFile : Bool
  isDir : Bool
  uid : UInt32
  mode : UInt32

inductive Platform where
  | linux
  | macos
  deriving DecidableEq

/-- How `run_bounded` gets its command to run. -/
inductive Launch where
  | clockOverflow
  | noCancelHandler (error : OsError)
  | failed (error : OsError)
  | launched (stdoutReady stderrReady : Bool) (observations : List Observation)

/-- What the operating system answers before a Tool starts. -/
structure Host where
  platform : Platform
  fstat : UInt32 → Except OsError Metadata
  symlinkMetadata : String → Except OsError Metadata
  canonicalize : String → Except OsError String
  /-- Whether a time in milliseconds from now is a time of the clock. -/
  clockHolds : UInt64 → Bool
  /-- `platform::official_host`. -/
  officialHost : Bool
  arch : String
  /-- The run of the readiness command. -/
  readiness : Launch
  /-- `String::from_utf8_lossy`. -/
  fromUtf8Lossy : List UInt8 → String

def kindMatches (kind : ExecutorObjectKindV0) (metadata : Metadata) : Bool :=
  match kind with
  | .file => metadata.isFile
  | .directory => metadata.isDir

/-- Whether the object is not the one that the request names. -/
def identityDiffers (object : ExecutorProtectedObjectV0) (metadata : Metadata) : Bool :=
  metadata.device ≠ object.identity.device || metadata.inode ≠ object.identity.inode ||
    !kindMatches object.identity.kind metadata

section
variable (host : Host)

def verifyPath (object : ExecutorProtectedObjectV0) : Except String Unit := do
  let metadata ← (host.symlinkMetadata object.path).mapError fun error =>
    "protected path is unavailable: " ++ error.text
  if identityDiffers object metadata then .error "protected path identity does not match"
  else do
    let canonical ← (host.canonicalize object.path).mapError fun error =>
      "protected path is not canonical: " ++ error.text
    if canonical ≠ object.path then .error "protected path identity does not match" else .ok ()

def verifyObject (object : ExecutorProtectedObjectV0) : Except String Unit := do
  if object.descriptor < 3 ∨ 2 ^ 31 ≤ object.descriptor.toNat then
    .error "invalid inherited descriptor"
  else do
    let stat ← (host.fstat object.descriptor).mapError fun error =>
      "protected descriptor is unavailable: " ++ error.text
    if identityDiffers object stat then .error "protected descriptor identity does not match"
    else verifyPath host object

def verifyObjects (request : ExecutorRequestV0) : Except String Unit :=
  request.resolvedPolicy.protectedObjects.forM (verifyObject host)

end

/-! ## Readiness -/

/-- `run_bounded`; the clock of the observations starts with the command. -/
def runBounded (timeoutMs stdoutLimit stderrLimit : Nat) :
    Launch → Option (Except BackendError ProcessOutcome)
  | .clockOverflow => some (.error (.setup "Tool timeout overflows the host clock"))
  | .noCancelHandler error =>
    some (.error (.setup ("failed to install cancel handler: " ++ error.text)))
  | .failed error => some (.error (.setup ("failed to launch native protection: " ++ error.text)))
  | .launched stdoutReady stderrReady observations =>
    (supervise { stdout := stdoutLimit, stderr := stderrLimit, deadline := timeoutMs } stdoutReady
      stderrReady observations).map fun returned => .ok returned.1

/-- The characters of a text up to the last character boundary within some bytes. -/
def floorCharBoundary (budget : Nat) : List Char → List Char
  | [] => []
  | c :: cs => if c.utf8Size ≤ budget then c :: floorCharBoundary (budget - c.utf8Size) cs else []

/-- `{classification:?}`. -/
def classificationDebug : ExecutorToolClassificationV0 → String
  | .nonzeroExit => "NonzeroExit"
  | .signalTermination => "SignalTermination"
  | .stdoutCapExceeded => "StdoutCapExceeded"
  | .stderrCapExceeded => "StderrCapExceeded"
  | .stdoutStderrCapExceeded => "StdoutStderrCapExceeded"
  | .toolTimedOut => "ToolTimedOut"
  | .cancelled => "Cancelled"
  | .outputCollectorFailed => "OutputCollectorFailed"
  | .outputDrainTimeout => "OutputDrainTimeout"

/-- What is shown of the standard error of a failed readiness command. -/
def diagnostic (host : Host) (outcome : ProcessOutcome) : List Char :=
  floorCharBoundary 1024 (host.fromUtf8Lossy outcome.stderr).toList

variable (outcome : ProcessOutcome)

/-- The status of a readiness command with a classification. -/
def statusText (classification : ExecutorToolClassificationV0) : String :=
  match outcome.status.bind (·.code) with
  | some code => "exit code " ++ toString code
  | none => "Some(" ++ classificationDebug classification ++ ")"

/-- What `checked_output` makes of a run. -/
def checkedOutcome (host : Host) (outcome : ProcessOutcome) : Except BackendError String :=
  match outcome.classification with
  | some classification =>
    .error (.unavailable ("native backend readiness command failed (" ++
      statusText outcome classification ++ "): " ++ String.ofList (diagnostic host outcome)))
  | none =>
    match fromUtf8 outcome.stdout with
    | none => .error (.unavailable "native backend version is not UTF-8")
    | some text => .ok text

def checkedOutput (host : Host) : Option (Except BackendError String) :=
  (runBounded 2000 1024 1024 host.readiness).map fun result => result.bind (checkedOutcome host)

/-- `char::is_whitespace`: the property White_Space. -/
def isWhitespace (c : Char) : Bool :=
  let n := c.toNat
  (9 ≤ n && n ≤ 13) || n = 0x20 || n = 0x85 || n = 0xa0 || n = 0x1680 ||
    (0x2000 ≤ n && n ≤ 0x200a) || n = 0x2028 || n = 0x2029 || n = 0x202f || n = 0x205f || n = 0x3000

/-- `str::trim`. -/
def trim (cs : List Char) : List Char :=
  ((cs.dropWhile isWhitespace).reverse.dropWhile isWhitespace).reverse

def isVersionChar (c : Char) : Bool := isAsciiDigit c || c = '.'

/-- The version in what Bubblewrap prints. -/
def bubblewrapVersion (output : String) : Option (List Char) :=
  match trim output.toList with
  | 'b' :: 'u' :: 'b' :: 'b' :: 'l' :: 'e' :: 'w' :: 'r' :: 'a' :: 'p' :: ' ' :: text =>
    if !text.isEmpty && text.all isVersionChar then some text else none
  | _ => none

def macos27Release (release : List Char) : Bool :=
  let components := splitAt '.' (trim release)
  2 ≤ components.length && components.head? = some ['2', '7'] &&
    components.all fun component => !component.isEmpty && component.all isAsciiDigit

/-- Whether the launcher of the sandbox is not a protected file of the system. -/
def isUnprotected (metadata : Metadata) : Bool :=
  !metadata.isFile || metadata.uid ≠ 0 || metadata.mode &&& 0o022 ≠ 0

/-- `linux::readiness`. -/
def linuxReadiness (host : Host) : Option (Except BackendError String) :=
  if !host.officialHost then
    some (.error (.unavailable "productive Executor support requires Ubuntu 24.04 x86_64"))
  else
    match host.symlinkMetadata "/usr/bin/bwrap" with
    | .error error => some (.error (.unavailable ("Bubblewrap is unavailable: " ++ error.text)))
    | .ok metadata =>
      if isUnprotected metadata then
        some (.error (.unavailable "Bubblewrap must be a protected root-owned executable"))
      else
        (checkedOutput host).map fun result => result.bind fun output =>
          match bubblewrapVersion output with
          | none => .error (.unavailable "Bubblewrap version output is invalid")
          | some version => .ok (String.ofList version)

/-- `macos::readiness`. -/
def macosReadiness (host : Host) : Option (Except BackendError String) :=
  match host.symlinkMetadata "/usr/bin/sandbox-exec" with
  | .error error => some (.error (.unavailable ("Seatbelt launcher is unavailable: " ++ error.text)))
  | .ok metadata =>
    if isUnprotected metadata then
      some (.error (.unavailable "Seatbelt launcher must be a protected Apple executable"))
    else
      (checkedOutput host).map fun result => result.bind fun output =>
        let version := trim output.toList
        if host.arch = "aarch64" && macos27Release version then .ok (String.ofList version)
        else .error (.unavailable "productive Executor support requires macOS 27 ARM64")

namespace Platform

/-- `BACKEND`. -/
def backend : Platform → String
  | linux => "bubblewrap-seccomp"
  | macos => "seatbelt"

/-- `PLATFORM`. -/
def name : Platform → String
  | linux => "ubuntu-24.04-x86_64"
  | macos => "macos-27-aarch64"

def readiness (platform : Platform) (host : Host) : Option (Except BackendError String) :=
  match platform with
  | linux => linuxReadiness host
  | macos => macosReadiness host

end Platform

/-! ## Preflight -/

structure PreparedExecution where
  request : ExecutorRequestV0
  backendVersion : String
  deriving DecidableEq

/-- `native::preflight`. -/
def nativePreflight (host : Host) (request : ExecutorRequestV0) :
    Option (Except BackendError PreparedExecution) :=
  match verifyObjects host request with
  | .error message => some (.error (.unsupported message))
  | .ok () =>
    if !host.clockHolds request.resolvedPolicy.limits.timeoutMs then
      some (.error (.unsupported "Tool timeout overflows the host clock"))
    else
      (host.platform.readiness host).map fun result => result.map fun backendVersion =>
        { request, backendVersion }

inductive Preflight where
  | ready (prepared : PreparedExecution)
  | error (preflight : ExecutorPreflightV0)
  deriving DecidableEq

/-- `backend::preflight`. -/
def preflight (host : Host) (request : ExecutorRequestV0) : Option (Except String Preflight) :=
  (nativePreflight host request).map fun
    | .ok prepared => .ok (.ready prepared)
    | .error error =>
      if error.definitive then
        .ok (.error (.error error.code error.message request.requestId executorPreflightSchemaV0))
      else .error error.message

/-! ## Execution -/

def toolStatus : Option ExecutorToolClassificationV0 → ExecutorToolStatusV0
  | none => .completed
  | some .cancelled => .cancelled
  | some .toolTimedOut => .timedOut
  | some _ => .failed

def toolExitCode : Option Int32 :=
  match outcome.classification with
  | some .cancelled | some .signalTermination | some .toolTimedOut => none
  | none | some .nonzeroExit | some .stdoutCapExceeded | some .stderrCapExceeded
  | some .stdoutStderrCapExceeded | some .outputCollectorFailed | some .outputDrainTimeout =>
    outcome.status.bind (·.code)

def toolResult : ExecutorToolResultV0 :=
  { classification := outcome.classification
    exitCode := toolExitCode outcome
    status := toolStatus outcome.classification
    stderrBase64 := encodeExecutorStreamV0 outcome.stderr
    stdoutBase64 := encodeExecutorStreamV0 outcome.stdout }

/-- `i32::from_ne_bytes` on a little-endian machine. -/
def fromNeBytes (a b c d : UInt8) : UInt32 :=
  a.toUInt32 ||| b.toUInt32 <<< 8 ||| c.toUInt32 <<< 16 ||| d.toUInt32 <<< 24

/-- The status in a record of the inner supervisor. -/
def innerStatus : List UInt8 → Option ExitStatus
  | [a, b, c, d] => some ⟨fromNeBytes a b c d⟩
  | _ => none

def didNotFinish : BackendError :=
  .uncertain "trusted inner Executor did not finish successfully"

def applyInnerStatus (record : List UInt8) :
    Except BackendError ProcessOutcome :=
  match innerStatus record with
  | none => .error (.uncertain "native protection did not prove a reaped Tool root")
  | some status =>
    match outcome.classification with
    | none | some .nonzeroExit | some .signalTermination =>
      if !outcome.status.any (·.success) then .error didNotFinish
      else .ok { outcome with classification := classifyExit (some status), status := some status }
    | _ =>
      if outcome.status.isSome then
        if !outcome.status.any (·.success) then .error didNotFinish
        else .ok { outcome with status := some status }
      else .ok outcome

/-- What the operating system answers while a Tool is executed. -/
structure Execution where
  host : Host
  /-- The channels and descriptors for the Tool, and its command. -/
  channels : Except String Unit
  launch : Launch
  /-- What the inner supervisor sends, unless it does not come in time. -/
  record : Option (Except OsError (List UInt8))

section
variable (L : Libraries) (E : ExecutorLibraries)

/-- The response to a run of the Tool. -/
def completedResponse (platform : Platform) (prepared : PreparedExecution)
    (outcome : ProcessOutcome) : ExecutorResponseV0 :=
  .completed
    { appliedPolicyDigest := prepared.request.policyDigest
      backend := platform.backend
      backendVersion := prepared.backendVersion
      executor := "flow-executor"
      executorVersion := "0.0.0"
      selfProtectionActive := true
      platform := platform.name }
    prepared.request.requestId executorResponseSchemaV0 (toolResult outcome)

/-- The status record, once the supervision has ended. -/
def receivedRecord (record : Option (Except OsError (List UInt8))) :
    Except BackendError (List UInt8) :=
  match record with
  | none => .error (.uncertain "Tool root status was not received within its bound")
  | some (.error error) =>
    .error (.uncertain ("Tool root status could not be read: " ++ error.text))
  | some (.ok record) => .ok record

/-- What comes before the launch of the Tool. -/
def arrange (execution : Execution) (request : ExecutorRequestV0) : Except BackendError Unit := do
  (verifyObjects execution.host request).mapError .setup
  let _ ← (canonicalExecutorRequestV0 L E request).mapError fun error => .setup error.message
  execution.channels.mapError .setup

/-- `native::execute`. -/
def execute (execution : Execution) (prepared : PreparedExecution) :
    Option (Except BackendError ExecutorResponseV0) :=
  match arrange L E execution prepared.request with
  | .error error => some (.error error)
  | .ok () =>
    let limits := prepared.request.resolvedPolicy.limits
    (runBounded limits.timeoutMs.toNat limits.maxStdoutBytes.toNat limits.maxStderrBytes.toNat
      execution.launch).map fun result => do
        let outcome ← result
        let record ← receivedRecord execution.record
        let outcome ← applyInnerStatus outcome record
        return completedResponse execution.host.platform prepared outcome

end

/-! ## Documents -/

section
variable (L : Libraries) (E : ExecutorLibraries)

/-- `write_preflight`: the bytes that are written. -/
def writePreflight (preflight : ExecutorPreflightV0) : Except String (List UInt8) :=
  (canonicalExecutorPreflightV0 L E preflight).mapError (·.message)

end

end Watershed.FlowExecutor
