/-
  What an Executor document must satisfy (`executor.rs`, `executor/stream.rs`,
  `executor/validation.rs`).
-/
import Watershed.Lib.Utf8
import Watershed.Proto.Event
import Watershed.Proto.ExecutorTypes

namespace Watershed.Proto.Executor

def executorRequestSchemaV0 : String := "flow-executor-request-v0"
def executorPreflightSchemaV0 : String := "flow-executor-preflight-v0"
def executorStartSchemaV0 : String := "flow-executor-start-v0"
def executorResponseSchemaV0 : String := "flow-executor-result-v0"
def executorProbeSchemaV0 : String := "flow-executor-probe-v0"
def maxExecutorToolStreamBytesV0 : Nat := 4 * 1024 * 1024
def maxExecutorExecVectorEntriesV0 : Nat := 2048
def maxExecutorExecVectorBytesV0 : Nat := 128 * 1024
def maxExecutorProtectedObjectsV0 : Nat := 128
def executorProtectedDescriptorBaseV0 : Nat := 32
def maxIdChars : Nat := 256
def maxNameChars : Nat := 256
def maxPathChars : Nat := 4096
def maxEnvironmentEntries : Nat := 256
def maxFeatures : Nat := 256
def maxErrorMessageChars : Nat := 4000

/-- Error returned when a private Executor v0 document violates its closed contract. -/
structure ExecutorProtocolError where
  message : String
  deriving DecidableEq

abbrev ProtocolResult := Except ExecutorProtocolError

def executorError {α : Type} (message : String) : ProtocolResult α := .error ⟨message⟩

/-- A check that fails with a message. -/
def refuseIf (condition : Prop) [Decidable condition] (message : String) : ProtocolResult Unit :=
  if condition then executorError message else .ok ()

/-- What the Executor protocol uses of other crates, besides `Libraries` and `SerdeJson`. -/
structure ExecutorLibraries where
  /-- `Sha256::digest`. -/
  sha256 : List UInt8 → { digest : List UInt8 // digest.length = 32 }
  /-- The message of `serde_json::from_value` for a value that is no document of a kind. -/
  fromValueError : String → SortedValue → String

/-! ## Tool streams -/

def invalidBase64 : ExecutorProtocolError := ⟨"Executor Tool stream is not canonical base64"⟩

def base64Value (byte : UInt8) : ProtocolResult UInt8 :=
  if 65 ≤ byte ∧ byte ≤ 90 then .ok (byte - 65)
  else if 97 ≤ byte ∧ byte ≤ 122 then .ok (byte - 97 + 26)
  else if 48 ≤ byte ∧ byte ≤ 57 then .ok (byte - 48 + 52)
  else if byte = 43 then .ok 62
  else if byte = 47 then .ok 63
  else .error invalidBase64

/-- The value of a byte that may be padding: `none` for an `=` that may stand there. -/
def base64Padded (byte : UInt8) (mayPad : Bool) : ProtocolResult (Option UInt8) :=
  if byte = 61 then if mayPad then .ok none else .error invalidBase64
  else (base64Value byte).map some

def decodeChunks : List UInt8 → ProtocolResult (List UInt8)
  | x :: y :: z :: w :: rest => do
    let last := rest.isEmpty
    let a ← base64Value x
    let b ← base64Value y
    let c ← base64Padded z (last && w = 61 && b &&& 0x0f = 0)
    let d ← base64Padded w (last && c.all fun value => value &&& 0x03 = 0)
    let bytes := (a <<< 2 ||| b >>> 4) :: match c with
      | none => []
      | some c => (b <<< 4 ||| c >>> 2) :: match d with
        | none => []
        | some d => [c <<< 6 ||| d]
    let decoded ← decodeChunks rest
    return bytes ++ decoded
  | _ => .ok []

/-- Decodes canonical padded standard base64 Tool stream bytes. -/
def decodeExecutorStreamV0 (encoded : String) : ProtocolResult (List UInt8) :=
  if (utf8 encoded).length % 4 ≠ 0 || !(encoded.toList.all fun c => c.toNat < 128) then
    .error invalidBase64
  else decodeChunks (utf8 encoded)

/-! ## Texts, paths and exec vectors -/

/-- `char::is_control`: the general category Cc. -/
def isControl (c : Char) : Bool := c.toNat < 0x20 || (0x7f ≤ c.toNat && c.toNat ≤ 0x9f)

def validateText (value name : String) (maxChars : Nat) : ProtocolResult Unit :=
  let count := value.toList.length
  if count = 0 || count > maxChars || value.toList.any isControl then
    executorError ("Executor " ++ name ++ " is invalid")
  else .ok ()

def validateAbsolutePath (value name : String) : ProtocolResult Unit :=
  if value = "/" || value.toList.head? ≠ some '/' || value.toList.getLast? = some '/' ||
      value.toList.contains '\\' ||
      ((splitAt '/' (value.toList.drop 1)).any fun component =>
        component.isEmpty || component = ['.'] || component = ['.', '.']) then
    executorError ("Executor " ++ name ++ " is not a canonical absolute path")
  else .ok ()

def validateSchema (actual expected kind : String) : ProtocolResult Unit :=
  if actual = expected then .ok ()
  else executorError ("unsupported Executor " ++ kind ++ " schema")

def validateDigest (value name : String) : ProtocolResult Unit :=
  if isLowercaseSha256Hex value.toList then .ok ()
  else executorError ("Executor " ++ name ++ " is not lowercase SHA-256")

/-- `usize::MAX` on a 64-bit platform. -/
def usizeMax : Nat := 2 ^ 64 - 1

def checkedAdd (a b : Nat) : Option Nat := if a + b ≤ usizeMax then some (a + b) else none

def checkedMul (a b : Nat) : Option Nat := if a * b ≤ usizeMax then some (a * b) else none

def okOr {ε α : Type} (o : Option α) (error : ε) : Except ε α :=
  match o with
  | some a => .ok a
  | none => .error error

/-- Reason a process execution vector violates its v0 protocol bound. -/
inductive ExecutorExecVectorErrorV0 where
  | nulByte
  | entryBudget (actual : Nat)
  | byteBudget (actual : Nat)
  deriving DecidableEq

def hasNul (text : String) : Bool := text.toList.contains '\x00'

/-- Validates and accounts for one complete v0 Tool exec vector. -/
def validateExecutorExecVectorV0 (executable : String) (argv : List String)
    (environment : TextMap String) : Except ExecutorExecVectorErrorV0 Nat :=
  if hasNul executable || argv.any hasNul ||
      (environment.entries.any fun x => hasNul x.1 || hasNul x.2) then
    .error .nulByte
  else do
    let entries ← okOr (checkedAdd argv.length 1) (.entryBudget usizeMax)
    if maxExecutorExecVectorEntriesV0 < entries then .error (.entryBudget entries) else
    let stringBytes ← okOr ((executable :: argv).foldlM (fun total value => do
      checkedAdd total (← checkedAdd value.utf8ByteSize 1)) 0) (.byteBudget usizeMax)
    let stringBytes ← okOr (environment.entries.foldlM (fun total x => do
      let total ← checkedAdd total x.1.utf8ByteSize
      let total ← checkedAdd total 1
      let total ← checkedAdd total x.2.utf8ByteSize
      checkedAdd total 1) stringBytes) (.byteBudget usizeMax)
    let pointerBytes ← okOr (do
      let count ← checkedAdd entries environment.entries.length
      let count ← checkedAdd count 2
      checkedMul count 8) (.byteBudget usizeMax)
    let encodedBytes ← okOr (checkedAdd stringBytes pointerBytes) (.byteBudget usizeMax)
    if maxExecutorExecVectorBytesV0 < encodedBytes then .error (.byteBudget encodedBytes)
    else .ok encodedBytes

def execVectorMessage : ExecutorExecVectorErrorV0 → String
  | .nulByte => "Executor argv is invalid"
  | .entryBudget _ => "Executor argv entry bound is invalid"
  | .byteBudget actual =>
    if actual = usizeMax then "Executor argv byte count overflow"
    else "Executor argv exceeds its byte limit"

/-! ## Documents -/

section
variable (L : Libraries) (E : ExecutorLibraries)

/-- A byte as two lowercase hexadecimal digits. -/
def hexByte (byte : UInt8) : List Char :=
  [Json.hexDigit (byte.toNat / 16), Json.hexDigit (byte.toNat % 16)]

/-- Returns the lowercase SHA-256 of the canonical resolved target policy plus its required LF. -/
def resolvedPolicyDigestV0 (policy : ExecutorResolvedPolicyV0) :
    ProtocolResult String := do
  let canonical ← (canonicalJson L (toValue policy).1).mapError fun error =>
    ⟨"invalid resolved Executor policy: " ++ error.text L⟩
  let digest := E.sha256 (utf8 (canonical ++ "\n"))
  return String.ofList (digest.1.flatMap hexByte)

/-- The loop over the protected objects; `paths` are those of the objects before. -/
def validateProtectedObjects (index : Nat) (paths : List String) :
    List ExecutorProtectedObjectV0 → ProtocolResult Unit
  | [] => .ok ()
  | object :: objects => do
    refuseIf (object.descriptor.toNat ≠ executorProtectedDescriptorBaseV0 + index)
      "Executor protected object descriptor is invalid"
    validateText object.path "protected object path" maxPathChars
    validateAbsolutePath object.path "protected object path"
    refuseIf (object.path ∈ paths) "Executor protected object path is duplicated"
    validateProtectedObjects (index + 1) (object.path :: paths) objects

/-- The check of the exec vector, with the messages of a request. -/
def validateExecVector (policy : ExecutorResolvedPolicyV0) : ProtocolResult Unit :=
  match validateExecutorExecVectorV0 policy.executable policy.argv policy.environment with
  | .error error => executorError (execVectorMessage error)
  | .ok _ => .ok ()

def validateRequest (request : ExecutorRequestV0) : ProtocolResult Unit := do
  validateSchema request.schema executorRequestSchemaV0 "request"
  validateText request.requestId "request_id" maxIdChars
  let policy := request.resolvedPolicy
  validateText policy.toolId "tool_id" maxIdChars
  validateText policy.toolKind "tool_kind" maxNameChars
  validateText policy.executable "executable" maxPathChars
  validateAbsolutePath policy.executable "executable"
  validateText policy.workingDirectory "working_directory" maxPathChars
  validateAbsolutePath policy.workingDirectory "working_directory"
  refuseIf (maxEnvironmentEntries < policy.environment.entries.length)
    "Executor environment has too many entries"
  policy.environment.entries.forM fun x => do
    validateText x.1 "environment name" maxNameChars
    validateText x.2 "environment value" maxPathChars
  validateExecVector policy
  refuseIf policy.protectedObjects.isEmpty "Executor protected object list must be nonempty"
  refuseIf (maxExecutorProtectedObjectsV0 < policy.protectedObjects.length)
    "Executor protected object list exceeds its limit"
  validateProtectedObjects 0 [] policy.protectedObjects
  validateDigest request.policyDigest "policy_digest"
  let digest ← resolvedPolicyDigestV0 L E request.resolvedPolicy
  refuseIf (digest ≠ request.policyDigest) "Executor request policy digest does not match"
  refuseIf (policy.limits.timeoutMs = 0 ∨ policy.limits.maxStdoutBytes = 0 ∨
    policy.limits.maxStderrBytes = 0) "Executor limits must be nonzero"
  refuseIf (maxExecutorToolStreamBytesV0 < policy.limits.maxStdoutBytes.toNat ∨
    maxExecutorToolStreamBytesV0 < policy.limits.maxStderrBytes.toNat)
    "Executor stream limits exceed the protocol bound"

end

namespace ExecutorPreflightV0

def schema : ExecutorPreflightV0 → String
  | ready _ schema => schema
  | error _ _ _ schema => schema

def requestId : ExecutorPreflightV0 → String
  | ready requestId _ => requestId
  | error _ _ requestId _ => requestId

end ExecutorPreflightV0

def validatePreflight (preflight : ExecutorPreflightV0) (expectedRequestId : String) :
    ProtocolResult Unit := do
  validateSchema preflight.schema executorPreflightSchemaV0 "preflight"
  validateText preflight.requestId "request_id" maxIdChars
  refuseIf (preflight.requestId ≠ expectedRequestId) "Executor preflight request id does not match"
  match preflight with
  | .ready _ _ => .ok ()
  | .error code message _ _ => do
    refuseIf (code ≠ .unavailable ∧ code ≠ .policyUnsupported)
      "Executor preflight error code is invalid"
    validateText message "error message" maxErrorMessageChars

def validateStart (start : ExecutorStartV0) (expectedRequestId : String) :
    ProtocolResult Unit := do
  validateSchema start.schema executorStartSchemaV0 "start"
  validateText start.requestId "request_id" maxIdChars
  refuseIf (start.requestId ≠ expectedRequestId) "Executor start request id does not match"

def validateReceipt (receipt : EnforcementReceiptV0) (expectedPolicyDigest : String) :
    ProtocolResult Unit := do
  validateDigest receipt.appliedPolicyDigest "applied_policy_digest"
  [("executor", receipt.executor), ("executor_version", receipt.executorVersion),
    ("backend", receipt.backend), ("backend_version", receipt.backendVersion),
    ("platform", receipt.platform)].forM fun x => validateText x.2 x.1 maxNameChars
  refuseIf (receipt.appliedPolicyDigest ≠ expectedPolicyDigest)
    "Executor applied the wrong policy digest"
  refuseIf (receipt.selfProtectionActive = false) "Executor self-protection was not active"

def validTerminal (result : ExecutorToolResultV0) : Bool :=
  match result.status, result.classification, result.exitCode with
  | .completed, none, some code => code = 0
  | .failed, some .nonzeroExit, some code => code ≠ 0
  | .failed, some .signalTermination, none => true
  | .failed, some .stderrCapExceeded, _ | .failed, some .stdoutCapExceeded, _
  | .failed, some .stdoutStderrCapExceeded, _ | .failed, some .outputCollectorFailed, _
  | .failed, some .outputDrainTimeout, _ => true
  | .timedOut, some .toolTimedOut, none => true
  | .cancelled, some .cancelled, none => true
  | _, _, _ => false

def validateToolResult (result : ExecutorToolResultV0) : ProtocolResult Unit := do
  refuseIf (validTerminal result = false) "Executor Tool result has an invalid terminal state"
  [("stdout", result.stdoutBase64), ("stderr", result.stderrBase64)].forM fun x => do
    let decoded ← decodeExecutorStreamV0 x.2
    refuseIf (maxExecutorToolStreamBytesV0 < decoded.length)
      ("Executor Tool " ++ x.1 ++ " exceeds its byte limit")

namespace ExecutorResponseV0

def schema : ExecutorResponseV0 → String
  | completed _ _ schema _ => schema
  | error _ _ _ schema => schema

def requestId : ExecutorResponseV0 → String
  | completed _ requestId _ _ => requestId
  | error _ _ requestId _ => requestId

end ExecutorResponseV0

def validateResponse (response : ExecutorResponseV0)
    (expectedRequestId expectedPolicyDigest : String) : ProtocolResult Unit := do
  validateSchema response.schema executorResponseSchemaV0 "response"
  validateText response.requestId "request_id" maxIdChars
  refuseIf (response.requestId ≠ expectedRequestId) "Executor response request id does not match"
  match response with
  | .completed enforcement _ _ toolResult => do
    validateReceipt enforcement expectedPolicyDigest
    validateToolResult toolResult
  | .error code message _ _ => do
    refuseIf (code ≠ .sandboxSetupFailed) "Executor terminal error code is invalid"
    validateText message "error message" maxErrorMessageChars

def validateProbe (probe : ExecutorProbeV0) : ProtocolResult Unit := do
  validateSchema probe.schema executorProbeSchemaV0 "probe"
  [("executor", probe.executor), ("executor_version", probe.executorVersion),
    ("backend", probe.backend), ("backend_version", probe.backendVersion),
    ("platform", probe.platform)].forM fun x => validateText x.2 x.1 maxNameChars
  refuseIf (probe.protocolVersions.isEmpty ∨ maxFeatures < probe.protocolVersions.length ∨
    maxFeatures < probe.supportedPolicyFeatures.length) "Executor probe list bounds are invalid"
  (probe.protocolVersions ++ probe.supportedPolicyFeatures).forM fun value =>
    validateText value "probe feature" maxNameChars

end Watershed.Proto.Executor
