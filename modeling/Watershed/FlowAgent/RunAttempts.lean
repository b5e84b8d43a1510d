/-
  The attempts of a run (`run_attempts.rs`) and the outputs that are kept for them
  (`productive/attempt_codec.rs`, `productive/tool_result.rs`).

  Before an effect its intent is recorded, after it the terminal result. A Tool result holds the
  two streams of the Tool, in the value itself or as objects of the run.
-/
import Watershed.FlowAgent.RunObjects
import Watershed.Proto.ExecutorValidation
import Watershed.Script.Values

namespace Watershed.FlowAgent

open Watershed.Proto Watershed.Proto.Executor
open Watershed.Script (FlowValue ScriptLibraries buildSessionObjectUri parseFlowValueV0
  validateFlowValue)
open RunObjects (ContextObject)

/-- What the runtime uses of other crates, besides what the registry does. -/
structure RuntimeLibraries extends ScriptLibraries where
  /-- SHA-256 in lowercase hexadecimal. -/
  sha256Hex : List UInt8 → String
  /-- What `serde_json::from_value` says against a value. -/
  fromValueError : Value → String

/-! ## Attempts -/

def cancelledReason : String := "cancelled"
def runtimeErrorReason : String := "runtime_error"

inductive RunAttemptKind where
  | provider
  | tool
  deriving DecidableEq

inductive RunAttemptOutcome where
  | completed
  | failed
  | timedOut
  | cancelled
  deriving DecidableEq

namespace RunAttemptOutcome

def all : List RunAttemptOutcome := [.completed, .failed, .timedOut, .cancelled]

def asStr : RunAttemptOutcome → String
  | .completed => "completed"
  | .failed => "failed"
  | .timedOut => "timed-out"
  | .cancelled => cancelledReason

def parse (value : String) : Option RunAttemptOutcome :=
  all.find? fun outcome => outcome.asStr = value

def toolTerminalEvent : RunAttemptOutcome → EventType
  | .completed => .toolCompleted
  | .timedOut => .toolTimedOut
  | .failed | .cancelled => .toolFailed

end RunAttemptOutcome

structure ToolEnforcementExpectation where
  appliedPolicyDigest : String
  deriving DecidableEq

structure RunAttemptIntent where
  attemptId : String
  attemptKind : RunAttemptKind
  expectedEnforcement : Option ToolEnforcementExpectation
  requestHash : String
  toolId : Option String
  timestamp : String
  deriving DecidableEq

structure RunAttemptResult where
  attemptId : String
  attemptKind : RunAttemptKind
  outcome : RunAttemptOutcome
  classification : Option String
  exitCode : Option Int32
  timestamp : String
  durableOutput : Option Value

inductive ToolTerminalClassification where
  | cancelled
  | nonzeroExit
  | outputCollectorFailed
  | outputDrainTimeout
  | processReapFailed
  | processSetupFailed
  | processSignalFailed
  | reconciledFailure
  | signalTermination
  | stderrCapExceeded
  | stdoutCapExceeded
  | stdoutStderrCapExceeded
  | toolTimedOut
  deriving DecidableEq

namespace ToolTerminalClassification

def all : List ToolTerminalClassification :=
  [.cancelled, .nonzeroExit, .outputCollectorFailed, .outputDrainTimeout, .processReapFailed,
    .processSetupFailed, .processSignalFailed, .reconciledFailure, .signalTermination,
    .stderrCapExceeded, .stdoutCapExceeded, .stdoutStderrCapExceeded, .toolTimedOut]

def asStr : ToolTerminalClassification → String
  | .cancelled => cancelledReason
  | .nonzeroExit => "nonzero_exit"
  | .outputCollectorFailed => "output_collector_failed"
  | .outputDrainTimeout => "output_drain_timeout"
  | .processReapFailed => "process_reap_failed"
  | .processSetupFailed => "process_setup_failed"
  | .processSignalFailed => "process_signal_failed"
  | .reconciledFailure => "reconciled_failure"
  | .signalTermination => "signal_termination"
  | .stderrCapExceeded => "stderr_cap_exceeded"
  | .stdoutCapExceeded => "stdout_cap_exceeded"
  | .stdoutStderrCapExceeded => "stdout_stderr_cap_exceeded"
  | .toolTimedOut => "tool_timed_out"

def parse (value : String) : Option ToolTerminalClassification :=
  all.find? fun classification => classification.asStr = value

def matchesTerminal (classification : ToolTerminalClassification) (outcome : RunAttemptOutcome)
    (exitCode : Option Int32) : Bool :=
  match outcome, classification with
  | .timedOut, .toolTimedOut | .cancelled, .cancelled => exitCode.isNone
  | .failed, .nonzeroExit => exitCode.any (· ≠ 0)
  | .failed, .signalTermination | .failed, .processSetupFailed => exitCode.isNone
  | .failed, .outputCollectorFailed | .failed, .outputDrainTimeout | .failed, .processReapFailed
  | .failed, .processSignalFailed | .failed, .reconciledFailure | .failed, .stderrCapExceeded
  | .failed, .stdoutCapExceeded | .failed, .stdoutStderrCapExceeded => true
  | _, _ => false

end ToolTerminalClassification

/-- The event and the classification with which a Tool attempt ends, when they fit. -/
def resolveToolTerminal (outcome : RunAttemptOutcome)
    (classification : Option ToolTerminalClassification) (exitCode : Option Int32) :
    Option (EventType × Option ToolTerminalClassification) :=
  let valid : Bool := match outcome with
    | .completed => classification.isNone && exitCode = some 0
    | _ => classification.any fun classification => classification.matchesTerminal outcome exitCode
  if valid then some (outcome.toolTerminalEvent, classification) else none

variable (L : RuntimeLibraries) (readObject : String → Except RuntimeError (List UInt8))

/-- Reads a session object and checks it against its URI. -/
def readVerifiedSessionObject (uri description : String) :
    Except RuntimeError (List UInt8) := do
  let bytes ← readObject uri
  let expectedUri ← (buildSessionObjectUri (L.sha256Hex bytes)).mapError fun error =>
    .protocol (description ++ " URI is invalid: " ++ error)
  refuseIf (expectedUri ≠ uri) (description ++ " does not match its URI digest")
  return bytes

/-! ## Tool results -/

structure ToolExecutionOutcome where
  status : RunAttemptOutcome
  classification : Option ToolTerminalClassification
  exitCode : Option Int32
  stdout : List UInt8
  stderr : List UInt8
  deriving DecidableEq

variable (outcome : ToolExecutionOutcome)

def ToolExecutionOutcome.markCancelled : ToolExecutionOutcome :=
  { outcome with status := .cancelled, classification := some .cancelled, exitCode := none }

def toolResultSchemaV0 : String := "flow-tool-result-v0"

structure ToolResultFields where
  outcome : RunAttemptOutcome
  exitCode : Option Int32
  stderr : FlowValue
  stdout : FlowValue

/-- `value.parse::<i32>()`. -/
def parseI32 (value : String) : Option Int32 := (parseI64 value).bind fun parsed =>
    if -2 ^ 31 ≤ parsed ∧ parsed < 2 ^ 31 then some (Int32.ofInt parsed) else none

variable (values : List (String × FlowValue))

/-- A stream of a Tool result: a text or an object. -/
def stream (name : String) : Except String FlowValue :=
  match values.lookup name with
  | some (.string value) => .ok (.string value)
  | some (.sessionObject uri) => .ok (.sessionObject uri)
  | _ =>
    .error (if name = "stdout" then "stdout has an invalid value" else "stderr has an invalid value")

def toolResultExitCode : Except String (Option Int32) :=
  match values.lookup "exit_code" with
  | some (.integer value) =>
    match parseI32 value with
    | some code => .ok (some code)
    | none => .error "exit code must fit i32"
  | none => .ok none
  | some _ => .error "has an invalid exit code"

def toolResultStatus : Option RunAttemptOutcome :=
  match values.lookup "status" with
  | some (.string value) => RunAttemptOutcome.parse value
  | _ => none

def hasToolResultSchema : Bool :=
  match values.lookup "schema" with
  | some (.string value) => value = toolResultSchemaV0
  | _ => false

def parseToolResult : FlowValue → Except String ToolResultFields
  | .map values =>
    if values.length < 4 ∨ 5 < values.length ∨ (values.any fun entry =>
          entry.1 ∉ ["exit_code", "schema", "status", "stderr", "stdout"]) = true then
      .error "has invalid fields"
    else if !hasToolResultSchema values then .error "has an unsupported schema"
    else
      match toolResultStatus values with
      | none => .error "has an invalid status"
      | some outcome => do
        let exitCode ← toolResultExitCode values
        let stdout ← stream values "stdout"
        let stderr ← stream values "stderr"
        return { outcome, exitCode, stderr, stdout }
  | _ => .error "must be a map envelope"

def buildToolResult (outcome : RunAttemptOutcome) (exitCode : Option Int32)
    (stdout stderr : FlowValue) : FlowValue :=
  .map ((exitCode.map fun code => ("exit_code", .integer (toString code.toInt))).toList ++
    [("schema", .string toolResultSchemaV0), ("status", .string outcome.asStr),
      ("stderr", stderr), ("stdout", stdout)])

def validateToolResultStream (name : String) :
    FlowValue → Except RuntimeError Unit
  | .sessionObject uri => do
    let bytes ← readVerifiedSessionObject L readObject uri
      ("recovered Tool result " ++ name ++ " object")
    refuseIf (maxExecutorToolStreamBytesV0 < bytes.length)
      ("recovered Tool result " ++ name ++ " exceeds the per-stream byte limit")
  -- The codec takes texts and objects only.
  | _ => .ok ()

def validateToolResultStreams (fields : ToolResultFields) :
    Except RuntimeError Unit := do
  validateToolResultStream L readObject "stdout" fields.stdout
  validateToolResultStream L readObject "stderr" fields.stderr

structure DurableToolResult where
  objects : List ContextObject
  value : FlowValue

def streamInlineValue (bytes : List UInt8) : FlowValue := .string ((fromUtf8 bytes).getD "")

/-- A stream as an object of the run; an empty one as a text. -/
def streamObjectValue (bytes : List UInt8) : Except RuntimeError (List ContextObject × FlowValue) :=
  if bytes = [] then .ok ([], .string "")
  else do
    let digest := L.sha256Hex bytes
    let uri ← (buildSessionObjectUri digest).mapError fun error =>
      .protocol ("Tool result object URI is invalid: " ++ error)
    return ([{ bytes, digest }], .sessionObject uri)

def toolResultValue : Except RuntimeError DurableToolResult :=
  let inline := buildToolResult outcome.status outcome.exitCode (streamInlineValue outcome.stdout)
    (streamInlineValue outcome.stderr)
  if (validateFlowValue L.toLibraries inline).isOk && (fromUtf8 outcome.stdout).isSome &&
      (fromUtf8 outcome.stderr).isSome then .ok { objects := [], value := inline }
  else do
    let stdout ← streamObjectValue L outcome.stdout
    let stderr ← streamObjectValue L outcome.stderr
    let value := buildToolResult outcome.status outcome.exitCode stdout.2 stderr.2
    (validateFlowValue L.toLibraries value).mapError fun error =>
      .protocol ("canonical Tool result is invalid: " ++ error)
    return { objects := stdout.1 ++ stderr.1, value }

def toolTerminal :
    Except RuntimeError (RunAttemptOutcome × EventType × Option String) := do
  let resolved ← require
    (resolveToolTerminal outcome.status outcome.classification outcome.exitCode)
    "Tool execution produced an invalid terminal state"
  return (outcome.status, resolved.1, resolved.2.map ToolTerminalClassification.asStr)

/-! ## Outputs of attempts -/

inductive ExecutorAttemptStage where
  | preflight
  | started
  deriving DecidableEq

def ExecutorAttemptStage.name : ExecutorAttemptStage → String
  | .preflight => "preflight"
  | .started => "started"

def executorStageErrorSchemaV0 : String := "flow-executor-stage-error-v0"
def attemptCancelledSchemaV0 : String := "flow-attempt-cancelled-v0"
def toolAttemptOutputSchemaV1 : String := "flow-tool-attempt-output-v1"

def cancelledAttemptOutput : Value := .object [("schema", .string attemptCancelledSchemaV0)]

def toolAttemptOutput (enforcement : EnforcementReceiptV0) (requestHash : String)
    (toolResult : Value) : Value :=
  .object [("enforcement", Serde.codec.encode enforcement), ("request_hash", .string requestHash),
    ("schema", .string toolAttemptOutputSchemaV1), ("tool_result", toolResult)]

def executorDispatchFailureOutput (stage : ExecutorAttemptStage) (code : ExecutorErrorCodeV0) :
    Value :=
  .object [("error", .string code.name), ("schema", .string executorStageErrorSchemaV0),
    ("stage", .string stage.name)]

structure ToolAttemptOutput where
  enforcement : EnforcementReceiptV0
  requestHash : String
  toolResult : Value

/-- `serde_json::from_value` of an object; other members are refused. -/
def ToolAttemptOutput.fromValue? (value : Value) : Option ToolAttemptOutput :=
  match value with
  | .object members =>
    if members.all fun x => x.1 ∈ ["enforcement", "request_hash", "schema", "tool_result"] then do
      let enforcement ← (value.get "enforcement").bind Serde.codec.decode
      let requestHash ← (value.get "request_hash").bind Json.asStr
      let _ ← (value.get "schema").bind Json.asStr
      let toolResult ← value.get "tool_result"
      some { enforcement, requestHash, toolResult }
    else none
  | _ => none

def stageCodec : Codec Number ExecutorAttemptStage :=
  .unit [.preflight, .started] ExecutorAttemptStage.name isNull

def errorCodeCodec : Codec Number ExecutorErrorCodeV0 :=
  .unit ExecutorErrorCodeV0.variants ExecutorErrorCodeV0.name isNull

/-- The stage and the code of a dispatch error, from an object without other members. -/
def executorDispatchErrorFromValue? (value : Value) :
    Option (ExecutorAttemptStage × ExecutorErrorCodeV0) :=
  match value with
  | .object members =>
    if members.all fun x => x.1 ∈ ["error", "schema", "stage"] then do
      let code ← (value.get "error").bind errorCodeCodec.decode
      let _ ← (value.get "schema").bind Json.asStr
      let stage ← (value.get "stage").bind stageCodec.decode
      some (stage, code)
    else none
  | _ => none

def hasSchema (schema : String) (value : Value) : Bool :=
  (value.get "schema").bind Json.asStr = some schema

/-! ## Recovered attempts -/

variable (result : RunAttemptResult)

def recoveredExecutorDispatchError :
    Except RuntimeError (Option (ExecutorAttemptStage × ExecutorErrorCodeV0)) :=
  match result.durableOutput with
  | none => .ok none
  | some output =>
    if !hasSchema executorStageErrorSchemaV0 output then .ok none
    else do
      refuseIf (result.outcome ≠ .failed ∨ result.classification.isSome = true ∨
          result.exitCode.isSome = true)
        "recovered Executor dispatch error has an invalid terminal state"
      match executorDispatchErrorFromValue? output with
      | some error => .ok (some error)
      | none => .error (.json (L.fromValueError output))

def recoveredToolOutput :
    Except RuntimeError ToolAttemptOutput := do
  let output ← require result.durableOutput "recovered Tool attempt has no durable output"
  refuseIf (hasSchema toolAttemptOutputSchemaV1 output = false)
    "recovered Tool output has an unsupported schema"
  refuseIf ((output.get "enforcement").isNone = true)
    "recovered Tool output has no enforcement receipt"
  match ToolAttemptOutput.fromValue? output with
  | some output => .ok output
  | none => .error (.json (L.fromValueError output))

def recoveredToolTerminal :
    Except RuntimeError (EventType × Option String) := do
  let classification ← match result.classification with
    | some value => (require (ToolTerminalClassification.parse value)
      "recovered Tool attempt has an invalid terminal state").map some
    | none => .ok none
  let resolved ← require (resolveToolTerminal result.outcome classification result.exitCode)
    "recovered Tool attempt has an invalid terminal state"
  return (resolved.1, resolved.2.map ToolTerminalClassification.asStr)

def recoveredToolValueBound
    (output : ToolAttemptOutput) (expectedRequestHash : String) : Except RuntimeError FlowValue := do
  let _ ← recoveredToolTerminal result
  refuseIf (output.requestHash ≠ expectedRequestHash)
    "recovered Tool output does not match the prepared request hash"
  let toolResult ← (parseFlowValueV0 L.toLibraries output.toolResult).mapError fun error =>
    .protocol ("recovered Tool result is invalid: " ++ error)
  let fields ← (parseToolResult toolResult).mapError fun error =>
    .protocol ("recovered Tool result " ++ error)
  refuseIf (fields.outcome ≠ result.outcome)
    "recovered Tool result status does not match its attempt"
  validateToolResultStreams L readObject fields
  refuseIf (fields.exitCode ≠ result.exitCode)
    "recovered Tool result exit code does not match its attempt"
  return toolResult

end Watershed.FlowAgent
