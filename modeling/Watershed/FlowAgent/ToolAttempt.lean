/-
  One productive Tool call (`productive/tool.rs`), against every answer of its surroundings and
  with interrupts at any moment.

  An interrupt takes the coordinator's lock, so what it changes is ordered against the other
  takings of the lock: the host says how many interrupts come before each of them. An interrupt
  that ends the process stops the computation; no `?` of the source sees that.
-/
import Watershed.FlowAgent.Cancellation
import Watershed.FlowAgent.RunAttempts
import Watershed.FlowAgent.SegmentedLog
import Watershed.Policy.Artifact

namespace Watershed.FlowAgent

open Fallible
open Watershed.Proto Watershed.Proto.Executor
open Watershed.Script (FlowValue PhaseBlock ToolBlock objectOf)
open Watershed.Policy (CommandPolicy PolicyArtifact)
open RunObjects (ContextObject)

/-! ## The surroundings -/

structure ToolInvocation where
  executable : String
  argv : List String

structure ExecutorToolExecution where
  enforcement : EnforcementReceiptV0
  outcome : ToolExecutionOutcome

/-- Definitive result of one bounded Executor dispatch. -/
inductive ExecutorDispatchOutcome where
  | completed (execution : ExecutorToolExecution)
  | error (code : ExecutorErrorCodeV0)

inductive ProductiveToolPreflight (Waiting : Type) where
  | ready (waiting : Waiting)
  | rejected (code : ExecutorErrorCodeV0)

/-- How emitting an event fails: while it is built, or while it is committed. -/
inductive EmitFailure where
  | build (error : RuntimeError)
  | commit (error : RuntimeError)

/-- The answers of everything that a Tool call asks. Writes are answered by the number of effects
    before them; interrupts come before the taking of the lock with the given number. -/
structure ToolHost (Prepared Waiting : Type) where
  policy : PolicyArtifact
  buildToolInvocation : ToolBlock → FlowValue → Except String ToolInvocation
  verifyBinding : Except RuntimeError Unit
  timestamp : Nat → Except RuntimeError String
  prepare : ToolInvocation → CommandPolicy → String → Except RuntimeError Prepared
  requestHash : Prepared → String
  policyDigest : Prepared → String
  validateEnforcementReceipt : Prepared → EnforcementReceiptV0 → Except RuntimeError Unit
  preflight : Prepared → Except RuntimeError (ProductiveToolPreflight Waiting)
  start : Waiting → Except RuntimeError ExecutorDispatchOutcome
  recoverAttempt : RunAttemptKind → String → String → Option String →
    Except RuntimeError (Option RunAttemptResult)
  readObject : String → Except RuntimeError (List UInt8)
  reserveProductiveDispatch : Except RuntimeError Unit
  intent : Nat → Option RuntimeError
  persistObjects : Nat → Option RuntimeError
  terminal : Nat → Option RuntimeError
  recordAttempt : Nat → Option RuntimeError
  emit : Nat → Option EmitFailure
  interrupts : Nat → Nat

/-- What a Tool call has done. -/
inductive ToolEffect where
  | intent (intent : RunAttemptIntent)
  | preflightReady
  | preflightRejected (code : ExecutorErrorCodeV0)
  | start
  | objects (objects : List ContextObject)
  | terminal (result : RunAttemptResult)
  | recordAttempt (toolId : Option String) (requestHash : String) (result : RunAttemptResult)
  | event (eventType : EventType) (payload : Value)

structure ToolMachine where
  coordinator : ProductiveOperationCoordinator
  /-- How often the coordinator's lock was taken. -/
  moments : Nat
  providerAttempts : Nat
  toolAttempts : Nat
  recoveryFailed : Bool
  eventCommitFailed : Bool
  effects : List ToolEffect

/-- Why a computation does not go on. -/
inductive Stop where
  | error (error : RuntimeError)
  /-- The process ended at an interrupt. -/
  | exit
  deriving DecidableEq

/-- A computation of the process. -/
abbrev Productive (α : Type) := Fallible Stop ToolMachine α

section
variable {α : Type}

def answer (result : Except RuntimeError α) : Productive α := lift (result.mapError .error)

def stop (error : RuntimeError) : Productive α := fail (.error error)

/-- The result of a computation, also when it failed; the end of the process is no result. -/
def settled (m : Productive α) : Productive (Except RuntimeError α) := fun machine =>
  match m machine with
  | (.ok a, machine) => (.ok (.ok a), machine)
  | (.error (.error error), machine) => (.ok (.error error), machine)
  | (.error .exit, machine) => (.error .exit, machine)

/-- A write that is answered and then done. -/
def write (reply : Nat → Option RuntimeError) (effect : ToolEffect) : Productive Unit := do
  let before ← read fun machine => machine.effects.length
  match reply before with
  | some error => stop error
  | none => change fun machine => { machine with effects := machine.effects ++ [effect] }

def markRecoveryFailure (m : Productive α) : Productive α := do
  match ← settled m with
  | .ok a => pure a
  | .error error => do
    change fun machine => { machine with recoveryFailed := true }
    stop error

end

section
variable {Prepared Waiting : Type} (host : ToolHost Prepared Waiting)

/-! ## Cancellation -/

/-- One interrupt. -/
def interrupt : Productive Unit := do
  let action ← read fun machine => machine.coordinator.interrupt.1
  change fun machine => { machine with coordinator := machine.coordinator.interrupt.2 }
  match action with
  | .exit => fail .exit
  | _ => pure ()

def interruptTimes : Nat → Productive Unit
  | 0 => pure ()
  | count + 1 => do
    interrupt
    interruptTimes count

/-- Takes the lock, after the interrupts that come before, for one method of the coordinator. -/
def locked {α : Type}
    (method : ProductiveOperationCoordinator → α × ProductiveOperationCoordinator) :
    Productive α := do
  let moment ← read fun machine => machine.moments
  interruptTimes (host.interrupts moment)
  let result ← read fun machine => (method machine.coordinator).1
  change fun machine =>
    { machine with
      coordinator := (method machine.coordinator).2
      moments := moment + 1 }
  pure result

def ensureProductiveDispatchAllowed : Productive Unit := do
  match ← locked host fun coordinator => (coordinator.effectDispatchAllowed, coordinator) with
  | true => pure ()
  | false => stop .cancelled

def claimOperation (permit : ProductiveOperationState) : Productive Bool := do
  let result ← locked host fun coordinator => coordinator.claimOperation permit
  answer result

/-- The end of a permit's scope. -/
def releaseOperation (permit : ProductiveOperationState) (claimed : Bool) : Productive Unit :=
  match claimed with
  | true => locked host fun coordinator => ((), coordinator.releaseOperation permit)
  | false => pure ()

/-- A durable commit's permit, or none when the operation is cancelled. -/
def claimDurableCommit : Productive (Option Bool) := do
  match ← settled (claimOperation host .committingDurableState) with
  | .ok claimed => pure (some claimed)
  | .error .cancelled => pure none
  | .error error => stop error

/-! ## Events -/

def toolStartedPayload (tool : ToolBlock) (commandPolicy : CommandPolicy) (attemptId : String) :
    Value :=
  objectOf [("allowed_parameters",
      .array (commandPolicy.allowedParameters.map fun parameter => .string parameter.name)),
    ("tool_id", .string tool.identity.id), ("tool_kind", .string tool.toolKind.asStr),
    ("tool_name", .string tool.identity.name), ("attempt_id", .string attemptId)]

def toolErrorPayload (tool : ToolBlock) (attemptId error : String) : Value :=
  .object [("attempt_id", .string attemptId), ("error", .string error),
    ("tool_id", .string tool.identity.id)]

def toolExitPayload (tool : ToolBlock) (attemptId : String) (exitCode : Option Int32) : Value :=
  .object [("attempt_id", .string attemptId),
    ("exit_code", match exitCode with
      | some code => .number (Number.ofI32 code)
      | none => .null),
    ("tool_id", .string tool.identity.id)]

def emitAndCommit (eventType : EventType) (payload : Value) : Productive Unit := do
  let before ← read fun machine => machine.effects.length
  match host.emit before with
  | some (.build error) => stop error
  | some (.commit error) => do
    change fun machine => { machine with eventCommitFailed := true }
    stop error
  | none =>
    change fun machine => { machine with effects := machine.effects ++ [.event eventType payload] }

/-! ## One call -/

def commandPolicyForPhase (policy : PolicyArtifact) (phaseId : String) (tool : ToolBlock) :
    Except RuntimeError CommandPolicy := do
  let scope := policy.phaseScope.find? fun phase => phase.phaseId = phaseId
  refuseIf ((scope.any fun phase => phase.toolIds.any (· = tool.identity.id)) = false)
    ("tool " ++ tool.identity.id ++ " is not available in phase " ++ phaseId)
  require (policy.commands.find? fun command => command.toolId = tool.identity.id)
    ("runtime policy missing command for tool " ++ tool.identity.id)

/-- What a call has found out before its attempt. -/
structure ToolCall (Prepared : Type) where
  tool : ToolBlock
  commandPolicy : CommandPolicy
  attemptId : String
  timestamp : String
  prepared : Prepared

variable (L : RuntimeLibraries) (call : ToolCall Prepared)

def ToolCall.requestHash : String := host.requestHash call.prepared

def emitToolStarted : Productive Unit :=
  emitAndCommit host .toolStarted (toolStartedPayload call.tool call.commandPolicy call.attemptId)

def emitCancelledTool : Productive Unit :=
  emitAndCommit host .toolFailed (toolErrorPayload call.tool call.attemptId cancelledReason)

def emitExecutorDispatchFailure (code : ExecutorErrorCodeV0) :
    Productive Unit :=
  emitAndCommit host .toolFailed (toolErrorPayload call.tool call.attemptId code.name)

def emitUncertainToolFailure : Productive Unit :=
  emitAndCommit host .toolFailed (toolErrorPayload call.tool call.attemptId runtimeErrorReason)

def cancelledToolResult : RunAttemptResult :=
  { attemptId := call.attemptId
    attemptKind := .tool
    outcome := .cancelled
    classification := some ToolTerminalClassification.cancelled.asStr
    exitCode := none
    timestamp := call.timestamp
    durableOutput := some cancelledAttemptOutput }

def executorDispatchFailureResult (stage : ExecutorAttemptStage)
    (code : ExecutorErrorCodeV0) : RunAttemptResult :=
  { attemptId := call.attemptId
    attemptKind := .tool
    outcome := .failed
    classification := none
    exitCode := none
    timestamp := call.timestamp
    durableOutput := some (executorDispatchFailureOutput stage code) }

/-- The terminal result in the run log and in the recovery file. -/
def persistResult (result : RunAttemptResult) : Productive Unit := do
  write host.terminal (.terminal result)
  markRecoveryFailure (write host.recordAttempt
    (.recordAttempt (some call.tool.identity.id) (call.requestHash host) result))

def persistExecutorDispatchFailure (stage : ExecutorAttemptStage)
    (code : ExecutorErrorCodeV0) : Productive Unit := do
  let commit ← claimDurableCommit host
  let persisted ← settled (persistResult host call (executorDispatchFailureResult call stage code))
  -- The permit ends also when the writes fail.
  releaseOperation host .committingDurableState (commit.getD false)
  answer persisted

def persistCancelledToolAttempt : Productive Unit :=
  persistResult host call (cancelledToolResult call)

/-- The attempt is known to be cancelled. -/
def settleCancelled {α : Type} (call : ToolCall Prepared) : Productive α := do
  persistCancelledToolAttempt host call
  emitCancelledTool host call
  stop .cancelled

/-! ### Preparation -/

/-- The part of a call before its attempt is looked up or dispatched. -/
def prepareToolCall (phase : PhaseBlock) (tool : ToolBlock) (arguments : FlowValue) :
    Productive (ToolCall Prepared) := do
  let commandPolicy ← answer (commandPolicyForPhase host.policy phase.identity.id tool)
  let invocation ← answer ((host.buildToolInvocation tool arguments).mapError fun error =>
    .protocol ("Tool " ++ tool.identity.id ++ " dispatch preflight failed: " ++ error))
  answer host.verifyBinding
  change fun machine => { machine with toolAttempts := saturatingAdd machine.toolAttempts 1 }
  let toolAttempts ← read fun machine => machine.toolAttempts
  let attemptId := "tool-" ++ sixDigits toolAttempts
  let providerAttempts ← read fun machine => machine.providerAttempts
  let timestamp ← answer (host.timestamp (saturatingAdd providerAttempts toolAttempts))
  let prepared ← answer (host.prepare invocation commandPolicy attemptId)
  pure { tool, commandPolicy, attemptId, timestamp, prepared }

/-! ### A recovered attempt -/

/-- An attempt that was settled before a crash: its events again, and its value. -/
def recoverTool (result : RunAttemptResult) :
    Productive (FlowValue × RunAttemptResult) := do
  match result.attemptKind with
  | .provider => markRecoveryFailure (stop (.protocol "recovered Tool attempt has the wrong kind"))
  | .tool =>
    match ← markRecoveryFailure (answer (recoveredExecutorDispatchError L result)) with
    | some (.started, code) => do
      emitToolStarted host call
      emitExecutorDispatchFailure host call code
      stop (.executor code "")
    | some (.preflight, code) => stop (.executor code "")
    | none => do
      emitToolStarted host call
      match result.outcome with
      | .cancelled => do
        let _ ← markRecoveryFailure (answer (recoveredToolTerminal result))
        emitCancelledTool host call
        stop .cancelled
      | _ => do
        let output ← markRecoveryFailure (answer (recoveredToolOutput L result))
        markRecoveryFailure
          (answer (host.validateEnforcementReceipt call.prepared output.enforcement))
        let value ← markRecoveryFailure (answer (recoveredToolValueBound L host.readObject result
          output (call.requestHash host)))
        pure (value, result)

/-! ### A live attempt -/

/-- What the Executor says to a prepared request. -/
def preflightTool (prepared : Prepared) : Productive (ProductiveToolPreflight Waiting) := do
  let reply ← answer (host.preflight prepared)
  change fun machine =>
    { machine with
      effects := machine.effects ++ [match reply with
        | .ready _ => .preflightReady
        | .rejected code => .preflightRejected code] }
  pure reply

def startTool (waiting : Waiting) : Productive ExecutorDispatchOutcome := do
  change fun machine => { machine with effects := machine.effects ++ [.start] }
  answer (host.start waiting)

/-- The terminal result of an execution, in the logs. -/
def recordExecution (enforcement : EnforcementReceiptV0)
    (outcome : ToolExecutionOutcome) (durable : DurableToolResult) :
    Productive (FlowValue × RunAttemptResult) := do
  let terminal ← answer (toolTerminal outcome)
  let result : RunAttemptResult :=
    { attemptId := call.attemptId
      attemptKind := .tool
      outcome := terminal.1
      classification := terminal.2.2
      exitCode := outcome.exitCode
      timestamp := call.timestamp
      durableOutput := some (toolAttemptOutput enforcement (call.requestHash host)
        durable.value.toValue) }
  persistResult host call result
  pure (durable.value, result)

/-- Without a permit an outcome that was completed becomes cancelled. -/
def commitExecution (enforcement : EnforcementReceiptV0)
    (outcome : ToolExecutionOutcome) (durable : DurableToolResult) (commit : Option Bool) :
    Productive (FlowValue × RunAttemptResult) :=
  match commit, outcome.status with
  | none, .completed => do
    let durable ← answer (toolResultValue L outcome.markCancelled)
    recordExecution host call enforcement outcome.markCancelled durable
  | _, _ => recordExecution host call enforcement outcome durable

/-- Whether an outcome that was completed comes after an interrupt. -/
def interruptedExecution (outcome : ToolExecutionOutcome) : Productive Bool :=
  match outcome.status with
  | .completed => do
    let allowed ← settled (ensureProductiveDispatchAllowed host)
    pure !allowed.isOk
  | _ => pure false

/-- The result of an execution that completed, cancelled when an interrupt came before it could
    be committed. -/
def persistExecution (execution : ExecutorToolExecution) :
    Productive (FlowValue × RunAttemptResult) := do
  let interrupted ← interruptedExecution host execution.outcome
  let outcome := if interrupted then execution.outcome.markCancelled else execution.outcome
  let durable ← answer (toolResultValue L outcome)
  write host.persistObjects (.objects durable.objects)
  let commit ← claimDurableCommit host
  let ended ← settled (commitExecution host L call execution.enforcement outcome durable commit)
  releaseOperation host .committingDurableState (commit.getD false)
  answer ended

/-- The settlement of what the start led to. -/
def settleExecution :
    Except RuntimeError ExecutorDispatchOutcome → Productive (FlowValue × RunAttemptResult)
  | .ok (.completed execution) => persistExecution host L call execution
  | .ok (.error code) => do
    persistExecutorDispatchFailure host call .started code
    emitExecutorDispatchFailure host call code
    stop (.executor code "")
  | .error .cancelled => settleCancelled host call
  | .error error => do
    emitUncertainToolFailure host call
    stop error

/-- The start under its permit. -/
def startWithPermit (waiting : Waiting) (claimed : Bool) :
    Productive (FlowValue × RunAttemptResult) := do
  let execution ← settled (startTool host waiting)
  releaseOperation host .dispatching claimed
  settleExecution host L call execution

/-- What follows `tool.started`. -/
def startAndSettle (waiting : Waiting) :
    Productive (FlowValue × RunAttemptResult) := do
  match ← settled (claimOperation host .dispatching) with
  | .ok claimed => startWithPermit host L call waiting claimed
  | .error .cancelled => settleCancelled host call
  | .error error => do
    match ← settled (ensureProductiveDispatchAllowed host) with
    | .error _ => settleCancelled host call
    | .ok _ => do
      emitUncertainToolFailure host call
      stop error

def intentOf : RunAttemptIntent :=
  { attemptId := call.attemptId
    attemptKind := .tool
    expectedEnforcement := some { appliedPolicyDigest := host.policyDigest call.prepared }
    requestHash := call.requestHash host
    toolId := some call.tool.identity.id
    timestamp := call.timestamp }

/-- What follows the answer to preflight, whose permit ends first. -/
def continueTool (claimed : Bool)
    (reply : Except RuntimeError (ProductiveToolPreflight Waiting)) :
    Productive (FlowValue × RunAttemptResult) := do
  releaseOperation host .dispatching claimed
  match ← answer reply with
  | .rejected code => do
    persistExecutorDispatchFailure host call .preflight code
    stop (.executor code "")
  | .ready waiting => do
    ensureProductiveDispatchAllowed host
    emitToolStarted host call
    startAndSettle host L call waiting

def dispatchTool : Productive (FlowValue × RunAttemptResult) := do
  ensureProductiveDispatchAllowed host
  answer host.reserveProductiveDispatch
  write host.intent (.intent (intentOf host call))
  let claimed ← claimOperation host .dispatching
  let reply ← settled (preflightTool host call.prepared)
  continueTool host L call claimed reply

/-! ### The call -/

/-- The terminal state of a settled attempt. -/
def terminalOf (recovered : Bool) (result : RunAttemptResult) :
    Productive (EventType × Option String) :=
  match recovered with
  | true => markRecoveryFailure (answer (recoveredToolTerminal result))
  | false => answer (recoveredToolTerminal result)

/-- The terminal event of a settled attempt. -/
def finishTool (recovered : Bool) (value : FlowValue)
    (result : RunAttemptResult) : Productive FlowValue := do
  let terminal ← terminalOf recovered result
  emitAndCommit host terminal.1 (match terminal.2 with
    | some error => toolErrorPayload call.tool call.attemptId error
    | none => toolExitPayload call.tool call.attemptId result.exitCode)
  match result.outcome with
  | .completed => pure value
  | .cancelled => stop .cancelled
  | outcome =>
    stop (.protocol ("Tool " ++ call.tool.identity.id ++ " ended with " ++ outcome.asStr))

/-- The attempt of a call, settled before or now. -/
def settleTool (recovered : Option RunAttemptResult) :
    Productive (FlowValue × RunAttemptResult) :=
  match recovered with
  | some result => recoverTool host L call result
  | none => dispatchTool host L call

def executeProductiveTool (phase : PhaseBlock) (tool : ToolBlock) (arguments : FlowValue) :
    Productive FlowValue := do
  let call ← prepareToolCall host phase tool arguments
  let recovered ← markRecoveryFailure (answer (host.recoverAttempt .tool call.attemptId
    (call.requestHash host) (some tool.identity.id)))
  let ended ← settleTool host L call recovered
  finishTool host call recovered.isSome ended.1 ended.2

end

end Watershed.FlowAgent
