/-
  The supervision of one command (`flow-agent-executor/src/backend/supervision.rs`, `lifecycle.rs`).

  The loop polls both output streams once, looks for a reason to end, and drains what is left. All
  that it learns in one turn is an `Observation`, so a run is a list of them; times are in
  milliseconds. Signals to the child are not kept: what they do comes back as observations.
-/
import Watershed.Proto.ExecutorTypes

namespace Watershed.FlowExecutor

open Watershed.Proto.Executor

/-! ## Exit statuses -/

/-- A wait status of the operating system. -/
structure ExitStatus where
  raw : UInt32
  deriving DecidableEq

namespace ExitStatus

def success (status : ExitStatus) : Bool := status.raw = 0

/-- The exit code, unless a signal ended the process. -/
def code (status : ExitStatus) : Option Int32 :=
  if status.raw &&& 0x7f = 0 then some ((status.raw >>> 8) &&& 0xff).toInt32 else none

end ExitStatus

def classifyExit : Option ExitStatus → Option ExecutorToolClassificationV0
  | none => some .signalTermination
  | some status =>
    if status.success then none
    else if status.code.isSome then some .nonzeroExit
    else some .signalTermination

/-! ## Cleanup -/

def toolTerminationGraceV0 : Nat := 1000
def toolForcedReapDeadlineV0 : Nat := 1000
def toolOutputDrainDeadlineV0 : Nat := 1000

inductive CleanupAction where
  | wait
  | forceKill
  | failClosed
  | complete
  | outputDrainTimeout
  deriving DecidableEq

inductive CleanupPhase where
  | termGrace
  | forcedReap
  | outputDrain
  deriving DecidableEq

structure CleanupController where
  phase : CleanupPhase
  deadline : Nat
  deriving DecidableEq

namespace CleanupController

def new (started : Nat) : CleanupController :=
  { phase := .termGrace, deadline := started + toolTerminationGraceV0 }

def beginOutputDrain (now : Nat) (outputDrained : Bool) : CleanupAction × CleanupController :=
  (if outputDrained then .complete else .wait,
    { phase := .outputDrain, deadline := now + toolOutputDrainDeadlineV0 })

def advance (controller : CleanupController) (now : Nat) (cleanupComplete outputDrained : Bool) :
    CleanupAction × CleanupController :=
  match controller.phase with
  | .termGrace =>
    if cleanupComplete then beginOutputDrain now outputDrained
    else if controller.deadline ≤ now then
      (.forceKill, { phase := .forcedReap, deadline := now + toolForcedReapDeadlineV0 })
    else (.wait, controller)
  | .forcedReap =>
    if cleanupComplete then beginOutputDrain now outputDrained
    else if controller.deadline ≤ now then (.failClosed, controller)
    else (.wait, controller)
  | .outputDrain =>
    if outputDrained then (.complete, controller)
    else if controller.deadline ≤ now then (.outputDrainTimeout, controller)
    else (.wait, controller)

end CleanupController

/-! ## Output -/

/-- What one `read` of a stream gives. -/
inductive ReadResult where
  /-- Bytes that were read; none at the end of the stream. -/
  | bytes (bytes : List UInt8)
  /-- `WouldBlock` or `Interrupted`. -/
  | pending
  | failed
  deriving DecidableEq

structure OutputCollector where
  /-- The stream is still read. -/
  reading : Bool
  output : List UInt8
  overflow : Bool
  failed : Bool
  deriving DecidableEq

namespace OutputCollector

/-- A collector, whose stream may refuse to be read without blocking. -/
def new (ready : Bool) : OutputCollector :=
  { reading := ready, output := [], overflow := false, failed := !ready }

def poll (limit : Nat) (collector : OutputCollector) (result : ReadResult) : OutputCollector :=
  if collector.reading then
    match result with
    | .bytes [] => { collector with reading := false }
    | .bytes bytes =>
      let remaining := limit - collector.output.length
      { collector with
        output := collector.output ++ bytes.take remaining
        overflow := collector.overflow || remaining < bytes.length }
    | .pending => collector
    | .failed => { collector with failed := true, reading := false }
  else collector

end OutputCollector

/-! ## The loop -/

inductive PrimaryTrigger where
  | stdoutCap
  | stderrCap
  | cancelled
  | timedOut
  | exit
  | collectorFailed
  deriving DecidableEq

def selectPrimary (primary : Option PrimaryTrigger) (candidate : PrimaryTrigger) :
    Option PrimaryTrigger :=
  match primary, candidate with
  | some _, .collectorFailed => some .collectorFailed
  | some trigger, _ => some trigger
  | none, _ => some candidate

/-- The same when there is a reason for it. -/
def selectPrimaryIf (condition : Bool) (candidate : PrimaryTrigger)
    (primary : Option PrimaryTrigger) : Option PrimaryTrigger :=
  if condition then selectPrimary primary candidate else primary

/-- The reasons of a turn, in the order in which they are looked at. -/
def selectReasons (stdoutCap stderrCap collectorFailed cancelled timedOut : Bool)
    (primary : Option PrimaryTrigger) : Option PrimaryTrigger :=
  let primary := selectPrimaryIf stdoutCap .stdoutCap primary
  let primary := selectPrimaryIf stderrCap .stderrCap primary
  let primary := selectPrimaryIf collectorFailed .collectorFailed primary
  let primary := selectPrimaryIf (primary.isNone && cancelled) .cancelled primary
  selectPrimaryIf (primary.isNone && timedOut) .timedOut primary

structure ProcessOutcome where
  status : Option ExitStatus
  classification : Option ExecutorToolClassificationV0
  stdout : List UInt8
  stderr : List UInt8
  deriving DecidableEq

inductive WaitResult where
  | running
  | exited (status : ExitStatus)
  | failed
  deriving DecidableEq

/-- What one turn of the loop learns. -/
structure Observation where
  stdout : ReadResult
  stderr : ReadResult
  cancelled : Bool
  /-- The time that is compared with the deadline. -/
  now : Nat
  wait : WaitResult
  cleanupStarted : Nat
  cleanupNow : Nat
  deriving DecidableEq

structure Limits where
  stdout : Nat
  stderr : Nat
  deadline : Nat

structure Supervision where
  stdout : OutputCollector
  stderr : OutputCollector
  primary : Option PrimaryTrigger
  status : Option ExitStatus
  statusBeforeCleanup : Option ExitStatus
  cleanup : Option CleanupController

namespace Supervision

def start (stdoutReady stderrReady : Bool) : Supervision :=
  { stdout := .new stdoutReady
    stderr := .new stderrReady
    primary := none
    status := none
    statusBeforeCleanup := none
    cleanup := none }

/-- The polls and the reasons that come before the child is asked. -/
def observe (limits : Limits) (s : Supervision) (o : Observation) : Supervision :=
  let stdout := s.stdout.poll limits.stdout o.stdout
  let stderr := s.stderr.poll limits.stderr o.stderr
  let primary := selectReasons stdout.overflow stderr.overflow (stdout.failed || stderr.failed)
    o.cancelled (limits.deadline ≤ o.now) s.primary
  { s with stdout, stderr, primary }

variable (s : Supervision)

/-- `try_wait`, as long as no status is known. -/
def tryWait (result : WaitResult) : Supervision :=
  if s.status.isSome then s
  else
    match result with
    | .running => s
    | .exited status =>
      { s with
        statusBeforeCleanup := if s.cleanup.isSome then none else some status
        status := some status
        primary := selectPrimary s.primary .exit }
    | .failed => { s with primary := selectPrimary s.primary .collectorFailed }

def beginCleanup (started : Nat) : Supervision :=
  if s.cleanup.isNone && s.primary.isSome then
    { s with cleanup := some (CleanupController.new started) }
  else s

/-- What a turn learns before the cleanup goes on. -/
def learn (limits : Limits) (s : Supervision) (o : Observation) : Supervision :=
  ((s.observe limits o).tryWait o.wait).beginCleanup o.cleanupStarted

def outputDrained : Bool := !s.stdout.reading && !s.stderr.reading

/-- The classification of a run that was drained. -/
def classification : Option ExecutorToolClassificationV0 :=
  match s.primary with
  | some .cancelled => some .cancelled
  | some .timedOut => some .toolTimedOut
  | some .collectorFailed => some .outputCollectorFailed
  | some .stdoutCap | some .stderrCap =>
    some (match s.stdout.overflow, s.stderr.overflow with
      | true, true => .stdoutStderrCapExceeded
      | true, false => .stdoutCapExceeded
      -- Without an overflow there is no such trigger.
      | false, _ => .stderrCapExceeded)
  -- A run that is drained has a trigger.
  | some .exit | none => classifyExit s.statusBeforeCleanup

def outcome (classification : Option ExecutorToolClassificationV0) :
    ProcessOutcome :=
  { status := s.statusBeforeCleanup
    classification := classification
    stdout := s.stdout.output
    stderr := s.stderr.output }

end Supervision

/-- How a turn ends. -/
inductive Turn where
  | again (s : Supervision)
  | returned (outcome : ProcessOutcome)
  /-- The Executor ends itself. -/
  | failedClosed

def Supervision.turn (limits : Limits) (s : Supervision) (o : Observation) : Turn :=
  let s := s.learn limits o
  match s.cleanup with
  | none => .again s
  | some controller =>
    let advanced := controller.advance o.cleanupNow s.status.isSome s.outputDrained
    let s := { s with cleanup := some advanced.2 }
    match advanced.1 with
    | .wait | .forceKill => .again s
    | .failClosed => .failedClosed
    | .complete => .returned (s.outcome s.classification)
    | .outputDrainTimeout => .returned (s.outcome (some .outputDrainTimeout))

/-- The loop of `run_bounded` over what it observes: what it returns, and the observations that it
    did not make. -/
def superviseFrom (limits : Limits) (s : Supervision) :
    List Observation → Option (ProcessOutcome × List Observation)
  | [] => none
  | o :: observations =>
    match s.turn limits o with
    | .again s => superviseFrom limits s observations
    | .returned outcome => some (outcome, observations)
    | .failedClosed => none

/-- `run_bounded` once the command is launched. -/
def supervise (limits : Limits) (stdoutReady stderrReady : Bool) (observations : List Observation) :
    Option (ProcessOutcome × List Observation) :=
  superviseFrom limits (.start stdoutReady stderrReady) observations

end Watershed.FlowExecutor
