/-
  Validation of a session's event stream (`validate.rs`).

  A reader validates text (`validateAppended`), a writer validates the events it has built
  (`validateConstructedEvent`). Both end in the same checks against the same state.
-/
import Watershed.Lib.Lines
import Watershed.FlowAgent.Lifecycle

namespace Watershed.FlowAgent

open Watershed.Proto
open Std (TreeMap TreeSet)

/-! ## Limits -/

/-- Maximum canonical event record size in bytes, including its terminating LF. -/
def maxCanonicalEventBytes : Nat := 320 * 1024

def maxFlowInvocations : Nat := 512

/-! ## Events -/

section
variable (L : Libraries) (path : String) (lineNumber : Nat)

def validateEventPayload (event : EventEnvelope) : Except RuntimeError Unit :=
  (event.validateV0 L).mapError fun error =>
    .protocol (lineText path lineNumber ++ event.eventType.asStr ++
      " has invalid event structure: " ++ error.text)

def validateEventSize (canonicalBytes : Nat) : Except RuntimeError Unit :=
  refuseIf (maxCanonicalEventBytes < canonicalBytes) (path ++ " canonical event at line " ++
    toString lineNumber ++ " is " ++ toString canonicalBytes ++ " bytes; max " ++
    toString maxCanonicalEventBytes)

/-- Reads one line: it is the canonical text of its value, and the value is an event. -/
def parseCanonicalEvent (line : String) : Except RuntimeError EventEnvelope := do
  let value ← (L.fromStr line).mapError fun error =>
    RuntimeError.protocol (path ++ " line " ++ toString lineNumber ++ ": invalid JSON: " ++ error)
  let canonical ← (canonicalJson L value.1).mapError fun error =>
    RuntimeError.protocol (path ++ " line " ++ toString lineNumber ++ ": " ++ error.text L)
  refuseIf (canonical ≠ line) (lineText path lineNumber ++ "must use canonical JSONL bytes")
  (EventEnvelope.fromValue L value).mapError fun error =>
    RuntimeError.invalidEvent (path ++ " line " ++ toString lineNumber ++ ": invalid event: ") error

end

/-! ## State -/

structure SessionAppendValidationState where
  expectedSessionId : Option String
  streamSessionId : Option String := none
  previousSequence : UInt64 := 0
  eventIds : TreeSet String := ∅
  flowStartedIds : TreeSet String := ∅
  terminalLine : Option Nat := none
  streamBytes : Nat := 0
  lineCount : Nat := 0
  lifecycle : SessionLifecycleState := {}

namespace SessionAppendValidationState

def new (expectedSessionId : Option String) : SessionAppendValidationState :=
  { expectedSessionId := expectedSessionId }

def unscoped : SessionAppendValidationState := new none

section
variable (L : Libraries) (state : SessionAppendValidationState) (path : String) (lineNumber : Nat)

def validateBudget (canonicalBytes : Nat) : Except RuntimeError Unit := do
  refuseIf (maxFlowEvents < lineNumber) (path ++ " runtime event budget exceeded at line " ++
    toString lineNumber ++ ": max " ++ toString maxFlowEvents)
  refuseIf (maxSessionEventBytes < saturatingAdd state.streamBytes canonicalBytes)
    (path ++ " session event data budget exceeded at line " ++ toString lineNumber ++ ": max " ++
      toString maxSessionEventBytes ++ " bytes")

/-- The sequence number that follows the last one, if there is one. -/
def nextSequence : Option UInt64 :=
  if state.previousSequence.toNat + 1 < 2 ^ 64 then some (state.previousSequence + 1) else none

variable (event : EventEnvelope)

/-- A flow starts once, and not too many flows start. -/
def validateFlowStarted : Except RuntimeError Unit :=
  if event.eventType = .flowStarted then do
    let flowId ← require event.flowId
      (lineText path lineNumber ++ "flow.started must include flow_id")
    refuseIf (state.flowStartedIds.contains flowId = true)
      (lineText path lineNumber ++ "must use a unique flow_id for flow.started")
    refuseIf (maxFlowInvocations ≤ state.flowStartedIds.size)
      (path ++ " flow invocation budget exceeded at line " ++ toString lineNumber ++ ": max " ++
        toString maxFlowInvocations)
  else .ok ()

/-- Checks one event against everything before it. -/
def validateEvent : Except RuntimeError Unit := do
  refuseSome (state.expectedSessionId.filter (· ≠ event.sessionId)) fun expected =>
    path ++ " contains session_id " ++ L.debug event.sessionId ++ ", expected " ++
      L.debug expected ++ "; stream must use one session_id"
  refuseIf (lineNumber = 1 ∧ event.sequence ≠ 1) (path ++ " first sequence must be 1")
  refuseIf (state.nextSequence ≠ some event.sequence)
    (lineText path lineNumber ++ "sequence must increase by exactly 1")
  refuseIf (state.eventIds.contains event.eventId = true)
    (lineText path lineNumber ++ "must use a unique event_id")
  refuseSome state.terminalLine fun terminalLine =>
    lineText path lineNumber ++ "appears after terminal session event on line " ++
      toString terminalLine
  state.validateFlowStarted path lineNumber event
  refuseSome (state.streamSessionId.filter (· ≠ event.sessionId)) fun _ =>
    path ++ " must use one session_id"
  refuseIf (lineNumber = 1 ∧ event.eventType ≠ .sessionStarted)
    (path ++ " line 1 must start with session.started")
  state.lifecycle.validateEvent L path lineNumber event
  if isTerminalSession event then state.lifecycle.validateTerminalSession L path (some event)
  else .ok ()

/-- Moves the state on past an event that was checked. -/
def recordEvent (canonicalBytes : Nat) : SessionAppendValidationState := { state with
    streamBytes := saturatingAdd state.streamBytes canonicalBytes
    previousSequence := event.sequence
    eventIds := state.eventIds.insert event.eventId
    flowStartedIds :=
      if event.eventType = .flowStarted then state.flowStartedIds.insert (event.flowId.getD "")
      else state.flowStartedIds
    streamSessionId := some (state.streamSessionId.getD event.sessionId)
    lifecycle := state.lifecycle.recordEvent lineNumber event
    terminalLine := if isTerminalSession event then some lineNumber else state.terminalLine
    lineCount := lineNumber }

end

/-! ## The writer's check -/

variable (L : Libraries) (path : String)

/-- The checks of an event of which only the size of its canonical text is known. -/
def checkConstructedEvent (event : EventEnvelope) (canonicalBytes : Nat)
    (state : SessionAppendValidationState) : Except RuntimeError Unit := do
  let lineNumber := state.lineCount + 1
  validateEventPayload L path lineNumber event
  validateEventSize path lineNumber canonicalBytes
  state.validateBudget path lineNumber canonicalBytes
  state.validateEvent L path lineNumber event

def validateConstructedEvent (event : EventEnvelope) (canonicalBytes : Nat) :
    Fallible RuntimeError SessionAppendValidationState Unit := fun state =>
  match checkConstructedEvent L path event canonicalBytes state with
  | .ok _ => (.ok (), state.recordEvent (state.lineCount + 1) event canonicalBytes)
  | .error error => (.error error, state)

/-! ## The reader's check -/

section
variable {σ : Type} (visit : EventEnvelope → Fallible RuntimeError σ Unit)

/-- Reads and checks one line, without its LF. -/
def readLine (state : SessionAppendValidationState) (line : List Char) :
    Except RuntimeError (EventEnvelope × Nat) := do
  let lineNumber := state.lineCount + 1
  let text := String.ofList line
  let canonicalBytes := saturatingAdd text.utf8ByteSize 1
  refuseIf (line.getLast? = some '\r') (lineText path lineNumber ++ "must use LF-only line endings")
  validateEventSize path lineNumber canonicalBytes
  let event ← parseCanonicalEvent L path lineNumber text
  state.validateBudget path lineNumber canonicalBytes
  state.validateEvent L path lineNumber event
  return (event, canonicalBytes)

/-- The loop over the lines. A line is recorded after the visitor has taken its event. -/
def validateLines : List (List Char) → Fallible RuntimeError (SessionAppendValidationState × σ) Unit
  | [] => pure ()
  | line :: lines => do
    let (event, canonicalBytes) ← fun s => (s.1.readLine L path line, s)
    Fallible.zoom Prod.snd (fun visited s => (s.1, visited)) (visit event)
    Fallible.change fun s => (s.1.recordEvent (s.1.lineCount + 1) event canonicalBytes, s.2)
    validateLines lines

def validateAppendedWith (text : String) :
    Fallible RuntimeError (SessionAppendValidationState × σ) Unit :=
  if text = "" then pure ()
  else if text.toList.getLast? ≠ some '\n' then
    .fail (.protocol (path ++ " appended suffix must end with LF"))
  else validateLines L path visit (splitTerminator '\n' text.toList)

end

/-- Validates appended text on a copy of the state, which replaces the state only if all of the
    text is accepted. -/
def validateAppended (text : String) :
    Fallible RuntimeError SessionAppendValidationState (List EventEnvelope) := fun state =>
  let push (event : EventEnvelope) : Fallible RuntimeError (List EventEnvelope) Unit :=
    .change (· ++ [event])
  match validateAppendedWith L path push text (state, []) with
  | (.ok _, staged, appendedEvents) => (.ok appendedEvents, staged)
  | (.error error, _) => (.error error, state)

end SessionAppendValidationState

/-- Validates public v0 event JSONL canonical bytes, envelope fields, payload contracts and
    session lifecycle ordering. -/
def validateProtocolJsonlText (L : Libraries) (path text : String) :
    Except RuntimeError (List EventEnvelope) := do
  refuseIf (maxSessionEventBytes < text.utf8ByteSize) (path ++ " session event data size " ++
    toString text.utf8ByteSize ++ " bytes exceeds max " ++ toString maxSessionEventBytes)
  refuseIf (text.toList.getLast? ≠ some '\n') (path ++ " must end with LF")
  let events ← (SessionAppendValidationState.unscoped.validateAppended L path text).1
  refuseIf (events = []) (path ++ " must contain at least one event")
  return events

end Watershed.FlowAgent
