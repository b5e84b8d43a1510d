/-
  The session lifecycle that an event stream must follow (`validate/lifecycle.rs`,
  `validate/lifecycle/shared.rs`).

  The state keeps what is open and what was closed: flows, the Phases of each flow as a stack,
  tools and messages. `validateEvent` checks one event against it and `recordEvent` moves it on.
-/
import Watershed.FlowAgent.Basic

namespace Watershed.FlowAgent

open Watershed.Proto
open Std (TreeMap TreeSet)

/-! ## Keys -/

structure MessageLifecycleKey where
  flowId : String
  messageId : String
  deriving DecidableEq

structure ToolLifecycleKey where
  flowId : Option String
  phaseExecutionId : Option String
  phaseId : Option String
  stepId : Option String
  toolId : String
  attemptId : Option String
  deriving DecidableEq

/-- Keys are ordered by their fields, the first one first. -/
instance : Ord MessageLifecycleKey := ⟨compareLex (compareOn (·.flowId)) (compareOn (·.messageId))⟩

instance : Ord ToolLifecycleKey :=
  ⟨compareLex (compareOn (·.flowId)) <| compareLex (compareOn (·.phaseExecutionId)) <|
    compareLex (compareOn (·.phaseId)) <| compareLex (compareOn (·.stepId)) <|
    compareLex (compareOn (·.toolId)) (compareOn (·.attemptId))⟩

instance : Std.TransOrd MessageLifecycleKey :=
  inferInstanceAs (Std.TransCmp (compareLex (compareOn _) (compareOn _)))

instance : Std.TransOrd ToolLifecycleKey :=
  inferInstanceAs (Std.TransCmp (compareLex (compareOn _) (compareLex (compareOn _)
    (compareLex (compareOn _) (compareLex (compareOn _) (compareLex (compareOn _)
      (compareOn _)))))))

instance : Std.LawfulEqOrd MessageLifecycleKey where
  eq_of_compare {a b} h := by
    obtain ⟨h1, h2⟩ := compareLex_eq_eq.mp h
    cases a
    cases b
    simp_all [compareOn]

instance : Std.LawfulEqOrd ToolLifecycleKey where
  eq_of_compare {a b} h := by
    change compareLex _ _ a b = _ at h
    simp only [compareLex_eq_eq] at h
    cases a
    cases b
    simp_all [compareOn]

structure PhaseLifecycleKey where
  phaseExecutionId : String
  phaseId : String
  phaseKind : PhaseKind
  deriving DecidableEq

/-! ## State -/

/-- What was started: the keys that are still active, and the line that ended each other one. -/
structure LifecycleTracker (κ : Type) [Ord κ] where
  active : TreeSet κ := ∅
  terminal : TreeMap κ Nat := ∅

namespace LifecycleTracker

variable {κ : Type} [Ord κ] (tracker : LifecycleTracker κ)

def start (key : κ) : LifecycleTracker κ := { tracker with active := tracker.active.insert key }

def finish (key : κ) (lineNumber : Nat) : LifecycleTracker κ where
  active := tracker.active.erase key
  terminal := tracker.terminal.insert key lineNumber

def isStarted (key : κ) : Bool := tracker.active.contains key || tracker.terminal.contains key

def terminalLine (key : κ) : Option Nat := tracker.terminal[key]?

end LifecycleTracker

structure SessionLifecycleState where
  flows : LifecycleTracker String := {}
  flowDefinitionIds : TreeMap String String := ∅
  flowParents : TreeMap String (Option String) := ∅
  terminalPhases : TreeMap String Nat := ∅
  tools : LifecycleTracker ToolLifecycleKey := {}
  terminalMessages : TreeMap MessageLifecycleKey Nat := ∅
  activeMessageRoles : TreeMap MessageLifecycleKey String := ∅
  /-- The open Phases of each flow, the innermost last. -/
  activePhases : TreeMap String (List PhaseLifecycleKey) := ∅
  toolsWithoutProgress : TreeSet ToolLifecycleKey := ∅

/-! ## Reading an event -/

variable (event : EventEnvelope)

/-- A string of the payload. The payload contract has checked that it is there
    (`Payload.validate_strings`). -/
def lifecyclePayloadString (field : String) : String :=
  (event.str field).getD ""

def lifecyclePhaseKey : PhaseLifecycleKey where
  phaseExecutionId := lifecyclePayloadString event "phase_execution_id"
  phaseId := lifecyclePayloadString event "phase_id"
  phaseKind := ((event.str "phase_kind").bind PhaseKind.tryFrom).getD .leaf

/-- Whether a terminal Phase event closes `active`; it may leave out the kind. -/
def terminalPhaseMatches (active : PhaseLifecycleKey) : Bool :=
  active.phaseExecutionId = lifecyclePayloadString event "phase_execution_id" &&
    active.phaseId = lifecyclePayloadString event "phase_id" &&
    (event.str "phase_kind").all fun kind => PhaseKind.tryFrom kind = some active.phaseKind

/-- `session.completed` or `session.failed`. -/
def isTerminalSession : Bool :=
  event.eventType = .sessionCompleted || event.eventType = .sessionFailed

namespace SessionLifecycleState

/-- The innermost open Phase of a flow. -/
def activePhase (state : SessionLifecycleState) (flowId : String) : Option PhaseLifecycleKey :=
  state.activePhases[flowId]?.bind List.getLast?

def lifecycleToolKey (state : SessionLifecycleState) (event : EventEnvelope) :
    ToolLifecycleKey :=
  let activePhase := event.flowId.bind state.activePhase
  { flowId := event.flowId
    phaseExecutionId := activePhase.map (·.phaseExecutionId)
    phaseId := activePhase.map (·.phaseId)
    stepId := none
    toolId := lifecyclePayloadString event "tool_id"
    attemptId := event.str "attempt_id" }

end SessionLifecycleState

/-! ## Messages of refused events -/

section
variable (L : Libraries) (path : String) (lineNumber : Nat) (event : EventEnvelope)

/-- The start of every message about a line. -/
def lineText : String := path ++ " line " ++ toString lineNumber ++ " "

def openChildLifecycleText (childKind childId : String) : String :=
  lineText path lineNumber ++ event.eventType.asStr ++ " requires no active " ++ childKind ++ " " ++
    L.debug childId

def terminalLifecycleText (kind id : String) (terminalLine : Nat) : String :=
  lineText path lineNumber ++ event.eventType.asStr ++ " appears after terminal " ++ kind ++ " " ++
    L.debug id ++ " on line " ++ toString terminalLine

def openLifecycleText (kind id : String) : String :=
  path ++ " terminal session has open " ++ kind ++ " " ++ L.debug id

def requireLifecycleFlowId : Except RuntimeError String :=
  require event.flowId (lineText path lineNumber ++ event.eventType.asStr ++ " must include flow_id")

/-! ## Checks -/

namespace SessionLifecycleState

variable (state : SessionLifecycleState)

/-- An event of a flow comes after the flow's start and before its end. -/
def validateFlowScope : Except RuntimeError Unit :=
  match event.flowId with
  | some flowId =>
    if event.eventType ≠ .flowStarted then do
      refuseIf (state.flows.isStarted flowId = false) (lineText path lineNumber ++
        event.eventType.asStr ++ " must follow flow.started for flow_id " ++ L.debug flowId)
      refuseSome (state.flows.terminalLine flowId)
        (terminalLifecycleText L path lineNumber event "flow" flowId)
    else .ok ()
  | none => .ok ()

/-- The flow that an event names as its parent is another one, started and still active. -/
def validateParentReference (flowId : String) : Except RuntimeError Unit :=
  match event.parentFlowId with
  | none => .ok ()
  | some parentFlowId => do
    refuseIf (parentFlowId = flowId) (lineText path lineNumber ++
      "parent_flow_id must not match flow_id " ++ L.debug flowId)
    refuseIf (state.flows.isStarted parentFlowId = false) (lineText path lineNumber ++
      "parent_flow_id " ++ L.debug parentFlowId ++ " must reference an already started flow")
    refuseSome (state.flows.terminalLine parentFlowId) fun terminalLine =>
      lineText path lineNumber ++ "parent_flow_id " ++ L.debug parentFlowId ++
        " references terminal flow on line " ++ toString terminalLine

/-- Ensures parent flow references are already started, still active, and consistent with the
    parent recorded by flow.started. -/
def validateLifecycleParent : Except RuntimeError Unit := do
  refuseIf (event.parentFlowId.isSome ∧ event.flowId.isNone)
    (lineText path lineNumber ++ "parent_flow_id requires flow_id")
  match event.flowId with
  | none => .ok ()
  | some flowId => do
    state.validateParentReference L path lineNumber event flowId
    refuseIf (∃ expectedParent ∈ state.flowParents[flowId]?, expectedParent ≠ event.parentFlowId)
      (lineText path lineNumber ++ "parent_flow_id for flow_id " ++ L.debug flowId ++
        " must match flow.started")

def requireActiveLeafPhase : Except RuntimeError PhaseLifecycleKey := do
  let flowId ← requireLifecycleFlowId path lineNumber event
  let phase ← require (state.activePhase flowId) (lineText path lineNumber ++
    event.eventType.asStr ++ " requires an active Phase for flow_id " ++ L.debug flowId)
  refuseIf (phase.phaseKind ≠ .leaf)
    (lineText path lineNumber ++ event.eventType.asStr ++ " requires an active leaf Phase")
  return phase

def rejectTerminalToolEvent (tool : ToolLifecycleKey) : Except RuntimeError Unit :=
  refuseSome (state.tools.terminalLine tool)
    (terminalLifecycleText L path lineNumber event "tool" tool.toolId)

/-- A flow ends with the definition it started with, after its Phases and its child flows. -/
def validateFlowEnd : Except RuntimeError Unit := do
  let flowId ← requireLifecycleFlowId path lineNumber event
  refuseIf (state.flowDefinitionIds[flowId]? ≠
      some (lifecyclePayloadString event "flow_definition_id"))
    (lineText path lineNumber ++ event.eventType.asStr ++
      " flow_definition_id must match flow.started for flow_id " ++ L.debug flowId)
  refuseSome (state.activePhase flowId) fun phase =>
    openChildLifecycleText L path lineNumber event "phase" phase.phaseExecutionId
  refuseSome (state.flows.active.toList.find? fun child =>
      state.flowParents[child]?.join = some flowId)
    (openChildLifecycleText L path lineNumber event "child flow")

def validatePhaseEntered : Except RuntimeError Unit := do
  let flowId ← requireLifecycleFlowId path lineNumber event
  let phase := lifecyclePhaseKey event
  refuseSome state.terminalPhases[phase.phaseExecutionId]?
    (terminalLifecycleText L path lineNumber event "phase" phase.phaseExecutionId)
  refuseIf ((state.activePhases.toList.flatMap (·.2)).any fun active =>
      active.phaseExecutionId = phase.phaseExecutionId)
    (lineText path lineNumber ++ "duplicate active phase.entered for phase_execution_id " ++
      L.debug phase.phaseExecutionId)
  refuseIf ((state.activePhase flowId).any fun active => active.phaseKind = .leaf)
    (lineText path lineNumber ++ "phase.entered cannot nest below an active leaf Phase")

def validatePhaseClosed : Except RuntimeError Unit := do
  let phaseExecutionId := lifecyclePayloadString event "phase_execution_id"
  refuseSome state.terminalPhases[phaseExecutionId]?
    (terminalLifecycleText L path lineNumber event "phase" phaseExecutionId)
  let flowId ← requireLifecycleFlowId path lineNumber event
  refuseIf ((state.activePhase flowId).any (terminalPhaseMatches event) = false)
    (lineText path lineNumber ++ event.eventType.asStr ++
      " must close active phase_execution_id " ++ L.debug phaseExecutionId)
  refuseSome (state.tools.active.toList.find? fun tool =>
      tool.phaseExecutionId = some phaseExecutionId)
    fun tool => openChildLifecycleText L path lineNumber event "tool" tool.toolId
  refuseSome (state.activeMessageRoles.keys.find? fun message => message.flowId = flowId)
    fun message => openChildLifecycleText L path lineNumber event "message" message.messageId

def validateToolStarted : Except RuntimeError Unit := do
  let _ ← state.requireActiveLeafPhase L path lineNumber event
  let tool := state.lifecycleToolKey event
  state.rejectTerminalToolEvent L path lineNumber event tool
  refuseIf (state.tools.isStarted tool = true) (lineText path lineNumber ++
    "duplicate active tool.started for tool_id " ++ L.debug tool.toolId)

def validateToolContinued : Except RuntimeError Unit := do
  let tool := state.lifecycleToolKey event
  state.rejectTerminalToolEvent L path lineNumber event tool
  refuseIf (state.tools.isStarted tool = false) (lineText path lineNumber ++
    event.eventType.asStr ++ " must follow tool.started for tool_id " ++ L.debug tool.toolId)

def validateToolFailed : Except RuntimeError Unit := do
  let flowId ← requireLifecycleFlowId path lineNumber event
  let tool := state.lifecycleToolKey event
  state.rejectTerminalToolEvent L path lineNumber event tool
  let afterPhaseEntered := state.activePhases.contains flowId
  refuseIf (state.tools.isStarted tool = false ∧ afterPhaseEntered = true)
    (lineText path lineNumber ++
      "tool.failed must follow tool.started after phase.entered for flow_id " ++ L.debug flowId)

def lifecycleMessageKey : Except RuntimeError MessageLifecycleKey := do
  let flowId ← requireLifecycleFlowId path lineNumber event
  return ⟨flowId, lifecyclePayloadString event "message_id"⟩

/-- The role of a message differs from the one it started with. -/
def roleText (role activeRole messageId : String) : String :=
  lineText path lineNumber ++ event.eventType.asStr ++ " role " ++ L.debug role ++
    " must match active role " ++ L.debug activeRole ++ " for message_id " ++ L.debug messageId

def validateMessageDelta : Except RuntimeError Unit := do
  let message ← lifecycleMessageKey path lineNumber event
  refuseSome state.terminalMessages[message]?
    (terminalLifecycleText L path lineNumber event "message" message.messageId)
  let role := lifecyclePayloadString event "role"
  refuseSome (state.activeMessageRoles[message]?.filter (· ≠ role)) fun activeRole =>
    roleText L path lineNumber event role activeRole message.messageId

def validateMessageCompleted : Except RuntimeError Unit := do
  let message ← lifecycleMessageKey path lineNumber event
  refuseSome state.terminalMessages[message]?
    (terminalLifecycleText L path lineNumber event "message" message.messageId)
  let role := lifecyclePayloadString event "role"
  let activeRole ← require state.activeMessageRoles[message]? (lineText path lineNumber ++
    "message.completed must follow message.delta for message_id " ++ L.debug message.messageId)
  refuseIf (activeRole ≠ role) (roleText L path lineNumber event role activeRole message.messageId)

/-- The checks of the event's own type. -/
def validateOwn : Except RuntimeError Unit :=
  match event.eventType with
  | .flowStarted => do
    let _ ← requireLifecycleFlowId path lineNumber event
  | .flowCompleted | .flowFailed => state.validateFlowEnd L path lineNumber event
  | .phaseEntered => state.validatePhaseEntered L path lineNumber event
  | .phaseCompleted | .phaseFailed => state.validatePhaseClosed L path lineNumber event
  | .toolStarted => state.validateToolStarted L path lineNumber event
  | .toolProgress | .toolCompleted | .toolTimedOut =>
    state.validateToolContinued L path lineNumber event
  | .toolFailed => state.validateToolFailed L path lineNumber event
  | .messageDelta => do
    let _ ← state.requireActiveLeafPhase L path lineNumber event
    state.validateMessageDelta L path lineNumber event
  | .messageCompleted => do
    let _ ← state.requireActiveLeafPhase L path lineNumber event
    state.validateMessageCompleted L path lineNumber event
  | .sessionStarted | .sessionPaused | .sessionResumed | .sessionCompleted | .sessionFailed
  | .artifactLogged | .attentionRequested | .metricSample | .error => .ok ()

/-- Checks one event against the lifecycle. -/
def validateEvent : Except RuntimeError Unit := do
  refuseIf (1 < lineNumber ∧ event.eventType = .sessionStarted)
    (lineText path lineNumber ++ "session.started is only valid as the first event")
  state.validateFlowScope L path lineNumber event
  state.validateLifecycleParent L path lineNumber event
  state.validateOwn L path lineNumber event

/-- A session that ends leaves nothing open. -/
def validateTerminalSession (lastEvent : Option EventEnvelope) : Except RuntimeError Unit :=
  if lastEvent.any isTerminalSession = false then .ok ()
  else do
    refuseSome state.flows.active.toList.head? (openLifecycleText L path "flow")
    refuseSome (state.activePhases.toList.flatMap (·.2)).head? fun phase =>
      openLifecycleText L path "phase" phase.phaseExecutionId
    refuseSome state.tools.active.toList.head? fun tool =>
      openLifecycleText L path "tool" tool.toolId
    refuseSome state.activeMessageRoles.keys.head? fun message =>
      openLifecycleText L path "message" message.messageId

/-! ## Recording -/

/-- Opens a Phase of a flow. -/
def pushPhase (flowId : String) (phase : PhaseLifecycleKey) : SessionLifecycleState :=
  { state with activePhases :=
      state.activePhases.insert flowId (state.activePhases.getD flowId [] ++ [phase]) }

/-- Closes the innermost Phase of a flow. -/
def popPhase (flowId : String) : SessionLifecycleState := { state with activePhases :=
      match state.activePhases[flowId]? with
      | none => state.activePhases
      | some phases =>
        if phases.dropLast = [] then state.activePhases.erase flowId
        else state.activePhases.insert flowId phases.dropLast }

/-- Moves the state on past an event that was checked; a checked event that needs a flow has
    one. -/
def recordEvent : SessionLifecycleState :=
  let flowId := event.flowId.getD ""
  let tool := state.lifecycleToolKey event
  let message : MessageLifecycleKey := ⟨flowId, lifecyclePayloadString event "message_id"⟩
  match event.eventType with
  | .flowStarted =>
    { state with
      flowDefinitionIds := state.flowDefinitionIds.insert flowId
        (lifecyclePayloadString event "flow_definition_id")
      flowParents := state.flowParents.insert flowId event.parentFlowId
      flows := state.flows.start flowId }
  | .flowCompleted | .flowFailed => { state with flows := state.flows.finish flowId lineNumber }
  | .phaseEntered => state.pushPhase flowId (lifecyclePhaseKey event)
  | .phaseCompleted | .phaseFailed =>
    { state.popPhase flowId with
      terminalPhases := state.terminalPhases.insert
        (lifecyclePayloadString event "phase_execution_id") lineNumber }
  | .toolStarted =>
    { state with
      toolsWithoutProgress := state.toolsWithoutProgress.insert tool
      tools := state.tools.start tool }
  | .toolProgress => { state with toolsWithoutProgress := state.toolsWithoutProgress.erase tool }
  | .toolCompleted | .toolTimedOut | .toolFailed =>
    { state with
      tools := state.tools.finish tool lineNumber
      toolsWithoutProgress := state.toolsWithoutProgress.erase tool }
  | .messageDelta =>
    { state with activeMessageRoles :=
        if state.activeMessageRoles.contains message then state.activeMessageRoles
        else state.activeMessageRoles.insert message (lifecyclePayloadString event "role") }
  | .messageCompleted =>
    { state with
      activeMessageRoles := state.activeMessageRoles.erase message
      terminalMessages := state.terminalMessages.insert message lineNumber }
  | .sessionStarted | .sessionPaused | .sessionResumed | .sessionCompleted | .sessionFailed
  | .artifactLogged | .attentionRequested | .metricSample | .error => state

end SessionLifecycleState

end

end Watershed.FlowAgent
