/-
  What an event has to meet to be accepted, as propositions.

  `validateEvent` runs its checks one after the other and stops at the first that fails.
  `Admits` says what holds when none fails; every result about accepted streams starts from it.
-/
import Watershed.FlowAgent.Validate

namespace Watershed.FlowAgent

open Watershed.Proto List
open Std (TreeMap TreeSet)

namespace SessionLifecycleState

variable (state : SessionLifecycleState)

/-- The flow has started and has not ended. -/
def FlowOpen (flowId : String) : Prop :=
  state.flows.active.contains flowId = true ∧ state.flows.terminal[flowId]? = none

/-- The innermost open Phase of the event's flow is a leaf. -/
def InLeaf (event : EventEnvelope) : Prop :=
  ∃ flowId phase, event.flowId = some flowId ∧ state.activePhase flowId = some phase ∧
    phase.phaseKind = .leaf

/-- The message that an event is about. -/
def messageKey (flowId : String) (event : EventEnvelope) : MessageLifecycleKey :=
  ⟨flowId, lifecyclePayloadString event "message_id"⟩

structure AdmitsParent (state : SessionLifecycleState) (event : EventEnvelope) (flowId : String) :
    Prop where
  parentOpen : ∀ parent, event.parentFlowId = some parent → parent ≠ flowId ∧ state.FlowOpen parent
  sameParent : ∀ parent, state.flowParents[flowId]? = some parent → parent = event.parentFlowId

structure AdmitsFlowEnd (state : SessionLifecycleState) (event : EventEnvelope) (flowId : String) :
    Prop where
  sameDefinition : state.flowDefinitionIds[flowId]? =
    some (lifecyclePayloadString event "flow_definition_id")
  noPhase : state.activePhase flowId = none
  noChild : ∀ child, state.flows.active.contains child = true →
    state.flowParents[child]?.join ≠ some flowId

structure AdmitsPhaseEntered (state : SessionLifecycleState) (event : EventEnvelope)
    (flowId : String) : Prop where
  notClosed : state.terminalPhases[(lifecyclePhaseKey event).phaseExecutionId]? = none
  notOpen : ∀ (other : String) (phases : List PhaseLifecycleKey),
    state.activePhases[other]? = some phases → ∀ active ∈ phases,
    active.phaseExecutionId ≠ (lifecyclePhaseKey event).phaseExecutionId
  notInLeaf : ∀ active, state.activePhase flowId = some active → active.phaseKind ≠ .leaf

structure AdmitsPhaseClosed (state : SessionLifecycleState) (event : EventEnvelope)
    (flowId : String) : Prop where
  notClosed : state.terminalPhases[lifecyclePayloadString event "phase_execution_id"]? = none
  innermost : ∃ active, state.activePhase flowId = some active ∧
    terminalPhaseMatches event active = true
  noTool : ∀ tool, state.tools.active.contains tool = true →
    tool.phaseExecutionId ≠ some (lifecyclePayloadString event "phase_execution_id")
  noMessage : ∀ message, state.activeMessageRoles.contains message = true → message.flowId ≠ flowId

/-- What an event of its type has to meet. -/
def AdmitsOwn (event : EventEnvelope) : Prop :=
  match event.eventType with
  | .flowStarted => ∃ flowId, event.flowId = some flowId
  | .flowCompleted | .flowFailed =>
    ∃ flowId, event.flowId = some flowId ∧ state.AdmitsFlowEnd event flowId
  | .phaseEntered => ∃ flowId, event.flowId = some flowId ∧ state.AdmitsPhaseEntered event flowId
  | .phaseCompleted | .phaseFailed =>
    ∃ flowId, event.flowId = some flowId ∧ state.AdmitsPhaseClosed event flowId
  | .toolStarted => state.InLeaf event ∧
    state.tools.terminal[state.lifecycleToolKey event]? = none ∧
    state.tools.active.contains (state.lifecycleToolKey event) = false
  | .toolProgress | .toolCompleted | .toolTimedOut =>
    state.tools.terminal[state.lifecycleToolKey event]? = none ∧
    state.tools.active.contains (state.lifecycleToolKey event) = true
  | .toolFailed => ∃ flowId, event.flowId = some flowId ∧
    state.tools.terminal[state.lifecycleToolKey event]? = none ∧
    (state.tools.active.contains (state.lifecycleToolKey event) = true ∨
      state.activePhases.contains flowId = false)
  | .messageDelta => state.InLeaf event ∧ ∃ flowId, event.flowId = some flowId ∧
    state.terminalMessages[messageKey flowId event]? = none ∧
    ∀ role, state.activeMessageRoles[messageKey flowId event]? = some role →
      role = lifecyclePayloadString event "role"
  | .messageCompleted => state.InLeaf event ∧ ∃ flowId, event.flowId = some flowId ∧
    state.terminalMessages[messageKey flowId event]? = none ∧
    state.activeMessageRoles[messageKey flowId event]? = some (lifecyclePayloadString event "role")
  | .sessionStarted | .sessionPaused | .sessionResumed | .sessionCompleted | .sessionFailed
  | .artifactLogged | .attentionRequested | .metricSample | .error => True

structure Admits (state : SessionLifecycleState) (lineNumber : Nat) (event : EventEnvelope) :
    Prop where
  startsOnce : ¬ (1 < lineNumber ∧ event.eventType = .sessionStarted)
  scope : ∀ flowId, event.flowId = some flowId → event.eventType ≠ .flowStarted →
    state.FlowOpen flowId
  parentHasFlow : event.parentFlowId.isSome = true → event.flowId.isSome = true
  parent : ∀ flowId, event.flowId = some flowId → state.AdmitsParent event flowId
  own : state.AdmitsOwn event

/-! ## The checks, one by one -/

section
variable {L : Libraries} {path : String} {lineNumber : Nat} {event : EventEnvelope}
  {state : SessionLifecycleState} {flowId : String}

theorem requireLifecycleFlowId_eq_ok :
    requireLifecycleFlowId path lineNumber event = .ok flowId ↔ event.flowId = some flowId :=
  require_eq_ok

theorem isStarted_and_not_terminal {κ : Type} [Ord κ] [Std.TransOrd κ]
    {tracker : LifecycleTracker κ} {key : κ} :
    tracker.isStarted key = true ∧ tracker.terminalLine key = none ↔
      tracker.active.contains key = true ∧ tracker.terminal[key]? = none := by
  simp only [LifecycleTracker.isStarted, LifecycleTracker.terminalLine,
    TreeMap.contains_eq_isSome_getElem?, and_congr_left_iff]
  intro h
  simp [h]

theorem validateFlowScope_eq_ok :
    state.validateFlowScope L path lineNumber event = .ok () ↔
      ∀ flowId, event.flowId = some flowId → event.eventType ≠ .flowStarted →
        state.FlowOpen flowId := by
  unfold validateFlowScope
  cases event.flowId with
  | none => simp
  | some flowId =>
    by_cases htype : event.eventType = .flowStarted
    · simp [htype]
    · simp only [ne_eq, htype, not_false_eq_true, if_true, check_bind_eq_ok, refuseIf_eq_ok,
        refuseSome_eq_ok, Bool.not_eq_false, Option.some.injEq, forall_eq', forall_const,
        FlowOpen, isStarted_and_not_terminal]

theorem validateParentReference_eq_ok :
    state.validateParentReference L path lineNumber event flowId = .ok () ↔
      ∀ parent, event.parentFlowId = some parent → parent ≠ flowId ∧ state.FlowOpen parent := by
  unfold validateParentReference
  cases event.parentFlowId with
  | none => simp
  | some parent =>
    simp only [check_bind_eq_ok, refuseIf_eq_ok, refuseSome_eq_ok, Bool.not_eq_false,
      Option.some.injEq, forall_eq', FlowOpen, isStarted_and_not_terminal]

theorem validateLifecycleParent_eq_ok :
    state.validateLifecycleParent L path lineNumber event = .ok () ↔
      (event.parentFlowId.isSome = true → event.flowId.isSome = true) ∧
        ∀ flowId, event.flowId = some flowId → state.AdmitsParent event flowId := by
  unfold validateLifecycleParent
  rw [check_bind_eq_ok]
  refine and_congr ?_ ?_
  · cases event.flowId <;> simp
  cases event.flowId with
  | none => simp
  | some flowId =>
    simp only [check_bind_eq_ok, validateParentReference_eq_ok, refuseIf_eq_ok, Option.some.injEq,
      forall_eq', not_exists, not_and, not_not]
    exact ⟨fun h => ⟨h.1, h.2⟩, fun h => ⟨h.parentOpen, h.sameParent⟩⟩

theorem requireActiveLeafPhase_isOk :
    (∃ phase, state.requireActiveLeafPhase L path lineNumber event = .ok phase) ↔
      state.InLeaf event := by
  simp only [requireActiveLeafPhase, bind_eq_ok, requireLifecycleFlowId_eq_ok, require_eq_ok,
    refuseIf_eq_ok, not_not]
  constructor
  · rintro ⟨_, flowId, hflow, phase, hphase, _, hleaf, -⟩
    exact ⟨flowId, phase, hflow, hphase, hleaf⟩
  · rintro ⟨flowId, phase, hflow, hphase, hleaf⟩
    exact ⟨phase, flowId, hflow, phase, hphase, (), hleaf, rfl⟩

theorem leaf_bind_eq_ok {check : Except RuntimeError Unit} :
    (do
      let _ ← state.requireActiveLeafPhase L path lineNumber event
      check) = .ok () ↔ state.InLeaf event ∧ check = .ok () := by
  rw [bind_eq_ok]
  constructor
  · rintro ⟨phase, hphase, hcheck⟩
    exact ⟨requireActiveLeafPhase_isOk.mp ⟨phase, hphase⟩, hcheck⟩
  · rintro ⟨hleaf, hcheck⟩
    obtain ⟨phase, hphase⟩ := requireActiveLeafPhase_isOk.mpr hleaf
    exact ⟨phase, hphase, hcheck⟩

theorem validateFlowEnd_eq_ok :
    state.validateFlowEnd L path lineNumber event = .ok () ↔
      ∃ flowId, event.flowId = some flowId ∧ state.AdmitsFlowEnd event flowId := by
  simp only [validateFlowEnd, bind_eq_ok, requireLifecycleFlowId_eq_ok]
  refine exists_congr fun flowId => and_congr_right fun _ => ?_
  simp only [refuseIf_eq_ok, refuseSome_eq_ok, exists_const, not_not, List.find?_eq_none,
    TreeSet.mem_toList, decide_eq_true_eq]
  exact ⟨fun h => ⟨h.1, h.2.1, h.2.2⟩, fun h => ⟨h.1, h.2, h.3⟩⟩

theorem validatePhaseEntered_eq_ok :
    state.validatePhaseEntered L path lineNumber event = .ok () ↔
      ∃ flowId, event.flowId = some flowId ∧ state.AdmitsPhaseEntered event flowId := by
  simp only [validatePhaseEntered, bind_eq_ok, requireLifecycleFlowId_eq_ok]
  refine exists_congr fun flowId => and_congr_right fun _ => ?_
  simp only [refuseIf_eq_ok, refuseSome_eq_ok, exists_const, any_eq_true, mem_flatMap,
    Prod.exists, TreeMap.mem_toList_iff_getElem?_eq_some, decide_eq_true_eq, Option.any_eq_true,
    not_exists, not_and]
  constructor
  · rintro ⟨hclosed, hopen, hleaf⟩
    exact ⟨hclosed, fun other phases h active ha => hopen active ⟨other, phases, h, ha⟩, hleaf⟩
  · intro h
    refine ⟨h.notClosed, ?_, h.notInLeaf⟩
    rintro active ⟨other, phases, hphases, hmem⟩
    exact h.notOpen other phases hphases active hmem

theorem validatePhaseClosed_eq_ok :
    state.validatePhaseClosed L path lineNumber event = .ok () ↔
      ∃ flowId, event.flowId = some flowId ∧ state.AdmitsPhaseClosed event flowId := by
  simp only [validatePhaseClosed, bind_eq_ok, requireLifecycleFlowId_eq_ok, refuseIf_eq_ok,
    refuseSome_eq_ok, exists_const, List.find?_eq_none, TreeSet.mem_toList, TreeMap.mem_keys,
    decide_eq_true_eq, Bool.not_eq_false, Option.any_eq_true]
  constructor
  · rintro ⟨hclosed, flowId, hflow, hinner, htool, hmessage⟩
    exact ⟨flowId, hflow, hclosed, hinner, htool, hmessage⟩
  · rintro ⟨flowId, hflow, h⟩
    exact ⟨h.notClosed, flowId, hflow, h.innermost, h.noTool, h.noMessage⟩

theorem isStarted_eq_false {key : ToolLifecycleKey} (h : state.tools.terminal[key]? = none) :
    state.tools.isStarted key = state.tools.active.contains key := by
  rw [LifecycleTracker.isStarted, TreeMap.contains_eq_isSome_getElem?, h]
  exact Bool.or_false _

theorem validateToolStarted_eq_ok (htype : event.eventType = .toolStarted) :
    state.validateToolStarted L path lineNumber event = .ok () ↔ state.AdmitsOwn event := by
  simp only [AdmitsOwn, htype]
  rw [validateToolStarted, leaf_bind_eq_ok, check_bind_eq_ok, rejectTerminalToolEvent,
    refuseSome_eq_ok, refuseIf_eq_ok]
  refine and_congr_right fun _ => and_congr_right fun hterminal => ?_
  rw [isStarted_eq_false hterminal, Bool.not_eq_true]

theorem validateToolContinued_eq_ok :
    state.validateToolContinued L path lineNumber event = .ok () ↔
      state.tools.terminal[state.lifecycleToolKey event]? = none ∧
        state.tools.active.contains (state.lifecycleToolKey event) = true := by
  rw [validateToolContinued, check_bind_eq_ok, rejectTerminalToolEvent, refuseSome_eq_ok,
    refuseIf_eq_ok]
  refine and_congr_right fun hterminal => ?_
  rw [isStarted_eq_false hterminal, Bool.not_eq_false]

theorem validateToolFailed_eq_ok (htype : event.eventType = .toolFailed) :
    state.validateToolFailed L path lineNumber event = .ok () ↔ state.AdmitsOwn event := by
  simp only [AdmitsOwn, htype]
  rw [validateToolFailed, bind_eq_ok]
  refine exists_congr fun flowId => ?_
  rw [requireLifecycleFlowId_eq_ok, check_bind_eq_ok, rejectTerminalToolEvent, refuseSome_eq_ok,
    refuseIf_eq_ok]
  refine and_congr_right fun _ => and_congr_right fun hterminal => ?_
  rw [isStarted_eq_false hterminal, not_and_or, Bool.not_eq_false, Bool.not_eq_true]

theorem validateMessageDelta_eq_ok (htype : event.eventType = .messageDelta) :
    state.InLeaf event ∧ state.validateMessageDelta L path lineNumber event = .ok () ↔
      state.AdmitsOwn event := by
  simp only [AdmitsOwn, htype, validateMessageDelta, lifecycleMessageKey, bind_eq_ok, requireLifecycleFlowId_eq_ok,
    refuseSome_eq_ok, exists_const, pure, Except.pure, Except.ok.injEq, messageKey,
    Option.filter_eq_none_iff, decide_eq_true_eq, not_not, exists_exists_and_eq_and]

theorem validateMessageCompleted_eq_ok (htype : event.eventType = .messageCompleted) :
    state.InLeaf event ∧ state.validateMessageCompleted L path lineNumber event = .ok () ↔
      state.AdmitsOwn event := by
  simp only [AdmitsOwn, htype, validateMessageCompleted, lifecycleMessageKey, bind_eq_ok,
    requireLifecycleFlowId_eq_ok, refuseSome_eq_ok, refuseIf_eq_ok, require_eq_ok, exists_const,
    pure, Except.pure, Except.ok.injEq, messageKey, not_not, exists_exists_and_eq_and,
    exists_eq_right]

theorem validateOwn_eq_ok :
    state.validateOwn L path lineNumber event = .ok () ↔ state.AdmitsOwn event := by
  unfold validateOwn
  cases htype : event.eventType
  case toolStarted => exact validateToolStarted_eq_ok htype
  case toolFailed => exact validateToolFailed_eq_ok htype
  case messageDelta => exact leaf_bind_eq_ok.trans (validateMessageDelta_eq_ok htype)
  case messageCompleted => exact leaf_bind_eq_ok.trans (validateMessageCompleted_eq_ok htype)
  all_goals
    simp only [AdmitsOwn, htype, validateFlowEnd_eq_ok, validatePhaseEntered_eq_ok,
      validatePhaseClosed_eq_ok, validateToolContinued_eq_ok]
  case flowStarted => simp [bind_eq_ok, requireLifecycleFlowId_eq_ok, pure, Except.pure]

/-- An event passes the lifecycle's checks exactly when the lifecycle admits it. -/
theorem validateEvent_eq_ok :
    state.validateEvent L path lineNumber event = .ok () ↔ state.Admits lineNumber event := by
  rw [validateEvent, check_bind_eq_ok, check_bind_eq_ok, check_bind_eq_ok, refuseIf_eq_ok,
    validateFlowScope_eq_ok, validateLifecycleParent_eq_ok, validateOwn_eq_ok]
  exact ⟨fun h => ⟨h.1, h.2.1, h.2.2.1.1, h.2.2.1.2, h.2.2.2⟩,
    fun h => ⟨h.startsOnce, h.scope, ⟨h.parentHasFlow, h.parent⟩, h.own⟩⟩

/-! ## What an admitted event of each type meets -/

section
variable (h : state.Admits lineNumber event)
include h

theorem Admits.flowEnd (htype : event.eventType = .flowCompleted ∨ event.eventType = .flowFailed) :
    ∃ flowId, event.flowId = some flowId ∧ state.AdmitsFlowEnd event flowId := by
  rcases htype with htype | htype <;> simpa only [AdmitsOwn, htype] using h.own

theorem Admits.phaseEntered (htype : event.eventType = .phaseEntered) :
    ∃ flowId, event.flowId = some flowId ∧ state.AdmitsPhaseEntered event flowId := by
  simpa only [AdmitsOwn, htype] using h.own

theorem Admits.phaseClosed
    (htype : event.eventType = .phaseCompleted ∨ event.eventType = .phaseFailed) :
    ∃ flowId, event.flowId = some flowId ∧ state.AdmitsPhaseClosed event flowId := by
  rcases htype with htype | htype <;> simpa only [AdmitsOwn, htype] using h.own

theorem Admits.toolStarted (htype : event.eventType = .toolStarted) :
    state.InLeaf event ∧ state.tools.terminal[state.lifecycleToolKey event]? = none ∧
      state.tools.active.contains (state.lifecycleToolKey event) = false := by
  simpa only [AdmitsOwn, htype] using h.own

end

/-- Nothing is open. -/
structure Closed (state : SessionLifecycleState) : Prop where
  flows : ∀ flowId, state.flows.active.contains flowId = false
  phases : ∀ (flowId : String) (phases : List PhaseLifecycleKey),
    state.activePhases[flowId]? = some phases → phases = []
  tools : ∀ tool, state.tools.active.contains tool = false
  messages : ∀ message, state.activeMessageRoles.contains message = false

theorem validateTerminalSession_eq_ok (h : isTerminalSession event = true) :
    state.validateTerminalSession L path (some event) = .ok () ↔ state.Closed := by
  simp only [validateTerminalSession, Option.any_some, h, Bool.true_eq_false, if_false,
    check_bind_eq_ok, refuseSome_eq_ok, List.head?_eq_none_iff, eq_nil_iff_forall_not_mem,
    TreeSet.mem_toList, TreeMap.mem_keys, mem_flatMap, Prod.exists,
    TreeMap.mem_toList_iff_getElem?_eq_some, ← TreeSet.contains_iff_mem, ← TreeMap.contains_iff_mem,
    Bool.not_eq_true, not_exists, not_and]
  constructor
  · rintro ⟨hflows, hphases, htools, hmessages⟩
    refine ⟨hflows, fun flowId phases hp => ?_, htools, hmessages⟩
    exact eq_nil_iff_forall_not_mem.mpr fun active ha => hphases active flowId phases hp ha
  · intro h
    refine ⟨h.flows, fun active flowId phases hp ha => ?_, h.tools, h.messages⟩
    rw [h.phases flowId phases hp] at ha
    exact not_mem_nil ha

end

end SessionLifecycleState

namespace SessionAppendValidationState

structure AdmitsFlowStarted (state : SessionAppendValidationState) (event : EventEnvelope) :
    Prop where
  startsOnce : ∀ flowId, event.flowId = some flowId → state.flowStartedIds.contains flowId = false
  inBudget : state.flowStartedIds.size < maxFlowInvocations
  hasFlow : event.flowId.isSome = true

/-- What an event has to meet to be accepted in `state`. -/
structure Admits (state : SessionAppendValidationState) (lineNumber : Nat) (event : EventEnvelope) :
    Prop where
  expectedSession : ∀ expected, state.expectedSessionId = some expected → expected = event.sessionId
  firstSequence : lineNumber = 1 → event.sequence = 1
  sequence : state.nextSequence = some event.sequence
  newEventId : state.eventIds.contains event.eventId = false
  notEnded : state.terminalLine = none
  flowStarted : event.eventType = .flowStarted → state.AdmitsFlowStarted event
  streamSession : ∀ existing, state.streamSessionId = some existing → existing = event.sessionId
  firstStarts : lineNumber = 1 → event.eventType = .sessionStarted
  lifecycle : state.lifecycle.Admits lineNumber event
  closed : isTerminalSession event = true → state.lifecycle.Closed

section
variable {L : Libraries} {path : String} {lineNumber : Nat} {event : EventEnvelope}
  {state : SessionAppendValidationState}

theorem validateFlowStarted_eq_ok :
    state.validateFlowStarted path lineNumber event = .ok () ↔
      (event.eventType = .flowStarted → state.AdmitsFlowStarted event) := by
  unfold validateFlowStarted
  split
  case isTrue htype =>
    simp only [bind_eq_ok, require_eq_ok, refuseIf_eq_ok, exists_const, Bool.not_eq_true, not_le,
      htype, forall_const]
    constructor
    · rintro ⟨flowId, hflow, hnew, hsize⟩
      exact ⟨fun other hother => Option.some.inj (hflow.symm.trans hother) ▸ hnew, hsize,
        by rw [hflow]; rfl⟩
    · intro h
      obtain ⟨flowId, hflow⟩ := Option.isSome_iff_exists.mp h.hasFlow
      exact ⟨flowId, hflow, h.startsOnce flowId hflow, h.inBudget⟩
  case isFalse htype => simp [htype]

/-- An event passes the checks exactly when the state admits it. -/
theorem validateEvent_eq_ok :
    state.validateEvent L path lineNumber event = .ok () ↔ state.Admits lineNumber event := by
  have hclosed : (if isTerminalSession event then
      state.lifecycle.validateTerminalSession L path (some event) else .ok ()) = .ok () ↔
      (isTerminalSession event = true → state.lifecycle.Closed) := by
    split
    case isTrue h => rw [SessionLifecycleState.validateTerminalSession_eq_ok h]; simp [h]
    case isFalse h => simp [h]
  simp only [validateEvent, check_bind_eq_ok, refuseIf_eq_ok, refuseSome_eq_ok,
    Option.filter_eq_none_iff, decide_eq_true_eq, not_not, not_and, Bool.not_eq_true,
    validateFlowStarted_eq_ok, SessionLifecycleState.validateEvent_eq_ok, hclosed]
  constructor
  · rintro ⟨h1, h2, h3, h4, h5, h6, h7, h8, h9, h10⟩
    exact ⟨h1, h2, h3, h4, h5, h6, h7, h8, h9, h10⟩
  · intro h
    exact ⟨h.expectedSession, h.firstSequence, h.sequence, h.newEventId, h.notEnded, h.flowStarted,
      h.streamSession, h.firstStarts, h.lifecycle, h.closed⟩

end

end SessionAppendValidationState

end Watershed.FlowAgent
