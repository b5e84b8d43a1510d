/-
  Tools and messages inside their Phases.

  A tool is known by its key, which names the innermost Phase of its flow. While a leaf Phase
  stays open no other Phase of its flow is entered or closed, so the key of the tool does not
  change, and its terminal events can be counted.
-/
import Watershed.FlowAgent.History

namespace Watershed.FlowAgent

open Watershed.Proto List SessionLifecycleState LifecycleTracker Option
open Std (TreeMap TreeSet)

/-! ## Kinds of events -/

/-- Both events are about one tool of one flow. -/
def SameTool (tool event : EventEnvelope) : Prop := event.flowId = tool.flowId ∧
    lifecyclePayloadString event "tool_id" = lifecyclePayloadString tool "tool_id" ∧
    event.str "attempt_id" = tool.str "attempt_id"
  deriving Decidable

/-- `event` is a terminal event of the tool that `tool` starts. -/
def EndsTool (tool event : EventEnvelope) : Prop :=
  (event.eventType = .toolCompleted ∨ event.eventType = .toolTimedOut ∨
    event.eventType = .toolFailed) ∧ SameTool tool event
  deriving Decidable

/-- `event` completes the message of `delta`. -/
def CompletesMessage (delta event : EventEnvelope) : Prop :=
  event.eventType = .messageCompleted ∧ event.flowId = delta.flowId ∧
    lifecyclePayloadString event "message_id" = lifecyclePayloadString delta "message_id"
  deriving Decidable

/-! ## Keys -/

/-- The key of a tool in the Phase that `enter` has entered. -/
def toolKey (enter tool : EventEnvelope) : ToolLifecycleKey where
  flowId := tool.flowId
  phaseExecutionId := some (phaseOf enter)
  phaseId := some (lifecyclePayloadString enter "phase_id")
  stepId := none
  toolId := lifecyclePayloadString tool "tool_id"
  attemptId := tool.str "attempt_id"

section
variable {events : List EventEnvelope} {state : SessionLifecycleState} {flowId : String}
  {enter tool event : EventEnvelope}

/-- An open leaf Phase is the innermost one of its flow. -/
theorem Tracks.activePhase_of_leaf (h : Tracks events state)
    (henter : enter ∈ openPhases flowId events) (hleaf : EntersLeaf enter) :
    state.activePhase flowId = some (lifecyclePhaseKey enter) := by
  have hmem : lifecyclePhaseKey enter ∈ state.stack flowId := by
    rw [h.stack]
    exact mem_map_of_mem henter
  obtain hnil | ⟨outer, inner, hstack⟩ := eq_nil_or_concat (state.stack flowId)
  · rw [hnil] at hmem
    cases hmem
  rw [concat_eq_append] at hstack
  rw [activePhase_eq, hstack, List.getLast?_concat]
  rw [hstack, mem_append, mem_singleton] at hmem
  rcases hmem with hmem | hmem
  · have houter := h.leaves flowId (lifecyclePhaseKey enter)
    rw [hstack, dropLast_concat] at houter
    exact absurd hleaf (houter hmem)
  · rw [hmem]

/-- An event in a leaf Phase lies in one that was entered before it. -/
theorem Tracks.exists_leaf (h : Tracks events state) (hleaf : state.InLeaf event) :
    ∃ flowId enter, event.flowId = some flowId ∧ enter ∈ openPhases flowId events ∧
      EntersLeaf enter := by
  obtain ⟨flowId, phase, hflow, hphase, hkind⟩ := hleaf
  rw [activePhase_eq, h.stack] at hphase
  obtain ⟨enter, henter, rfl⟩ := mem_map.mp (mem_of_getLast? hphase)
  exact ⟨flowId, enter, hflow, henter, hkind⟩

theorem lifecycleToolKey_of_activePhase (hflow : event.flowId = some flowId)
    (hphase : state.activePhase flowId = some (lifecyclePhaseKey enter)) :
    state.lifecycleToolKey event = toolKey enter event := by
  simp only [lifecycleToolKey, hflow, bind_some, hphase,
    map_some, toolKey, lifecyclePhaseKey, phaseOf]

theorem toolKey_eq_iff : toolKey enter event = toolKey enter tool ↔ SameTool tool event := by
  simp [toolKey, SameTool]

/-- In an open leaf Phase, the events of a tool are those with its key. -/
theorem Tracks.lifecycleToolKey_eq_iff (h : Tracks events state)
    (henter : enter ∈ openPhases flowId events) (hleaf : EntersLeaf enter)
    (hflow : tool.flowId = some flowId) :
    state.lifecycleToolKey event = toolKey enter tool ↔ SameTool tool event := by
  have hphase := h.activePhase_of_leaf henter hleaf
  constructor
  · intro heq
    have hevent : event.flowId = some flowId := by
      have := congrArg ToolLifecycleKey.flowId heq
      exact this.trans hflow
    rw [lifecycleToolKey_of_activePhase hevent hphase] at heq
    exact toolKey_eq_iff.mp heq
  · intro hsame
    rw [lifecycleToolKey_of_activePhase (hsame.1.trans hflow) hphase]
    exact toolKey_eq_iff.mpr hsame

/-- A Phase stays open over events that do not close it. -/
theorem openPhases_append {more : List EventEnvelope} (henter : enter ∈ openPhases flowId events)
    (hopen : ∀ other ∈ more, ¬ Closes (phaseOf enter) other) :
    enter ∈ openPhases flowId (events ++ more) := by
  obtain ⟨hmem, hin, hnone⟩ := mem_openPhases.mp henter
  exact mem_openPhases.mpr ⟨mem_append_left _ hmem, hin, forall_mem_append.mpr ⟨hnone, hopen⟩⟩

end

/-! ## Counting ends -/

/-- Something that was started has ended `count` times: it is active, or it ended once. -/
structure EndedTimes (active terminal : Bool) (count : Nat) : Prop where
  count_eq : count = terminal.toNat
  active_eq : active = !terminal

section
variable {L : Libraries} {expectedSessionId : Option String}
  {before middle : List EventEnvelope} {state : SessionAppendValidationState} {flowId : String}
  {enter tool delta event : EventEnvelope}

variable {lineNumber count : Nat} {key : ToolLifecycleKey}

/-- A terminal event of a tool comes before any other terminal event of it. -/
theorem terminal_of_ends {state : SessionLifecycleState} (hadmits : state.Admits lineNumber event)
    (htype : event.eventType = .toolCompleted ∨ event.eventType = .toolTimedOut ∨
      event.eventType = .toolFailed) :
    state.tools.terminal[state.lifecycleToolKey event]? = none := by
  have hown := hadmits.own
  rcases htype with htype | htype | htype <;> simp only [AdmitsOwn, htype] at hown
  · exact hown.1
  · exact hown.1
  · obtain ⟨_, _, hterminal, _⟩ := hown
    exact hterminal

theorem EndedTimes.tool_record {state : SessionLifecycleState}
    (hkey : state.lifecycleToolKey event = key ↔ SameTool tool event)
    (hadmits : state.Admits lineNumber event)
    (h : EndedTimes (state.tools.active.contains key) (state.tools.terminal.contains key) count) :
    EndedTimes ((state.recordEvent lineNumber event).tools.active.contains key)
      ((state.recordEvent lineNumber event).tools.terminal.contains key)
      (count + if EndsTool tool event then 1 else 0) := by
  rw [tools_recordEvent]
  by_cases hstart : event.eventType = .toolStarted
  · -- A tool that is known is not started again.
    obtain ⟨-, hterminal, hactive⟩ := hadmits.toolStarted hstart
    have hne : state.lifecycleToolKey event ≠ key := by
      intro heq
      rw [heq] at hterminal hactive
      have := h.active_eq
      rw [TreeMap.contains_eq_isSome_getElem?, hterminal, hactive] at this
      cases this
    have hends : ¬ EndsTool tool event := by
      rintro ⟨e | e | e, -⟩ <;> cases hstart.symm.trans e
    simpa [hstart, hends, start, beq_compare, hne] using h
  rw [if_neg hstart]
  by_cases hend : event.eventType = .toolCompleted ∨ event.eventType = .toolTimedOut ∨
      event.eventType = .toolFailed
  · rw [if_pos hend]
    have hterminal := terminal_of_ends hadmits hend
    by_cases hsame : SameTool tool event
    · have heq := hkey.mpr hsame
      rw [heq] at hterminal ⊢
      have hcount := h.count_eq
      rw [TreeMap.contains_eq_isSome_getElem?, hterminal] at hcount
      rw [if_pos ⟨hend, hsame⟩, hcount]
      constructor <;> simp [finish]
    · have hne : state.lifecycleToolKey event ≠ key := fun heq => hsame (hkey.mp heq)
      have hends : ¬ EndsTool tool event := fun he => hsame he.2
      simpa [hends, finish, bne, beq_compare, hne] using h
  · have hends : ¬ EndsTool tool event := fun he => hend he.1
    simpa [hend, hends] using h

/-- A started tool has ended at most once, and once if it is no longer active, as long as its
    Phase is open. -/
theorem Accepted.tool_ended (h : Accepted L expectedSessionId (before ++ tool :: middle) state)
    (htype : tool.eventType = .toolStarted) (hflow : tool.flowId = some flowId)
    (henter : enter ∈ openPhases flowId before) (hleaf : EntersLeaf enter)
    (hopen : ∀ other ∈ middle, ¬ Closes (phaseOf enter) other) :
    EndedTimes (state.lifecycle.tools.active.contains (toolKey enter tool))
      (state.lifecycle.tools.terminal.contains (toolKey enter tool))
      (middle.countP (EndsTool tool ·)) := by
  have htool : ∀ other ∈ [tool], ¬ Closes (phaseOf enter) other := by
    intro other hother hcloses
    rw [mem_singleton.mp hother] at hcloses
    rcases hcloses.1 with e | e <;> cases htype.symm.trans e
  induction middle using List.reverseRecOn generalizing state with
  | nil =>
    obtain ⟨previous, bytes, haccepted, haccepts, rfl⟩ := h.of_snoc
    have hkey := (haccepted.records.tracks.lifecycleToolKey_eq_iff henter hleaf hflow).mpr
      (show SameTool tool tool from ⟨rfl, rfl, rfl⟩)
    obtain ⟨-, hterminal, -⟩ := haccepts.admits.lifecycle.toolStarted htype
    rw [hkey] at hterminal
    simp only [SessionAppendValidationState.recordEvent, tools_recordEvent,
      htype, if_true, hkey, start, TreeSet.contains_insert_self,
      TreeMap.contains_eq_isSome_getElem?, hterminal]
    exact ⟨rfl, rfl⟩
  | append_singleton middle event ih =>
    rw [forall_mem_append] at hopen
    rw [← cons_append, ← append_assoc] at h
    obtain ⟨previous, bytes, haccepted, haccepts, rfl⟩ := h.of_snoc
    have hstill : enter ∈ openPhases flowId (before ++ tool :: middle) := by
      exact openPhases_append henter (forall_mem_append.mpr ⟨htool, hopen.1⟩)
    have hkey : previous.lifecycle.lifecycleToolKey event = toolKey enter tool ↔ _ :=
      haccepted.records.tracks.lifecycleToolKey_eq_iff hstill hleaf hflow
    have hafter := (ih haccepted hopen.1).tool_record hkey haccepts.admits.lifecycle
    simpa [SessionAppendValidationState.recordEvent] using hafter

/-- An active tool was started in a Phase that is still open. -/
theorem Accepted.tool_started {events : List EventEnvelope}
    (h : Accepted L expectedSessionId events state)
    (hactive : state.lifecycle.tools.active.contains key = true) :
    ∃ first tool last flowId enter, events = first ++ tool :: last ∧
      tool.eventType = .toolStarted ∧ tool.flowId = some flowId ∧ key = toolKey enter tool ∧
      enter ∈ openPhases flowId first ∧ EntersLeaf enter ∧
      ∀ other ∈ last, ¬ Closes (phaseOf enter) other := by
  induction h with
  | new => simp [SessionAppendValidationState.new] at hactive
  | @snoc events state event bytes haccepted haccepts ih =>
    simp only [SessionAppendValidationState.recordEvent, tools_recordEvent] at hactive
    have tracks := haccepted.records.tracks
    by_cases hold : state.lifecycle.tools.active.contains key = true
    · obtain ⟨first, tool, last, flowId, enter, rfl, htype, hflow, rfl, henter, hleaf, hopen⟩ :=
        ih hold
      refine ⟨first, tool, last ++ [event], flowId, enter, by simp, htype, hflow, rfl, henter,
        hleaf, forall_mem_snoc.mpr ⟨hopen, fun hcloses => ?_⟩⟩
      -- The Phase of an active tool is not closed.
      obtain ⟨_, -, hphase⟩ := haccepts.admits.lifecycle.phaseClosed hcloses.1
      refine hphase.noTool _ hold ?_
      rw [hcloses.2, toolKey]
    · rw [Bool.not_eq_true] at hold
      split at hactive
      · rename_i htype
        simp only [start, TreeSet.contains_insert, hold, Bool.or_false,
          beq_iff_eq, Std.compare_eq_iff_eq] at hactive
        obtain ⟨hin, -⟩ := haccepts.admits.lifecycle.toolStarted htype
        obtain ⟨flowId, enter, hflow, henter, hleaf⟩ := tracks.exists_leaf hin
        refine ⟨events, event, [], flowId, enter, rfl, htype, hflow, ?_, henter, hleaf, by simp⟩
        rw [← hactive]
        exact lifecycleToolKey_of_activePhase hflow (tracks.activePhase_of_leaf henter hleaf)
      · split at hactive
        · simp [finish, hold] at hactive
        · rw [hold] at hactive
          cases hactive

/-! ## Messages -/

theorem activeMessageRoles_recordEvent {state : SessionLifecycleState} :
    (state.recordEvent lineNumber event).activeMessageRoles =
      if event.eventType = .messageDelta then
        (if state.activeMessageRoles.contains (messageKey (event.flowId.getD "") event)
          then state.activeMessageRoles
          else state.activeMessageRoles.insert
            (messageKey (event.flowId.getD "") event)
            (lifecyclePayloadString event "role"))
      else if event.eventType = .messageCompleted then
        state.activeMessageRoles.erase (messageKey (event.flowId.getD "") event)
      else state.activeMessageRoles := by
  cases h : event.eventType <;> simp [recordEvent, h, popPhase, pushPhase, messageKey]

theorem terminalMessages_recordEvent {state : SessionLifecycleState} :
    (state.recordEvent lineNumber event).terminalMessages =
      if event.eventType = .messageCompleted then state.terminalMessages.insert
        (messageKey (event.flowId.getD "") event) lineNumber
      else state.terminalMessages := by
  cases h : event.eventType <;> simp [recordEvent, h, popPhase, pushPhase, messageKey]

theorem EndedTimes.message_record {state : SessionLifecycleState}
    (hflow : delta.flowId = some flowId) (hadmits : state.Admits lineNumber event)
    (h : EndedTimes (state.activeMessageRoles.contains (messageKey flowId delta))
      (state.terminalMessages.contains (messageKey flowId delta)) count) :
    EndedTimes ((state.recordEvent lineNumber event).activeMessageRoles.contains
        (messageKey flowId delta))
      ((state.recordEvent lineNumber event).terminalMessages.contains (messageKey flowId delta))
      (count + if CompletesMessage delta event then 1 else 0) := by
  rw [activeMessageRoles_recordEvent, terminalMessages_recordEvent]
  by_cases hdelta : event.eventType = .messageDelta
  · have hcompletes : ¬ CompletesMessage delta event := by
      intro hc
      cases hdelta.symm.trans hc.1
    have hown := hadmits.own
    simp only [AdmitsOwn, hdelta] at hown
    obtain ⟨-, other, hother, hterminal, -⟩ := hown
    rw [hother, getD_some]
    rw [if_pos hdelta]
    split
    · simpa [hdelta, hcompletes] using h
    rename_i hnew
    by_cases heq : messageKey other event = messageKey flowId delta
    · -- A known message that is not active has ended.
      rw [heq, Bool.not_eq_true] at hnew
      rw [heq] at hterminal
      have hactive := h.active_eq
      rw [hnew, TreeMap.contains_eq_isSome_getElem?, hterminal] at hactive
      cases hactive
    · simpa [beq_compare, heq, hdelta, hcompletes] using h
  rw [if_neg hdelta]
  by_cases hcompleted : event.eventType = .messageCompleted
  · have hown := hadmits.own
    simp only [AdmitsOwn, hcompleted] at hown
    obtain ⟨-, other, hother, hterminal, -⟩ := hown
    rw [if_pos hcompleted, if_pos hcompleted, hother, getD_some]
    by_cases hsame : CompletesMessage delta event
    · have hflows : other = flowId := some.inj (hother.symm.trans (hsame.2.1.trans hflow))
      have heq : messageKey other event = messageKey flowId delta := by
        rw [messageKey, messageKey, hflows, hsame.2.2]
      have hcount := h.count_eq
      rw [heq] at hterminal ⊢
      rw [TreeMap.contains_eq_isSome_getElem?, hterminal] at hcount
      rw [if_pos hsame, hcount]
      constructor <;> simp
    · have hne : messageKey other event ≠ messageKey flowId delta := by
        intro heq
        have hflows := congrArg MessageLifecycleKey.flowId heq
        have hids := congrArg MessageLifecycleKey.messageId heq
        refine hsame ⟨hcompleted, ?_, hids⟩
        rw [hother, hflow]
        exact congrArg some hflows
      simpa [hsame, bne, beq_compare, hne] using h
  · have hcompletes : ¬ CompletesMessage delta event := fun hc => hcompleted hc.1
    simpa [hcompleted, hcompletes] using h

/-- A message has been completed at most once, and once if it is no longer active. -/
theorem Accepted.message_ended (h : Accepted L expectedSessionId (before ++ delta :: middle) state)
    (htype : delta.eventType = .messageDelta) (hflow : delta.flowId = some flowId) :
    EndedTimes
      (state.lifecycle.activeMessageRoles.contains (messageKey flowId delta))
      (state.lifecycle.terminalMessages.contains (messageKey flowId delta))
      (middle.countP (CompletesMessage delta ·)) := by
  induction middle using List.reverseRecOn generalizing state with
  | nil =>
    obtain ⟨previous, bytes, haccepted, haccepts, rfl⟩ := h.of_snoc
    have hown := haccepts.admits.lifecycle.own
    simp only [AdmitsOwn, htype] at hown
    obtain ⟨-, other, hother, hterminal, -⟩ := hown
    obtain rfl : other = flowId := some.inj (hother.symm.trans hflow)
    simp only [SessionAppendValidationState.recordEvent, activeMessageRoles_recordEvent,
      terminalMessages_recordEvent, htype, reduceCtorEq, if_true, if_false, hflow]
    constructor
    · rw [TreeMap.contains_eq_isSome_getElem?, hterminal]
      rfl
    · rw [TreeMap.contains_eq_isSome_getElem? (t := previous.lifecycle.terminalMessages), hterminal]
      split
      · assumption
      · simp
  | append_singleton middle event ih =>
    rw [← cons_append, ← append_assoc] at h
    obtain ⟨previous, bytes, haccepted, haccepts, rfl⟩ := h.of_snoc
    have hafter := (ih haccepted).message_record hflow haccepts.admits.lifecycle
    simpa [SessionAppendValidationState.recordEvent] using hafter

end

end Watershed.FlowAgent
