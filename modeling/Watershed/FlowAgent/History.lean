/-
  What the lifecycle state knows about the events before it.

  The state is a set of maps that each event updates. `Tracks` says what these maps mean: which
  flows have started and ended, which Phases are open in each flow and in which order, in terms
  of the list of events that were accepted so far.
-/
import Mathlib.Data.List.Pairwise
import Watershed.FlowAgent.Admission

namespace Watershed.FlowAgent

open Watershed.Proto List SessionLifecycleState SessionAppendValidationState LifecycleTracker
open Std (TreeMap TreeSet)

/-! ## Kinds of events -/

variable (flowId : String) (event : EventEnvelope)

/-- Starts the flow. -/
def Starts : Prop := event.eventType = .flowStarted ∧ event.flowId = some flowId
  deriving Decidable

/-- Ends the flow. -/
def Ends : Prop :=
  (event.eventType = .flowCompleted ∨ event.eventType = .flowFailed) ∧ event.flowId = some flowId
  deriving Decidable

/-- Enters the Phase execution. -/
def Enters (phase : String) (event : EventEnvelope) : Prop :=
  event.eventType = .phaseEntered ∧ lifecyclePayloadString event "phase_execution_id" = phase
  deriving Decidable

/-- Closes the Phase execution. -/
def Closes (phase : String) (event : EventEnvelope) : Prop :=
  (event.eventType = .phaseCompleted ∨ event.eventType = .phaseFailed) ∧
    lifecyclePayloadString event "phase_execution_id" = phase
  deriving Decidable

/-- Enters some Phase of the flow. -/
def EntersIn : Prop := event.eventType = .phaseEntered ∧ event.flowId = some flowId
  deriving Decidable

/-- Closes some Phase of the flow. -/
def ClosesIn : Prop := (event.eventType = .phaseCompleted ∨ event.eventType = .phaseFailed) ∧
    event.flowId = some flowId
  deriving Decidable

/-- Enters a leaf Phase. -/
def EntersLeaf : Prop := (lifecyclePhaseKey event).phaseKind = .leaf

theorem beq_compare {κ : Type} [Ord κ] [Std.LawfulEqOrd κ] [DecidableEq κ] (a b : κ) :
    (compare a b == .eq) = decide (a = b) := by
  by_cases h : a = b <;> simp [h]

/-! ## What a valid event carries -/

/-- What the lifecycle relies on in the events it is given. -/
structure Carries (event : EventEnvelope) : Prop where
  flow : event.eventType.requiresFlowId = true → event.flowId.isSome = true
  strings : ∀ field ∈ Payload.requiredStrings event.eventType, (event.str field).isSome = true
  phaseKind : event.eventType = .phaseEntered →
    ∃ kind, (event.str "phase_kind").bind PhaseKind.tryFrom = some kind

theorem carries_of_valid {L : Libraries} {event : EventEnvelope}
    (h : event.validateV0 L = .ok ()) : Carries event := by
  rw [EventEnvelope.validateV0, check_bind_eq_ok] at h
  obtain ⟨-, h⟩ := h
  split at h
  · cases h
  obtain ⟨hflow, h⟩ := ite_error_eq_ok.mp h
  have hpayload : Payload.validate L event.eventType event.payload.1 = .ok () := by
    revert h
    repeat' split
    all_goals first | exact id | (intro h; cases h)
  refine ⟨fun hrequires => ?_, fun field hfield => ?_, fun htype => ?_⟩
  · by_contra hnone
    exact hflow ⟨hrequires, by simpa using hnone⟩
  · obtain ⟨value, hvalue, -⟩ := Payload.validate_strings hpayload field hfield
    exact Option.isSome_iff_exists.mpr ⟨value, hvalue⟩
  · rw [htype] at hpayload
    exact Payload.validate_phaseKind hpayload

namespace SessionLifecycleState

variable {state : SessionLifecycleState} {event : EventEnvelope} {lineNumber : Nat}

/-! ## What an event does to each map -/

/-- The open Phases of a flow, the innermost last. -/
def stack (state : SessionLifecycleState) (flowId : String) : List PhaseLifecycleKey :=
  state.activePhases.getD flowId []

theorem activePhase_eq (flowId : String) : state.activePhase flowId = (state.stack flowId).getLast? := by
  rw [activePhase, stack, TreeMap.getD_eq_getD_getElem?]
  cases state.activePhases[flowId]? <;> rfl

theorem flows_recordEvent : (state.recordEvent lineNumber event).flows =
    if event.eventType = .flowStarted then state.flows.start (event.flowId.getD "")
    else if event.eventType = .flowCompleted ∨ event.eventType = .flowFailed then
      state.flows.finish (event.flowId.getD "") lineNumber
    else state.flows := by
  cases h : event.eventType <;> simp [recordEvent, h, popPhase, pushPhase]

theorem flowParents_recordEvent : (state.recordEvent lineNumber event).flowParents =
    if event.eventType = .flowStarted then
      state.flowParents.insert (event.flowId.getD "") event.parentFlowId
    else state.flowParents := by
  cases h : event.eventType <;> simp [recordEvent, h, popPhase, pushPhase]

theorem activePhases_recordEvent : (state.recordEvent lineNumber event).activePhases =
    if event.eventType = .phaseEntered then
      (state.pushPhase (event.flowId.getD "") (lifecyclePhaseKey event)).activePhases
    else if event.eventType = .phaseCompleted ∨ event.eventType = .phaseFailed then
      (state.popPhase (event.flowId.getD "")).activePhases
    else state.activePhases := by
  cases h : event.eventType <;> simp [recordEvent, h]

theorem terminalPhases_recordEvent : (state.recordEvent lineNumber event).terminalPhases =
    if event.eventType = .phaseCompleted ∨ event.eventType = .phaseFailed then
      state.terminalPhases.insert (lifecyclePayloadString event "phase_execution_id") lineNumber
    else state.terminalPhases := by
  cases h : event.eventType <;> simp [recordEvent, h, pushPhase]

theorem tools_recordEvent : (state.recordEvent lineNumber event).tools =
    if event.eventType = .toolStarted then state.tools.start (state.lifecycleToolKey event)
    else if event.eventType = .toolCompleted ∨ event.eventType = .toolTimedOut ∨
        event.eventType = .toolFailed then
      state.tools.finish (state.lifecycleToolKey event) lineNumber
    else state.tools := by
  cases h : event.eventType <;> simp [recordEvent, h, popPhase, pushPhase]

variable (h : Carries event)
include h

theorem flowId_eq_some (hrequires : event.eventType.requiresFlowId = true) :
    event.flowId = some (event.flowId.getD "") := by
  obtain ⟨flowId, hflow⟩ := Option.isSome_iff_exists.mp (h.flow hrequires)
  rw [hflow, Option.getD_some]

theorem getD_flowId_eq (hrequires : event.eventType.requiresFlowId = true) (flowId : String) :
    event.flowId.getD "" = flowId ↔ event.flowId = some flowId := by
  rw [flowId_eq_some h hrequires, Option.getD_some, Option.some.injEq]

theorem flowActive_recordEvent (flowId : String) :
    (state.recordEvent lineNumber event).flows.active.contains flowId = true ↔
      (Starts flowId event ∨ state.flows.active.contains flowId = true) ∧ ¬ Ends flowId event := by
  rw [flows_recordEvent]
  by_cases hstart : event.eventType = .flowStarted
  · have hflow := getD_flowId_eq h (by rw [hstart]; rfl) flowId
    simp [hstart, Starts, Ends, start, hflow]
  by_cases hend : event.eventType = .flowCompleted ∨ event.eventType = .flowFailed
  · have hflow := getD_flowId_eq h (by rcases hend with e | e <;> rw [e] <;> rfl) flowId
    simp [Starts, Ends, finish, hstart, hend, hflow, and_comm]
  · simp [Starts, Ends, hstart, hend]

theorem flowTerminal_recordEvent (flowId : String) :
    (state.recordEvent lineNumber event).flows.terminal.contains flowId = true ↔
      Ends flowId event ∨ state.flows.terminal.contains flowId = true := by
  rw [flows_recordEvent]
  by_cases hstart : event.eventType = .flowStarted
  · simp [hstart, Ends, start]
  by_cases hend : event.eventType = .flowCompleted ∨ event.eventType = .flowFailed
  · have hflow := getD_flowId_eq h (by rcases hend with e | e <;> rw [e] <;> rfl) flowId
    rw [if_neg hstart]
    simp [Ends, finish, hend, hflow]
  · rw [if_neg hstart]
    simp [Ends, hend]

theorem getElem?_flowParents_recordEvent (flowId : String) :
    (state.recordEvent lineNumber event).flowParents[flowId]? =
      if Starts flowId event then some event.parentFlowId else state.flowParents[flowId]? := by
  rw [flowParents_recordEvent]
  by_cases hstart : event.eventType = .flowStarted
  · have hflow := getD_flowId_eq h (by rw [hstart]; rfl) flowId
    simp [hstart, Starts, TreeMap.getElem?_insert, hflow]
  · simp [hstart, Starts]

omit h in
theorem contains_terminalPhases_recordEvent (phase : String) :
    (state.recordEvent lineNumber event).terminalPhases.contains phase = true ↔
      Closes phase event ∨ state.terminalPhases.contains phase = true := by
  rw [terminalPhases_recordEvent]
  by_cases hclose : event.eventType = .phaseCompleted ∨ event.eventType = .phaseFailed
  · simp [hclose, Closes]
  · simp [hclose, Closes]

omit h in
theorem stack_pushPhase (flowId other : String) (phase : PhaseLifecycleKey) :
    (state.pushPhase flowId phase).stack other =
      if flowId = other then state.stack other ++ [phase] else state.stack other := by
  by_cases heq : flowId = other
  · simp [stack, pushPhase, heq]
  · simp [stack, pushPhase, TreeMap.getD_insert, heq]

omit h in
theorem stack_popPhase (flowId other : String) :
    (state.popPhase flowId).stack other =
      if flowId = other then (state.stack other).dropLast else state.stack other := by
  rw [popPhase]
  cases hphases : state.activePhases[flowId]? with
  | none =>
    by_cases heq : flowId = other
    · subst heq
      simp [stack, TreeMap.getD_eq_getD_getElem?, hphases]
    · simp [heq]
  | some phases =>
    by_cases heq : flowId = other
    · subst heq
      by_cases hlast : phases.dropLast = []
      · simp [hlast, stack, TreeMap.getD_eq_getD_getElem?, hphases]
      · simp [hlast, stack, TreeMap.getD_eq_getD_getElem?, hphases]
    · by_cases hlast : phases.dropLast = []
      · simp [hlast, heq, stack, TreeMap.getD_erase]
      · simp [hlast, heq, stack, TreeMap.getD_insert]

theorem stack_recordEvent (flowId : String) :
    (state.recordEvent lineNumber event).stack flowId =
      if EntersIn flowId event then state.stack flowId ++ [lifecyclePhaseKey event]
      else if ClosesIn flowId event then (state.stack flowId).dropLast
      else state.stack flowId := by
  rw [stack, activePhases_recordEvent]
  by_cases henter : event.eventType = .phaseEntered
  · have hflow := getD_flowId_eq h (by rw [henter]; rfl) flowId
    rw [if_pos henter]
    refine (stack_pushPhase _ flowId _).trans ?_
    simp [EntersIn, ClosesIn, henter, hflow]
  by_cases hclose : event.eventType = .phaseCompleted ∨ event.eventType = .phaseFailed
  · have hflow := getD_flowId_eq h (by rcases hclose with e | e <;> rw [e] <;> rfl) flowId
    rw [if_neg henter, if_pos hclose]
    refine (stack_popPhase _ flowId).trans ?_
    simp [EntersIn, ClosesIn, henter, hclose, hflow]
  · simp [EntersIn, ClosesIn, henter, hclose, stack]

omit h in
/-- No flow keeps an empty stack. -/
theorem activePhases_recordEvent_ne (hstored : ∀ flowId : String, state.activePhases[flowId]? ≠ some [])
    (flowId : String) : (state.recordEvent lineNumber event).activePhases[flowId]? ≠ some [] := by
  rw [activePhases_recordEvent]
  split
  · rw [pushPhase, TreeMap.getElem?_insert]
    split
    · simp
    · exact hstored flowId
  split
  · rw [popPhase]
    split
    · exact hstored flowId
    · split
      · rw [TreeMap.getElem?_erase]
        split
        · simp
        · exact hstored flowId
      · rename_i hlast
        rw [TreeMap.getElem?_insert]
        split
        · simpa using hlast
        · exact hstored flowId
  · exact hstored flowId

end SessionLifecycleState

/-! ## What the maps mean -/

/-- The Phase execution that an event is about. -/
def phaseOf : String := lifecyclePayloadString event "phase_execution_id"

/-- The events that entered the open Phases of a flow, the innermost last. -/
def openPhases (events : List EventEnvelope) : List EventEnvelope :=
  events.filter fun event => EntersIn flowId event ∧ ∀ other ∈ events, ¬ Closes (phaseOf event) other

variable {α : Type} {p : α → Prop} {as : List α} {a : α}

theorem exists_mem_snoc : (∃ x ∈ as ++ [a], p x) ↔ (∃ x ∈ as, p x) ∨ p a := by
  simp only [mem_append, mem_singleton, or_and_right, exists_or, exists_eq_left]

theorem forall_mem_snoc : (∀ x ∈ as ++ [a], p x) ↔ (∀ x ∈ as, p x) ∧ p a := by
  rw [forall_mem_append, forall_mem_singleton]

/-- What a lifecycle state says about the events before it. -/
structure Tracks (events : List EventEnvelope) (state : SessionLifecycleState) : Prop where
  active : ∀ flowId, state.flows.active.contains flowId = true ↔
    (∃ event ∈ events, Starts flowId event) ∧ ∀ event ∈ events, ¬ Ends flowId event
  ended : ∀ flowId, state.flows.terminal.contains flowId = true ↔
    ∃ event ∈ events, Ends flowId event
  parents : ∀ flowId parent, state.flowParents[flowId]? = some parent ↔
    ∃ event ∈ events, Starts flowId event ∧ event.parentFlowId = parent
  startsFirst : ∀ flowId, ∀ event ∈ events, Ends flowId event →
    ∃ start ∈ events, Starts flowId start
  closed : ∀ phase, state.terminalPhases.contains phase = true ↔
    ∃ event ∈ events, Closes phase event
  entersOnce : events.Pairwise fun first second =>
    first.eventType = .phaseEntered → second.eventType = .phaseEntered →
      phaseOf first ≠ phaseOf second
  stack : ∀ flowId, state.stack flowId = (openPhases flowId events).map lifecyclePhaseKey
  stored : ∀ flowId : String, state.activePhases[flowId]? ≠ some []
  leaves : ∀ flowId, ∀ phase ∈ (state.stack flowId).dropLast, phase.phaseKind ≠ .leaf

theorem tracks_nil : Tracks [] {} where
  active := by simp
  ended := by simp
  parents := by simp
  startsFirst := by simp
  closed := by simp
  entersOnce := .nil
  stack := by simp [openPhases, SessionLifecycleState.stack]
  stored := by simp
  leaves := by simp [SessionLifecycleState.stack]

theorem openPhases_snoc (events : List EventEnvelope) (event : EventEnvelope) :
    openPhases flowId (events ++ [event]) =
      (openPhases flowId events).filter (fun other => ¬ Closes (phaseOf other) event) ++
        if EntersIn flowId event ∧ ∀ other ∈ events ++ [event], ¬ Closes (phaseOf event) other
        then [event] else [] := by
  simp only [openPhases, filter_append, filter_filter]
  congr 1
  · refine filter_congr fun other _ => ?_
    simp only [mem_append, mem_singleton, or_imp, forall_and, forall_eq]
    grind
  · simp only [filter_cons, filter_nil, decide_eq_true_eq]

/-! ## One step -/

section
variable {events : List EventEnvelope} {event : EventEnvelope} {state : SessionLifecycleState}
  {lineNumber : Nat}

variable {phase flowId : String}

theorem not_closes_of_enters (h : event.eventType = .phaseEntered) : ¬ Closes phase event := by
  rintro ⟨h' | h', -⟩ <;> cases h.symm.trans h'

variable (h : Tracks events state)
include h

theorem Tracks.notClosed
    (hphase : state.terminalPhases[phase]? = none) : ∀ event ∈ events, ¬ Closes phase event := by
  intro other hother hcloses
  have hcontains := (h.closed phase).mpr ⟨other, hother, hcloses⟩
  rw [TreeMap.contains_eq_isSome_getElem?, hphase] at hcontains
  cases hcontains

omit h in
theorem mem_openPhases :
    event ∈ openPhases flowId events ↔
      event ∈ events ∧ EntersIn flowId event ∧ ∀ other ∈ events, ¬ Closes (phaseOf event) other := by
  simp only [openPhases, mem_filter, decide_eq_true_eq]

/-- A Phase that is entered was not entered before. -/
theorem Tracks.notEntered (hcarries : ∀ other ∈ events, Carries other)
    (hadmits : state.AdmitsPhaseEntered event flowId) :
    ∀ other ∈ events, other.eventType = .phaseEntered → phaseOf other ≠ phaseOf event := by
  intro other hother htype heq
  -- It is not closed, so it is on the stack of its flow.
  have hflow := flowId_eq_some (hcarries other hother) (by rw [htype]; rfl)
  have hclosed : ∀ d ∈ events, ¬ Closes (phaseOf other) d := heq ▸ h.notClosed hadmits.notClosed
  have hopen := mem_openPhases.mpr ⟨hother, ⟨htype, hflow⟩, hclosed⟩
  have hmem : lifecyclePhaseKey other ∈ state.stack (other.flowId.getD "") := by
    rw [h.stack]
    exact mem_map_of_mem hopen
  cases hphases : state.activePhases[other.flowId.getD ""]? with
  | none => simp [SessionLifecycleState.stack, TreeMap.getD_eq_getD_getElem?, hphases] at hmem
  | some phases =>
    rw [SessionLifecycleState.stack, TreeMap.getD_eq_getD_getElem?, hphases] at hmem
    exact hadmits.notOpen _ phases hphases _ hmem heq

/-- A Phase was entered by one event. -/
theorem Tracks.enters_unique {first second : EventEnvelope}
    (hfirst : first ∈ events) (hsecond : second ∈ events)
    (hf : first.eventType = .phaseEntered) (hs : second.eventType = .phaseEntered)
    (heq : phaseOf first = phaseOf second) : first = second := by
  by_contra hne
  have hsymm : Std.Symm fun first second : EventEnvelope => first.eventType = .phaseEntered →
      second.eventType = .phaseEntered → phaseOf first ≠ phaseOf second :=
    ⟨fun _ _ hr ha hb => Ne.symm (hr hb ha)⟩
  exact h.entersOnce.forall hfirst hsecond hne hf hs heq

/-- The Phase that an event closes was entered last of the open ones of its flow. -/
theorem Tracks.innermost (hadmits : state.AdmitsPhaseClosed event flowId) :
    ∃ outer enter, openPhases flowId events = outer ++ [enter] ∧ phaseOf enter = phaseOf event := by
  obtain ⟨active, hactive, hmatch⟩ := hadmits.innermost
  rw [activePhase_eq, h.stack, List.getLast?_eq_some_iff] at hactive
  obtain ⟨keys, hkeys⟩ := hactive
  obtain ⟨outer, last, hsplit, -, hlast⟩ := map_eq_append_iff.mp hkeys
  obtain ⟨enter, rfl, henter⟩ := map_eq_singleton_iff.mp hlast
  refine ⟨outer, enter, hsplit, ?_⟩
  simp only [terminalPhaseMatches, Bool.and_eq_true, decide_eq_true_eq] at hmatch
  rw [← henter] at hmatch
  exact hmatch.1.1

theorem Tracks.stack_record (hcarries : Carries event)
    (hadmits : state.Admits lineNumber event) (flowId : String) :
    (state.recordEvent lineNumber event).stack flowId =
      (openPhases flowId (events ++ [event])).map lifecyclePhaseKey := by
  rw [stack_recordEvent hcarries, openPhases_snoc, h.stack]
  have hkeep (hnot : ∀ d, ¬ Closes (phaseOf d) event) : (openPhases flowId events).filter
      (fun d => ¬ Closes (phaseOf d) event) = openPhases flowId events :=
    filter_eq_self.mpr fun d _ => by simpa using hnot d
  by_cases henter : event.eventType = .phaseEntered
  · -- An event that enters a Phase closes none; its own Phase was not closed before.
    obtain ⟨other, hother, hphase⟩ := hadmits.phaseEntered henter
    have hnone : ∀ d ∈ events ++ [event], ¬ Closes (phaseOf event) d := by
      intro d hd
      rcases mem_append.mp hd with hd | hd
      · exact h.notClosed hphase.notClosed d hd
      · rw [mem_singleton.mp hd]
        exact not_closes_of_enters henter
    have hnot : ¬ ClosesIn flowId event := fun hc => not_closes_of_enters henter ⟨hc.1, rfl⟩
    rw [hkeep fun _ => not_closes_of_enters henter, if_neg hnot]
    by_cases hin : EntersIn flowId event
    · rw [if_pos hin, if_pos ⟨hin, hnone⟩, map_append]
      rfl
    · rw [if_neg hin, if_neg fun hc => hin hc.1, append_nil]
  have hin : ¬ EntersIn flowId event := fun hc => henter hc.1
  have hnew : ¬ (EntersIn flowId event ∧
      ∀ other ∈ events ++ [event], ¬ Closes (phaseOf event) other) := fun hc => hin hc.1
  rw [if_neg hin, if_neg hnew, append_nil]
  by_cases hclose : event.eventType = .phaseCompleted ∨ event.eventType = .phaseFailed
  · obtain ⟨other, hother, hphase⟩ := hadmits.phaseClosed hclose
    obtain ⟨outer, enter, hsplit, hsame⟩ := h.innermost hphase
    have hcloses : ∀ d, Closes (phaseOf d) event ↔ phaseOf enter = phaseOf d := by
      intro d
      rw [hsame]
      exact ⟨fun hc => hc.2, fun heq => ⟨hclose, heq⟩⟩
    by_cases heq : other = flowId
    · subst heq
      rw [if_pos ⟨hclose, hother⟩, hsplit]
      -- The Phases of the flow have different identities, so only the innermost one goes.
      have hsub : (openPhases other events).Sublist events := filter_sublist
      have hpair := h.entersOnce.sublist hsub
      have hmem : ∀ d ∈ openPhases other events, d.eventType = .phaseEntered :=
        fun d hd => (mem_openPhases.mp hd).2.1.1
      rw [hsplit, pairwise_append] at hpair
      rw [hsplit] at hmem
      have hkeep : outer.filter (fun d => ¬ Closes (phaseOf d) event) = outer := by
        refine filter_eq_self.mpr fun d hd => ?_
        have hne := hpair.2.2 d hd enter (mem_singleton_self _)
          (hmem d (mem_append_left _ hd)) (hmem enter (by simp))
        simpa [hcloses] using Ne.symm hne
      rw [filter_append, hkeep]
      simp [hcloses]
    · have hnot : ¬ ClosesIn flowId event := fun hc => heq (Option.some.inj (hother.symm.trans hc.2))
      rw [if_neg hnot]
      -- The Phase belongs to another flow.
      congr 1
      refine (filter_eq_self.mpr fun d hd => ?_).symm
      obtain ⟨hd, hdin, -⟩ := mem_openPhases.mp hd
      obtain ⟨he, hein, -⟩ := mem_openPhases.mp (show enter ∈ openPhases other events by simp [hsplit])
      have hne : phaseOf enter ≠ phaseOf d := by
        intro hphases
        have hsameEvent := h.enters_unique he hd hein.1 hdin.1 hphases
        exact heq (Option.some.inj (hein.2.symm.trans (hsameEvent ▸ hdin.2)))
      simpa [hcloses] using hne
  · have hnot : ¬ ClosesIn flowId event := fun hc => hclose hc.1
    rw [if_neg hnot, hkeep fun _ hc => hclose hc.1]

theorem Tracks.leaves_record (hcarries : Carries event)
    (hadmits : state.Admits lineNumber event) (flowId : String) :
    ∀ phase ∈ ((state.recordEvent lineNumber event).stack flowId).dropLast,
      phase.phaseKind ≠ .leaf := by
  intro phase hphase
  rw [stack_recordEvent hcarries] at hphase
  split at hphase
  · rename_i hin
    rw [dropLast_concat] at hphase
    -- A Phase is entered only below a Phase that is no leaf.
    obtain ⟨other, hother, hentered⟩ := hadmits.phaseEntered hin.1
    obtain rfl : other = flowId := Option.some.inj (hother.symm.trans hin.2)
    obtain hnil | ⟨outer, inner, hstack⟩ := eq_nil_or_concat (state.stack other)
    · rw [hnil] at hphase
      cases hphase
    · rw [hstack, concat_eq_append, mem_append, mem_singleton] at hphase
      rcases hphase with hphase | rfl
      · exact h.leaves other phase (by rwa [hstack, concat_eq_append, dropLast_concat])
      · refine hentered.notInLeaf phase ?_
        rw [activePhase_eq, hstack, concat_eq_append, List.getLast?_concat]
  · split at hphase
    · exact h.leaves flowId phase (mem_of_mem_dropLast hphase)
    · exact h.leaves flowId phase hphase

/-- An admitted event keeps the meaning of the maps. -/
theorem Tracks.record (hbefore : ∀ other ∈ events, Carries other)
    (hcarries : Carries event) (hadmits : state.Admits lineNumber event)
    (hnew : ∀ flowId, Starts flowId event → ∀ other ∈ events, ¬ Starts flowId other) :
    Tracks (events ++ [event]) (state.recordEvent lineNumber event) where
  active flowId := by
    rw [flowActive_recordEvent hcarries, h.active, exists_mem_snoc, forall_mem_snoc]
    constructor
    · rintro ⟨hstart | ⟨hstart, hnone⟩, hend⟩
      · refine ⟨.inr hstart, fun other hother hends => ?_, hend⟩
        obtain ⟨start, hmem, hstarts⟩ := h.startsFirst flowId other hother hends
        exact hnew flowId hstart start hmem hstarts
      · exact ⟨.inl hstart, hnone, hend⟩
    · rintro ⟨hstart | hstart, hnone, hend⟩
      · exact ⟨.inr ⟨hstart, hnone⟩, hend⟩
      · exact ⟨.inl hstart, hend⟩
  ended flowId := by
    rw [flowTerminal_recordEvent hcarries, h.ended, exists_mem_snoc, or_comm]
  parents flowId parent := by
    rw [getElem?_flowParents_recordEvent hcarries, exists_mem_snoc]
    split
    · rename_i hstart
      constructor
      · intro heq
        exact .inr ⟨hstart, Option.some.inj heq⟩
      · rintro (⟨other, hother, hstarts, -⟩ | ⟨-, rfl⟩)
        · exact absurd hstarts (hnew flowId hstart other hother)
        · rfl
    · rename_i hstart
      rw [h.parents]
      exact ⟨.inl, fun hor => hor.resolve_right fun hc => hstart hc.1⟩
  startsFirst flowId other hother hends := by
    rcases mem_append.mp hother with hother | hother
    · obtain ⟨start, hmem, hstarts⟩ := h.startsFirst flowId other hother hends
      exact ⟨start, mem_append_left _ hmem, hstarts⟩
    · obtain rfl := mem_singleton.mp hother
      have hne : other.eventType ≠ .flowStarted := by
        rcases hends.1 with e | e <;> simp [e]
      obtain ⟨start, hmem, hstarts⟩ := ((h.active flowId).mp (hadmits.scope flowId hends.2 hne).1).1
      exact ⟨start, mem_append_left _ hmem, hstarts⟩
  closed phase := by
    rw [contains_terminalPhases_recordEvent, h.closed, exists_mem_snoc, or_comm]
  entersOnce := by
    refine pairwise_append.mpr ⟨h.entersOnce, pairwise_singleton _ _, ?_⟩
    intro other hother _ hlast hfirst hsecond
    obtain rfl := mem_singleton.mp hlast
    obtain ⟨flowId, -, hphase⟩ := hadmits.phaseEntered hsecond
    exact h.notEntered hbefore hphase other hother hfirst
  stack := h.stack_record hcarries hadmits
  stored := activePhases_recordEvent_ne h.stored
  leaves := h.leaves_record hcarries hadmits


omit h
end

/-! ## Accepted streams -/

/-- What an event of `canonicalBytes` bytes has to meet to be accepted in `state`. -/
structure Accepts (L : Libraries) (state : SessionAppendValidationState) (event : EventEnvelope)
    (canonicalBytes : Nat) : Prop where
  valid : event.validateV0 L = .ok ()
  size : canonicalBytes ≤ maxCanonicalEventBytes
  lines : state.lineCount + 1 ≤ maxFlowEvents
  bytes : saturatingAdd state.streamBytes canonicalBytes ≤ maxSessionEventBytes
  admits : state.Admits (state.lineCount + 1) event

/-- The events were accepted one after the other, from a new state on. -/
inductive Accepted (L : Libraries) (expectedSessionId : Option String) :
    List EventEnvelope → SessionAppendValidationState → Prop
  | new : Accepted L expectedSessionId [] (.new expectedSessionId)
  | snoc {events : List EventEnvelope} {state : SessionAppendValidationState}
      {event : EventEnvelope} (canonicalBytes : Nat) :
      Accepted L expectedSessionId events state → Accepts L state event canonicalBytes →
      Accepted L expectedSessionId (events ++ [event])
        (state.recordEvent (state.lineCount + 1) event canonicalBytes)

/-- What a state says about the events before it. -/
structure Records (events : List EventEnvelope) (state : SessionAppendValidationState) : Prop where
  carries : ∀ event ∈ events, Carries event
  lines : state.lineCount = events.length
  previous : state.previousSequence.toNat = events.length
  sequences : events.map (·.sequence.toNat) = List.range' 1 events.length
  ids : ∀ id, state.eventIds.contains id = true ↔ ∃ event ∈ events, event.eventId = id
  idsOnce : (events.map (·.eventId)).Nodup
  session : ∀ event ∈ events, state.streamSessionId = some event.sessionId
  ended : state.terminalLine = none ↔ ∀ event ∈ events, isTerminalSession event = false
  started : ∀ flowId, state.flowStartedIds.contains flowId = true ↔
    ∃ event ∈ events, Starts flowId event
  tracks : Tracks events state.lifecycle

theorem records_new (expectedSessionId : Option String) :
    Records [] (.new expectedSessionId) where
  carries := by simp
  lines := rfl
  previous := rfl
  sequences := rfl
  ids := by simp [new]
  idsOnce := .nil
  session := by simp
  ended := by simp [new]
  started := by simp [new]
  tracks := tracks_nil

section
variable {L : Libraries} {events : List EventEnvelope} {event : EventEnvelope}
  {state : SessionAppendValidationState} {canonicalBytes : Nat}

theorem Records.newFlow (h : Records events state) (haccepts : Accepts L state event canonicalBytes)
    (flowId : String) (hstart : Starts flowId event) :
    ∀ other ∈ events, ¬ Starts flowId other := by
  intro other hother hstarts
  have hnew := (haccepts.admits.flowStarted hstart.1).startsOnce flowId hstart.2
  rw [(h.started flowId).mpr ⟨other, hother, hstarts⟩] at hnew
  cases hnew

theorem Records.nextSequence (h : Records events state)
    (haccepts : Accepts L state event canonicalBytes) : event.sequence.toNat = events.length + 1 := by
  have hnext := haccepts.admits.sequence
  unfold SessionAppendValidationState.nextSequence at hnext
  split at hnext
  · rename_i hlt
    rw [← Option.some.inj hnext, UInt64.toNat_add, UInt64.toNat_one, Nat.mod_eq_of_lt hlt, h.previous]
  · cases hnext

/-- An accepted event keeps the meaning of the state. -/
theorem Records.record (h : Records events state) (haccepts : Accepts L state event canonicalBytes) :
    Records (events ++ [event]) (state.recordEvent (state.lineCount + 1) event canonicalBytes) where
  carries other hother := by
    rcases mem_append.mp hother with hother | hother
    · exact h.carries other hother
    · exact mem_singleton.mp hother ▸ carries_of_valid haccepts.valid
  lines := by
    rw [h.lines, length_append]
    rfl
  previous := by
    rw [length_append]
    exact h.nextSequence haccepts
  sequences := by
    rw [map_append, h.sequences, length_append, length_singleton, List.range'_concat]
    simp [h.nextSequence haccepts, Nat.add_comm]
  ids id := by
    simp only [SessionAppendValidationState.recordEvent, TreeSet.contains_insert, Bool.or_eq_true,
      beq_iff_eq, Std.compare_eq_iff_eq, h.ids, mem_append, mem_singleton, or_and_right,
      exists_or, exists_eq_left, or_comm]
  idsOnce := by
    rw [map_append, nodup_append]
    refine ⟨h.idsOnce, nodup_singleton _, ?_⟩
    rintro id hid _ hlast rfl
    obtain ⟨other, hother, rfl⟩ := mem_map.mp hid
    have hsame : other.eventId = event.eventId := by simpa using hlast
    have hnew := haccepts.admits.newEventId
    rw [← hsame, (h.ids _).mpr ⟨other, hother, rfl⟩] at hnew
    cases hnew
  session := by
    rw [forall_mem_snoc]
    have hexisting := haccepts.admits.streamSession
    simp only [SessionAppendValidationState.recordEvent]
    cases hstream : state.streamSessionId with
    | none =>
      refine ⟨fun other hother => ?_, rfl⟩
      cases hstream.symm.trans (h.session other hother)
    | some existing =>
      refine ⟨fun other hother => ?_, by rw [hexisting existing hstream, Option.getD_some]⟩
      exact hstream.symm.trans (h.session other hother)
  ended := by
    rw [forall_mem_snoc, ← h.ended]
    simp only [SessionAppendValidationState.recordEvent]
    cases isTerminalSession event <;> simp
  started flowId := by
    rw [exists_mem_snoc, ← h.started]
    simp only [SessionAppendValidationState.recordEvent]
    by_cases hstart : event.eventType = .flowStarted
    · have hflow := getD_flowId_eq (carries_of_valid haccepts.valid) (by rw [hstart]; rfl) flowId
      simp [hstart, Starts, hflow, or_comm]
    · simp [hstart, Starts]
  tracks := h.tracks.record h.carries (carries_of_valid haccepts.valid) haccepts.admits.lifecycle
    (h.newFlow haccepts)
variable {expectedSessionId : Option String} {after : List EventEnvelope}

theorem Accepted.records
    (h : Accepted L expectedSessionId events state) : Records events state := by
  induction h with
  | new => exact records_new expectedSessionId
  | snoc canonicalBytes _ haccepts ih => exact ih.record haccepts

theorem Accepted.of_snoc (h : Accepted L expectedSessionId (events ++ [event]) state) :
    ∃ before canonicalBytes, Accepted L expectedSessionId events before ∧
      Accepts L before event canonicalBytes ∧
      state = before.recordEvent (before.lineCount + 1) event canonicalBytes := by
  generalize hevents : events ++ [event] = all at h
  cases h with
  | new => simp at hevents
  | @snoc events' state' event' canonicalBytes haccepted haccepts =>
    obtain ⟨rfl, heq⟩ := append_inj' hevents rfl
    obtain rfl := singleton_inj.mp heq
    exact ⟨state', canonicalBytes, haccepted, haccepts, rfl⟩

theorem Accepted.before (h : Accepted L expectedSessionId (events ++ after) state) :
    ∃ middle, Accepted L expectedSessionId events middle := by
  induction after using List.reverseRecOn generalizing state with
  | nil => exact ⟨state, by simpa using h⟩
  | append_singleton after last ih =>
    rw [← append_assoc] at h
    obtain ⟨middle, -, haccepted, -⟩ := h.of_snoc
    exact ih haccepted

/-- Each event of an accepted stream was accepted after the events before it. -/
theorem Accepted.split {before : List EventEnvelope}
    (h : Accepted L expectedSessionId (before ++ event :: after) state) :
    ∃ middle canonicalBytes, Accepted L expectedSessionId before middle ∧
      Accepts L middle event canonicalBytes := by
  rw [← singleton_append, ← append_assoc] at h
  obtain ⟨_, haccepted⟩ := h.before
  obtain ⟨middle, canonicalBytes, hbefore, haccepts, -⟩ := haccepted.of_snoc
  exact ⟨middle, canonicalBytes, hbefore, haccepts⟩

end

end Watershed.FlowAgent
