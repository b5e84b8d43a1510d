/-
  Event streams that the validator accepts are well nested.

  `WellNested` is stated over the list of events alone: each condition is about an event, the
  events before it and the events after it. The proof reads each condition off the state in
  which the event was accepted (`Records`, `Tracks`, `EndedTimes`).
-/
import Watershed.FlowAgent.Nesting

namespace Watershed.FlowAgent

open Watershed.Proto List SessionLifecycleState
open Std (TreeMap TreeSet)

/-! ## Well-nested streams -/

/-- The flow has started and not ended. -/
def OpenFlow (flowId : String) (before : List EventEnvelope) : Prop :=
  (∃ start ∈ before, Starts flowId start) ∧ ∀ other ∈ before, ¬ Ends flowId other

/-- `enter` has entered a leaf Phase of the flow that is still open. -/
def OpenLeaf (flowId : String) (enter : EventEnvelope) (before : List EventEnvelope) : Prop :=
  enter ∈ openPhases flowId before ∧ EntersLeaf enter

/-- Nothing is open: every flow has ended, every Phase is closed, every tool and every message is
    terminated. -/
structure NothingOpen (before : List EventEnvelope) : Prop where
  flows : ∀ flowId, ∀ start ∈ before, Starts flowId start → ∃ other ∈ before, Ends flowId other
  phases : ∀ phase, ∀ enter ∈ before, Enters phase enter → ∃ other ∈ before, Closes phase other
  tools : ∀ first tool last, before = first ++ tool :: last → tool.eventType = .toolStarted →
    ∃ other ∈ last, EndsTool tool other
  messages : ∀ first delta last, before = first ++ delta :: last →
    delta.eventType = .messageDelta → ∃ other ∈ last, CompletesMessage delta other

/-- How flows, Phases, tools and messages of a stream lie in each other. -/
structure WellNested (events : List EventEnvelope) : Prop where
  sequences : events.map (·.sequence.toNat) = List.range' 1 events.length
  session : ∃ sessionId, ∀ event ∈ events, event.sessionId = sessionId
  eventIds : (events.map (·.eventId)).Nodup
  /-- `session.started` is the first event and no other. -/
  starts : ∃ first rest, events = first :: rest ∧ first.eventType = .sessionStarted ∧
    ∀ event ∈ rest, event.eventType ≠ .sessionStarted
  ends : ∀ before event after, events = before ++ event :: after →
    isTerminalSession event = true → after = []
  /-- The events have the flow and the payload strings that the conditions below read. -/
  carries : ∀ event ∈ events, Carries event
  flowOnce : ∀ before event after flowId, events = before ++ event :: after →
    Starts flowId event → ∀ other ∈ before ++ after, ¬ Starts flowId other
  /-- An event of a flow comes after the flow's start, names the same parent, and comes no later
      than the flow's end. -/
  flowScope : ∀ before event after flowId, events = before ++ event :: after →
    event.flowId = some flowId → ¬ Starts flowId event →
    (∃ start ∈ before, Starts flowId start ∧ start.parentFlowId = event.parentFlowId) ∧
      ∀ other ∈ before, ¬ Ends flowId other
  childStarts : ∀ before event after flowId parent, events = before ++ event :: after →
    Starts flowId event → event.parentFlowId = some parent → OpenFlow parent before
  childEnds : ∀ before event after flowId parent, events = before ++ event :: after →
    Ends parent event → ∀ start ∈ before, Starts flowId start →
    start.parentFlowId = some parent → ∃ other ∈ before, Ends flowId other
  entersOnce : ∀ before event after phase, events = before ++ event :: after →
    Enters phase event → ∀ other ∈ before ++ after, ¬ Enters phase other
  closesOnce : ∀ before event after phase, events = before ++ event :: after →
    Closes phase event → ∀ other ∈ before ++ after, ¬ Closes phase other
  /-- The Phase that is closed was entered in the same flow, and the Phases of the flow that were
      entered inside it are closed. -/
  closesInnermost : ∀ before event after phase, events = before ++ event :: after →
    Closes phase event → ∃ outer enter inner, before = outer ++ enter :: inner ∧
      Enters phase enter ∧ enter.flowId = event.flowId ∧
      ∀ first inside last other, inner = first ++ inside :: last →
        inside.flowId = event.flowId → Enters other inside → ∃ close ∈ last, Closes other close
  leafIsLeaf : ∀ outer enter inner event after phase,
    events = outer ++ enter :: (inner ++ event :: after) → Enters phase enter → EntersLeaf enter →
    event.eventType = .phaseEntered → event.flowId = enter.flowId →
    ∃ close ∈ inner, Closes phase close
  /-- A tool starts in an open leaf Phase and has one terminal event before that Phase closes. -/
  tools : ∀ before tool after, events = before ++ tool :: after → tool.eventType = .toolStarted →
    ∃ flowId enter, tool.flowId = some flowId ∧ OpenLeaf flowId enter before ∧
      (∀ middle close rest, after = middle ++ close :: rest → Closes (phaseOf enter) close →
        middle.countP (EndsTool tool ·) = 1) ∧
      ∀ middle rest, after = middle ++ rest → (∀ other ∈ middle, ¬ Closes (phaseOf enter) other) →
        middle.countP (EndsTool tool ·) ≤ 1
  /-- `tool.failed` ends a tool that was started in a Phase that is still open, or its flow has no
      open Phase. -/
  toolFailed : ∀ before event after flowId, events = before ++ event :: after →
    event.eventType = .toolFailed → event.flowId = some flowId →
    openPhases flowId before = [] ∨
      ∃ first tool last enter, before = first ++ tool :: last ∧ tool.eventType = .toolStarted ∧
        SameTool event tool ∧ OpenLeaf flowId enter first ∧
        ∀ other ∈ last, ¬ Closes (phaseOf enter) other
  /-- A message is written in an open leaf Phase and is completed once before that Phase closes. -/
  messages : ∀ before delta after, events = before ++ delta :: after →
    delta.eventType = .messageDelta →
    ∃ flowId enter, delta.flowId = some flowId ∧ OpenLeaf flowId enter before ∧
      (∀ middle close rest, after = middle ++ close :: rest → Closes (phaseOf enter) close →
        middle.countP (CompletesMessage delta ·) = 1) ∧
      ∀ middle rest, after = middle ++ rest → (∀ other ∈ middle, ¬ Closes (phaseOf enter) other) →
        middle.countP (CompletesMessage delta ·) ≤ 1
  nothingOpen : ∀ before event, events = before ++ [event] → isTerminalSession event = true →
    NothingOpen before

/-! ## Flows -/

section
variable {L : Libraries} {expectedSessionId : Option String} {events : List EventEnvelope}
  {state : SessionAppendValidationState}

theorem Accepted.sessionStarts (h : Accepted L expectedSessionId events state) (hne : events ≠ []) :
    ∃ first rest, events = first :: rest ∧ first.eventType = .sessionStarted ∧
      ∀ event ∈ rest, event.eventType ≠ .sessionStarted := by
  obtain ⟨first, rest, rfl⟩ := exists_cons_of_ne_nil hne
  refine ⟨first, rest, rfl, ?_, fun event hevent htype => ?_⟩
  · rw [← nil_append (first :: rest)] at h
    obtain ⟨middle, bytes, haccepted, haccepts⟩ := h.split
    refine haccepts.admits.firstStarts ?_
    rw [haccepted.records.lines]
    rfl
  · obtain ⟨before, after, rfl⟩ := append_of_mem hevent
    rw [← cons_append] at h
    obtain ⟨middle, bytes, haccepted, haccepts⟩ := h.split
    refine haccepts.admits.lifecycle.startsOnce ⟨?_, htype⟩
    rw [haccepted.records.lines]
    simp

variable {before after : List EventEnvelope} {event : EventEnvelope} {flowId : String}

/-- What no event has before it, no event has after it either. -/
theorem Accepted.once {p : EventEnvelope → Prop}
    (hbefore : ∀ before event after, Accepted L expectedSessionId (before ++ event :: after) state →
      p event → ∀ other ∈ before, ¬ p other)
    (h : Accepted L expectedSessionId (before ++ event :: after) state) (hevent : p event) :
    ∀ other ∈ before ++ after, ¬ p other := by
  intro other hother hp
  rcases mem_append.mp hother with hmem | hmem
  · exact hbefore before event after h hevent other hmem hp
  · obtain ⟨first, last, rfl⟩ := append_of_mem hmem
    rw [← cons_append, ← append_assoc] at h
    exact hbefore _ other last h hp event (by simp) hevent

variable (h : Accepted L expectedSessionId (before ++ event :: after) state)
include h

theorem Accepted.admitted : ∃ middle lineNumber, Tracks before middle ∧
    SessionLifecycleState.Admits middle lineNumber event := by
  obtain ⟨_, _, haccepted, haccepts⟩ := h.split
  exact ⟨_, _, haccepted.records.tracks, haccepts.admits.lifecycle⟩

/-- A flow starts once. -/
theorem Accepted.flow_once
    (hstarts : Starts flowId event) : ∀ other ∈ before ++ after, ¬ Starts flowId other := by
  refine Accepted.once (fun before event after h hstarts => ?_) h hstarts
  obtain ⟨middle, bytes, haccepted, haccepts⟩ := h.split
  exact haccepted.records.newFlow haccepts flowId hstarts

theorem Accepted.flow_scope (hflow : event.flowId = some flowId) (hstarts : ¬ Starts flowId event) :
    (∃ start ∈ before, Starts flowId start ∧ start.parentFlowId = event.parentFlowId) ∧
      ∀ other ∈ before, ¬ Ends flowId other := by
  obtain ⟨_, _, tracks, hadmits⟩ := h.admitted
  have htype : event.eventType ≠ .flowStarted := fun htype => hstarts ⟨htype, hflow⟩
  have hopen := (tracks.active flowId).mp (hadmits.scope flowId hflow htype).1
  obtain ⟨start, hmem, hstart⟩ := hopen.1
  have hparent := (tracks.parents flowId start.parentFlowId).mpr ⟨start, hmem, hstart, rfl⟩
  exact ⟨⟨start, hmem, hstart, (hadmits.parent flowId hflow).sameParent _ hparent⟩, hopen.2⟩

variable {parent : String} {enter close : EventEnvelope} {active terminal : Bool} {count : Nat}
    {middle rest : List EventEnvelope}

theorem Accepted.child_starts
    (hstarts : Starts flowId event) (hparent : event.parentFlowId = some parent) :
    OpenFlow parent before := by
  obtain ⟨_, _, tracks, hadmits⟩ := h.admitted
  have hopen := (hadmits.parent flowId hstarts.2).parentOpen parent hparent
  exact (tracks.active parent).mp hopen.2.1

theorem Accepted.child_ends
    (hends : Ends parent event) {start : EventEnvelope} (hmem : start ∈ before)
    (hstarts : Starts flowId start) (hparent : start.parentFlowId = some parent) :
    ∃ other ∈ before, Ends flowId other := by
  obtain ⟨_, _, tracks, hadmits⟩ := h.admitted
  obtain ⟨other, hother, hend⟩ := hadmits.flowEnd hends.1
  obtain rfl : other = parent := Option.some.inj (hother.symm.trans hends.2)
  by_contra hnone
  refine hend.noChild flowId ((tracks.active flowId).mpr ⟨⟨start, hmem, hstarts⟩, ?_⟩) ?_
  · exact fun event hevent hc => hnone ⟨event, hevent, hc⟩
  · rw [(tracks.parents flowId start.parentFlowId).mpr ⟨start, hmem, hstarts, rfl⟩]
    exact hparent

/-! ## Phases -/

variable {phase : String}

theorem Accepted.not_entered_before
    (henters : Enters phase event) : ∀ other ∈ before, ¬ Enters phase other := by
  obtain ⟨middle, bytes, haccepted, haccepts⟩ := h.split
  have hrecords := haccepted.records
  obtain ⟨flowId, -, hphase⟩ := haccepts.admits.lifecycle.phaseEntered henters.1
  intro other hother hc
  exact hrecords.tracks.notEntered hrecords.carries hphase other hother hc.1
    (hc.2.trans henters.2.symm)

theorem Accepted.not_closed_before
    (hphase : Enters phase event ∨ Closes phase event) : ∀ other ∈ before, ¬ Closes phase other := by
  obtain ⟨_, _, tracks, hadmits⟩ := h.admitted
  rcases hphase with henters | hcloses
  · obtain ⟨flowId, -, hentered⟩ := hadmits.phaseEntered henters.1
    exact henters.2 ▸ tracks.notClosed hentered.notClosed
  · obtain ⟨flowId, -, hclosed⟩ := hadmits.phaseClosed hcloses.1
    exact hcloses.2 ▸ tracks.notClosed hclosed.notClosed

theorem Accepted.closes_innermost (hcloses : Closes phase event) :
    ∃ outer enter inner, before = outer ++ enter :: inner ∧ Enters phase enter ∧
      enter.flowId = event.flowId ∧
      ∀ first inside last other, inner = first ++ inside :: last →
        inside.flowId = event.flowId → Enters other inside → ∃ close ∈ last, Closes other close := by
  obtain ⟨middle, bytes, haccepted, haccepts⟩ := h.split
  obtain ⟨flowId, hflow, hclosed⟩ := haccepts.admits.lifecycle.phaseClosed hcloses.1
  obtain ⟨others, enter, hopen, hsame⟩ := haccepted.records.tracks.innermost hclosed
  -- `enter` is the last event whose Phase is open, so the Phases entered after it are closed.
  obtain ⟨left, right, rfl, -, hright⟩ := filter_eq_append_iff.mp hopen
  obtain ⟨skipped, inner, rfl, -, henter, hinner⟩ := filter_eq_cons_iff.mp hright
  simp only [decide_eq_true_eq] at henter
  refine ⟨left ++ skipped, enter, inner, by simp, ⟨henter.1.1, hsame.trans hcloses.2⟩,
    henter.1.2.trans hflow.symm, ?_⟩
  rintro first inside last other rfl hinside henters
  have hnot := filter_eq_nil_iff.mp hinner inside (by simp)
  simp only [decide_eq_true_eq, not_and, not_forall, not_not] at hnot
  obtain ⟨close, hmem, hclose⟩ := hnot ⟨henters.1, hinside.trans hflow⟩
  rw [show phaseOf inside = other from henters.2] at hclose
  have hsplit : left ++ (skipped ++ enter :: (first ++ inside :: last)) =
      (left ++ skipped ++ enter :: first) ++ inside :: last := by simp
  rw [hsplit] at hmem haccepted
  rcases mem_append.mp hmem with hmem | hmem
  · exact absurd hclose (haccepted.not_closed_before (.inl henters) close hmem)
  · rcases mem_cons.mp hmem with rfl | hmem
    · exact absurd hclose (not_closes_of_enters henters.1)
    · exact ⟨close, hmem, hclose⟩

omit h in
theorem Accepted.leaf_is_leaf {outer inner : List EventEnvelope}
    (h : Accepted L expectedSessionId (outer ++ enter :: (inner ++ event :: after)) state)
    (henters : Enters phase enter) (hleaf : EntersLeaf enter)
    (htype : event.eventType = .phaseEntered) (hflow : event.flowId = enter.flowId) :
    ∃ close ∈ inner, Closes phase close := by
  have hnotBefore := h.not_closed_before (.inl henters)
  rw [← cons_append, ← append_assoc] at h
  obtain ⟨_, _, tracks, hadmits⟩ := h.admitted
  obtain ⟨flowId, hevent, hentered⟩ := hadmits.phaseEntered htype
  by_contra hnone
  have hopen : enter ∈ openPhases flowId (outer ++ enter :: inner) := by
    refine mem_openPhases.mpr ⟨by simp, ⟨henters.1, hflow ▸ hevent⟩, ?_⟩
    rw [show phaseOf enter = phase from henters.2, forall_mem_append, forall_mem_cons]
    exact ⟨hnotBefore, not_closes_of_enters henters.1, fun other hother hc => hnone ⟨other, hother, hc⟩⟩
  exact hentered.notInLeaf _ (tracks.activePhase_of_leaf hopen hleaf) hleaf

/-- A Phase is closed by an event of its flow. -/
theorem Accepted.closes_flow (henter : enter ∈ openPhases flowId before)
    (hcloses : Closes (phaseOf enter) event) : event.flowId = some flowId := by
  obtain ⟨middle, bytes, haccepted, -⟩ := h.split
  obtain ⟨outer, other, inner, rfl, hother, hflow, -⟩ := h.closes_innermost hcloses
  obtain ⟨hmem, hin, -⟩ := mem_openPhases.mp henter
  have hsame := haccepted.records.tracks.enters_unique (by simp) hmem hother.1 hin.1 hother.2
  rw [← hflow, hsame]
  exact hin.2

/-! ## Tools and messages -/

/-- The event lies in an open leaf Phase; what happens in this Phase comes before its close. -/
theorem Accepted.in_leaf
    (htype : event.eventType = .toolStarted ∨ event.eventType = .messageDelta) :
    ∃ flowId enter, event.flowId = some flowId ∧ OpenLeaf flowId enter before := by
  obtain ⟨middle, _, tracks, hadmits⟩ := h.admitted
  have hleaf : middle.InLeaf event := by
    have hown := hadmits.own
    rcases htype with htype | htype <;> simp only [AdmitsOwn, htype] at hown <;> exact hown.1
  exact tracks.exists_leaf hleaf

omit h in
theorem EndedTimes.le_one (h : EndedTimes active terminal count) : count ≤ 1 := by
  rw [h.count_eq]
  exact Bool.toNat_le terminal

omit h in
theorem EndedTimes.eq_one
    (h : EndedTimes active terminal count) (hactive : active = false) : count = 1 := by
  have hterminal := h.active_eq
  rw [hactive, eq_comm, Bool.not_eq_false'] at hterminal
  rw [h.count_eq, hterminal]
  rfl

section Ends

omit h
variable (hall : Accepted L expectedSessionId (before ++ event :: (middle ++ close :: rest)) state)
  (hflow : event.flowId = some flowId) (henter : OpenLeaf flowId enter before)
  (hcloses : Closes (phaseOf enter) close)
include hall hflow henter hcloses

theorem Accepted.tool_ends_once (htype : event.eventType = .toolStarted) :
    middle.countP (EndsTool event ·) = 1 := by
  rw [← cons_append, ← append_assoc] at hall
  have hopen := hall.not_closed_before (.inr hcloses)
  obtain ⟨last, bytes, haccepted, haccepts⟩ := hall.split
  have hended := haccepted.tool_ended htype hflow henter.1 henter.2
    fun other hother => hopen other (by simp [hother])
  obtain ⟨_, -, hclosed⟩ := haccepts.admits.lifecycle.phaseClosed hcloses.1
  refine hended.eq_one (Bool.not_eq_true _ ▸ fun hactive => ?_)
  exact hclosed.noTool _ hactive (congrArg some hcloses.2.symm)

theorem Accepted.message_ends_once (htype : event.eventType = .messageDelta) :
    middle.countP (CompletesMessage event ·) = 1 := by
  rw [← cons_append, ← append_assoc] at hall
  have hopen := hall.not_closed_before (.inr hcloses)
  have hclose : close.flowId = some flowId :=
    hall.closes_flow (openPhases_append henter.1 fun other hother =>
      hopen other (by simp [hother])) hcloses
  obtain ⟨last, bytes, haccepted, haccepts⟩ := hall.split
  obtain ⟨other, hother, hclosed⟩ := haccepts.admits.lifecycle.phaseClosed hcloses.1
  obtain rfl : other = flowId := Option.some.inj (hother.symm.trans hclose)
  refine (haccepted.message_ended htype hflow).eq_one (Bool.not_eq_true _ ▸ fun hactive => ?_)
  exact hclosed.noMessage _ hactive rfl

end Ends

theorem Accepted.tool_failed
    (htype : event.eventType = .toolFailed) (hflow : event.flowId = some flowId) :
    openPhases flowId before = [] ∨
      ∃ first tool last enter, before = first ++ tool :: last ∧ tool.eventType = .toolStarted ∧
        SameTool event tool ∧ OpenLeaf flowId enter first ∧
        ∀ other ∈ last, ¬ Closes (phaseOf enter) other := by
  obtain ⟨middle, bytes, haccepted, haccepts⟩ := h.split
  have hown := haccepts.admits.lifecycle.own
  simp only [AdmitsOwn, htype] at hown
  obtain ⟨other, hother, -, hactive | hnone⟩ := hown
  · right
    obtain ⟨first, tool, last, flow, enter, rfl, hstart, htool, hkey, henter, hleaf, hopen⟩ :=
      haccepted.tool_started hactive
    obtain ⟨hflows, -, -, -, hid, hattempt⟩ := ToolLifecycleKey.mk.inj hkey
    obtain rfl : flow = flowId := Option.some.inj (htool.symm.trans (hflows.symm.trans hflow))
    exact ⟨first, tool, last, enter, rfl, hstart, ⟨hflows.symm, hid.symm, hattempt.symm⟩,
      ⟨henter, hleaf⟩, hopen⟩
  · left
    obtain rfl : other = flowId := Option.some.inj (hother.symm.trans hflow)
    have hstack := haccepted.records.tracks.stack other
    rw [stack, TreeMap.getD_eq_fallback_of_contains_eq_false hnone] at hstack
    exact map_eq_nil_iff.mp hstack.symm

/-! ## The end of the session -/

omit h in
theorem exists_of_countP {p : EventEnvelope → Prop} [DecidablePred p]
    (h : middle.countP (p ·) = 1) : ∃ other ∈ middle ++ rest, p other := by
  obtain ⟨other, hother, hp⟩ := countP_pos_iff.mp (h ▸ Nat.one_pos)
  exact ⟨other, mem_append_left _ hother, of_decide_eq_true hp⟩

theorem Accepted.nothing_open
    (hterminal : isTerminalSession event = true) : NothingOpen before := by
  obtain ⟨middle, bytes, haccepted, haccepts⟩ := h.split
  have hrecords := haccepted.records
  have tracks := hrecords.tracks
  have hclosed := haccepts.admits.closed hterminal
  have hphases : ∀ phase, ∀ enter ∈ before, Enters phase enter →
      ∃ other ∈ before, Closes phase other := by
    intro phase enter hmem henters
    by_contra hnone
    have hflow := flowId_eq_some (hrecords.carries enter hmem) (by rw [henters.1]; rfl)
    have hopen := mem_openPhases.mpr ⟨hmem, ⟨henters.1, hflow⟩, fun other hother hc =>
      hnone ⟨other, hother, henters.2 ▸ hc⟩⟩
    have hnil : middle.lifecycle.stack (enter.flowId.getD "") = [] := by
      rw [stack, TreeMap.getD_eq_getD_getElem?]
      cases hphases : middle.lifecycle.activePhases[enter.flowId.getD ""]? with
      | none => rfl
      | some phases => exact hclosed.phases _ phases hphases
    rw [map_eq_nil_iff.mp ((tracks.stack _).symm.trans hnil)] at hopen
    cases hopen
  -- The Phase of an event was closed after it.
  have hleaf : ∀ first work last, before = first ++ work :: last →
      (work.eventType = .toolStarted ∨ work.eventType = .messageDelta) →
      ∃ flowId enter inner close rest, last = inner ++ close :: rest ∧
        work.flowId = some flowId ∧ OpenLeaf flowId enter first ∧
        Closes (phaseOf enter) close := by
    rintro first work last rfl htype
    obtain ⟨flowId, enter, hflow, henter⟩ := haccepted.in_leaf htype
    obtain ⟨hmem, hin, hnone⟩ := mem_openPhases.mp henter.1
    obtain ⟨close, hclose, hcloses⟩ := hphases (phaseOf enter) enter (by simp [hmem]) ⟨hin.1, rfl⟩
    rcases mem_append.mp hclose with hclose | hclose
    · exact absurd hcloses (hnone close hclose)
    rcases mem_cons.mp hclose with rfl | hclose
    · rcases hcloses.1 with e | e <;> rcases htype with e' | e' <;> cases e.symm.trans e'
    · obtain ⟨inner, rest, rfl⟩ := append_of_mem hclose
      exact ⟨flowId, enter, inner, close, rest, rfl, hflow, henter, hcloses⟩
  refine ⟨fun flowId start hmem hstarts => ?_, hphases, ?_, ?_⟩
  · by_contra hnone
    have hactive := (tracks.active flowId).mpr
      ⟨⟨start, hmem, hstarts⟩, fun other hother hc => hnone ⟨other, hother, hc⟩⟩
    rw [hclosed.flows flowId] at hactive
    cases hactive
  · rintro first tool last rfl htype
    obtain ⟨_, _, inner, _, rest, rfl, hflow, henter, hcloses⟩ := hleaf _ _ _ rfl (.inl htype)
    exact exists_of_countP (haccepted.tool_ends_once hflow henter hcloses htype)
  · rintro first delta last rfl htype
    obtain ⟨_, _, inner, _, rest, rfl, hflow, henter, hcloses⟩ := hleaf _ _ _ rfl (.inr htype)
    exact exists_of_countP (haccepted.message_ends_once hflow henter hcloses htype)

end

end Watershed.FlowAgent
