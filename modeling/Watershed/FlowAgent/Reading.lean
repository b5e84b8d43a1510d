/-
  What a reader and a writer accept, as relations.

  A line that a reader accepts is the canonical text of an event that the state accepts; reading
  a text is accepting the events of its lines one after the other.
-/
import Watershed.FlowAgent.WellNested

namespace Watershed.FlowAgent

open Watershed.Proto SessionAppendValidationState
open Std (TreeMap TreeSet)

section
variable {L : Libraries} {path : String} {lineNumber canonicalBytes : Nat} {event : EventEnvelope}
  {state : SessionAppendValidationState} {events : List EventEnvelope}
  {after : SessionAppendValidationState} {line : String}

/-- The line is the canonical text of the event. -/
def Parses (L : Libraries) (line : String) (event : EventEnvelope) : Prop :=
  ∃ value, L.fromStr line = .ok value ∧ canonicalJson L value.1 = .ok line ∧
    EventEnvelope.fromValue L value = .ok event

theorem parseCanonicalEvent_eq_ok :
    parseCanonicalEvent L path lineNumber line = .ok event ↔ Parses L line event := by
  simp only [parseCanonicalEvent, bind_eq_ok, mapError_eq_ok, refuseIf_eq_ok, exists_const, not_not]
  constructor
  · rintro ⟨value, hvalue, canonical, hcanonical, rfl, hevent⟩
    exact ⟨value, hvalue, hcanonical, hevent⟩
  · rintro ⟨value, hvalue, hcanonical, hevent⟩
    exact ⟨value, hvalue, line, hcanonical, rfl, hevent⟩

theorem Parses.valid (h : Parses L line event) : event.validateV0 L = .ok () := by
  obtain ⟨value, -, -, hevent⟩ := h
  exact EventEnvelope.fromValue_valid L hevent

theorem validateEventSize_eq_ok :
    validateEventSize path lineNumber canonicalBytes = .ok () ↔
      canonicalBytes ≤ maxCanonicalEventBytes := by
  rw [validateEventSize, refuseIf_eq_ok, not_lt]

namespace SessionAppendValidationState

theorem validateBudget_eq_ok :
    state.validateBudget path lineNumber canonicalBytes = .ok () ↔ lineNumber ≤ maxFlowEvents ∧
      saturatingAdd state.streamBytes canonicalBytes ≤ maxSessionEventBytes := by
  rw [validateBudget, check_bind_eq_ok, refuseIf_eq_ok, refuseIf_eq_ok, not_lt, not_lt]

/-- A reader accepts a line exactly when it parses to an event that the state accepts. -/
theorem readLine_eq_ok {line : List Char} :
    state.readLine L path line = .ok (event, canonicalBytes) ↔
      line.getLast? ≠ some '\r' ∧ Parses L (String.ofList line) event ∧
        canonicalBytes = saturatingAdd (String.ofList line).utf8ByteSize 1 ∧
        Accepts L state event canonicalBytes := by
  rw [readLine, check_bind_eq_ok, check_bind_eq_ok, bind_eq_ok]
  simp only [check_bind_eq_ok, refuseIf_eq_ok, validateEventSize_eq_ok, parseCanonicalEvent_eq_ok,
    validateBudget_eq_ok, validateEvent_eq_ok, pure, Except.pure, Except.ok.injEq, Prod.mk.injEq]
  constructor
  · rintro ⟨hline, hsize, event, hparses, ⟨hlines, hbytes⟩, hadmits, rfl, rfl⟩
    exact ⟨hline, hparses, rfl, hparses.valid, hsize, hlines, hbytes, hadmits⟩
  · rintro ⟨hline, hparses, rfl, haccepts⟩
    exact ⟨hline, haccepts.size, event, hparses, ⟨haccepts.lines, haccepts.bytes⟩,
      haccepts.admits, rfl, rfl⟩

theorem checkConstructedEvent_eq_ok :
    checkConstructedEvent L path event canonicalBytes state = .ok () ↔
      Accepts L state event canonicalBytes := by
  simp only [checkConstructedEvent, check_bind_eq_ok, validateEventPayload, mapError_eq_ok,
    validateEventSize_eq_ok, validateBudget_eq_ok, validateEvent_eq_ok]
  exact ⟨fun h => ⟨h.1, h.2.1, h.2.2.1.1, h.2.2.1.2, h.2.2.2⟩,
    fun h => ⟨h.valid, h.size, ⟨h.lines, h.bytes⟩, h.admits⟩⟩

/-- A writer accepts an event exactly when the state accepts it. -/
theorem validateConstructedEvent_eq_ok :
    validateConstructedEvent L path event canonicalBytes state = (.ok (), after) ↔
      Accepts L state event canonicalBytes ∧
        after = state.recordEvent (state.lineCount + 1) event canonicalBytes := by
  rw [← checkConstructedEvent_eq_ok, validateConstructedEvent]
  cases hcheck : checkConstructedEvent L path event canonicalBytes state with
  | ok => simp [eq_comm]
  | error error => simp

end SessionAppendValidationState

/-! ## Runs -/

/-- The state accepts the events one after the other; each stands with its size. -/
inductive Runs (L : Libraries) :
    SessionAppendValidationState → List (EventEnvelope × Nat) → SessionAppendValidationState → Prop
  | nil (state : SessionAppendValidationState) : Runs L state [] state
  | cons {state after : SessionAppendValidationState} {event : EventEnvelope} {canonicalBytes : Nat}
      {steps : List (EventEnvelope × Nat)} : Accepts L state event canonicalBytes →
      Runs L (state.recordEvent (state.lineCount + 1) event canonicalBytes) steps after →
      Runs L state ((event, canonicalBytes) :: steps) after

theorem Runs.accepted {expectedSessionId : Option String} {steps : List (EventEnvelope × Nat)}
    (h : Runs L state steps after)
    (hbefore : Accepted L expectedSessionId events state) :
    Accepted L expectedSessionId (events ++ steps.map Prod.fst) after := by
  induction h generalizing events with
  | nil => simpa using hbefore
  | cons haccepts _ ih => simpa using ih (.snoc _ hbefore haccepts)

/-- The line holds the event, and its LF makes it `canonicalBytes` long. -/
structure Holds (L : Libraries) (line : List Char) (step : EventEnvelope × Nat) : Prop where
  lf : line.getLast? ≠ some '\r'
  parses : Parses L (String.ofList line) step.1
  bytes : step.2 = saturatingAdd (String.ofList line).utf8ByteSize 1

namespace SessionAppendValidationState

/-- Collects the events that are read. -/
def push (event : EventEnvelope) : Fallible RuntimeError (List EventEnvelope) Unit :=
  .change (· ++ [event])

variable {after : SessionAppendValidationState} {text : String}

/-- Reading lines is running the events that they hold. -/
theorem validateLines_push_eq_ok {lines : List (List Char)} {seen found : List EventEnvelope} :
    validateLines L path push lines (state, seen) = (.ok (), after, found) ↔
      ∃ steps, List.Forall₂ (Holds L) lines steps ∧ Runs L state steps after ∧
        found = seen ++ steps.map Prod.fst := by
  induction lines generalizing state seen with
  | nil =>
    constructor
    · intro h
      cases h
      exact ⟨[], .nil, .nil _, by simp⟩
    · rintro ⟨steps, hholds, hruns, rfl⟩
      cases hholds
      cases hruns
      simp [validateLines, pure]
  | cons line lines ih =>
    have hstep : validateLines L path push (line :: lines) (state, seen) = (.ok (), after, found) ↔
        ∃ event canonicalBytes, state.readLine L path line = .ok (event, canonicalBytes) ∧
          validateLines L path push lines (state.recordEvent (state.lineCount + 1) event
            canonicalBytes, seen ++ [event]) = (.ok (), after, found) := by
      simp only [validateLines, bind]
      cases state.readLine L path line with
      | ok step =>
        cases step
        simp [push, Fallible.zoom, Fallible.change]
      | error error => simp
    simp only [hstep, readLine_eq_ok, ih]
    constructor
    · rintro ⟨event, canonicalBytes, ⟨hlf, hparses, hbytes, haccepts⟩, steps, hholds, hruns, rfl⟩
      exact ⟨_, .cons ⟨hlf, hparses, hbytes⟩ hholds, .cons haccepts hruns, by simp⟩
    · rintro ⟨steps, hholds, hruns, rfl⟩
      cases hholds with
      | cons hline hholds =>
        cases hruns with
        | cons haccepts hruns =>
          exact ⟨_, _, ⟨hline.lf, hline.parses, hline.bytes, haccepts⟩, _, hholds, hruns, by simp⟩

/-- The lines of a text that ends with LF, or of the empty text. -/
def Lines (text : String) (lines : List (List Char)) : Prop := (text = "" ∧ lines = []) ∨
    (text.toList.getLast? = some '\n' ∧ lines = splitTerminator '\n' text.toList)

/-- A text is accepted exactly when its lines hold events that the state accepts one after the
    other. -/
theorem validateAppended_eq_ok :
    validateAppended L path text state = (.ok events, after) ↔
      ∃ lines steps, Lines text lines ∧ List.Forall₂ (Holds L) lines steps ∧
        Runs L state steps after ∧ events = steps.map Prod.fst := by
  have hpush : (fun event : EventEnvelope =>
    (Fallible.change (· ++ [event]) : Fallible RuntimeError (List EventEnvelope) Unit)) = push := rfl
  have hrun : validateAppended L path text state = (.ok events, after) ↔
      validateAppendedWith L path push text (state, []) = (.ok (), after, events) := by
    simp only [validateAppended, hpush]
    rcases validateAppendedWith L path push text (state, []) with ⟨_ | _, staged, found⟩ <;>
      simp [and_comm]
  have hlines : validateAppendedWith L path push text (state, []) = (.ok (), after, events) ↔
      ∃ lines, Lines text lines ∧ validateLines L path push lines (state, []) =
        (.ok (), after, events) := by
    rw [validateAppendedWith]
    split_ifs with hempty hlast
    · simp [Lines, hempty, validateLines]
    · simp [Lines, hempty, hlast, Fallible.fail]
    · simp [Lines, hempty, not_not.mp hlast]
  simp only [hrun, hlines, validateLines_push_eq_ok, List.nil_append]
  exact exists_congr fun lines => exists_and_left.symm

/-- A text that is refused leaves the state as it was. -/
theorem validateAppended_error {error : RuntimeError}
    (h : validateAppended L path text state = (.error error, after)) : after = state := by
  unfold validateAppended at h
  dsimp only at h
  split at h
  · cases h
  · cases h
    rfl

end SessionAppendValidationState

end

/-! ## Accepted texts -/

variable {events : List EventEnvelope} {L : Libraries}

/-- The events of an accepted text were accepted one after the other. -/
theorem accepted_of_validateProtocolJsonlText {path text : String}
    (h : validateProtocolJsonlText L path text = .ok events) :
    events ≠ [] ∧ ∃ state, Accepted L none events state := by
  rw [validateProtocolJsonlText, check_bind_eq_ok, check_bind_eq_ok, bind_eq_ok] at h
  obtain ⟨-, -, found, hfound, h⟩ := h
  rw [check_bind_eq_ok, refuseIf_eq_ok] at h
  obtain ⟨hne, heq⟩ := h
  obtain rfl : found = events := Except.ok.inj heq
  refine ⟨hne, ?_⟩
  have hread : validateAppended L path text unscoped = (.ok found, _) := Prod.ext hfound rfl
  obtain ⟨lines, steps, -, -, hruns, rfl⟩ := validateAppended_eq_ok.mp hread
  exact ⟨_, by simpa using hruns.accepted .new⟩

theorem Accepted.wellNested {expectedSessionId : Option String} {state : SessionAppendValidationState}
    (h : Accepted L expectedSessionId events state) (hne : events ≠ []) : WellNested events where
  sequences := h.records.sequences
  session := by
    refine ⟨state.streamSessionId.getD "", fun event hevent => ?_⟩
    rw [h.records.session event hevent, Option.getD_some]
  eventIds := h.records.idsOnce
  starts := h.sessionStarts hne
  ends before event after hsplit hterminal := by
    subst hsplit
    cases after with
    | nil => rfl
    | cons next after =>
      rw [List.append_cons] at h
      obtain ⟨middle, bytes, haccepted, haccepts⟩ := h.split
      have hnone := haccepted.records.ended.mp haccepts.admits.notEnded event (by simp)
      cases hterminal.symm.trans hnone
  carries := h.records.carries
  flowOnce := by
    rintro before event after flowId rfl hstarts
    exact h.flow_once hstarts
  flowScope := by
    rintro before event after flowId rfl hflow hstarts
    exact h.flow_scope hflow hstarts
  childStarts := by
    rintro before event after flowId parent rfl hstarts hparent
    exact h.child_starts hstarts hparent
  childEnds := by
    rintro before event after flowId parent rfl hends start hmem hstarts hparent
    exact h.child_ends hends hmem hstarts hparent
  entersOnce := by
    rintro before event after phase rfl henters
    exact Accepted.once (fun _ _ _ h henters => h.not_entered_before henters) h henters
  closesOnce := by
    rintro before event after phase rfl hcloses
    exact Accepted.once (fun _ _ _ h hcloses => h.not_closed_before (.inr hcloses)) h hcloses
  closesInnermost := by
    rintro before event after phase rfl hcloses
    exact h.closes_innermost hcloses
  leafIsLeaf := by
    rintro outer enter inner event after phase rfl henters hleaf htype hflow
    exact h.leaf_is_leaf henters hleaf htype hflow
  tools := by
    rintro before tool after rfl htype
    obtain ⟨flowId, enter, hflow, henter⟩ := h.in_leaf (.inl htype)
    refine ⟨flowId, enter, hflow, henter, ?_, ?_⟩
    · rintro middle close rest rfl hcloses
      exact h.tool_ends_once hflow henter hcloses htype
    · rintro middle rest rfl hopen
      rw [← List.cons_append, ← List.append_assoc] at h
      obtain ⟨_, haccepted⟩ := h.before
      exact (haccepted.tool_ended htype hflow henter.1 henter.2 hopen).le_one
  toolFailed := by
    rintro before event after flowId rfl htype hflow
    exact h.tool_failed htype hflow
  messages := by
    rintro before delta after rfl htype
    obtain ⟨flowId, enter, hflow, henter⟩ := h.in_leaf (.inr htype)
    refine ⟨flowId, enter, hflow, henter, ?_, ?_⟩
    · rintro middle close rest rfl hcloses
      exact h.message_ends_once hflow henter hcloses htype
    · rintro middle rest rfl -
      rw [← List.cons_append, ← List.append_assoc] at h
      obtain ⟨_, haccepted⟩ := h.before
      exact (haccepted.message_ended htype hflow).le_one
  nothingOpen := by
    rintro before event rfl hterminal
    exact h.nothing_open hterminal

end Watershed.FlowAgent
