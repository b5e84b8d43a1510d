/-
  A writer and a reader validate the same streams.

  The writer checks the events it has built, the reader checks the canonical lines, cut into
  appended texts in any way. Both run the same steps (`Runs`).
-/
import Watershed.Proto.Ascii
import Watershed.FlowAgent.Reading

namespace Watershed.FlowAgent

open Watershed.Proto List SessionAppendValidationState EventEnvelope

section
variable (L : Libraries) (path : String)

/-- The writer's check of events, each with the size of its canonical line. -/
def constructSized : List (EventEnvelope × Nat) →
    Fallible RuntimeError SessionAppendValidationState Unit
  | [] => pure ()
  | (event, canonicalBytes) :: steps => do
    validateConstructedEvent L path event canonicalBytes
    constructSized steps

/-- The events with the sizes of their lines. -/
def sized (steps : List (EventEnvelope × String)) : List (EventEnvelope × Nat) :=
  steps.map fun step => (step.1, step.2.utf8ByteSize)

/-- The writer's check of events, each with its canonical line. -/
def constructAll (steps : List (EventEnvelope × String)) :
    Fallible RuntimeError SessionAppendValidationState Unit :=
  constructSized L path (sized steps)

/-- The reader's check of appended texts, with the events found in each. -/
def appendAll : List String →
    Fallible RuntimeError SessionAppendValidationState (List (List EventEnvelope))
  | [] => pure []
  | text :: texts => do
    let events ← validateAppended L path text
    let rest ← appendAll texts
    return events :: rest

end

variable {L : Libraries} {path : String} {state after : SessionAppendValidationState}

/-! ## Runs -/

theorem Runs.append_iff {first last : List (EventEnvelope × Nat)} :
    Runs L state (first ++ last) after ↔
      ∃ middle, Runs L state first middle ∧ Runs L middle last after := by
  induction first generalizing state with
  | nil =>
    refine ⟨fun h => ⟨state, .nil _, h⟩, ?_⟩
    rintro ⟨middle, hfirst, hlast⟩
    cases hfirst
    exact hlast
  | cons step first ih =>
    constructor
    · intro h
      cases h with
      | cons haccepts h =>
        obtain ⟨middle, hfirst, hlast⟩ := ih.mp h
        exact ⟨middle, .cons haccepts hfirst, hlast⟩
    · rintro ⟨middle, hfirst, hlast⟩
      cases hfirst with
      | cons haccepts hfirst => exact .cons haccepts (ih.mpr ⟨middle, hfirst, hlast⟩)

variable {event : EventEnvelope} {bytes : Nat} {steps : List (EventEnvelope × Nat)} {text : String}

/-- A size that saturates is over the limit, so saturation makes no difference. -/
theorem accepts_saturated :
    Accepts L state event (saturatingAdd bytes 1) ↔ Accepts L state event (bytes + 1) := by
  by_cases hsmall : bytes + 1 ≤ maxCanonicalEventBytes
  · have heq : saturatingAdd bytes 1 = bytes + 1 := by
      unfold saturatingAdd
      unfold maxCanonicalEventBytes at hsmall
      omega
    rw [heq]
  · constructor
    · intro h
      have hsize := h.size
      unfold saturatingAdd maxCanonicalEventBytes at *
      omega
    · exact fun h => absurd h.size hsmall

theorem Runs.cons_iff :
    Runs L state ((event, bytes) :: steps) after ↔ Accepts L state event bytes ∧
      Runs L (state.recordEvent (state.lineCount + 1) event bytes) steps after := by
  refine ⟨fun h => ?_, fun h => .cons h.1 h.2⟩
  cases h with
  | cons haccepts hruns => exact ⟨haccepts, hruns⟩

theorem constructSized_eq_ok :
    constructSized L path steps state = (.ok (), after) ↔ Runs L state steps after := by
  induction steps generalizing state with
  | nil =>
    constructor
    · intro h
      cases h
      exact .nil _
    · intro h
      cases h
      rfl
  | cons step steps ih =>
    obtain ⟨event, canonicalBytes⟩ := step
    rw [constructSized, Fallible.bind_apply_eq_ok, Runs.cons_iff]
    constructor
    · rintro ⟨_, next, hcheck, hrest⟩
      obtain ⟨haccepts, rfl⟩ := validateConstructedEvent_eq_ok.mp hcheck
      exact ⟨haccepts, ih.mp hrest⟩
    · rintro ⟨haccepts, hruns⟩
      exact ⟨(), _, validateConstructedEvent_eq_ok.mpr ⟨haccepts, rfl⟩, ih.mpr hruns⟩

/-! ## Lines of normal events -/

/-- A normal event with its line. -/
def Lined (L : Libraries) (step : EventEnvelope × String) : Prop :=
  step.1.canonicalJsonl L = .ok step.2 ∧ step.1.IsNormal L

/-- The line of a normal event, without its LF. -/
structure Written (L : Libraries) (step : EventEnvelope × String) (text : String) : Prop where
  line : step.1.canonicalJsonl L = .ok (text ++ "\n")
  text_eq : step.2 = text ++ "\n"
  normal : step.1.IsNormal L

variable {piece : List (EventEnvelope × String)} {texts : List String}
    {step : EventEnvelope × String}

theorem exists_written (h : Lined L step) : ∃ text, Written L step text := by
  obtain ⟨-, -, -, text, -, htext⟩ := canonicalJsonl_eq_ok.mp h.1
  exact ⟨text, htext ▸ h.1, htext.symm, h.2⟩

/-- The line of a normal event is held by exactly that event. -/
theorem holds_iff (hwritten : Written L step text) (found : EventEnvelope × Nat) :
    Holds L text.toList found ↔ found = (step.1, saturatingAdd text.utf8ByteSize 1) := by
  obtain ⟨-, -, hvalid, hcanonical⟩ := canonicalJsonl_line hwritten.line
  obtain ⟨value, hvalue, hsame, hdecoded⟩ := decode_canonicalJsonl hwritten.normal hwritten.line
  constructor
  · rintro ⟨-, ⟨value', hvalue', -, hdecoded'⟩, hbytes⟩
    rw [String.ofList_toList] at hvalue' hbytes
    obtain rfl := Except.ok.inj (hvalue.symm.trans hvalue')
    exact Prod.ext (Except.ok.inj (hdecoded'.symm.trans hdecoded)) hbytes
  · rintro rfl
    refine ⟨fun hcr => ?_, ?_, by rw [String.ofList_toList]⟩
    · have hplain := plain_canonicalJsonl hwritten.normal hcanonical hvalid
      exact absurd (hplain _ (mem_of_getLast? hcr)) (by decide)
    · rw [String.ofList_toList]
      exact ⟨value, hvalue, hsame, hdecoded⟩

theorem written_no_lf (hwritten : Written L step text) : '\n' ∉ text.toList := by
  obtain ⟨-, -, hvalid, hcanonical⟩ := canonicalJsonl_line hwritten.line
  intro hlf
  exact absurd (plain_canonicalJsonl hwritten.normal hcanonical hvalid _ hlf) (by decide)

/-- The steps that the lines hold, with the sizes that the reader gives. -/
def heldSteps (piece : List (EventEnvelope × String)) (texts : List String) :
    List (EventEnvelope × Nat) :=
  List.zipWith (fun step text => (step.1, saturatingAdd text.utf8ByteSize 1)) piece texts

variable (hwritten : List.Forall₂ (Written L) piece texts)
include hwritten

theorem forall₂_holds_iff (steps : List (EventEnvelope × Nat)) :
    List.Forall₂ (Holds L) (texts.map String.toList) steps ↔ steps = heldSteps piece texts := by
  induction hwritten generalizing steps with
  | nil => simp [heldSteps]
  | @cons step text piece texts hline _ ih =>
    rw [map_cons, heldSteps, zipWith_cons_cons, forall₂_cons_left_iff]
    constructor
    · rintro ⟨found, steps, hholds, hsteps, rfl⟩
      rw [(holds_iff hline found).mp hholds, (ih steps).mp hsteps]
      rfl
    · rintro rfl
      exact ⟨_, _, (holds_iff hline _).mpr rfl, (ih _).mpr rfl, rfl⟩

/-- The reader's sizes and the writer's sizes give the same runs. -/
theorem runs_heldSteps_iff :
    Runs L state (heldSteps piece texts) after ↔ Runs L state (sized piece) after := by
  induction hwritten generalizing state with
  | nil => rfl
  | @cons step text piece texts hline _ ih =>
    have hsize : step.2.utf8ByteSize = text.utf8ByteSize + 1 := by
      rw [hline.text_eq, String.utf8ByteSize_append]
      rfl
    rw [heldSteps, zipWith_cons_cons, sized, map_cons, Runs.cons_iff, Runs.cons_iff,
      accepts_saturated, hsize]
    refine and_congr_right fun haccepts => ?_
    have hsaturated : saturatingAdd text.utf8ByteSize 1 = text.utf8ByteSize + 1 := by
      have hle := haccepts.size
      unfold maxCanonicalEventBytes at hle
      unfold saturatingAdd
      omega
    rw [hsaturated]
    exact ih

theorem toList_join_written :
    (String.join (piece.map Prod.snd)).toList = terminated '\n' (texts.map String.toList) := by
  rw [String.toList_join]
  induction hwritten with
  | nil => rfl
  | @cons step text piece texts hline _ ih =>
    rw [map_cons, flatMap_cons, ih, hline.text_eq]
    simp [terminated]

theorem written_lines : ∀ line ∈ texts.map String.toList, '\n' ∉ line := by
  induction hwritten with
  | nil => simp
  | @cons step text piece texts hline _ ih =>
    rw [map_cons, forall_mem_cons]
    exact ⟨written_no_lf hline, ih⟩

/-- The lines of a piece are the lines of its events. -/
theorem lines_join_iff (lines : List (List Char)) :
    SessionAppendValidationState.Lines (String.join (piece.map Prod.snd)) lines ↔
      lines = texts.map String.toList := by
  have hjoin := toList_join_written hwritten
  have hsplit := splitTerminator_terminated (written_lines hwritten)
  rw [SessionAppendValidationState.Lines, hjoin, hsplit]
  cases hwritten with
  | nil => simp [terminated]
  | @cons step text piece texts hline _ =>
    have hlast : (terminated '\n' ((text :: texts).map String.toList)).getLast? = some '\n' :=
      getLast?_terminated (by simp)
    have hne : String.join ((step :: piece).map Prod.snd) ≠ "" := by
      intro hempty
      rw [hempty] at hjoin
      rw [← hjoin] at hlast
      simp at hlast
    simp only [hne, hlast, false_and, true_and, false_or]


omit hwritten
/-! ## Agreement -/

/-- The reader accepts a piece exactly when the writer accepts its events, and finds them. -/
theorem validateAppended_join (hlines : ∀ step ∈ piece, Lined L step)
    {events : List EventEnvelope} :
    validateAppended L path (String.join (piece.map Prod.snd)) state = (.ok events, after) ↔
      Runs L state (sized piece) after ∧ events = piece.map Prod.fst := by
  obtain ⟨texts, hwritten⟩ : ∃ texts, List.Forall₂ (Written L) piece texts := by
    induction piece with
    | nil => exact ⟨[], .nil⟩
    | cons step piece ih =>
      obtain ⟨text, htext⟩ := exists_written (hlines step mem_cons_self)
      obtain ⟨texts, htexts⟩ := ih (forall_mem_cons.mp hlines).2
      exact ⟨text :: texts, .cons htext htexts⟩
  have hevents : (heldSteps piece texts).map Prod.fst = piece.map Prod.fst := by
    clear hlines
    induction hwritten with
    | nil => rfl
    | cons _ _ ih => rw [heldSteps, zipWith_cons_cons, map_cons, map_cons, ← ih, heldSteps]
  rw [validateAppended_eq_ok, ← runs_heldSteps_iff hwritten, ← hevents]
  constructor
  · rintro ⟨lines, steps, hsplit, hholds, hruns, rfl⟩
    obtain rfl := (lines_join_iff hwritten lines).mp hsplit
    obtain rfl := (forall₂_holds_iff hwritten steps).mp hholds
    exact ⟨hruns, rfl⟩
  · rintro ⟨hruns, rfl⟩
    exact ⟨_, _, (lines_join_iff hwritten _).mpr rfl, (forall₂_holds_iff hwritten _).mpr rfl,
      hruns, rfl⟩

theorem appendAll_eq_ok {pieces : List (List (EventEnvelope × String))}
    (hlines : ∀ piece ∈ pieces, ∀ step ∈ piece, Lined L step)
    {found : List (List EventEnvelope)} :
    appendAll L path (pieces.map fun piece => String.join (piece.map Prod.snd)) state =
        (.ok found, after) ↔
      Runs L state (sized pieces.flatten) after ∧ found = pieces.map (·.map Prod.fst) := by
  induction pieces generalizing state after found with
  | nil =>
    constructor
    · intro h
      cases h
      exact ⟨.nil _, rfl⟩
    · rintro ⟨hruns, rfl⟩
      cases hruns
      rfl
  | cons piece pieces ih =>
    have hrest := fun state last found => @ih state last (forall_mem_cons.mp hlines).2 found
    have hpiece := fun events middle => @validateAppended_join L path state middle piece
      (hlines piece mem_cons_self) events
    have hsized : sized (piece :: pieces).flatten = sized piece ++ sized pieces.flatten := by
      simp [sized]
    rw [map_cons, appendAll, Fallible.bind_apply_eq_ok, hsized, Runs.append_iff]
    simp only [Fallible.bind_apply_eq_ok, hpiece, hrest, map_cons]
    constructor
    · rintro ⟨events, middle, ⟨hfirst, rfl⟩, rest, last, ⟨hlast, rfl⟩, hpure⟩
      cases hpure
      exact ⟨⟨middle, hfirst, hlast⟩, rfl⟩
    · rintro ⟨⟨middle, hfirst, hlast⟩, rfl⟩
      exact ⟨_, middle, ⟨hfirst, rfl⟩, _, after, ⟨hlast, rfl⟩, rfl⟩

/-! ## A session -/

/-- A session with one flow, one leaf Phase and one tool. -/
def sampleSession : List EventEnvelope :=
  let event (sequence : UInt64) (eventId : String) (eventType : EventType) (flowId : Option String)
      (payload : SortedValue) : EventEnvelope :=
    { additionalFields := ⟨[], rfl⟩, correlationId := none, eventId := eventId,
      eventType := eventType, flowId := flowId, parentFlowId := none, payload := payload,
      protocolVersion := "0", sequence := sequence, sessionId := "s1", source := "cli",
      timestamp := "2026-01-01T00:00:00Z" }
  [event 1 "a" .sessionStarted none ⟨.object [], rfl⟩, event 2 "b" .flowStarted (some "f")
      ⟨.object [("flow_definition_id", .string "review")], by decide +kernel⟩,
    event 3 "c" .phaseEntered (some "f")
      ⟨.object [("instruction_ids", .array []), ("iteration", .number (.ofU64 1)),
        ("phase_execution_id", .string "x"), ("phase_id", .string "p"),
        ("phase_kind", .string "leaf"), ("phase_name", .string "P"), ("tool_ids", .array [])],
        by decide +kernel⟩,
    event 4 "d" .toolStarted (some "f")
      ⟨.object [("allowed_parameters", .array []), ("tool_id", .string "t"),
        ("tool_kind", .string "own-script"), ("tool_name", .string "T")], by decide +kernel⟩,
    event 5 "e" .toolCompleted (some "f") ⟨.object [("tool_id", .string "t")], by decide +kernel⟩,
    event 6 "f" .phaseFailed (some "f")
      ⟨.object [("error", .string "stop"), ("iteration", .number (.ofU64 1)),
        ("phase_execution_id", .string "x"), ("phase_id", .string "p")], by decide +kernel⟩,
    event 7 "g" .flowFailed (some "f")
      ⟨.object [("error", .string "stop"), ("flow_definition_id", .string "review")],
        by decide +kernel⟩,
    event 8 "h" .sessionCompleted none ⟨.object [], rfl⟩]

/-- The events of the session with their lines. -/
def sampleSteps : List (EventEnvelope × String) :=
  sampleSession.map fun event => (event, event.asciiLine)

theorem sampleSession_valid : ∀ event ∈ sampleSession, event.validateV0 asciiLibraries = .ok () ∧
    event.payload.1.isObject = true ∧ event.protocolVersion = protocolVersionV0 ∧
    jsonNestingReachesLimit event.serializeFields 0 = false ∧ Integral event.payload.1 := by
  have hall : (sampleSession.all fun event => event.validateV0 asciiLibraries = .ok () &&
      event.payload.1.isObject && event.protocolVersion = protocolVersionV0 &&
      !jsonNestingReachesLimit event.serializeFields 0 &&
      event.payload.1.numbersAll Number.isInteger) = true := by
    decide +kernel
  intro event hevent
  simpa only [Bool.and_eq_true, decide_eq_true_eq, Bool.not_eq_true', and_assoc, Integral] using
    all_eq_true.mp hall event hevent

theorem sampleSteps_lines : ∀ step ∈ sampleSteps, Lined asciiLibraries step := by
  intro step hstep
  obtain ⟨event, hevent, rfl⟩ := mem_map.mp hstep
  obtain ⟨hvalid, hobject, hversion, hnesting, hintegral⟩ := sampleSession_valid event hevent
  have hadditional : event.additionalFields.1 = [] := by
    simp only [sampleSession, mem_cons, not_mem_nil, or_false] at hevent
    rcases hevent with rfl | rfl | rfl | rfl | rfl | rfl | rfl | rfl <;> rfl
  refine ⟨canonicalJsonl_ascii hvalid hobject hversion hnesting, ?_⟩
  exact isNormal_ascii hintegral (by rw [hadditional]; rfl)

/-- The sizes of the lines. -/
def sampleSizes : List Nat := [165, 205, 302, 254, 191, 244, 219, 167]

theorem sized_sampleSteps : sized sampleSteps = sampleSession.zip sampleSizes := by
  have hsizes : sampleSession.map (fun event => String.utf8Len event.asciiText + 1) = sampleSizes := by
    decide +kernel
  have hzip := zip_map' (f := id) (g := fun event => String.utf8Len event.asciiText + 1)
    (l := sampleSession)
  rw [map_id, hsizes] at hzip
  simp only [sized, sampleSteps, map_map, Function.comp_def, utf8ByteSize_asciiLine]
  exact hzip.symm

theorem constructAll_sampleSteps : ∃ after,
    constructAll asciiLibraries "events.jsonl" sampleSteps .unscoped = (.ok (), after) := by
  rw [constructAll, sized_sampleSteps]
  exact Fallible.exists_of_ok (by decide +kernel)

/-! ## Results -/

theorem utf8ByteSize_join (texts : List String) :
    (String.join texts).utf8ByteSize = (texts.map String.utf8ByteSize).sum := by
  induction texts with
  | nil => rfl
  | cons text texts ih => rw [String.join_cons, String.utf8ByteSize_append, ih, map_cons, sum_cons]

theorem validateProtocolJsonlText_join
    (hlines : ∀ step ∈ piece, Lined L step) (hne : piece ≠ [])
    (hsize : ((sized piece).map Prod.snd).sum ≤ maxSessionEventBytes)
    (hruns : Runs L .unscoped (sized piece) after) :
    validateProtocolJsonlText L path (String.join (piece.map Prod.snd)) =
      .ok (piece.map Prod.fst) := by
  rw [validateProtocolJsonlText, check_bind_eq_ok, refuseIf_eq_ok, check_bind_eq_ok,
    refuseIf_eq_ok, (validateAppended_join hlines).mpr ⟨hruns, rfl⟩]
  refine ⟨not_lt.mpr ?_, not_not.mpr ?_, ?_⟩
  · rw [utf8ByteSize_join]
    simpa [sized, Function.comp_def] using hsize
  · obtain ⟨first, last, rfl⟩ := eq_nil_or_concat piece |>.resolve_left hne
    obtain ⟨text, -, htext, -⟩ := exists_written (hlines last (by simp))
    rw [String.toList_join, concat_eq_append, map_append, flatMap_append,
      map_singleton, flatMap_singleton, htext, String.toList_append, ← append_assoc]
    exact List.getLast?_concat
  · rw [bind_eq_ok]
    refine ⟨_, rfl, ?_⟩
    rw [check_bind_eq_ok, refuseIf_eq_ok]
    exact ⟨by simpa using hne, rfl⟩

/-- Every text that the validator accepts holds a well-nested stream of events. -/
theorem accepted_text_wellNested {L : Libraries} {path text : String} {events : List EventEnvelope}
    (h : validateProtocolJsonlText L path text = .ok events) : WellNested events := by
  obtain ⟨hne, state, haccepted⟩ := accepted_of_validateProtocolJsonlText h
  exact haccepted.wellNested hne

/-- The text of the session is accepted and well nested. -/
theorem accepted_text_wellNested_sample :
    validateProtocolJsonlText asciiLibraries "events.jsonl" (String.join (sampleSteps.map Prod.snd)) =
      .ok sampleSession ∧ WellNested sampleSession := by
  obtain ⟨after, hafter⟩ := constructAll_sampleSteps
  have hsize : ((sized sampleSteps).map Prod.snd).sum ≤ maxSessionEventBytes := by
    rw [sized_sampleSteps]
    decide +kernel
  have hevents : sampleSteps.map Prod.fst = sampleSession := by
    simp [sampleSteps, Function.comp_def]
  rw [← hevents]
  suffices haccepted : _ from ⟨haccepted, accepted_text_wellNested haccepted⟩
  exact validateProtocolJsonlText_join sampleSteps_lines (by simp [sampleSteps, sampleSession])
    hsize (constructSized_eq_ok.mp hafter)

/-- For normal events and every way of cutting their canonical lines into appended texts, the
    writer and the reader accept the same streams with the same state, and the reader finds the
    events of each text. A text that is refused leaves the state as it was. -/
theorem writer_reader_agree (L : Libraries) (path : String) (state : SessionAppendValidationState)
    (pieces : List (List (EventEnvelope × String)))
    (hlines : ∀ piece ∈ pieces, ∀ step ∈ piece, step.1.canonicalJsonl L = .ok step.2)
    (hnormal : ∀ piece ∈ pieces, ∀ step ∈ piece, step.1.IsNormal L) :
    (∀ after, constructAll L path pieces.flatten state = (.ok (), after) ↔
      ∃ found, appendAll L path (pieces.map fun piece => String.join (piece.map Prod.snd)) state =
        (.ok found, after)) ∧
    (∀ found after,
      appendAll L path (pieces.map fun piece => String.join (piece.map Prod.snd)) state =
        (.ok found, after) → found = pieces.map (·.map Prod.fst)) ∧
    ∀ text before error after, validateAppended L path text before = (.error error, after) →
        after = before := by
  have hlined : ∀ piece ∈ pieces, ∀ step ∈ piece, Lined L step := fun piece hpiece step hstep =>
    ⟨hlines piece hpiece step hstep, hnormal piece hpiece step hstep⟩
  refine ⟨fun after => ?_, fun found after h => ?_, fun text before error after h => ?_⟩
  · rw [constructAll, constructSized_eq_ok]
    constructor
    · intro hruns
      exact ⟨_, (appendAll_eq_ok hlined).mpr ⟨hruns, rfl⟩⟩
    · rintro ⟨found, h⟩
      exact ((appendAll_eq_ok hlined).mp h).1
  · exact ((appendAll_eq_ok hlined).mp h).2
  · exact validateAppended_error h

/-- The session, cut into two texts, is accepted by the reader as by the writer. -/
theorem writer_reader_agree_sample : ∃ after found,
    constructAll asciiLibraries "events.jsonl" sampleSteps .unscoped = (.ok (), after) ∧
      appendAll asciiLibraries "events.jsonl"
        ([sampleSteps.take 3, sampleSteps.drop 3].map fun piece => String.join (piece.map Prod.snd))
        .unscoped = (.ok found, after) ∧
      found = [sampleSteps.take 3, sampleSteps.drop 3].map (·.map Prod.fst) := by
  have hpieces : ∀ piece ∈ [sampleSteps.take 3, sampleSteps.drop 3], ∀ step ∈ piece,
      Lined asciiLibraries step := by
    simp only [mem_cons, not_mem_nil, or_false, forall_eq_or_imp, forall_eq]
    exact ⟨fun step hstep => sampleSteps_lines step (mem_of_mem_take hstep),
      fun step hstep => sampleSteps_lines step (mem_of_mem_drop hstep)⟩
  obtain ⟨hsame, hfound, -⟩ := writer_reader_agree asciiLibraries "events.jsonl" .unscoped
    [sampleSteps.take 3, sampleSteps.drop 3]
    (fun piece h step hstep => (hpieces piece h step hstep).1)
    (fun piece h step hstep => (hpieces piece h step hstep).2)
  obtain ⟨after, hafter⟩ := constructAll_sampleSteps
  have hflatten : [sampleSteps.take 3, sampleSteps.drop 3].flatten = sampleSteps := by simp
  rw [hflatten] at hsame
  obtain ⟨found, happended⟩ := (hsame after).mp hafter
  exact ⟨after, found, hafter, happended, hfound found after happended⟩

/-- A writer that stops after any event leaves a valid log, and from the state that reading it
    gives, writer and reader go on to the same end. -/
theorem cut_log_resumes {before rest : List (EventEnvelope × String)}
    (hlines : ∀ step ∈ before ++ rest, step.1.canonicalJsonl L = .ok step.2)
    (hnormal : ∀ step ∈ before ++ rest, step.1.IsNormal L) (hne : before ≠ [])
    (hsize : ((sized (before ++ rest)).map Prod.snd).sum ≤ maxSessionEventBytes)
    (hwrote : constructAll L path (before ++ rest) .unscoped = (.ok (), after)) :
    validateProtocolJsonlText L path (String.join (before.map Prod.snd)) =
      .ok (before.map Prod.fst) ∧
    ∃ middle, validateAppended L path (String.join (before.map Prod.snd)) .unscoped =
        (.ok (before.map Prod.fst), middle) ∧
      constructAll L path rest middle = (.ok (), after) ∧
      validateAppended L path (String.join (rest.map Prod.snd)) middle =
        (.ok (rest.map Prod.fst), after) := by
  have hlined : ∀ step ∈ before ++ rest, Lined L step := fun step h =>
    ⟨hlines step h, hnormal step h⟩
  obtain ⟨hbefore, hrest⟩ := forall_mem_append.mp hlined
  have hruns := constructSized_eq_ok.mp hwrote
  rw [sized, map_append] at hruns hsize
  obtain ⟨middle, hfirst, hlast⟩ := Runs.append_iff.mp hruns
  rw [map_append, sum_append] at hsize
  exact ⟨validateProtocolJsonlText_join hbefore hne (le_of_add_le_left hsize) hfirst,
    middle, (validateAppended_join hbefore).mpr ⟨hfirst, rfl⟩,
    constructSized_eq_ok.mpr hlast, (validateAppended_join hrest).mpr ⟨hlast, rfl⟩⟩

/-- The session, stopped inside its Phase. -/
theorem cut_log_resumes_sample : ∃ middle after,
    validateProtocolJsonlText asciiLibraries "events.jsonl"
      (String.join ((sampleSteps.take 3).map Prod.snd)) = .ok ((sampleSteps.take 3).map Prod.fst) ∧
    constructAll asciiLibraries "events.jsonl" (sampleSteps.drop 3) middle = (.ok (), after) ∧
    validateAppended asciiLibraries "events.jsonl" (String.join ((sampleSteps.drop 3).map Prod.snd))
      middle = (.ok ((sampleSteps.drop 3).map Prod.fst), after) := by
  obtain ⟨after, hafter⟩ := constructAll_sampleSteps
  have hsize : ((sized sampleSteps).map Prod.snd).sum ≤ maxSessionEventBytes := by
    rw [sized_sampleSteps]
    decide +kernel
  have hlines := sampleSteps_lines
  rw [← take_append_drop 3 sampleSteps] at hafter hsize hlines
  obtain ⟨hread, middle, -, hwrote, happended⟩ := cut_log_resumes (fun step h => (hlines step h).1)
    (fun step h => (hlines step h).2) (by simp [sampleSteps, sampleSession]) hsize hafter
  exact ⟨middle, after, hread, hwrote, happended⟩

end Watershed.FlowAgent
