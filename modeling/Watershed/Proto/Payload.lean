/-
  The payload contracts of the event types (`event/payload.rs`).
-/
import Watershed.Lib.Fallible
import Watershed.Proto.FlowValue

namespace Watershed.Proto

/-- Canonical v0 Phase payload kinds. -/
inductive PhaseKind where
  /-- A Phase that directly executes Instructions or Tools. -/
  | leaf
  /-- A Phase that invokes child Phases. -/
  | composite
  deriving DecidableEq

namespace PhaseKind

def all : List PhaseKind := [.leaf, .composite]

def asStr : PhaseKind → String
  | .leaf => "leaf"
  | .composite => "composite"

def tryFrom (value : String) : Option PhaseKind := all.find? fun kind => kind.asStr = value

end PhaseKind

/-- Canonical v0 `tool.started` Tool kinds. -/
inductive ToolKind where
  | predefinedCommand
  | ownScript
  deriving DecidableEq

namespace ToolKind

def all : List ToolKind := [.predefinedCommand, .ownScript]

def asStr : ToolKind → String
  | .predefinedCommand => "predefined-command"
  | .ownScript => "own-script"

def tryFrom (value : String) : Option ToolKind := all.find? fun kind => kind.asStr = value

end ToolKind

/-! ## Fields -/

namespace Payload

section
variable (payload : Value)

/-- The refusal of a payload field. -/
def error {α : Type} (field requirement : String) : Except EventValidationError α :=
  .error ⟨"payload." ++ field, requirement⟩

variable (field : String)

def requireString : Except EventValidationError String :=
  match (payload.get field).bind Json.asStr with
  | some value => if value ≠ "" then .ok value else error field "must be a non-empty string"
  | none => error field "must be a non-empty string"

def optionalString : Except EventValidationError Unit :=
  if (payload.get field).isSome then (requireString payload field).map fun _ => ()
  else .ok ()

def requirePhaseKind : Except EventValidationError Unit := do
  let kind ← requireString payload "phase_kind"
  if (PhaseKind.tryFrom kind).isSome then .ok ()
  else error "phase_kind" "must be leaf or composite"

def optionalPhaseKind : Except EventValidationError Unit :=
  if (payload.get "phase_kind").isSome then requirePhaseKind payload else .ok ()

def requireRole : Except EventValidationError Unit := do
  let role ← requireString payload "role"
  if role ∈ ["system", "user", "assistant", "tool"] then .ok ()
  else error "role" "must be system, user, assistant, or tool"

def requireStringArray : Except EventValidationError Unit :=
  match payload.get field with
  | some (.array values) =>
    if values.all fun value => value.asStr.isSome then .ok ()
    else error field "must contain only strings"
  | _ => error field "must be a string array"

def optionalInteger : Except EventValidationError Unit :=
  match payload.get field with
  | none => .ok ()
  | some (.number number) =>
    if number.asI64.isSome ∨ number.asU64.isSome then .ok ()
    else error field "must be an integer"
  | some _ => error field "must be an integer"

def requirePositiveInteger : Except EventValidationError Unit :=
  match payload.get field with
  | some (.number number) =>
    if number.asU64.any fun value => 0 < value then .ok ()
    else error field "must be a positive integer"
  | _ => error field "must be a positive integer"

def requireNumber : Except EventValidationError Unit :=
  match payload.get field with
  | some (.number _) => .ok ()
  | _ => error field "must be a number"

def optionalObject : Except EventValidationError Unit :=
  if (payload.get field).any fun value => !value.isObject then error field "must be an object"
  else .ok ()

def requireFlowValue (L : Libraries) (field : String) : Except EventValidationError Unit :=
  match payload.get field with
  | some value =>
    match validateFlowValueV0 L value with
    | .ok _ => .ok ()
    | .error _ => error field "must be a bounded flow-value-v0"
  | none => error field "must be a bounded flow-value-v0"

/-- The first field that `tool.started` does not know. -/
def unknownToolField : Option String :=
  match payload with
  | .object fields => (fields.map Prod.fst).find? fun field =>
    field ∉ ["tool_id", "tool_kind", "tool_name", "allowed_parameters", "attempt_id"]
  | _ => none

end

/-! ## Contracts -/

/-- Checks the payload of an event of type `eventType`. -/
def validate (L : Libraries) (eventType : EventType) (payload : Value) :
    Except EventValidationError Unit :=
  match eventType with
  | .sessionStarted | .sessionPaused | .sessionResumed | .sessionCompleted =>
    optionalString payload "reason"
  | .sessionFailed => do
    let _ ← requireString payload "reason"
  | .flowStarted | .flowCompleted => do
    let _ ← requireString payload "flow_definition_id"
    optionalString payload "flow_name"
  | .flowFailed => do
    let _ ← requireString payload "flow_definition_id"
    optionalString payload "flow_name"
    let _ ← requireString payload "error"
  | .phaseEntered => do
    let _ ← requireString payload "phase_id"
    let _ ← requireString payload "phase_name"
    let _ ← requireString payload "phase_execution_id"
    requirePhaseKind payload
    requirePositiveInteger payload "iteration"
    requireStringArray payload "instruction_ids"
    requireStringArray payload "tool_ids"
  | .phaseCompleted => do
    let _ ← requireString payload "phase_execution_id"
    let _ ← requireString payload "phase_id"
    optionalPhaseKind payload
    requirePositiveInteger payload "iteration"
    requireFlowValue payload L "result"
  | .phaseFailed => do
    let _ ← requireString payload "phase_execution_id"
    let _ ← requireString payload "phase_id"
    optionalPhaseKind payload
    requirePositiveInteger payload "iteration"
    let _ ← requireString payload "error"
  | .messageDelta => do
    let _ ← requireString payload "message_id"
    requireRole payload
    let _ ← requireString payload "content_delta"
  | .messageCompleted => do
    let _ ← requireString payload "message_id"
    requireRole payload
  | .toolStarted =>
    match unknownToolField payload with
    | some field => error field "unknown Tool invocation metadata field"
    | none => do
      optionalString payload "attempt_id"
      let _ ← requireString payload "tool_id"
      let _ ← requireString payload "tool_name"
      let kind ← requireString payload "tool_kind"
      if (ToolKind.tryFrom kind).isNone then
        error "tool_kind" "must be predefined-command or own-script"
      else requireStringArray payload "allowed_parameters"
  | .toolProgress => do
    optionalString payload "attempt_id"
    let _ ← requireString payload "tool_id"
    let _ ← requireString payload "message"
  | .toolCompleted => do
    optionalString payload "attempt_id"
    let _ ← requireString payload "tool_id"
    optionalInteger payload "exit_code"
  | .toolFailed | .toolTimedOut => do
    optionalString payload "attempt_id"
    let _ ← requireString payload "tool_id"
    let _ ← requireString payload "error"
  | .artifactLogged => do
    let _ ← requireString payload "artifact_id"
    let _ ← requireString payload "artifact_type"
    let _ ← requireString payload "uri"
  | .attentionRequested => do
    let _ ← requireString payload "request_id"
    let _ ← requireString payload "reason"
  | .metricSample => do
    let _ ← requireString payload "metric_name"
    requireNumber payload "value"
  | .error => do
    let _ ← requireString payload "code"
    let _ ← requireString payload "message"
    optionalObject payload "data"

/-- The string fields that every payload of the type has. -/
def requiredStrings : EventType → List String
  | .sessionFailed => ["reason"]
  | .flowStarted | .flowCompleted => ["flow_definition_id"]
  | .flowFailed => ["flow_definition_id", "error"]
  | .phaseEntered => ["phase_id", "phase_name", "phase_execution_id", "phase_kind"]
  | .phaseCompleted => ["phase_execution_id", "phase_id"]
  | .phaseFailed => ["phase_execution_id", "phase_id", "error"]
  | .messageDelta => ["message_id", "role", "content_delta"]
  | .messageCompleted => ["message_id", "role"]
  | .toolStarted => ["tool_id", "tool_name", "tool_kind"]
  | .toolProgress => ["tool_id", "message"]
  | .toolCompleted => ["tool_id"]
  | .toolFailed | .toolTimedOut => ["tool_id", "error"]
  | .artifactLogged => ["artifact_id", "artifact_type", "uri"]
  | .attentionRequested => ["request_id", "reason"]
  | .metricSample => ["metric_name"]
  | .error => ["code", "message"]
  | .sessionStarted | .sessionPaused | .sessionResumed | .sessionCompleted => []

variable {payload : Value} {L : Libraries}

theorem requireString_eq_ok {field value : String} :
    requireString payload field = .ok value ↔
      (payload.get field).bind Json.asStr = some value ∧ value ≠ "" := by
  unfold requireString
  cases (payload.get field).bind Json.asStr with
  | none => simp [error]
  | some found =>
    by_cases hv : found = ""
    · simp only [hv, ne_eq, not_true_eq_false, if_false, error, reduceCtorEq, Option.some.injEq,
        false_iff, not_and, not_not]
      exact fun h => h.symm
    · simp only [ne_eq, hv, not_false_eq_true, if_true, Except.ok.injEq, Option.some.injEq]
      constructor
      · rintro rfl
        exact ⟨rfl, hv⟩
      · exact fun h => h.1

/-- The payload has a nonempty string in `field`. -/
def HasString (payload : Value) (field : String) : Prop :=
  ∃ value, (payload.get field).bind Json.asStr = some value ∧ value ≠ ""

/-- A payload that passes its contract has the strings of its type. -/
theorem validate_strings {eventType : EventType}
    (h : validate L eventType payload = .ok ()) :
    ∀ field ∈ requiredStrings eventType, HasString payload field := by
  have htool : eventType = .toolStarted → unknownToolField payload = none := by
    rintro rfl
    rw [validate] at h
    cases hf : unknownToolField payload with
    | none => rfl
    | some field => simp [hf, error] at h
  cases eventType <;> simp only [validate, htool, bind_eq_ok, requireString_eq_ok, requireRole,
      requirePhaseKind] at h <;>
    simp only [requiredStrings, HasString] <;>
    grind

/-- A payload of `phase.entered` names a Phase kind. -/
theorem validate_phaseKind
    (h : validate L .phaseEntered payload = .ok ()) :
    ∃ kind, ((payload.get "phase_kind").bind Json.asStr).bind PhaseKind.tryFrom = some kind := by
  simp only [validate, bind_eq_ok, requirePhaseKind, requireString_eq_ok] at h
  obtain ⟨_, -, _, -, _, -, _, ⟨name, ⟨hname, -⟩, hkind⟩, -⟩ := h
  by_cases hsome : (PhaseKind.tryFrom name).isSome = true
  · obtain ⟨kind, hk⟩ := Option.isSome_iff_exists.mp hsome
    exact ⟨kind, by rw [hname, Option.bind_some, hk]⟩
  · rw [if_neg hsome] at hkind
    cases hkind

end Payload

end Watershed.Proto
