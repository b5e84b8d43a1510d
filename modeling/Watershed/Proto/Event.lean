/-
  The event envelope shared by the runtimes (`event.rs`): its v0 checks, its canonical line and
  how it is decoded.
-/
import Watershed.Proto.Payload

namespace Watershed.Proto

/-- Protocol version string emitted by all v0 event envelopes. -/
def protocolVersionV0 : String := "0"

def EventValidationError.text (error : EventValidationError) : String :=
  error.field ++ " " ++ error.requirement

def CanonicalJsonError.text (L : Libraries) : CanonicalJsonError → String
  | .invalidEvent error => "invalid v0 event: " ++ error.text
  | .nonObjectPayload => "event payload must be a JSON object"
  | .unsupportedProtocolVersion version =>
    "unsupported protocol_version " ++ L.debug version ++ "; expected " ++ L.debug protocolVersionV0
  | .jsonNestingLimitExceeded =>
    "value must stay below the protocol v0 JSON nesting limit of " ++ toString jsonNestingLimitV0
  | .duplicateNormalizedObjectKey key => "normalized object key collision: " ++ key

def jsonNestingRequirementV0 : String := "must stay below the protocol v0 JSON nesting limit"

/-- The members of an object in the order of their keys. -/
abbrev SortedFields := { fields : List (String × Value) // (Json.object fields).sorted = true }

/-- Canonical runtime event envelope. -/
structure EventEnvelope where
  /-- Additive v0 envelope fields not yet understood by this implementation. -/
  additionalFields : SortedFields
  correlationId : Option String
  eventId : String
  eventType : EventType
  flowId : Option String
  parentFlowId : Option String
  payload : SortedValue
  protocolVersion : String
  sequence : UInt64
  sessionId : String
  source : String
  timestamp : String

/-- The names of the envelope's own fields. -/
def reservedEnvelopeFields : List String :=
  ["correlation_id", "event_id", "event_type", "flow_id", "parent_flow_id", "payload",
    "protocol_version", "sequence", "session_id", "source", "timestamp"]

def isReservedEnvelopeField (field : String) : Bool := field ∈ reservedEnvelopeFields

/-! ## Locations -/

mutual

/-- Where a value holds its first `null`. -/
def nullLocation (location : String) : Value → Option String
  | .null => some location
  | .array values => nullInItems location 0 values
  | .object values => nullInMembers location values
  | .bool _ | .number _ | .string _ => none

def nullInItems (location : String) (index : Nat) : List Value → Option String
  | [] => none
  | value :: values =>
    (nullLocation (location ++ "[" ++ toString index ++ "]") value).or
      (nullInItems location (index + 1) values)

def nullInMembers (location : String) : List (String × Value) → Option String
  | [] => none
  | (field, value) :: values =>
    (nullLocation (location ++ "." ++ field) value).or (nullInMembers location values)

end

section
variable (L : Libraries)

mutual

/-- Where a value holds its first string or key that is not in normal form. -/
def nonNfcLocation (location : String) : Value → Option String
  | .string value => if !isNfc L value then some location else none
  | .array values => nonNfcInItems location 0 values
  | .object values => nonNfcInMembers location values
  | .null | .bool _ | .number _ => none

def nonNfcInItems (location : String) (index : Nat) : List Value → Option String
  | [] => none
  | value :: values =>
    (nonNfcLocation (location ++ "[" ++ toString index ++ "]") value).or
      (nonNfcInItems location (index + 1) values)

def nonNfcInMembers (location : String) : List (String × Value) → Option String
  | [] => none
  | (key, value) :: values =>
    (if !isNfc L key then some (location ++ "." ++ key)
      else nonNfcLocation (location ++ "." ++ key) value).or (nonNfcInMembers location values)

end

end

namespace EventEnvelope

/-! ## Checks -/

variable (event : EventEnvelope)

/-- Validates metadata that does not depend on other events in the stream. -/
def validateMetadata : Except EventValidationError Unit :=
  if event.sequence = 0 then .error ⟨"sequence", "must be one-based"⟩
  else if !isValidSessionId event.sessionId then
    .error ⟨"session_id", "must be a lowercase path-safe token"⟩
  else if event.eventId = "" then .error ⟨"event_id", "must be non-empty"⟩
  else if event.source = "" then .error ⟨"source", "must be non-empty"⟩
  else if (parseRfc3339UtcTimestamp event.timestamp).isNone then
    .error ⟨"timestamp", "must be a canonical RFC 3339 UTC timestamp ending in `Z`"⟩
  else if event.correlationId = some "" then
    .error ⟨"correlation_id", "must be non-empty when present"⟩
  else if event.flowId = some "" then .error ⟨"flow_id", "must be non-empty when present"⟩
  else if event.parentFlowId = some "" then
    .error ⟨"parent_flow_id", "must be non-empty when present"⟩
  else .ok ()

/-- The first additional field for which `check` finds a place to complain about. -/
def findAdditional (check : String → Value → Option String) : Option String :=
  event.additionalFields.1.findSome? fun (field, value) => check field value

variable (L : Libraries)

/-- Validates all stream-independent v0 envelope and payload requirements. -/
def validateV0 : Except EventValidationError Unit := do
  event.validateMetadata
  if event.parentFlowId.isSome ∧ event.flowId.isNone then
    .error ⟨"parent_flow_id", "requires flow_id"⟩
  else if event.eventType.requiresFlowId ∧ event.flowId.isNone then
    .error ⟨"flow_id", "is required for flow-scoped events"⟩
  else if !event.payload.1.isObject then .error ⟨"payload", "must be a JSON object"⟩
  else if event.protocolVersion ≠ protocolVersionV0 then
    .error ⟨"protocol_version", "must be \"0\" (unsupported protocol_version)"⟩
  else
    match event.findAdditional fun field _ =>
        if isReservedEnvelopeField field then some field else none with
    | some field =>
      .error ⟨"additional field " ++ L.debug field, "collides with an envelope field"⟩
    | none =>
      if jsonNestingReachesLimit event.payload.1 1 then
        .error ⟨"payload", jsonNestingRequirementV0⟩
      else
        match event.findAdditional fun field value =>
            if jsonNestingReachesLimit value 1 then some field else none with
        | some field => .error ⟨field, jsonNestingRequirementV0⟩
        | none =>
          match (nullLocation "payload" event.payload.1).or
              (event.findAdditional fun field value => nullLocation field value) with
          | some field => .error ⟨field, "must not be null in protocol v0"⟩
          | none =>
            match event.findAdditional fun field value =>
                if !isNfc L field then some field else nonNfcLocation L field value with
            | some location => .error ⟨location, "must use NFC"⟩
            | none => Payload.validate L event.eventType event.payload.1

/-! ## The canonical line -/

/-- The envelope's own members, in the order in which they are written. -/
def ownMembers : List (String × Value) :=
  (event.correlationId.map fun id => ("correlation_id", Json.string id)).toList ++
  [("event_id", .string event.eventId), ("event_type", .string event.eventType.asStr)] ++
  (event.flowId.map fun id => ("flow_id", Json.string id)).toList ++
  (event.parentFlowId.map fun id => ("parent_flow_id", Json.string id)).toList ++
  [("payload", event.payload.1), ("protocol_version", .string event.protocolVersion),
    ("sequence", .number (.ofU64 event.sequence)), ("session_id", .string event.sessionId),
    ("source", .string event.source), ("timestamp", .string event.timestamp)]

/-- The envelope as a JSON object; a map keeps its members in the order of their keys. -/
def serializeFields : Value := .object ((event.additionalFields.1 ++ event.ownMembers).insertionSort
    fun left right => left.1 ≤ right.1)

/-- Serializes the envelope as canonical JSON plus a trailing newline. -/
def canonicalJsonl : Except CanonicalJsonError String :=
  if !event.payload.1.isObject then .error .nonObjectPayload
  else if event.protocolVersion ≠ protocolVersionV0 then
    .error (.unsupportedProtocolVersion event.protocolVersion)
  else
    match event.validateV0 L with
    | .error error => .error (.invalidEvent error)
    | .ok _ => (canonicalJson L event.serializeFields).map (· ++ "\n")

end EventEnvelope

/-! ## Decoding -/

/-- Why a JSON value is no event. The deserializer writes its own text around the field. -/
inductive DecodeError where
  | notAnObject
  | missingField (field : String)
  | wrongType (field : String)
  | unknownEventType (value : String)
  | payloadNotAnObject
  | nullField (field : String)
  | unsupportedProtocolVersion (value : String)
  | invalidEvent (error : EventValidationError)
  deriving DecidableEq

/-- A member of an object, with its members in order. -/
def SortedFields.get (fields : SortedFields) (name : String) : Option SortedValue :=
  (fields.1.find? fun x => x.1 = name).attach.map fun x =>
    ⟨x.1.2, (Json.sorted_object.mp fields.2).2 _ (List.mem_of_find?_eq_some x.2)⟩

/-- The members of an object for which `keep` holds. -/
def SortedFields.filter (keep : String → Bool) (fields : SortedFields) : SortedFields :=
  ⟨fields.1.filter fun x => keep x.1, Json.sorted_object.mpr
    ⟨(Json.sorted_object.mp fields.2).1.sublist (List.filter_sublist.map _),
      fun _ hx => (Json.sorted_object.mp fields.2).2 _ (List.mem_of_mem_filter hx)⟩⟩

namespace EventEnvelope

variable (L : Libraries) (fields : SortedFields)

def requiredString (field : String) : Except DecodeError String :=
  match (fields.get field).map Subtype.val with
  | none => .error (.missingField field)
  | some (.string value) => .ok value
  | some _ => .error (.wrongType field)

/-- An optional field: when it is there it is a string, not `null`. -/
def presentOptional (field : String) : Except DecodeError (Option String) :=
  match (fields.get field).map Subtype.val with
  | none => .ok none
  | some (.string value) => .ok (some value)
  | some .null => .error (.nullField field)
  | some _ => .error (.wrongType field)

def requiredEventType : Except DecodeError EventType := do
  let value ← requiredString fields "event_type"
  match EventType.tryFrom value with
  | some type => .ok type
  | none => .error (.unknownEventType value)

def requiredPayload : Except DecodeError SortedValue :=
  match fields.get "payload" with
  | none => .error (.missingField "payload")
  | some payload => if payload.1.isObject then .ok payload else .error .payloadNotAnObject

def requiredVersion : Except DecodeError String := do
  let value ← requiredString fields "protocol_version"
  if value = protocolVersionV0 then .ok value else .error (.unsupportedProtocolVersion value)

def requiredSequence : Except DecodeError UInt64 :=
  match (fields.get "sequence").map Subtype.val with
  | none => .error (.missingField "sequence")
  | some (.number number) =>
    match number.asU64 with
    | some value => .ok (UInt64.ofNat value)
    | none => .error (.wrongType "sequence")
  | some _ => .error (.wrongType "sequence")

/-- The envelope as its members have it, with the strings in normal form; not yet checked. -/
def uncheckedOfFields : Except DecodeError EventEnvelope := do
  let correlationId ← presentOptional fields "correlation_id"
  let eventId ← requiredString fields "event_id"
  let eventType ← requiredEventType fields
  let flowId ← presentOptional fields "flow_id"
  let parentFlowId ← presentOptional fields "parent_flow_id"
  let payload ← requiredPayload fields
  let protocolVersion ← requiredVersion fields
  let sequence ← requiredSequence fields
  let sessionId ← requiredString fields "session_id"
  let source ← requiredString fields "source"
  let timestamp ← requiredString fields "timestamp"
  return {
    additionalFields := fields.filter fun field => !isReservedEnvelopeField field
    correlationId := correlationId.map (nfcString L)
    eventId := nfcString L eventId
    eventType := eventType
    flowId := flowId.map (nfcString L)
    parentFlowId := parentFlowId.map (nfcString L)
    payload := nfcJsonStringValues L payload
    protocolVersion := nfcString L protocolVersion
    sequence := sequence
    sessionId := nfcString L sessionId
    source := nfcString L source
    timestamp := nfcString L timestamp }

/-- `serde_json::from_value`: decodes an event and checks it. -/
def fromValue (value : SortedValue) : Except DecodeError EventEnvelope :=
  match value with
  | ⟨.object fields, sorted⟩ => do
    let event ← uncheckedOfFields L ⟨fields, sorted⟩
    match event.validateV0 L with
    | .ok _ => .ok event
    | .error error => .error (.invalidEvent error)
  | _ => .error .notAnObject

/-! ## What decoding guarantees -/

/-- A string field of the payload. -/
def str (event : EventEnvelope) (field : String) : Option String :=
  (event.payload.1.get field).bind Json.asStr

theorem fromValue_valid {value : SortedValue} {event : EventEnvelope}
    (h : fromValue L value = .ok event) : event.validateV0 L = .ok () := by
  unfold fromValue at h
  split at h
  · obtain ⟨decoded, -, h⟩ := bind_eq_ok.mp h
    split at h
    · rename_i hvalid
      cases h
      exact hvalid
    · cases h
  · cases h

end EventEnvelope

end Watershed.Proto
