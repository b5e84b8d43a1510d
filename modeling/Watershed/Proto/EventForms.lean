/-
  Events whose strings have any Unicode form.

  The line of an event holds the event in normal form: decoding the line gives that event, and
  writing it again gives the line.
-/
import Watershed.Proto.Forms

open List

namespace Watershed.Proto

open Json

/-! ## Locations -/

variable {location : String} {values : List (String × Value)} {value : Value} {index : Nat}

theorem nullInItems_eq_none {values : List Value}
    (h : ∀ value ∈ values, ∀ location, nullLocation location value = none ↔
      ∀ d, ¬ Json.Inside value d .null) :
    nullInItems location index values = none ↔
      ∀ value ∈ values, ∀ d, ¬ Json.Inside value d .null := by
  induction values generalizing index with
  | nil => simp [nullInItems]
  | cons value values ih =>
    rw [forall_mem_cons] at h ⊢
    rw [nullInItems, Option.or_eq_none_iff, h.1, ih h.2]

theorem nullInMembers_eq_none (h : ∀ x ∈ values, ∀ location, nullLocation location x.2 = none ↔
      ∀ d, ¬ Json.Inside x.2 d .null) :
    nullInMembers location values = none ↔ ∀ x ∈ values, ∀ d, ¬ Json.Inside x.2 d .null := by
  induction values with
  | nil => simp [nullInMembers]
  | cons x values ih =>
    rw [forall_mem_cons] at h ⊢
    rw [nullInMembers, Option.or_eq_none_iff, h.1, ih h.2]

/-- No location is reported when no `null` stands inside the value. -/
theorem nullLocation_eq_none (value : Value) : ∀ location,
    nullLocation location value = none ↔ ∀ d, ¬ Json.Inside value d .null := by
  induction value using induction_on with
  | null | bool | number | string =>
    rw [not_inside_iff]
    simp [nullLocation, children]
  | array values ih =>
    rw [not_inside_iff]
    simp [nullLocation, nullInItems_eq_none ih, children]
  | object values ih =>
    rw [not_inside_iff]
    simp only [nullLocation, nullInMembers_eq_none ih, children, forall_mem_map]
    simp

section
variable {L : Libraries}

theorem nonNfcInItems_eq_none {values : List Value}
    (h : ∀ value ∈ values, ∀ location, nonNfcLocation L location value = none ↔ Normal L value) :
    nonNfcInItems L location index values = none ↔ ∀ value ∈ values, Normal L value := by
  induction values generalizing index with
  | nil => simp [nonNfcInItems]
  | cons value values ih =>
    rw [forall_mem_cons] at h ⊢
    rw [nonNfcInItems, Option.or_eq_none_iff, h.1, ih h.2]

theorem nonNfcInMembers_eq_none
    (h : ∀ x ∈ values, ∀ location, nonNfcLocation L location x.2 = none ↔ Normal L x.2) :
    nonNfcInMembers L location values = none ↔
      ∀ x ∈ values, isNfc L x.1 = true ∧ Normal L x.2 := by
  induction values with
  | nil => simp [nonNfcInMembers]
  | cons x values ih =>
    rw [forall_mem_cons] at h ⊢
    rw [nonNfcInMembers, Option.or_eq_none_iff, ih h.2]
    cases hkey : isNfc L x.1 with
    | true => simp [h.1]
    | false => simp

/-- No location is reported when all texts are in normal form. -/
theorem nonNfcLocation_eq_none (value : Value) : ∀ location,
    nonNfcLocation L location value = none ↔ Normal L value := by
  induction value using induction_on with
  | null | bool | number => exact fun location => ⟨fun _ => rfl, fun _ => rfl⟩
  | string s =>
    intro location
    rw [nonNfcLocation]
    show _ ↔ isNfc L s = true
    cases isNfc L s <;> simp
  | array values ih =>
    intro location
    rw [nonNfcLocation, nonNfcInItems_eq_none ih]
    exact allItems_iff.symm
  | object values ih =>
    intro location
    rw [nonNfcLocation, nonNfcInMembers_eq_none ih]
    exact allFields_iff.symm

/-- A `null` stands inside the canonical form where it stood inside the value. -/
theorem inside_null_of_canonicalForm {d : Nat}
    (h : Json.Inside (canonicalForm L value) d .null) : Json.Inside value d .null := by
  obtain ⟨_, h, heq⟩ := (inside_map children_sortMembers _ d).mp h
  obtain ⟨inner, hinner, rfl⟩ := (inside_map children_mapTexts value d).mp h
  cases inner with
  | null => exact hinner
  | bool | number | string | array | object => cases heq

end

namespace EventEnvelope

/-! ## The checks as propositions -/

section
variable {L : Libraries} {event : EventEnvelope}

/-- What `validateMetadata` checks. -/
structure MetadataValid (event : EventEnvelope) : Prop where
  sequence : event.sequence ≠ 0
  sessionId : isValidSessionId event.sessionId = true
  eventId : event.eventId ≠ ""
  source : event.source ≠ ""
  timestamp : parseRfc3339UtcTimestamp event.timestamp ≠ none
  correlationId : event.correlationId ≠ some ""
  flowId : event.flowId ≠ some ""
  parentFlowId : event.parentFlowId ≠ some ""

theorem validateMetadata_eq_ok : event.validateMetadata = .ok () ↔ event.MetadataValid := by
  unfold validateMetadata
  constructor
  · intro h
    repeat'
      split at h
      · cases h
    constructor <;> simp_all
  · rintro ⟨h1, h2, h3, h4, h5, h6, h7, h8⟩
    simp [h1, h2, h3, h4, h5, h6, h7, h8]

/-- What `validateV0` checks. -/
structure Valid (L : Libraries) (event : EventEnvelope) : Prop where
  metadata : event.MetadataValid
  parent : ¬ (event.parentFlowId.isSome ∧ event.flowId.isNone)
  flow : ¬ (event.eventType.requiresFlowId ∧ event.flowId.isNone)
  object : event.payload.1.isObject = true
  version : event.protocolVersion = protocolVersionV0
  reserved : ∀ x ∈ event.additionalFields.1, isReservedEnvelopeField x.1 = false
  payloadNesting : jsonNestingReachesLimit event.payload.1 1 = false
  additionalNesting : ∀ x ∈ event.additionalFields.1, jsonNestingReachesLimit x.2 1 = false
  payloadNull : ∀ d, ¬ Json.Inside event.payload.1 d .null
  additionalNull : ∀ x ∈ event.additionalFields.1, ∀ d, ¬ Json.Inside x.2 d .null
  additionalNfc : ∀ x ∈ event.additionalFields.1, isNfc L x.1 = true ∧ Normal L x.2
  payload : Payload.validate L event.eventType event.payload.1 = .ok ()

theorem findAdditional_eq_none {check : String → Value → Option String} :
    event.findAdditional check = none ↔ ∀ x ∈ event.additionalFields.1, check x.1 x.2 = none :=
  List.findSome?_eq_none_iff

theorem validateV0_eq_ok : event.validateV0 L = .ok () ↔ event.Valid L := by
  rw [validateV0, check_bind_eq_ok, validateMetadata_eq_ok]
  constructor
  · rintro ⟨hmetadata, h⟩
    obtain ⟨hparent, h⟩ := ite_error_eq_ok.mp h
    obtain ⟨hflow, h⟩ := ite_error_eq_ok.mp h
    obtain ⟨hobject, h⟩ := ite_error_eq_ok.mp h
    obtain ⟨hversion, h⟩ := ite_error_eq_ok.mp h
    split at h
    · cases h
    rename_i hreserved
    obtain ⟨hpayloadNesting, h⟩ := ite_error_eq_ok.mp h
    split at h
    · cases h
    rename_i hadditionalNesting
    split at h
    · cases h
    rename_i hnull
    split at h
    · cases h
    rename_i hadditionalNfc
    rw [Option.or_eq_none_iff, nullLocation_eq_none, findAdditional_eq_none] at hnull
    rw [findAdditional_eq_none] at hreserved hadditionalNesting hadditionalNfc
    exact {
      metadata := hmetadata
      parent := hparent
      flow := hflow
      object := by simpa using hobject
      version := not_not.mp hversion
      reserved := fun x hx => by simpa using hreserved x hx
      payloadNesting := by simpa using hpayloadNesting
      additionalNesting := fun x hx => by simpa using hadditionalNesting x hx
      payloadNull := hnull.1
      additionalNull := fun x hx => (nullLocation_eq_none x.2 x.1).mp (hnull.2 x hx)
      additionalNfc := fun x hx => by
        have hfield := hadditionalNfc x hx
        cases hkey : isNfc L x.1 with
        | true => exact ⟨rfl, (nonNfcLocation_eq_none x.2 x.1).mp (by simpa [hkey] using hfield)⟩
        | false => simp [hkey] at hfield
      payload := h }
  · intro hvalid
    refine ⟨hvalid.metadata, ?_⟩
    rw [if_neg hvalid.parent, if_neg hvalid.flow, if_neg (by simp [hvalid.object]),
      if_neg (not_not.mpr hvalid.version), findAdditional_eq_none.mpr ?reserved]
    dsimp only
    rw [if_neg (by simp [hvalid.payloadNesting]), findAdditional_eq_none.mpr ?nesting]
    dsimp only
    rw [(nullLocation_eq_none _ _).mpr hvalid.payloadNull, Option.none_or,
      findAdditional_eq_none.mpr ?null]
    dsimp only
    rw [findAdditional_eq_none.mpr ?nfc]
    exact hvalid.payload
    case reserved => exact fun x hx => by simp [hvalid.reserved x hx]
    case nesting => exact fun x hx => by simp [hvalid.additionalNesting x hx]
    case null => exact fun x hx => (nullLocation_eq_none x.2 x.1).mpr (hvalid.additionalNull x hx)
    case nfc =>
      intro x hx
      obtain ⟨hkey, hvalue⟩ := hvalid.additionalNfc x hx
      simp [hkey, (nonNfcLocation_eq_none x.2 x.1).mpr hvalue]

end

/-! ## The event in normal form -/

/-- `event'` is `event` with its strings and the texts of its payload in normal form. -/
structure NormalFormOf (L : Libraries) (event event' : EventEnvelope) : Prop where
  additionalFields : event'.additionalFields = event.additionalFields
  correlationId : event'.correlationId = event.correlationId.map L.nfc
  eventId : event'.eventId = L.nfc event.eventId
  eventType : event'.eventType = event.eventType
  flowId : event'.flowId = event.flowId.map L.nfc
  parentFlowId : event'.parentFlowId = event.parentFlowId.map L.nfc
  payload : event'.payload.1 = canonicalForm L event.payload.1
  protocolVersion : event'.protocolVersion = L.nfc event.protocolVersion
  sequence : event'.sequence = event.sequence
  sessionId : event'.sessionId = L.nfc event.sessionId
  source : event'.source = L.nfc event.source
  timestamp : event'.timestamp = L.nfc event.timestamp

section
variable {L : Libraries} {event event' : EventEnvelope}

theorem exists_normalFormOf (hkeys : (event.payload.1.mapTexts L.nfc).DistinctKeys) :
    ∃ event', NormalFormOf L event event' :=
  ⟨{ event with
      correlationId := event.correlationId.map L.nfc
      eventId := L.nfc event.eventId
      flowId := event.flowId.map L.nfc
      parentFlowId := event.parentFlowId.map L.nfc
      payload := ⟨canonicalForm L event.payload.1, sortMembers_sorted _ hkeys⟩
      protocolVersion := L.nfc event.protocolVersion
      sessionId := L.nfc event.sessionId
      source := L.nfc event.source
      timestamp := L.nfc event.timestamp },
    by constructor <;> rfl⟩

theorem map_nfc_ne_some_empty (hnfc : L.Normalizes) {text : Option String} (h : text ≠ some "") :
    text.map L.nfc ≠ some "" := by
  intro heq
  obtain ⟨value, rfl, hvalue⟩ := Option.map_eq_some_iff.mp heq
  exact h (congrArg some ((nfc_eq_empty hnfc).mp hvalue))

theorem NormalFormOf.metadata (hnfc : L.Normalizes) (hform : NormalFormOf L event event')
    (h : event.MetadataValid) : event'.MetadataValid where
  sequence := by rw [hform.sequence]; exact h.sequence
  sessionId := by
    rw [hform.sessionId, L.nfc_ascii _ (isAscii_of_isValidSessionId h.sessionId)]
    exact h.sessionId
  eventId := by
    rw [hform.eventId]
    exact fun heq => h.eventId ((nfc_eq_empty hnfc).mp heq)
  source := by
    rw [hform.source]
    exact fun heq => h.source ((nfc_eq_empty hnfc).mp heq)
  timestamp := by
    have hascii := isAscii_of_parseRfc3339UtcTimestamp (Option.isSome_iff_ne_none.mpr h.timestamp)
    rw [hform.timestamp, L.nfc_ascii _ hascii]
    exact h.timestamp
  correlationId := by
    rw [hform.correlationId]
    exact map_nfc_ne_some_empty hnfc h.correlationId
  flowId := by
    rw [hform.flowId]
    exact map_nfc_ne_some_empty hnfc h.flowId
  parentFlowId := by
    rw [hform.parentFlowId]
    exact map_nfc_ne_some_empty hnfc h.parentFlowId

theorem nfc_protocolVersionV0 : L.nfc protocolVersionV0 = protocolVersionV0 :=
  L.nfc_ascii _ (by decide)

/-- A valid event is valid in normal form. -/
theorem NormalFormOf.valid (hnfc : L.Normalizes) (hform : NormalFormOf L event event')
    (hkeys : (event.payload.1.mapTexts L.nfc).DistinctKeys) (h : event.Valid L) :
    event'.Valid L where
  metadata := hform.metadata hnfc h.metadata
  parent := by
    rw [hform.parentFlowId, hform.flowId, Option.isSome_map, Option.isNone_map]
    exact h.parent
  flow := by
    rw [hform.eventType, hform.flowId, Option.isNone_map]
    exact h.flow
  object := by
    rw [hform.payload, isObject_canonicalForm]
    exact h.object
  version := by rw [hform.protocolVersion, h.version, nfc_protocolVersionV0]
  reserved := by
    rw [hform.additionalFields]
    exact h.reserved
  payloadNesting := by
    rw [hform.payload, canonicalForm_nesting]
    exact h.payloadNesting
  additionalNesting := by
    rw [hform.additionalFields]
    exact h.additionalNesting
  payloadNull := by
    rw [hform.payload]
    exact fun d hin => h.payloadNull d (inside_null_of_canonicalForm hin)
  additionalNull := by
    rw [hform.additionalFields]
    exact h.additionalNull
  additionalNfc := by
    rw [hform.additionalFields]
    exact h.additionalNfc
  payload := by
    rw [hform.eventType, hform.payload]
    exact Payload.validate_canonicalForm hnfc event.payload.2 hkeys h.payload

/-! ## The line of an event -/

/-- The envelope's own members in normal form. -/
theorem NormalFormOf.ownMembers (hform : NormalFormOf L event event') :
    event'.ownMembers = event.ownMembers.map fun x => (L.nfc x.1, canonicalForm L x.2) := by
  have hname : ∀ name ∈ reservedEnvelopeFields, L.nfc name = name := fun name hmem =>
    nfc_of_isNfc (isNfc_reserved (by simpa [isReservedEnvelopeField] using hmem))
  have hstring : ∀ text, canonicalForm L (.string text) = .string (L.nfc text) := fun _ => rfl
  have hnumber : ∀ n, canonicalForm L (.number n) = .number n := fun _ => rfl
  simp only [reservedEnvelopeFields, forall_mem_cons] at hname
  obtain ⟨h1, h2, h3, h4, h5, h6, h7, h8, h9, h10, h11, -⟩ := hname
  simp only [EventEnvelope.ownMembers, hform.correlationId, hform.eventId, hform.eventType,
    hform.flowId, hform.parentFlowId, hform.payload, hform.protocolVersion, hform.sequence,
    hform.sessionId, hform.source, hform.timestamp]
  cases event.correlationId <;> cases event.flowId <;> cases event.parentFlowId <;>
    simp only [Option.map_some, Option.map_none, Option.toList_some, Option.toList_none,
      nil_append, cons_append, map_cons, map_nil, h1, h2, h3, h4, h5, h6, h7,
      h8, h9, h10, h11, hstring, hnumber, nfc_of_isNfc (isNfc_asStr event.eventType)]

/-- Additional fields are in normal form already. -/
theorem map_additionalFields (h : event.Valid L) :
    event.additionalFields.1.map (fun x => (L.nfc x.1, canonicalForm L x.2)) =
      event.additionalFields.1 := by
  refine (map_congr_left fun x hx => ?_).trans (map_id _)
  obtain ⟨hkey, hvalue⟩ := h.additionalNfc x hx
  have hsorted := (sorted_object.mp event.additionalFields.2).2 x hx
  exact Prod.ext (nfc_of_isNfc hkey) (canonicalForm_eq_self hsorted hvalue)

/-- The members of the event in normal form are the canonical form of its members. -/
theorem NormalFormOf.serializeFields (hform : NormalFormOf L event event') (h : event.Valid L)
    (hvalid' : event'.validateV0 L = .ok ()) :
    event'.serializeFields = canonicalForm L event.serializeFields := by
  have hmembers : event'.additionalFields.1 ++ event'.ownMembers =
      (event.additionalFields.1 ++ event.ownMembers).map
        fun x => (L.nfc x.1, canonicalForm L x.2) := by
    rw [map_append, map_additionalFields h, hform.additionalFields, hform.ownMembers]
  have hnodup := members_nodup hvalid'
  show object (byKey (event'.additionalFields.1 ++ event'.ownMembers)) =
    canonicalForm L (.object (byKey (event.additionalFields.1 ++ event.ownMembers)))
  rw [canonicalForm_object]
  rw [hmembers] at hnodup ⊢
  exact congrArg object (byKey_eq_of_perm ((perm_byKey _).map _).symm hnodup)

/-- An event in normal form, with integer numbers. -/
theorem NormalFormOf.isNormal (hnfc : L.Normalizes) (hform : NormalFormOf L event event')
    (h : event.Valid L) (hpayload : Integral event.payload.1)
    (hadditional : Integral (.object event.additionalFields.1)) : event'.IsNormal L where
  texts text htext := by
    have hmem : ∃ other, text = L.nfc other := by
      simp only [EventEnvelope.texts, hform.correlationId, hform.eventId, hform.flowId,
        hform.parentFlowId, hform.protocolVersion, hform.sessionId, hform.source, hform.timestamp,
        mem_append, Option.mem_toList, Option.map_eq_some_iff, mem_cons,
        not_mem_nil, or_false] at htext
      rcases htext with (((⟨_, -, rfl⟩ | rfl) | ⟨_, -, rfl⟩) | ⟨_, -, rfl⟩) | rfl | rfl | rfl | rfl <;>
        exact ⟨_, rfl⟩
    obtain ⟨other, rfl⟩ := hmem
    exact decide_eq_true (hnfc.idempotent other)
  payload := by
    rw [hform.payload]
    exact normal_canonicalForm hnfc.idempotent _
  payloadIntegral := by
    rw [hform.payload]
    exact integral_canonicalForm hpayload
  additional := by
    rw [hform.additionalFields]
    exact allFields_iff.mpr h.additionalNfc
  additionalIntegral := by
    rw [hform.additionalFields]
    exact hadditional

/-- The keys of the payload stay distinct when the whole envelope's do. -/
theorem distinctKeys_payload (h : (event.serializeFields.mapTexts L.nfc).DistinctKeys) :
    (event.payload.1.mapTexts L.nfc).DistinctKeys := by
  rw [EventEnvelope.serializeFields, mapTexts_object, distinctKeys_object] at h
  have hmem : ("payload", event.payload.1) ∈ event.members :=
    mem_members.mpr (.inr (by simp [EventEnvelope.ownMembers]))
  exact h.2 _ (mem_map_of_mem (f := fun x => (L.nfc x.1, x.2.mapTexts L.nfc)) hmem)

end

/-- `serde_json::from_str`: reads a line without duplicate keys, decodes the event and checks it. -/
def fromStr (L : Libraries) (serde : SerdeJson) (line : String) :
    Except (String ⊕ DecodeError) EventEnvelope := do
  let value ← (parseUniqueJson serde line).mapError .inl
  (fromValue L value).mapError .inr

/-- Every line that is written for an event is decoded: to the event in normal form, which is
    valid, has the same additional fields and is written as the same line. -/
theorem fromStr_canonicalJsonl (L : Libraries) (serde : SerdeJson) (hnfc : L.Normalizes)
    (event : EventEnvelope) (hpayload : Integral event.payload.1)
    (hadditional : Integral (.object event.additionalFields.1)) (line : String)
    (h : event.canonicalJsonl L = .ok line) :
    ∃ event', fromStr L serde line = .ok event' ∧ event'.validateV0 L = .ok () ∧
      NormalFormOf L event event' ∧ event'.additionalFields = event.additionalFields ∧
      event'.canonicalJsonl L = .ok line := by
  obtain ⟨hobject, hversion, hvalid, text, hcanonical, rfl⟩ := canonicalJsonl_eq_ok.mp h
  have hchecked := validateV0_eq_ok.mp hvalid
  obtain ⟨hnesting, hkeys, htext⟩ := canonicalJson_eq_ok.mp hcanonical
  have hpayloadKeys := distinctKeys_payload hkeys
  obtain ⟨event', hform⟩ := exists_normalFormOf hpayloadKeys
  have hchecked' := hform.valid hnfc hpayloadKeys hchecked
  have hvalid' := validateV0_eq_ok.mpr hchecked'
  have hfields := hform.serializeFields hchecked hvalid'
  have hnormal := hform.isNormal hnfc hchecked hpayload hadditional
  refine ⟨event', ?_, hvalid', hform, hform.additionalFields, ?_⟩
  · have hparse := parseUniqueJson_canonicalForm serde event.serializeFields
      (serializeFields_integral hpayload hadditional) hnesting (sortMembers_sorted _ hkeys) 1
    have hvalue : (⟨canonicalForm L event.serializeFields, sortMembers_sorted _ hkeys⟩ :
        SortedValue) = ⟨event'.serializeFields, serializeFields_sorted hvalid'⟩ :=
      Subtype.ext hfields.symm
    have hdecoded := uncheckedOfFields_toFields hvalid' hnormal hchecked'.object hchecked'.version
    rw [String.ofList_append, htext, show String.ofList (replicate 1 '\n') = "\n" from rfl,
      hvalue] at hparse
    rw [fromStr, hparse]
    exact congrArg (Except.mapError Sum.inr) (fromValue_eq_ok hdecoded hvalid')
  · refine canonicalJsonl_eq_ok.mpr ⟨hchecked'.object, hchecked'.version, hvalid', text, ?_, rfl⟩
    rw [hfields]
    exact canonicalJson_canonicalForm hnfc.idempotent hcanonical

/-! ### An event with accents -/

theorem acuteLibraries_normalizes : acuteLibraries.Normalizes where
  idempotent := acuteLibraries_idempotent
  ofFieldName text h := if_neg (by rintro rfl; exact absurd h (by decide +kernel))

/-- A session starts; the accents of its payload are written apart. -/
def acuteEvent : EventEnvelope where
  additionalFields := ⟨[("note", .string "é")], rfl⟩
  correlationId := some "/cafe\u0301"
  eventId := "e1"
  eventType := .sessionStarted
  flowId := none
  parentFlowId := none
  payload := ⟨.object [("/cafe\u0301", .number (.ofU64 1)), ("reason", .string "/cafe\u0301")],
    by decide +kernel⟩
  protocolVersion := "0"
  sequence := 1
  sessionId := "s1"
  source := "flow-agent"
  timestamp := "2026-01-01T00:00:00Z"

/-- The line of the event. -/
def acuteLine : String :=
  "\x7b\"correlation_id\":\"/café\",\"event_id\":\"e1\",\"event_type\":\"session.started\"," ++
  "\"note\":\"é\",\"payload\":\x7b\"/café\":1,\"reason\":\"/café\"\x7d," ++
  "\"protocol_version\":\"0\",\"sequence\":1,\"session_id\":\"s1\",\"source\":\"flow-agent\"," ++
  "\"timestamp\":\"2026-01-01T00:00:00Z\"\x7d\n"

theorem fromStr_canonicalJsonl_acute :
    acuteEvent.canonicalJsonl acuteLibraries = .ok acuteLine ∧
      ∃ event', fromStr acuteLibraries compactSerde acuteLine = .ok event' ∧
        event'.correlationId = some "/café" ∧
        event'.canonicalJsonl acuteLibraries = .ok acuteLine := by
  have hline : acuteEvent.canonicalJsonl acuteLibraries = .ok acuteLine := by decide +kernel
  obtain ⟨event', hfrom, -, hform, -, hwritten⟩ := fromStr_canonicalJsonl acuteLibraries
    compactSerde acuteLibraries_normalizes acuteEvent rfl rfl acuteLine hline
  refine ⟨hline, event', hfrom, ?_, hwritten⟩
  rw [hform.correlationId]
  decide +kernel

end EventEnvelope

end Watershed.Proto
