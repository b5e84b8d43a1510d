/-
  Events, there and back: an event in normal form is decoded from the line that is written for
  it.
-/
import Watershed.Lib.OrderedList
import Watershed.Proto.CanonicalForm
import Watershed.Proto.Event

open List Option

namespace Watershed.Proto

open Json

/-! ## Members -/

theorem SortedFields.map_get (fields : SortedFields) (name : String) :
    (fields.get name).map Subtype.val = (fields.1.find? fun x => x.1 = name).map Prod.snd := by
  rw [SortedFields.get, Option.map_map]
  change Option.map (Prod.snd ∘ Subtype.val) _ = _
  rw [← Option.map_map, Option.attach_map_subtype_val]

variable {α : Type} {fields : List (String × α)}

theorem find?_of_not_mem {name : String}
    (h : ∀ x ∈ fields, x.1 ≠ name) : fields.find? (fun x => x.1 = name) = none :=
  List.find?_eq_none.mpr fun x hx => by simpa using h x hx

/-! ## Events as JSON objects -/

namespace EventEnvelope

variable {L : Libraries} {event : EventEnvelope}

/-- No additional field has the name of an envelope field. -/
theorem additional_of_valid (h : event.validateV0 L = .ok ()) :
    ∀ x ∈ event.additionalFields.1, isReservedEnvelopeField x.1 = false := by
  have hnone : (event.findAdditional fun field _ =>
      if isReservedEnvelopeField field then some field else none) = none := by
    rw [validateV0, check_bind_eq_ok] at h
    obtain ⟨-, h⟩ := h
    revert h
    repeat' split
    all_goals first | (intro _; assumption) | (intro h; cases h)
  intro x hx
  have hfield := List.findSome?_eq_none_iff.mp hnone x hx
  by_contra hreserved
  simp [hreserved] at hfield

/-- The envelope's own keys are the reserved ones, in order. -/
theorem ownMembers_keys : (event.ownMembers.map Prod.fst).Sublist reservedEnvelopeFields := by
  unfold ownMembers
  cases event.correlationId <;> cases event.flowId <;> cases event.parentFlowId <;>
    simp only [map_some, map_none, toList_some, toList_none, nil_append, map_cons, cons_append] <;>
    decide

variable {field : String × Value} {name text : String}

theorem ownMembers_reserved (h : field ∈ event.ownMembers) :
    isReservedEnvelopeField field.1 = true := by
  have hmem := ownMembers_keys.subset (mem_map_of_mem h)
  simpa [isReservedEnvelopeField] using hmem

theorem members_nodup (h : event.validateV0 L = .ok ()) :
    ((event.additionalFields.1 ++ event.ownMembers).map Prod.fst).Nodup := by
  rw [map_append]
  refine nodup_append.mpr ⟨?_, ?_, ?_⟩
  · exact (sorted_object.mp event.additionalFields.2).1.imp fun h => ne_of_lt h
  · exact ownMembers_keys.nodup (by decide)
  · rintro key hkey _ hother rfl
    obtain ⟨x, hx, rfl⟩ := mem_map.mp hkey
    obtain ⟨y, hy, heq⟩ := mem_map.mp hother
    have hreserved := ownMembers_reserved hy
    rw [heq, additional_of_valid h x hx] at hreserved
    cases hreserved

/-- The members of the envelope in the order of their keys. -/
def members (event : EventEnvelope) : List (String × Value) :=
  (event.additionalFields.1 ++ event.ownMembers).insertionSort fun left right => left.1 ≤ right.1

theorem mem_members :
    field ∈ event.members ↔ field ∈ event.additionalFields.1 ∨ field ∈ event.ownMembers := by
  rw [members, mem_insertionSort, mem_append]

theorem members_sorted (h : event.validateV0 L = .ok ()) :
    (event.members.map Prod.fst).Pairwise (· < ·) := by
  have hperm := (perm_insertionSort (fun left right : String × Value => left.1 ≤ right.1)
    (event.additionalFields.1 ++ event.ownMembers)).map Prod.fst
  have hnodup := hperm.symm.nodup (members_nodup h)
  have hle : event.members.Pairwise fun left right => left.1 ≤ right.1 := by
    exact pairwise_insertionSort _ _
  rw [pairwise_map]
  rw [nodup_iff_pairwise_ne, pairwise_map] at hnodup
  exact (hle.and hnodup).imp fun h => lt_of_le_of_ne h.1 h.2

/-- The strings of the envelope's own members. -/
def texts (event : EventEnvelope) : List String :=
  event.correlationId.toList ++ [event.eventId] ++ event.flowId.toList ++
    event.parentFlowId.toList ++ [event.protocolVersion, event.sessionId, event.source,
      event.timestamp]

theorem forall_ownMembers {p : Value → Prop} (htexts : ∀ text ∈ event.texts, p (.string text))
    (htype : p (.string event.eventType.asStr)) (hpayload : p event.payload.1)
    (hsequence : p (.number (.ofU64 event.sequence))) : ∀ x ∈ event.ownMembers, p x.2 := by
  simp only [texts, mem_append, mem_cons, not_mem_nil, or_false, or_imp, forall_and,
    mem_toList, forall_eq] at htexts
  obtain ⟨⟨⟨⟨hcorrelation, hid⟩, hflow⟩, hparent⟩, hversion, hsession, hsource, htime⟩ := htexts
  simp only [ownMembers, mem_append, mem_cons, not_mem_nil, or_false, or_imp,
    forall_and, mem_toList, map_eq_some_iff, forall_exists_index,
    and_imp, forall_eq, forall_apply_eq_imp_iff₂]
  exact ⟨⟨⟨⟨hcorrelation, hid, htype⟩, hflow⟩, hparent⟩, hpayload, hversion, hsequence, hsession,
    hsource, htime⟩

/-- The envelope is a JSON object with its members in order. -/
theorem serializeFields_sorted (h : event.validateV0 L = .ok ()) :
    event.serializeFields.sorted = true := by
  refine sorted_object.mpr ⟨members_sorted h, fun field hfield => ?_⟩
  rcases mem_members.mp hfield with hfield | hfield
  · exact (sorted_object.mp event.additionalFields.2).2 field hfield
  · exact forall_ownMembers (p := fun value => value.sorted = true) (fun _ _ => rfl) rfl
      event.payload.2 rfl field hfield

/-- The strings of the event are in normal form and its numbers are integers. -/
structure IsNormal (L : Libraries) (event : EventEnvelope) : Prop where
  texts : ∀ text ∈ event.texts, isNfc L text = true
  payload : Normal L event.payload.1
  payloadIntegral : Integral event.payload.1
  additional : Normal L (.object event.additionalFields.1)
  additionalIntegral : Integral (.object event.additionalFields.1)

theorem isNfc_asStr (type : EventType) : isNfc L type.asStr = true := by
  have hascii : (type.asStr.toList.all fun c => c.toNat < 128) = true := by
    cases type <;> decide +kernel
  simpa [isNfc] using L.nfc_ascii _ hascii

theorem isNfc_reserved {field : String} (h : isReservedEnvelopeField field = true) :
    isNfc L field = true := by
  have hascii : (reservedEnvelopeFields.all fun field =>
      field.toList.all fun c => c.toNat < 128) = true := by decide +kernel
  have hfield : field ∈ reservedEnvelopeFields := by simpa [isReservedEnvelopeField] using h
  simpa [isNfc] using L.nfc_ascii _ (all_eq_true.mp hascii field hfield)

theorem serializeFields_normal (h : event.IsNormal L) : Normal L event.serializeFields := by
  refine allFields_iff.mpr fun field hfield => ?_
  rcases mem_members.mp hfield with hfield | hfield
  · exact allFields_iff.mp h.additional field hfield
  · exact ⟨isNfc_reserved (ownMembers_reserved hfield),
      forall_ownMembers h.texts (isNfc_asStr _) h.payload rfl field hfield⟩

theorem serializeFields_integral (hpayload : Integral event.payload.1)
    (hadditional : Integral (.object event.additionalFields.1)) :
    Integral event.serializeFields := by
  refine allFields_iff.mpr fun field hfield => ?_
  rcases mem_members.mp hfield with hfield | hfield
  · exact allFields_iff.mp hadditional field hfield
  · exact ⟨rfl, forall_ownMembers (p := Integral) (fun _ _ => rfl) rfl hpayload rfl field hfield⟩

/-! ## Decoding what was written -/

/-- The event as a value with its members in order. -/
def toFields (event : EventEnvelope) (h : event.validateV0 L = .ok ()) : SortedFields :=
  ⟨event.members, serializeFields_sorted h⟩

variable (h : event.validateV0 L = .ok ())

theorem get_own (hfield : field ∈ event.ownMembers) :
    ((event.toFields h).get field.1).map Subtype.val = some field.2 := by
  have hnodup : (event.members.map Prod.fst).Nodup := (members_sorted h).imp fun h => ne_of_lt h
  rw [SortedFields.map_get, toFields, find?_key hnodup (mem_members.mpr (.inr hfield))]
  rfl

theorem get_absent (hreserved : isReservedEnvelopeField name = true)
    (hname : name ∉ event.ownMembers.map Prod.fst) :
    ((event.toFields h).get name).map Subtype.val = none := by
  rw [SortedFields.map_get, find?_of_not_mem]
  · rfl
  rintro x hx rfl
  rcases mem_members.mp hx with hx | hx
  · rw [additional_of_valid h x hx] at hreserved
    cases hreserved
  · exact hname (mem_map_of_mem hx)

theorem requiredString_own (hfield : (name, .string text) ∈ event.ownMembers) :
    requiredString (event.toFields h) name = .ok text := by
  rw [requiredString, get_own h hfield]

theorem presentOptional_own {text : Option String}
    (hsome : ∀ value, text = some value → (name, .string value) ∈ event.ownMembers)
    (hnone : text = none → name ∉ event.ownMembers.map Prod.fst)
    (hreserved : isReservedEnvelopeField name = true) :
    presentOptional (event.toFields h) name = .ok text := by
  cases text with
  | none => rw [presentOptional, get_absent h hreserved (hnone rfl)]
  | some value => rw [presentOptional, get_own h (hsome value rfl)]

/-- Sorting the members keeps the additional ones as they were. -/
theorem filter_members :
    (event.toFields h).filter (fun field => !isReservedEnvelopeField field) =
      event.additionalFields := by
  refine Subtype.ext ?_
  have hkeep : (event.additionalFields.1 ++ event.ownMembers).filter
      (fun x => !isReservedEnvelopeField x.1) = event.additionalFields.1 := by
    rw [filter_append, filter_eq_self.mpr, filter_eq_nil_iff.mpr, append_nil]
    · intro x hx
      simp [ownMembers_reserved hx]
    · intro x hx
      simp [additional_of_valid h x hx]
  have hperm := (perm_insertionSort (fun left right : String × Value => left.1 ≤ right.1)
    (event.additionalFields.1 ++ event.ownMembers)).filter fun x => !isReservedEnvelopeField x.1
  rw [hkeep] at hperm
  have hleft := pairwise_map.mp (members_sorted h)
  have hright := pairwise_map.mp (sorted_object.mp event.additionalFields.2).1
  exact hperm.eq_of_pairwise (fun _ _ _ _ hlt hgt => absurd hlt (lt_asymm hgt))
    (hleft.sublist filter_sublist) hright

theorem nfcString_eq (htext : isNfc L text = true) : nfcString L text = text := by
  rw [nfcString, if_pos htext]

theorem nfcString_map {text : Option String}
    (htext : ∀ value, text = some value → isNfc L value = true) :
    text.map (nfcString L) = text := by
  cases text with
  | none => rfl
  | some value => rw [map_some, nfcString_eq (htext value rfl)]

theorem nfcJsonStringValues_eq {value : SortedValue} (hnormal : Normal L value.1) :
    nfcJsonStringValues L value = value :=
  Subtype.ext (mapWith_eq_self (fun _ => nfcString_eq) (fun _ _ => rfl) value.1 hnormal)

/-- The members of a normal event are decoded to the event. -/
theorem uncheckedOfFields_toFields (hnormal : event.IsNormal L)
    (hobject : event.payload.1.isObject = true) (hversion : event.protocolVersion = protocolVersionV0) :
    uncheckedOfFields L (event.toFields h) = .ok event := by
  have hstring : ∀ name text, (name, string text) ∈ event.ownMembers →
      requiredString (event.toFields h) name = .ok text := fun _ _ => requiredString_own h
  obtain ⟨hcorrelation, hflow, hparent⟩ :
      presentOptional (event.toFields h) "correlation_id" = .ok event.correlationId ∧
      presentOptional (event.toFields h) "flow_id" = .ok event.flowId ∧
      presentOptional (event.toFields h) "parent_flow_id" = .ok event.parentFlowId := by
    refine ⟨?_, ?_, ?_⟩
    all_goals
      exact presentOptional_own h (by intro value hv; simp [ownMembers, hv])
        (by intro hv; simp [ownMembers, hv]) (by decide)
  have htype : requiredEventType (event.toFields h) = .ok event.eventType := by
    rw [requiredEventType, hstring "event_type" event.eventType.asStr (by simp [ownMembers])]
    simp only [bind, Except.bind, EventType.tryFrom_asStr]
  have hpayload : requiredPayload (event.toFields h) = .ok event.payload := by
    have hget := get_own h (show ("payload", event.payload.1) ∈ event.ownMembers by simp [ownMembers])
    obtain ⟨payload, hsome, heq⟩ := map_eq_some_iff.mp hget
    obtain rfl : payload = event.payload := Subtype.ext heq
    rw [requiredPayload, hsome]
    exact if_pos hobject
  have hprotocol : requiredVersion (event.toFields h) = .ok event.protocolVersion := by
    rw [requiredVersion, hstring "protocol_version" event.protocolVersion (by simp [ownMembers])]
    simp only [bind, Except.bind, hversion, if_true]
  have hsequence : requiredSequence (event.toFields h) = .ok event.sequence := by
    rw [requiredSequence, get_own h (show ("sequence", .number (.ofU64 event.sequence)) ∈
      event.ownMembers by simp [ownMembers])]
    simp [Number.ofU64, Number.asU64]
  have htexts := hnormal.texts
  simp only [texts, mem_append, mem_cons, not_mem_nil, or_false, or_imp, forall_and,
    mem_toList, forall_eq] at htexts
  obtain ⟨⟨⟨⟨hc, hid⟩, hf⟩, hp⟩, hv, hsession, hsource, htime⟩ := htexts
  rw [uncheckedOfFields, hcorrelation, hstring "event_id" event.eventId (by simp [ownMembers]),
    htype, hflow, hparent, hpayload, hprotocol, hsequence,
    hstring "session_id" event.sessionId (by simp [ownMembers]),
    hstring "source" event.source (by simp [ownMembers]),
    hstring "timestamp" event.timestamp (by simp [ownMembers])]
  simp only [bind, Except.bind, pure, Except.pure, filter_members, nfcString_map hc,
    nfcString_map hf, nfcString_map hp, nfcString_eq hid, nfcString_eq hv, nfcString_eq hsession,
    nfcString_eq hsource, nfcString_eq htime, nfcJsonStringValues_eq hnormal.payload]

/-- What a written line says: the event is valid and the line is its canonical text. -/
theorem canonicalJsonl_eq_ok {line : String} :
    event.canonicalJsonl L = .ok line ↔ event.payload.1.isObject = true ∧
      event.protocolVersion = protocolVersionV0 ∧ event.validateV0 L = .ok () ∧
      ∃ text, canonicalJson L event.serializeFields = .ok text ∧ text ++ "\n" = line := by
  rw [canonicalJsonl]
  cases hobject : event.payload.1.isObject with
  | false => simp
  | true =>
    by_cases hversion : event.protocolVersion = protocolVersionV0
    · cases hvalid : event.validateV0 L with
      | error error => simp [hversion]
      | ok =>
        cases hcanonical : canonicalJson L event.serializeFields <;> simp [hversion, Except.map]
    · simp [hversion]

/-- The canonical text of a normal event is one line. -/
theorem plain_canonicalJsonl (hnormal : event.IsNormal L)
    (hcanonical : canonicalJson L event.serializeFields = .ok text)
    (hvalid : event.validateV0 L = .ok ()) : Json.Plain text.toList := by
  have hnesting : jsonNestingReachesLimit event.serializeFields 0 = false := by
    by_contra hreaches
    rw [canonicalJson, if_pos (by simpa using hreaches)] at hcanonical
    cases hcanonical
  rw [canonicalJson_eq _ (serializeFields_sorted hvalid) (serializeFields_normal hnormal) hnesting]
    at hcanonical
  obtain rfl := Except.ok.inj hcanonical
  rw [String.toList_ofList]
  refine plain_compact (fun number hnumber => ?_) _
    (serializeFields_integral hnormal.payloadIntegral hnormal.additionalIntegral)
  cases number with
  | integer i hi => exact plain_int i
  | float bits => cases hnumber

theorem fromValue_eq_ok {fields : List (String × Json Number)}
    {sorted : (object fields).sorted = true}
    (hdecoded : uncheckedOfFields L ⟨fields, sorted⟩ = .ok event)
    (hvalid : event.validateV0 L = .ok ()) :
    fromValue L ⟨.object fields, sorted⟩ = .ok event := by
  simp only [fromValue, hdecoded, bind, Except.bind, hvalid]

theorem canonicalJsonl_line (h : event.canonicalJsonl L = .ok (text ++ "\n")) :
    event.payload.1.isObject = true ∧ event.protocolVersion = protocolVersionV0 ∧
      event.validateV0 L = .ok () ∧ canonicalJson L event.serializeFields = .ok text := by
  obtain ⟨hobject, hversion, hvalid, text', hcanonical, htext⟩ := canonicalJsonl_eq_ok.mp h
  obtain rfl : text' = text := by
    have hlists := congrArg String.toList htext
    exact String.toList_inj.mp (by simpa using hlists)
  exact ⟨hobject, hversion, hvalid, hcanonical⟩

/-- The line of a normal event holds its canonical text, which is decoded to the event. -/
theorem decode_canonicalJsonl (hnormal : event.IsNormal L)
    (hline : event.canonicalJsonl L = .ok (text ++ "\n")) :
    ∃ value, L.fromStr text = .ok value ∧ canonicalJson L value.1 = .ok text ∧
      fromValue L value = .ok event := by
  obtain ⟨hobject, hversion, hvalid, hcanonical⟩ := canonicalJsonl_line hline
  refine ⟨⟨event.serializeFields, serializeFields_sorted hvalid⟩, ?_, hcanonical, ?_⟩
  · exact fromStr_canonicalJson ⟨_, serializeFields_sorted hvalid⟩
      (serializeFields_normal hnormal)
      (serializeFields_integral hnormal.payloadIntegral hnormal.additionalIntegral) hcanonical
  · have hdecoded := uncheckedOfFields_toFields hvalid hnormal hobject hversion
    exact fromValue_eq_ok hdecoded hvalid

end EventEnvelope

end Watershed.Proto
