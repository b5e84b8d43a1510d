/-
  Executor documents, there and back.

  A document that was written is read as its normal form, and that form is valid again. The other
  way round holds for documents in the writer's own spelling only: the derived readers also take an
  array for a record, an object for a variant without fields, and a tool result without its
  optional fields.
-/
import Watershed.Proto.ExecutorCodec

open List Except

namespace Watershed.Proto.Executor

open Serde

section
variable {L : Libraries} {E : ExecutorLibraries} {serde : SerdeJson} {α : Type}

/-! ## Framing -/

theorem okOr_eq_ok {ε : Type} {o : Option α} {error : ε} {a : α} :
    okOr o error = .ok a ↔ o = some a := by
  cases o <;> simp [okOr]

theorem refuseIf_eq_ok {condition : Prop} [Decidable condition] {message : String} {u : Unit} :
    refuseIf condition message = .ok u ↔ ¬ condition := by
  unfold refuseIf executorError
  by_cases h : condition <;> simp

variable {value : SortedValue} {request : ExecutorRequestV0} {response : ExecutorResponseV0}
    {digest : String} {preflight : ExecutorPreflightV0} {start : ExecutorStartV0}

variable {kind : String}

theorem decodeDocument_eq_ok [Serde α] {a : α} :
    decodeDocument E value kind = .ok a ↔ fromValue? value = some a := okOr_eq_ok

variable {limit : Nat} {bytes : List UInt8}

theorem canonicalDocument_eq_ok [Serde α] {document : α}
    {result : List UInt8 × SortedValue} :
    canonicalDocument L document limit kind = .ok result ↔
      ∃ text, canonicalJson L (toValue document).1 = .ok text ∧
        (utf8 text ++ [lineFeed]).length ≤ limit ∧
        (utf8 text ++ [lineFeed], toValue document) = result := by
  rw [canonicalDocument, bind_eq_ok]
  simp only [mapError_eq_ok, check_bind_eq_ok, refuseIf_eq_ok, not_lt, pure, Except.pure, ok.injEq]

theorem eq_dropLast_append {b : UInt8} :
    bytes.getLast? = some b ↔ bytes = bytes.dropLast ++ [b] := by
  constructor
  · intro h
    obtain ⟨front, rfl⟩ := List.getLast?_eq_some_iff.mp h
    rw [dropLast_concat]
  · intro h
    rw [h, List.getLast?_concat]

theorem parseCanonicalDocument_eq_ok :
    parseCanonicalDocument L serde bytes limit kind = .ok value ↔
      bytes.length ≤ limit ∧ ∃ body, bytes = utf8 body ++ [lineFeed] ∧ lineFeed ∉ utf8 body ∧
        parseUniqueJson serde body = .ok value ∧ canonicalJson L value.1 = .ok body := by
  rw [parseCanonicalDocument]
  simp only [bind_eq_ok, refuseIf_eq_ok, okOr_eq_ok, mapError_eq_ok, exists_const, not_lt,
    not_or, not_not, eq_dropLast_append, pure, Except.pure, Except.ok.injEq]
  refine and_congr_right fun _ => ?_
  constructor
  · rintro ⟨⟨hlast, hbody⟩, body, hutf8, found, hparse, text, hcanonical, htext, rfl⟩
    rw [← utf8_of_fromUtf8 hutf8] at hlast hbody
    rw [utf8_injective htext] at hcanonical
    exact ⟨body, hlast, hbody, hparse, hcanonical⟩
  · rintro ⟨body, rfl, hbody, hparse, hcanonical⟩
    rw [dropLast_concat]
    exact ⟨⟨rfl, hbody⟩, body, fromUtf8_utf8 body, value, hparse, body, hcanonical, rfl, rfl⟩

/-! ## Normal forms -/

/-- The document with its texts and the names of its maps in normal form. -/
def normalForm {α : Type} [Serde α] (L : Libraries) (document : α) : α :=
  codec.map L.nfc L.nfc document

/-- The type's own names are ASCII texts. -/
def AsciiNames (α : Type) [Serde α] : Prop :=
  ((codec (α := α)).names.all fun name => name.toList.all fun c => c.toNat < 128) = true

section
variable {α : Type} [Serde α] (hnames : AsciiNames α)
include hnames

theorem nfc_names : ∀ name ∈ (codec (α := α)).names, L.nfc name = name := fun name hname =>
  L.nfc_ascii name (all_eq_true.mp hnames name hname)

theorem canonicalForm_toValue {document : α}
    (hkeys : ((toValue document).1.mapTexts L.nfc).DistinctKeys) :
    canonicalForm L (toValue document).1 = (toValue (normalForm L document)).1 :=
  lawful.sortMembers_encode L.nfc L.nfc document (fun name h => ⟨nfc_names hnames name h,
    nfc_names hnames name h⟩) hkeys

/-- The canonical text of a document is that of its normal form, which is read from it. -/
theorem canonicalJson_toValue (serde : SerdeJson)
    (hidempotent : L.Idempotent)
    {document : α} {text : String} (h : canonicalJson L (toValue document).1 = .ok text) :
    canonicalJson L (toValue (normalForm L document)).1 = .ok text ∧
      parseUniqueJson serde text = .ok (toValue (normalForm L document)) ∧
      lineFeed ∉ utf8 text := by
  obtain ⟨hnesting, hkeys, htext⟩ := canonicalJson_eq_ok.mp h
  have hintegral : Integral (toValue document).1 := lawful.numbers_encode document
  have hform := canonicalForm_toValue hnames hkeys
  refine ⟨?_, ?_, ?_⟩
  · rw [← hform]
    exact canonicalJson_canonicalForm hidempotent h
  · have hparse := parseUniqueJson_canonicalForm serde _ hintegral hnesting
      (Json.sortMembers_sorted _ hkeys) 0
    rw [replicate_zero, append_nil, htext] at hparse
    rw [hparse]
    exact congrArg ok (Subtype.ext hform)
  · rw [lineFeed, newline_mem_utf8, ← htext, String.toList_ofList]
    intro hnewline
    have hplain := plain_of_integral (numberText L) (fun i h => rfl)
      (integral_canonicalForm hintegral) _ hnewline
    exact absurd hplain (by decide)

/-- What was written is received as the normal form. -/
theorem parseCanonicalDocument_canonicalDocument
    (hidempotent : L.Idempotent) {document : α}
    {value : SortedValue}
    (h : canonicalDocument L document limit kind = .ok (bytes, value)) :
    parseCanonicalDocument L serde bytes limit kind = .ok (toValue (normalForm L document)) := by
  obtain ⟨text, htext, hlimit, heq⟩ := canonicalDocument_eq_ok.mp h
  obtain ⟨hcanonical, hparse, hline⟩ := canonicalJson_toValue hnames serde hidempotent htext
  cases heq
  exact parseCanonicalDocument_eq_ok.mpr ⟨hlimit, text, rfl, hline, hparse, hcanonical⟩

end

/-! ## Spelling -/

/-- Whether the document is spelled as the writer spells it: every record is an object with all of
    its fields, every variant without fields is a string. -/
def exactDocument (α : Type) [Serde α] (serde : SerdeJson) (bytes : List UInt8) : Bool :=
  match fromUtf8 bytes.dropLast with
  | none => false
  | some body =>
    match parseUniqueJson serde body with
    | .error _ => false
    | .ok value => (codec (α := α)).exact value.1

section
variable {α : Type} [Serde α] {bytes : List UInt8} {limit : Nat} {kind : String}

theorem toValue_injective {document other : α} (h : toValue document = toValue other) :
    document = other := by
  have hread : fromValue? (toValue document) = some document := lawful.decode_encode document
  rw [h] at hread
  exact (Option.some.inj (hread.symm.trans (lawful.decode_encode other)))

theorem exactDocument_eq (h : parseCanonicalDocument L serde bytes limit kind = .ok value) :
    exactDocument α serde bytes = (codec (α := α)).exact value.1 := by
  obtain ⟨-, body, rfl, -, hparse, -⟩ := parseCanonicalDocument_eq_ok.mp h
  simp only [exactDocument, dropLast_concat, fromUtf8_utf8, hparse]

/-- A document that was received in the writer's spelling is written as it was received, and is in
    normal form. -/
theorem canonicalDocument_of_exact (hnames : AsciiNames α)
    (hidempotent : L.Idempotent) {document : α}
    (hparse : parseCanonicalDocument L serde bytes limit kind = .ok value)
    (hread : fromValue? value = some document) (hexact : exactDocument α serde bytes = true) :
    canonicalDocument L document limit kind = .ok (bytes, toValue document) ∧
      normalForm L document = document := by
  rw [exactDocument_eq hparse] at hexact
  have hvalue : toValue document = value :=
    Subtype.ext (lawful.encode_decode value.1 document value.2 hread hexact)
  obtain ⟨hlimit, body, rfl, -, hbody, hcanonical⟩ := parseCanonicalDocument_eq_ok.mp hparse
  rw [← hvalue] at hcanonical hbody
  obtain ⟨-, hnormal, -⟩ := canonicalJson_toValue hnames serde hidempotent hcanonical
  refine ⟨canonicalDocument_eq_ok.mpr ⟨body, hcanonical, hlimit, rfl⟩, toValue_injective ?_⟩
  exact ok.inj (hnormal.symm.trans hbody)

/-- What is written has the writer's spelling. -/
theorem exactDocument_of_canonicalDocument (hnames : AsciiNames α)
    (hidempotent : L.Idempotent) {document : α}
    (h : canonicalDocument L document limit kind = .ok (bytes, value)) :
    exactDocument α serde bytes = true := by
  rw [exactDocument_eq (parseCanonicalDocument_canonicalDocument hnames hidempotent h)]
  exact lawful.exact_encode (normalForm L document)

theorem nfcString_eq (L : Libraries) : nfcString L = L.nfc := by
  funext text
  unfold nfcString
  split
  · rename_i h
    exact (nfc_of_isNfc h).symm
  · rfl

/-- What the writer decodes in order to check it: the names of maps are left as they are. -/
theorem fromValue_nfcJsonStringValues (hnames : AsciiNames α) (document : α) :
    fromValue? (nfcJsonStringValues L (toValue document)) = some (codec.map L.nfc id document) := by
  have hmap : (nfcJsonStringValues L (toValue document)).1 =
      codec.encode (codec.map L.nfc id document) := by
    show (toValue document).1.mapStrings (nfcString L) = _
    rw [nfcString_eq]
    exact lawful.mapStrings_encode L.nfc document (nfc_names hnames)
  rw [fromValue?, hmap]
  exact lawful.decode_encode _

end

/-! ## Normal forms of the documents -/

variable (L)

def ExecutorProtectedObjectV0.normalized (object : ExecutorProtectedObjectV0) :
    ExecutorProtectedObjectV0 :=
  { object with path := L.nfc object.path }

def ExecutorResolvedPolicyV0.normalized (policy : ExecutorResolvedPolicyV0) :
    ExecutorResolvedPolicyV0 where
  argv := policy.argv.map L.nfc
  environment := .collect (policy.environment.entries.map fun x => (L.nfc x.1, L.nfc x.2))
  executable := L.nfc policy.executable
  limits := policy.limits
  protectedObjects := policy.protectedObjects.map (·.normalized L)
  toolId := L.nfc policy.toolId
  toolKind := L.nfc policy.toolKind
  workingDirectory := L.nfc policy.workingDirectory

def ExecutorRequestV0.normalized (request : ExecutorRequestV0) :
    ExecutorRequestV0 where
  resolvedPolicy := request.resolvedPolicy.normalized L
  policyDigest := L.nfc request.policyDigest
  requestId := L.nfc request.requestId
  schema := L.nfc request.schema

def ExecutorPreflightV0.normalized : ExecutorPreflightV0 → ExecutorPreflightV0
  | .ready requestId schema => .ready (L.nfc requestId) (L.nfc schema)
  | .error code message requestId schema =>
    .error code (L.nfc message) (L.nfc requestId) (L.nfc schema)

def ExecutorStartV0.normalized (start : ExecutorStartV0) : ExecutorStartV0 where
  requestId := L.nfc start.requestId
  schema := L.nfc start.schema

def EnforcementReceiptV0.normalized (receipt : EnforcementReceiptV0) :
    EnforcementReceiptV0 where
  appliedPolicyDigest := L.nfc receipt.appliedPolicyDigest
  backend := L.nfc receipt.backend
  backendVersion := L.nfc receipt.backendVersion
  executor := L.nfc receipt.executor
  executorVersion := L.nfc receipt.executorVersion
  selfProtectionActive := receipt.selfProtectionActive
  platform := L.nfc receipt.platform

def ExecutorToolResultV0.normalized (result : ExecutorToolResultV0) :
    ExecutorToolResultV0 :=
  { result with
    stderrBase64 := L.nfc result.stderrBase64
    stdoutBase64 := L.nfc result.stdoutBase64 }

def ExecutorResponseV0.normalized : ExecutorResponseV0 → ExecutorResponseV0
  | .completed enforcement requestId schema toolResult =>
    .completed (enforcement.normalized L) (L.nfc requestId) (L.nfc schema) (toolResult.normalized L)
  | .error code message requestId schema =>
    .error code (L.nfc message) (L.nfc requestId) (L.nfc schema)

def ExecutorProbeV0.normalized (probe : ExecutorProbeV0) : ExecutorProbeV0 where
  backend := L.nfc probe.backend
  backendVersion := L.nfc probe.backendVersion
  executor := L.nfc probe.executor
  executorVersion := L.nfc probe.executorVersion
  platform := L.nfc probe.platform
  protocolVersions := probe.protocolVersions.map L.nfc
  ready := probe.ready
  schema := L.nfc probe.schema
  supportedPolicyFeatures := probe.supportedPolicyFeatures.map L.nfc

variable {L}

theorem map_preflight (preflight : ExecutorPreflightV0) (g : String → String) :
    codec.map L.nfc g preflight = preflight.normalized L := by
  cases preflight <;> rfl

theorem map_result (result : ExecutorToolResultV0) (g : String → String) :
    codec.map L.nfc g result = result.normalized L := by
  obtain ⟨classification, exitCode, status, stderrBase64, stdoutBase64⟩ := result
  cases classification <;> cases exitCode <;> rfl

theorem map_response (response : ExecutorResponseV0) (g : String → String) :
    codec.map L.nfc g response = response.normalized L := by
  cases response with
  | completed enforcement requestId schema toolResult =>
    exact congrArg (ExecutorResponseV0.completed (enforcement.normalized L) (L.nfc requestId)
      (L.nfc schema)) (map_result toolResult g)
  | error code message requestId schema => rfl

/-- Normalizing the names of the environment after the texts gives the normal form. -/
theorem normalizeEnvironmentNames_map (request : ExecutorRequestV0) :
    normalizeEnvironmentNames L (codec.map L.nfc id request) = request.normalized L := by
  have hentries := TextMap.entries_map_id L.nfc request.resolvedPolicy.environment
  refine congrArg (fun environment => ({ request.normalized L with
    resolvedPolicy := { request.resolvedPolicy.normalized L with environment } } :
      ExecutorRequestV0)) ?_
  change TextMap.collect (map _ (request.resolvedPolicy.environment.map id L.nfc).entries) = _
  rw [hentries, map_map, nfcString_eq]
  rfl

/-! ## Documents that are written and read -/

/-- The names of all documents; one evaluation for the five of them. -/
theorem asciiNames_documents :
    AsciiNames ExecutorRequestV0 ∧ AsciiNames ExecutorPreflightV0 ∧ AsciiNames ExecutorStartV0 ∧
      AsciiNames ExecutorResponseV0 ∧ AsciiNames ExecutorProbeV0 := by
  unfold AsciiNames
  decide +kernel

theorem asciiNames_request : AsciiNames ExecutorRequestV0 := asciiNames_documents.1

theorem asciiNames_preflight : AsciiNames ExecutorPreflightV0 := asciiNames_documents.2.1

theorem asciiNames_start : AsciiNames ExecutorStartV0 := asciiNames_documents.2.2.1

theorem asciiNames_response : AsciiNames ExecutorResponseV0 := asciiNames_documents.2.2.2.1

theorem asciiNames_probe : AsciiNames ExecutorProbeV0 := asciiNames_documents.2.2.2.2

section
variable {α : Type} [Serde α] {document normal : α} {limit : Nat} {kind : String}
  {bytes : List UInt8}

/-- A document is written once its normal form passes the check. -/
theorem written_eq_ok (hnames : AsciiNames α) (check : α → ProtocolResult Unit)
    (hnormal : codec.map L.nfc id document = normal) :
    (do
      let written ← canonicalDocument L document limit kind
      let normalized ← decodeDocument E (nfcJsonStringValues L written.2) kind
      check normalized
      return written.1) = .ok bytes ↔
    canonicalDocument L document limit kind = .ok (bytes, toValue document) ∧
      check normal = .ok () := by
  have hdecode := fromValue_nfcJsonStringValues (L := L) hnames document
  rw [hnormal] at hdecode
  simp only [bind_eq_ok, decodeDocument_eq_ok, canonicalDocument_eq_ok, pure, Except.pure,
    Except.ok.injEq]
  constructor
  · rintro ⟨written, ⟨text, htext, hlimit, rfl⟩, normalized, hread, u, hcheck, rfl⟩
    cases hdecode.symm.trans hread
    exact ⟨⟨text, htext, hlimit, rfl⟩, hcheck⟩
  · rintro ⟨⟨text, htext, hlimit, heq⟩, hcheck⟩
    cases heq
    exact ⟨_, ⟨text, htext, hlimit, rfl⟩, normal, hdecode, (), hcheck, rfl⟩

theorem read_eq_ok {check : α → ProtocolResult Unit} :
    (do
      let value ← parseCanonicalDocument L serde bytes limit kind
      let document ← decodeDocument E value kind
      check document
      return document) = .ok document ↔
    ∃ value, parseCanonicalDocument L serde bytes limit kind = .ok value ∧
      fromValue? value = some document ∧ check document = .ok () := by
  simp only [bind_eq_ok, decodeDocument_eq_ok, pure, Except.pure, Except.ok.injEq]
  constructor
  · rintro ⟨value, hparse, found, hread, u, hcheck, rfl⟩
    exact ⟨value, hparse, hread, hcheck⟩
  · rintro ⟨value, hparse, hread, hcheck⟩
    exact ⟨value, hparse, document, hread, (), hcheck, rfl⟩

end

/-! ## Survival -/

/-- Distinct paths of a request that passed its checks. -/
theorem nodup_of_validateProtectedObjects {objects : List ExecutorProtectedObjectV0} {index : Nat}
    {paths : List String} (h : validateProtectedObjects index paths objects = .ok ()) :
    (objects.map (·.path)).Nodup ∧ ∀ object ∈ objects, object.path ∉ paths := by
  induction objects generalizing index paths with
  | nil => simp
  | cons object objects ih =>
    rw [validateProtectedObjects] at h
    simp only [check_bind_eq_ok, refuseIf_eq_ok] at h
    obtain ⟨-, -, -, hpath, h⟩ := h
    obtain ⟨hnodup, hpaths⟩ := ih h
    refine ⟨nodup_cons.mpr ⟨fun hmem => ?_, hnodup⟩, forall_mem_cons.mpr ⟨hpath, ?_⟩⟩
    · obtain ⟨other, hother, heq⟩ := mem_map.mp hmem
      exact hpaths other hother (heq ▸ mem_cons_self)
    · exact fun other hother hmem => hpaths other hother (mem_cons_of_mem _ hmem)

/-- What the checks of a request say about its digest and its paths. -/
theorem digest_of_validateRequest (h : validateRequest L E request = .ok ()) :
    resolvedPolicyDigestV0 L E request.resolvedPolicy = .ok request.policyDigest ∧
      (request.resolvedPolicy.protectedObjects.map (·.path)).Nodup := by
  -- the thirteen checks before those of the objects
  iterate 13 replace h := (check_bind_eq_ok.mp h).2
  obtain ⟨hobjects, h⟩ := check_bind_eq_ok.mp h
  replace h := (check_bind_eq_ok.mp h).2
  obtain ⟨digest, hdigest, h⟩ := bind_eq_ok.mp h
  have heq := (check_bind_eq_ok.mp h).1
  rw [refuseIf_eq_ok, not_not] at heq
  rw [heq] at hdigest
  exact ⟨hdigest, (nodup_of_validateProtectedObjects hobjects).1⟩

/-- The digest that a response is for; an error is for any. -/
def ExecutorResponseV0.IsFor (digest : String) : ExecutorResponseV0 → Prop
  | .completed enforcement _ _ _ => enforcement.appliedPolicyDigest = digest
  | .error _ _ _ _ => True

variable {bytes : List UInt8} {requestId : String} {α : Type}
    {canonical : α → ProtocolResult (List UInt8)}

theorem validateResponse_policyDigest {normal : ExecutorResponseV0} (hfor : response.IsFor digest)
    (hnormal : normal = response.normalized L) :
    validateResponse normal requestId response.policyDigest =
      validateResponse normal requestId digest := by
  subst hnormal
  cases response with
  | completed enforcement id schema toolResult =>
    rw [ExecutorResponseV0.policyDigest, show enforcement.appliedPolicyDigest = digest from hfor]
  | error code message id schema => rfl

theorem canonicalExecutorRequestV0_eq_ok :
    canonicalExecutorRequestV0 L E request = .ok bytes ↔ validateRequest L E request = .ok () ∧
        canonicalDocument L request maxExecutorRequestBytesV0 "request" =
          .ok (bytes, toValue request) ∧
        validateRequest L E (request.normalized L) = .ok () := by
  rw [canonicalExecutorRequestV0, check_bind_eq_ok]
  refine and_congr_right fun _ => ?_
  rw [← normalizeEnvironmentNames_map]
  exact written_eq_ok asciiNames_request (fun normalized =>
    validateRequest L E (normalizeEnvironmentNames L normalized)) rfl

theorem canonicalExecutorPreflightV0_eq_ok :
    canonicalExecutorPreflightV0 L E preflight = .ok bytes ↔
      canonicalDocument L preflight maxExecutorControlBytesV0 "preflight" =
          .ok (bytes, toValue preflight) ∧
        validatePreflight (preflight.normalized L) preflight.requestId = .ok () :=
  written_eq_ok asciiNames_preflight (validatePreflight · preflight.requestId)
    (map_preflight preflight id)

theorem canonicalExecutorStartV0_eq_ok :
    canonicalExecutorStartV0 L E start = .ok bytes ↔
      canonicalDocument L start maxExecutorControlBytesV0 "start" = .ok (bytes, toValue start) ∧
        validateStart (start.normalized L) start.requestId = .ok () :=
  written_eq_ok asciiNames_start (validateStart · start.requestId) rfl

theorem canonicalExecutorResponseV0_eq_ok :
    canonicalExecutorResponseV0 L E response = .ok bytes ↔
      canonicalDocument L response maxExecutorResponseBytesV0 "response" =
          .ok (bytes, toValue response) ∧
        validateResponse (response.normalized L) response.requestId response.policyDigest =
          .ok () :=
  written_eq_ok asciiNames_response
    (validateResponse · response.requestId response.policyDigest) (map_response response id)

theorem canonicalExecutorProbeV0_eq_ok {probe : ExecutorProbeV0} :
    canonicalExecutorProbeV0 L E probe = .ok bytes ↔
      canonicalDocument L probe maxExecutorProbeBytesV0 "probe" = .ok (bytes, toValue probe) ∧
        validateProbe (probe.normalized L) = .ok () :=
  written_eq_ok asciiNames_probe validateProbe rfl

/-- Reading a document that was written, with the check that the writer made. -/
theorem read_of_written [Serde α] {document normal : α}
    (hnames : AsciiNames α) (check : α → ProtocolResult Unit)
    (hidempotent : L.Idempotent)
    (hnormal : normalForm L document = normal)
    (h : canonicalDocument L document limit kind = .ok (bytes, toValue document))
    (hcheck : check normal = .ok ()) :
    (do
      let value ← parseCanonicalDocument L serde bytes limit kind
      let document ← decodeDocument E value kind
      check document
      return document) = .ok normal := by
  subst hnormal
  exact read_eq_ok.mpr ⟨_, parseCanonicalDocument_canonicalDocument hnames hidempotent h,
    lawful.decode_encode _, hcheck⟩

/-- What the writer of a document sends is accepted by the reader with the document's own request
    identifier and digest, as the document in normal form; that form is valid again. -/
theorem executor_documents_survive (L : Libraries) (E : ExecutorLibraries) (serde : SerdeJson)
    (hidempotent : ∀ text, L.nfc (L.nfc text) = L.nfc text) :
    (∀ request bytes, canonicalExecutorRequestV0 L E request = .ok bytes →
      parseExecutorRequestV0 L E serde bytes = .ok (request.normalized L) ∧
      validateRequest L E (request.normalized L) = .ok () ∧
      resolvedPolicyDigestV0 L E (request.normalized L).resolvedPolicy =
        .ok (request.normalized L).policyDigest ∧
      ((request.normalized L).resolvedPolicy.protectedObjects.map (·.path)).Nodup) ∧
    (∀ preflight bytes, canonicalExecutorPreflightV0 L E preflight = .ok bytes →
      parseExecutorPreflightV0 L E serde bytes preflight.requestId = .ok (preflight.normalized L) ∧
      validatePreflight (preflight.normalized L) preflight.requestId = .ok ()) ∧
    (∀ start bytes, canonicalExecutorStartV0 L E start = .ok bytes →
      parseExecutorStartV0 L E serde bytes start.requestId = .ok (start.normalized L) ∧
      validateStart (start.normalized L) start.requestId = .ok ()) ∧
    (∀ response bytes digest, canonicalExecutorResponseV0 L E response = .ok bytes →
      response.IsFor digest →
      parseExecutorResponseV0 L E serde bytes response.requestId digest =
        .ok (response.normalized L) ∧
      validateResponse (response.normalized L) response.requestId digest = .ok ()) ∧
    (∀ probe bytes, canonicalExecutorProbeV0 L E probe = .ok bytes →
      parseExecutorProbeV0 L E serde bytes = .ok (probe.normalized L) ∧
      validateProbe (probe.normalized L) = .ok ()) := by
  refine ⟨fun request bytes h => ?_, fun preflight bytes h => ?_, fun start bytes h => ?_,
    fun response bytes digest h hfor => ?_, fun probe bytes h => ?_⟩
  · obtain ⟨-, hwritten, hcheck⟩ := canonicalExecutorRequestV0_eq_ok.mp h
    exact ⟨read_of_written asciiNames_request (validateRequest L E) hidempotent rfl hwritten hcheck,
      hcheck, digest_of_validateRequest hcheck⟩
  · obtain ⟨hwritten, hcheck⟩ := canonicalExecutorPreflightV0_eq_ok.mp h
    exact ⟨read_of_written asciiNames_preflight (validatePreflight · preflight.requestId) hidempotent
      (map_preflight preflight L.nfc) hwritten hcheck, hcheck⟩
  · obtain ⟨hwritten, hcheck⟩ := canonicalExecutorStartV0_eq_ok.mp h
    exact ⟨read_of_written asciiNames_start (validateStart · start.requestId) hidempotent rfl
      hwritten hcheck, hcheck⟩
  · obtain ⟨hwritten, hcheck⟩ := canonicalExecutorResponseV0_eq_ok.mp h
    rw [validateResponse_policyDigest hfor rfl] at hcheck
    exact ⟨read_of_written asciiNames_response (validateResponse · response.requestId digest)
      hidempotent (map_response response L.nfc) hwritten hcheck, hcheck⟩
  · obtain ⟨hwritten, hcheck⟩ := canonicalExecutorProbeV0_eq_ok.mp h
    exact ⟨read_of_written asciiNames_probe validateProbe hidempotent rfl hwritten hcheck, hcheck⟩

/-! ## One wire form -/

/-- Documents that were read are written as they were read just when they are spelled exactly, so
    no two exact byte strings stand for one document. -/
def OneWireForm {α : Type} (parse : List UInt8 → ProtocolResult α)
    (canonical : α → ProtocolResult (List UInt8)) (isExact : List UInt8 → Bool) :
    Prop :=
  (∀ bytes document, parse bytes = .ok document →
    (canonical document = .ok bytes ↔ isExact bytes = true)) ∧
  (∀ bytes others document, parse bytes = .ok document → parse others = .ok document →
    isExact bytes = true → isExact others = true → bytes = others)

theorem oneWireForm_of_iff {parse : List UInt8 → ProtocolResult α}
    {isExact : List UInt8 → Bool} (h : ∀ bytes document, parse bytes = .ok document →
      (canonical document = .ok bytes ↔ isExact bytes = true)) :
    OneWireForm parse canonical isExact := by
  refine ⟨h, fun bytes others document hbytes hothers hexact hexactOthers => ?_⟩
  have hleft := (h bytes document hbytes).mpr hexact
  have hright := (h others document hothers).mpr hexactOthers
  exact ok.inj (hleft.symm.trans hright)

/-- A kind of document has one wire form if writing starts with the canonical text and accepts a
    document in normal form that was read. -/
theorem oneWireForm [Serde α] (hnames : AsciiNames α)
    (hidempotent : L.Idempotent)
    {check : α → ProtocolResult Unit}
    (hcanonical : ∀ document bytes, canonical document = .ok bytes →
      canonicalDocument L document limit kind = .ok (bytes, toValue document))
    (hwrite : ∀ document bytes, check document = .ok () → normalForm L document = document →
      canonicalDocument L document limit kind = .ok (bytes, toValue document) →
      canonical document = .ok bytes) :
    OneWireForm (fun bytes => do
      let value ← parseCanonicalDocument L serde bytes limit kind
      let document ← decodeDocument E value kind
      check document
      return document) canonical (exactDocument α serde) := by
  refine oneWireForm_of_iff fun bytes document h => ?_
  obtain ⟨value, hparse, hread, hcheck⟩ := read_eq_ok.mp h
  constructor
  · intro hwritten
    exact exactDocument_of_canonicalDocument hnames hidempotent (hcanonical document bytes hwritten)
  · intro hexact
    obtain ⟨hwritten, hnormal⟩ := canonicalDocument_of_exact hnames hidempotent hparse hread hexact
    exact hwrite document bytes hcheck hnormal hwritten

theorem requestId_of_validatePreflight
    (h : validatePreflight preflight requestId = .ok ()) : preflight.requestId = requestId := by
  iterate 2 replace h := (check_bind_eq_ok.mp h).2
  have heq := (check_bind_eq_ok.mp h).1
  rwa [refuseIf_eq_ok, not_not] at heq

theorem requestId_of_validateStart
    (h : validateStart start requestId = .ok ()) : start.requestId = requestId := by
  iterate 2 replace h := (check_bind_eq_ok.mp h).2
  rwa [refuseIf_eq_ok, not_not] at h

theorem digest_of_validateReceipt {receipt : EnforcementReceiptV0}
    (h : validateReceipt receipt digest = .ok ()) : receipt.appliedPolicyDigest = digest := by
  iterate 2 replace h := (check_bind_eq_ok.mp h).2
  have heq := (check_bind_eq_ok.mp h).1
  rwa [refuseIf_eq_ok, not_not] at heq

theorem requestId_of_validateResponse {requestId : String}
    (h : validateResponse response requestId digest = .ok ()) :
    response.requestId = requestId ∧ response.IsFor digest := by
  iterate 2 replace h := (check_bind_eq_ok.mp h).2
  obtain ⟨heq, h⟩ := check_bind_eq_ok.mp h
  rw [refuseIf_eq_ok, not_not] at heq
  refine ⟨heq, ?_⟩
  cases response with
  | completed enforcement id schema toolResult =>
    exact digest_of_validateReceipt (check_bind_eq_ok.mp h).1
  | error code message id schema => trivial

/-- Each of the five documents, when it is accepted, is written again as the same bytes iff it was
    spelled exactly. -/
theorem executor_documents_oneWireForm (L : Libraries) (E : ExecutorLibraries) (serde : SerdeJson)
    (hidempotent : ∀ text, L.nfc (L.nfc text) = L.nfc text) (requestId digest : String) :
    OneWireForm (parseExecutorRequestV0 L E serde) (canonicalExecutorRequestV0 L E)
      (exactDocument ExecutorRequestV0 serde) ∧
    OneWireForm (parseExecutorPreflightV0 L E serde · requestId) (canonicalExecutorPreflightV0 L E)
      (exactDocument ExecutorPreflightV0 serde) ∧
    OneWireForm (parseExecutorStartV0 L E serde · requestId) (canonicalExecutorStartV0 L E)
      (exactDocument ExecutorStartV0 serde) ∧
    OneWireForm (parseExecutorResponseV0 L E serde · requestId digest)
      (canonicalExecutorResponseV0 L E) (exactDocument ExecutorResponseV0 serde) ∧
    OneWireForm (parseExecutorProbeV0 L E serde) (canonicalExecutorProbeV0 L E)
      (exactDocument ExecutorProbeV0 serde) := by
  refine ⟨?_, ?_, ?_, ?_, ?_⟩
  · refine oneWireForm asciiNames_request hidempotent
      (fun request bytes h => (canonicalExecutorRequestV0_eq_ok.mp h).2.1)
      fun request bytes hcheck hnormal hwritten => canonicalExecutorRequestV0_eq_ok.mpr ?_
    exact ⟨hcheck, hwritten, (congrArg (validateRequest L E) hnormal).trans hcheck⟩
  · refine oneWireForm asciiNames_preflight hidempotent
      (fun preflight bytes h => (canonicalExecutorPreflightV0_eq_ok.mp h).1)
      fun preflight bytes hcheck hnormal hwritten => canonicalExecutorPreflightV0_eq_ok.mpr ?_
    rw [← map_preflight preflight L.nfc, requestId_of_validatePreflight hcheck]
    exact ⟨hwritten, (congrArg (validatePreflight · requestId) hnormal).trans hcheck⟩
  · refine oneWireForm asciiNames_start hidempotent
      (fun start bytes h => (canonicalExecutorStartV0_eq_ok.mp h).1)
      fun start bytes hcheck hnormal hwritten => canonicalExecutorStartV0_eq_ok.mpr ?_
    rw [requestId_of_validateStart hcheck]
    exact ⟨hwritten, (congrArg (validateStart · requestId) hnormal).trans hcheck⟩
  · refine oneWireForm asciiNames_response hidempotent
      (fun response bytes h => (canonicalExecutorResponseV0_eq_ok.mp h).1)
      fun response bytes hcheck hnormal hwritten => canonicalExecutorResponseV0_eq_ok.mpr ?_
    obtain ⟨hid, hfor⟩ := requestId_of_validateResponse hcheck
    rw [validateResponse_policyDigest hfor rfl, ← map_response response L.nfc, hid]
    exact ⟨hwritten, (congrArg (validateResponse · requestId digest) hnormal).trans hcheck⟩
  · refine oneWireForm asciiNames_probe hidempotent
      (fun probe bytes h => (canonicalExecutorProbeV0_eq_ok.mp h).1)
      fun probe bytes hcheck hnormal hwritten => canonicalExecutorProbeV0_eq_ok.mpr ?_
    exact ⟨hwritten, (congrArg validateProbe hnormal).trans hcheck⟩

/-! ### A start record as an array -/

/-- The libraries of the Executor, with one digest for every policy. -/
def sampleExecutorLibraries : ExecutorLibraries where
  sha256 _ := ⟨List.replicate 32 170, by decide +kernel⟩
  fromValueError _ _ := "invalid type"

def sampleStart : ExecutorStartV0 := ⟨"request-1", "flow-executor-start-v0"⟩

/-- The fields of the record in the order of their declaration. -/
def arrayStart : List UInt8 := utf8 "[\"request-1\",\"flow-executor-start-v0\"]" ++ [lineFeed]

def objectStart : List UInt8 :=
  utf8 "\x7b\"request_id\":\"request-1\",\"schema\":\"flow-executor-start-v0\"\x7d" ++ [lineFeed]

abbrev readStart (bytes : List UInt8) : ProtocolResult ExecutorStartV0 :=
  parseExecutorStartV0 acuteLibraries sampleExecutorLibraries compactSerde bytes "request-1"

/-- What the functions give for these bytes. -/
theorem sampleStart_evaluated :
    canonicalExecutorStartV0 acuteLibraries sampleExecutorLibraries sampleStart = .ok objectStart ∧
      readStart arrayStart = .ok sampleStart ∧ arrayStart ≠ objectStart ∧
      exactDocument ExecutorStartV0 compactSerde objectStart = true := by
  decide +kernel

theorem parse_objectStart : readStart objectStart = .ok sampleStart := by
  have hwritten := (canonicalExecutorStartV0_eq_ok.mp sampleStart_evaluated.1).1
  exact read_of_written asciiNames_start (validateStart · "request-1") acuteLibraries_idempotent
    (by rfl) hwritten (by rfl)

theorem executor_start_two_forms :
    readStart arrayStart = .ok sampleStart ∧ readStart objectStart = .ok sampleStart ∧
      canonicalExecutorStartV0 acuteLibraries sampleExecutorLibraries sampleStart =
        .ok objectStart ∧ arrayStart ≠ objectStart :=
  ⟨sampleStart_evaluated.2.1, parse_objectStart, sampleStart_evaluated.1,
    sampleStart_evaluated.2.2.1⟩

theorem executor_documents_oneWireForm_object :
    canonicalExecutorStartV0 acuteLibraries sampleExecutorLibraries sampleStart = .ok objectStart :=
  ((executor_documents_oneWireForm acuteLibraries sampleExecutorLibraries compactSerde
    acuteLibraries_idempotent "request-1" "").2.2.1.1 objectStart sampleStart
    parse_objectStart).mpr sampleStart_evaluated.2.2.2

end

end Watershed.Proto.Executor
