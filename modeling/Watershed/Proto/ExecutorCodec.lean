/-
  Executor documents on the wire (`executor/codec.rs`).

  A document is one line of canonical JSON. It is checked after its texts were brought into normal
  form, both before it is sent and after it was received.
-/
import Watershed.Proto.ExecutorValidation
import Watershed.Proto.UniqueJson

namespace Watershed.Proto.Executor

def maxExecutorRequestBytesV0 : Nat := 1024 * 1024
def maxExecutorControlBytesV0 : Nat := 8 * 1024
def maxExecutorEncodedStreamBytesV0 : Nat := (maxExecutorToolStreamBytesV0 + 2) / 3 * 4
def maxExecutorResponseBytesV0 : Nat := 2 * maxExecutorEncodedStreamBytesV0 + 64 * 1024
def maxExecutorProbeBytesV0 : Nat := 64 * 1024

/-- The newline that ends a document. -/
def lineFeed : UInt8 := 10

section
variable (L : Libraries) (E : ExecutorLibraries) (serde : SerdeJson)

def decodeDocument {α : Type} [Serde α] (value : SortedValue) (kind : String) : ProtocolResult α :=
  okOr (fromValue? value) ⟨"invalid Executor " ++ kind ++ ": " ++ E.fromValueError kind value⟩

variable (bytes : List UInt8)

def parseCanonicalDocument (limit : Nat) (kind : String) :
    ProtocolResult SortedValue := do
  refuseIf (limit < bytes.length) ("Executor " ++ kind ++ " exceeds its byte limit")
  refuseIf (bytes.getLast? ≠ some lineFeed ∨ lineFeed ∈ bytes.dropLast)
    ("Executor " ++ kind ++ " must be one LF-terminated canonical JSON document")
  let body ← okOr (fromUtf8 bytes.dropLast) ⟨"Executor " ++ kind ++ " is not UTF-8"⟩
  let value ← (parseUniqueJson serde body).mapError fun error =>
    ⟨"invalid Executor " ++ kind ++ ": " ++ error⟩
  let canonical ← (canonicalJson L value.1).mapError fun error =>
    ⟨"invalid Executor " ++ kind ++ ": " ++ error.text L⟩
  refuseIf (utf8 canonical ≠ utf8 body) ("Executor " ++ kind ++ " is not canonical JSON")
  return value

def canonicalDocument {α : Type} [Serde α] (document : α) (limit : Nat) (kind : String) :
    ProtocolResult (List UInt8 × SortedValue) := do
  let value := toValue document
  let text ← (canonicalJson L value.1).mapError fun error =>
    ⟨"invalid Executor " ++ kind ++ ": " ++ error.text L⟩
  let bytes := utf8 text ++ [lineFeed]
  refuseIf (limit < bytes.length) ("Executor " ++ kind ++ " exceeds its byte limit")
  return (bytes, value)

/-! ## Writing -/

/-- The request with the names of its environment in normal form. -/
def normalizeEnvironmentNames (request : ExecutorRequestV0) : ExecutorRequestV0 := { request with
    resolvedPolicy := { request.resolvedPolicy with
        environment := .collect (request.resolvedPolicy.environment.entries.map fun x =>
          (nfcString L x.1, x.2)) } }

/-- Serializes and validates one canonical Executor request plus LF. -/
def canonicalExecutorRequestV0 (request : ExecutorRequestV0) :
    ProtocolResult (List UInt8) := do
  validateRequest L E request
  let written ← canonicalDocument L request maxExecutorRequestBytesV0 "request"
  let normalized ← decodeDocument E (nfcJsonStringValues L written.2) "request"
  validateRequest L E (normalizeEnvironmentNames L normalized)
  return written.1

/-- Serializes and validates one canonical Executor preflight response plus LF. -/
def canonicalExecutorPreflightV0 (preflight : ExecutorPreflightV0) :
    ProtocolResult (List UInt8) := do
  let requestId := preflight.requestId
  let written ← canonicalDocument L preflight maxExecutorControlBytesV0 "preflight"
  let preflight ← decodeDocument E (nfcJsonStringValues L written.2) "preflight"
  validatePreflight preflight requestId
  return written.1

/-- Serializes and validates one canonical Executor start record plus LF. -/
def canonicalExecutorStartV0 (start : ExecutorStartV0) :
    ProtocolResult (List UInt8) := do
  let written ← canonicalDocument L start maxExecutorControlBytesV0 "start"
  let normalized ← decodeDocument E (nfcJsonStringValues L written.2) "start"
  validateStart normalized start.requestId
  return written.1

/-- The digest that a response is checked against before it is sent. -/
def ExecutorResponseV0.policyDigest : ExecutorResponseV0 → String
  | .completed enforcement _ _ _ => enforcement.appliedPolicyDigest
  | .error _ _ _ _ => ""

/-- Serializes and validates one canonical Executor response plus LF. -/
def canonicalExecutorResponseV0 (response : ExecutorResponseV0) :
    ProtocolResult (List UInt8) := do
  let requestId := response.requestId
  let policyDigest := response.policyDigest
  let written ← canonicalDocument L response maxExecutorResponseBytesV0 "response"
  let response ← decodeDocument E (nfcJsonStringValues L written.2) "response"
  validateResponse response requestId policyDigest
  return written.1

/-- Serializes and validates one canonical Executor probe plus LF. -/
def canonicalExecutorProbeV0 (probe : ExecutorProbeV0) :
    ProtocolResult (List UInt8) := do
  let written ← canonicalDocument L probe maxExecutorProbeBytesV0 "probe"
  let probe ← decodeDocument E (nfcJsonStringValues L written.2) "probe"
  validateProbe probe
  return written.1

/-! ## Reading -/

/-- Parses one exact canonical LF-terminated Executor request. -/
def parseExecutorRequestV0 : ProtocolResult ExecutorRequestV0 := do
  let value ← parseCanonicalDocument L serde bytes maxExecutorRequestBytesV0 "request"
  let request ← decodeDocument E value "request"
  validateRequest L E request
  return request

/-- Parses one exact canonical Executor preflight response for the expected request. -/
def parseExecutorPreflightV0 (expectedRequestId : String) :
    ProtocolResult ExecutorPreflightV0 := do
  let value ← parseCanonicalDocument L serde bytes maxExecutorControlBytesV0 "preflight"
  let preflight ← decodeDocument E value "preflight"
  validatePreflight preflight expectedRequestId
  return preflight

/-- Parses one exact canonical Executor start record for the expected request. -/
def parseExecutorStartV0 (expectedRequestId : String) :
    ProtocolResult ExecutorStartV0 := do
  let value ← parseCanonicalDocument L serde bytes maxExecutorControlBytesV0 "start"
  let start ← decodeDocument E value "start"
  validateStart start expectedRequestId
  return start

/-- Parses and validates one canonical Executor terminal response. -/
def parseExecutorResponseV0 (expectedRequestId expectedPolicyDigest : String) :
    ProtocolResult ExecutorResponseV0 := do
  let value ← parseCanonicalDocument L serde bytes maxExecutorResponseBytesV0 "response"
  let response ← decodeDocument E value "response"
  validateResponse response expectedRequestId expectedPolicyDigest
  return response

/-- Parses and validates one canonical Executor readiness response. -/
def parseExecutorProbeV0 : ProtocolResult ExecutorProbeV0 := do
  let value ← parseCanonicalDocument L serde bytes maxExecutorProbeBytesV0 "probe"
  let probe ← decodeDocument E value "probe"
  validateProbe probe
  return probe

end

end Watershed.Proto.Executor
