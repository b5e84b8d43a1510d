/-
  Requests that were received.

  The reader takes more spellings of a request than the writer uses, but the texts of a request
  that it accepts are in normal form: they stand in a canonical document.
-/
import Watershed.Lib.CodecReads
import Watershed.Proto.ExecutorWire

namespace Watershed.Proto.Executor

open Fields Codec

/-! ## Types -/

theorem reads_string : (Serde.codec : Codec Number String).Reads Number.isInteger := string_reads

theorem reads_uint64 : (Serde.codec : Codec Number UInt64).Reads Number.isInteger :=
  number_reads fun n a h => by
    cases n with
    | integer i range => rfl
    | float bits => cases h

theorem reads_uint32 : (Serde.codec : Codec Number UInt32).Reads Number.isInteger :=
  number_reads fun n a h => by
    cases n with
    | integer i range => rfl
    | float bits => cases h

theorem reads_objectKind :
    (Serde.codec : Codec Number ExecutorObjectKindV0).Reads Number.isInteger :=
  unit_reads fun v h => by
    cases v with
    | null => rfl
    | _ => cases h

theorem reads_identity : (Serde.codec : Codec Number UnixObjectIdentityV0).Reads Number.isInteger :=
  record_reads (iso_reads (and_reads (field_reads reads_uint64)
    (and_reads (field_reads reads_uint64) (field_reads reads_objectKind))) _)
    (by decide)

theorem reads_protectedObject :
    (Serde.codec : Codec Number ExecutorProtectedObjectV0).Reads Number.isInteger :=
  record_reads (iso_reads (and_reads (field_reads reads_uint32)
    (and_reads (field_reads reads_identity) (field_reads reads_string))) _)
    (by decide)

theorem reads_limits : (Serde.codec : Codec Number ExecutorLimitsV0).Reads Number.isInteger :=
  record_reads (iso_reads (and_reads (field_reads reads_uint64)
    (and_reads (field_reads reads_uint64) (field_reads reads_uint64))) _)
    (by decide)

theorem reads_resolvedPolicy :
    (Serde.codec : Codec Number ExecutorResolvedPolicyV0).Reads Number.isInteger :=
  record_reads (iso_reads
    (and_reads (field_reads (list_reads reads_string))
    (and_reads (field_reads (textMap_reads reads_string))
    (and_reads (field_reads reads_string)
    (and_reads (field_reads reads_limits)
    (and_reads (field_reads (list_reads reads_protectedObject))
    (and_reads (field_reads reads_string)
    (and_reads (field_reads reads_string) (field_reads reads_string)))))))) _) (by decide)

theorem reads_request : (Serde.codec : Codec Number ExecutorRequestV0).Reads Number.isInteger :=
  record_reads (iso_reads (and_reads (field_reads reads_resolvedPolicy)
    (and_reads (field_reads reads_string)
    (and_reads (field_reads reads_string) (field_reads reads_string)))) _)
    (by decide)

/-! ## Documents -/

section
variable {L : Libraries} {E : ExecutorLibraries} {serde : SerdeJson} {bytes : List UInt8}

/-- A canonical document with integer numbers is its own canonical form. -/
theorem normal_of_parseCanonicalDocument (hidempotent : L.Idempotent)
    {limit : Nat} {kind : String} {value : SortedValue} (hintegral : Integral value.1)
    (h : parseCanonicalDocument L serde bytes limit kind = .ok value) : Normal L value.1 := by
  obtain ⟨-, body, -, -, hparse, hcanonical⟩ := parseCanonicalDocument_eq_ok.mp h
  obtain ⟨hnesting, hkeys, hbody⟩ := canonicalJson_eq_ok.mp hcanonical
  have hform := parseUniqueJson_canonicalForm serde _ hintegral hnesting
    (Json.sortMembers_sorted _ hkeys) 0
  rw [List.replicate_zero, List.append_nil, hbody, hparse] at hform
  have hvalue : value.1 = canonicalForm L value.1 := congrArg Subtype.val (Except.ok.inj hform)
  rw [hvalue]
  exact normal_canonicalForm hidempotent value.1

/-- A request that was received is valid and in normal form. -/
theorem request_of_parse (hidempotent : L.Idempotent)
    {request : ExecutorRequestV0} (h : parseExecutorRequestV0 L E serde bytes = .ok request) :
    validateRequest L E request = .ok () ∧ request.normalized L = request := by
  obtain ⟨value, hparse, hread, hcheck⟩ := read_eq_ok.mp h
  have hnormal := normal_of_parseCanonicalDocument hidempotent
    (reads_request.numbers value.1 request value.2 hread) hparse
  exact ⟨hcheck, reads_request.texts L.nfc value.1 request hread hnormal⟩

end

end Watershed.Proto.Executor
