/-
  The Executor documents and their JSON forms (`executor/types.rs`).

  The codec of a type lists its fields as the derived serialization sees them, in the order of
  their declaration. A type that stands inside a tagged type is read from a buffer, which takes an
  empty object where a value with nothing in it is expected.
-/
import Watershed.Lib.CodecLaws
import Watershed.Proto.CanonicalForm

namespace Watershed.Proto.Executor

open Codec Fields Option

open Codec (record tagged)
open Fields (field optional)
open Variants (variant)

/-! ## Numbers and variants -/

/-- A type that is written to a JSON value and read from one. -/
class Serde (α : Type) where
  codec : Codec Number α
  lawful : codec.Lawful Number.isInteger

/-- `serde_json::to_value`. -/
def toValue {α : Type} [Serde α] (a : α) : SortedValue :=
  ⟨Serde.codec.encode a, Serde.lawful.sorted_encode a⟩

/-- `serde_json::from_value`. -/
def fromValue? {α : Type} [Serde α] (value : SortedValue) : Option α := Serde.codec.decode value.1

namespace Number

def ofU32 (n : UInt32) : Number := .integer n.toNat ⟨by omega, by have := n.toNat_lt; omega⟩

def ofI32 (n : Int32) : Number :=
  .integer n.toInt ⟨by have := n.le_toInt; omega, by have := n.toInt_lt; omega⟩

def toU64? (n : Number) : Option UInt64 := n.asU64.map UInt64.ofNat

def toU32? (n : Number) : Option UInt32 :=
  n.asU64.bind fun i => if i < 2 ^ 32 then some (UInt32.ofNat i) else none

def toI32? : Number → Option Int32
  | .integer i _ => if -2 ^ 31 ≤ i ∧ i < 2 ^ 31 then some (Int32.ofInt i) else none
  | .float _ => none

end Number

instance : Serde String := ⟨.string, string_lawful⟩

instance : Serde Bool := ⟨.bool, bool_lawful⟩

instance : Serde UInt64 where
  codec := .number Number.ofU64 Number.toU64?
  lawful := by
    refine number_lawful (fun a => ?_) (fun n a h => ?_) fun a => rfl
    · simp [Number.toU64?, Number.ofU64, Number.asU64]
    · cases n with
      | integer i range =>
        simp only [Number.toU64?, Number.asU64, map_eq_some_iff,
          ite_none_right_eq_some, some.injEq] at h
        obtain ⟨k, ⟨hi, rfl⟩, rfl⟩ := h
        simp only [Number.ofU64, Number.integer.injEq]
        rw [UInt64.toNat_ofNat_of_lt' (show _ < 2 ^ 64 by omega), Int.toNat_of_nonneg hi]
      | float bits => cases h

instance : Serde UInt32 where
  codec := .number Number.ofU32 Number.toU32?
  lawful := by
    refine number_lawful (fun a => ?_) (fun n a h => ?_) fun a => rfl
    · have := a.toNat_lt
      simp [Number.toU32?, Number.ofU32, Number.asU64, this]
    · cases n with
      | integer i range =>
        simp only [Number.toU32?, Number.asU64, bind_eq_some_iff,
          ite_none_right_eq_some, some.injEq] at h
        obtain ⟨k, ⟨hi, rfl⟩, hk, rfl⟩ := h
        simp only [Number.ofU32, Number.integer.injEq]
        rw [UInt32.toNat_ofNat_of_lt' hk, Int.toNat_of_nonneg hi]
      | float bits => cases h

instance : Serde Int32 where
  codec := .number Number.ofI32 Number.toI32?
  lawful := by
    refine number_lawful (fun a => ?_) (fun n a h => ?_) fun a => rfl
    · show (if -2 ^ 31 ≤ a.toInt ∧ a.toInt < 2 ^ 31 then some (Int32.ofInt a.toInt) else none) = _
      rw [if_pos ⟨a.le_toInt, a.toInt_lt⟩, Int32.ofInt_toInt]
    · cases n with
      | integer i range =>
        obtain ⟨hi, h⟩ := ite_none_right_eq_some.mp h
        rw [← some.inj h]
        simp only [Number.ofI32, Number.integer.injEq]
        exact Int32.toInt_ofInt_of_le hi.1 hi.2
      | float bits => cases h

instance {α : Type} [Serde α] : Serde (List α) := ⟨.list Serde.codec, list_lawful Serde.lawful⟩

instance {α : Type} [Serde α] : Serde (TextMap α) :=
  ⟨.textMap Serde.codec, textMap_lawful Serde.lawful⟩

/-- A field of a type that is written and read. -/
def required {α : Type} [Serde α] (key : String) : Fields Number α := .field key Serde.codec

theorem required_lawful {α : Type} [Serde α] {key : String} :
    (required key : Fields Number α).Lawful Number.isInteger := field_lawful Serde.lawful

theorem required_and {α β : Type} [Serde α] {key : String} {f : Fields Number β}
    (hf : f.Lawful Number.isInteger) :
    ((required key : Fields Number α).and f).Lawful Number.isInteger :=
  and_lawful required_lawful hf

/-- The value of a variant without fields, in an object. -/
def isNull : Value → Bool
  | .null => true
  | _ => false

/-- The same in the buffer of a tagged type. -/
def isNullOrEmpty : Value → Bool
  | .null | .object [] => true
  | _ => false

/-! ## Requests -/

/-- Filesystem object kind proven before descriptor inheritance. -/
inductive ExecutorObjectKindV0 where
  | file
  | directory
  deriving DecidableEq

namespace ExecutorObjectKindV0

def variants : List ExecutorObjectKindV0 := [file, directory]

def name : ExecutorObjectKindV0 → String
  | file => "file"
  | directory => "directory"

instance : Serde ExecutorObjectKindV0 where
  codec := .unit variants name isNull
  lawful := unit_lawful (fun kind => by cases kind <;> decide) (by decide)

end ExecutorObjectKindV0

/-- Closed Unix identity record for one pre-opened filesystem object. -/
structure UnixObjectIdentityV0 where
  device : UInt64
  inode : UInt64
  kind : ExecutorObjectKindV0
  deriving DecidableEq

instance : Serde UnixObjectIdentityV0 where
  codec := .record (((required "device").and ((required "inode").and (required "kind"))).iso
    { toFun := fun x => ⟨x.1, x.2.1, x.2.2⟩
      invFun := fun x => (x.device, x.inode, x.kind) })
  lawful := record_lawful (iso_lawful (required_and (required_and required_lawful)) _) (by decide)

/-- One Flow Agent object protected from Tool writes, bound to an inherited descriptor. -/
structure ExecutorProtectedObjectV0 where
  descriptor : UInt32
  identity : UnixObjectIdentityV0
  path : String
  deriving DecidableEq

instance : Serde ExecutorProtectedObjectV0 where
  codec := .record (((required "descriptor").and ((required "identity").and (required "path"))).iso
    { toFun := fun x => ⟨x.1, x.2.1, x.2.2⟩
      invFun := fun x => (x.descriptor, x.identity, x.path) })
  lawful := record_lawful (iso_lawful (required_and (required_and required_lawful)) _) (by decide)

/-- Fixed output and deadline limits for one Tool execution. -/
structure ExecutorLimitsV0 where
  maxStderrBytes : UInt64
  maxStdoutBytes : UInt64
  timeoutMs : UInt64
  deriving DecidableEq

instance : Serde ExecutorLimitsV0 where
  codec := .record (((required "max_stderr_bytes").and ((required "max_stdout_bytes").and
    (required "timeout_ms"))).iso
    { toFun := fun x => ⟨x.1, x.2.1, x.2.2⟩
      invFun := fun x => (x.maxStderrBytes, x.maxStdoutBytes, x.timeoutMs) })
  lawful := record_lawful (iso_lawful (required_and (required_and required_lawful)) _) (by decide)

/-- Canonical fully resolved target policy whose digest is attested by the receipt. -/
structure ExecutorResolvedPolicyV0 where
  argv : List String
  environment : TextMap String
  executable : String
  limits : ExecutorLimitsV0
  protectedObjects : List ExecutorProtectedObjectV0
  toolId : String
  toolKind : String
  workingDirectory : String
  deriving DecidableEq

instance : Serde ExecutorResolvedPolicyV0 where
  codec := .record (((required "argv").and ((required "environment").and ((required "executable").and
    ((required "limits").and ((required "protected_objects").and ((required "tool_id").and
      ((required "tool_kind").and (required "working_directory")))))))).iso
    { toFun := fun x => ⟨x.1, x.2.1, x.2.2.1, x.2.2.2.1, x.2.2.2.2.1, x.2.2.2.2.2.1,
        x.2.2.2.2.2.2.1, x.2.2.2.2.2.2.2⟩
      invFun := fun x => (x.argv, x.environment, x.executable, x.limits, x.protectedObjects,
        x.toolId, x.toolKind, x.workingDirectory) })
  lawful := record_lawful (iso_lawful (required_and (required_and (required_and
    (required_and (required_and (required_and (required_and required_lawful))))))) _) (by decide)

/-- One validated Tool execution request. -/
structure ExecutorRequestV0 where
  resolvedPolicy : ExecutorResolvedPolicyV0
  policyDigest : String
  requestId : String
  schema : String
  deriving DecidableEq

instance : Serde ExecutorRequestV0 where
  codec := .record (((required "resolved_policy").and ((required "policy_digest").and
    ((required "request_id").and (required "schema")))).iso
    { toFun := fun x => ⟨x.1, x.2.1, x.2.2.1, x.2.2.2⟩
      invFun := fun x => (x.resolvedPolicy, x.policyDigest, x.requestId, x.schema) })
  lawful := record_lawful (iso_lawful (required_and (required_and (required_and
    required_lawful))) _) (by decide)

/-! ## Preflight and start -/

/-- Stable private Executor integration error code. -/
inductive ExecutorErrorCodeV0 where
  | unavailable
  | protocolMismatch
  | invalidResponse
  | policyUnsupported
  | sandboxSetupFailed
  deriving DecidableEq

namespace ExecutorErrorCodeV0

def variants : List ExecutorErrorCodeV0 :=
  [unavailable, protocolMismatch, invalidResponse, policyUnsupported, sandboxSetupFailed]

def name : ExecutorErrorCodeV0 → String
  | unavailable => "executor_unavailable"
  | protocolMismatch => "executor_protocol_mismatch"
  | invalidResponse => "executor_invalid_response"
  | policyUnsupported => "executor_policy_unsupported"
  | sandboxSetupFailed => "sandbox_setup_failed"

instance : Serde ExecutorErrorCodeV0 where
  codec := .unit variants name isNullOrEmpty
  lawful := unit_lawful (fun code => by cases code <;> decide) (by decide)

end ExecutorErrorCodeV0

/-- Result of validating and preflighting one request before Tool launch. -/
inductive ExecutorPreflightV0 where
  | ready (requestId schema : String)
  | error (code : ExecutorErrorCodeV0) (message requestId schema : String)
  deriving DecidableEq

/-- The fields of a failure, as preflight and terminal response have them. -/
abbrev errorFields : Fields Number (ExecutorErrorCodeV0 × String × String × String) :=
  (required "code").and ((required "message").and ((required "request_id").and (required "schema")))

theorem errorFields_lawful : errorFields.Lawful Number.isInteger :=
  required_and (required_and (required_and required_lawful))

instance : Serde ExecutorPreflightV0 where
  codec := .tagged "outcome" (((variant "ready" ((required "request_id").and
      (required "schema"))).or (variant "error" errorFields)).iso
    { toFun := fun
        | .inl x => .ready x.1 x.2
        | .inr x => .error x.1 x.2.1 x.2.2.1 x.2.2.2
      invFun := fun
        | .ready requestId schema => .inl (requestId, schema)
        | .error code message requestId schema => .inr (code, message, requestId, schema)
      left_inv := fun x => by cases x <;> rfl
      right_inv := fun x => by cases x <;> rfl })
  lawful := tagged_lawful (Variants.iso_lawful (Variants.or_lawful (Variants.variant_lawful
    (required_and required_lawful) (by decide))
    (Variants.variant_lawful errorFields_lawful (by decide)) (by decide)) _) (by decide)

/-- Exact command authorizing one successfully preflighted request to start. -/
structure ExecutorStartV0 where
  requestId : String
  schema : String
  deriving DecidableEq

instance : Serde ExecutorStartV0 where
  codec := .record (((required "request_id").and (required "schema")).iso
    { toFun := fun x => ⟨x.1, x.2⟩
      invFun := fun x => (x.requestId, x.schema) })
  lawful := record_lawful (iso_lawful (required_and required_lawful) _) (by decide)

/-! ## Terminal responses -/

/-- Terminal attestation that the requested Flow Agent write protection was active. -/
structure EnforcementReceiptV0 where
  appliedPolicyDigest : String
  backend : String
  backendVersion : String
  executor : String
  executorVersion : String
  selfProtectionActive : Bool
  platform : String
  deriving DecidableEq

instance : Serde EnforcementReceiptV0 where
  codec := .record (((required "applied_policy_digest").and ((required "backend").and
    ((required "backend_version").and ((required "executor").and ((required "executor_version").and
      ((required "self_protection_active").and (required "platform"))))))).iso
    { toFun := fun x => ⟨x.1, x.2.1, x.2.2.1, x.2.2.2.1, x.2.2.2.2.1, x.2.2.2.2.2.1, x.2.2.2.2.2.2⟩
      invFun := fun x => (x.appliedPolicyDigest, x.backend, x.backendVersion, x.executor,
        x.executorVersion, x.selfProtectionActive, x.platform) })
  lawful := record_lawful (iso_lawful (required_and (required_and (required_and
    (required_and (required_and (required_and required_lawful)))))) _) (by decide)

/-- Terminal status reported for the Tool root process and bounded output collection. -/
inductive ExecutorToolStatusV0 where
  | completed
  | failed
  | timedOut
  | cancelled
  deriving DecidableEq

namespace ExecutorToolStatusV0

def variants : List ExecutorToolStatusV0 := [completed, failed, timedOut, cancelled]

def name : ExecutorToolStatusV0 → String
  | completed => "completed"
  | failed => "failed"
  | timedOut => "timed_out"
  | cancelled => "cancelled"

instance : Serde ExecutorToolStatusV0 where
  codec := .unit variants name isNullOrEmpty
  lawful := unit_lawful (fun status => by cases status <;> decide) (by decide)

end ExecutorToolStatusV0

/-- Closed terminal classification produced by the Executor after Tool launch. -/
inductive ExecutorToolClassificationV0 where
  | nonzeroExit
  | signalTermination
  | stderrCapExceeded
  | stdoutCapExceeded
  | stdoutStderrCapExceeded
  | toolTimedOut
  | outputCollectorFailed
  | outputDrainTimeout
  | cancelled
  deriving DecidableEq

namespace ExecutorToolClassificationV0

def variants : List ExecutorToolClassificationV0 :=
  [nonzeroExit, signalTermination, stderrCapExceeded, stdoutCapExceeded, stdoutStderrCapExceeded,
    toolTimedOut, outputCollectorFailed, outputDrainTimeout, cancelled]

def name : ExecutorToolClassificationV0 → String
  | nonzeroExit => "nonzero_exit"
  | signalTermination => "signal_termination"
  | stderrCapExceeded => "stderr_cap_exceeded"
  | stdoutCapExceeded => "stdout_cap_exceeded"
  | stdoutStderrCapExceeded => "stdout_stderr_cap_exceeded"
  | toolTimedOut => "tool_timed_out"
  | outputCollectorFailed => "output_collector_failed"
  | outputDrainTimeout => "output_drain_timeout"
  | cancelled => "cancelled"

instance : Serde ExecutorToolClassificationV0 where
  codec := .unit variants name isNullOrEmpty
  lawful := unit_lawful (fun classification => by cases classification <;> decide) (by decide)

end ExecutorToolClassificationV0

/-- Bounded binary-safe Tool result; it does not attest to descendant cleanup. -/
structure ExecutorToolResultV0 where
  classification : Option ExecutorToolClassificationV0
  exitCode : Option Int32
  status : ExecutorToolStatusV0
  stderrBase64 : String
  stdoutBase64 : String
  deriving DecidableEq

instance : Serde ExecutorToolResultV0 where
  codec := .record (((optional "classification" Serde.codec).and
    ((optional "exit_code" Serde.codec).and ((required "status").and
      ((required "stderr_base64").and (required "stdout_base64"))))).iso
    { toFun := fun x => ⟨x.1, x.2.1, x.2.2.1, x.2.2.2.1, x.2.2.2.2⟩
      invFun := fun x => (x.classification, x.exitCode, x.status, x.stderrBase64, x.stdoutBase64) })
  lawful := record_lawful (iso_lawful
    (and_lawful (optional_lawful Serde.lawful fun _ h => by cases h)
      (and_lawful (optional_lawful Serde.lawful fun _ h => by cases h)
        (required_and (required_and required_lawful)))) _) (by decide)

/-- Terminal response for exactly one Executor request. -/
inductive ExecutorResponseV0 where
  | completed (enforcement : EnforcementReceiptV0) (requestId schema : String)
      (toolResult : ExecutorToolResultV0)
  | error (code : ExecutorErrorCodeV0) (message requestId schema : String)
  deriving DecidableEq

instance : Serde ExecutorResponseV0 where
  codec := .tagged "outcome" (((variant "completed" ((required "enforcement").and
      ((required "request_id").and ((required "schema").and (required "tool_result"))))).or
      (variant "error" errorFields)).iso
    { toFun := fun
        | .inl x => .completed x.1 x.2.1 x.2.2.1 x.2.2.2
        | .inr x => .error x.1 x.2.1 x.2.2.1 x.2.2.2
      invFun := fun
        | .completed enforcement requestId schema toolResult =>
          .inl (enforcement, requestId, schema, toolResult)
        | .error code message requestId schema => .inr (code, message, requestId, schema)
      left_inv := fun x => by cases x <;> rfl
      right_inv := fun x => by cases x <;> rfl })
  lawful := tagged_lawful (Variants.iso_lawful (Variants.or_lawful (Variants.variant_lawful
    (required_and (required_and (required_and required_lawful))) (by decide))
    (Variants.variant_lawful errorFields_lawful (by decide)) (by decide)) _) (by decide)

/-! ## Probes -/

/-- Result of a no-Tool-spawn Executor readiness probe. -/
structure ExecutorProbeV0 where
  backend : String
  backendVersion : String
  executor : String
  executorVersion : String
  platform : String
  protocolVersions : List String
  ready : Bool
  schema : String
  supportedPolicyFeatures : List String
  deriving DecidableEq

instance : Serde ExecutorProbeV0 where
  codec := .record (((required "backend").and ((required "backend_version").and
    ((required "executor").and ((required "executor_version").and ((required "platform").and
      ((required "protocol_versions").and ((required "ready").and ((required "schema").and
        (required "supported_policy_features"))))))))).iso
    { toFun := fun x => ⟨x.1, x.2.1, x.2.2.1, x.2.2.2.1, x.2.2.2.2.1, x.2.2.2.2.2.1,
        x.2.2.2.2.2.2.1, x.2.2.2.2.2.2.2.1, x.2.2.2.2.2.2.2.2⟩
      invFun := fun x => (x.backend, x.backendVersion, x.executor, x.executorVersion, x.platform,
        x.protocolVersions, x.ready, x.schema, x.supportedPolicyFeatures) })
  lawful := record_lawful (iso_lawful (required_and (required_and (required_and
    (required_and (required_and (required_and (required_and (required_and required_lawful)))))))) _)
    (by decide)

end Watershed.Proto.Executor
