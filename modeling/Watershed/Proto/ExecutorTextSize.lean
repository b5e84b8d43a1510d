/-
  Documents that fit their limit.

  A document whose own names are its only keys has a canonical text; it is written as soon as that
  text is short enough.
-/
import Watershed.Lib.JsonSize
import Watershed.Proto.ExecutorWire

open List

namespace Watershed.Proto.Executor

open Json

section
variable {L : Libraries}

/-- The bytes of a number in canonical text. -/
def numberSize (L : Libraries) (number : Number) : Nat := byteSize (numberText L number)

/-- The keys of a value are ASCII texts. -/
def AsciiKeys (value : Value) : Prop :=
  value.all (fun _ => true) (fun key => key.toList.all fun c => c.toNat < 128) (fun _ => true) = true
  deriving Decidable

/-- The names of a value are ASCII texts, and it nests below the limit. -/
abbrev Writable (value : Value) : Prop :=
  AsciiKeys value ∧ jsonNestingReachesLimit value 0 = false

theorem keeps_keys {value : Value} (h : AsciiKeys value) :
    value.all (fun _ => true) (fun key => L.nfc key = key) (fun _ => true) = true := by
  induction value using induction_on with
  | null | bool | number | string => rfl
  | array values ih =>
    exact allItems_iff.mpr fun v hv => ih v hv (allItems_iff.mp h v hv)
  | object fields ih =>
    refine allFields_iff.mpr fun x hx => ?_
    obtain ⟨hkey, hvalue⟩ := allFields_iff.mp h x hx
    exact ⟨decide_eq_true (L.nfc_ascii x.1 hkey), ih x hx hvalue⟩

/-- A document is written when the text of its normal form fits. -/
theorem canonicalDocument_of_textSize {α : Type} [Serde α] (hnames : AsciiNames α) {document : α}
    {limit : Nat} (kind : String) (hwritable : Writable (toValue document).1)
    (hsize : (toValue (normalForm L document)).1.textSize (numberSize L) < limit) :
    ∃ bytes, canonicalDocument L document limit kind = .ok (bytes, toValue document) := by
  have hdistinct : ((toValue document).1.mapTexts L.nfc).DistinctKeys := by
    rw [mapTexts_eq_mapStrings _ (keeps_keys hwritable.1)]
    exact distinctKeys_of_sorted _ (sorted_mapStrings _ _ (toValue document).2)
  have hform := canonicalForm_toValue hnames hdistinct
  refine ⟨_, canonicalDocument_eq_ok.mpr
    ⟨_, canonicalJson_eq_ok.mpr ⟨hwritable.2, hdistinct, rfl⟩, ?_, rfl⟩⟩
  rw [length_append, length_utf8, String.toList_ofList, hform]
  exact Nat.succ_le_of_lt (lt_of_le_of_lt (byteSize_compact _) hsize)

end

/-! ## Documents -/

theorem toValue_response (enforcement : EnforcementReceiptV0) (requestId schema : String)
    (toolResult : ExecutorToolResultV0) :
    (toValue (ExecutorResponseV0.completed enforcement requestId schema toolResult)).1 =
      .object (byKey [("outcome", .string "completed"),
        ("enforcement", (toValue enforcement).1), ("request_id", .string requestId),
        ("schema", .string schema), ("tool_result", (toValue toolResult).1)]) := rfl

theorem toValue_receipt (receipt : EnforcementReceiptV0) :
    (toValue receipt).1 = .object (byKey
      [("applied_policy_digest", .string receipt.appliedPolicyDigest),
        ("backend", .string receipt.backend), ("backend_version", .string receipt.backendVersion),
        ("executor", .string receipt.executor), ("executor_version", .string receipt.executorVersion),
        ("self_protection_active", .bool receipt.selfProtectionActive),
        ("platform", .string receipt.platform)]) := rfl

theorem toValue_preflightError (code : ExecutorErrorCodeV0) (message requestId schema : String) :
    (toValue (ExecutorPreflightV0.error code message requestId schema)).1 =
      .object (byKey [("outcome", .string "error"), ("code", .string code.name),
        ("message", .string message), ("request_id", .string requestId),
        ("schema", .string schema)]) := rfl

theorem toValue_toolResult (result : ExecutorToolResultV0) :
    (toValue result).1 = .object (byKey
      [("classification", (result.classification.map fun c => .string c.name).getD .null),
        ("exit_code", (result.exitCode.map fun code => .number (Number.ofI32 code)).getD .null),
        ("status", .string result.status.name), ("stderr_base64", .string result.stderrBase64),
        ("stdout_base64", .string result.stdoutBase64)]) := rfl

/-- The names in the documents are short; one evaluation for all of them. -/
theorem quoteSize_names : ∀ name ∈ ["outcome", "completed", "error", "enforcement", "request_id",
    "schema", "tool_result", "applied_policy_digest", "backend", "backend_version", "executor",
    "executor_version", "self_protection_active", "platform", "classification", "exit_code",
    "status", "stderr_base64", "stdout_base64", "code", "message"] ++
      ExecutorErrorCodeV0.variants.map (·.name) ++ ExecutorToolStatusV0.variants.map (·.name) ++
      ExecutorToolClassificationV0.variants.map (·.name), quoteSize name ≤ 32 := by
  decide +kernel

theorem textSize_preflightError (number : Number → Nat) (code : ExecutorErrorCodeV0)
    (message requestId schema : String) :
    (toValue (ExecutorPreflightV0.error code message requestId schema)).1.textSize number ≤
      256 + quoteSize message + quoteSize requestId + quoteSize schema := by
  have hcode : quoteSize code.name ≤ 32 :=
    quoteSize_names code.name (by cases code <;> simp [ExecutorErrorCodeV0.variants])
  have hnames := quoteSize_names
  simp only [cons_append, forall_mem_cons] at hnames
  rw [toValue_preflightError]
  simp only [textSize, textSizeFields_byKey, textSizeFields]
  omega

theorem asciiKeys_byKey {fields : List (String × Value)}
    (h : ∀ x ∈ fields, (x.1.toList.all fun c => c.toNat < 128) = true ∧ AsciiKeys x.2) :
    AsciiKeys (.object (byKey fields)) :=
  allFields_iff.mpr fun x hx => h x (mem_byKey.mp hx)

theorem writable_preflightError (code : ExecutorErrorCodeV0) (message requestId schema : String) :
    Writable (toValue (ExecutorPreflightV0.error code message requestId schema)).1 := by
  rw [toValue_preflightError]
  constructor
  · refine asciiKeys_byKey ?_
    simp only [forall_mem_cons]
    refine ⟨⟨by decide, rfl⟩, ⟨by decide, rfl⟩, ⟨by decide, rfl⟩, ⟨by decide, rfl⟩,
      ⟨by decide, rfl⟩, ?_⟩
    simp
  · rw [jsonNestingReachesLimit, reaches, reachesFields_byKey]
    rfl

theorem writable_response (enforcement : EnforcementReceiptV0) (requestId schema : String)
    (result : ExecutorToolResultV0) :
    Writable (toValue (ExecutorResponseV0.completed enforcement requestId schema result)).1 := by
  obtain ⟨classification, exitCode, status, stderrBase64, stdoutBase64⟩ := result
  rw [toValue_response]
  constructor
  · refine asciiKeys_byKey ?_
    simp only [forall_mem_cons]
    refine ⟨⟨by decide, rfl⟩, ⟨by decide, ?_⟩, ⟨by decide, rfl⟩, ⟨by decide, rfl⟩, ⟨by decide, ?_⟩,
      by simp⟩
    · rw [toValue_receipt]
      refine asciiKeys_byKey ?_
      simp only [forall_mem_cons]
      exact ⟨⟨by decide, rfl⟩, ⟨by decide, rfl⟩, ⟨by decide, rfl⟩, ⟨by decide, rfl⟩,
        ⟨by decide, rfl⟩, ⟨by decide, rfl⟩, ⟨by decide, rfl⟩, by simp⟩
    · rw [toValue_toolResult]
      refine asciiKeys_byKey ?_
      simp only [forall_mem_cons]
      refine ⟨⟨by decide, ?_⟩, ⟨by decide, ?_⟩, ⟨by decide, rfl⟩, ⟨by decide, rfl⟩,
        ⟨by decide, rfl⟩, by simp⟩
      · cases classification <;> rfl
      · cases exitCode <;> rfl
  · rw [jsonNestingReachesLimit, toValue_receipt, toValue_toolResult]
    simp only [reachesFields, reaches, reachesFields_byKey]
    cases classification <;> cases exitCode <;> rfl

/-! ## A request -/

theorem request_written {L : Libraries} {E : ExecutorLibraries} {request : ExecutorRequestV0}
    (hvalid : validateRequest L E request = .ok ())
    (hnormal : validateRequest L E (request.normalized L) = .ok ())
    (hwritable : Writable (toValue request).1)
    (hsize : (toValue (request.normalized L)).1.textSize (numberSize L) <
      maxExecutorRequestBytesV0) : ∃ bytes, canonicalExecutorRequestV0 L E request = .ok bytes := by
  obtain ⟨bytes, hdocument⟩ :=
    canonicalDocument_of_textSize asciiNames_request "request" hwritable hsize
  exact ⟨bytes, canonicalExecutorRequestV0_eq_ok.mpr ⟨hvalid, hdocument, hnormal⟩⟩

/-- A request to run a Tool that protects a file, with a digest. -/
def protectingRequest (path : String) : ExecutorRequestV0 :=
  { resolvedPolicy :=
      { argv := []
        environment := .collect []
        executable := "/bin/sh"
        limits := { maxStderrBytes := 1024, maxStdoutBytes := 1024, timeoutMs := 1000 }
        protectedObjects :=
          [{ descriptor := 32, identity := { device := 1, inode := 2, kind := .file }, path }]
        toolId := "echo"
        toolKind := "script"
        workingDirectory := "/work" }
    policyDigest := "aaaaaaaaaaaaaaaaaaaaaaaaaaaaaaaaaaaaaaaaaaaaaaaaaaaaaaaaaaaaaaaa"
    requestId := "request-1"
    schema := executorRequestSchemaV0 }

/-- The two spellings of a protected path, evaluated once. -/
theorem protectingRequest_evaluated : (∀ path ∈ ["/cafe\u0301", "/café"],
      validateRequest acuteLibraries sampleExecutorLibraries (protectingRequest path) = .ok () ∧
      (protectingRequest path).normalized acuteLibraries = protectingRequest "/café" ∧
      Writable (toValue (protectingRequest path)).1) ∧
    (toValue (protectingRequest "/café")).1.textSize (numberSize asciiLibraries) <
      maxExecutorRequestBytesV0 := by
  decide +kernel

/-- A protected path that is spelled with a combining accent arrives composed, with the digest. -/
theorem executor_documents_survive_accent : ∃ bytes,
    canonicalExecutorRequestV0 acuteLibraries sampleExecutorLibraries
      (protectingRequest "/cafe\u0301") = .ok bytes ∧
    parseExecutorRequestV0 acuteLibraries sampleExecutorLibraries compactSerde bytes =
      .ok (protectingRequest "/café") := by
  obtain ⟨hpaths, hsize⟩ := protectingRequest_evaluated
  obtain ⟨hvalid, hnormal, hwritable⟩ := hpaths _ mem_cons_self
  have hcomposed := (hpaths _ (mem_cons_of_mem _ mem_cons_self)).1
  obtain ⟨bytes, hwritten⟩ :=
    request_written hvalid (hnormal ▸ hcomposed) hwritable (hnormal ▸ hsize)
  have hsurvive := (executor_documents_survive acuteLibraries sampleExecutorLibraries compactSerde
    acuteLibraries_idempotent).1 _ bytes hwritten
  exact ⟨bytes, hwritten, hnormal ▸ hsurvive.1⟩

end Watershed.Proto.Executor
