/-
  Failures of the preflight and how they are reported.

  A failure becomes a preflight document, and that document is checked before it is written. The
  text of a failed readiness command is short enough for it, but nothing takes control characters
  out of it, and a command that cannot be launched has a code that no preflight may have.
-/
import Watershed.FlowExecutor.Native
import Watershed.Proto.ExecutorReads
import Watershed.Proto.ExecutorTextSize
import Watershed.Proto.Forms

namespace Watershed.FlowExecutor

open Watershed.Proto Watershed.Proto.Executor Option List

/-! ## Short texts -/

theorem byteSize_floorCharBoundary (budget : Nat) (cs : List Char) :
    byteSize (floorCharBoundary budget cs) ≤ budget := by
  fun_induction floorCharBoundary budget cs with
  | case1 => exact Nat.zero_le _
  | case2 budget c cs hfits ih =>
    rw [byteSize_cons]
    omega
  | case3 budget c cs hfits => exact Nat.zero_le _

/-- A message that fits a preflight document. -/
structure Brief (message : String) : Prop where
  nonempty : message ≠ ""
  short : byteSize message.toList ≤ 1100

/-- One that the document holds as it is. -/
structure Plain (message : String) : Prop extends Brief message where
  noControl : message.toList.any isControl = false

theorem brief_append {front back : String} (hfront : front ≠ "")
    (h : byteSize front.toList + byteSize back.toList ≤ 1100) : Brief (front ++ back) where
  nonempty hempty := by
    rw [String.append_eq_empty_iff] at hempty
    exact hfront hempty.1
  short := by rwa [String.toList_append, byteSize_append]

/-- The texts of the program, as a whole or in front of one of the operating system. -/
def fixedTexts : List String :=
  ["invalid inherited descriptor", "protected descriptor is unavailable: ",
    "protected descriptor identity does not match", "protected path is unavailable: ",
    "protected path is not canonical: ", "protected path identity does not match",
    "Tool timeout overflows the host clock", "failed to install cancel handler: ",
    "failed to launch native protection: ", "native backend version is not UTF-8",
    "productive Executor support requires Ubuntu 24.04 x86_64", "Bubblewrap is unavailable: ",
    "Bubblewrap must be a protected root-owned executable", "Bubblewrap version output is invalid",
    "Seatbelt launcher is unavailable: ", "Seatbelt launcher must be a protected Apple executable",
    "productive Executor support requires macOS 27 ARM64"]

theorem fixedTexts_short : ∀ text ∈ fixedTexts, (text ≠ "" ∧ byteSize text.toList ≤ 64) ∧
    text.toList.any isControl = false := by
  have hascii : (fixedTexts.all fun text => text ≠ "" && decide (text.toList.length ≤ 64) &&
      !text.toList.any isControl && text.toList.all fun c => c.toNat < 128) = true := by
    decide +kernel
  intro text htext
  have htext := List.all_eq_true.mp hascii text htext
  simp only [Bool.and_eq_true, decide_eq_true_eq, List.all_eq_true, Bool.not_eq_true'] at htext
  rw [byteSize_ascii htext.2]
  exact htext.1

variable {text front : String}

theorem plain_fixed (h : text ∈ fixedTexts := by simp [fixedTexts]) : Plain text := by
  obtain ⟨⟨hnonempty, hshort⟩, hline⟩ := fixedTexts_short text h
  exact ⟨⟨hnonempty, by omega⟩, hline⟩

theorem plain_osError (hfront : front ∈ fixedTexts) (error : OsError) :
    Plain (front ++ error.text) := by
  obtain ⟨⟨hnonempty, hshort⟩, hline⟩ := fixedTexts_short front hfront
  have := error.short
  refine ⟨brief_append hnonempty (by omega), ?_⟩
  rw [String.toList_append, any_append, hline, error.line]
  rfl

/-- The text of an exit code, evaluated for all of them. -/
theorem exitCode_text (status : ExitStatus) {code : Int32} (h : status.code = some code) :
    byteSize (toString code).toList ≤ 3 ∧ (toString code).toList.any isControl = false := by
  have hcodes : ∀ n < 256, byteSize (toString (UInt32.ofNat n).toInt32).toList ≤ 3 ∧
      (toString (UInt32.ofNat n).toInt32).toList.any isControl = false := by
    decide +kernel
  have hlow : ((status.raw >>> 8) &&& 0xff).toNat < 256 := by
    have := Nat.and_le_right (n := (status.raw >>> 8).toNat) (m := 255)
    rw [UInt32.toNat_and]
    exact Nat.lt_succ_of_le this
  have hcode := hcodes _ hlow
  rw [UInt32.ofNat_toNat] at hcode
  rw [ExitStatus.code, ite_none_right_eq_some] at h
  rw [← some.inj h.2]
  exact hcode

theorem statusText_short (outcome : ProcessOutcome)
    (classification : ExecutorToolClassificationV0) :
    byteSize (statusText outcome classification).toList ≤ 32 ∧
      (statusText outcome classification).toList.any isControl = false := by
  unfold statusText
  split
  · rename_i code hcode
    obtain ⟨status, -, hstatus⟩ := bind_eq_some_iff.mp hcode
    obtain ⟨hsize, hcontrol⟩ := exitCode_text status hstatus
    have hfront : byteSize "exit code ".toList = 10 ∧
        "exit code ".toList.any isControl = false := by decide
    rw [String.toList_append, byteSize_append, any_append, hfront.2, hcontrol]
    exact ⟨by omega, rfl⟩
  · cases classification <;> decide

theorem brief_readiness (host : Host) (outcome : ProcessOutcome)
    (classification : ExecutorToolClassificationV0) :
    Brief ("native backend readiness command failed (" ++ statusText outcome classification ++
      "): " ++ String.ofList (diagnostic host outcome)) := by
  have hstatus := (statusText_short outcome classification).1
  have hdiagnostic : byteSize (String.ofList (diagnostic host outcome)).toList ≤ 1024 := by
    rw [String.toList_ofList]
    exact byteSize_floorCharBoundary 1024 _
  have hfront : byteSize "native backend readiness command failed (".toList = 41 := by decide
  have hclose : byteSize "): ".toList = 3 := by decide
  refine brief_append ?_ ?_
  · intro hempty
    simp [String.append_eq_empty_iff] at hempty
  · rw [String.toList_append, String.toList_append, byteSize_append, byteSize_append]
    omega

/-! ## Failures -/

section
variable {host : Host} {request : ExecutorRequestV0} {error : BackendError}

theorem plain_verifyPath (object : ExecutorProtectedObjectV0) :
    FailsWith Plain (verifyPath host object) := by
  unfold verifyPath
  refine .bind (.mapError (plain_osError (by simp [fixedTexts]))) fun metadata => ?_
  split
  · exact .error plain_fixed
  · refine .bind (.mapError (plain_osError (by simp [fixedTexts]))) fun canonical => ?_
    split
    · exact .error plain_fixed
    · exact .ok ()

theorem plain_verifyObjects : FailsWith Plain (verifyObjects host request) := by
  refine .forM (fun object => ?_) _
  unfold verifyObject
  split
  · exact .error plain_fixed
  · refine .bind (.mapError (plain_osError (by simp [fixedTexts]))) fun stat => ?_
    split
    · exact .error plain_fixed
    · exact plain_verifyPath object

/-- A failure that a preflight document can hold. -/
structure Reportable (error : BackendError) : Prop where
  code : error.code = .unavailable ∨ error.code = .policyUnsupported
  message : error.message.toList.any isControl = false

/-- A failure that is definitive, has a short text, and is reportable under a condition. -/
structure BriefFailure (P : Prop) (error : BackendError) : Prop where
  definitive : error.definitive = true
  brief : Brief error.message
  reportable : Reportable error ↔ P

variable {P : Prop} {result : Except BackendError String}

theorem briefFailure_plain {code : ExecutorErrorCodeV0} (hP : P) (h : Plain text)
    (hcode : code = .unavailable ∨ code = .policyUnsupported := by simp) :
    BriefFailure P { code, message := text, definitive := true } :=
  ⟨rfl, h.toBrief, iff_of_true ⟨hcode, h.noControl⟩ hP⟩

theorem briefFailure_setup (h : Plain text) : BriefFailure False (.setup text) := by
  refine ⟨rfl, h.toBrief, iff_of_false (fun hreport => ?_) id⟩
  rcases hreport.code with hcode | hcode <;> cases hcode

theorem brief_runBounded {timeoutMs stdoutLimit stderrLimit : Nat} {launch : Launch}
    {result : Except BackendError ProcessOutcome}
    (h : runBounded timeoutMs stdoutLimit stderrLimit launch = some result) :
    FailsWith (BriefFailure False) result := by
  cases launch with
  | clockOverflow =>
    cases h
    exact .error (briefFailure_setup plain_fixed)
  | noCancelHandler error | failed error =>
    cases h
    exact .error (briefFailure_setup (plain_osError (by simp [fixedTexts]) error))
  | launched stdoutReady stderrReady observations =>
    obtain ⟨returned, -, rfl⟩ := map_eq_some_iff.mp h
    exact .ok _

/-- The readiness command is launched and, if it fails, what is shown of its standard error (its
    text, cut at 1024 bytes) has no control character. -/
def readinessShown (host : Host) : Bool :=
  match runBounded 2000 1024 1024 host.readiness with
  | some (.ok outcome) => outcome.classification.isNone || !(diagnostic host outcome).any isControl
  | _ => false

theorem reportable_readiness (outcome : ProcessOutcome)
    (classification : ExecutorToolClassificationV0) :
    Reportable (.unavailable ("native backend readiness command failed (" ++
      statusText outcome classification ++ "): " ++ String.ofList (diagnostic host outcome))) ↔
        (diagnostic host outcome).any isControl = false := by
  have hfront : "native backend readiness command failed (".toList.any isControl = false ∧
      "): ".toList.any isControl = false := by decide
  have hmessage : ("native backend readiness command failed (" ++
      statusText outcome classification ++ "): " ++
      String.ofList (diagnostic host outcome)).toList.any isControl =
        (diagnostic host outcome).any isControl := by
    simp only [String.toList_append, any_append, hfront, String.toList_ofList,
      (statusText_short outcome classification).2, Bool.false_or]
  rw [← hmessage]
  exact ⟨fun hreport => hreport.message, fun hshown => ⟨.inl rfl, hshown⟩⟩

theorem brief_checkedOutput (h : checkedOutput host = some result) :
    FailsWith (BriefFailure (readinessShown host)) result ∧
      ∀ output, result = .ok output → readinessShown host := by
  obtain ⟨run, hrun, rfl⟩ := map_eq_some_iff.mp h
  cases run with
  | error error =>
    have hfails := brief_runBounded hrun error rfl
    simp only [readinessShown, hrun, Bool.false_eq_true]
    exact ⟨.error hfails, by simp [Except.bind]⟩
  | ok outcome =>
    change FailsWith _ (checkedOutcome host outcome) ∧ ∀ output, checkedOutcome host outcome = _ → _
    simp only [readinessShown, hrun, checkedOutcome]
    cases hends : outcome.classification with
    | some classification =>
      refine ⟨.error ⟨rfl, brief_readiness host outcome classification, ?_⟩, by simp⟩
      simpa using reportable_readiness outcome classification
    | none =>
      dsimp only
      split
      · exact ⟨.error (briefFailure_plain rfl plain_fixed), by simp⟩
      · exact ⟨.ok _, by simp⟩

/-- A version is made of what the readiness command prints. -/
theorem brief_version {f : String → Except BackendError String}
    (hf : ∀ output, readinessShown host → FailsWith (BriefFailure (readinessShown host)) (f output))
    (h : ((checkedOutput host).map fun checked => checked.bind f) = some result) :
    FailsWith (BriefFailure (readinessShown host)) result := by
  obtain ⟨checked, hchecked, rfl⟩ := map_eq_some_iff.mp h
  obtain ⟨hfails, hshown⟩ := brief_checkedOutput hchecked
  cases checked with
  | error error => exact .error (hfails error rfl)
  | ok output => exact hf output (hshown output rfl)

/-- The checks before the readiness command find its launcher. -/
def launcherFound (host : Host) : Bool :=
  let found := fun path => match host.symlinkMetadata path with
    | .error _ => false
    | .ok metadata => !isUnprotected metadata
  match host.platform with
  | .linux => host.officialHost && found "/usr/bin/bwrap"
  | .macos => found "/usr/bin/sandbox-exec"

theorem brief_linuxReadiness (hplatform : host.platform = .linux)
    (h : linuxReadiness host = some result) :
    FailsWith (BriefFailure (launcherFound host → readinessShown host)) result := by
  unfold linuxReadiness at h
  split at h
  · cases h
    exact .error (briefFailure_plain (by simp_all [launcherFound]) plain_fixed)
  · split at h
    · cases h
      refine .error (briefFailure_plain ?_ (plain_osError (by simp [fixedTexts]) _))
      simp_all [launcherFound]
    · split at h
      · cases h
        exact .error (briefFailure_plain (by simp_all [launcherFound]) plain_fixed)
      · have hfound : launcherFound host = true := by simp_all [launcherFound]
        simp only [hfound, forall_const]
        refine brief_version (fun output hshown => ?_) h
        split
        · exact .error (briefFailure_plain hshown plain_fixed)
        · exact .ok _

theorem brief_macosReadiness (hplatform : host.platform = .macos)
    (h : macosReadiness host = some result) :
    FailsWith (BriefFailure (launcherFound host → readinessShown host)) result := by
  unfold macosReadiness at h
  split at h
  · cases h
    refine .error (briefFailure_plain ?_ (plain_osError (by simp [fixedTexts]) _))
    simp_all [launcherFound]
  · split at h
    · cases h
      exact .error (briefFailure_plain (by simp_all [launcherFound]) plain_fixed)
    · have hfound : launcherFound host = true := by simp_all [launcherFound]
      simp only [hfound, forall_const]
      refine brief_version (fun output hshown => ?_) h
      dsimp only
      split
      · exact .ok _
      · exact .error (briefFailure_plain hshown plain_fixed)

/-- The preflight comes to the readiness command. -/
def reachesReadiness (host : Host) (request : ExecutorRequestV0) : Bool :=
  (verifyObjects host request).isOk && host.clockHolds request.resolvedPolicy.limits.timeoutMs &&
    launcherFound host

/-- Every failure of a preflight is definitive, and its text is short; it is reportable unless the
    readiness command stands against it. -/
theorem brief_nativePreflight (h : nativePreflight host request = some (.error error)) :
    BriefFailure (reachesReadiness host request → readinessShown host) error := by
  unfold nativePreflight at h
  unfold reachesReadiness
  split at h
  · rename_i message hverify
    cases h
    refine briefFailure_plain ?_ (plain_verifyObjects message hverify)
    simp [hverify, Except.isOk, Except.toBool]
  · rename_i hverify
    split at h
    · cases h
      exact briefFailure_plain (by simp_all) plain_fixed
    · obtain ⟨result, hready, hresult⟩ := map_eq_some_iff.mp h
      have hbrief : FailsWith (BriefFailure (launcherFound host → readinessShown host)) result := by
        cases hplatform : host.platform with
        | linux =>
          rw [hplatform] at hready
          exact brief_linuxReadiness hplatform hready
        | macos =>
          rw [hplatform] at hready
          exact brief_macosReadiness hplatform hready
      cases result with
      | ok version => cases hresult
      | error e =>
        cases hresult
        have := hbrief error rfl
        simp_all [Except.isOk, Except.toBool]

end

/-! ## Documents -/

/-- What Unicode says about normal form C, besides `Normalizes`. -/
structure NormalizesTexts (L : Libraries) : Prop extends L.Normalizes where
  /-- Control characters neither come nor go. -/
  control : ∀ text, (L.nfc text).toList.any isControl = text.toList.any isControl
  /-- No text takes more than three times its bytes. -/
  size : ∀ text, byteSize (L.nfc text).toList ≤ 3 * byteSize text.toList

theorem validateText_eq_ok {value name : String} {maxChars : Nat} {u : Unit} :
    validateText value name maxChars = .ok u ↔
      value.toList.length ≠ 0 ∧ value.toList.length ≤ maxChars ∧
        value.toList.any isControl = false := by
  unfold Executor.validateText executorError
  by_cases hempty : value.toList.length = 0
  · simp [hempty]
  · by_cases hlong : maxChars < value.toList.length
    · simp [hempty, hlong]
    · cases hcontrol : value.toList.any isControl <;> simp [hempty, hlong]
      omega

theorem ge_of_noControl (h : text.toList.any isControl = false) :
    ∀ c ∈ text.toList, 32 ≤ c.toNat := by
  intro c hc
  have hcontrol := any_eq_false.mp h c hc
  simp only [isControl, Bool.or_eq_true, decide_eq_true_eq, not_or] at hcontrol
  omega

section
variable {L : Libraries} {E : ExecutorLibraries} {serde : SerdeJson} {bytes : List UInt8}
  {host : Host} {request : ExecutorRequestV0} {error : BackendError}

/-- The identifier of a request that was received. -/
theorem requestId_of_parse (hidempotent : L.Idempotent)
    (h : parseExecutorRequestV0 L E serde bytes = .ok request) :
    L.nfc request.requestId = request.requestId ∧
      validateText request.requestId "request_id" maxIdChars = .ok () := by
  obtain ⟨hvalid, hnormal⟩ := request_of_parse hidempotent h
  refine ⟨congrArg ExecutorRequestV0.requestId hnormal, ?_⟩
  exact (check_bind_eq_ok.mp (check_bind_eq_ok.mp hvalid).2).1

theorem normalized_error (hid : L.nfc request.requestId = request.requestId) :
    (ExecutorPreflightV0.error error.code error.message request.requestId
      executorPreflightSchemaV0).normalized L =
    .error error.code (L.nfc error.message) request.requestId executorPreflightSchemaV0 := by
  have hschema : L.nfc executorPreflightSchemaV0 = executorPreflightSchemaV0 :=
    L.nfc_ascii _ (by decide)
  rw [ExecutorPreflightV0.normalized, hid, hschema]

/-- The check of a failure's document. -/
theorem validatePreflight_error (hnfc : NormalizesTexts L)
    (hid : validateText request.requestId "request_id" maxIdChars = .ok ())
    (hbrief : Brief error.message) :
    validatePreflight (.error error.code (L.nfc error.message) request.requestId
      executorPreflightSchemaV0) request.requestId = .ok () ↔ Reportable error := by
  have hsize := hnfc.size error.message
  have hshort := hbrief.short
  have hlength := length_le_byteSize (L.nfc error.message).toList
  have hnonempty : (L.nfc error.message).toList.length ≠ 0 := by
    rw [ne_eq, length_eq_zero_iff, String.toList_eq_nil_iff, nfc_eq_empty hnfc.toNormalizes]
    exact hbrief.nonempty
  have hschema : validateSchema executorPreflightSchemaV0 executorPreflightSchemaV0 "preflight" =
      .ok () := if_pos rfl
  unfold validatePreflight
  simp only [ExecutorPreflightV0.schema, ExecutorPreflightV0.requestId, check_bind_eq_ok, hid,
    hschema, true_and, refuseIf_eq_ok, validateText_eq_ok, hnfc.control]
  constructor
  · rintro ⟨-, hcode, -, -, hcontrol⟩
    exact ⟨by tauto, hcontrol⟩
  · rintro ⟨hcode, hcontrol⟩
    refine ⟨refuseIf_eq_ok.mpr (not_not.mpr rfl), by tauto, hnonempty, ?_, hcontrol⟩
    rw [maxErrorMessageChars]
    omega

/-- The document of a reportable failure fits its limit. -/
theorem canonicalDocument_error (hnfc : NormalizesTexts L)
    (hparse : parseExecutorRequestV0 L E serde bytes = .ok request) (hbrief : Brief error.message)
    (hreportable : Reportable error) :
    ∃ written, canonicalDocument L (ExecutorPreflightV0.error error.code error.message
        request.requestId executorPreflightSchemaV0) maxExecutorControlBytesV0 "preflight" =
      .ok (written, toValue (ExecutorPreflightV0.error error.code error.message request.requestId
        executorPreflightSchemaV0)) := by
  obtain ⟨hnormal, hid⟩ := requestId_of_parse hnfc.idempotent hparse
  obtain ⟨-, hidLength, hidControl⟩ := validateText_eq_ok.mp hid
  refine canonicalDocument_of_textSize asciiNames_preflight "preflight"
    (writable_preflightError _ _ _ _) ?_
  rw [normalForm, map_preflight, normalized_error hnormal]
  have htotal := textSize_preflightError (numberSize L) error.code (L.nfc error.message)
    request.requestId executorPreflightSchemaV0
  have hmessage : Json.quoteSize (L.nfc error.message) ≤ 6602 := by
    have hplain : (L.nfc error.message).toList.any isControl = false := by
      rw [hnfc.control]
      exact hreportable.message
    have hquote := Json.quoteSize_le (ge_of_noControl hplain)
    have hsize := hnfc.size error.message
    have hshort := hbrief.short
    omega
  have hrequestId : Json.quoteSize request.requestId ≤ 1026 := by
    have hquote := Json.quoteSize_le_length (ge_of_noControl hidControl)
    rw [maxIdChars] at hidLength
    omega
  have hschema : Json.quoteSize executorPreflightSchemaV0 ≤ 32 := by decide
  rw [maxExecutorControlBytesV0]
  omega

/-- A failure of the preflight is written as a document that is accepted with its code, unless the
    readiness command could not be launched, or failed with a control character in the text of its
    standard error, cut at 1024 bytes. -/
theorem preflight_failure_reported_iff (hnfc : NormalizesTexts L)
    (hparse : parseExecutorRequestV0 L E serde bytes = .ok request)
    (hfailed : nativePreflight host request = some (.error error)) :
    (∃ document written message, preflight host request = some (.ok (.error document)) ∧
      writePreflight L E document = .ok written ∧
      parseExecutorPreflightV0 L E serde written request.requestId =
        .ok (.error error.code message request.requestId executorPreflightSchemaV0)) ↔
      (reachesReadiness host request → readinessShown host) := by
  obtain ⟨hdefinitive, hbrief, hreportable⟩ := brief_nativePreflight hfailed
  rw [← hreportable]
  obtain ⟨hnormal, hid⟩ := requestId_of_parse hnfc.idempotent hparse
  have hpreflight : preflight host request = some (.ok (.error (.error error.code error.message
      request.requestId executorPreflightSchemaV0))) := by
    simp [preflight, hfailed, hdefinitive]
  have hcheck := validatePreflight_error hnfc hid hbrief
  constructor
  · rintro ⟨document, written, message, hdocument, hwritten, -⟩
    rw [hpreflight] at hdocument
    cases hdocument
    obtain ⟨-, hvalid⟩ := canonicalExecutorPreflightV0_eq_ok.mp (mapError_eq_ok.mp hwritten)
    rw [normalized_error hnormal] at hvalid
    exact hcheck.mp hvalid
  · intro hreportable
    obtain ⟨written, hwritten⟩ := canonicalDocument_error hnfc hparse hbrief hreportable
    have hvalid := hcheck.mpr hreportable
    refine ⟨_, written, L.nfc error.message, hpreflight, mapError_eq_ok.mpr ?_, ?_⟩
    · refine canonicalExecutorPreflightV0_eq_ok.mpr ⟨hwritten, ?_⟩
      rw [normalized_error hnormal]
      exact hvalid
    · refine read_of_written asciiNames_preflight (validatePreflight · request.requestId)
        hnfc.idempotent ?_ hwritten hvalid
      rw [normalForm, map_preflight, normalized_error hnormal]

end

/-! ## A failed readiness command -/

def sampleRequest : ExecutorRequestV0 := protectingRequest "/café"

theorem sampleRequest_valid :
    validateRequest asciiLibraries sampleExecutorLibraries sampleRequest = .ok () ∧
      sampleRequest.normalized asciiLibraries = sampleRequest := by
  decide +kernel

theorem sampleRequest_written : ∃ bytes, canonicalExecutorRequestV0 asciiLibraries
    sampleExecutorLibraries sampleRequest = .ok bytes := by
  obtain ⟨hvalid, hnormal⟩ := sampleRequest_valid
  obtain ⟨hpaths, hsize⟩ := protectingRequest_evaluated
  obtain ⟨-, -, hwritable⟩ := hpaths _ (mem_cons_of_mem _ mem_cons_self)
  exact request_written hvalid (hnormal ▸ hvalid) hwritable (hnormal ▸ hsize)

theorem sampleRequest_parsed : ∃ bytes,
    parseExecutorRequestV0 asciiLibraries sampleExecutorLibraries compactSerde bytes =
      .ok sampleRequest := by
  obtain ⟨hvalid, hnormal⟩ := sampleRequest_valid
  have hform : normalForm asciiLibraries sampleRequest = sampleRequest := hnormal
  obtain ⟨bytes, hwritten⟩ := sampleRequest_written
  obtain ⟨-, hdocument, -⟩ := canonicalExecutorRequestV0_eq_ok.mp hwritten
  exact ⟨bytes, read_of_written asciiNames_request (validateRequest asciiLibraries
    sampleExecutorLibraries) (fun _ => rfl) hform hdocument hvalid⟩

/-- A file of the system. -/
def systemFile : Metadata :=
  { device := 1, inode := 2, isFile := true, isDir := false, uid := 0, mode := 0o100755 }

/-- A host of the request, with a run of the readiness command. -/
def sampleHost (readiness : Launch) : Host :=
  { platform := .linux
    fstat := fun _ => .ok systemFile
    symlinkMetadata := fun _ => .ok systemFile
    canonicalize := fun path => .ok path
    clockHolds := fun _ => true
    officialHost := true
    arch := "x86_64"
    readiness
    fromUtf8Lossy := fun bytes => (fromUtf8 bytes).getD "" }

/-- A command that prints texts and leaves with a status. -/
def commandRun (stdout stderr : String) (status : ExitStatus) : Launch :=
  .launched true true
    [{ stdout := .bytes (utf8 stdout), stderr := .bytes (utf8 stderr), cancelled := false, now := 1,
       wait := .exited status, cleanupStarted := 1, cleanupNow := 1 },
     { stdout := .bytes [], stderr := .bytes [], cancelled := false, now := 2, wait := .running,
       cleanupStarted := 2, cleanupNow := 2 }]

/-- A host whose readiness command prints a text to its standard error and exits with code 1. -/
def failingHost (stderr : String) : Host := sampleHost (commandRun "" stderr ⟨0x100⟩)

/-- The error of a readiness command that exits with code 1. -/
def readinessError (stderr : String) : BackendError :=
  .unavailable ("native backend readiness command failed (exit code 1): " ++ stderr)

/-- Its document. -/
def readinessDocument (stderr : String) : ExecutorPreflightV0 :=
  .error .unavailable (readinessError stderr).message "request-1" executorPreflightSchemaV0

/-- A line on the standard error ends in a newline, and so the failure is not reported. -/
theorem readiness_line_unreported :
    nativePreflight (failingHost "bwrap: denied\n") sampleRequest =
      some (.error (readinessError "bwrap: denied\n")) ∧
    preflight (failingHost "bwrap: denied\n") sampleRequest =
      some (.ok (.error (readinessDocument "bwrap: denied\n"))) ∧
    ∀ written, writePreflight asciiLibraries sampleExecutorLibraries
      (readinessDocument "bwrap: denied\n") ≠ .ok written := by
  refine ⟨by decide +kernel, by decide +kernel, fun written hwritten => ?_⟩
  have hvalid := (canonicalExecutorPreflightV0_eq_ok.mp (mapError_eq_ok.mp hwritten)).2
  exact absurd hvalid (by decide +kernel)

theorem normalizesTexts_ascii : NormalizesTexts asciiLibraries where
  idempotent _ := rfl
  ofFieldName _ _ := rfl
  control _ := rfl
  size text := by
    show byteSize text.toList ≤ 3 * byteSize text.toList
    omega

/-- Without the newline it is reported. -/
theorem readiness_text_reported : ∃ document written message,
    preflight (failingHost "bwrap: denied") sampleRequest = some (.ok (.error document)) ∧
      writePreflight asciiLibraries sampleExecutorLibraries document = .ok written ∧
      parseExecutorPreflightV0 asciiLibraries sampleExecutorLibraries compactSerde written
        "request-1" = .ok (.error .unavailable message "request-1" executorPreflightSchemaV0) := by
  obtain ⟨bytes, hparse⟩ := sampleRequest_parsed
  have hfailed : nativePreflight (failingHost "bwrap: denied") sampleRequest =
      some (.error (readinessError "bwrap: denied")) := by decide +kernel
  exact (preflight_failure_reported_iff normalizesTexts_ascii hparse hfailed).mpr
    fun _ => by decide +kernel

end Watershed.FlowExecutor
