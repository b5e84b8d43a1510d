/-
  The responses to executed Tools.

  The response of `native::execute` is put together from the supervision of the command, the
  status record of the inner supervisor and the version of the backend. It passes the check of
  responses and fits their limit when that record is a wait status and the version is no longer
  than a name may be.
-/
import Mathlib.Data.List.DropRight
import Watershed.FlowExecutor.Preflight
import Watershed.FlowExecutor.Truncation

namespace Watershed.FlowExecutor

open Watershed.Proto Watershed.Proto.Executor Option ExecutorResponseV0 String

/-! ## Versions -/

variable {version cs : List Char} {record : List UInt8} {stdout : String}
  {outcome result : ProcessOutcome}

section
variable {host : Host} {request : ExecutorRequestV0} {prepared : PreparedExecution}

end

/-! ## Results -/

theorem streams_applyInnerStatus
    (h : applyInnerStatus outcome record = .ok result) :
    result.stdout = outcome.stdout ∧ result.stderr = outcome.stderr := by
  unfold applyInnerStatus at h
  repeat' split at h
  all_goals cases h
  all_goals exact ⟨rfl, rfl⟩

/-- A text that is kept as it is and passes its check. -/
structure Presentable (L : Libraries) (text : String) : Prop where
  nonempty : text.toList.length ≠ 0
  short : text.toList.length ≤ 256
  control : text.toList.any isControl = false
  normal : L.nfc text = text

namespace Presentable

variable {L : Libraries} {text : String}

theorem validateText (h : Presentable L text) (name : String) :
    Executor.validateText text name 256 = .ok () :=
  validateText_eq_ok.mpr ⟨h.nonempty, h.short, h.control⟩

theorem quoteSize (h : Presentable L text) : Json.quoteSize text ≤ 1026 := by
  have hquote := Json.quoteSize_le_length (ge_of_noControl h.control)
  have hshort := h.short
  omega

end Presentable

section
variable {L : Libraries} {E : ExecutorLibraries}

variable {prepared : PreparedExecution} {outcome : ProcessOutcome} {platform : Platform}

theorem nfc_encodeExecutorStreamV0 (L : Libraries) (bytes : List UInt8) :
    L.nfc (encodeExecutorStreamV0 bytes) = encodeExecutorStreamV0 bytes := by
  refine L.nfc_ascii _ (List.all_eq_true.mpr fun c hc => decide_eq_true ?_)
  rw [encodeExecutorStreamV0, toList_ofList] at hc
  exact (plainAscii_encodeChunks bytes c hc).1

/-- The supervision of the command ended with success, unless it was stopped without a status. -/
def finished (outcome : ProcessOutcome) : Bool :=
  match outcome.classification with
  | none | some .nonzeroExit | some .signalTermination => outcome.status.any (·.success)
  | _ => outcome.status.all (·.success)

/-- What `execute` answers once the command was supervised. -/
theorem execute_of_run {execution : Execution}
    (harranged : arrange L E execution prepared.request = .ok ())
    (hran : runBounded prepared.request.resolvedPolicy.limits.timeoutMs.toNat
      prepared.request.resolvedPolicy.limits.maxStdoutBytes.toNat
      prepared.request.resolvedPolicy.limits.maxStderrBytes.toNat execution.launch =
        some (.ok outcome)) :
    execute L E execution prepared = some (receivedRecord execution.record >>= fun record =>
      (applyInnerStatus outcome record).map
        (completedResponse execution.host.platform prepared)) := by
  simp only [execute, harranged, hran, Option.map_some]
  cases receivedRecord execution.record with
  | error error => rfl
  | ok record =>
    show some (applyInnerStatus outcome record >>= _) = some (Except.map _ _)
    cases applyInnerStatus outcome record <;> rfl

end

/-! ## One Tool -/

/-- A host whose readiness command prints a version. -/
def readyHost (version : String) : Host :=
  sampleHost (commandRun ("bubblewrap " ++ version ++ "\n") "" ⟨0⟩)

/-- The Tool prints a text, and the inner supervisor sends a record. -/
def sampleExecution (record : List UInt8) : Execution :=
  { host := readyHost "0.9.0"
    channels := .ok ()
    launch := commandRun "hello" "" ⟨0⟩
    record := some (.ok record) }

def samplePrepared (version : String) : PreparedExecution :=
  { request := sampleRequest, backendVersion := version }

abbrev sampleRun (execution : Execution) (version : String) :=
  execute asciiLibraries sampleExecutorLibraries execution (samplePrepared version)

/-- The Tool as its supervisor saw it. -/
def helloOutcome : ProcessOutcome :=
  { status := some ⟨0⟩, classification := none, stdout := utf8 "hello", stderr := [] }

theorem arrange_sampleExecution {execution : Execution} (hhost : execution.host = readyHost "0.9.0")
    (hchannels : execution.channels = .ok ()) :
    arrange asciiLibraries sampleExecutorLibraries execution sampleRequest = .ok () := by
  obtain ⟨bytes, hwritten⟩ := sampleRequest_written
  have hobjects : verifyObjects (readyHost "0.9.0") sampleRequest = .ok () := by decide
  simp only [arrange, hhost, hchannels, hobjects, hwritten]
  rfl

theorem runBounded_hello :
    runBounded 1000 1024 1024 (commandRun "hello" "" ⟨0⟩) = some (.ok helloOutcome) := by decide

theorem execute_sampleExecution (record : List UInt8) (version : String) :
    sampleRun (sampleExecution record) version =
      some ((applyInnerStatus helloOutcome record).map
        (completedResponse .linux (samplePrepared version))) :=
  execute_of_run (arrange_sampleExecution rfl rfl) runBounded_hello

/-- The client that reads the response to a Tool gets the bytes of its streams that the supervisor
    kept. -/
theorem kept_streams_reach_client {L : Libraries} {E : ExecutorLibraries} (serde : SerdeJson)
    (hidempotent : ∀ text, L.nfc (L.nfc text) = L.nfc text) {prepared : PreparedExecution}
    {execution : Execution} {response : ExecutorResponseV0} {written : List UInt8}
    (hexecute : execute L E execution prepared = some (.ok response))
    (hwritten : canonicalExecutorResponseV0 L E response = .ok written) :
    let limits := prepared.request.resolvedPolicy.limits
    ∃ outcome enforcement id schema result,
      runBounded limits.timeoutMs.toNat limits.maxStdoutBytes.toNat limits.maxStderrBytes.toNat
        execution.launch = some (.ok outcome) ∧
      parseExecutorResponseV0 L E serde written prepared.request.requestId
        prepared.request.policyDigest = .ok (.completed enforcement id schema result) ∧
      decodeExecutorStreamV0 result.stdoutBase64 = .ok outcome.stdout ∧
      decodeExecutorStreamV0 result.stderrBase64 = .ok outcome.stderr := by
  unfold execute at hexecute
  split at hexecute
  · cases hexecute
  obtain ⟨run, hrun, hbuilt⟩ := map_eq_some_iff.mp hexecute
  obtain ⟨outcome, rfl, hread⟩ := bind_eq_ok.mp hbuilt
  obtain ⟨record, -, happlied⟩ := bind_eq_ok.mp hread
  obtain ⟨result, hresult, hresponse⟩ := bind_eq_ok.mp happlied
  cases hresponse
  obtain ⟨hdocument, hcheck⟩ := canonicalExecutorResponseV0_eq_ok.mp hwritten
  obtain ⟨hstdout, hstderr⟩ := streams_applyInnerStatus hresult
  have hstream (bytes : List UInt8) :
      decodeExecutorStreamV0 (L.nfc (encodeExecutorStreamV0 bytes)) = .ok bytes := by
    rw [nfc_encodeExecutorStreamV0, decodeExecutorStreamV0_encodeExecutorStreamV0]
  have hparsed := @read_of_written L E serde _ _ _ _ _ _ _ asciiNames_response
    (validateResponse · _ _) hidempotent (map_response _ L.nfc) hdocument hcheck
  exact ⟨_, _, _, _, _, hrun, hparsed, hstdout ▸ hstream _, hstderr ▸ hstream _⟩

theorem kept_streams_reach_client_hello : ∃ written enforcement id schema result,
    parseExecutorResponseV0 asciiLibraries sampleExecutorLibraries compactSerde written
        sampleRequest.requestId sampleRequest.policyDigest =
      .ok (.completed enforcement id schema result) ∧
    decodeExecutorStreamV0 result.stdoutBase64 = .ok (utf8 "hello") := by
  obtain ⟨written, hdocument⟩ : ∃ written, canonicalDocument asciiLibraries
      (completedResponse .linux (samplePrepared "0.9.0") helloOutcome) maxExecutorResponseBytesV0
        "response" = .ok (written, _) :=
    canonicalDocument_of_textSize asciiNames_response "response" (writable_response _ _ _ _)
      (by decide +kernel)
  obtain ⟨outcome, enforcement, id, schema, result, hrun, hparse, hstdout, -⟩ :=
    kept_streams_reach_client compactSerde (fun _ => rfl)
      (execute_sampleExecution [0, 0, 0, 0] "0.9.0")
      (canonicalExecutorResponseV0_eq_ok.mpr ⟨hdocument, by decide +kernel⟩)
  have hhello : runBounded 1000 1024 1024 (commandRun "hello" "" ⟨0⟩) = some (.ok helloOutcome) := by
    decide
  cases hrun.symm.trans hhello
  exact ⟨_, _, _, _, _, hparse, hstdout⟩

end Watershed.FlowExecutor
