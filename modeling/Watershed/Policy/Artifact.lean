/-
  Policy artifacts (`artifact.rs`, `artifact/command.rs`, `artifact/environment.rs`): which Tools a
  Phase may use, how each Tool is invoked, and the checks of an artifact.
-/
import Watershed.Lib.StringMap
import Watershed.Script.Semantics

namespace Watershed.Policy

open Watershed.Script List StringSet

/-- Policy artifact version string emitted by the v0 compiler. -/
def policyVersionV0 : String := "0"

def ownScriptRunnerPosixSh : String := "runner:posix-sh"

/-- A predefined command implemented and trusted by Flow Agent. -/
inductive TrustedPredefinedCommand where
  | echo
  | negative
  | read
  deriving DecidableEq

namespace TrustedPredefinedCommand

def all : List TrustedPredefinedCommand := [.echo, .negative, .read]

def asStr : TrustedPredefinedCommand → String
  | .echo => "agent-echo"
  | .negative => "agent-negative"
  | .read => "agent-read"

def parse (commandId : String) : Option TrustedPredefinedCommand :=
  all.find? fun command => command.asStr = commandId

/-- The executable identity used by runtime policy. -/
def executable (command : TrustedPredefinedCommand) : String := "registry:" ++ command.asStr

end TrustedPredefinedCommand

inductive EnvironmentDefault where
  | clear
  deriving DecidableEq

structure EnvironmentPolicy where
  allow : List String
  default : EnvironmentDefault
  deriving DecidableEq

/-- Command-level policy derived from a Tool block. -/
structure CommandPolicy where
  allowedParameters : List AllowedParameter
  argv : List String
  commandId : String
  environment : EnvironmentPolicy
  executable : String
  scriptRuntime : Option ScriptRuntime
  toolId : String
  toolKind : ToolKind
  deriving DecidableEq

/-- Tools available within a Phase. -/
structure PhaseScope where
  phaseId : String
  toolIds : List String
  deriving DecidableEq

structure RuntimeLimits where
  headless : Bool
  timeoutMs : Nat
  deriving DecidableEq

/-- Compiled Tool invocation and Phase availability policy. -/
structure PolicyArtifact where
  commands : List CommandPolicy
  phaseScope : List PhaseScope
  policyVersion : String
  runtimeLimits : RuntimeLimits
  sourceFlowDefinitionId : String
  deriving DecidableEq

structure PolicyArtifactValidationError where
  message : String
  deriving DecidableEq

/-! ## Environment -/

def isEnvironmentByte (c : Char) : Bool := c = '_' || isAsciiUppercase c || Proto.isAsciiDigit c

def hasValidEnvironmentAllowNameShape (name : String) : Bool :=
  if 64 < name.utf8ByteSize then false
  else
    match name.toList with
    | [] => false
    | first :: rest =>
      if first ≠ '_' ∧ !isAsciiUppercase first then false else rest.all isEnvironmentByte

def validateEnvironmentAllowName (L : ScriptLibraries) (toolId name : String) :
    Except PolicyArtifactValidationError Unit :=
  if !hasValidEnvironmentAllowNameShape name then
    .error ⟨"tool " ++ toolId ++ " environment allow entry " ++ L.debug name ++
      " must match ^[A-Z_][A-Z0-9_]\x7b0,63\x7d$"⟩
  else .ok ()

def EnvironmentPolicy.validate (L : ScriptLibraries) (environment : EnvironmentPolicy)
    (toolId : String) : Except PolicyArtifactValidationError Unit :=
  environment.allow.forM (validateEnvironmentAllowName L toolId)

/-! ## Commands -/

namespace CommandPolicy

variable (L : ScriptLibraries)

def validateCommandShape (command : CommandPolicy) : Except PolicyArtifactValidationError Unit :=
  match command.toolKind with
  | .predefinedCommand =>
    let tool := "predefined-command tool " ++ command.toolId
    if !isValidCommandId command.commandId.toList then
      .error ⟨tool ++ " command_id " ++ L.debug command.commandId ++ " must be a valid command id"⟩
    else
      match TrustedPredefinedCommand.parse command.commandId with
      | none =>
        .error ⟨tool ++ " references unknown trusted command " ++ L.debug command.commandId⟩
      | some trusted =>
        if command.executable ≠ trusted.executable then
          .error ⟨tool ++ " executable must be " ++ trusted.executable⟩
        else if command.scriptRuntime.isSome then .error ⟨tool ++ " must omit script_runtime"⟩
        else .ok ()
  | .ownScript =>
    let tool := "own-script tool " ++ command.toolId
    if command.commandId ≠ ownScriptCommandId command.toolId then
      .error ⟨tool ++ " command_id must be " ++ ownScriptCommandId command.toolId⟩
    else if command.scriptRuntime ≠ some .posixSh then
      .error ⟨tool ++ " must use script_runtime " ++ ScriptRuntime.posixSh.asStr⟩
    else if command.executable ≠ ownScriptRunnerPosixSh then
      .error ⟨tool ++ " executable must be " ++ ownScriptRunnerPosixSh⟩
    else if command.argv ≠ [] then .error ⟨tool ++ " must omit argv"⟩
    else .ok ()

def validateAllowedParameters (toolId : String) (names : List String) :
    List AllowedParameter → Except PolicyArtifactValidationError Unit
  | [] => .ok ()
  | parameter :: parameters => do
    (parameter.validate L).mapError fun message => ⟨"tool " ++ toolId ++ " " ++ message⟩
    if parameter.name ∈ names then
      .error ⟨"tool " ++ toolId ++ " allowed parameter " ++ parameter.name ++
        " is declared more than once"⟩
    else validateAllowedParameters toolId (parameter.name :: names) parameters

def validate (command : CommandPolicy) : Except PolicyArtifactValidationError Unit := do
  command.validateCommandShape L
  validateAllowedParameters L command.toolId [] command.allowedParameters
  command.environment.validate L command.toolId

end CommandPolicy

/-! ## Artifacts -/

/-- The Tool ids of the commands, none of them twice. -/
def commandToolIds (ids : StringSet) :
    List CommandPolicy → Except PolicyArtifactValidationError StringSet
  | [] => .ok ids
  | command :: commands =>
    if ids.contains command.toolId then
      .error ⟨"duplicate command tool_id " ++ command.toolId⟩
    else commandToolIds (ids.insert command.toolId) commands

/-- The Tools of one Phase, each with a command and none twice; they are added to the Tools of
    other Phases. -/
def scopeTools (commands : StringSet) (phaseId : String) (phaseTools inScope : StringSet) :
    List String → Except PolicyArtifactValidationError StringSet
  | [] => .ok inScope
  | toolId :: toolIds =>
    if !commands.contains toolId then
      .error ⟨"phase_scope " ++ phaseId ++ " references unknown tool_id " ++ toolId⟩
    else if phaseTools.contains toolId then
      .error ⟨"phase_scope " ++ phaseId ++ " contains duplicate tool_id " ++ toolId⟩
    else scopeTools commands phaseId (phaseTools.insert toolId) (inScope.insert toolId) toolIds

/-- The Tools of all Phases. -/
def scopedToolIds (commands phaseIds inScope : StringSet) :
    List PhaseScope → Except PolicyArtifactValidationError StringSet
  | [] => .ok inScope
  | phase :: phases =>
    if phaseIds.contains phase.phaseId then
      .error ⟨"duplicate phase_scope phase_id " ++ phase.phaseId⟩
    else do
      let inScope ← scopeTools commands phase.phaseId ∅ inScope phase.toolIds
      scopedToolIds commands (phaseIds.insert phase.phaseId) inScope phases

namespace PolicyArtifact

def validatePhaseScope (artifact : PolicyArtifact) : Except PolicyArtifactValidationError Unit := do
  let commands ← commandToolIds ∅ artifact.commands
  let inScope ← scopedToolIds commands ∅ ∅ artifact.phaseScope
  commands.toList.forM fun toolId =>
    if !inScope.contains toolId then
      .error ⟨"command " ++ toolId ++ " must appear in phase_scope"⟩
    else .ok ()

/-- Validates artifact invariants after compile or deserialization. -/
def validate (L : ScriptLibraries) (artifact : PolicyArtifact) :
    Except PolicyArtifactValidationError Unit :=
  if artifact.policyVersion ≠ policyVersionV0 then
    .error ⟨"policy_version must be fixed string \"0\""⟩
  else do
    artifact.commands.forM (CommandPolicy.validate L)
    artifact.validatePhaseScope

end PolicyArtifact

/-! ## What the checks accept -/

section
variable {ids commands phaseIds phaseTools inScope result : StringSet}

theorem commandToolIds_eq_ok {commands : List CommandPolicy} :
    commandToolIds ids commands = .ok result ↔
      Fresh ids (commands.map (·.toolId)) ∧ result = addAll ids (commands.map (·.toolId)) := by
  induction commands generalizing ids with
  | nil => simp [commandToolIds, Fresh, addAll, eq_comm]
  | cons command commands ih =>
    rw [commandToolIds, ite_error_eq_ok, ih, map_cons, fresh_cons, and_assoc]
    rfl

theorem scopeTools_eq_ok {phaseId : String} {toolIds : List String} :
    scopeTools commands phaseId phaseTools inScope toolIds = .ok result ↔
      (∀ toolId ∈ toolIds, toolId ∈ commands) ∧ Fresh phaseTools toolIds ∧
      result = addAll inScope toolIds := by
  induction toolIds generalizing phaseTools inScope with
  | nil => simp [scopeTools, Fresh, addAll, eq_comm]
  | cons toolId toolIds ih =>
    rw [scopeTools, ite_error_eq_ok, ite_error_eq_ok, ih, forall_mem_cons, fresh_cons,
      Bool.not_eq_true, Bool.not_eq_false', Std.ExtTreeSet.contains_iff_mem,
      Std.ExtTreeSet.contains_iff_mem]
    have hadd : addAll inScope (toolId :: toolIds) = addAll (inScope.insert toolId) toolIds := rfl
    rw [hadd]
    tauto

theorem scopedToolIds_eq_ok {phases : List PhaseScope} :
    scopedToolIds commands phaseIds inScope phases = .ok result ↔
      Fresh phaseIds (phases.map (·.phaseId)) ∧
      (∀ phase ∈ phases, phase.toolIds.Nodup ∧ ∀ toolId ∈ phase.toolIds, toolId ∈ commands) ∧
      result = addAll inScope (phases.flatMap (·.toolIds)) := by
  induction phases generalizing phaseIds inScope with
  | nil => simp [scopedToolIds, Fresh, addAll, eq_comm]
  | cons phase phases ih =>
    rw [scopedToolIds, ite_error_eq_ok, map_cons, fresh_cons, forall_mem_cons, flatMap_cons,
      addAll_append, Std.ExtTreeSet.contains_iff_mem]
    simp only [bind_eq_ok, scopeTools_eq_ok, fresh_empty, ih]
    constructor
    · rintro ⟨hphase, _, ⟨hknown, hdistinct, rfl⟩, hfresh, hall, rfl⟩
      exact ⟨⟨hphase, hfresh⟩, ⟨⟨hdistinct, hknown⟩, hall⟩, rfl⟩
    · rintro ⟨⟨hphase, hfresh⟩, ⟨⟨hdistinct, hknown⟩, hall⟩, rfl⟩
      exact ⟨hphase, _, ⟨hknown, hdistinct, rfl⟩, hfresh, hall, rfl⟩

end

/-- Commands and Phase scopes belong together: every Tool of a Phase has exactly one command, and
    every command belongs to a Tool of some Phase. -/
structure WellScoped (artifact : PolicyArtifact) : Prop where
  commands : (artifact.commands.map (·.toolId)).Nodup
  phases : (artifact.phaseScope.map (·.phaseId)).Nodup
  tools : ∀ phase ∈ artifact.phaseScope, phase.toolIds.Nodup ∧
    ∀ toolId ∈ phase.toolIds, toolId ∈ artifact.commands.map (·.toolId)
  used : ∀ toolId ∈ artifact.commands.map (·.toolId),
    ∃ phase ∈ artifact.phaseScope, toolId ∈ phase.toolIds

theorem validatePhaseScope_eq_ok {artifact : PolicyArtifact} :
    artifact.validatePhaseScope = .ok () ↔ WellScoped artifact := by
  have hmem {l : List String} {a : String} : a ∈ addAll ∅ l ↔ a ∈ l := by
    rw [mem_addAll, or_iff_right Std.ExtTreeSet.not_mem_empty]
  simp only [PolicyArtifact.validatePhaseScope, bind_eq_ok, commandToolIds_eq_ok,
    scopedToolIds_eq_ok, fresh_empty, forM_eq_ok, ite_error_eq_ok, Bool.not_eq_true,
    Bool.not_eq_false', Std.ExtTreeSet.contains_iff_mem, Std.ExtTreeSet.mem_toList, and_true]
  constructor
  · rintro ⟨_, ⟨hdistinct, rfl⟩, _, ⟨hphases, htools, rfl⟩, hused⟩
    simp only [hmem, mem_flatMap] at htools hused
    exact ⟨hdistinct, hphases, htools, hused⟩
  · intro h
    refine ⟨_, ⟨h.commands, rfl⟩, _, ⟨h.phases, ?_, rfl⟩, ?_⟩
    · simpa only [hmem] using h.tools
    · simpa only [hmem, mem_flatMap] using h.used

/-- The parameters of a Tool pass the checks of a command if they passed those of the block. -/
theorem validateAllowedParameters_of_ok {L : ScriptLibraries} {toolId : String}
    {names : List String} {parameters : List AllowedParameter}
    (h : validateParameters L names parameters = .ok ()) :
    CommandPolicy.validateAllowedParameters L toolId names parameters = .ok () := by
  induction parameters generalizing names with
  | nil => rfl
  | cons parameter parameters ih =>
    rw [validateParameters, check_bind_eq_ok] at h
    rw [CommandPolicy.validateAllowedParameters, check_bind_eq_ok, mapError_eq_ok]
    refine ⟨h.1, ?_⟩
    have hrest := h.2
    obtain ⟨hnew, hrest⟩ := ite_error_eq_ok.mp hrest
    rw [if_neg hnew]
    exact ih hrest

end Watershed.Policy
