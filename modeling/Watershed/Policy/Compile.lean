/-
  The policy compiler (`compile.rs`): it collects the Phases that a Flow can reach, with their
  Tools, and derives a command policy from each Tool.

  The source recurses without a bound; here a bound on the depth is given, and exceeding it is an
  error of its own.
-/
import Watershed.Lib.DepthFirst
import Watershed.Policy.Artifact
import Watershed.Script.Registry

namespace Watershed.Policy

open Watershed.Script

inductive PolicyCompileError where
  | missingFlow (reference : String)
  | invalidArtifact (error : PolicyArtifactValidationError)
  /-- An expectation of the program that did not hold. -/
  | panicked (message : String)
  /-- The recursion went deeper than the bound. -/
  | tooDeep
  deriving DecidableEq

/-- What was collected, and which Flows and Phases were visited. -/
structure PolicyScope where
  phaseTools : StringMap StringSet
  toolIds : StringSet
  visitedFlows : StringSet
  visitedPhases : StringSet

def PolicyScope.empty : PolicyScope :=
  { phaseTools := ∅, toolIds := ∅, visitedFlows := ∅, visitedPhases := ∅ }

section Compile

variable (L : ScriptLibraries) (registry : ResolvedRegistry)

/-- `expect` on the block that a reference is to. -/
def expectBlock (kind : RegistryBlockKind) (message reference : String) :
    Except PolicyCompileError (Block kind) :=
  match registry.namedBlock L kind reference with
  | some block => .ok block
  | none => .error (.panicked message)

/-- The Tools of one Phase, added to those of the Phase and to all Tools. -/
def collectTools : List String → StringSet × StringSet →
    Except PolicyCompileError (StringSet × StringSet)
  | [], tools => .ok tools
  | reference :: references, (scopedTools, toolIds) => do
    let tool ← expectBlock L registry .tool "resolved registry validates phase tool references"
      reference
    let id := (ToolBlock.identity tool).id
    collectTools references (scopedTools.insert id, toolIds.insert id)

def enterPhase (phase : PhaseBlock) (scope : PolicyScope) :
    Except PolicyCompileError (Option (PolicyScope × List String)) :=
  if scope.visitedPhases.contains phase.identity.id then .ok none
  else do
    let scopedTools := scope.phaseTools[phase.identity.id]?.getD ∅
    let (scopedTools, toolIds) ← collectTools L registry phase.toolRefs (scopedTools, scope.toolIds)
    .ok (some ({ scope with
      phaseTools := scope.phaseTools.insert phase.identity.id scopedTools
      toolIds := toolIds
      visitedPhases := scope.visitedPhases.insert phase.identity.id }, phase.phaseRefs))

def collectPhasePolicyScope (depth : Nat) (phase : PhaseBlock) (scope : PolicyScope) :
    Except PolicyCompileError PolicyScope :=
  DepthFirst.collect
    (expectBlock L registry .phase "resolved registry validates child phase references")
    (enterPhase L registry) .tooDeep depth phase scope

def enterFlow (depth : Nat) (flow : FlowBlock) (scope : PolicyScope) :
    Except PolicyCompileError (Option (PolicyScope × List String)) :=
  if scope.visitedFlows.contains flow.identity.id then .ok none
  else do
    let scope ← DepthFirst.collectEach
      (expectBlock L registry .phase "resolved registry validates flow phase references")
      (collectPhasePolicyScope L registry depth) flow.phaseRefs
      { scope with visitedFlows := scope.visitedFlows.insert flow.identity.id }
    .ok (some (scope, flow.subflowRefs))

def collectFlowPolicyScope (depth : Nat) (flow : FlowBlock) (scope : PolicyScope) :
    Except PolicyCompileError PolicyScope :=
  DepthFirst.collect
    (expectBlock L registry .flow "resolved registry validates subflow references")
    (enterFlow L registry depth) .tooDeep depth flow scope

def commandPolicy (tool : ToolBlock) (commandId : String) (argv : List String)
    (executable : String) (scriptRuntime : Option ScriptRuntime) : CommandPolicy :=
  { allowedParameters := tool.allowedParameters
    argv := argv
    commandId := commandId
    environment := { allow := [], default := .clear }
    executable := executable
    scriptRuntime := scriptRuntime
    toolId := tool.identity.id
    toolKind := tool.toolKind }

def commandPolicyFromTool (tool : ToolBlock) : Except PolicyCompileError CommandPolicy :=
  match tool.toolKind, tool.command with
  | .predefinedCommand, .predefined commandId argv =>
    match TrustedPredefinedCommand.parse commandId with
    | none =>
      .error (.invalidArtifact ⟨"predefined-command tool " ++ tool.identity.id ++
        " references unknown trusted command " ++ L.debug commandId⟩)
    | some command => .ok (commandPolicy tool commandId argv command.executable none)
  | .ownScript, .ownScript commandId =>
    .ok (commandPolicy tool commandId [] ownScriptRunnerPosixSh (some .posixSh))
  | _, _ =>
    .error (.invalidArtifact ⟨"tool " ++ tool.identity.id ++
      " command shape does not match tool_kind"⟩)

/-- The command policy of the Tool with an id. -/
def commandPolicyOf (toolId : String) : Except PolicyCompileError CommandPolicy := do
  let tool ← expectBlock L registry .tool "resolved registry preserves collected tools" toolId
  commandPolicyFromTool L tool

/-- The artifact for a Flow, from what was collected. -/
def policyArtifact (flow : FlowBlock) (scope : PolicyScope) (commands : List CommandPolicy) :
    PolicyArtifact :=
  { commands := commands
    phaseScope := scope.phaseTools.toList.map fun entry =>
      { phaseId := entry.1, toolIds := entry.2.toList }
    policyVersion := policyVersionV0
    runtimeLimits :=
      { headless := true
        timeoutMs := if 1 < flow.phaseRefs.length ∨ flow.subflowRefs ≠ [] then 60000 else 30000 }
    sourceFlowDefinitionId := flow.identity.id }

/-- Compiles the invocation policy for one resolved Flow. -/
def compilePolicyArtifact (depth : Nat) (flowRef : String) :
    Except PolicyCompileError PolicyArtifact :=
  match registry.flowBlock L flowRef with
  | none => .error (.missingFlow flowRef)
  | some flow => do
    let scope ← collectFlowPolicyScope L registry depth flow .empty
    let commands ← scope.toolIds.toList.mapM (commandPolicyOf L registry)
    let artifact := policyArtifact flow scope commands
    (artifact.validate L).mapError .invalidArtifact
    .ok artifact

end Compile

end Watershed.Policy
