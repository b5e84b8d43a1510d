/-
  The compiled policy is exact: it has the Phases that the Flow can reach with the Tools that they
  declare, and one command for each of these Tools. It fails only for a Tool with a command that is
  not trusted.
-/
import Watershed.Policy.Compile
import Watershed.Script.Sound

namespace Watershed.Policy

open Watershed.Script List StringSet StringMap ResolvedRegistry

variable {L : ScriptLibraries} {registry : ResolvedRegistry}

/-! ## References of a sound registry -/

theorem expectBlock_of_get {kind : RegistryBlockKind} {reference : String} {block : Block kind}
    (h : (registry.blocks kind)[reference]? = some block) (message : String) :
    expectBlock L registry kind message reference = .ok block := by
  rw [expectBlock, namedBlock_of_id h]

/-- References by id give the blocks with these ids. -/
theorem expectBlocks (hsound : registry.Sound) (kind : RegistryBlockKind) (message : String)
    (references : List String) (h : ∀ reference ∈ references, reference ∈ registry.blocks kind) :
    ∃ items, List.Forall₂ (fun reference item =>
        expectBlock L registry kind message reference = .ok item) references items ∧
      (∀ item ∈ items, (registry.blocks kind)[(Block.identity kind item).id]? = some item) ∧
      items.map (fun item => (Block.identity kind item).id) = references := by
  induction references with
  | nil => exact ⟨[], .nil, by simp, rfl⟩
  | cons reference references ih =>
    rw [forall_mem_cons] at h
    obtain ⟨items, hitems, hblocks, hids⟩ := ih h.2
    obtain ⟨block, hblock⟩ := mem_iff.mp h.1
    have hid := hsound.ids kind reference block hblock
    refine ⟨block :: items, .cons (expectBlock_of_get hblock message) hitems, ?_, ?_⟩
    · refine forall_mem_cons.mpr ⟨?_, hblocks⟩
      rw [hid]
      exact hblock
    · rw [map_cons, hid, hids]

theorem collectTools_eq (hsound : registry.Sound) {references : List String}
    (h : ∀ reference ∈ references, reference ∈ registry.blocks .tool)
    (scopedTools toolIds : StringSet) :
    collectTools L registry references (scopedTools, toolIds) =
      .ok (scopedTools.addAll references, toolIds.addAll references) := by
  induction references generalizing scopedTools toolIds with
  | nil => rfl
  | cons reference references ih =>
    rw [forall_mem_cons] at h
    obtain ⟨tool, htool⟩ := mem_iff.mp h.1
    have hid : (ToolBlock.identity tool).id = reference := hsound.ids .tool reference tool htool
    rw [collectTools, expectBlock_of_get htool]
    change collectTools L registry references (scopedTools.insert (ToolBlock.identity tool).id,
        toolIds.insert (ToolBlock.identity tool).id) = _
    rw [hid]
    exact ih h.2 _ _

/-! ## Collecting Phases -/

variable (registry) in
/-- A Phase declares a Tool. -/
def Declares (phaseId toolId : String) : Prop :=
  ∃ phase, (registry.blocks .phase)[phaseId]? = some phase ∧ toolId ∈ PhaseBlock.toolRefs phase

variable (registry) in
/-- What was collected belongs to the visited Phases. -/
structure Collected (scope : PolicyScope) : Prop where
  phases : ∀ phaseId, phaseId ∈ scope.phaseTools ↔ phaseId ∈ scope.visitedPhases
  known : ∀ phaseId ∈ scope.visitedPhases, phaseId ∈ registry.blocks .phase
  tools : ∀ (phaseId : String) tools, scope.phaseTools[phaseId]? = some tools →
    ∀ toolId, toolId ∈ tools ↔ Declares registry phaseId toolId
  toolIds : ∀ toolId, toolId ∈ scope.toolIds ↔
    ∃ phaseId ∈ scope.visitedPhases, Declares registry phaseId toolId

theorem collected_empty : Collected registry .empty := by
  constructor <;> simp [PolicyScope.empty]

variable {scope : PolicyScope} {phase : PhaseBlock} {flow : FlowBlock} {depth : Nat}
  {phaseId toolId : String}

theorem exists_some_iff {α : Type} {o : Option α} {a : α} {P : α → Prop} (h : o = some a) :
    (∃ found, o = some found ∧ P found) ↔ P a := by
  simp [h]

theorem declares_iff
    (h : (registry.blocks .phase)[phaseId]? = some phase) :
    Declares registry phaseId toolId ↔ toolId ∈ phase.toolRefs := exists_some_iff h

/-- The scope with one more Phase. -/
theorem Collected.visit (h : Collected registry scope)
    (hphase : (registry.blocks .phase)[phase.identity.id]? = some phase) :
    Collected registry { scope with
      phaseTools := scope.phaseTools.insert phase.identity.id (addAll ∅ phase.toolRefs)
      toolIds := addAll scope.toolIds phase.toolRefs
      visitedPhases := scope.visitedPhases.insert phase.identity.id } := by
  refine ⟨fun phaseId => ?_, fun phaseId hid => ?_, fun phaseId tools htools toolId => ?_,
    fun toolId => ?_⟩
  · rw [mem_insert, Std.ExtTreeMap.mem_insert, Std.LawfulEqCmp.compare_eq_iff_eq, h.phases]
  · rcases mem_insert.mp hid with rfl | hid
    · exact mem_iff.mpr ⟨phase, hphase⟩
    · exact h.known phaseId hid
  · rw [get_insert] at htools
    split at htools
    · rename_i heq
      cases htools
      subst heq
      rw [mem_addAll, or_iff_right Std.ExtTreeSet.not_mem_empty, declares_iff hphase]
    · exact h.tools phaseId tools htools toolId
  · rw [mem_addAll, h.toolIds, ← declares_iff hphase, or_comm]
    simp only [mem_insert, or_and_right, exists_or, exists_eq_left']

theorem heightLe_of_withinLimits {nesting : Nesting} {R : String → String → Prop}
    (h : registry.WithinLimits nesting R) (hdepth : nesting.maxDepth ≤ depth)
    (id : String) : HeightLe R depth id :=
  (HeightLe.of_chains fun rest hchain => h.chains (id :: rest) hchain).mono hdepth

section Phases

variable (hsound : registry.Sound) (flows : StringSet)
  (hphase : (registry.blocks .phase)[phase.identity.id]? = some phase)
  (h : Collected registry scope ∧ scope.visitedFlows = flows)
include hsound hphase h

/-- Visiting one Phase: its Tools are collected and its children come next. -/
theorem enterPhase_enters :
    DepthFirst.Enters (registry.Names phaseNesting) (fun scope id => id ∈ scope.visitedPhases)
      (expectBlock L registry .phase "resolved registry validates child phase references")
      (fun phase => (PhaseBlock.identity phase).id)
      (fun phase => (registry.blocks .phase)[(PhaseBlock.identity phase).id]? = some phase)
      (fun scope => Collected registry scope ∧ scope.visitedFlows = flows)
      (enterPhase L registry) phase scope := by
  unfold DepthFirst.Enters enterPhase
  by_cases hvisited : phase.identity.id ∈ scope.visitedPhases
  · exact .inl ⟨hvisited, if_pos (Std.ExtTreeSet.contains_iff_mem.mpr hvisited)⟩
  · have habsent : scope.phaseTools[phase.identity.id]? = none :=
      Option.eq_none_iff_forall_ne_some.mpr fun tools htools =>
        hvisited ((h.1.phases _).mp (mem_iff.mpr ⟨tools, htools⟩))
    have hreferences := hsound.references .phase _ phase hphase
    have htools := collectTools_eq (L := L) hsound (fun reference hreference =>
      hreferences (.tool, reference) (by
        simp only [Block.references, mem_append, mem_map]
        exact .inl (.inl (.inl (.inr ⟨reference, hreference, rfl⟩))))) ∅ scope.toolIds
    obtain ⟨items, hitems, hblocks, hids⟩ := expectBlocks hsound .phase
      "resolved registry validates child phase references" phase.phaseRefs
      fun reference hreference =>
        hreferences (.phase, reference) (phaseNesting_follows.mem phase reference hreference)
    refine .inr ⟨_, phase.phaseRefs, items, ?_, ⟨h.1.visit hphase, h.2⟩, fun id => ?_,
      hitems, hblocks, fun id => ?_⟩
    · rw [if_neg (by rwa [Std.ExtTreeSet.contains_iff_mem])]
      simp only [habsent, Option.getD_none, htools, bind, Except.bind]
    · exact mem_insert.trans (or_comm.trans (or_congr_right eq_comm))
    · refine (iff_of_eq (congrArg (id ∈ ·) hids)).trans (Iff.symm ?_)
      exact exists_some_iff hphase

/-- Collecting from a Phase visits what can be reached from it. -/
theorem collectPhasePolicyScope_grows (hdepth : maxPhaseNestingDepth ≤ depth) :
    ∃ after, collectPhasePolicyScope L registry depth phase scope = .ok after ∧
      (Collected registry after ∧ after.visitedFlows = flows) ∧
      DepthFirst.Grows (registry.Names phaseNesting) (fun scope id => id ∈ scope.visitedPhases)
        [phase.identity.id] scope after :=
  DepthFirst.collect_grows PolicyCompileError.tooDeep
    (fun _ _ hphase hinv => enterPhase_enters (L := L) hsound flows hphase hinv)
    (heightLe_of_withinLimits hsound.phases hdepth phase.identity.id) hphase h

end Phases

/-! ## Collecting Flows -/

variable (registry) in
/-- A Phase is in a Flow, or below a Phase that is. -/
def PhaseOf (flowId phaseId : String) : Prop :=
  ∃ flow, (registry.blocks .flow)[flowId]? = some flow ∧ ∃ root ∈ FlowBlock.phaseRefs flow,
    Relation.ReflTransGen (registry.Names phaseNesting) root phaseId

variable (registry) in
/-- The visited Phases are those of the visited Flows. -/
structure CollectedFlows (scope : PolicyScope) : Prop extends Collected registry scope where
  ofFlows : ∀ phaseId, phaseId ∈ scope.visitedPhases ↔
    ∃ flowId ∈ scope.visitedFlows, PhaseOf registry flowId phaseId

theorem CollectedFlows.closed (h : CollectedFlows registry scope)
    (phaseId : String) (hphase : phaseId ∈ scope.visitedPhases) (next : String)
    (hnext : registry.Names phaseNesting phaseId next) : next ∈ scope.visitedPhases := by
  obtain ⟨flowId, hflowId, flow, hflow, root, hroot, hreach⟩ := (h.ofFlows phaseId).mp hphase
  exact (h.ofFlows next).mpr ⟨flowId, hflowId, flow, hflow, root, hroot, hreach.tail hnext⟩

theorem phaseOf_iff {flowId phaseId : String} (h : (registry.blocks .flow)[flowId]? = some flow) :
    PhaseOf registry flowId phaseId ↔ ∃ root ∈ flow.phaseRefs,
      Relation.ReflTransGen (registry.Names phaseNesting) root phaseId := exists_some_iff h

/-- Visiting one Flow: the Phases of the Flow are visited and its subflows come next. -/
theorem enterFlow_enters (hsound : registry.Sound) (hdepth : maxPhaseNestingDepth ≤ depth)
    (hflow : (registry.blocks .flow)[flow.identity.id]? = some flow)
    (h : CollectedFlows registry scope) :
    DepthFirst.Enters (registry.Names flowNesting) (fun scope id => id ∈ scope.visitedFlows)
      (expectBlock L registry .flow "resolved registry validates subflow references")
      (fun flow => (FlowBlock.identity flow).id)
      (fun flow => (registry.blocks .flow)[(FlowBlock.identity flow).id]? = some flow)
      (CollectedFlows registry) (enterFlow L registry depth) flow scope := by
  unfold DepthFirst.Enters enterFlow
  by_cases hvisited : flow.identity.id ∈ scope.visitedFlows
  · exact .inl ⟨hvisited, if_pos (Std.ExtTreeSet.contains_iff_mem.mpr hvisited)⟩
  · have hreferences := hsound.references .flow _ flow hflow
    obtain ⟨phases, hphases, hphaseBlocks, hphaseIds⟩ := expectBlocks hsound .phase
      "resolved registry validates flow phase references" flow.phaseRefs
      fun reference hreference => hreferences (.phase, reference) (by
        simp only [Block.references, mem_append, mem_map]
        exact .inl (.inl ⟨reference, hreference, rfl⟩))
    obtain ⟨items, hitems, hblocks, hids⟩ := expectBlocks hsound .flow
      "resolved registry validates subflow references" flow.subflowRefs
      fun reference hreference =>
        hreferences (.flow, reference) (flowNesting_follows.mem flow reference hreference)
    have hmarked : (fun scope' : PolicyScope => Collected registry scope' ∧
        scope'.visitedFlows = scope.visitedFlows.insert flow.identity.id)
        { scope with visitedFlows := scope.visitedFlows.insert flow.identity.id } :=
      ⟨⟨h.phases, h.known, h.tools, h.toolIds⟩, rfl⟩
    obtain ⟨after, hafter, ⟨hcollected, hflows⟩, hgrows⟩ := DepthFirst.collectEach_grows
      (collectPhasePolicyScope L registry depth) hphases
      (fun phase hphase _ hinv =>
        collectPhasePolicyScope_grows hsound _ (hphaseBlocks phase hphase) hinv hdepth) hmarked
    have hvisitedAfter : ∀ id, id ∈ after.visitedFlows ↔
        id ∈ scope.visitedFlows ∨ id = flow.identity.id := fun id => by
      rw [hflows]
      exact mem_insert.trans (or_comm.trans (or_congr_right eq_comm))
    refine .inr ⟨after, flow.subflowRefs, items, ?_, ⟨hcollected, fun phaseId => ?_⟩,
      hvisitedAfter, hitems, hblocks, fun id => ?_⟩
    · rw [if_neg (by rwa [Std.ExtTreeSet.contains_iff_mem])]
      exact bind_eq_ok.mpr ⟨after, hafter, rfl⟩
    · refine (hgrows.marked_iff h.closed phaseId).trans ?_
      rw [show phases.map (fun phase => (PhaseBlock.identity phase).id) = flow.phaseRefs
        from hphaseIds, ← phaseOf_iff hflow, h.ofFlows]
      simp only [hvisitedAfter, or_and_right, exists_or, exists_eq_left]
    · refine (iff_of_eq (congrArg (id ∈ ·) hids)).trans (Iff.symm ?_)
      exact exists_some_iff hflow

variable (registry) in
/-- A Phase can be reached from a Flow through subflows and child Phases. -/
def ReachesPhase (flow : FlowBlock) (phaseId : String) : Prop :=
  ∃ flowId, Relation.ReflTransGen (registry.Names flowNesting) flow.identity.id flowId ∧
    PhaseOf registry flowId phaseId

variable (registry) in
/-- A Phase that can be reached declares the Tool. -/
def ReachesTool (flow : FlowBlock) (toolId : String) : Prop :=
  ∃ phaseId, ReachesPhase registry flow phaseId ∧ Declares registry phaseId toolId

/-- Collecting from a Flow visits exactly the Phases that can be reached from it. -/
theorem collectFlowPolicyScope_eq (hsound : registry.Sound)
    (hphaseDepth : maxPhaseNestingDepth ≤ depth) (hflowDepth : maxFlowNestingDepth ≤ depth)
    (hflow : (registry.blocks .flow)[flow.identity.id]? = some flow) :
    ∃ scope, collectFlowPolicyScope L registry depth flow .empty = .ok scope ∧
      Collected registry scope ∧
      ∀ phaseId, phaseId ∈ scope.visitedPhases ↔ ReachesPhase registry flow phaseId := by
  have hempty : CollectedFlows registry .empty := ⟨collected_empty, by simp [PolicyScope.empty]⟩
  obtain ⟨scope, hscope, hcollected, hgrows⟩ := DepthFirst.collect_grows
    PolicyCompileError.tooDeep
    (fun _ _ hflow hinv => enterFlow_enters hsound hphaseDepth hflow hinv)
    (heightLe_of_withinLimits hsound.flows hflowDepth flow.identity.id) hflow hempty
  refine ⟨scope, hscope, hcollected.toCollected, fun phaseId => ?_⟩
  have hvisited : ∀ flowId, flowId ∈ scope.visitedFlows ↔
      Relation.ReflTransGen (registry.Names flowNesting) flow.identity.id flowId := by
    intro flowId
    refine (hgrows.marked_iff (fun id hid => ?_) flowId).trans ?_
    · exact absurd hid Std.ExtTreeSet.not_mem_empty
    · simp [PolicyScope.empty]
  rw [hcollected.ofFlows]
  exact exists_congr fun flowId => by rw [hvisited]

/-! ## Commands -/

/-- A Tool whose predefined command is not among the trusted ones. -/
def IsUntrusted (tool : ToolBlock) : Prop :=
  ∃ commandId argv, tool.toolKind = .predefinedCommand ∧
    tool.command = .predefined commandId argv ∧ TrustedPredefinedCommand.parse commandId = none

/-- The command of a Tool that passed its checks. -/
theorem checkToolCommand_sound {tool : ToolBlock} (h : checkToolCommand L tool = .ok ()) :
    (∃ commandId argv, tool.toolKind = .predefinedCommand ∧
      tool.command = .predefined commandId argv ∧ isValidCommandId commandId.toList = true) ∨
    tool.toolKind = .ownScript ∧ tool.command = .ownScript (ownScriptCommandId tool.identity.id) := by
  unfold checkToolCommand at h
  split at h
  · rename_i command hkind hcommand
    obtain ⟨hid, h⟩ := ite_error_eq_ok.mp h
    exact .inr ⟨hkind, hcommand.trans (congrArg _ (not_not.mp hid))⟩
  · rename_i commandId argv hkind hcommand
    obtain ⟨hid, h⟩ := ite_error_eq_ok.mp h
    rw [Bool.not_eq_true, Bool.not_eq_false'] at hid
    exact .inl ⟨commandId, argv, hkind, hcommand, hid⟩
  · cases h

/-- A command policy holds the id, the kind and the parameters of its Tool, no environment, and what
    the Tool runs: a trusted command with its arguments, or its own script. -/
structure CommandPolicy.IsOf (command : CommandPolicy) (tool : ToolBlock) : Prop where
  toolId : command.toolId = tool.identity.id
  toolKind : command.toolKind = tool.toolKind
  parameters : command.allowedParameters = tool.allowedParameters
  environment : command.environment = { allow := [], default := .clear }
  runs : (tool.command = .predefined command.commandId command.argv ∧ command.scriptRuntime = none ∧
      ∃ trusted, TrustedPredefinedCommand.parse command.commandId = some trusted ∧
        command.executable = trusted.executable) ∨
    tool.command = .ownScript command.commandId ∧ command.argv = [] ∧
      command.executable = ownScriptRunnerPosixSh ∧ command.scriptRuntime = some .posixSh

/-- A Tool that passed its checks has a command that passes the checks of an artifact, unless it is
    not trusted. -/
theorem commandPolicyFromTool_of_semantics {tool : ToolBlock}
    (h : validateToolSemantics L tool = .ok ()) :
    (¬ IsUntrusted tool ∧ ∃ command, commandPolicyFromTool L tool = .ok command ∧
      command.IsOf tool ∧ command.validate L = .ok ()) ∨
    IsUntrusted tool ∧ ∃ error, commandPolicyFromTool L tool = .error error := by
  rw [validateToolSemantics, check_bind_eq_ok, mapError_eq_ok] at h
  obtain ⟨hcommand, hparameters⟩ := h
  have hvalid : ∀ commandId argv executable runtime,
      (commandPolicy tool commandId argv executable runtime).validateCommandShape L = .ok () →
      (commandPolicy tool commandId argv executable runtime).validate L = .ok () := by
    intro commandId argv executable runtime hshape
    rw [CommandPolicy.validate, check_bind_eq_ok, check_bind_eq_ok]
    exact ⟨hshape, validateAllowedParameters_of_ok hparameters, rfl⟩
  rcases checkToolCommand_sound hcommand with ⟨commandId, argv, hkind, hcommand, hid⟩ | ⟨hkind, hcommand⟩
  · cases hparse : TrustedPredefinedCommand.parse commandId with
    | none =>
      refine .inr ⟨⟨commandId, argv, hkind, hcommand, hparse⟩, ?_⟩
      simp [commandPolicyFromTool, hkind, hcommand, hparse]
    | some trusted =>
      refine .inl ⟨?_, commandPolicy tool commandId argv trusted.executable none, ?_,
        ⟨rfl, rfl, rfl, rfl, .inl ⟨hcommand, rfl, trusted, hparse, rfl⟩⟩, ?_⟩
      · rintro ⟨other, _, -, hother, hnone⟩
        rw [hcommand, ToolCommand.predefined.injEq] at hother
        rw [← hother.1, hparse] at hnone
        cases hnone
      · simp [commandPolicyFromTool, hkind, hcommand, hparse]
      · apply hvalid
        simp [CommandPolicy.validateCommandShape, commandPolicy, hkind, hid, hparse]
  · refine .inl ⟨?_, commandPolicy tool (ownScriptCommandId tool.identity.id) []
      ownScriptRunnerPosixSh (some .posixSh), ?_,
      ⟨rfl, rfl, rfl, rfl, .inr ⟨hcommand, rfl, rfl, rfl⟩⟩, ?_⟩
    · rintro ⟨_, _, hpredefined, -⟩
      rw [hkind] at hpredefined
      cases hpredefined
    · simp [commandPolicyFromTool, hkind, hcommand]
    · apply hvalid
      simp [CommandPolicy.validateCommandShape, commandPolicy, hkind]

/-! ## The artifact -/

variable (L registry) in
/-- The artifact has the Phases that the Flow can reach, each with the Tools that it declares, and
    the commands of these Tools. -/
structure IsPolicyOf (flow : FlowBlock) (artifact : PolicyArtifact) : Prop where
  phases : ∀ phaseId, (∃ scope ∈ artifact.phaseScope, scope.phaseId = phaseId) ↔
    ReachesPhase registry flow phaseId
  phasesOnce : (artifact.phaseScope.map (·.phaseId)).Nodup
  tools : ∀ scope ∈ artifact.phaseScope, scope.toolIds.Nodup ∧
    ∀ toolId, toolId ∈ scope.toolIds ↔ Declares registry scope.phaseId toolId
  commands : ∀ command, command ∈ artifact.commands ↔ ∃ toolId tool,
    ReachesTool registry flow toolId ∧ (registry.blocks .tool)[toolId]? = some tool ∧
      commandPolicyFromTool L tool = .ok command
  commandsOnce : (artifact.commands.map (·.toolId)).Nodup
  authorised : ∀ command ∈ artifact.commands, ReachesTool registry flow command.toolId
  ofTools : ∀ command ∈ artifact.commands, ∃ tool,
    (registry.blocks .tool)[command.toolId]? = some tool ∧ command.IsOf tool

section Artifact

variable {flow : FlowBlock} {scope : PolicyScope} {commands : List CommandPolicy}
  (hsound : registry.Sound)
  (htools : ∀ (id : String) tool, (registry.blocks .tool)[id]? = some tool →
    validateToolSemantics L tool = .ok ())
  (hcollected : Collected registry scope)
  (hphases : ∀ phaseId, phaseId ∈ scope.visitedPhases ↔ ReachesPhase registry flow phaseId)
  {toolId : String}

include hcollected hphases in
theorem mem_toolIds_iff : toolId ∈ scope.toolIds.toList ↔ ReachesTool registry flow toolId := by
  rw [Std.ExtTreeSet.mem_toList, hcollected.toolIds]
  exact exists_congr fun phaseId => by rw [hphases]

include hsound in
theorem Declares.tool (h : Declares registry phaseId toolId) :
    ∃ tool, (registry.blocks .tool)[toolId]? = some tool := by
  obtain ⟨phase, hphase, htool⟩ := h
  refine mem_iff.mp (hsound.references .phase phaseId phase hphase (.tool, toolId) ?_)
  simp only [Block.references, mem_append, mem_map]
  exact .inl (.inl (.inl (.inr ⟨toolId, htool, rfl⟩)))

theorem commandPolicyOf_eq {tool : ToolBlock}
    (h : (registry.blocks .tool)[toolId]? = some tool) :
    commandPolicyOf L registry toolId = commandPolicyFromTool L tool := by
  rw [commandPolicyOf, expectBlock_of_get h]
  rfl

include hsound htools in
/-- The command of a Tool is made of the Tool and passes its checks. -/
theorem command_of_tool {tool : ToolBlock} {command : CommandPolicy}
    (htool : (registry.blocks .tool)[toolId]? = some tool)
    (h : commandPolicyFromTool L tool = .ok command) :
    command.toolId = toolId ∧ command.IsOf tool ∧ command.validate L = .ok () := by
  have hid : tool.identity.id = toolId := hsound.ids .tool toolId tool htool
  rcases commandPolicyFromTool_of_semantics (htools toolId tool htool) with
    ⟨-, found, hfound, hof, hvalid⟩ | ⟨-, error, herror⟩
  · rw [h, Except.ok.injEq] at hfound
    subst hfound
    exact ⟨hof.toolId.trans hid, hof, hvalid⟩
  · rw [h] at herror
    cases herror

include hsound htools in
theorem toolIds_of_commands {toolIds : List String}
    (h : List.Forall₂ (fun toolId command => commandPolicyOf L registry toolId = .ok command)
      toolIds commands)
    (hknown : ∀ toolId ∈ toolIds, ∃ tool, (registry.blocks .tool)[toolId]? = some tool) :
    commands.map (·.toolId) = toolIds := by
  induction h with
  | nil => rfl
  | cons hok _ ih =>
    rw [forall_mem_cons] at hknown
    obtain ⟨⟨tool, htool⟩, hknown⟩ := hknown
    rw [commandPolicyOf_eq htool] at hok
    rw [map_cons, (command_of_tool hsound htools htool hok).1, ih hknown]

include hsound htools hcollected hphases in
/-- What was compiled is the policy of the Flow, and the checks accept it. -/
theorem isPolicyOf_policyArtifact
    (hcommands : scope.toolIds.toList.mapM (commandPolicyOf L registry) = .ok commands) :
    IsPolicyOf L registry flow (policyArtifact flow scope commands) ∧
      (policyArtifact flow scope commands).validate L = .ok () := by
  have hreach : ∀ toolId, toolId ∈ scope.toolIds.toList ↔ ReachesTool registry flow toolId :=
    fun _ => mem_toolIds_iff hcollected hphases
  have hknown : ∀ toolId ∈ scope.toolIds.toList,
      ∃ tool, (registry.blocks .tool)[toolId]? = some tool := by
    intro toolId htool
    obtain ⟨_, -, hdeclares⟩ := (hreach toolId).mp htool
    exact hdeclares.tool hsound
  have hids : (policyArtifact flow scope commands).commands.map (·.toolId) = scope.toolIds.toList :=
    toolIds_of_commands hsound htools (mapM_eq_ok.mp hcommands) hknown
  have hscopes : ∀ phase, phase ∈ (policyArtifact flow scope commands).phaseScope ↔
      ∃ tools, scope.phaseTools[phase.phaseId]? = some tools ∧ phase.toolIds = tools.toList := by
    intro phase
    simp only [policyArtifact, mem_map]
    constructor
    · rintro ⟨entry, hentry, rfl⟩
      exact ⟨entry.2, mem_toList.mp hentry, rfl⟩
    · rintro ⟨tools, htools, heq⟩
      refine ⟨(phase.phaseId, tools), mem_toList.mpr htools, ?_⟩
      rw [← heq]
  have hpolicy : IsPolicyOf L registry flow (policyArtifact flow scope commands) := by
    refine ⟨fun phaseId => ?_, ?_, fun phase hphase => ?_, fun command => ?_, ?_,
      fun command hcommand => ?_, fun command hcommand => ?_⟩
    · rw [← hphases, ← hcollected.phases, mem_iff]
      constructor
      · rintro ⟨phase, hphase, rfl⟩
        exact ((hscopes phase).mp hphase).imp fun _ h => h.1
      · rintro ⟨tools, hget⟩
        exact ⟨⟨phaseId, tools.toList⟩, (hscopes _).mpr ⟨tools, hget, rfl⟩, rfl⟩
    · simp only [policyArtifact, map_map]
      exact nodup_fst_toList scope.phaseTools
    · obtain ⟨tools, hget, heq⟩ := (hscopes phase).mp hphase
      rw [heq]
      refine ⟨nodup_toList tools, fun toolId => ?_⟩
      rw [Std.ExtTreeSet.mem_toList, hcollected.tools phase.phaseId tools hget]
    · refine (mem_of_mapM_eq_ok hcommands).trans ⟨?_, ?_⟩
      · rintro ⟨toolId, htoolId, hcommand⟩
        obtain ⟨tool, htool⟩ := hknown toolId htoolId
        rw [commandPolicyOf_eq htool] at hcommand
        exact ⟨toolId, tool, (hreach toolId).mp htoolId, htool, hcommand⟩
      · rintro ⟨toolId, tool, htoolId, htool, hcommand⟩
        exact ⟨toolId, (hreach toolId).mpr htoolId, (commandPolicyOf_eq htool).trans hcommand⟩
    · rw [hids]
      exact nodup_toList scope.toolIds
    · exact (hreach _).mp (hids ▸ mem_map_of_mem hcommand)
    · obtain ⟨toolId, htoolId, hok⟩ := (mem_of_mapM_eq_ok hcommands).mp hcommand
      obtain ⟨tool, htool⟩ := hknown toolId htoolId
      rw [commandPolicyOf_eq htool] at hok
      obtain ⟨rfl, hof, -⟩ := command_of_tool hsound htools htool hok
      exact ⟨tool, htool, hof⟩
  refine ⟨hpolicy, ?_⟩
  rw [PolicyArtifact.validate, if_neg (by simp [policyArtifact]), check_bind_eq_ok, forM_eq_ok,
    validatePhaseScope_eq_ok]
  refine ⟨fun command hcommand => ?_, ⟨hpolicy.commandsOnce, hpolicy.phasesOnce,
    fun phase hphase => ?_, fun toolId htool => ?_⟩⟩
  · obtain ⟨toolId, tool, -, htool, hok⟩ := (hpolicy.commands command).mp hcommand
    exact (command_of_tool hsound htools htool hok).2.2
  · obtain ⟨honce, hdeclares⟩ := hpolicy.tools phase hphase
    refine ⟨honce, fun toolId htool => ?_⟩
    rw [hids, hreach]
    exact ⟨phase.phaseId, (hpolicy.phases _).mp ⟨phase, hphase, rfl⟩, (hdeclares toolId).mp htool⟩
  · rw [hids, hreach] at htool
    obtain ⟨phaseId, hphase, hdeclares⟩ := htool
    obtain ⟨phase, hmem, rfl⟩ := (hpolicy.phases phaseId).mpr hphase
    exact ⟨phase, hmem, ((hpolicy.tools phase hmem).2 toolId).mpr hdeclares⟩

end Artifact

/-- The policy of a Flow of a registry that loads is exact, and compiling it fails exactly when a
    Tool of a Phase that can be reached names a command that is not trusted. -/
theorem compilePolicyArtifact_exact {sources : List RegistryBlock} {resolved : ResolvedRegistry}
    {flowRef : String} {flow : FlowBlock} {depth : Nat}
    (hload : fromBlocks L sources = .ok resolved)
    (hflow : resolved.flowBlock L flowRef = some flow) (hdepth : 16 ≤ depth) :
    (∀ artifact, compilePolicyArtifact L resolved depth flowRef = .ok artifact →
      IsPolicyOf L resolved flow artifact) ∧
    ((∃ error, compilePolicyArtifact L resolved depth flowRef = .error error) ↔
      ∃ toolId tool, ReachesTool resolved flow toolId ∧
        (resolved.blocks .tool)[toolId]? = some tool ∧ IsUntrusted tool) := by
  have hsound := sound_of_fromBlocks hload
  have htools : ∀ (id : String) tool, (resolved.blocks .tool)[id]? = some tool →
      validateToolSemantics L tool = .ok () := fun _ _ htool =>
    toolSemantics_of_fromBlocks hload htool
  obtain ⟨scope, hscope, hcollected, hphases⟩ := collectFlowPolicyScope_eq (L := L) hsound
    hdepth hdepth (show (resolved.blocks .flow)[flow.identity.id]? = some flow from
      hsound.of_namedBlock hflow)
  have hcompile : compilePolicyArtifact L resolved depth flowRef = (do
      let commands ← scope.toolIds.toList.mapM (commandPolicyOf L resolved)
      ((policyArtifact flow scope commands).validate L).mapError PolicyCompileError.invalidArtifact
      .ok (policyArtifact flow scope commands)) := by
    rw [compilePolicyArtifact, hflow]
    simp only [hscope, bind, Except.bind]
  rw [hcompile]
  constructor
  · intro artifact hok
    obtain ⟨commands, hcommands, hok⟩ := bind_eq_ok.mp hok
    obtain ⟨-, hok⟩ := check_bind_eq_ok.mp hok
    cases hok
    exact (isPolicyOf_policyArtifact hsound htools hcollected hphases hcommands).1
  · constructor
    · rintro ⟨error, herror⟩
      by_contra hnone
      obtain ⟨commands, hcommands⟩ := exists_mapM_eq_ok (f := commandPolicyOf L resolved)
        fun toolId htoolId => by
          have hreach := (mem_toolIds_iff hcollected hphases).mp htoolId
          obtain ⟨_, -, hdeclares⟩ := id hreach
          obtain ⟨tool, htool⟩ := hdeclares.tool hsound
          rw [commandPolicyOf_eq htool]
          rcases commandPolicyFromTool_of_semantics (htools toolId tool htool) with
            ⟨-, command, hcommand, -⟩ | ⟨huntrusted, -⟩
          · exact ⟨command, hcommand⟩
          · exact absurd ⟨toolId, tool, hreach, htool, huntrusted⟩ hnone
      have hvalid := (isPolicyOf_policyArtifact hsound htools hcollected hphases hcommands).2
      rw [hcommands] at herror
      change (Except.mapError _ (PolicyArtifact.validate L _) >>= _) = _ at herror
      rw [hvalid] at herror
      cases herror
    · rintro ⟨toolId, tool, hreach, htool, huntrusted⟩
      cases hcommands : scope.toolIds.toList.mapM (commandPolicyOf L resolved) with
      | error error => exact ⟨error, rfl⟩
      | ok commands =>
        -- The untrusted Tool has no command, but every collected Tool would have one.
        obtain ⟨command, hcommand⟩ :=
          ok_of_mapM_eq_ok hcommands toolId ((mem_toolIds_iff hcollected hphases).mpr hreach)
        rw [commandPolicyOf_eq htool] at hcommand
        rcases commandPolicyFromTool_of_semantics (htools toolId tool htool) with
          ⟨htrusted, -⟩ | ⟨-, error, herror⟩
        · exact absurd huntrusted htrusted
        · rw [hcommand] at herror
          cases herror

/-- The policy of the main Flow has the Tool of the Phase that greets with its command, and not the
    idle one. -/
theorem compilePolicyArtifact_exact_main :
    ∃ resolved flow artifact, fromBlocks scriptLibraries sampleBlocks = .ok resolved ∧
      resolved.flowBlock scriptLibraries "Main" = some flow ∧
      compilePolicyArtifact scriptLibraries resolved 16 "Main" = .ok artifact ∧
      artifact.commands.map (fun c => (c.toolId, c.commandId, c.argv)) =
        [("echo", "agent-echo", ["hello"])] ∧
      IsPolicyOf scriptLibraries resolved flow artifact := by
  have hcheck : ((fromBlocks scriptLibraries sampleBlocks).toOption.bind
      fun resolved => (resolved.flowBlock scriptLibraries "Main").bind fun _ =>
        (compilePolicyArtifact scriptLibraries resolved 16 "Main").toOption.map fun artifact =>
          artifact.commands.map fun c => (c.toolId, c.commandId, c.argv)) =
      some [("echo", "agent-echo", ["hello"])] := by
    decide +kernel
  obtain ⟨resolved, hload, hcheck⟩ := Option.bind_eq_some_iff.mp hcheck
  obtain ⟨flow, hflow, hcheck⟩ := Option.bind_eq_some_iff.mp hcheck
  obtain ⟨artifact, hartifact, hcommands⟩ := Option.map_eq_some_iff.mp hcheck
  have hload := toOption_eq_some.mp hload
  have hartifact := toOption_eq_some.mp hartifact
  exact ⟨resolved, flow, artifact, hload, hflow, hartifact, hcommands,
    (compilePolicyArtifact_exact hload hflow (by decide)).1 artifact hartifact⟩

end Watershed.Policy
