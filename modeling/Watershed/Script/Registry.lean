/-
  The registry (`registry.rs`, `naming.rs`): blocks are put in one at a time, their references are
  checked against each other, and the references are then written as ids.

  A block may be referred to by its id or by its name. The checks of the Phase graph and of the
  subflow graph are one walk with its limits as parameters.
-/
import Watershed.Lib.StringMap
import Watershed.Script.Semantics

namespace Watershed.Script

open Watershed.Proto

/-- Fully resolved registry keyed by block id. -/
structure ResolvedRegistry where
  blocks : (kind : RegistryBlockKind) → StringMap (Block kind)
  /-- The ids of the blocks of one kind by their normalized names. -/
  nameIds : RegistryBlockKind → StringMap String

/-! ## Names -/

/-- Puts one block of a kind in, if neither its id nor its name stands for another one. -/
def insertNamedBlock {α : Type} (L : Libraries) (kind : RegistryBlockKind)
    (identity : BlockIdentity) (blocks : StringMap α) (names : StringMap String) (block : α) :
    Except RegistryError (StringMap α × StringMap String) :=
  if !isValidBlockId identity.id then .error (.invalidBlockId identity.id)
  else if identity.name = "" then .error (.invalidBlockName kind identity.id)
  else if blocks.contains identity.id then .error (.duplicateId kind.asStr identity.id)
  else if names.contains identity.id then .error (.ambiguousReference kind identity.id)
  else if blocks.contains identity.name then .error (.ambiguousReference kind identity.name)
  else if names.contains (L.nfc identity.name) then .error (.duplicateName kind identity.name)
  else .ok (blocks.insert identity.id block, names.insert (L.nfc identity.name) identity.id)

namespace ResolvedRegistry

def empty : ResolvedRegistry := { blocks := fun _ => ∅, nameIds := fun _ => ∅ }

/-- The blocks of a kind replaced, with their names. -/
def set (registry : ResolvedRegistry) (kind : RegistryBlockKind)
    (contents : StringMap (Block kind) × StringMap String) : ResolvedRegistry :=
  { blocks := Function.update registry.blocks kind contents.1
    nameIds := Function.update registry.nameIds kind contents.2 }

variable (L : ScriptLibraries) (registry : ResolvedRegistry)

def insert (block : RegistryBlock) :
    Except RegistryError ResolvedRegistry := do
  (validateRegistryBlockSemantics L block).mapError .semantic
  let contents ← insertNamedBlock L.toLibraries block.kind block.identity
    (registry.blocks block.kind) (registry.nameIds block.kind) block.block
  pure (registry.set block.kind contents)

/-- Resolves a block by id or unambiguous name. -/
def namedBlock (kind : RegistryBlockKind) (reference : String) : Option (Block kind) :=
  (registry.blocks kind)[reference]?.or
    ((registry.nameIds kind)[L.nfc reference]?.bind ((registry.blocks kind)[·]?))

def flowBlock (reference : String) : Option FlowBlock := registry.namedBlock L .flow reference

/-! ## References -/

/-- `require_tool`, `require_instruction`, `require_phase` and `require_flow`. -/
def require (kind : RegistryBlockKind) (reference : String)
    (fromKind : RegistryBlockKind) (fromId : String) : Except RegistryError (Block kind) :=
  match registry.namedBlock L kind reference with
  | some block => .ok block
  | none => .error (.missingReference fromKind.asStr fromId kind.asStr reference)

/-- The Instruction or Tool references of a Phase: each of them resolves, no two to one block. -/
def checkReferences (kind : RegistryBlockKind) (phaseId : String)
    (seen : List String) : List String → Except RegistryError Unit
  | [] => .ok ()
  | reference :: references => do
    let block ← registry.require L kind reference .phase phaseId
    let id := (Block.identity kind block).id
    if id ∈ seen then
      .error (.duplicateId ("phase " ++ kind.asStr ++ " reference") (phaseId ++ "." ++ id))
    else checkReferences kind phaseId (id :: seen) references

/-- The places of the direct child Phases by their ids. -/
def phasePositions (fromKind : RegistryBlockKind) (fromId : String)
    (index : Nat) (positions : StringMap Nat) : List String → Except RegistryError (StringMap Nat)
  | [] => .ok positions
  | reference :: references => do
    let phase ← registry.require L .phase reference fromKind fromId
    let id := (PhaseBlock.identity phase).id
    if positions.contains id then
      .error (.duplicateId "child phase reference" (fromId ++ "." ++ id))
    else phasePositions fromKind fromId (index + 1) (positions.insert id index) references

def transitionError (fromKind : RegistryBlockKind) (fromId sourceId error : String) :
    RegistryError :=
  let message := "Transition predicate for source Phase " ++ sourceId ++
    " does not match its output contract: " ++ error
  .semantic (match fromKind with
    | .phase => .invalidPhaseDefinition fromId message
    | _ => .invalidFlowDefinition fromId message)

variable (positions : StringMap Nat)

def validateTransition
    (fromKind : RegistryBlockKind) (fromId : String) (transition : PhaseTransition) :
    Except RegistryError Unit := do
  let source ← registry.require L .phase transition.fromPhaseRef fromKind fromId
  let target ← registry.require L .phase transition.toPhaseRef fromKind fromId
  let sourceId := (PhaseBlock.identity source).id
  let targetId := (PhaseBlock.identity target).id
  match positions[sourceId]?, positions[targetId]? with
  | none, _ =>
    .error (.missingReference fromKind.asStr fromId "Transition source child Phase"
      transition.fromPhaseRef)
  | some _, none =>
    .error (.missingReference fromKind.asStr fromId "Transition target child Phase"
      transition.toPhaseRef)
  | some sourceIndex, some targetIndex =>
    if targetIndex ≤ sourceIndex then
      .error (.invalidTransition fromKind fromId sourceId targetId)
    else
      (validatePredicateAgainstContract L.toLibraries transition.when
        (PhaseBlock.output source)).mapError (transitionError fromKind fromId sourceId)

def validateTransitions
    (fromKind : RegistryBlockKind) (fromId : String) (transitions : List PhaseTransition) :
    Except RegistryError Unit :=
  transitions.forM (registry.validateTransition L positions fromKind fromId)

/-- The child that supplies the result of a composite Phase is one of its children, with the
    same output contract. -/
def validateResultFrom (phase : PhaseBlock) : Except RegistryError Unit :=
  match phase.resultFrom with
  | none => .ok ()
  | some resultFrom => do
    let result ← registry.require L .phase resultFrom .phase phase.identity.id
    let resultId := (PhaseBlock.identity result).id
    if !positions.contains resultId then
      .error (.missingReference RegistryBlockKind.phase.asStr phase.identity.id
        "direct child Phase result" resultFrom)
    else if phase.output ≠ PhaseBlock.output result then
      .error (.semantic (.invalidPhaseDefinition phase.identity.id
        ("output contract must exactly match result_from Phase " ++ resultId)))
    else .ok ()

def validatePhaseReferences (phase : PhaseBlock) :
    Except RegistryError Unit := do
  registry.checkReferences L .instruction phase.identity.id [] phase.instructionRefs
  registry.checkReferences L .tool phase.identity.id [] phase.toolRefs
  let positions ← registry.phasePositions L .phase phase.identity.id 0 ∅ phase.phaseRefs
  registry.validateResultFrom L positions phase
  registry.validateTransitions L positions .phase phase.identity.id phase.transitions

def validateFlowReferences (flow : FlowBlock) :
    Except RegistryError Unit := do
  let positions ← registry.phasePositions L .flow flow.identity.id 0 ∅ flow.phaseRefs
  flow.subflowRefs.forM fun reference => do
    let _ ← registry.require L .flow reference .flow flow.identity.id
  registry.validateTransitions L positions .flow flow.identity.id flow.transitions

end ResolvedRegistry

/-! ## Walks -/

/-- Blocks of one kind that name further blocks of that kind, within limits. -/
structure Nesting where
  kind : RegistryBlockKind
  maxDepth : Nat
  maxFanout : Nat
  references : Block kind → List String

def phaseNesting : Nesting :=
  { kind := .phase, maxDepth := maxPhaseNestingDepth, maxFanout := maxPhaseFanout
    references := PhaseBlock.phaseRefs }

def flowNesting : Nesting :=
  { kind := .flow, maxDepth := maxFlowNestingDepth, maxFanout := maxFlowFanout
    references := FlowBlock.subflowRefs }

/-- `PhaseTailDepth` and `FlowTailDepth`: how long the longest chain from a block is, and the id
    of a block at its end. -/
structure TailDepth where
  deepestId : String
  depth : Nat

structure Walk where
  visiting : StringSet
  visited : StringMap TailDepth

namespace ResolvedRegistry

variable (L : ScriptLibraries) (registry : ResolvedRegistry) (nesting : Nesting)

/-- Visits the children of a block one after another and keeps the longest tail. -/
def visitChildren (visit : String → Walk → Except RegistryError Walk) (id : String) :
    List String → TailDepth → Walk → Except RegistryError (TailDepth × Walk)
  | [], tail, walk => .ok (tail, walk)
  | reference :: references, tail, walk => do
    let child ← registry.require L nesting.kind reference nesting.kind id
    let childId := (Block.identity nesting.kind child).id
    let walk ← visit childId walk
    match walk.visited[childId]? with
    | none => .error (.panicked "visited child has tail depth")
    | some childTail =>
      visitChildren visit id references (if tail.depth < childTail.depth + 1 then
          { deepestId := childTail.deepestId, depth := childTail.depth + 1 }
        else tail) walk

/-- `visit_phase` and `visit_flow`, at the depth that leaves `remaining` levels: the depth is
    `maxDepth + 1 - remaining`. -/
def visit : Nat → String → Walk → Except RegistryError Walk
  | 0, id, _ => .error (.depthExceeded nesting.kind id (nesting.maxDepth + 1) nesting.maxDepth)
  | remaining + 1, id, walk =>
    match walk.visited[id]? with
    | some tail =>
      let resolvedDepth := nesting.maxDepth - remaining + tail.depth - 1
      if nesting.maxDepth < resolvedDepth then
        .error (.depthExceeded nesting.kind tail.deepestId resolvedDepth nesting.maxDepth)
      else .ok walk
    | none =>
      if walk.visiting.contains id then .error (.cycle nesting.kind id)
      else do
        let block ← registry.require L nesting.kind id nesting.kind id
        if nesting.maxFanout < (nesting.references block).length then
          .error (.fanoutExceeded nesting.kind id (nesting.references block).length
            nesting.maxFanout)
        else do
          let (tail, walk) ← registry.visitChildren L nesting (visit remaining) id
            (nesting.references block) { deepestId := id, depth := 1 }
            { walk with visiting := walk.visiting.insert id }
          .ok { visiting := walk.visiting.erase id, visited := walk.visited.insert id tail }

/-- Visits blocks in some order, with one cache for all of them. -/
def visitAll (visited : StringMap TailDepth) : List String → Except RegistryError Unit
  | [] => .ok ()
  | id :: ids => do
    let walk ← registry.visit L nesting nesting.maxDepth id { visiting := ∅, visited := visited }
    visitAll walk.visited ids

/-- `validate_phase_cycles` and `validate_flow_cycles`. -/
def validateCycles : Except RegistryError Unit :=
  registry.visitAll L nesting ∅ (registry.blocks nesting.kind).keys

end ResolvedRegistry

/-! ## Resolving -/

/-- A reference by name is replaced by the id. -/
def canonicalizeReference (names : StringMap String) (reference : String) : String :=
  names[reference]?.getD reference

def PhaseTransition.withReferences (phases : StringMap String) (transition : PhaseTransition) :
    PhaseTransition :=
  { transition with
    fromPhaseRef := canonicalizeReference phases transition.fromPhaseRef
    toPhaseRef := canonicalizeReference phases transition.toPhaseRef }

variable (names : RegistryBlockKind → StringMap String)

def PhaseBlock.withReferences (phase : PhaseBlock) :
    PhaseBlock :=
  { phase with
    instructionRefs := phase.instructionRefs.map (canonicalizeReference (names .instruction))
    toolRefs := phase.toolRefs.map (canonicalizeReference (names .tool))
    phaseRefs := phase.phaseRefs.map (canonicalizeReference (names .phase))
    resultFrom := phase.resultFrom.map (canonicalizeReference (names .phase))
    transitions := phase.transitions.map (PhaseTransition.withReferences (names .phase)) }

def FlowBlock.withReferences (flow : FlowBlock) :
    FlowBlock :=
  { flow with
    phaseRefs := flow.phaseRefs.map (canonicalizeReference (names .phase))
    subflowRefs := flow.subflowRefs.map (canonicalizeReference (names .flow))
    transitions := flow.transitions.map (PhaseTransition.withReferences (names .phase)) }

/-- A block with its references as ids. -/
def Block.withReferences :
    (kind : RegistryBlockKind) → Block kind → Block kind
  | .tool, block => block
  | .instruction, block => block
  | .phase, block => PhaseBlock.withReferences names block
  | .flow, block => FlowBlock.withReferences names block

namespace ResolvedRegistry

variable (L : ScriptLibraries) (registry : ResolvedRegistry)

def validateReferences : Except RegistryError Unit := do
  (StringMap.inOrder (registry.blocks .phase)).forM (registry.validatePhaseReferences L)
  (StringMap.inOrder (registry.blocks .flow)).forM (registry.validateFlowReferences L)
  registry.validateCycles L phaseNesting
  registry.validateCycles L flowNesting

def withCanonicalReferences : ResolvedRegistry := { registry with
    blocks := fun kind => (registry.blocks kind).map fun _ block =>
      Block.withReferences registry.nameIds kind block }

/-- The error for a block whose shape is wrong when it is handed over. -/
def shapeError (block : RegistryBlock) (message : String) : RegistryError :=
  if !isValidBlockId block.identity.id then .invalidBlockId block.identity.id
  else if block.identity.name = "" then .invalidBlockName block.kind block.identity.id
  else .parse "programmatic registry" message

/-- A block in canonical form, with its shape checked before and after. -/
def prepare (block : RegistryBlock) : Except RegistryError RegistryBlock := do
  (validateRegistryBlockShape block).mapError (shapeError block)
  let block ← canonicalizeRegistryBlock L.toLibraries block
  (validateRegistryBlockShape block).mapError (.parse "programmatic registry")
  pure block

def insertAll (registry : ResolvedRegistry) : List RegistryBlock →
    Except RegistryError ResolvedRegistry
  | [] => .ok registry
  | block :: blocks => do
    let block ← prepare L block
    let registry ← registry.insert L block
    insertAll registry blocks

/-- Resolves a registry from already parsed blocks. -/
def fromBlocks (blocks : List RegistryBlock) : Except RegistryError ResolvedRegistry := do
  let registry ← empty.insertAll L blocks
  registry.validateReferences L
  pure registry.withCanonicalReferences

/-- The blocks of one kind as a JSON object. -/
def blockValues (kind : RegistryBlockKind) : Value :=
  .object ((registry.blocks kind).toList.map fun entry => (entry.1, Block.toValue kind entry.2))

def toValue : Value := objectOf [("instructions", registry.blockValues .instruction),
    ("flows", registry.blockValues .flow), ("phases", registry.blockValues .phase),
    ("tools", registry.blockValues .tool)]

/-- Serializes the resolved registry as canonical JSON without a trailing newline. -/
def canonicalJson : Except RegistryError String :=
  (Proto.canonicalJson L.toLibraries (canonicalizeRegistryValue registry.toValue)).mapError
    .canonicalJson

end ResolvedRegistry

end Watershed.Script
