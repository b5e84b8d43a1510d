/-
  The blocks of a policy registry (`model.rs`) and their canonical form (`canonical.rs`).

  A registry is made of Tools, Instructions, Phases and Flows. A block is put into canonical form
  before it enters a registry: every text in Unicode normalization form C, and the lists whose
  order carries no meaning sorted.
-/
import Watershed.Proto.FlowValue

namespace Watershed.Script

open Watershed.Proto

/-! ## Limits -/

/-- Maximum allowed recursive flow nesting depth, counting the root as depth one. -/
def maxFlowNestingDepth : Nat := 16
/-- Maximum direct runtime subflow invocations declared by one Flow. -/
def maxFlowFanout : Nat := 32
/-- Maximum recursive Phase nesting depth, counting the root Phase as depth one. -/
def maxPhaseNestingDepth : Nat := 16
/-- Maximum direct child Phases declared by one composite Phase. -/
def maxPhaseFanout : Nat := 32
/-- Maximum local iterations declared by one Phase loop. -/
def maxPhaseLoopIterations : Nat := 32
/-- Maximum number of Unicode scalar values in a block name. -/
def maxBlockNameChars : Nat := 256
/-- Maximum UTF-8 bytes in an Instruction prompt or own-script body. -/
def maxRegistryDefinitionBytes : Nat := 64 * 1024

/-! ## Blocks -/

/-- Shared id/name pair for every registry block. -/
structure BlockIdentity where
  id : String
  name : String
  deriving DecidableEq

inductive ToolKind where
  | predefinedCommand
  | ownScript
  deriving DecidableEq

def ToolKind.asStr : ToolKind → String
  | .predefinedCommand => "predefined-command"
  | .ownScript => "own-script"

inductive ToolCommand where
  | predefined (commandId : String) (argv : List String)
  | ownScript (command : String)
  deriving DecidableEq

inductive ScriptRuntime where
  | posixSh
  deriving DecidableEq

def ScriptRuntime.asStr : ScriptRuntime → String
  | .posixSh => "posix-sh"

inductive ParameterValueType where
  | none
  | string
  | integer
  | workspaceRelativePath
  | enum
  deriving DecidableEq

def ParameterValueType.asStr : ParameterValueType → String
  | .none => "none"
  | .string => "string"
  | .integer => "integer"
  | .workspaceRelativePath => "workspace-relative-path"
  | .enum => "enum"

structure AllowedParameter where
  name : String
  valueType : ParameterValueType
  required : Bool
  allowedValues : List String
  valuePattern : Option String
  maxLength : Option UInt16
  min : Option Int64
  max : Option Int64
  deriving DecidableEq

structure ToolBlock where
  identity : BlockIdentity
  toolKind : ToolKind
  command : ToolCommand
  scriptRuntime : Option ScriptRuntime
  scriptBody : Option String
  allowedParameters : List AllowedParameter
  deriving DecidableEq

mutual

/-- Closed recursive runtime value contract. -/
inductive ValueContract where
  | boolean
  | integer (min max : Option Int64)
  | string (maxLength : Option UInt16)
  | list (items : ValueContract) (maxItems : Option UInt16)
  | map (fields : ValueFieldContracts)
  | sessionObject
  deriving DecidableEq

/-- The fields of a closed map contract. -/
inductive ValueFieldContracts where
  | nil
  | cons (name : String) (required : Bool) (valueContract : ValueContract)
      (rest : ValueFieldContracts)
  deriving DecidableEq

end

structure InstructionParameter where
  name : String
  valueContract : ValueContract
  deriving DecidableEq

structure InstructionBlock where
  identity : BlockIdentity
  prompt : String
  parameters : List InstructionParameter
  deriving DecidableEq

/-- One bounded tagged `flow-value-v0` value. A map is the list of its entries, in the order of
    their keys. -/
inductive FlowValue where
  | boolean (value : Bool)
  | integer (value : String)
  | string (value : String)
  | list (values : List FlowValue)
  | map (values : List (String × FlowValue))
  | sessionObject (uri : String)

inductive ValuePathSegment where
  | field (name : String)
  | index (position : UInt16)

/-- Exact typed equality predicate over a Phase result. -/
structure ValuePredicate where
  path : List ValuePathSegment
  equals : FlowValue

structure PhaseLoop where
  maxIterations : UInt8
  «until» : ValuePredicate

structure PhaseTransition where
  fromPhaseRef : String
  toPhaseRef : String
  «when» : ValuePredicate

/-- A Phase with children is a non-model composite; a Phase without children is a
    provider-driven leaf. -/
structure PhaseBlock where
  identity : BlockIdentity
  instructionRefs : List String
  toolRefs : List String
  phaseRefs : List String
  output : ValueContract
  resultFrom : Option String
  loopConfig : Option PhaseLoop
  transitions : List PhaseTransition

structure FlowBlock where
  identity : BlockIdentity
  phaseRefs : List String
  subflowRefs : List String
  transitions : List PhaseTransition

inductive RegistryBlockKind where
  | tool
  | instruction
  | phase
  | flow
  deriving DecidableEq

def RegistryBlockKind.asStr : RegistryBlockKind → String
  | .tool => "tool"
  | .instruction => "instruction"
  | .phase => "phase"
  | .flow => "flow"

/-- A kind with the id of a block or a reference to it. -/
abbrev BlockKey := RegistryBlockKind × String

/-- The blocks of one kind. -/
def Block : RegistryBlockKind → Type
  | .tool => ToolBlock
  | .instruction => InstructionBlock
  | .phase => PhaseBlock
  | .flow => FlowBlock

def Block.identity : (kind : RegistryBlockKind) → Block kind → BlockIdentity
  | .tool, block => ToolBlock.identity block
  | .instruction, block => InstructionBlock.identity block
  | .phase, block => PhaseBlock.identity block
  | .flow, block => FlowBlock.identity block

/-- One parsed registry block: its kind and a block of that kind. -/
structure RegistryBlock where
  kind : RegistryBlockKind
  block : Block kind

namespace RegistryBlock

def identity (block : RegistryBlock) : BlockIdentity := Block.identity block.kind block.block

abbrev tool (block : ToolBlock) : RegistryBlock := ⟨.tool, block⟩
abbrev instruction (block : InstructionBlock) : RegistryBlock := ⟨.instruction, block⟩
abbrev phase (block : PhaseBlock) : RegistryBlock := ⟨.phase, block⟩
abbrev flow (block : FlowBlock) : RegistryBlock := ⟨.flow, block⟩

end RegistryBlock

/-! ## JSON -/

/-- An object as `serde_json` keeps it, from its members in the order of their declaration. -/
def objectOf (members : List (String × Value)) : Value :=
  .object (members.insertionSort fun left right => left.1 ≤ right.1)

/-- A member that is written only when there is a value. -/
def optional {α : Type} (name : String) (value : Option α) (toValue : α → Value) :
    List (String × Value) :=
  (value.map fun a => (name, toValue a)).toList

/-- A list that is written only when it has items. -/
def nonempty {α : Type} (name : String) (values : List α) (toValue : α → Value) :
    List (String × Value) :=
  if values = [] then [] else [(name, .array (values.map toValue))]

def ofUInt16 (n : UInt16) : Value :=
  .number (.integer n.toNat ⟨by omega, by have := n.toNat_lt; omega⟩)

def ofUInt8 (n : UInt8) : Value :=
  .number (.integer n.toNat ⟨by omega, by have := n.toNat_lt; omega⟩)

def ofInt64 (n : Int64) : Value :=
  .number (.integer n.toInt ⟨n.le_toInt, by have := n.toInt_lt; omega⟩)

def strings (values : List String) : Value := .array (values.map .string)

/-- The members that a flattened identity adds. -/
def BlockIdentity.members (identity : BlockIdentity) : List (String × Value) :=
  [("id", .string identity.id), ("name", .string identity.name)]

def AllowedParameter.toValue (parameter : AllowedParameter) : Value :=
  objectOf ([("name", .string parameter.name), ("value_type", .string parameter.valueType.asStr),
      ("required", .bool parameter.required)] ++
    nonempty "allowed_values" parameter.allowedValues .string ++
    optional "value_pattern" parameter.valuePattern .string ++
    optional "max_length" parameter.maxLength ofUInt16 ++
    optional "min" parameter.min ofInt64 ++ optional "max" parameter.max ofInt64)

def ToolCommand.toValue : ToolCommand → Value
  | .predefined commandId argv =>
    objectOf [("command_id", .string commandId), ("argv", strings argv)]
  | .ownScript command => .string command

def ToolBlock.toValue (tool : ToolBlock) : Value :=
  objectOf (tool.identity.members ++
    [("tool_kind", .string tool.toolKind.asStr), ("command", tool.command.toValue)] ++
    optional "script_runtime" tool.scriptRuntime (fun runtime => .string runtime.asStr) ++
    optional "script_body" tool.scriptBody .string ++
    [("allowed_parameters", .array (tool.allowedParameters.map AllowedParameter.toValue))])

mutual

def ValueContract.toValue : ValueContract → Value
  | .boolean => objectOf [("type", .string "boolean")]
  | .integer min max =>
    objectOf ([("type", .string "integer")] ++ optional "min" min ofInt64 ++
      optional "max" max ofInt64)
  | .string maxLength =>
    objectOf ([("type", .string "string")] ++ optional "max_length" maxLength ofUInt16)
  | .list items maxItems =>
    objectOf ([("type", .string "list"), ("items", items.toValue)] ++
      optional "max_items" maxItems ofUInt16)
  | .map fields => objectOf [("type", .string "map"), ("fields", .array fields.toValues)]
  | .sessionObject => objectOf [("type", .string "session-object")]

def ValueFieldContracts.toValues : ValueFieldContracts → List Value
  | .nil => []
  | .cons name required valueContract rest =>
    objectOf [("name", .string name), ("required", .bool required),
      ("value_contract", valueContract.toValue)] :: rest.toValues

end

def InstructionParameter.toValue (parameter : InstructionParameter) : Value :=
  objectOf [("name", .string parameter.name), ("value_contract", parameter.valueContract.toValue)]

def InstructionBlock.toValue (instruction : InstructionBlock) : Value :=
  objectOf (instruction.identity.members ++ [("prompt", .string instruction.prompt)] ++
    nonempty "parameters" instruction.parameters InstructionParameter.toValue)

def tagged (tag : String) (value : Value) : Value :=
  .object [("type", .string tag), ("value", value)]

mutual

def FlowValue.toValue : FlowValue → Value
  | .boolean value => tagged "boolean" (.bool value)
  | .integer value => tagged "integer" (.string value)
  | .string value => tagged "string" (.string value)
  | .list values => tagged "list" (.array (itemValues values))
  | .map values => tagged "map" (.object (entryValues values))
  | .sessionObject uri => tagged "session-object" (.string uri)

def itemValues : List FlowValue → List Value
  | [] => []
  | value :: values => value.toValue :: itemValues values

def entryValues : List (String × FlowValue) → List (String × Value)
  | [] => []
  | (key, value) :: values => (key, value.toValue) :: entryValues values

end

def ValuePathSegment.toValue : ValuePathSegment → Value
  | .field name => objectOf [("field", .string name)]
  | .index position => objectOf [("index", ofUInt16 position)]

def ValuePredicate.toValue (predicate : ValuePredicate) : Value :=
  objectOf [("path", .array (predicate.path.map ValuePathSegment.toValue)),
    ("equals", predicate.equals.toValue)]

def PhaseLoop.toValue (config : PhaseLoop) : Value :=
  objectOf [("max_iterations", ofUInt8 config.maxIterations), ("until", config.until.toValue)]

def PhaseTransition.toValue (transition : PhaseTransition) : Value :=
  objectOf [("from_phase_ref", .string transition.fromPhaseRef),
    ("to_phase_ref", .string transition.toPhaseRef), ("when", transition.when.toValue)]

def PhaseBlock.toValue (phase : PhaseBlock) : Value :=
  objectOf (phase.identity.members ++
    [("instruction_refs", strings phase.instructionRefs), ("tool_refs", strings phase.toolRefs)] ++
    nonempty "phase_refs" phase.phaseRefs .string ++ [("output", phase.output.toValue)] ++
    optional "result_from" phase.resultFrom .string ++
    optional "loop" phase.loopConfig PhaseLoop.toValue ++
    nonempty "transitions" phase.transitions PhaseTransition.toValue)

def FlowBlock.toValue (flow : FlowBlock) : Value :=
  objectOf (flow.identity.members ++ [("phase_refs", strings flow.phaseRefs)] ++
    nonempty "subflow_refs" flow.subflowRefs .string ++
    nonempty "transitions" flow.transitions PhaseTransition.toValue)

def Block.toValue : (kind : RegistryBlockKind) → Block kind → Value
  | .tool, block => ToolBlock.toValue block
  | .instruction, block => InstructionBlock.toValue block
  | .phase, block => PhaseBlock.toValue block
  | .flow, block => FlowBlock.toValue block

def RegistryBlock.toValue (block : RegistryBlock) : Value :=
  .object [(block.kind.asStr, Block.toValue block.kind block.block)]

/-! ## Errors -/

inductive SemanticValidationError where
  | ownScriptCommandIdMismatch (command toolId : String)
  | toolCommandKindMismatch (toolId : String) (toolKind : ToolKind)
  | invalidToolDefinition (toolId message : String)
  | invalidInstructionDefinition (instructionId message : String)
  | invalidPhaseDefinition (phaseId message : String)
  | invalidFlowDefinition (flowId message : String)
  deriving DecidableEq

/-- Error returned while loading, resolving or serializing a registry. What the source keeps apart
    for Phases and Flows (a cycle, an exceeded depth or fan-out) is one constructor with the
    kind. -/
inductive RegistryError where
  | readLimitExceeded (path : String) (bytes max : Nat)
  | invalidBlockId (id : String)
  | invalidBlockName (kind : RegistryBlockKind) (id : String)
  | parse (sourceName message : String)
  | duplicateId (kind id : String)
  | duplicateName (kind : RegistryBlockKind) (name : String)
  | ambiguousReference (kind : RegistryBlockKind) (reference : String)
  | missingReference (fromKind : String) (fromId referenceKind reference : String)
  | invalidTransition (ownerKind : RegistryBlockKind) (ownerId fromPhaseId toPhaseId : String)
  | cycle (kind : RegistryBlockKind) (id : String)
  | depthExceeded (kind : RegistryBlockKind) (id : String) (depth max : Nat)
  | fanoutExceeded (kind : RegistryBlockKind) (id : String) (count max : Nat)
  | semantic (error : SemanticValidationError)
  | canonicalJson (error : CanonicalJsonError)
  /-- An expectation of the program that did not hold. -/
  | panicked (message : String)
  deriving DecidableEq

/-! ## Canonical form -/

/-- `left.get("name").and_then(Value::as_str)` of two values, compared. -/
def nameLe (left right : Value) : Bool :=
  match (left.get "name").bind Json.asStr, (right.get "name").bind Json.asStr with
  | none, _ => true
  | some _, none => false
  | some left, some right => left ≤ right

def isNamedContract (value : Value) : Bool :=
  ((value.get "name").bind Json.asStr).isSome && (value.get "value_contract").isSome

/-- The member of an object with its list in order, where the order carries no meaning. -/
def sortMember (key : String) (value : Value) : Value :=
  match value with
  | .array items =>
    if key = "allowed_parameters" then .array (items.insertionSort fun l r => nameLe l r)
    else if (key = "parameters" ∨ key = "fields") ∧ items.all isNamedContract then
      .array (items.insertionSort fun l r => nameLe l r)
    else if key = "allowed_values" ∧ items.all (fun item => item.asStr.isSome) then
      .array (items.insertionSort fun l r => (l.asStr.getD "") ≤ (r.asStr.getD ""))
    else value
  | _ => value

mutual

/-- The source sorts a list before it walks into its items; neither changes what the other
    reads. -/
def canonicalizeRegistryValue : Value → Value
  | .array items => .array (canonicalizeItems items)
  | .object map => .object (canonicalizeMembers map)
  | value => value

def canonicalizeItems : List Value → List Value
  | [] => []
  | item :: items => canonicalizeRegistryValue item :: canonicalizeItems items

def canonicalizeMembers : List (String × Value) → List (String × Value)
  | [] => []
  | (key, value) :: map =>
    (key, sortMember key (canonicalizeRegistryValue value)) :: canonicalizeMembers map

end

section

variable (L : Libraries)

def BlockIdentity.canonical (identity : BlockIdentity) : BlockIdentity :=
  { id := L.nfc identity.id, name := L.nfc identity.name }

def AllowedParameter.canonical (parameter : AllowedParameter) : AllowedParameter :=
  { parameter with
    name := L.nfc parameter.name
    allowedValues := (parameter.allowedValues.insertionSort (· ≤ ·)).map L.nfc
    valuePattern := parameter.valuePattern.map L.nfc }

def ToolCommand.canonical : ToolCommand → ToolCommand
  | .predefined commandId argv => .predefined (L.nfc commandId) (argv.map L.nfc)
  | .ownScript command => .ownScript (L.nfc command)

def ToolBlock.canonical (tool : ToolBlock) : ToolBlock :=
  { tool with
    identity := tool.identity.canonical L
    command := tool.command.canonical L
    scriptBody := tool.scriptBody.map L.nfc
    allowedParameters := (tool.allowedParameters.insertionSort fun left right =>
      left.name ≤ right.name).map (AllowedParameter.canonical L) }

def ValueFieldContracts.ofList : List (String × Bool × ValueContract) → ValueFieldContracts
  | [] => .nil
  | (name, required, valueContract) :: rest => .cons name required valueContract (ofList rest)

mutual

def ValueContract.canonical : ValueContract → ValueContract
  | .list items maxItems => .list items.canonical maxItems
  | .map fields =>
    .map (.ofList ((fields.canonicalFields.insertionSort fun left right =>
      left.1 ≤ right.1).map Prod.snd))
  | contract => contract

/-- The fields in canonical form, each with its name as it was. -/
def ValueFieldContracts.canonicalFields :
    ValueFieldContracts → List (String × String × Bool × ValueContract)
  | .nil => []
  | .cons name required valueContract rest =>
    (name, L.nfc name, required, valueContract.canonical) :: rest.canonicalFields

end

def InstructionParameter.canonical (parameter : InstructionParameter) : InstructionParameter :=
  { name := L.nfc parameter.name, valueContract := parameter.valueContract.canonical L }

def InstructionBlock.canonical (instruction : InstructionBlock) : InstructionBlock :=
  { identity := instruction.identity.canonical L
    prompt := L.nfc instruction.prompt
    parameters := (instruction.parameters.insertionSort fun left right =>
      left.name ≤ right.name).map (InstructionParameter.canonical L) }

mutual

def FlowValue.canonical : FlowValue → FlowValue
  | .boolean value => .boolean value
  | .integer value => .integer (L.nfc value)
  | .string value => .string (L.nfc value)
  | .list values => .list (canonicalValues values)
  | .map values =>
    .map ((canonicalFlowEntries values).insertionSort fun left right => left.1 ≤ right.1)
  | .sessionObject uri => .sessionObject (L.nfc uri)

def canonicalValues : List FlowValue → List FlowValue
  | [] => []
  | value :: values => value.canonical :: canonicalValues values

def canonicalFlowEntries : List (String × FlowValue) → List (String × FlowValue)
  | [] => []
  | (key, value) :: values => (L.nfc key, value.canonical) :: canonicalFlowEntries values

end

def ValuePathSegment.canonical : ValuePathSegment → ValuePathSegment
  | .field name => .field (L.nfc name)
  | .index position => .index position

def ValuePredicate.canonical (predicate : ValuePredicate) : ValuePredicate :=
  { path := predicate.path.map (ValuePathSegment.canonical L)
    equals := predicate.equals.canonical L }

def PhaseLoop.canonical (config : PhaseLoop) : PhaseLoop :=
  { config with «until» := config.until.canonical L }

def PhaseTransition.canonical (transition : PhaseTransition) : PhaseTransition :=
  { fromPhaseRef := L.nfc transition.fromPhaseRef
    toPhaseRef := L.nfc transition.toPhaseRef
    «when» := transition.when.canonical L }

def PhaseBlock.canonical (phase : PhaseBlock) : PhaseBlock :=
  { identity := phase.identity.canonical L
    instructionRefs := phase.instructionRefs.map L.nfc
    toolRefs := phase.toolRefs.map L.nfc
    phaseRefs := phase.phaseRefs.map L.nfc
    output := phase.output.canonical L
    resultFrom := phase.resultFrom.map L.nfc
    loopConfig := phase.loopConfig.map (PhaseLoop.canonical L)
    transitions := phase.transitions.map (PhaseTransition.canonical L) }

def FlowBlock.canonical (flow : FlowBlock) : FlowBlock :=
  { identity := flow.identity.canonical L
    phaseRefs := flow.phaseRefs.map L.nfc
    subflowRefs := flow.subflowRefs.map L.nfc
    transitions := flow.transitions.map (PhaseTransition.canonical L) }

def Block.canonical : (kind : RegistryBlockKind) → Block kind → Block kind
  | .tool, block => ToolBlock.canonical L block
  | .instruction, block => InstructionBlock.canonical L block
  | .phase, block => PhaseBlock.canonical L block
  | .flow, block => FlowBlock.canonical L block

/-- What the canonical text of a block is read back as. -/
def RegistryBlock.canonical (block : RegistryBlock) : RegistryBlock :=
  ⟨block.kind, Block.canonical L block.kind block.block⟩

/-- Writes a block as canonical JSON and reads it back. -/
def canonicalizeRegistryBlock (block : RegistryBlock) : Except RegistryError RegistryBlock :=
  match Proto.canonicalJson L (canonicalizeRegistryValue block.toValue) with
  | .error error => .error (.canonicalJson error)
  | .ok _ => .ok (block.canonical L)

end

end Watershed.Script
