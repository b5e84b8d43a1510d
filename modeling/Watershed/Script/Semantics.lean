/-
  The checks of a single registry block (`semantics.rs`, `values.rs`, `parameter.rs`, `paths.rs`):
  its shape, its parameters, its value contracts and its predicates.
-/
import Watershed.Proto.Ascii
import Watershed.Script.Model

namespace Watershed.Script

open Watershed.Proto

/-- What the registry uses of other crates, besides what the protocol does. -/
structure ScriptLibraries extends Libraries where
  /-- What the `regex` crate says against a pattern, within its size limit. -/
  regexError : String → Option String
  /-- The characters that `str::trim` takes off. -/
  isWhitespace : Char → Bool
  /-- A normal form is its own normal form. -/
  nfc_nfc : ∀ s, nfc (nfc s) = nfc s
  /-- Only a block id has that block id as its normal form: the characters of ids come from no
      other character by normalization. -/
  nfc_blockId : ∀ s, isValidSessionId (nfc s) = true → nfc s = s

/-- The libraries on ASCII texts, without value patterns. -/
def scriptLibraries : ScriptLibraries := { asciiLibraries with
    regexError := fun _ => none
    isWhitespace := Char.isWhitespace
    nfc_nfc := fun _ => rfl
    nfc_blockId := fun _ _ => rfl }

/-! ## Tokens -/

def isValidBlockId (value : String) : Bool := isValidSessionId value

def isAsciiLowercase (c : Char) : Bool := 'a' ≤ c && c ≤ 'z'

def isAsciiUppercase (c : Char) : Bool := 'A' ≤ c && c ≤ 'Z'

def isAsciiAlphanumeric (c : Char) : Bool :=
  isAsciiLowercase c || isAsciiUppercase c || isAsciiDigit c

def matchesLowerToken (value : List Char) (minLen maxLen : Nat) : Bool :=
  minLen ≤ value.length && value.length ≤ maxLen &&
    value.all fun c => isAsciiLowercase c || isAsciiDigit c || c = '_' || c = '-'

/-- Whether `value` is a valid predefined command id. -/
def isValidCommandId (value : List Char) : Bool :=
  matchesLowerToken value 1 64 && value.head?.any isAsciiLowercase

/-- Whether `value` is a valid allowed-parameter name. -/
def isValidAllowedParameterName (value : List Char) : Bool :=
  match value with
  | '-' :: '-' :: first :: rest =>
    isAsciiAlphanumeric first && rest.all fun c => isAsciiAlphanumeric c || c = '_' || c = '-'
  | _ => false

/-- The canonical command identity of an own-script Tool. -/
def ownScriptCommandId (toolId : String) : String := "script:" ++ toolId

/-! ## Values -/

variable (L : Libraries)

def validateKey (value path : String) : Except String Unit :=
  if value = "" ∨ flowValueMaxKeyCharsV0 < value.toList.length then
    .error (path ++ " must contain 1 to " ++ toString flowValueMaxKeyCharsV0 ++ " characters")
  else if L.nfc value ≠ value then .error (path ++ " must use NFC text")
  else .ok ()

def guardDepth (depth : Nat) : Except String Unit :=
  if flowValueMaxDepthV0 < depth then
    .error ("$ depth " ++ toString depth ++ " exceeds max " ++ toString flowValueMaxDepthV0)
  else .ok ()

mutual

def guardFlowValueSerializationDepth (depth : Nat) : FlowValue → Except String Unit
  | .list values => do guardDepth depth; guardValues (depth + 1) values
  | .map values => do guardDepth depth; guardEntries (depth + 1) values
  | _ => guardDepth depth

def guardValues (depth : Nat) : List FlowValue → Except String Unit
  | [] => .ok ()
  | value :: values => do guardFlowValueSerializationDepth depth value; guardValues depth values

def guardEntries (depth : Nat) : List (String × FlowValue) → Except String Unit
  | [] => .ok ()
  | (_, value) :: values => do
    guardFlowValueSerializationDepth depth value
    guardEntries depth values

end

/-- Validates the finite shape, canonical forms, and global bounds of one runtime value. -/
def validateFlowValue (value : FlowValue) : Except String Unit := do
  guardFlowValueSerializationDepth 1 value
  match validateFlowValueV0 L value.toValue with
  | .ok _ => .ok ()
  | .error error => .error error.message

namespace ValueFieldContracts

def length : ValueFieldContracts → Nat
  | .nil => 0
  | .cons _ _ _ rest => rest.length + 1

def find? (name : String) : ValueFieldContracts → Option ValueContract
  | .nil => none
  | .cons field _ valueContract rest => if field = name then some valueContract else rest.find? name

end ValueFieldContracts

def guardContractDepth (depth : Nat) (path : String) : Except String Unit :=
  if flowValueMaxDepthV0 < depth then
    .error (path ++ " value contract depth " ++ toString depth ++ " exceeds max " ++
      toString flowValueMaxDepthV0)
  else .ok ()

mutual

def validateValueContractAt (depth : Nat) (path : String) :
    ValueContract → Except String Unit
  | .list items maxItems => do
    guardContractDepth depth path
    if maxItems.any fun count => flowValueMaxMembersV0 < count.toNat then
      .error (path ++ " list contract max_items exceeds max " ++ toString flowValueMaxMembersV0)
    else validateValueContractAt (depth + 1) (path ++ "[]") items
  | .map fields => do
    guardContractDepth depth path
    if flowValueMaxMembersV0 < fields.length then
      .error (path ++ " map contract field count exceeds max " ++ toString flowValueMaxMembersV0)
    else validateFieldContracts depth path [] fields
  | .integer (some min) (some max) => do
    guardContractDepth depth path
    if max < min then .error (path ++ " integer contract min must be <= max") else .ok ()
  | _ => guardContractDepth depth path

def validateFieldContracts (depth : Nat) (path : String) (names : List String) :
    ValueFieldContracts → Except String Unit
  | .nil => .ok ()
  | .cons name _ valueContract rest => do
    validateKey L name (path ++ " field")
    if name ∈ names then
      .error (path ++ " map contract field " ++ name ++ " is declared more than once")
    else
      validateValueContractAt (depth + 1) (path ++ "." ++ name) valueContract
      validateFieldContracts depth path (name :: names) rest

end

def validateValueContractDefinition (contract : ValueContract) :
    Except String Unit := validateValueContractAt L 1 "$" contract

def validateIntegerAgainst (value path : String) (min max : Option Int64) : Except String Unit :=
  match parseCanonicalI64 value with
  | .error .invalid => .error (path ++ " integer value must be a signed 64-bit decimal string")
  | .error .nonCanonical => .error (path ++ " integer value must use canonical decimal form")
  | .ok value =>
    if (min.any fun min => value < min.toInt) ∨ (max.any fun max => max.toInt < value) then
      .error (path ++ " integer is outside its inclusive contract bounds")
    else .ok ()

/-- Applies a check to every item, with its position. -/
def forItems (check : String → FlowValue → Except String Unit) (path : String) (index : Nat) :
    List FlowValue → Except String Unit
  | [] => .ok ()
  | value :: values => do
    check (path ++ "[" ++ toString index ++ "]") value
    forItems check path (index + 1) values

mutual

def validateAgainstContractAt (path : String) : ValueContract → FlowValue → Except String Unit
  | .boolean, .boolean _ | .sessionObject, .sessionObject _ => .ok ()
  | .integer min max, .integer value => validateIntegerAgainst value path min max
  | .string maxLength, .string value =>
    match maxLength with
    | some max =>
      if max.toNat < value.toList.length then
        .error (path ++ " string length exceeds max " ++ toString max.toNat)
      else .ok ()
    | none => .ok ()
  | .list items maxItems, .list values =>
    match maxItems.filter fun max => max.toNat < values.length with
    | some max => .error (path ++ " list length exceeds max " ++ toString max.toNat)
    | none => forItems (fun path value => validateAgainstContractAt path items value) path 0 values
  | .map fields, .map values => do
    validateAgainstFields path values fields
    match values.find? fun entry => (fields.find? entry.1).isNone with
    | some entry => .error (path ++ " contains undeclared field " ++ entry.1)
    | none => .ok ()
  | _, _ => .error (path ++ " value type does not match its contract")

def validateAgainstFields (path : String) (values : List (String × FlowValue)) :
    ValueFieldContracts → Except String Unit
  | .nil => .ok ()
  | .cons name required valueContract rest => do
    match values.find? fun entry => entry.1 = name with
    | some entry => validateAgainstContractAt (path ++ "." ++ name) valueContract entry.2
    | none => if required then .error (path ++ " is missing required field " ++ name) else .ok ()
    validateAgainstFields path values rest

end

def validateFlowValueAgainstContract (value : FlowValue)
    (contract : ValueContract) : Except String Unit := do
  validateFlowValue L value
  validateValueContractDefinition L contract
  validateAgainstContractAt "$" contract value

def validatePath (index : Nat) : List ValuePathSegment → Except String Unit
  | [] => .ok ()
  | .field name :: path => do
    validateKey L name ("$.path[" ++ toString index ++ "].field")
    validatePath (index + 1) path
  | .index _ :: path => validatePath (index + 1) path

def validatePredicateDefinition (predicate : ValuePredicate) :
    Except String Unit := do
  validatePath L 0 predicate.path
  validateFlowValue L predicate.equals

/-- The contract that a path selects. -/
def selectContract (index : Nat) : ValueContract → List ValuePathSegment →
    Except String ValueContract
  | contract, [] => .ok contract
  | .map fields, .field name :: path =>
    match fields.find? name with
    | some contract => selectContract (index + 1) contract path
    | none => .error ("$.path[" ++ toString index ++ "] selects undeclared field " ++ name)
  | .list items maxItems, .index position :: path =>
    let maximumItems := (maxItems.map UInt16.toNat).getD flowValueMaxMembersV0
    if maximumItems ≤ position.toNat then
      .error ("$.path[" ++ toString index ++ "] selects list index " ++
        toString position.toNat ++ ", which cannot exist under maximum item count " ++
        toString maximumItems)
    else selectContract (index + 1) items path
  | _, _ => .error ("$.path[" ++ toString index ++ "] segment does not match the output contract")

def validatePredicateAgainstContract (predicate : ValuePredicate)
    (contract : ValueContract) : Except String Unit := do
  validatePredicateDefinition L predicate
  validateValueContractDefinition L contract
  let selected ← selectContract 0 contract predicate.path
  match validateFlowValueAgainstContract L predicate.equals selected with
  | .ok _ => .ok ()
  | .error error => .error ("predicate equality does not match output contract: " ++ error)

/-! ## Parameters -/

/-- What is wrong with a pattern: it has to compile alone and with both ends anchored. -/
def parameterPatternError (L : ScriptLibraries) (pattern : String) : Option String :=
  (L.regexError pattern).or (L.regexError ("\\A(?:" ++ pattern ++ ")\\z"))

def AllowedParameter.validate (L : ScriptLibraries) (parameter : AllowedParameter) :
    Except String Unit := do
  if !isValidAllowedParameterName parameter.name.toList then
    .error ("parameter name " ++ L.debug parameter.name ++
      " must be a valid allowed-parameter name")
  else if parameter.valueType ≠ .enum ∧ parameter.allowedValues ≠ [] then
    .error ("non-enum parameter " ++ parameter.name ++ " must omit allowed_values")
  else
    validateValueType
    match parameter.valuePattern.bind (parameterPatternError L) with
    | some error =>
      .error ("parameter " ++ parameter.name ++ " value_pattern is invalid: " ++ error)
    | none => .ok ()
where
  bounded : Bool := parameter.min.isSome || parameter.max.isSome
  textual : Bool := parameter.valuePattern.isSome || parameter.maxLength.isSome
  validateValueType : Except String Unit :=
    match parameter.valueType with
    | .string =>
      if parameter.valuePattern.isNone ∨ parameter.maxLength.isNone then
        .error ("string parameter " ++ parameter.name ++ " must set value_pattern and max_length")
      else if bounded then
        .error ("string parameter " ++ parameter.name ++ " must omit min and max")
      else .ok ()
    | .enum =>
      if parameter.allowedValues.any fun value => '\x00' ∈ value.toList then
        .error ("enum parameter " ++ parameter.name ++ " allowed_values must not contain NUL")
      else if parameter.allowedValues = [] then
        .error ("enum parameter " ++ parameter.name ++ " must set allowed_values")
      else if textual || bounded then
        .error ("enum parameter " ++ parameter.name ++
          " must omit value_pattern, max_length, min, and max")
      else .ok ()
    | .integer =>
      if textual then
        .error ("integer parameter " ++ parameter.name ++ " must omit value_pattern and max_length")
      else
        match parameter.min, parameter.max with
        | some min, some max =>
          if max < min then
            .error ("integer parameter " ++ parameter.name ++ " min must be <= max")
          else .ok ()
        | _, _ => .ok ()
    | .none =>
      if textual || bounded then
        .error ("none parameter " ++ parameter.name ++
          " must omit value_pattern, max_length, min, and max")
      else .ok ()
    | .workspaceRelativePath =>
      if bounded then
        .error ("workspace-relative-path parameter " ++ parameter.name ++ " must omit min and max")
      else .ok ()

/-- Checks every parameter, and that no name is declared twice. -/
def validateParameters (L : ScriptLibraries) (names : List String) :
    List AllowedParameter → Except String Unit
  | [] => .ok ()
  | parameter :: parameters => do
    parameter.validate L
    if parameter.name ∈ names then
      .error ("allowed parameter " ++ parameter.name ++ " is declared more than once")
    else validateParameters L (parameter.name :: names) parameters

/-! ## Blocks -/

/-- Validates the canonical identifier and name shape shared by registry blocks. -/
def validateBlockIdentity (kind : RegistryBlockKind) (identity : BlockIdentity) :
    Except String Unit :=
  if !isValidBlockId identity.id then .error (kind.asStr ++ ".id must be a valid block id")
  else if identity.name = "" then .error (kind.asStr ++ ".name must be non-empty")
  else if maxBlockNameChars < identity.name.toList.length then
    .error (kind.asStr ++ ".name must contain at most " ++ toString maxBlockNameChars ++
      " characters")
  else .ok ()

/-- The texts of a definition are within their limit, and a prompt is not empty. -/
def validateDefinitionText : RegistryBlock → Except String Unit
  | ⟨.instruction, instruction⟩ =>
    if InstructionBlock.prompt instruction = "" then
      .error "instruction.prompt must be non-empty"
    else if maxRegistryDefinitionBytes < (InstructionBlock.prompt instruction).utf8ByteSize then
      .error ("instruction.prompt exceeds the maximum of " ++
        toString maxRegistryDefinitionBytes ++ " bytes")
    else .ok ()
  | ⟨.tool, tool⟩ =>
    if (ToolBlock.scriptBody tool).any fun body =>
        maxRegistryDefinitionBytes < body.utf8ByteSize then
      .error ("tool.script_body exceeds the maximum of " ++
        toString maxRegistryDefinitionBytes ++ " bytes")
    else .ok ()
  | ⟨.phase, _⟩ | ⟨.flow, _⟩ => .ok ()

def validateRegistryBlockShape (block : RegistryBlock) : Except String Unit := do
  validateBlockIdentity block.kind block.identity
  validateDefinitionText block

/-- The placeholders of a prompt; `inside` is the name of the one that is open. -/
def scanPlaceholders (inside : Option (List Char)) :
    List Char → Except String (List (List Char))
  | first :: second :: rest =>
    match inside with
    | none =>
      if first = '\x7b' ∧ second = '\x7b' then scanPlaceholders (some []) rest
      else if first = '\x7d' ∧ second = '\x7d' then
        .error "prompt has an unmatched placeholder terminator"
      else scanPlaceholders none (second :: rest)
    | some name =>
      if first = '\x7d' ∧ second = '\x7d' then
        if !isValidCommandId name then
          .error ("placeholder " ++ L.debug (String.ofList name) ++
            " is not a valid parameter name")
        else (scanPlaceholders none rest).map (name :: ·)
      else scanPlaceholders (some (name ++ [first])) (second :: rest)
  | _ => if inside.isSome then .error "prompt has an unclosed placeholder" else .ok []

def instructionPlaceholders (prompt : String) :
    Except String (List (List Char)) := scanPlaceholders L none prompt.toList

def validateInstructionParameters (prompt : List Char) (names : List String) :
    List InstructionParameter → Except String (List String)
  | [] => .ok names
  | parameter :: parameters => do
    if !isValidCommandId parameter.name.toList then
      .error "parameters.name must be a valid parameter name"
    else if parameter.name ∈ names then
      .error ("parameter " ++ parameter.name ++ " is declared more than once")
    else
      validateValueContractDefinition L parameter.valueContract
      let placeholder := "\x7b\x7b".toList ++ parameter.name.toList ++ "\x7d\x7d".toList
      if ¬ placeholder <:+: prompt then
        .error ("parameter " ++ parameter.name ++ " has no matching placeholder")
      else validateInstructionParameters prompt (parameter.name :: names) parameters

def checkInstruction (instruction : InstructionBlock) : Except String Unit := do
  let names ← validateInstructionParameters L instruction.prompt.toList [] instruction.parameters
  let placeholders ← instructionPlaceholders L instruction.prompt
  match placeholders.find? fun placeholder => String.ofList placeholder ∉ names with
  | some placeholder =>
    .error ("placeholder " ++ String.ofList placeholder ++ " has no declared parameter")
  | none => .ok ()

def validateInstructionSemantics (instruction : InstructionBlock) :
    Except SemanticValidationError Unit :=
  (checkInstruction L instruction).mapError (.invalidInstructionDefinition instruction.identity.id)

def validateTransitionDefinitions :
    List PhaseTransition → Except String Unit
  | [] => .ok ()
  | transition :: transitions => do
    if transition.fromPhaseRef = "" ∨ transition.toPhaseRef = "" then
      .error "Transition Phase references must be non-empty"
    else
      (validatePredicateDefinition L transition.when).mapError ("transition.when " ++ ·)
      validateTransitionDefinitions transitions

variable (phase : PhaseBlock)

def checkLoop : Except String Unit :=
  match phase.loopConfig with
  | none => .ok ()
  | some config =>
    if ¬ (1 ≤ config.maxIterations.toNat ∧ config.maxIterations.toNat ≤ maxPhaseLoopIterations)
    then
      .error ("loop.max_iterations must be between 1 and " ++ toString maxPhaseLoopIterations)
    else
      (validatePredicateAgainstContract L config.until phase.output).mapError ("loop.until " ++ ·)

def checkComposition : Except String Unit :=
  if phase.phaseRefs = [] then
    if phase.resultFrom.isSome then .error "leaf Phase must omit result_from"
    else if phase.transitions.length ≠ 0 then
      .error "leaf Phase cannot declare child Transitions"
    else .ok ()
  else if phase.instructionRefs ≠ [] ∨ phase.toolRefs ≠ [] then
    .error "composite Phase must not declare Instructions or Tools"
  else if phase.resultFrom = none ∨ phase.resultFrom = some "" then
    .error "composite Phase must name result_from"
  else .ok ()

def checkPhase : Except String Unit := do
  validateValueContractDefinition L phase.output
  checkLoop L phase
  checkComposition phase
  validateTransitionDefinitions L phase.transitions

def validatePhaseSemantics : Except SemanticValidationError Unit :=
  (checkPhase L phase).mapError (.invalidPhaseDefinition phase.identity.id)

def checkFlow (flow : FlowBlock) : Except String Unit :=
  if flow.phaseRefs = [] then .error "flow.phase_refs must contain at least one item"
  else validateTransitionDefinitions L flow.transitions

def validateFlowSemantics (flow : FlowBlock) : Except SemanticValidationError Unit :=
  (checkFlow L flow).mapError (.invalidFlowDefinition flow.identity.id)

def checkToolCommand (L : ScriptLibraries) (tool : ToolBlock) :
    Except SemanticValidationError Unit :=
  let invalid (message : String) : Except SemanticValidationError Unit :=
    .error (.invalidToolDefinition tool.identity.id message)
  match tool.toolKind, tool.command with
  | .ownScript, .ownScript command =>
    if command ≠ ownScriptCommandId tool.identity.id then
      .error (.ownScriptCommandIdMismatch command tool.identity.id)
    else if tool.scriptRuntime ≠ some .posixSh then
      invalid ("own-script tools must set script_runtime: " ++ ScriptRuntime.posixSh.asStr)
    else
      match tool.scriptBody with
      | none => invalid "own-script tools must set script_body"
      | some body =>
        if body.toList.all L.isWhitespace then
          invalid "own-script tools must set a non-empty script_body"
        else if '\x00' ∈ body.toList then invalid "script_body must not contain NUL"
        else .ok ()
  | .predefinedCommand, .predefined commandId argv =>
    if !isValidCommandId commandId.toList then invalid "command_id must be a valid command id"
    else if argv.any fun argument => '\x00' ∈ argument.toList then
      invalid "command.argv must not contain NUL"
    else if tool.scriptRuntime.isSome ∨ tool.scriptBody.isSome then
      invalid "predefined-command tools must omit script_runtime and script_body"
    else .ok ()
  | _, _ => .error (.toolCommandKindMismatch tool.identity.id tool.toolKind)

def validateToolSemantics (L : ScriptLibraries) (tool : ToolBlock) :
    Except SemanticValidationError Unit := do
  checkToolCommand L tool
  (validateParameters L [] tool.allowedParameters).mapError
    (.invalidToolDefinition tool.identity.id)

def validateRegistryBlockSemantics (L : ScriptLibraries) :
    RegistryBlock → Except SemanticValidationError Unit
  | ⟨.tool, tool⟩ => validateToolSemantics L tool
  | ⟨.instruction, instruction⟩ => validateInstructionSemantics L.toLibraries instruction
  | ⟨.phase, phase⟩ => validatePhaseSemantics L.toLibraries phase
  | ⟨.flow, flow⟩ => validateFlowSemantics L.toLibraries flow

end Watershed.Script
