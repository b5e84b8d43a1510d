/-
  Loading a registry from its files (`load.rs`, `load/catalog.rs`): all of it, or the blocks that
  one Flow needs.

  The definition files are given as the traversal of the registry root finds them, in the order of
  their paths; a file stays as it is while a registry is loaded. How YAML is read is left open.
-/
import Watershed.FlowAgent.Basic
import Watershed.Lib.Worklist
import Watershed.Script.Registry

namespace Watershed.Script

open Watershed.Proto
open Watershed.FlowAgent (saturatingAdd)

/-- A definition file: its path below the registry root and its text. -/
structure RegistryFile where
  path : String
  source : String
  deriving DecidableEq

structure RegistryRoot where
  path : String
  files : List RegistryFile

structure RegistryTraversalLimits where
  maxFileBytes : Nat
  maxTotalBytes : Nat

namespace RegistryFile

def bytes (file : RegistryFile) : Nat := file.source.utf8ByteSize

def sourceName (file : RegistryFile) : String := file.path.map fun c => if c = '\\' then '/' else c

end RegistryFile

/-- Reads a file, and no more of it than shows that it is too long. -/
def readRegistryFileToString (root : RegistryRoot) (file : RegistryFile) (maxBytes : Nat) :
    Except RegistryError String :=
  if maxBytes < file.bytes then
    .error (.readLimitExceeded (root.path ++ "/" ++ file.path)
      (min file.bytes (saturatingAdd maxBytes 1)) maxBytes)
  else .ok file.source

def SemanticValidationError.display : SemanticValidationError → String
  | .toolCommandKindMismatch toolId toolKind =>
    "tool command shape does not match " ++ toolKind.asStr ++ ": " ++ toolId
  | .invalidToolDefinition toolId message => "invalid tool definition " ++ toolId ++ ": " ++ message
  | .ownScriptCommandIdMismatch command toolId =>
    "own-script command must be script:<tool-id>: " ++ toolId ++ " used " ++ command
  | .invalidInstructionDefinition instructionId message =>
    "invalid instruction definition " ++ instructionId ++ ": " ++ message
  | .invalidPhaseDefinition phaseId message =>
    "invalid phase definition " ++ phaseId ++ ": " ++ message
  | .invalidFlowDefinition flowId message => "invalid flow definition " ++ flowId ++ ": " ++ message

section Load

variable (L : ScriptLibraries)
  -- `deserialize_registry_block`, from the name of a source and its text.
  (deserialize : String → String → Except RegistryError RegistryBlock)

/-- Parses one registry block from a named YAML source. -/
def parseRegistryBlock (sourceName source : String) : Except RegistryError RegistryBlock := do
  let block ← deserialize sourceName source
  (validateRegistryBlockShape block).mapError (.parse sourceName)
  (validateRegistryBlockSemantics L block).mapError fun error => .parse sourceName error.display
  pure block

/-! ## The whole registry -/

def readBlocks (root : RegistryRoot) (limits : RegistryTraversalLimits) (totalBytes : Nat) :
    List RegistryFile → Except RegistryError (List RegistryBlock)
  | [] => .ok []
  | file :: files => do
    let source ← readRegistryFileToString root file limits.maxFileBytes
    if 2 ^ 64 ≤ totalBytes + file.bytes then
      .error (.readLimitExceeded root.path (2 ^ 64 - 1) limits.maxTotalBytes)
    else if limits.maxTotalBytes < totalBytes + file.bytes then
      .error (.readLimitExceeded root.path (totalBytes + file.bytes) limits.maxTotalBytes)
    else do
      let block ← parseRegistryBlock L deserialize file.sourceName source
      let blocks ← readBlocks root limits (totalBytes + file.bytes) files
      pure (block :: blocks)

def readAllBlocksWithInitialBytes (root : RegistryRoot) (limits : RegistryTraversalLimits)
    (initialBytes : Nat) : Except RegistryError (List RegistryBlock) :=
  if limits.maxTotalBytes < initialBytes then
    .error (.readLimitExceeded root.path initialBytes limits.maxTotalBytes)
  else readBlocks L deserialize root limits initialBytes root.files

def loadAllFromRoot (root : RegistryRoot) (limits : RegistryTraversalLimits) :
    Except RegistryError ResolvedRegistry := do
  let blocks ← readAllBlocksWithInitialBytes L deserialize root limits 0
  ResolvedRegistry.fromBlocks L blocks

/-! ## The catalog -/

/-- Where the block with an identity is found. -/
structure RegistryCatalogEntry where
  identity : BlockIdentity
  file : RegistryFile

structure RegistryCatalog where
  entries : RegistryBlockKind → StringMap RegistryCatalogEntry
  nameIds : RegistryBlockKind → StringMap String

namespace RegistryCatalog

def empty : RegistryCatalog := { entries := fun _ => ∅, nameIds := fun _ => ∅ }

variable (catalog : RegistryCatalog)

def insert (block : RegistryBlock) (file : RegistryFile) :
    Except RegistryError RegistryCatalog := do
  let contents ← insertNamedBlock L.toLibraries block.kind block.identity
    (catalog.entries block.kind) (catalog.nameIds block.kind)
    { identity := block.identity, file := file }
  pure { entries := Function.update catalog.entries block.kind contents.1
         nameIds := Function.update catalog.nameIds block.kind contents.2 }

def resolve (kind : RegistryBlockKind) (reference : String) : Option RegistryCatalogEntry :=
  (catalog.entries kind)[reference]?.or
    ((catalog.nameIds kind)[L.nfc reference]?.bind ((catalog.entries kind)[·]?))

def require (kind : RegistryBlockKind) (reference fromKind fromId : String) :
    Except RegistryError RegistryCatalogEntry :=
  match catalog.resolve L kind reference with
  | some entry => .ok entry
  | none => .error (.missingReference fromKind fromId kind.asStr reference)

end RegistryCatalog

/-- The blocks that a block needs, in the order in which they are queued. -/
def Block.dependencies : (kind : RegistryBlockKind) → Block kind → List BlockKey
  | .tool, _ | .instruction, _ => []
  | .phase, phase =>
    (PhaseBlock.instructionRefs phase).map (.instruction, ·) ++
      (PhaseBlock.toolRefs phase).map (.tool, ·) ++ (PhaseBlock.phaseRefs phase).map (.phase, ·)
  | .flow, flow =>
    (FlowBlock.phaseRefs flow).map (.phase, ·) ++ (FlowBlock.subflowRefs flow).map (.flow, ·)

/-- The ids of the dependencies of a block, to be pushed one after another. -/
def enqueueDependencies (catalog : RegistryCatalog) (block : RegistryBlock) :
    Except RegistryError (List BlockKey) :=
  (Block.dependencies block.kind block.block).mapM fun dependency => do
    let target ← catalog.require L dependency.1 dependency.2 block.kind.asStr block.identity.id
    pure (dependency.1, target.identity.id)

/-! ## The closure of a Flow -/

def readCatalog (root : RegistryRoot) (limits : RegistryTraversalLimits) (totalBytes : Nat)
    (catalog : RegistryCatalog) : List RegistryFile → Except RegistryError RegistryCatalog
  | [] => .ok catalog
  | file :: files => do
    let source ← readRegistryFileToString root file limits.maxFileBytes
    let totalBytes := saturatingAdd totalBytes file.bytes
    if limits.maxTotalBytes < totalBytes then
      .error (.readLimitExceeded root.path totalBytes limits.maxTotalBytes)
    else do
      let block ← parseRegistryBlock L deserialize file.sourceName source
      let catalog ← catalog.insert L block file
      readCatalog root limits totalBytes catalog files

/-- What was loaded for a Flow so far. -/
structure ActiveBlocks where
  bytes : Nat
  blocks : List RegistryBlock

/-- Reads one queued block again and queues what it needs. -/
def loadQueued (root : RegistryRoot) (limits : RegistryTraversalLimits) (maxActiveBytes : Nat)
    (catalog : RegistryCatalog) (queued : BlockKey) (active : ActiveBlocks) :
    Except RegistryError (ActiveBlocks × List BlockKey) :=
  match catalog.resolve L queued.1 queued.2 with
  | none => .error (.panicked "queued catalog entries remain available")
  | some entry => do
    let source ← readRegistryFileToString root entry.file limits.maxFileBytes
    let activeBytes := saturatingAdd active.bytes entry.file.bytes
    if maxActiveBytes < activeBytes then
      .error (.readLimitExceeded root.path activeBytes maxActiveBytes)
    else do
      let block ← parseRegistryBlock L deserialize entry.file.sourceName source
      if block.kind ≠ queued.1 ∨ block.identity ≠ entry.identity then
        .error (.parse entry.file.sourceName "registry block identity changed while loading")
      else do
        let pushed ← enqueueDependencies L catalog block
        pure ({ bytes := activeBytes, blocks := active.blocks ++ [block] }, pushed)

/-- Loads the unique transitive registry closure for one top-level Flow. There is no result when
    the queue is not empty after `fuel` rounds. -/
def loadForFlowFromRoot (fuel : Nat) (root : RegistryRoot) (flowReference : String)
    (maxActiveBytes : Nat) (limits : RegistryTraversalLimits) :
    Except RegistryError (Option ResolvedRegistry) := do
  let catalog ← readCatalog L deserialize root limits 0 .empty root.files
  let rootFlow ← catalog.require L .flow flowReference "registry" "root"
  let active ← Worklist.run (loadQueued L deserialize root limits maxActiveBytes catalog) fuel
    [(.flow, rootFlow.identity.id)] [] { bytes := 0, blocks := [] }
  match active with
  | none => pure none
  | some active => do
    let registry ← ResolvedRegistry.fromBlocks L active.blocks
    pure (some registry)

end Load

end Watershed.Script
