/-
  What is in a registry after blocks were put in, and why the order does not matter.

  Blocks go in exactly when each of them is acceptable by itself and no two of one kind clash: an
  id or name of one is an id or name of the other. The contents are then determined by the blocks.
-/
import Watershed.Script.Registry

namespace Watershed.Script

open Watershed.Proto List ResolvedRegistry

namespace RegistryBlock

def id (block : RegistryBlock) : String := block.identity.id

def name (block : RegistryBlock) : String := block.identity.name

/-- Two blocks of one kind that a reference could not tell apart. -/
def Clashes (left right : RegistryBlock) : Prop :=
  left.kind = right.kind ∧
    (left.id = right.id ∨ left.name = right.id ∨ left.id = right.name ∨ left.name = right.name)

theorem Clashes.symm {left right : RegistryBlock} (h : left.Clashes right) : right.Clashes left := by
  obtain ⟨hkind, h | h | h | h⟩ := h
  · exact ⟨hkind.symm, .inl h.symm⟩
  · exact ⟨hkind.symm, .inr (.inr (.inl h.symm))⟩
  · exact ⟨hkind.symm, .inr (.inl h.symm)⟩
  · exact ⟨hkind.symm, .inr (.inr (.inr h.symm))⟩

end RegistryBlock

/-! ## Canonical blocks -/

theorem Block.identity_canonical (L : Libraries) (kind : RegistryBlockKind) (block : Block kind) :
    Block.identity kind (Block.canonical L kind block) =
      (Block.identity kind block).canonical L := by
  cases kind <;> rfl

theorem RegistryBlock.identity_canonical (L : Libraries) (block : RegistryBlock) :
    (block.canonical L).identity = block.identity.canonical L :=
  Block.identity_canonical L block.kind block.block

namespace ResolvedRegistry

variable {L : ScriptLibraries} {block : RegistryBlock}

theorem identity_of_shape (h : validateRegistryBlockShape block = .ok ()) :
    isValidBlockId block.id = true ∧ block.name ≠ "" := by
  rw [validateRegistryBlockShape, check_bind_eq_ok] at h
  have hidentity := h.1
  unfold validateBlockIdentity at hidentity
  obtain ⟨hid, hidentity⟩ := ite_error_eq_ok.mp hidentity
  obtain ⟨hname, hidentity⟩ := ite_error_eq_ok.mp hidentity
  exact ⟨by simpa [RegistryBlock.id] using hid, hname⟩

variable {source block : RegistryBlock} {registry : ResolvedRegistry}

theorem canonicalizeRegistryBlock_eq_ok
    (h : canonicalizeRegistryBlock L.toLibraries source = .ok block) :
    block = source.canonical L.toLibraries := by
  unfold canonicalizeRegistryBlock at h
  split at h
  · cases h
  · cases h
    rfl

/-- What a block is like that was prepared for the registry. -/
structure IsPrepared (L : ScriptLibraries) (source block : RegistryBlock) : Prop where
  canonical : block = source.canonical L.toLibraries
  validId : isValidBlockId block.id = true
  name_ne : block.name ≠ ""
  sourceId : isValidBlockId source.id = true

theorem isPrepared_of_prepare (h : prepare L source = .ok block) :
    IsPrepared L source block := by
  rw [prepare, check_bind_eq_ok, bind_eq_ok] at h
  obtain ⟨hsource, canonical, hcanonical, h⟩ := h
  rw [check_bind_eq_ok, mapError_eq_ok] at h
  obtain ⟨hshape, h⟩ := h
  cases h
  obtain ⟨hid, hname⟩ := identity_of_shape hshape
  exact ⟨canonicalizeRegistryBlock_eq_ok hcanonical, hid, hname,
    (identity_of_shape (mapError_eq_ok.mp hsource)).1⟩

theorem IsPrepared.nfc_name (h : IsPrepared L source block) :
    L.nfc block.name = block.name := by
  rw [h.canonical, RegistryBlock.name, RegistryBlock.identity_canonical]
  exact L.nfc_nfc _

theorem IsPrepared.kind_eq (h : IsPrepared L source block) :
    block.kind = source.kind := by
  rw [h.canonical]
  rfl

/-! ## What is in a registry -/

/-- The registry holds exactly these blocks. -/
structure Holds (registry : ResolvedRegistry) (contents : List RegistryBlock) : Prop where
  blocks : ∀ kind id (block : Block kind), (registry.blocks kind)[id]? = some block ↔
    (⟨kind, block⟩ : RegistryBlock) ∈ contents ∧ (Block.identity kind block).id = id
  names : ∀ kind name id, (registry.nameIds kind)[name]? = some id ↔
    ∃ block ∈ contents, block.kind = kind ∧ block.name = name ∧ block.id = id

theorem holds_empty : Holds empty [] := by
  constructor <;> simp [empty]

theorem Holds.congr {contents contents' : List RegistryBlock}
    (h : Holds registry contents) (hperm : contents.Perm contents') : Holds registry contents' := by
  refine ⟨fun kind id block => ?_, fun kind name id => ?_⟩
  · rw [h.blocks, hperm.mem_iff]
  · rw [h.names]
    exact exists_congr fun block => by rw [hperm.mem_iff]

/-- The contents determine the registry. -/
theorem Holds.unique {registry' : ResolvedRegistry} {contents : List RegistryBlock}
    (h : Holds registry contents) (h' : Holds registry' contents) : registry = registry' := by
  have hblocks : registry.blocks = registry'.blocks := by
    funext kind
    refine Std.ExtTreeMap.ext_getElem? fun id => Option.ext fun block => ?_
    rw [h.blocks, h'.blocks]
  have hnames : registry.nameIds = registry'.nameIds := by
    funext kind
    refine Std.ExtTreeMap.ext_getElem? fun name => Option.ext fun id => ?_
    rw [h.names, h'.names]
  cases registry
  simp only at hblocks hnames
  rw [hblocks, hnames]

/-! ## Putting blocks in -/

/-- When a block goes in. -/
theorem insertNamedBlock_eq_ok {α : Type} {kind : RegistryBlockKind} {identity : BlockIdentity}
    {blocks : StringMap α} {names : StringMap String} {block : α}
    {contents : StringMap α × StringMap String} :
    insertNamedBlock L.toLibraries kind identity blocks names block = .ok contents ↔
      (isValidBlockId identity.id = true ∧ identity.name ≠ "") ∧
      (blocks[identity.id]? = none ∧ names[identity.id]? = none ∧
        blocks[identity.name]? = none ∧ names[L.nfc identity.name]? = none) ∧
      contents =
        (blocks.insert identity.id block, names.insert (L.nfc identity.name) identity.id) := by
  simp only [insertNamedBlock, ite_error_eq_ok, Bool.not_eq_true, Bool.not_eq_false',
    StringMap.contains_eq_false, Except.ok.injEq, and_assoc, @eq_comm _ contents, ne_eq]

section Insert

variable {registry : ResolvedRegistry} {contents : List RegistryBlock}

/-- The places that a new block takes are free exactly when it clashes with no block there. -/
theorem Holds.free_iff (h : Holds registry contents) :
    ((registry.blocks block.kind)[block.id]? = none ∧
      (registry.nameIds block.kind)[block.id]? = none ∧
      (registry.blocks block.kind)[block.name]? = none ∧
      (registry.nameIds block.kind)[block.name]? = none) ↔
      ∀ other ∈ contents, ¬ other.Clashes block := by
  have hblocks : ∀ id, (registry.blocks block.kind)[id]? = none ↔
      ∀ other ∈ contents, other.kind = block.kind → other.id ≠ id := by
    intro id
    rw [Option.eq_none_iff_forall_ne_some]
    constructor
    · rintro hnone ⟨kind, other⟩ hother rfl heq
      exact hnone other ((h.blocks _ _ _).mpr ⟨hother, heq⟩)
    · intro hall other hother
      obtain ⟨hmem, hid⟩ := (h.blocks _ _ _).mp hother
      exact hall _ hmem rfl hid
  have hnames : ∀ name, (registry.nameIds block.kind)[name]? = none ↔
      ∀ other ∈ contents, other.kind = block.kind → other.name ≠ name := by
    intro name
    rw [Option.eq_none_iff_forall_ne_some]
    constructor
    · intro hnone other hother hkind heq
      exact hnone other.id ((h.names _ _ _).mpr ⟨other, hother, hkind, heq, rfl⟩)
    · intro hall id hid
      obtain ⟨other, hmem, hkind, hname, -⟩ := (h.names _ _ _).mp hid
      exact hall other hmem hkind hname
  rw [hblocks, hnames, hblocks, hnames]
  constructor
  · rintro ⟨h₁, h₂, h₃, h₄⟩ other hother ⟨hkind, hclash | hclash | hclash | hclash⟩
    · exact h₁ other hother hkind hclash
    · exact h₂ other hother hkind hclash
    · exact h₃ other hother hkind hclash
    · exact h₄ other hother hkind hclash
  · intro hall
    refine ⟨fun other hother hkind heq => hall other hother ⟨hkind, .inl heq⟩,
      fun other hother hkind heq => hall other hother ⟨hkind, .inr (.inl heq)⟩,
      fun other hother hkind heq => hall other hother ⟨hkind, .inr (.inr (.inl heq))⟩,
      fun other hother hkind heq => hall other hother ⟨hkind, .inr (.inr (.inr heq))⟩⟩

/-- The registry with one more block. -/
def withBlock (registry : ResolvedRegistry) (block : RegistryBlock) : ResolvedRegistry :=
  registry.set block.kind ((registry.blocks block.kind).insert block.id block.block,
    (registry.nameIds block.kind).insert block.name block.id)

/-- The maps of all kinds once a new key is in the map of one kind. -/
theorem get_update_insert {β : RegistryBlockKind → Type} {maps : ∀ kind, StringMap (β kind)}
    {kind : RegistryBlockKind} {key : String} (value : β kind) (hfree : (maps kind)[key]? = none)
    (other : RegistryBlockKind) (k : String) (v : β other) :
    (Function.update maps kind ((maps kind).insert key value) other)[k]? = some v ↔
      (key = k ∧ (⟨kind, value⟩ : Sigma β) = ⟨other, v⟩) ∨ (maps other)[k]? = some v := by
  by_cases hkind : other = kind
  · subst hkind
    rw [Function.update_self, StringMap.get_insert]
    by_cases hkey : key = k
    · subst hkey
      simp [hfree]
    · simp [hkey]
  · rw [Function.update_of_ne hkind, or_iff_right]
    exact fun h => hkind (congrArg Sigma.fst h.2).symm

theorem Holds.withBlock (h : Holds registry contents)
    (hfree : ∀ other ∈ contents, ¬ other.Clashes block) :
    Holds (registry.withBlock block) (block :: contents) := by
  obtain ⟨hid, -, -, hname⟩ := h.free_iff.mpr hfree
  refine ⟨fun kind id other => ?_, fun kind name id => ?_⟩
  · rw [mem_cons, or_and_right, ← h.blocks]
    refine (get_update_insert block.block hid kind id other).trans (or_congr_left ?_)
    obtain ⟨own, value⟩ := block
    rw [and_comm, eq_comm, Sigma.mk.injEq, RegistryBlock.mk.injEq]
    refine and_congr_right ?_
    rintro ⟨rfl, hother⟩
    cases hother
    rfl
  · rw [exists_mem_cons_iff, ← h.names]
    refine (get_update_insert block.id hname kind name id).trans (or_congr_left ?_)
    rw [Sigma.mk.injEq, heq_eq_eq, and_left_comm]

theorem Holds.insert_eq_ok (h : Holds registry contents)
    (hprepared : IsPrepared L source block) {next : ResolvedRegistry} :
    registry.insert L block = .ok next ↔
      validateRegistryBlockSemantics L block = .ok () ∧
      (∀ other ∈ contents, ¬ other.Clashes block) ∧ next = registry.withBlock block := by
  rw [insert, check_bind_eq_ok, mapError_eq_ok, bind_eq_ok, ← h.free_iff]
  refine and_congr_right fun _ => ?_
  simp only [insertNamedBlock_eq_ok]
  constructor
  · rintro ⟨contents', ⟨-, hfree, rfl⟩, hnext⟩
    cases hnext
    have hnfc : L.nfc block.identity.name = block.identity.name := hprepared.nfc_name
    rw [hnfc] at hfree ⊢
    exact ⟨hfree, rfl⟩
  · rintro ⟨hfree, rfl⟩
    have hnfc : L.nfc block.identity.name = block.identity.name := hprepared.nfc_name
    refine ⟨_, ⟨⟨hprepared.validId, hprepared.name_ne⟩, ?_, rfl⟩, ?_⟩
    · rw [hnfc]
      exact hfree
    · rw [hnfc]
      rfl

end Insert

/-! ## Lists of blocks -/

variable (L) in
/-- The canonical form of a block that is acceptable by itself. -/
def accepted (source : RegistryBlock) : Option RegistryBlock :=
  (do
    let block ← prepare L source
    (validateRegistryBlockSemantics L block).mapError RegistryError.semantic
    pure block).toOption

theorem accepted_eq_some :
    accepted L source = some block ↔
      prepare L source = .ok block ∧ validateRegistryBlockSemantics L block = .ok () := by
  rw [accepted, toOption_eq_some, bind_eq_ok]
  constructor
  · rintro ⟨prepared, hprepare, h⟩
    rw [check_bind_eq_ok, mapError_eq_ok] at h
    obtain ⟨hsemantics, h⟩ := h
    cases h
    exact ⟨hprepare, hsemantics⟩
  · rintro ⟨hprepare, hsemantics⟩
    exact ⟨block, hprepare, check_bind_eq_ok.mpr ⟨mapError_eq_ok.mpr hsemantics, rfl⟩⟩

variable (L) in
/-- Each block is acceptable by itself and no two of them clash. -/
structure Acceptable (sources : List RegistryBlock) : Prop where
  each : ∀ source ∈ sources, (accepted L source).isSome = true
  apart : (sources.filterMap (accepted L)).Pairwise fun left right => ¬ left.Clashes right

variable {sources sources' : List RegistryBlock} {registry : ResolvedRegistry}
  {contents sources : List RegistryBlock}

theorem Acceptable.perm (h : Acceptable L sources)
    (hperm : sources.Perm sources') : Acceptable L sources' := by
  refine ⟨fun source hsource => h.each source (hperm.mem_iff.mpr hsource), ?_⟩
  exact (hperm.filterMap _).pairwise h.apart fun hnot hclash => hnot hclash.symm

/-- Blocks that go in are acceptable, and the registry then holds them too. -/
theorem Holds.insertAll {final : ResolvedRegistry}
    (h : Holds registry contents) (hinsert : registry.insertAll L sources = .ok final) :
    Acceptable L sources ∧
      (∀ other ∈ contents, ∀ block ∈ sources.filterMap (accepted L), ¬ other.Clashes block) ∧
      Holds final (sources.filterMap (accepted L) ++ contents) := by
  induction sources generalizing registry contents with
  | nil =>
    cases hinsert
    exact ⟨⟨by simp, by simp⟩, by simp, h⟩
  | cons source sources ih =>
    simp only [ResolvedRegistry.insertAll, bind_eq_ok] at hinsert
    obtain ⟨block, hprepare, next, hnext, hinsert⟩ := hinsert
    obtain ⟨hsemantics, hfree, rfl⟩ := (h.insert_eq_ok (isPrepared_of_prepare hprepare)).mp hnext
    have haccepted : accepted L source = some block := accepted_eq_some.mpr ⟨hprepare, hsemantics⟩
    obtain ⟨hrest, hothers, hholds⟩ := ih (h.withBlock hfree) hinsert
    rw [forall_mem_cons] at hothers
    rw [filterMap_cons_some haccepted]
    refine ⟨⟨?_, ?_⟩, ?_, ?_⟩
    · rw [forall_mem_cons]
      exact ⟨by simp [haccepted], hrest.each⟩
    · rw [filterMap_cons_some haccepted]
      exact pairwise_cons.mpr ⟨hothers.1, hrest.apart⟩
    · intro other hother
      rw [forall_mem_cons]
      exact ⟨hfree other hother, hothers.2 other hother⟩
    · exact hholds.congr perm_middle

theorem Holds.exists_insertAll
    (h : Holds registry contents) (haccept : Acceptable L sources)
    (hfree : ∀ other ∈ contents, ∀ block ∈ sources.filterMap (accepted L),
      ¬ other.Clashes block) :
    ∃ final, registry.insertAll L sources = .ok final := by
  induction sources generalizing registry contents with
  | nil => exact ⟨registry, rfl⟩
  | cons source sources ih =>
    obtain ⟨hsource, heach⟩ := forall_mem_cons.mp haccept.each
    obtain ⟨block, hblock⟩ := Option.isSome_iff_exists.mp hsource
    obtain ⟨hprepare, hsemantics⟩ := accepted_eq_some.mp hblock
    have hapart := haccept.apart
    rw [filterMap_cons_some hblock] at hfree hapart
    have hhead : ∀ other ∈ contents, ¬ other.Clashes block := fun other hother =>
      hfree other hother block mem_cons_self
    have hinsert := (h.insert_eq_ok (isPrepared_of_prepare hprepare)).mpr ⟨hsemantics, hhead, rfl⟩
    obtain ⟨hblockRest, hrest⟩ := pairwise_cons.mp hapart
    obtain ⟨final, hfinal⟩ := ih (h.withBlock hhead) ⟨heach, hrest⟩ (by
      rw [forall_mem_cons]
      exact ⟨hblockRest, fun other hother next hnext =>
        hfree other hother next (mem_cons_of_mem _ hnext)⟩)
    refine ⟨final, ?_⟩
    simp only [ResolvedRegistry.insertAll, bind_eq_ok]
    exact ⟨block, hprepare, _, hinsert, hfinal⟩

/-- What the registry holds once all blocks are in. -/
theorem holds_insertAll
    (h : empty.insertAll L sources = .ok registry) :
    Acceptable L sources ∧ Holds registry (sources.filterMap (accepted L)) := by
  obtain ⟨haccept, -, hholds⟩ := holds_empty.insertAll h
  rw [append_nil] at hholds
  exact ⟨haccept, hholds⟩

theorem insertAll_perm (hperm : sources.Perm sources')
    (h : empty.insertAll L sources = .ok registry) :
    empty.insertAll L sources' = .ok registry := by
  obtain ⟨haccept, hholds⟩ := holds_insertAll h
  obtain ⟨other, hother⟩ := holds_empty.exists_insertAll (haccept.perm hperm) (by simp)
  obtain ⟨-, hholds'⟩ := holds_insertAll hother
  rw [hother, (hholds.congr (hperm.filterMap _)).unique hholds']

theorem fromBlocks_of_perm (hperm : sources.Perm sources')
    (h : fromBlocks L sources = .ok registry) :
    fromBlocks L sources' = .ok registry := by
  obtain ⟨inserted, hinserted, h⟩ := bind_eq_ok.mp h
  exact bind_eq_ok.mpr ⟨inserted, insertAll_perm hperm hinserted, h⟩

/-- The order in which blocks are found does not matter: loading fails for both orders, or gives
    the same registry, with the same blocks, the same resolution of every reference and the same
    canonical text. -/
theorem fromBlocks_perm {sources sources' : List RegistryBlock} (hperm : sources.Perm sources') :
    (∃ error error', fromBlocks L sources = .error error ∧ fromBlocks L sources' = .error error') ∨
      ∃ registry registry', fromBlocks L sources = .ok registry ∧
        fromBlocks L sources' = .ok registry' ∧
        registry.blocks = registry'.blocks ∧
        (∀ kind reference, registry.namedBlock L kind reference =
          registry'.namedBlock L kind reference) ∧
        registry.canonicalJson L = registry'.canonicalJson L := by
  cases h : fromBlocks L sources with
  | ok registry =>
    exact .inr ⟨registry, registry, rfl, fromBlocks_of_perm hperm h, rfl, fun _ _ => rfl, rfl⟩
  | error error =>
    cases h' : fromBlocks L sources' with
    | ok registry =>
      rw [fromBlocks_of_perm hperm.symm h'] at h
      cases h
    | error error' => exact .inl ⟨error, error', rfl, rfl⟩

end ResolvedRegistry

/-! ## A small registry -/

section Sample

def echoTool : ToolBlock :=
  { identity := ⟨"echo", "Echo"⟩, toolKind := .predefinedCommand
    command := .predefined "agent-echo" ["hello"], scriptRuntime := none, scriptBody := none
    allowedParameters := [] }

def idleTool : ToolBlock := { echoTool with identity := ⟨"idle", "Idle"⟩ }

def briefInstruction : InstructionBlock :=
  { identity := ⟨"brief", "Brief"⟩, prompt := "Say hello.", parameters := [] }

def greetPhase : PhaseBlock :=
  { identity := ⟨"greet", "Greet"⟩, instructionRefs := ["Brief"], toolRefs := ["Echo"]
    phaseRefs := [], output := .boolean, resultFrom := none, loopConfig := none, transitions := [] }

def partPhase : PhaseBlock :=
  { greetPhase with identity := ⟨"part", "Part"⟩, toolRefs := [] }

/-- A composite Phase that goes on from greeting to parting. -/
def visitPhase : PhaseBlock :=
  { identity := ⟨"visit", "Visit"⟩, instructionRefs := [], toolRefs := []
    phaseRefs := ["Greet", "part"], output := .boolean, resultFrom := some "Part"
    loopConfig := none
    transitions := [⟨"greet", "Part", ⟨[], .boolean true⟩⟩] }

def afterFlow : FlowBlock :=
  { identity := ⟨"after", "After"⟩, phaseRefs := ["Part"], subflowRefs := [], transitions := [] }

def mainFlow : FlowBlock :=
  { identity := ⟨"main", "Main"⟩, phaseRefs := ["Visit"], subflowRefs := ["After"]
    transitions := [] }

def sampleBlocks : List RegistryBlock :=
  [.flow mainFlow, .phase visitPhase, .phase partPhase, .tool echoTool, .tool idleTool,
    .flow afterFlow, .instruction briefInstruction, .phase greetPhase]

theorem fromBlocks_perm_sample :
    (fromBlocks scriptLibraries sampleBlocks).toOption.isSome = true ∧
    ∃ registry registry', fromBlocks scriptLibraries sampleBlocks = .ok registry ∧
      fromBlocks scriptLibraries sampleBlocks.reverse = .ok registry' ∧
      registry.blocks = registry'.blocks ∧
      (∀ kind reference, registry.namedBlock scriptLibraries kind reference =
        registry'.namedBlock scriptLibraries kind reference) ∧
      registry.canonicalJson scriptLibraries = registry'.canonicalJson scriptLibraries := by
  have hloads :
      (fromBlocks scriptLibraries sampleBlocks).toOption.isSome = true := by
    decide +kernel
  refine ⟨hloads, ?_⟩
  rcases fromBlocks_perm
    (reverse_perm sampleBlocks).symm with ⟨error, error', herror, -⟩ | h
  · rw [herror] at hloads
    cases hloads
  · exact h

end Sample

end Watershed.Script
