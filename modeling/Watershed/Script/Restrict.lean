/-
  Part of a registry: blocks that need no block outside their part load by themselves, to what the
  whole registry has of them.
-/
import Watershed.Script.Load
import Watershed.Script.Sound

namespace Watershed.Script

open Watershed.Proto List

/-! ## Dependencies -/

theorem dependencies_subset (kind : RegistryBlockKind) (block : Block kind) :
    ∀ x ∈ Block.dependencies kind block, x ∈ Block.references kind block := by
  intro x hx
  cases kind with
  | tool | instruction => exact hx
  | phase => exact mem_append_left _ (mem_append_left _ hx)
  | flow => exact mem_append_left _ hx

theorem dependencies_withReferences (names : RegistryBlockKind → StringMap String)
    (kind : RegistryBlockKind) (block : Block kind) :
    Block.dependencies kind (Block.withReferences names kind block) =
      (Block.dependencies kind block).map fun x => (x.1, canonicalizeReference (names x.1) x.2) := by
  cases kind <;> simp [Block.dependencies, Block.withReferences, PhaseBlock.withReferences,
    FlowBlock.withReferences, Function.comp_def]

theorem dependencies_canonical (L : Libraries) (kind : RegistryBlockKind) (block : Block kind) :
    Block.dependencies kind (Block.canonical L kind block) =
      (Block.dependencies kind block).map fun x => (x.1, L.nfc x.2) := by
  cases kind <;> simp [Block.dependencies, Block.canonical, PhaseBlock.canonical,
    FlowBlock.canonical, Function.comp_def]

variable {kind : RegistryBlockKind} {block : Block kind} {y : BlockKey}

theorem mem_dependencies_canonical (L : Libraries) :
    y ∈ Block.dependencies kind (Block.canonical L kind block) ↔
      ∃ x ∈ Block.dependencies kind block, (x.1, L.nfc x.2) = y := by
  rw [dependencies_canonical, mem_map]

/-- References that are written alike by two sets of names. -/
theorem withReferences_congr {names names' : RegistryBlockKind → StringMap String}
    (h : ∀ x ∈ Block.references kind block,
      canonicalizeReference (names x.1) x.2 = canonicalizeReference (names' x.1) x.2) :
    Block.withReferences names kind block = Block.withReferences names' kind block := by
  have htransitions : ∀ transitions : List PhaseTransition,
      (∀ x ∈ transitions.flatMap PhaseTransition.references,
        canonicalizeReference (names x.1) x.2 = canonicalizeReference (names' x.1) x.2) →
      transitions.map (PhaseTransition.withReferences (names .phase)) =
        transitions.map (PhaseTransition.withReferences (names' .phase)) := by
    intro transitions hall
    refine map_congr_left fun transition htransition => ?_
    have hends : ∀ x ∈ transition.references, _ := fun x hx =>
      hall x (mem_flatMap.mpr ⟨transition, htransition, hx⟩)
    simp only [PhaseTransition.references, forall_mem_cons] at hends
    rw [PhaseTransition.withReferences, hends.1, hends.2.1]
    rfl
  have hlist : ∀ (target : RegistryBlockKind) (references : List String),
      (∀ x ∈ references.map (Prod.mk target),
        canonicalizeReference (names x.1) x.2 = canonicalizeReference (names' x.1) x.2) →
      references.map (canonicalizeReference (names target)) =
        references.map (canonicalizeReference (names' target)) := by
    intro target references hall
    exact map_congr_left fun reference hreference =>
      hall (target, reference) (mem_map_of_mem hreference)
  cases kind with
  | tool | instruction => rfl
  | phase =>
    simp only [Block.references, forall_mem_append] at h
    obtain ⟨⟨⟨⟨hinstructions, htools⟩, hphases⟩, hresult⟩, htransition⟩ := h
    simp only [Block.withReferences, PhaseBlock.withReferences, hlist _ _ hinstructions,
      hlist _ _ htools, hlist _ _ hphases, htransitions _ htransition]
    congr 1
    cases hfrom : PhaseBlock.resultFrom block with
    | none => rfl
    | some resultFrom =>
      rw [hfrom] at hresult
      exact congrArg some (hresult (.phase, resultFrom) (by simp))
  | flow =>
    simp only [Block.references, forall_mem_append] at h
    obtain ⟨⟨hphases, hsubflows⟩, htransition⟩ := h
    simp only [Block.withReferences, FlowBlock.withReferences, hlist _ _ hphases,
      hlist _ _ hsubflows, htransitions _ htransition]
    rfl

namespace ResolvedRegistry

variable {L : ScriptLibraries} {registry other : ResolvedRegistry}

/-! ## Checks that agree -/

variable {kind : RegistryBlockKind} {reference : String} {references : List String}
    {phase : PhaseBlock} {block : Block kind} {x : BlockKey} {target : Block x.1}

theorem require_congr (h : registry.namedBlock L kind reference = other.namedBlock L kind reference)
    (fromKind : RegistryBlockKind) (fromId : String) :
    registry.require L kind reference fromKind fromId =
      other.require L kind reference fromKind fromId := by
  rw [require, require, h]

theorem checkReferences_congr (h : ∀ x ∈ references.map (Prod.mk kind),
      registry.namedBlock L x.1 x.2 = other.namedBlock L x.1 x.2) (phaseId : String)
    (seen : List String) :
    registry.checkReferences L kind phaseId seen references =
      other.checkReferences L kind phaseId seen references := by
  induction references generalizing seen with
  | nil => rfl
  | cons reference references ih =>
    rw [map_cons, forall_mem_cons] at h
    simp only [checkReferences, require_congr h.1, ih h.2]

theorem phasePositions_congr (h : ∀ x ∈ references.map (Prod.mk RegistryBlockKind.phase),
      registry.namedBlock L x.1 x.2 = other.namedBlock L x.1 x.2)
    (fromKind : RegistryBlockKind) (fromId : String) (index : Nat) (positions : StringMap Nat) :
    registry.phasePositions L fromKind fromId index positions references =
      other.phasePositions L fromKind fromId index positions references := by
  induction references generalizing index positions with
  | nil => rfl
  | cons reference references ih =>
    rw [map_cons, forall_mem_cons] at h
    simp only [phasePositions, require_congr h.1, ih h.2]

theorem validateTransitions_congr {transitions : List PhaseTransition}
    (h : ∀ x ∈ transitions.flatMap PhaseTransition.references,
      registry.namedBlock L x.1 x.2 = other.namedBlock L x.1 x.2)
    (positions : StringMap Nat) (fromKind : RegistryBlockKind) (fromId : String) :
    registry.validateTransitions L positions fromKind fromId transitions =
      other.validateTransitions L positions fromKind fromId transitions := by
  refine forM_congr fun transition htransition => ?_
  have hends : ∀ x ∈ transition.references, _ := fun x hx =>
    h x (mem_flatMap.mpr ⟨transition, htransition, hx⟩)
  simp only [PhaseTransition.references, forall_mem_cons] at hends
  simp only [validateTransition, require_congr hends.1, require_congr hends.2.1]

theorem validateResultFrom_congr
    (h : ∀ x ∈ phase.resultFrom.toList.map (Prod.mk RegistryBlockKind.phase),
      registry.namedBlock L x.1 x.2 = other.namedBlock L x.1 x.2) (positions : StringMap Nat) :
    registry.validateResultFrom L positions phase = other.validateResultFrom L positions phase := by
  unfold validateResultFrom
  cases hfrom : phase.resultFrom with
  | none => rfl
  | some resultFrom =>
    rw [hfrom] at h
    simp only [require_congr (h (.phase, resultFrom) (by simp))]

theorem validatePhaseReferences_congr (h : ∀ x ∈ Block.references .phase phase,
      registry.namedBlock L x.1 x.2 = other.namedBlock L x.1 x.2) :
    registry.validatePhaseReferences L phase = other.validatePhaseReferences L phase := by
  simp only [Block.references, forall_mem_append] at h
  obtain ⟨⟨⟨⟨hinstructions, htools⟩, hphases⟩, hresult⟩, htransitions⟩ := h
  simp only [validatePhaseReferences, checkReferences_congr hinstructions,
    checkReferences_congr htools, phasePositions_congr hphases, validateResultFrom_congr hresult,
    validateTransitions_congr htransitions]

theorem validateFlowReferences_congr {flow : FlowBlock} (h : ∀ x ∈ Block.references .flow flow,
      registry.namedBlock L x.1 x.2 = other.namedBlock L x.1 x.2) :
    registry.validateFlowReferences L flow = other.validateFlowReferences L flow := by
  simp only [Block.references, forall_mem_append] at h
  obtain ⟨⟨hphases, hsubflows⟩, htransitions⟩ := h
  have hforM := forM_congr fun reference (hreference : reference ∈ flow.subflowRefs) =>
    congrArg (fun found => do let _ ← found) (require_congr
      (hsubflows (.flow, reference) (mem_map_of_mem hreference)) .flow flow.identity.id)
  simp only [validateFlowReferences, phasePositions_congr hphases, hforM,
    validateTransitions_congr htransitions]

/-! ## Restrictions -/

/-- What one registry has of another one: the blocks with certain kinds and ids. -/
structure Restricts (registry whole : ResolvedRegistry) (P : BlockKey → Prop) : Prop where
  blocks : ∀ kind (id : String) (block : Block kind), (registry.blocks kind)[id]? = some block ↔
      (whole.blocks kind)[id]? = some block ∧ P (kind, id)
  names : ∀ kind (name id : String), (registry.nameIds kind)[name]? = some id ↔
    (whole.nameIds kind)[name]? = some id ∧ P (kind, id)

variable {whole : ResolvedRegistry} {P : BlockKey → Prop}

theorem Restricts.namedBlock (h : registry.Restricts whole P) (hwhole : whole.WellNamed)
    (hnfc : L.nfc reference = reference) :
    registry.namedBlock L kind reference = some block ↔
      whole.namedBlock L kind reference = some block ∧
        P (kind, (Block.identity kind block).id) := by
  simp only [ResolvedRegistry.namedBlock, hnfc, Option.or_eq_some_iff, Option.bind_eq_some_iff]
  constructor
  · rintro (hfound | ⟨-, id, hname, hfound⟩)
    · obtain ⟨hfound, hin⟩ := (h.blocks _ _ _).mp hfound
      rw [hwhole.id_eq hfound]
      exact ⟨.inl hfound, hin⟩
    · obtain ⟨hfound, hin⟩ := (h.blocks _ _ _).mp hfound
      obtain ⟨hname, -⟩ := (h.names _ _ _).mp hname
      rw [hwhole.id_eq hfound]
      refine ⟨?_, hin⟩
      -- Were the reference an id too, it would be the id of the block with that name.
      cases hid : (whole.blocks kind)[reference]? with
      | none => exact .inr ⟨rfl, id, hname, hfound⟩
      | some clash =>
        rw [hwhole.unambiguous hname hid, hfound] at hid
        exact .inl hid.symm
  · rintro ⟨hfound | ⟨hnone, id, hname, hfound⟩, hin⟩
    · rw [hwhole.id_eq hfound] at hin
      exact .inl ((h.blocks _ _ _).mpr ⟨hfound, hin⟩)
    · rw [hwhole.id_eq hfound] at hin
      refine .inr ⟨?_, id, (h.names _ _ _).mpr ⟨hname, hin⟩, (h.blocks _ _ _).mpr ⟨hfound, hin⟩⟩
      rw [Option.eq_none_iff_forall_ne_some]
      intro clash hclash
      rw [((h.blocks _ _ _).mp hclash).1] at hnone
      cases hnone

/-- A part that contains what its blocks need. -/
def ClosedUnder (L : ScriptLibraries) (whole : ResolvedRegistry) (P : BlockKey → Prop) : Prop :=
  ∀ kind (id : String) (block : Block kind), (whole.blocks kind)[id]? = some block →
    P (kind, id) → ∀ x ∈ Block.references kind block, ∀ target,
      whole.namedBlock L x.1 x.2 = some target → P (x.1, (Block.identity x.1 target).id)

section Part

variable (hwhole : whole.Checked L) (hclosed : ClosedUnder L whole P)
  (h : registry.Restricts whole P)

include hwhole hclosed h

variable {kind : RegistryBlockKind} {id : String} {block : Block kind}
    {x : BlockKey} {nesting : Nesting}

/-- The blocks of the part refer to the same blocks as before. -/
theorem Restricts.namedBlock_eq (hblock : (registry.blocks kind)[id]? = some block)
    (hx : x ∈ Block.references kind block) :
    registry.namedBlock L x.1 x.2 = whole.namedBlock L x.1 x.2 := by
  obtain ⟨hfound, hin⟩ := (h.blocks _ _ _).mp hblock
  obtain ⟨target, htarget⟩ := hwhole.resolves hfound x hx
  rw [htarget]
  exact (h.namedBlock hwhole.wellNamed (hwhole.normal hfound x hx)).mpr
    ⟨htarget, hclosed _ _ _ hfound hin x hx target htarget⟩

theorem Restricts.child (hfollows : nesting.Follows) {next : String}
    (hchild : registry.Child L nesting id next) : whole.Child L nesting id next := by
  obtain ⟨block, hblock, reference, hreference, child, hnamed, rfl⟩ := hchild
  rw [h.namedBlock_eq hwhole hclosed hblock (hfollows.mem block reference hreference)] at hnamed
  exact ⟨block, ((h.blocks _ _ _).mp hblock).1, reference, hreference, child, hnamed, rfl⟩

theorem Restricts.withinLimits (hfollows : nesting.Follows)
    (hlimits : whole.WithinLimits nesting (whole.Child L nesting)) :
    registry.WithinLimits nesting (registry.Child L nesting) := by
  have hsub : ∀ a b, registry.Child L nesting a b → whole.Child L nesting a b := fun a b =>
    h.child hwhole hclosed hfollows
  refine ⟨fun id hcycle => hlimits.acyclic id (Relation.TransGen.mono hsub _ _ hcycle), fun chain hchain => ?_,
    fun id block hblock => hlimits.fanout id block ((h.blocks _ _ _).mp hblock).1⟩
  exact hlimits.chains chain (hchain.imp hsub)

/-- The checks of the references go through for the part. -/
theorem Restricts.validateReferences (hnamed : registry.WellNamed)
    (hvalid : whole.validateReferences L = .ok ()) : registry.validateReferences L = .ok () := by
  rw [ResolvedRegistry.validateReferences, check_bind_eq_ok, check_bind_eq_ok,
    check_bind_eq_ok] at hvalid ⊢
  obtain ⟨hphases, hflows, -, -⟩ := hvalid
  have hphases := forM_eq_ok.mp hphases
  have hflows := forM_eq_ok.mp hflows
  have hwalk : ∀ {nesting : Nesting}, nesting.Follows → 0 < nesting.maxDepth →
      whole.WithinLimits nesting (whole.Child L nesting) →
      registry.validateCycles L nesting = .ok () := by
    intro nesting hfollows hdepth hlimits
    refine (hnamed.visitAll_iff hfollows (fun hblock x hx => ?_) hdepth
      fun id => Std.ExtTreeMap.mem_keys).mpr (h.withinLimits hwhole hclosed hfollows hlimits)
    rw [h.namedBlock_eq hwhole hclosed hblock hx]
    exact hwhole.resolves ((h.blocks _ _ _).mp hblock).1 x hx
  refine ⟨forM_eq_ok.mpr fun phase hphase => ?_, forM_eq_ok.mpr fun flow hflow => ?_,
    hwalk phaseNesting_follows (by decide) hwhole.phases,
    hwalk flowNesting_follows (by decide) hwhole.flows⟩
  · obtain ⟨id, hid⟩ := StringMap.mem_inOrder.mp hphase
    rw [validatePhaseReferences_congr fun x hx => h.namedBlock_eq hwhole hclosed hid hx]
    exact hphases phase (StringMap.mem_inOrder.mpr ⟨id, ((h.blocks _ _ _).mp hid).1⟩)
  · obtain ⟨id, hid⟩ := StringMap.mem_inOrder.mp hflow
    rw [validateFlowReferences_congr fun x hx => h.namedBlock_eq hwhole hclosed hid hx]
    exact hflows flow (StringMap.mem_inOrder.mpr ⟨id, ((h.blocks _ _ _).mp hid).1⟩)

/-- Names are written as the same ids. -/
theorem Restricts.canonicalizeReference_eq (hblock : (registry.blocks kind)[id]? = some block)
    (hx : x ∈ Block.references kind block) :
    canonicalizeReference (registry.nameIds x.1) x.2 =
      canonicalizeReference (whole.nameIds x.1) x.2 := by
  obtain ⟨hfound, hin⟩ := (h.blocks _ _ _).mp hblock
  obtain ⟨target, htarget⟩ := hwhole.resolves hfound x hx
  have hwritten := (hwhole.resolve hfound hx htarget).1
  have htargetIn := hclosed _ _ _ hfound hin x hx target htarget
  rw [← hwritten] at htargetIn
  unfold canonicalizeReference at htargetIn ⊢
  cases hname : (whole.nameIds x.1)[x.2]? with
  | some targetId =>
    rw [hname] at htargetIn
    rw [(h.names _ _ _).mpr ⟨hname, htargetIn⟩]
  | none =>
    have hnone : (registry.nameIds x.1)[x.2]? = none := by
      rw [Option.eq_none_iff_forall_ne_some]
      intro targetId htargetId
      rw [((h.names _ _ _).mp htargetId).1] at hname
      cases hname
    rw [hnone]

theorem Restricts.withCanonicalReferences :
    registry.withCanonicalReferences.Restricts whole.withCanonicalReferences P := by
  have hsame : ∀ kind (id : String) (block : Block kind), (registry.blocks kind)[id]? = some block →
      Block.withReferences registry.nameIds kind block =
        Block.withReferences whole.nameIds kind block := fun kind id block hblock =>
    withReferences_congr fun x hx => h.canonicalizeReference_eq hwhole hclosed hblock hx
  refine ⟨fun kind id block => ?_, h.names⟩
  rw [withCanonicalReferences_get, withCanonicalReferences_get]
  constructor
  · rintro ⟨found, hfound, rfl⟩
    obtain ⟨hwholeFound, hin⟩ := (h.blocks _ _ _).mp hfound
    exact ⟨⟨found, hwholeFound, hsame _ _ _ hfound⟩, hin⟩
  · rintro ⟨⟨found, hfound, rfl⟩, hin⟩
    have hpart := (h.blocks _ _ _).mpr ⟨hfound, hin⟩
    exact ⟨found, hpart, (hsame _ _ _ hpart).symm⟩

end Part

/-! ## Loading a part -/

/-- The block with one kind and id needs the block with the other kind and id. -/
def DependsOn (registry : ResolvedRegistry) (x y : BlockKey) : Prop :=
  ∃ block, (registry.blocks x.1)[x.2]? = some block ∧ y ∈ Block.dependencies x.1 block

variable (L whole) in
/-- A block has a dependency on the block with that kind and id. -/
def Needs (kind : RegistryBlockKind) (block : Block kind) (key : BlockKey) :
    Prop :=
  ∃ x ∈ Block.dependencies kind block, ∃ target,
    whole.namedBlock L x.1 x.2 = some target ∧ key = (x.1, (Block.identity x.1 target).id)

theorem Checked.dependsOn_iff (h : whole.Checked L) :
    whole.withCanonicalReferences.DependsOn x y ↔
      ∃ block, (whole.blocks x.1)[x.2]? = some block ∧ whole.Needs L x.1 block y := by
  constructor
  · rintro ⟨_, hresolved, hy⟩
    obtain ⟨block, hblock, rfl⟩ := withCanonicalReferences_get.mp hresolved
    rw [dependencies_withReferences] at hy
    obtain ⟨z, hz, rfl⟩ := mem_map.mp hy
    have hreference := dependencies_subset _ _ z hz
    obtain ⟨target, htarget⟩ := h.resolves hblock z hreference
    exact ⟨block, hblock, z, hz, target, htarget,
      congrArg (Prod.mk z.1) (h.resolve hblock hreference htarget).1⟩
  · rintro ⟨block, hblock, z, hz, target, htarget, rfl⟩
    refine ⟨_, withCanonicalReferences_get.mpr ⟨block, hblock, rfl⟩, ?_⟩
    rw [dependencies_withReferences]
    exact mem_map.mpr ⟨z, hz, congrArg (Prod.mk z.1)
      (h.resolve hblock (dependencies_subset _ _ z hz) htarget).1⟩

/-- An end of a transition is one of the children. -/
theorem GoesForward.child {transition : PhaseTransition}
    (h : whole.GoesForward L references transition) (hx : x ∈ transition.references)
    (htarget : whole.namedBlock L x.1 x.2 = some target) :
    x.1 = .phase ∧ ∃ reference ∈ references, ∃ found,
      whole.namedBlock L x.1 reference = some found ∧
      (Block.identity x.1 found).id = (Block.identity x.1 target).id := by
  obtain ⟨_, _, _, source, destination, r, r', p, p', hsource, hdestination, hr, hr', hp, hp',
    hpid, hpid'⟩ := h
  simp only [PhaseTransition.references, mem_cons, not_mem_nil, or_false] at hx
  rcases hx with rfl | rfl
  · rw [hsource, Option.some.injEq] at htarget
    subst htarget
    exact ⟨rfl, r, mem_of_getElem? hr, p, hp, hpid⟩
  · rw [hdestination, Option.some.injEq] at htarget
    subst htarget
    exact ⟨rfl, r', mem_of_getElem? hr', p', hp', hpid'⟩

/-- The ends of a transition and the supplier of a result are among the children. -/
theorem Checked.needs_of_reference (h : whole.Checked L)
    {id : String} (hblock : (whole.blocks kind)[id]? = some block)
    (hx : x ∈ Block.references kind block) (htarget : whole.namedBlock L x.1 x.2 = some target) :
    whole.Needs L kind block (x.1, (Block.identity x.1 target).id) := by
  have hdirect : x ∈ Block.dependencies kind block →
      whole.Needs L kind block (x.1, (Block.identity x.1 target).id) := fun hmem =>
    ⟨x, hmem, target, htarget, rfl⟩
  have hends : ∀ {references : List String} {transition : PhaseTransition},
      (∀ reference ∈ references, (.phase, reference) ∈ Block.dependencies kind block) →
      whole.GoesForward L references transition → x ∈ transition.references →
      whole.Needs L kind block (x.1, (Block.identity x.1 target).id) := by
    intro references transition hmem hforward hend
    obtain ⟨hkind, reference, hreference, found, hfound, hid⟩ := hforward.child hend htarget
    exact ⟨(x.1, reference), hkind ▸ hmem reference hreference, found, hfound,
      congrArg (Prod.mk x.1) hid.symm⟩
  cases kind with
  | tool | instruction => exact hdirect hx
  | phase =>
    rw [Block.references, mem_append, mem_append] at hx
    rcases hx with (hx | hx) | hx
    · exact hdirect hx
    · obtain ⟨resultFrom, hresultFrom, rfl⟩ := mem_map.mp hx
      obtain ⟨result, hresult, reference, hreference, child, hchild, hid⟩ :=
        h.resultIsChild hblock resultFrom (Option.mem_toList.mp hresultFrom)
      rw [hresult, Option.some.injEq] at htarget
      subst htarget
      exact ⟨(.phase, reference), mem_append_right _ (mem_map_of_mem hreference), child,
        hchild, congrArg (Prod.mk RegistryBlockKind.phase) hid.symm⟩
    · obtain ⟨transition, htransition, hend⟩ := mem_flatMap.mp hx
      exact hends (fun reference hreference => mem_append_right _ (mem_map_of_mem hreference))
        (h.phaseForward hblock transition htransition) hend
  | flow =>
    rw [Block.references, mem_append] at hx
    rcases hx with hx | hx
    · exact hdirect hx
    · obtain ⟨transition, htransition, hend⟩ := mem_flatMap.mp hx
      exact hends (fun reference hreference => mem_append_left _ (mem_map_of_mem hreference))
        (h.flowForward hblock transition htransition) hend

theorem Checked.closedUnder (h : whole.Checked L)
    (hP : ∀ x y, P x → whole.withCanonicalReferences.DependsOn x y → P y) :
    ClosedUnder L whole P := by
  intro kind id block hblock hin x hx target htarget
  exact hP (kind, id) _ hin
    (h.dependsOn_iff.mpr ⟨block, hblock, h.needs_of_reference hblock hx htarget⟩)

end ResolvedRegistry

/-- The kind and the id of a block. -/
def RegistryBlock.key (block : RegistryBlock) : BlockKey := (block.kind, block.id)

namespace ResolvedRegistry

variable {L : ScriptLibraries} {P : BlockKey → Prop}

/-- The canonical form of a block has its kind and its id. -/
theorem key_of_accepted {source block : RegistryBlock} (h : accepted L source = some block) :
    block.key = source.key := by
  have hprepared := isPrepared_of_prepare (accepted_eq_some.mp h).1
  have hid : block.id = L.nfc source.id := by
    rw [hprepared.canonical, RegistryBlock.id, RegistryBlock.identity_canonical]
    rfl
  have hvalid := hprepared.validId
  rw [hid] at hvalid
  rw [RegistryBlock.key, RegistryBlock.key, hprepared.kind_eq, hid, L.nfc_blockId _ hvalid]

/-- Blocks that are all the blocks of a part that needs nothing else load, to that part of the
    registry. -/
theorem fromBlocks_restrict {sources part : List RegistryBlock} {resolved : ResolvedRegistry}
    (hload : fromBlocks L sources = .ok resolved)
    (hP : ∀ x y, P x → resolved.DependsOn x y → P y) (hnodup : (part.map (·.key)).Nodup)
    (hpart : ∀ source, source ∈ part ↔ source ∈ sources ∧ P source.key) :
    ∃ registry, fromBlocks L part = .ok registry ∧ registry.Restricts resolved P := by
  obtain ⟨whole, hinsert, hvalid, rfl⟩ := fromBlocks_eq_ok.mp hload
  have hchecked := checked_of_validateReferences hinsert hvalid
  obtain ⟨haccept, hholds⟩ := holds_insertAll hinsert
  have hmem : ∀ block, block ∈ part.filterMap (accepted L) ↔
      block ∈ sources.filterMap (accepted L) ∧ P block.key := by
    intro block
    simp only [mem_filterMap, hpart]
    constructor
    · rintro ⟨source, ⟨hsource, hin⟩, haccepted⟩
      rw [key_of_accepted haccepted]
      exact ⟨⟨source, hsource, haccepted⟩, hin⟩
    · rintro ⟨⟨source, hsource, haccepted⟩, hin⟩
      rw [key_of_accepted haccepted] at hin
      exact ⟨source, ⟨hsource, hin⟩, haccepted⟩
  have hacceptPart : Acceptable L part := by
    refine ⟨fun source hsource => haccept.each source ((hpart source).mp hsource).1, ?_⟩
    have : Std.Symm fun left right : RegistryBlock => ¬ left.Clashes right :=
      ⟨fun _ _ hnot hclash => hnot hclash.symm⟩
    rw [pairwise_filterMap]
    refine (pairwise_map.mp hnodup).imp_of_mem fun {left right} hleft hright hkeys => ?_
    intro block hblock block' hblock'
    have hdiffer : block ≠ block' := by
      rintro rfl
      exact hkeys ((key_of_accepted hblock).symm.trans (key_of_accepted hblock'))
    exact haccept.apart.forall
      (mem_filterMap.mpr ⟨left, ((hpart left).mp hleft).1, hblock⟩)
      (mem_filterMap.mpr ⟨right, ((hpart right).mp hright).1, hblock'⟩) hdiffer
  obtain ⟨registry, hregistry⟩ := holds_empty.exists_insertAll hacceptPart (by simp)
  obtain ⟨-, hholdsPart⟩ := holds_insertAll hregistry
  have hrestricts : registry.Restricts whole P := by
    refine ⟨fun kind id block => ?_, fun kind name id => ?_⟩
    · rw [hholdsPart.blocks, hholds.blocks, hmem]
      constructor
      · rintro ⟨⟨hblock, hin⟩, rfl⟩
        exact ⟨⟨hblock, rfl⟩, hin⟩
      · rintro ⟨⟨hblock, rfl⟩, hin⟩
        exact ⟨⟨hblock, hin⟩, rfl⟩
    · rw [hholdsPart.names, hholds.names]
      constructor
      · rintro ⟨block, hblock, rfl, hname, rfl⟩
        obtain ⟨hblock, hin⟩ := (hmem block).mp hblock
        exact ⟨⟨block, hblock, rfl, hname, rfl⟩, hin⟩
      · rintro ⟨⟨block, hblock, rfl, hname, rfl⟩, hin⟩
        exact ⟨block, (hmem block).mpr ⟨hblock, hin⟩, rfl, hname, rfl⟩
  have hclosed := hchecked.closedUnder hP
  refine ⟨registry.withCanonicalReferences, fromBlocks_eq_ok.mpr ⟨registry, hregistry, ?_, rfl⟩,
    hrestricts.withCanonicalReferences hchecked hclosed⟩
  exact hrestricts.validateReferences hchecked hclosed (hholdsPart.wellNamed hacceptPart.apart)
    hvalid

end ResolvedRegistry

end Watershed.Script
