/-
  A registry that loads is sound: its references are ids of blocks of the right kind, its graphs
  have no cycle and stay within their limits, and its transitions go forward.
-/
import Watershed.Script.Naming
import Watershed.Script.Walks

namespace Watershed.Script

open Watershed.Proto List PhaseBlock StringMap

/-! ## References -/

def PhaseTransition.references (transition : PhaseTransition) : List BlockKey :=
  [(.phase, transition.fromPhaseRef), (.phase, transition.toPhaseRef)]

/-- Every reference of a block, with the kind of block that it is to. -/
def Block.references : (kind : RegistryBlockKind) → Block kind → List BlockKey
  | .tool, _ | .instruction, _ => []
  | .phase, phase =>
    (instructionRefs phase).map (.instruction, ·) ++
      (toolRefs phase).map (.tool, ·) ++ (phaseRefs phase).map (.phase, ·) ++
      (resultFrom phase).toList.map (.phase, ·) ++
      (transitions phase).flatMap PhaseTransition.references
  | .flow, flow =>
    (FlowBlock.phaseRefs flow).map (.phase, ·) ++ (FlowBlock.subflowRefs flow).map (.flow, ·) ++
      (FlowBlock.transitions flow).flatMap PhaseTransition.references

/-- Writing references as ids does that to each of them. -/
theorem references_withReferences (names : RegistryBlockKind → StringMap String)
    (kind : RegistryBlockKind) (block : Block kind) :
    Block.references kind (Block.withReferences names kind block) =
      (Block.references kind block).map fun x => (x.1, canonicalizeReference (names x.1) x.2) := by
  cases kind <;> simp [Block.references, Block.withReferences, withReferences,
    FlowBlock.withReferences, flatMap_map, map_flatMap, PhaseTransition.references,
    PhaseTransition.withReferences, Option.toList_map, Function.comp_def]

theorem references_canonical (L : Libraries) (kind : RegistryBlockKind) (block : Block kind) :
    Block.references kind (Block.canonical L kind block) =
      (Block.references kind block).map fun x => (x.1, L.nfc x.2) := by
  cases kind <;> simp [Block.references, Block.canonical, canonical, FlowBlock.canonical,
    flatMap_map, map_flatMap, PhaseTransition.references, PhaseTransition.canonical,
    Option.toList_map, Function.comp_def]

theorem identity_withReferences (names : RegistryBlockKind → StringMap String)
    (kind : RegistryBlockKind) (block : Block kind) :
    Block.identity kind (Block.withReferences names kind block) = Block.identity kind block := by
  cases kind <;> rfl

/-- The references of a nesting are among those of its blocks. -/
structure Nesting.Follows (nesting : Nesting) : Prop where
  mem : ∀ block, ∀ reference ∈ nesting.references block,
    (nesting.kind, reference) ∈ Block.references nesting.kind block
  withReferences : ∀ names block,
    nesting.references (Block.withReferences names nesting.kind block) =
      (nesting.references block).map (canonicalizeReference (names nesting.kind))

theorem phaseNesting_follows : phaseNesting.Follows := by
  refine ⟨fun block reference hreference => ?_, fun names block => rfl⟩
  simp only [phaseNesting, Block.references, mem_append, mem_map]
  exact .inl (.inl (.inr ⟨reference, hreference, rfl⟩))

theorem flowNesting_follows : flowNesting.Follows := by
  refine ⟨fun block reference hreference => ?_, fun names block => rfl⟩
  simp only [flowNesting, Block.references, mem_append, mem_map]
  exact .inl (.inr ⟨reference, hreference, rfl⟩)

namespace ResolvedRegistry

variable {L : ScriptLibraries} {registry : ResolvedRegistry}

/-! ## Names and ids -/

/-- Ids and names stand for one block each. -/
structure WellNamed (registry : ResolvedRegistry) : Prop where
  id_eq : ∀ {kind} {id : String} {block : Block kind}, (registry.blocks kind)[id]? = some block →
    (Block.identity kind block).id = id
  of_name : ∀ {kind} {name id : String}, (registry.nameIds kind)[name]? = some id →
    ∃ block, (registry.blocks kind)[id]? = some block
  unambiguous : ∀ {kind} {name id : String}, (registry.nameIds kind)[name]? = some id →
    ∀ {block : Block kind}, (registry.blocks kind)[name]? = some block → name = id

theorem Holds.wellNamed {contents : List RegistryBlock} (h : Holds registry contents)
    (hapart : contents.Pairwise fun left right => ¬ left.Clashes right) : registry.WellNamed := by
  refine ⟨fun hblock => ((h.blocks _ _ _).mp hblock).2, ?_, ?_⟩
  · intro kind name id hname
    obtain ⟨⟨_, block⟩, hmem, rfl, -, hid⟩ := (h.names _ _ _).mp hname
    exact ⟨block, (h.blocks _ _ _).mpr ⟨hmem, hid⟩⟩
  · intro kind name id hname other hother
    obtain ⟨block, hmem, rfl, hblockName, rfl⟩ := (h.names _ _ _).mp hname
    obtain ⟨hotherMem, hotherId⟩ := (h.blocks _ _ _).mp hother
    -- The block with this name and the block with this id are one: they would clash.
    by_contra hne
    have hdiffer : block ≠ ⟨block.kind, other⟩ := by
      intro heq
      have hid : block.id = name := by
        rw [heq]
        exact hotherId
      exact hne hid.symm
    have : Std.Symm fun left right : RegistryBlock => ¬ left.Clashes right :=
      ⟨fun _ _ hnot hclash => hnot hclash.symm⟩
    exact hapart.forall hmem hotherMem hdiffer ⟨rfl, .inr (.inl (hblockName.trans hotherId.symm))⟩

variable {fromKind : RegistryBlockKind} {positions : StringMap Nat} {kind : RegistryBlockKind}
    {references : List String} {fromId : String}
variable {reference : String} {transition : PhaseTransition} {phase : PhaseBlock}
  {block : Block kind}

/-- What a reference in normal form resolves to is the block with the id that it is written as. -/
theorem WellNamed.resolve (h : registry.WellNamed)
    (hnfc : L.nfc reference = reference)
    (hblock : registry.namedBlock L kind reference = some block) :
    canonicalizeReference (registry.nameIds kind) reference = (Block.identity kind block).id ∧
      (registry.blocks kind)[(Block.identity kind block).id]? = some block := by
  rw [namedBlock, hnfc] at hblock
  cases hid : (registry.blocks kind)[reference]? with
  | some found =>
    rw [hid, Option.some_or, Option.some.injEq] at hblock
    subst hblock
    rw [h.id_eq hid]
    refine ⟨?_, hid⟩
    unfold canonicalizeReference
    cases hname : (registry.nameIds kind)[reference]? with
    | none => rfl
    | some id => exact (h.unambiguous hname hid).symm
  | none =>
    rw [hid, Option.none_or, Option.bind_eq_some_iff] at hblock
    obtain ⟨id, hname, hfound⟩ := hblock
    rw [h.id_eq hfound]
    refine ⟨?_, hfound⟩
    rw [canonicalizeReference, hname, Option.getD_some]

theorem namedBlock_of_id {id : String}
    (h : (registry.blocks kind)[id]? = some block) : registry.namedBlock L kind id = some block := by
  rw [namedBlock, h, Option.some_or]

theorem get_of_namedBlock (hids : ∀ {id : String} {found : Block kind},
      (registry.blocks kind)[id]? = some found → (Block.identity kind found).id = id)
    (hblock : registry.namedBlock L kind reference = some block) :
    (registry.blocks kind)[(Block.identity kind block).id]? = some block := by
  rw [namedBlock, Option.or_eq_some_iff, Option.bind_eq_some_iff] at hblock
  rcases hblock with hfound | ⟨-, id, -, hfound⟩ <;> rwa [hids hfound]

/-! ## Checked references -/

theorem resolves_of_checkReferences {phaseId : String} {seen references : List String}
    (h : registry.checkReferences L kind phaseId seen references = .ok ()) :
    ∀ reference ∈ references, ∃ block, registry.namedBlock L kind reference = some block := by
  induction references generalizing seen with
  | nil => simp
  | cons reference references ih =>
    simp only [checkReferences, bind_eq_ok, require_eq_ok] at h
    obtain ⟨block, hblock, h⟩ := h
    split at h
    · cases h
    · exact forall_mem_cons.mpr ⟨⟨block, hblock⟩, ih h⟩

/-- The positions are those of the references, which all resolve. -/
theorem phasePositions_eq_ok {index : Nat} {positions final : StringMap Nat}
    (h : registry.phasePositions L fromKind fromId index positions references = .ok final) :
    (∀ reference ∈ references, ∃ phase, registry.namedBlock L .phase reference = some phase) ∧
    ∀ (id : String) (place : Nat), final[id]? = some place → positions[id]? = some place ∨
      ∃ offset reference phase, place = index + offset ∧ references[offset]? = some reference ∧
        registry.namedBlock L .phase reference = some phase ∧
        (identity phase).id = id := by
  induction references generalizing index positions with
  | nil =>
    cases h
    exact ⟨by simp, fun id place hplace => .inl hplace⟩
  | cons reference references ih =>
    simp only [phasePositions, bind_eq_ok, require_eq_ok] at h
    obtain ⟨phase, hphase, h⟩ := h
    split at h
    · cases h
    · obtain ⟨hresolve, hplaces⟩ := ih h
      refine ⟨forall_mem_cons.mpr ⟨⟨phase, hphase⟩, hresolve⟩, fun id place hplace => ?_⟩
      rcases hplaces id place hplace with hbefore | ⟨offset, other, found, rfl, hother, hfound⟩
      · rw [get_insert] at hbefore
        split at hbefore
        · rename_i hid
          cases hbefore
          exact .inr ⟨0, reference, phase, rfl, rfl, hphase, hid⟩
        · exact .inl hbefore
      · exact .inr ⟨offset + 1, other, found, by omega, hother, hfound⟩

/-- The ends of a transition are two places, the second one later. -/
theorem validateTransition_eq_ok
    (h : registry.validateTransition L positions fromKind fromId transition = .ok ()) :
    ∃ source target first second,
      registry.namedBlock L .phase transition.fromPhaseRef = some source ∧
      registry.namedBlock L .phase transition.toPhaseRef = some target ∧
      positions[(identity source).id]? = some first ∧
      positions[(identity target).id]? = some second ∧ first < second := by
  simp only [validateTransition, bind_eq_ok, require_eq_ok] at h
  obtain ⟨source, hsource, target, htarget, h⟩ := h
  split at h
  · cases h
  · cases h
  · rename_i first second hfirst hsecond
    obtain ⟨hlt, h⟩ := ite_error_eq_ok.mp h
    exact ⟨source, target, first, second, hsource, htarget, hfirst, hsecond, Nat.lt_of_not_le hlt⟩

variable (L registry) in
/-- Every reference of a block resolves to a block of its kind. -/
def Resolves (kind : RegistryBlockKind) (block : Block kind) : Prop :=
  ∀ x ∈ Block.references kind block, ∃ target, registry.namedBlock L x.1 x.2 = some target

variable (L registry) in
/-- A transition goes from one of the references to a later one. -/
def GoesForward (references : List String) (transition : PhaseTransition) : Prop :=
  ∃ first second : Nat, first < second ∧
    ∃ source target firstReference secondReference firstPhase secondPhase,
      registry.namedBlock L .phase transition.fromPhaseRef = some source ∧
      registry.namedBlock L .phase transition.toPhaseRef = some target ∧
      references[first]? = some firstReference ∧ references[second]? = some secondReference ∧
      registry.namedBlock L .phase firstReference = some firstPhase ∧
      registry.namedBlock L .phase secondReference = some secondPhase ∧
      (identity firstPhase).id = (identity source).id ∧
      (identity secondPhase).id = (identity target).id

/-- Transitions that were checked against the positions of references. -/
theorem goesForward_of_validateTransitions {transitions : List PhaseTransition}
    (hpositions : registry.phasePositions L fromKind fromId 0 ∅ references = .ok positions)
    (htransitions : registry.validateTransitions L positions fromKind fromId transitions = .ok ()) :
    ∀ transition ∈ transitions, registry.GoesForward L references transition := by
  intro transition htransition
  obtain ⟨source, target, first, second, hsource, htarget, hfirst, hsecond, hlt⟩ :=
    validateTransition_eq_ok (forM_eq_ok.mp htransitions transition htransition)
  obtain ⟨-, hplaces⟩ := phasePositions_eq_ok hpositions
  rcases hplaces _ _ hfirst with hnone | ⟨_, r, p, rfl, hr, hp, hpid⟩
  · simp at hnone
  rcases hplaces _ _ hsecond with hnone | ⟨_, r', p', rfl, hr', hp', hpid'⟩
  · simp at hnone
  rw [Nat.zero_add, Nat.zero_add] at hlt
  exact ⟨_, _, hlt, source, target, r, r', p, p', hsource, htarget, hr, hr', hp, hp', hpid, hpid'⟩

theorem resolves_of_goesForward (h : registry.GoesForward L references transition) :
    ∀ x ∈ transition.references, ∃ target, registry.namedBlock L x.1 x.2 = some target := by
  obtain ⟨_, _, _, source, target, _, _, _, _, hsource, htarget, -⟩ := h
  simp only [PhaseTransition.references, mem_cons, not_mem_nil, or_false]
  rintro _ (rfl | rfl)
  · exact ⟨source, hsource⟩
  · exact ⟨target, htarget⟩

variable (L registry) in
/-- The Phase that supplies the result of another one is a child of it. -/
def ResultIsChild (phase : PhaseBlock) : Prop :=
  ∀ resultFrom, phase.resultFrom = some resultFrom → ∃ result,
    registry.namedBlock L .phase resultFrom = some result ∧
    ∃ reference ∈ phase.phaseRefs, ∃ child, registry.namedBlock L .phase reference = some child ∧
      (identity child).id = (identity result).id

theorem resultIsChild_of_validateResultFrom (hpositions :
      registry.phasePositions L fromKind fromId 0 ∅ phase.phaseRefs = .ok positions)
    (h : registry.validateResultFrom L positions phase = .ok ()) :
    registry.ResultIsChild L phase := by
  intro resultFrom hresultFrom
  rw [validateResultFrom, hresultFrom] at h
  simp only [bind_eq_ok, require_eq_ok] at h
  obtain ⟨result, hresult, h⟩ := h
  refine ⟨result, hresult, ?_⟩
  obtain ⟨hcontains, h⟩ := ite_error_eq_ok.mp h
  rw [Bool.not_eq_true, Bool.not_eq_false', contains_eq_true] at hcontains
  obtain ⟨place, hplace⟩ := hcontains
  rcases (phasePositions_eq_ok hpositions).2 _ _ hplace with hnone | ⟨_, r, p, _, hr, hp, hpid⟩
  · simp at hnone
  · exact ⟨r, mem_of_getElem? hr, p, hp, hpid⟩

theorem validatePhaseReferences_sound (h : registry.validatePhaseReferences L phase = .ok ()) :
    registry.Resolves L .phase phase ∧
      (∀ transition ∈ phase.transitions, registry.GoesForward L phase.phaseRefs transition) ∧
      registry.ResultIsChild L phase := by
  rw [validatePhaseReferences, check_bind_eq_ok, check_bind_eq_ok, bind_eq_ok] at h
  obtain ⟨hinstructions, htools, positions, hpositions, h⟩ := h
  rw [check_bind_eq_ok] at h
  obtain ⟨hresult, htransitions⟩ := h
  have hforward := goesForward_of_validateTransitions hpositions htransitions
  have hchild := resultIsChild_of_validateResultFrom hpositions hresult
  refine ⟨?_, hforward, hchild⟩
  intro x hx
  simp only [Block.references, mem_append, mem_map, mem_flatMap, Option.mem_toList] at hx
  rcases hx with (((⟨r, hr, rfl⟩ | ⟨r, hr, rfl⟩) | ⟨r, hr, rfl⟩) | ⟨r, hr, rfl⟩) | ⟨t, ht, hx⟩
  · exact resolves_of_checkReferences hinstructions r hr
  · exact resolves_of_checkReferences htools r hr
  · exact (phasePositions_eq_ok hpositions).1 r hr
  · exact (hchild r hr).imp fun _ h => h.1
  · exact resolves_of_goesForward (hforward t ht) x hx

theorem validateFlowReferences_sound {flow : FlowBlock}
    (h : registry.validateFlowReferences L flow = .ok ()) :
    registry.Resolves L .flow flow ∧
      ∀ transition ∈ flow.transitions, registry.GoesForward L flow.phaseRefs transition := by
  rw [validateFlowReferences, bind_eq_ok] at h
  obtain ⟨positions, hpositions, h⟩ := h
  rw [check_bind_eq_ok, forM_eq_ok] at h
  obtain ⟨hsubflows, htransitions⟩ := h
  have hforward := goesForward_of_validateTransitions hpositions htransitions
  refine ⟨?_, hforward⟩
  intro x hx
  simp only [Block.references, mem_append, mem_map, mem_flatMap] at hx
  rcases hx with (⟨r, hr, rfl⟩ | ⟨r, hr, rfl⟩) | ⟨t, ht, hx⟩
  · exact (phasePositions_eq_ok hpositions).1 r hr
  · have hr := hsubflows r hr
    simp only [bind_eq_ok, require_eq_ok] at hr
    exact hr.imp fun _ h => h.1
  · exact resolves_of_goesForward (hforward t ht) x hx

/-! ## Graphs within their limits -/

section Graph

variable {nesting : Nesting}

variable (L registry nesting) in
/-- The block with an id has a reference to the block with the other id. -/
def Child (id next : String) : Prop :=
  ∃ block, (registry.blocks nesting.kind)[id]? = some block ∧
    ∃ reference ∈ nesting.references block, ∃ child,
      registry.namedBlock L nesting.kind reference = some child ∧
      (Block.identity nesting.kind child).id = next

variable (registry nesting) in
/-- A relation between ids has no cycle and no chain that is too long, and no block has too many
    references. -/
structure WithinLimits (R : String → String → Prop) : Prop where
  acyclic : ∀ id, ¬ Relation.TransGen R id id
  chains : ∀ chain, List.IsChain R chain → chain.length ≤ nesting.maxDepth
  fanout : ∀ (id : String) block, (registry.blocks nesting.kind)[id]? = some block →
    (nesting.references block).length ≤ nesting.maxFanout

variable {id next : String}

theorem edge_of_child (h : registry.Child L nesting id next) : registry.Edge L nesting id next := by
  obtain ⟨block, hblock, h⟩ := h
  exact ⟨block, namedBlock_of_id hblock, h⟩

variable (h : registry.WellNamed)
include h

/-- From a block of the registry an edge leads to another one. -/
theorem WellNamed.child_of_edge
    (hid : id ∈ registry.blocks nesting.kind) (hedge : registry.Edge L nesting id next) :
    registry.Child L nesting id next ∧ next ∈ registry.blocks nesting.kind := by
  obtain ⟨block, hblock⟩ := mem_iff.mp hid
  obtain ⟨found, hfound, reference, hreference, child, hchild, rfl⟩ := hedge
  rw [namedBlock_of_id hblock, Option.some.injEq] at hfound
  subst hfound
  exact ⟨⟨block, hblock, reference, hreference, child, hchild, rfl⟩,
    mem_iff.mpr ⟨child, get_of_namedBlock h.id_eq hchild⟩⟩

theorem WellNamed.heightLe_edge {n : Nat}
    (hid : id ∈ registry.blocks nesting.kind) (hheight : HeightLe (registry.Child L nesting) n id) :
    HeightLe (registry.Edge L nesting) n id := by
  induction n generalizing id with
  | zero => exact hheight
  | succ n ih =>
    intro next hedge
    obtain ⟨hchild, hnext⟩ := h.child_of_edge hid hedge
    exact ih hnext (hheight next hchild)

theorem WellNamed.mem_of_reflTransGen
    (hid : id ∈ registry.blocks nesting.kind)
    (hreach : Relation.ReflTransGen (registry.Edge L nesting) id next) :
    next ∈ registry.blocks nesting.kind := by
  induction hreach with
  | refl => exact hid
  | tail _ hedge ih => exact (h.child_of_edge ih hedge).2

/-- A walk over all blocks, in any order, accepts exactly the graphs within their limits. -/
theorem WellNamed.visitAll_iff (hfollows : nesting.Follows)
    (hresolves : ∀ {id : String} {block}, (registry.blocks nesting.kind)[id]? = some block →
      registry.Resolves L nesting.kind block) (hdepth : 0 < nesting.maxDepth) {order : List String}
    (horder : ∀ id, id ∈ order ↔ id ∈ registry.blocks nesting.kind) :
    registry.visitAll L nesting ∅ order = .ok () ↔
      registry.WithinLimits nesting (registry.Child L nesting) := by
  rw [ResolvedRegistry.visitAll_iff cached_empty]
  constructor
  · intro hall
    have hheight : ∀ id, HeightLe (registry.Child L nesting) nesting.maxDepth id := by
      intro id
      by_cases hid : id ∈ registry.blocks nesting.kind
      · exact (hall id ((horder id).mpr hid)).1.anti fun _ _ => edge_of_child
      · refine HeightLe.mono ?_ hdepth
        rintro next ⟨block, hblock, -⟩
        exact absurd (mem_iff.mpr ⟨block, hblock⟩) hid
    refine ⟨fun id => (hheight id).not_cyclic, fun chain hchain => ?_, fun id block hblock => ?_⟩
    · cases chain with
      | nil => exact Nat.zero_le _
      | cons id rest => exact (hheight id).chain_length_le hchain
    · have hid := (horder id).mpr (mem_iff.mpr ⟨block, hblock⟩)
      obtain ⟨found, hfound, hle, -⟩ := ((hall id hid).2 id .refl).resolves
      rw [namedBlock_of_id hblock, Option.some.injEq] at hfound
      exact hfound ▸ hle
  · intro hlimits id hid
    have hid := (horder id).mp hid
    refine ⟨h.heightLe_edge hid (HeightLe.of_chains fun rest hchain => ?_), fun next hnext => ?_⟩
    · exact hlimits.chains (id :: rest) hchain
    · obtain ⟨block, hblock⟩ := mem_iff.mp (h.mem_of_reflTransGen hid hnext)
      exact ⟨block, namedBlock_of_id hblock, hlimits.fanout next block hblock, fun reference hmem =>
        Option.isSome_iff_exists.mpr (hresolves hblock _ (hfollows.mem block reference hmem))⟩


omit h
end Graph

/-! ## A registry that loads -/

variable (L registry) in
/-- What the checks of the references establish, before references are written as ids. -/
structure Checked : Prop where
  wellNamed : registry.WellNamed
  normal : ∀ {kind} {id : String} {block : Block kind},
    (registry.blocks kind)[id]? = some block → ∀ x ∈ Block.references kind block, L.nfc x.2 = x.2
  resolves : ∀ {kind} {id : String} {block : Block kind},
    (registry.blocks kind)[id]? = some block → registry.Resolves L kind block
  phaseForward : ∀ {id : String} {phase : PhaseBlock}, (registry.blocks .phase)[id]? = some phase →
      ∀ transition ∈ phase.transitions, registry.GoesForward L phase.phaseRefs transition
  flowForward : ∀ {id : String} {flow : FlowBlock}, (registry.blocks .flow)[id]? = some flow →
    ∀ transition ∈ flow.transitions, registry.GoesForward L flow.phaseRefs transition
  resultIsChild : ∀ {id : String} {phase : PhaseBlock},
    (registry.blocks .phase)[id]? = some phase → registry.ResultIsChild L phase
  phases : registry.WithinLimits phaseNesting (registry.Child L phaseNesting)
  flows : registry.WithinLimits flowNesting (registry.Child L flowNesting)

variable {sources : List RegistryBlock} {kind : RegistryBlockKind} {resolved : ResolvedRegistry}
    {block : Block kind} {id : String}

/-- The references of blocks that went in are in normal form. -/
theorem normal_of_holds (h : Holds registry (sources.filterMap (accepted L)))
    (hblock : (registry.blocks kind)[id]? = some block) :
    ∀ x ∈ Block.references kind block, L.nfc x.2 = x.2 := by
  obtain ⟨hmem, -⟩ := (h.blocks _ _ _).mp hblock
  obtain ⟨⟨sourceKind, source⟩, -, haccepted⟩ := mem_filterMap.mp hmem
  have hcanonical := (isPrepared_of_prepare (accepted_eq_some.mp haccepted).1).canonical
  cases hcanonical
  intro x hx
  rw [references_canonical] at hx
  obtain ⟨y, -, rfl⟩ := mem_map.mp hx
  exact L.nfc_nfc y.2

theorem checked_of_validateReferences (hinsert : empty.insertAll L sources = .ok registry)
    (hvalid : registry.validateReferences L = .ok ()) : registry.Checked L := by
  obtain ⟨haccept, hholds⟩ := holds_insertAll hinsert
  have hnamed := hholds.wellNamed haccept.apart
  rw [validateReferences, check_bind_eq_ok, check_bind_eq_ok, check_bind_eq_ok] at hvalid
  obtain ⟨hphases, hflows, hphaseWalk, hflowWalk⟩ := hvalid
  have hphases := forM_eq_ok.mp hphases
  have hflows := forM_eq_ok.mp hflows
  have hphase : ∀ {id : String} {phase : PhaseBlock},
      (registry.blocks .phase)[id]? = some phase → _ := fun hid =>
    validatePhaseReferences_sound (hphases _ (mem_inOrder.mpr ⟨_, hid⟩))
  have hflow : ∀ {id : String} {flow : FlowBlock},
      (registry.blocks .flow)[id]? = some flow → _ := fun hid =>
    validateFlowReferences_sound (hflows _ (mem_inOrder.mpr ⟨_, hid⟩))
  have hresolves : ∀ {kind} {id : String} {block : Block kind},
      (registry.blocks kind)[id]? = some block → registry.Resolves L kind block := by
    intro kind id block hblock
    cases kind with
    | tool | instruction => exact fun x hx => absurd hx not_mem_nil
    | phase => exact (hphase hblock).1
    | flow => exact (hflow hblock).1
  have hwalk : ∀ {nesting : Nesting}, nesting.Follows → 0 < nesting.maxDepth →
      registry.validateCycles L nesting = .ok () →
      registry.WithinLimits nesting (registry.Child L nesting) := fun hfollows hdepth hok =>
    (hnamed.visitAll_iff hfollows hresolves hdepth fun id => Std.ExtTreeMap.mem_keys).mp hok
  exact ⟨hnamed, normal_of_holds hholds, hresolves, fun hid => (hphase hid).2.1,
    fun hid => (hflow hid).2, fun hid => (hphase hid).2.2, hwalk phaseNesting_follows (by decide) hphaseWalk,
    hwalk flowNesting_follows (by decide) hflowWalk⟩

/-! ## The resolved registry -/

theorem withCanonicalReferences_get :
    (registry.withCanonicalReferences.blocks kind)[id]? = some block ↔
      ∃ found, (registry.blocks kind)[id]? = some found ∧
        block = Block.withReferences registry.nameIds kind found := by
  rw [withCanonicalReferences, Std.ExtTreeMap.getElem?_map, Option.map_eq_some_iff]
  simp only [eq_comm]

/-- References resolve as before, to blocks with their references as ids. -/
theorem namedBlock_withCanonicalReferences (kind : RegistryBlockKind) (reference : String) :
    registry.withCanonicalReferences.namedBlock L kind reference =
      (registry.namedBlock L kind reference).map (Block.withReferences registry.nameIds kind) := by
  simp only [namedBlock, withCanonicalReferences, Std.ExtTreeMap.getElem?_map]
  cases (registry.blocks kind)[reference]? with
  | some block => rfl
  | none => cases (registry.nameIds kind)[L.nfc reference]? <;> rfl

variable (registry) in
/-- The block with an id names the other id. -/
def Names (nesting : Nesting) (id next : String) : Prop :=
  ∃ block, (registry.blocks nesting.kind)[id]? = some block ∧ next ∈ nesting.references block

/-- The first end of a transition is one of the references, and the second end a later one. -/
def Forward (references : List String) (transition : PhaseTransition) : Prop :=
  ∃ first second : Nat, first < second ∧ references[first]? = some transition.fromPhaseRef ∧
    references[second]? = some transition.toPhaseRef

/-- What holds of a registry with its references written as ids. -/
structure Sound (registry : ResolvedRegistry) : Prop where
  ids : ∀ kind (id : String) (block : Block kind), (registry.blocks kind)[id]? = some block →
    (Block.identity kind block).id = id
  references : ∀ kind (id : String) (block : Block kind), (registry.blocks kind)[id]? = some block →
      ∀ x ∈ Block.references kind block, x.2 ∈ registry.blocks x.1
  phases : registry.WithinLimits phaseNesting (registry.Names phaseNesting)
  flows : registry.WithinLimits flowNesting (registry.Names flowNesting)
  phaseTransitions : ∀ (id : String) (phase : PhaseBlock),
    (registry.blocks .phase)[id]? = some phase →
      ∀ transition ∈ phase.transitions, Forward phase.phaseRefs transition
  flowTransitions : ∀ (id : String) (flow : FlowBlock), (registry.blocks .flow)[id]? = some flow →
      ∀ transition ∈ flow.transitions, Forward flow.phaseRefs transition

theorem Sound.of_namedBlock (h : registry.Sound)
    (hblock : registry.namedBlock L kind reference = some block) :
    (registry.blocks kind)[(Block.identity kind block).id]? = some block :=
  get_of_namedBlock (h.ids _ _ _) hblock

variable (h : registry.Checked L) {nesting : Nesting}
include h

/-- Written as an id, a reference of a checked block is the id of what it resolves to. -/
theorem Checked.resolve (hblock : (registry.blocks kind)[id]? = some block)
    {x : BlockKey} (hx : x ∈ Block.references kind block) {target : Block x.1}
    (htarget : registry.namedBlock L x.1 x.2 = some target) :
    canonicalizeReference (registry.nameIds x.1) x.2 = (Block.identity x.1 target).id ∧
      (registry.blocks x.1)[(Block.identity x.1 target).id]? = some target :=
  h.wellNamed.resolve (h.normal hblock x hx) htarget

theorem Checked.names_iff
    (hfollows : nesting.Follows) {id next : String} :
    registry.withCanonicalReferences.Names nesting id next ↔ registry.Child L nesting id next := by
  constructor
  · rintro ⟨_, hresolved, hnext⟩
    obtain ⟨block, hblock, rfl⟩ := withCanonicalReferences_get.mp hresolved
    rw [hfollows.withReferences] at hnext
    obtain ⟨reference, hreference, rfl⟩ := mem_map.mp hnext
    have hmem := hfollows.mem block reference hreference
    obtain ⟨target, htarget⟩ := h.resolves hblock _ hmem
    exact ⟨block, hblock, reference, hreference, target, htarget,
      (h.resolve hblock hmem htarget).1.symm⟩
  · rintro ⟨block, hblock, reference, hreference, target, htarget, rfl⟩
    refine ⟨_, withCanonicalReferences_get.mpr ⟨block, hblock, rfl⟩, ?_⟩
    rw [hfollows.withReferences]
    exact mem_map.mpr ⟨reference, hreference,
      (h.resolve hblock (hfollows.mem block reference hreference) htarget).1⟩

theorem Checked.withinLimits
    (hfollows : nesting.Follows)
    (hlimits : registry.WithinLimits nesting (registry.Child L nesting)) :
    registry.withCanonicalReferences.WithinLimits nesting
      (registry.withCanonicalReferences.Names nesting) := by
  have heq : registry.withCanonicalReferences.Names nesting = registry.Child L nesting := by
    funext id next
    exact propext (h.names_iff hfollows)
  rw [heq]
  refine ⟨hlimits.acyclic, hlimits.chains, fun id block hblock => ?_⟩
  obtain ⟨found, hfound, rfl⟩ := withCanonicalReferences_get.mp hblock
  rw [hfollows.withReferences, length_map]
  exact hlimits.fanout id found hfound

/-- A transition that went forward still does when all references are written as ids. -/
theorem Checked.forward (hblock : (registry.blocks kind)[id]? = some block)
    (hreferences : ∀ reference ∈ references, (.phase, reference) ∈ Block.references kind block)
    (htransition : ∀ x ∈ transition.references, x ∈ Block.references kind block)
    (hforward : registry.GoesForward L references transition) :
    Forward (references.map (canonicalizeReference (registry.nameIds .phase)))
      (transition.withReferences (registry.nameIds .phase)) := by
  obtain ⟨first, second, hlt, source, target, r, r', p, p', hsource, htarget, hr, hr', hp, hp',
    hpid, hpid'⟩ := hforward
  have hfrom := h.resolve hblock (htransition _ (.head _)) hsource
  have hto := h.resolve hblock (htransition _ (.tail _ (.head _))) htarget
  have hfirst := h.resolve hblock (hreferences r (mem_of_getElem? hr)) hp
  have hsecond := h.resolve hblock (hreferences r' (mem_of_getElem? hr')) hp'
  refine ⟨first, second, hlt, ?_, ?_⟩
  · rw [List.getElem?_map, hr, Option.map_some, PhaseTransition.withReferences, hfrom.1, hfirst.1]
    exact congrArg some hpid
  · rw [List.getElem?_map, hr', Option.map_some, PhaseTransition.withReferences, hto.1, hsecond.1]
    exact congrArg some hpid'

theorem Checked.sound : registry.withCanonicalReferences.Sound := by
  refine ⟨?_, ?_, h.withinLimits phaseNesting_follows h.phases,
    h.withinLimits flowNesting_follows h.flows, ?_, ?_⟩
  · intro kind id block hblock
    obtain ⟨found, hfound, rfl⟩ := withCanonicalReferences_get.mp hblock
    rw [identity_withReferences]
    exact h.wellNamed.id_eq hfound
  · intro kind id block hblock x hx
    obtain ⟨found, hfound, rfl⟩ := withCanonicalReferences_get.mp hblock
    rw [references_withReferences] at hx
    obtain ⟨y, hy, rfl⟩ := mem_map.mp hx
    obtain ⟨target, htarget⟩ := h.resolves hfound y hy
    obtain ⟨hid, hget⟩ := h.resolve hfound hy htarget
    simp only [hid]
    exact mem_iff.mpr ⟨_, withCanonicalReferences_get.mpr ⟨target, hget, rfl⟩⟩
  · intro id phase hphase transition htransition
    obtain ⟨found, hfound, rfl⟩ := withCanonicalReferences_get.mp hphase
    obtain ⟨own, hown, rfl⟩ := mem_map.mp htransition
    exact h.forward hfound (phaseNesting_follows.mem found)
      (fun x hx => mem_append_right _ (mem_flatMap.mpr ⟨own, hown, hx⟩))
      (h.phaseForward hfound own hown)
  · intro id flow hflow transition htransition
    obtain ⟨found, hfound, rfl⟩ := withCanonicalReferences_get.mp hflow
    obtain ⟨own, hown, rfl⟩ := mem_map.mp htransition
    refine h.forward hfound (fun reference hreference => ?_)
      (fun x hx => mem_append_right _ (mem_flatMap.mpr ⟨own, hown, hx⟩))
      (h.flowForward hfound own hown)
    simp only [Block.references, mem_append, mem_map]
    exact .inl (.inl ⟨reference, hreference, rfl⟩)


omit h
theorem fromBlocks_eq_ok :
    fromBlocks L sources = .ok resolved ↔
      ∃ registry, empty.insertAll L sources = .ok registry ∧
        registry.validateReferences L = .ok () ∧ resolved = registry.withCanonicalReferences := by
  rw [fromBlocks, bind_eq_ok]
  refine exists_congr fun registry => and_congr_right fun _ => ?_
  rw [check_bind_eq_ok]
  refine and_congr_right fun _ => ⟨fun h => ?_, fun h => ?_⟩
  · cases h
    rfl
  · rw [h]
    rfl

theorem sound_of_fromBlocks (h : fromBlocks L sources = .ok resolved) : resolved.Sound := by
  obtain ⟨registry, hinsert, hvalid, rfl⟩ := fromBlocks_eq_ok.mp h
  exact (checked_of_validateReferences hinsert hvalid).sound

/-- The Tools of a registry that loads passed their checks. -/
theorem toolSemantics_of_fromBlocks (h : fromBlocks L sources = .ok resolved) {tool : ToolBlock}
    (htool : (resolved.blocks .tool)[id]? = some tool) : validateToolSemantics L tool = .ok () := by
  obtain ⟨registry, hinsert, -, rfl⟩ := fromBlocks_eq_ok.mp h
  obtain ⟨found, hfound, rfl⟩ := withCanonicalReferences_get.mp htool
  obtain ⟨hmem, -⟩ := ((holds_insertAll hinsert).2.blocks _ _ _).mp hfound
  obtain ⟨source, -, haccepted⟩ := mem_filterMap.mp hmem
  exact (accepted_eq_some.mp haccepted).2

/-- A registry that loads is sound, and the two walks accept, in any order of the blocks, exactly
    the graphs without a cycle, with chains and fan-outs within their limits. -/
theorem fromBlocks_sound :
    (∀ sources resolved, fromBlocks L sources = .ok resolved → resolved.Sound) ∧
    ∀ registry : ResolvedRegistry, registry.WellNamed →
      (∀ kind (id : String) (block : Block kind), (registry.blocks kind)[id]? = some block →
        registry.Resolves L kind block) →
      ∀ nesting, nesting = phaseNesting ∨ nesting = flowNesting →
        ∀ order : List String, (∀ id, id ∈ order ↔ id ∈ registry.blocks nesting.kind) →
          (registry.visitAll L nesting ∅ order = .ok () ↔
            registry.WithinLimits nesting (registry.Child L nesting)) := by
  refine ⟨fun sources resolved h => sound_of_fromBlocks h,
    fun registry hnamed hresolves nesting hnesting order horder => ?_⟩
  have hfollows : nesting.Follows ∧ 0 < nesting.maxDepth := by
    rcases hnesting with rfl | rfl
    · exact ⟨phaseNesting_follows, by decide⟩
    · exact ⟨flowNesting_follows, by decide⟩
  exact hnamed.visitAll_iff hfollows.1 (hresolves _ _ _) hfollows.2 horder

theorem fromBlocks_sound_sample :
    ∃ registry, empty.insertAll scriptLibraries sampleBlocks = .ok registry ∧
      fromBlocks scriptLibraries sampleBlocks = .ok registry.withCanonicalReferences ∧
      registry.withCanonicalReferences.Sound ∧
      (registry.visitAll scriptLibraries phaseNesting ∅ (registry.blocks .phase).keys.reverse =
          .ok () ↔
        registry.WithinLimits phaseNesting (registry.Child scriptLibraries phaseNesting)) := by
  have hloads : (fromBlocks scriptLibraries sampleBlocks).toOption.isSome = true := by
    decide +kernel
  obtain ⟨resolved, hresolved⟩ := Option.isSome_iff_exists.mp hloads
  have hok := toOption_eq_some.mp hresolved
  obtain ⟨registry, hinsert, hvalid, rfl⟩ := fromBlocks_eq_ok.mp hok
  have hchecked := checked_of_validateReferences hinsert hvalid
  refine ⟨registry, hinsert, hok, fromBlocks_sound.1 sampleBlocks _ hok, ?_⟩
  refine fromBlocks_sound.2 registry hchecked.wellNamed
    (fun kind id block hblock => hchecked.resolves hblock) phaseNesting (.inl rfl) _ fun id => ?_
  rw [mem_reverse]
  exact Std.ExtTreeMap.mem_keys

end ResolvedRegistry

end Watershed.Script
