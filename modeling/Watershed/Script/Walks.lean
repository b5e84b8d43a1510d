/-
  The walks over the Phase graph and the subflow graph are exact: a walk accepts when the graph
  has no cycle, no chain that is too long and no block with too many children, in whatever order
  the blocks are visited.

  A cached depth is the height of its block, so it is right for every path on which the block is
  reached again.
-/
import Watershed.Lib.Chains
import Watershed.Script.Registry

namespace Watershed.Script.ResolvedRegistry

variable (L : ScriptLibraries) (registry : ResolvedRegistry) (nesting : Nesting)

/-! ## The graph -/

/-- The block that an id resolves to has a reference to a block with the other id. -/
def Edge (id next : String) : Prop :=
  ∃ block, registry.namedBlock L nesting.kind id = some block ∧
    ∃ reference ∈ nesting.references block, ∃ child,
      registry.namedBlock L nesting.kind reference = some child ∧
      (Block.identity nesting.kind child).id = next

/-- The block of an id is there, has few enough references, and all of them resolve. -/
structure Bounded (id : String) : Prop where
  resolves : ∃ block, registry.namedBlock L nesting.kind id = some block ∧
    (nesting.references block).length ≤ nesting.maxFanout ∧
    ∀ reference ∈ nesting.references block,
      (registry.namedBlock L nesting.kind reference).isSome = true

/-- The cache holds the heights of blocks, whose references are within bounds. -/
structure Cached (visited : StringMap TailDepth) : Prop where
  height : ∀ id tail, visited[id]? = some tail → IsHeight (registry.Edge L nesting) tail.depth id
  bounded : ∀ id tail, visited[id]? = some tail →
    ∀ next, Relation.ReflTransGen (registry.Edge L nesting) id next →
      registry.Bounded L nesting next

/-- What a successful visit of a block does to the walk. -/
structure Visited (walk walk' : Walk) : Prop where
  cached : registry.Cached L nesting walk'.visited
  visiting : walk'.visiting = walk.visiting
  grows : ∀ (id : String) (tail : TailDepth),
    walk.visited[id]? = some tail → walk'.visited[id]? = some tail

variable {L registry nesting}
variable {kind : RegistryBlockKind} {reference id : String} {block : Block kind} {walk : Walk}
  {visited : StringMap TailDepth} {references : List String} {n : Nat}

@[simp] theorem require_eq_ok {fromKind : RegistryBlockKind} {fromId : String} :
    registry.require L kind reference fromKind fromId = .ok block ↔
      registry.namedBlock L kind reference = some block := by
  unfold require
  cases registry.namedBlock L kind reference <;> simp

theorem require_of_some
    (h : registry.namedBlock L kind reference = some block) (fromKind : RegistryBlockKind)
    (fromId : String) : registry.require L kind reference fromKind fromId = .ok block :=
  require_eq_ok.mpr h

theorem Visited.trans {walk' walk'' : Walk} (h : registry.Visited L nesting walk walk')
    (h' : registry.Visited L nesting walk' walk'') : registry.Visited L nesting walk walk'' :=
  ⟨h'.cached, h'.visiting.trans h.visiting, fun id tail hid => h'.grows id tail (h.grows id tail hid)⟩

/-- A step of a chain from a block goes through one of its references. -/
theorem edge_iff {next : String} {block : Block nesting.kind}
    (hblock : registry.namedBlock L nesting.kind id = some block) :
    registry.Edge L nesting id next ↔ ∃ reference ∈ nesting.references block, ∃ child,
      registry.namedBlock L nesting.kind reference = some child ∧
      (Block.identity nesting.kind child).id = next := by
  unfold Edge
  rw [hblock]
  simp

/-! ## A walk that succeeds -/

section Success

variable {n : Nat} {visit : String → Walk → Except RegistryError Walk}
variable {id : String} {tail : TailDepth} {walk walk' : Walk}

section Children

variable (hvisit : ∀ id walk walk', registry.Cached L nesting walk.visited →
    visit id walk = .ok walk' → registry.Visited L nesting walk walk' ∧
      ∃ tail, walk'.visited[id]? = some tail ∧ tail.depth ≤ n)
include hvisit

/-- The tail after a loop over children is the longest of the one before and theirs. -/
theorem visitChildren_sound {tail' : TailDepth}
    (hcached : registry.Cached L nesting walk.visited)
    (hloop : registry.visitChildren L nesting visit id references tail walk = .ok (tail', walk')) :
    registry.Visited L nesting walk walk' ∧ tail.depth ≤ tail'.depth ∧
      (tail.depth ≤ n + 1 → tail'.depth ≤ n + 1) ∧
      ∀ m, tail'.depth ≤ m + 1 ↔ tail.depth ≤ m + 1 ∧ ∀ reference ∈ references, ∃ child,
        registry.namedBlock L nesting.kind reference = some child ∧
        HeightLe (registry.Edge L nesting) m (Block.identity nesting.kind child).id ∧
        ∃ tail, walk'.visited[(Block.identity nesting.kind child).id]? = some tail := by
  induction references generalizing tail walk with
  | nil =>
    obtain ⟨rfl, rfl⟩ := hloop
    exact ⟨⟨hcached, rfl, fun _ _ h => h⟩, Nat.le_refl _, fun h => h, by simp⟩
  | cons reference references ih =>
    simp only [visitChildren, bind_eq_ok, require_eq_ok] at hloop
    obtain ⟨child, hchild, next, hnext, hloop⟩ := hloop
    obtain ⟨hvisited, childTail, hchildTail, hdepth⟩ := hvisit _ _ _ hcached hnext
    rw [hchildTail] at hloop
    obtain ⟨hrest, hle, hbound, hheight⟩ := ih hvisited.cached hloop
    have hchildHeight := hvisited.cached.height _ _ hchildTail
    have hkept := hrest.grows _ _ hchildTail
    have htail : (if tail.depth < childTail.depth + 1 then
        ({ deepestId := childTail.deepestId, depth := childTail.depth + 1 } : TailDepth)
        else tail).depth = max tail.depth (childTail.depth + 1) := by
      split <;> simp <;> omega
    rw [htail] at hle hbound hheight
    refine ⟨hvisited.trans hrest, by omega, fun h => hbound (by omega), fun m => ?_⟩
    rw [hheight m, Nat.max_le, List.forall_mem_cons, and_assoc]
    refine and_congr_right fun _ => and_congr_left fun _ => ?_
    rw [Nat.add_le_add_iff_right, ← hchildHeight m]
    constructor
    · exact fun h => ⟨child, hchild, h, childTail, hkept⟩
    · rintro ⟨other, hother, h, -⟩
      rw [hchild] at hother
      cases hother
      exact h

theorem visitChildren_complete {visiting : StringSet}
    (hreferences : ∀ reference ∈ references, ∃ child,
      registry.namedBlock L nesting.kind reference = some child ∧
      ∀ walk, registry.Cached L nesting walk.visited → walk.visiting = visiting →
        ∃ walk', visit (Block.identity nesting.kind child).id walk = .ok walk')
    (hcached : registry.Cached L nesting walk.visited)
    (hvisiting : walk.visiting = visiting) :
    ∃ result, registry.visitChildren L nesting visit id references tail walk = .ok result := by
  induction references generalizing tail walk with
  | nil => exact ⟨_, rfl⟩
  | cons reference references ih =>
    obtain ⟨⟨child, hchild, hok⟩, hrest⟩ := List.forall_mem_cons.mp hreferences
    obtain ⟨next, hnext⟩ := hok walk hcached hvisiting
    obtain ⟨hvisited, childTail, hchildTail, -⟩ := hvisit _ _ _ hcached hnext
    have hrequire := require_of_some hchild nesting.kind id
    simp only [visitChildren, hrequire, hnext, hchildTail, bind, Except.bind]
    exact ih hrest hvisited.cached (hvisited.visiting.trans hvisiting)

end Children

/-- Taking a new member out again leaves the set as it was. -/
theorem erase_insert {set : StringSet} (hid : set.contains id = false) :
    (set.insert id).erase id = set := by
  refine Std.ExtTreeSet.ext_mem fun other => ?_
  have hnot : id ∉ set := by rwa [← Std.ExtTreeSet.contains_iff_mem, Bool.not_eq_true]
  simp only [Std.ExtTreeSet.mem_erase, Std.ExtTreeSet.mem_insert, ne_eq,
    Std.LawfulEqCmp.compare_eq_iff_eq]
  constructor
  · rintro ⟨hne, heq | hmem⟩
    · exact absurd heq hne
    · exact hmem
  · intro hmem
    exact ⟨fun heq => hnot (heq ▸ hmem), .inr hmem⟩

/-- The cache with a block whose children are in it. -/
theorem Cached.insert (h : registry.Cached L nesting visited)
    {block : Block nesting.kind} (hblock : registry.namedBlock L nesting.kind id = some block)
    (hfanout : (nesting.references block).length ≤ nesting.maxFanout) (hpos : 0 < tail.depth)
    (htail : ∀ m, tail.depth ≤ m + 1 ↔ ∀ reference ∈ nesting.references block, ∃ child,
      registry.namedBlock L nesting.kind reference = some child ∧
      HeightLe (registry.Edge L nesting) m (Block.identity nesting.kind child).id ∧
      ∃ tail, visited[(Block.identity nesting.kind child).id]? = some tail) :
    registry.Cached L nesting (visited.insert id tail) := by
  have hchildren := (htail tail.depth).mp (Nat.le_succ _)
  have hheight : IsHeight (registry.Edge L nesting) tail.depth id := by
    refine isHeight_of_next hpos fun m => (htail m).trans ?_
    constructor
    · intro hall next hedge
      obtain ⟨reference, hreference, child, hchild, rfl⟩ := (edge_iff hblock).mp hedge
      obtain ⟨other, hother, hle, -⟩ := hall reference hreference
      rw [hchild] at hother
      cases hother
      exact hle
    · intro hall reference hreference
      obtain ⟨child, hchild, -, hcached⟩ := hchildren reference hreference
      exact ⟨child, hchild, hall _ ((edge_iff hblock).mpr ⟨reference, hreference, child, hchild, rfl⟩),
        hcached⟩
  have hbounded : ∀ next, Relation.ReflTransGen (registry.Edge L nesting) id next →
      registry.Bounded L nesting next := by
    intro next hnext
    rcases hnext.cases_head with rfl | ⟨first, hfirst, hrest⟩
    · refine ⟨block, hblock, hfanout, fun reference hreference => ?_⟩
      obtain ⟨child, hchild, -⟩ := hchildren reference hreference
      simp [hchild]
    · obtain ⟨reference, hreference, child, hchild, rfl⟩ := (edge_iff hblock).mp hfirst
      obtain ⟨other, hother, -, cached, hcached⟩ := hchildren reference hreference
      rw [hchild] at hother
      cases hother
      exact h.bounded _ _ hcached next hrest
  constructor <;> intro other otherTail hother
  all_goals
    rw [StringMap.get_insert] at hother
    split at hother
    · rename_i heq
      cases hother
      subst heq
      first
      | exact hheight
      | exact hbounded
    · first
      | exact h.height _ _ hother
      | exact h.bounded _ _ hother

theorem visit_sound (hn : n ≤ nesting.maxDepth)
    (hcached : registry.Cached L nesting walk.visited)
    (hvisit : registry.visit L nesting n id walk = .ok walk') :
    registry.Visited L nesting walk walk' ∧
      ∃ tail, walk'.visited[id]? = some tail ∧ tail.depth ≤ n := by
  induction n generalizing id walk walk' with
  | zero => cases hvisit
  | succ remaining ih =>
    rw [visit] at hvisit
    cases hid : walk.visited[id]? with
    | some tail =>
      simp only [hid] at hvisit
      split at hvisit
      · cases hvisit
      · cases hvisit
        exact ⟨⟨hcached, rfl, fun _ _ h => h⟩, tail, hid, by omega⟩
    | none =>
      simp only [hid] at hvisit
      obtain ⟨hvisiting, hvisit⟩ := ite_error_eq_ok.mp hvisit
      rw [Bool.not_eq_true] at hvisiting
      simp only [bind_eq_ok, require_eq_ok] at hvisit
      obtain ⟨block, hblock, hvisit⟩ := hvisit
      obtain ⟨hfanout, hvisit⟩ := ite_error_eq_ok.mp hvisit
      simp only [bind_eq_ok] at hvisit
      obtain ⟨⟨tail, next⟩, hloop, hvisit⟩ := hvisit
      cases hvisit
      have hentered : registry.Cached L nesting
          ({ walk with visiting := walk.visiting.insert id } : Walk).visited := hcached
      obtain ⟨hvisited, hle, hbound, htail⟩ := visitChildren_sound
        (fun _ _ _ hc hv => ih (by omega) hc hv) hentered hloop
      refine ⟨⟨?_, ?_, ?_⟩, tail, ?_, hbound (by simp)⟩
      · refine hvisited.cached.insert hblock (Nat.le_of_not_lt hfanout) hle fun m => ?_
        rw [htail m]
        simp
      · simp only [hvisited.visiting]
        exact erase_insert hvisiting
      · intro other otherTail hother
        rw [StringMap.get_insert, if_neg]
        · exact hvisited.grows _ _ hother
        · rintro rfl
          rw [hid] at hother
          cases hother
      · rw [StringMap.get_insert, if_pos rfl]

end Success

/-! ## A walk that has to succeed -/

/-- A block of small enough height whose descendants are within bounds is visited, when the blocks
    under way are above it. -/
theorem visit_complete (hn : n ≤ nesting.maxDepth)
    (hcached : registry.Cached L nesting walk.visited)
    (hheight : HeightLe (registry.Edge L nesting) n id)
    (hbounded : ∀ next, Relation.ReflTransGen (registry.Edge L nesting) id next →
      registry.Bounded L nesting next)
    (habove : ∀ other ∈ walk.visiting, Relation.TransGen (registry.Edge L nesting) other id) :
    ∃ walk', registry.visit L nesting n id walk = .ok walk' := by
  induction n generalizing id walk with
  | zero => exact hheight.elim
  | succ remaining ih =>
    rw [visit]
    cases hid : walk.visited[id]? with
    | some tail =>
      have hle := (hcached.height id tail hid _).mp hheight
      simp only
      rw [if_neg (by omega)]
      exact ⟨walk, rfl⟩
    | none =>
      -- The block is not under way itself: that would be a cycle.
      have hnot : walk.visiting.contains id = false := by
        rw [Bool.eq_false_iff]
        exact fun hmem => hheight.not_cyclic (habove id hmem)
      obtain ⟨block, hblock, hfanout, hresolves⟩ := (hbounded id .refl).resolves
      have hrequire := require_of_some hblock nesting.kind id
      simp only [hnot, hrequire, bind, Except.bind, if_neg (Nat.not_lt.mpr hfanout)]
      have hchildren : ∃ result, registry.visitChildren L nesting
          (registry.visit L nesting remaining) id (nesting.references block)
          { deepestId := id, depth := 1 }
          { walk with visiting := walk.visiting.insert id } = .ok result := by
        have hentered : registry.Cached L nesting
            ({ walk with visiting := walk.visiting.insert id } : Walk).visited := hcached
        refine visitChildren_complete
          (fun _ _ _ hc hv => visit_sound (by omega) hc hv) ?_ hentered rfl
        intro reference hreference
        obtain ⟨child, hchild⟩ := Option.isSome_iff_exists.mp (hresolves reference hreference)
        have hedge : registry.Edge L nesting id (Block.identity nesting.kind child).id :=
          (edge_iff hblock).mpr ⟨reference, hreference, child, hchild, rfl⟩
        refine ⟨child, hchild, fun next hnext hvisiting => ?_⟩
        refine ih (by omega) hnext (hheight.step hedge)
          (fun last hlast => hbounded last (hlast.head hedge)) ?_
        intro other hother
        rw [hvisiting, Std.ExtTreeSet.mem_insert, Std.LawfulEqCmp.compare_eq_iff_eq] at hother
        rcases hother with rfl | hother
        · exact .single hedge
        · exact (habove other hother).tail hedge
      obtain ⟨result, hresult⟩ := hchildren
      rw [hresult]
      exact ⟨_, rfl⟩

/-- Blocks are visited in a row when each of them is of small enough height, with its descendants
    within bounds. -/
theorem visitAll_iff {ids : List String}
    (hcached : registry.Cached L nesting visited) :
    registry.visitAll L nesting visited ids = .ok () ↔
      ∀ id ∈ ids, HeightLe (registry.Edge L nesting) nesting.maxDepth id ∧
        ∀ next, Relation.ReflTransGen (registry.Edge L nesting) id next →
          registry.Bounded L nesting next := by
  induction ids generalizing visited with
  | nil => simp [visitAll]
  | cons id ids ih =>
    rw [visitAll, bind_eq_ok, List.forall_mem_cons]
    have hstart : registry.Cached L nesting ({ visiting := ∅, visited := visited } : Walk).visited :=
      hcached
    constructor
    · rintro ⟨walk, hvisit, hrest⟩
      obtain ⟨hvisited, tail, htail, hle⟩ := visit_sound (Nat.le_refl _) hstart hvisit
      exact ⟨⟨(hvisited.cached.height _ _ htail).heightLe.mono hle, hvisited.cached.bounded _ _ htail⟩,
        (ih hvisited.cached).mp hrest⟩
    · rintro ⟨⟨hheight, hbounded⟩, hrest⟩
      obtain ⟨walk, hvisit⟩ := visit_complete (Nat.le_refl _) hstart hheight hbounded (by simp)
      obtain ⟨hvisited, -⟩ := visit_sound (Nat.le_refl _) hstart hvisit
      exact ⟨walk, hvisit, (ih hvisited.cached).mpr hrest⟩

theorem cached_empty : registry.Cached L nesting ∅ := by
  constructor <;> simp

end Watershed.Script.ResolvedRegistry
