/-
  Loading what one Flow needs gives that part of the whole registry.

  The catalog resolves a reference as the registry does, although it holds the identities as they
  were written and not in normal form. The queue then takes exactly the blocks that can be reached
  from the Flow.
-/
import Mathlib.Algebra.Order.BigOperators.Group.List
import Mathlib.Tactic.Choose
import Watershed.Script.Restrict

namespace Watershed.Script

open Watershed.Proto List ResolvedRegistry Block RegistryFile Nat
open Relation (ReflTransGen)
open Watershed.FlowAgent (saturatingAdd)

/-! ## Reading files -/

variable {file : RegistryFile} {blocks : List RegistryBlock} {files : List RegistryFile}
  {block : RegistryBlock} {totalBytes : Nat}

@[simp] theorem readRegistryFileToString_eq_ok {root : RegistryRoot}
    {maxBytes : Nat} {source : String} :
    readRegistryFileToString root file maxBytes = .ok source ↔
      file.bytes ≤ maxBytes ∧ source = file.source := by
  unfold readRegistryFileToString
  split
  · rename_i hlt
    simp [not_le.mpr hlt]
  · rename_i hle
    simp [not_lt.mp hle, eq_comm]

section Files

variable {L : ScriptLibraries} {deserialize : String → String → Except RegistryError RegistryBlock}
  {root : RegistryRoot} {limits : RegistryTraversalLimits}

variable (L deserialize limits) in
/-- A file is short enough and holds that block. -/
structure Stores (file : RegistryFile) (block : RegistryBlock) : Prop where
  bytes : file.bytes ≤ limits.maxFileBytes
  parse : parseRegistryBlock L deserialize file.sourceName file.source = .ok block

theorem Stores.name_ne (h : Stores L deserialize limits file block) : block.name ≠ "" := by
  have hparse := h.parse
  rw [parseRegistryBlock, bind_eq_ok] at hparse
  obtain ⟨parsed, -, hparse⟩ := hparse
  rw [check_bind_eq_ok, check_bind_eq_ok, mapError_eq_ok] at hparse
  obtain ⟨hshape, -, hok⟩ := hparse
  cases hok
  exact (identity_of_shape hshape).2

theorem readBlocks_cons
    (h : readBlocks L deserialize root limits totalBytes (file :: files) = .ok blocks) :
    ∃ block rest, blocks = block :: rest ∧ Stores L deserialize limits file block ∧
      totalBytes + file.bytes < 2 ^ 64 ∧ totalBytes + file.bytes ≤ limits.maxTotalBytes ∧
      readBlocks L deserialize root limits (totalBytes + file.bytes) files = .ok rest := by
  simp only [readBlocks, bind_eq_ok, readRegistryFileToString_eq_ok] at h
  obtain ⟨_, ⟨hbytes, rfl⟩, h⟩ := h
  split at h
  · cases h
  · split at h
    · cases h
    · rename_i hword htotal
      simp only [bind_eq_ok] at h
      obtain ⟨block, hparse, rest, hrest, h⟩ := h
      cases h
      exact ⟨block, rest, rfl, ⟨hbytes, hparse⟩, not_le.mp hword, not_lt.mp htotal, hrest⟩

end Files

/-! ## The catalog -/

section Catalog

variable {L : ScriptLibraries} {deserialize : String → String → Except RegistryError RegistryBlock}
  {root : RegistryRoot} {limits : RegistryTraversalLimits} {files : List RegistryFile}
  {sources : List RegistryBlock}

variable (L deserialize limits files sources) in
/-- The catalog has an entry for each block of the registry, with the file that holds it. -/
structure Describes (catalog : RegistryCatalog) (registry : ResolvedRegistry) : Prop where
  names : ∀ kind (name : String), (catalog.nameIds kind)[name]? = (registry.nameIds kind)[name]?
  absent : ∀ kind (id : String),
    (catalog.entries kind)[id]? = none ↔ (registry.blocks kind)[id]? = none
  found : ∀ kind (id : String) entry, (catalog.entries kind)[id]? = some entry →
    ∃ source ∈ sources, entry.file ∈ files ∧ Stores L deserialize limits entry.file source ∧
      source.key = (kind, id) ∧ source.identity = entry.identity

theorem describes_empty : Describes L deserialize limits files sources .empty empty := by
  constructor <;> simp [RegistryCatalog.empty, empty]

variable {contents : List RegistryBlock} {registry : ResolvedRegistry} {catalog : RegistryCatalog}
variable {kind : RegistryBlockKind} {block : Block kind}

/-- Ids are valid and in normal form. -/
theorem id_of_holds (h : registry.Holds (contents.filterMap (accepted L)))
    {id : String} (hblock : (registry.blocks kind)[id]? = some block) :
    isValidBlockId id = true ∧ L.nfc id = id := by
  obtain ⟨hmem, rfl⟩ := (h.blocks _ _ _).mp hblock
  obtain ⟨source, -, haccepted⟩ := mem_filterMap.mp hmem
  have hprepared := isPrepared_of_prepare (accepted_eq_some.mp haccepted).1
  refine ⟨hprepared.validId, ?_⟩
  have hid : (identity kind block).id = (source.canonical L.toLibraries).id := by
    rw [← hprepared.canonical]
    rfl
  rw [hid, RegistryBlock.id, RegistryBlock.identity_canonical]
  exact L.nfc_nfc _

/-- An entry goes in where the block went in. -/
theorem Describes.insert
    (hholds : registry.Holds (contents.filterMap (accepted L)))
    (h : Describes L deserialize limits files sources catalog registry) {source block : RegistryBlock}
    (haccepted : accepted L source = some block)
    (hfree : ∀ other ∈ contents.filterMap (accepted L), ¬ other.Clashes block)
    (hfile : file ∈ files) (hsource : source ∈ sources)
    (hstores : Stores L deserialize limits file source) :
    ∃ next, catalog.insert L source file = .ok next ∧
      Describes L deserialize limits files sources next (registry.withBlock block) := by
  have hprepared := isPrepared_of_prepare (accepted_eq_some.mp haccepted).1
  have hkey := key_of_accepted haccepted
  have hkind : source.kind = block.kind := (congrArg Prod.fst hkey).symm
  have hid : source.identity.id = block.id := (congrArg Prod.snd hkey).symm
  have hname : L.nfc source.identity.name = block.name := by
    rw [hprepared.canonical, RegistryBlock.name, RegistryBlock.identity_canonical]
    rfl
  obtain ⟨hidFree, hidName, hnameId, hnameFree⟩ := hholds.free_iff.mpr hfree
  have hnameAbsent : (registry.blocks block.kind)[source.identity.name]? = none := by
    cases hclash : (registry.blocks block.kind)[source.identity.name]? with
    | none => rfl
    | some other =>
      -- A name that is an id is in normal form already.
      rw [← hname, (id_of_holds hholds hclash).2, hclash] at hnameId
      cases hnameId
  refine ⟨_, bind_eq_ok.mpr ⟨_, insertNamedBlock_eq_ok.mpr
    ⟨⟨hprepared.sourceId, hstores.name_ne⟩, ?_, rfl⟩, rfl⟩, ?_⟩
  · rw [hkind, hid, hname, h.names, h.names, h.absent, h.absent]
    exact ⟨hidFree, hidName, hnameAbsent, hnameFree⟩
  · rw [hkind, hid, hname]
    refine ⟨fun kind name => ?_, fun kind id => ?_, fun kind id entry hentry => ?_⟩
    · by_cases heq : kind = block.kind
      · subst heq
        simp only [ResolvedRegistry.withBlock, ResolvedRegistry.set, Function.update_self,
          StringMap.get_insert, h.names]
      · simp only [ResolvedRegistry.withBlock, ResolvedRegistry.set, Function.update_of_ne heq,
          h.names]
    · by_cases heq : kind = block.kind
      · subst heq
        simp only [ResolvedRegistry.withBlock, ResolvedRegistry.set, Function.update_self,
          StringMap.get_insert]
        split
        · simp
        · exact h.absent _ id
      · simp only [ResolvedRegistry.withBlock, ResolvedRegistry.set, Function.update_of_ne heq,
          h.absent]
    · rcases (get_update_insert _ ((h.absent _ _).mpr hidFree) kind id entry).mp hentry with
        ⟨rfl, heq⟩ | hentry
      · cases heq
        exact ⟨source, hsource, hfile, hstores, hkey.symm, rfl⟩
      · exact h.found _ id entry hentry

/-- While the blocks go into the registry, their entries go into the catalog. -/
theorem readCatalog_of_readBlocks {remaining : List RegistryFile}
    {registry final : ResolvedRegistry}
    (hholds : registry.Holds (contents.filterMap (accepted L)))
    (h : Describes L deserialize limits files sources catalog registry)
    (hfiles : ∀ file ∈ remaining, file ∈ files) (hsources : ∀ block ∈ blocks, block ∈ sources)
    (hread : readBlocks L deserialize root limits totalBytes remaining = .ok blocks)
    (hinsert : registry.insertAll L blocks = .ok final) :
    ∃ result, readCatalog L deserialize root limits totalBytes catalog remaining = .ok result ∧
      Describes L deserialize limits files sources result final := by
  induction remaining generalizing totalBytes blocks catalog registry contents with
  | nil =>
    cases hread
    cases hinsert
    exact ⟨catalog, rfl, h⟩
  | cons file remaining ih =>
    obtain ⟨source, rest, rfl, hstores, hword, htotal, hrest⟩ := readBlocks_cons hread
    rw [forall_mem_cons] at hfiles hsources
    simp only [insertAll, bind_eq_ok] at hinsert
    obtain ⟨block, hprepare, next, hnext, hinsert⟩ := hinsert
    obtain ⟨hsemantics, hfree, rfl⟩ :=
      (hholds.insert_eq_ok (isPrepared_of_prepare hprepare)).mp hnext
    have haccepted := accepted_eq_some.mpr ⟨hprepare, hsemantics⟩
    obtain ⟨catalog', hcatalog', hdescribes⟩ :=
      h.insert hholds haccepted hfree hfiles.1 hsources.1 hstores
    have hholds' := hholds.withBlock hfree
    rw [← filterMap_cons_some haccepted] at hholds'
    obtain ⟨result, hresult, hdescribes⟩ := ih hholds' hdescribes hfiles.2 hsources.2 hrest hinsert
    refine ⟨result, ?_, hdescribes⟩
    have hsum : saturatingAdd totalBytes file.bytes = totalBytes + file.bytes := by
      unfold saturatingAdd
      omega
    rw [readCatalog, readRegistryFileToString_eq_ok.mpr ⟨hstores.bytes, rfl⟩]
    change (if limits.maxTotalBytes < saturatingAdd totalBytes file.bytes then _ else _) = _
    rw [hsum, if_neg (not_lt.mpr htotal), hstores.parse]
    change (catalog.insert L source file >>= _) = _
    rw [hcatalog']
    exact hresult

/-- The catalog finds the id of the block that a reference is to. -/
theorem Describes.resolve (h : Describes L deserialize limits files sources catalog registry)
    (hnamed : registry.WellNamed) {reference : String}
    (hblock : registry.namedBlock L kind reference = some block) :
    ∃ entry, catalog.resolve L kind reference = some entry ∧
      entry.identity.id = (identity kind block).id := by
  have hentry : ∀ {id : String} {found : Block kind}, (registry.blocks kind)[id]? = some found →
      ∃ entry, (catalog.entries kind)[id]? = some entry ∧ entry.identity.id = id := by
    intro id found hfound
    cases hid : (catalog.entries kind)[id]? with
    | none =>
      rw [h.absent, hfound] at hid
      cases hid
    | some entry =>
      obtain ⟨source, -, -, -, hkey, hidentity⟩ := h.found _ _ _ hid
      exact ⟨entry, rfl, (congrArg BlockIdentity.id hidentity).symm.trans (congrArg Prod.snd hkey)⟩
  rw [namedBlock, Option.or_eq_some_iff, Option.bind_eq_some_iff] at hblock
  rcases hblock with hfound | ⟨hnone, id, hname, hfound⟩
  · obtain ⟨entry, hid, heq⟩ := hentry hfound
    rw [hnamed.id_eq hfound]
    exact ⟨entry, by rw [RegistryCatalog.resolve, hid, Option.some_or], heq⟩
  · obtain ⟨entry, hid, heq⟩ := hentry hfound
    rw [hnamed.id_eq hfound]
    refine ⟨entry, ?_, heq⟩
    rw [RegistryCatalog.resolve, (h.absent _ _).mpr hnone, h.names, hname]
    exact hid

/-- A reference and its normal form are to the same block. -/
theorem namedBlock_nfc (h : registry.Holds (contents.filterMap (accepted L)))
    (kind : RegistryBlockKind) (reference : String) :
    registry.namedBlock L kind (L.nfc reference) = registry.namedBlock L kind reference := by
  rw [namedBlock, namedBlock, L.nfc_nfc]
  cases hid : (registry.blocks kind)[reference]? with
  | some block =>
    rw [(id_of_holds h hid).2, hid]
  | none =>
    cases hnormal : (registry.blocks kind)[L.nfc reference]? with
    | none => rfl
    | some block =>
      rw [L.nfc_blockId reference (id_of_holds h hnormal).1, hid] at hnormal
      cases hnormal

end Catalog

/-! ## The closure -/

section Closure

variable {L : ScriptLibraries} {deserialize : String → String → Except RegistryError RegistryBlock}
  {root : RegistryRoot} {limits : RegistryTraversalLimits} {sources : List RegistryBlock}
  {catalog : RegistryCatalog} {whole : ResolvedRegistry}

variable {source : RegistryBlock} {x : BlockKey}

/-- What a stored block queues are the blocks that it needs in the registry. -/
theorem enqueueDependencies_eq (hchecked : whole.Checked L)
    (hholds : whole.Holds (sources.filterMap (accepted L)))
    (hdescribes : Describes L deserialize limits root.files sources catalog whole)
    (hsource : source ∈ sources)
    (haccepted : accepted L source = some block) :
    ∃ pushed, enqueueDependencies L catalog source = .ok pushed ∧
      ∀ y, y ∈ pushed ↔ whole.withCanonicalReferences.DependsOn source.key y := by
  have hcanonical := (isPrepared_of_prepare (accepted_eq_some.mp haccepted).1).canonical
  have hkey := key_of_accepted haccepted
  have hblock : (whole.blocks source.kind)[source.id]? =
      some (canonical L.toLibraries source.kind source.block) := by
    refine (hholds.blocks _ _ _).mpr ⟨?_, ?_⟩
    · exact mem_filterMap.mpr ⟨source, hsource, haccepted.trans (congrArg some hcanonical)⟩
    · rw [hcanonical] at hkey
      exact congrArg Prod.snd hkey
  -- Each dependency resolves, in the catalog as in the registry.
  have hpush : ∀ x ∈ dependencies source.kind source.block, ∃ target,
      whole.namedBlock L x.1 (L.nfc x.2) = some target ∧
      (do
        let found ← catalog.require L x.1 x.2 source.kind.asStr source.identity.id
        pure (x.1, found.identity.id) : Except RegistryError BlockKey) =
        .ok (x.1, (identity x.1 target).id) := by
    intro x hx
    have hmem : (x.1, L.nfc x.2) ∈ dependencies source.kind
        (canonical L.toLibraries source.kind source.block) :=
      (mem_dependencies_canonical L.toLibraries).mpr ⟨x, hx, rfl⟩
    obtain ⟨target, htarget⟩ := hchecked.resolves hblock _ (dependencies_subset _ _ _ hmem)
    have hsame : whole.namedBlock L x.1 x.2 = some target :=
      (namedBlock_nfc hholds x.1 x.2).symm.trans htarget
    obtain ⟨entry, hentry, hid⟩ := hdescribes.resolve hchecked.wellNamed hsame
    refine ⟨target, htarget, ?_⟩
    rw [RegistryCatalog.require, hentry, ← hid]
    rfl
  obtain ⟨pushed, hpushed⟩ := exists_mapM_eq_ok fun x hx => ⟨_, (hpush x hx).choose_spec.2⟩
  refine ⟨pushed, hpushed, fun y => ?_⟩
  rw [mem_of_mapM_eq_ok hpushed, hchecked.dependsOn_iff]
  constructor
  · rintro ⟨x, hx, hy⟩
    obtain ⟨target, htarget, hok⟩ := hpush x hx
    cases hok.symm.trans hy
    exact ⟨_, hblock, (x.1, L.nfc x.2),
      (mem_dependencies_canonical L.toLibraries).mpr ⟨x, hx, rfl⟩, target, htarget, rfl⟩
  · rintro ⟨found, hfound, z, hz, target, htarget, rfl⟩
    obtain rfl := Option.some.inj (hblock.symm.trans hfound)
    obtain ⟨x, hx, rfl⟩ := (mem_dependencies_canonical L.toLibraries).mp hz
    obtain ⟨other, hother, hok⟩ := hpush x hx
    cases hother.symm.trans htarget
    exact ⟨x, hx, hok⟩

/-- The catalog has the file of a stored block under the id of the block. -/
theorem Describes.stored (hdescribes : Describes L deserialize limits root.files sources catalog
      whole) {block : Block x.1}
    (hblock : (whole.blocks x.1)[x.2]? = some block) :
    ∃ entry, catalog.resolve L x.1 x.2 = some entry ∧ ∃ source ∈ sources,
      entry.file ∈ root.files ∧ Stores L deserialize limits entry.file source ∧
      source.key = x ∧ source.identity = entry.identity := by
  cases hentry : (catalog.entries x.1)[x.2]? with
  | none =>
    rw [hdescribes.absent, hblock] at hentry
    cases hentry
  | some entry =>
    refine ⟨entry, ?_, hdescribes.found _ _ _ hentry⟩
    rw [RegistryCatalog.resolve, hentry, Option.some_or]

variable {maxActiveBytes : Nat}

theorem loadQueued_eq_ok (active : ActiveBlocks)
    {entry : RegistryCatalogEntry} {pushed : List BlockKey}
    (hentry : catalog.resolve L x.1 x.2 = some entry)
    (hstores : Stores L deserialize limits entry.file source) (hkey : source.key = x)
    (hidentity : source.identity = entry.identity)
    (hbytes : saturatingAdd active.bytes entry.file.bytes ≤ maxActiveBytes)
    (hpushed : enqueueDependencies L catalog source = .ok pushed) :
    loadQueued L deserialize root limits maxActiveBytes catalog x active =
      .ok ({ bytes := saturatingAdd active.bytes entry.file.bytes,
             blocks := active.blocks ++ [source] }, pushed) := by
  have hsame : ¬ (source.kind ≠ x.1 ∨ source.identity ≠ entry.identity) := by
    rw [← hkey]
    exact not_or.mpr ⟨not_not.mpr rfl, not_not.mpr hidentity⟩
  unfold loadQueued
  rw [hentry]
  simp only [readRegistryFileToString_eq_ok.mpr ⟨hstores.bytes, rfl⟩, Except.bind, bind,
    if_neg (not_lt.mpr hbytes), hstores.parse, if_neg hsame, hpushed]
  rfl

/-- Blocks with one kind and id are one block. -/
theorem source_unique (haccept : ResolvedRegistry.Acceptable L sources)
    {other : RegistryBlock} (hsource : source ∈ sources) (hother : other ∈ sources)
    (hkey : source.key = other.key) : source = other := by
  by_contra hne
  obtain ⟨block, hblock⟩ := Option.isSome_iff_exists.mp (haccept.each source hsource)
  obtain ⟨block', hblock'⟩ := Option.isSome_iff_exists.mp (haccept.each other hother)
  have hapart := pairwise_filterMap.mp haccept.apart
  have : Std.Symm fun left right : RegistryBlock =>
      ∀ b, accepted L left = some b →
        ∀ b', accepted L right = some b' → ¬ b.Clashes b' :=
    ⟨fun _ _ hnot b hb b' hb' hclash => hnot b' hb' b hb hclash.symm⟩
  have hkeys : block.key = block'.key := by
    rw [key_of_accepted hblock, key_of_accepted hblock', hkey]
  exact hapart.forall hsource hother hne block hblock block' hblock'
    ⟨congrArg Prod.fst hkeys, .inl (congrArg Prod.snd hkeys)⟩

theorem foldr_saturatingAdd_le {α : Type} (size : α → Nat) (l : List α) :
    l.foldr (fun a total => saturatingAdd total (size a)) 0 ≤ (l.map size).sum := by
  induction l with
  | nil => exact le_refl 0
  | cons a l ih =>
    rw [map_cons, sum_cons, Nat.add_comm]
    exact Nat.le_trans (Nat.min_le_left _ _) (Nat.add_le_add_right ih _)

open Classical in
/-- The sizes of the files whose blocks have certain kinds and ids, added up. -/
noncomputable def activeBytes (L : ScriptLibraries)
    (deserialize : String → String → Except RegistryError RegistryBlock) (root : RegistryRoot)
    (P : BlockKey → Prop) : Nat :=
  ((root.files.filter fun file => ∃ block,
    parseRegistryBlock L deserialize file.sourceName file.source = .ok block ∧
      P block.key).map bytes).sum

/-- Different files of a part are no longer than all its files. -/
theorem sum_le_activeBytes {P : BlockKey → Prop}
    (hnodup : files.Nodup) (h : ∀ file ∈ files, file ∈ root.files ∧ ∃ block,
      parseRegistryBlock L deserialize file.sourceName file.source = .ok block ∧ P block.key) :
    (files.map bytes).sum ≤ activeBytes L deserialize root P := by
  classical
  have hsub : files.Subperm (root.files.filter fun file => ∃ block,
      parseRegistryBlock L deserialize file.sourceName file.source = .ok block ∧ P block.key) := by
    refine hnodup.subperm fun file hfile => ?_
    rw [mem_filter]
    exact ⟨(h file hfile).1, decide_eq_true (h file hfile).2⟩
  obtain ⟨part, hperm, hsublist⟩ := hsub
  rw [← (hperm.map bytes).sum_eq]
  refine Nat.le_trans ((hsublist.map bytes).sum_le_sum fun n _ => zero_le n) ?_
  exact le_of_eq (by congr)

/-- A block comes with all blocks it depends on. -/
abbrev ResolvedRegistry.Reaches (whole : ResolvedRegistry) :=
  ReflTransGen whole.withCanonicalReferences.DependsOn

section Run

variable (hchecked : whole.Checked L) (haccept : ResolvedRegistry.Acceptable L sources)
  (hholds : whole.Holds (sources.filterMap (accepted L)))
  (hdescribes : Describes L deserialize limits root.files sources catalog whole)

include hchecked in
theorem block_of_reached {start x : BlockKey} {block : Block start.1}
    (hstart : (whole.blocks start.1)[start.2]? = some block)
    (hreach : whole.Reaches start x) :
    ∃ found, (whole.blocks x.1)[x.2]? = some found := by
  induction hreach with
  | refl => exact ⟨block, hstart⟩
  | tail _ hstep _ =>
    obtain ⟨_, -, z, -, target, htarget, rfl⟩ := hchecked.dependsOn_iff.mp hstep
    exact ⟨target, get_of_namedBlock hchecked.wellNamed.id_eq htarget⟩

include hchecked haccept hholds hdescribes in
/-- The queue takes exactly the blocks that can be reached. -/
theorem run_loadQueued (start : BlockKey) {block : Block start.1}
    (hstart : (whole.blocks start.1)[start.2]? = some block)
    (hbytes : activeBytes L deserialize root (whole.Reaches start) ≤ maxActiveBytes) :
    ∃ rounds active, (∀ fuel, rounds ≤ fuel →
        Worklist.run (loadQueued L deserialize root limits maxActiveBytes catalog) fuel [start] []
          { bytes := 0, blocks := [] } = .ok (some active)) ∧
      (active.blocks.map (·.key)).Nodup ∧
      ∀ source, source ∈ active.blocks ↔ source ∈ sources ∧ whole.Reaches start source.key := by
  have hgood : ∀ x, whole.Reaches start x →
      ∃ entry source, catalog.resolve L x.1 x.2 = some entry ∧ source ∈ sources ∧
        entry.file ∈ root.files ∧ Stores L deserialize limits entry.file source ∧
        source.key = x ∧ source.identity = entry.identity := by
    intro x hx
    obtain ⟨found, hfound⟩ := block_of_reached hchecked hstart hx
    obtain ⟨entry, hentry, source, hsource, hrest⟩ := hdescribes.stored hfound
    exact ⟨entry, source, hentry, hsource, hrest⟩
  obtain ⟨entry₀, source₀, -⟩ := hgood start .refl
  have : Nonempty RegistryCatalogEntry := ⟨entry₀⟩
  have : Nonempty RegistryBlock := ⟨source₀⟩
  choose! entryOf sourceOf hresolve hsource hfile hstores hkey hidentity using hgood
  -- The state after some blocks were taken, the last one first.
  let stateOf : List BlockKey → ActiveBlocks := fun taken =>
    { bytes := taken.foldr (fun x total => saturatingAdd total (entryOf x).file.bytes) 0
      blocks := taken.reverse.map sourceOf }
  have hstep : ∀ x taken, (x :: taken).Nodup → (∀ y ∈ x :: taken, whole.Reaches start y) →
      ∃ pushed, loadQueued L deserialize root limits maxActiveBytes catalog x (stateOf taken) =
          .ok (stateOf (x :: taken), pushed) ∧
        ∀ y, y ∈ pushed ↔ whole.withCanonicalReferences.DependsOn x y := by
    intro x taken hnodup hreached
    have hx := hreached x mem_cons_self
    obtain ⟨accepted, haccepted⟩ := Option.isSome_iff_exists.mp (haccept.each _ (hsource x hx))
    obtain ⟨pushed, hpushed, hmem⟩ :=
      enqueueDependencies_eq hchecked hholds hdescribes (hsource x hx) haccepted
    rw [hkey x hx] at hmem
    refine ⟨pushed, ?_, hmem⟩
    have hfiles : ((x :: taken).map fun y => (entryOf y).file).Nodup := by
      refine List.Nodup.map_on (fun y hy z hz heq => ?_) hnodup
      have hsame := (hstores y (hreached y hy)).parse
      rw [heq, (hstores z (hreached z hz)).parse, Except.ok.injEq] at hsame
      rw [← hkey y (hreached y hy), ← hsame, hkey z (hreached z hz)]
    have hsum := sum_le_activeBytes hfiles fun file hmem => by
      obtain ⟨y, hy, rfl⟩ := mem_map.mp hmem
      refine ⟨hfile y (hreached y hy), sourceOf y, (hstores y (hreached y hy)).parse, ?_⟩
      rw [hkey y (hreached y hy)]
      exact hreached y hy
    rw [map_map] at hsum
    have hactive : (stateOf (x :: taken)).bytes ≤ maxActiveBytes :=
      Nat.le_trans (foldr_saturatingAdd_le (fun y => (entryOf y).file.bytes) (x :: taken))
        (Nat.le_trans hsum hbytes)
    rw [loadQueued_eq_ok (stateOf taken) (hresolve x hx) (hstores x hx) (hkey x hx)
      (hidentity x hx) hactive hpushed]
    simp [stateOf]
  have hfinite : ∀ x, whole.Reaches start x → x ∈ sources.map (·.key) := fun x hx =>
    mem_map.mpr ⟨sourceOf x, hsource x hx, hkey x hx⟩
  obtain ⟨rounds, final, hnodup, hfinal, hrun⟩ := Worklist.run_reaches hfinite hstep
  have hkeys : ∀ x ∈ final.reverse, (sourceOf x).key = x := fun x hx =>
    hkey x ((hfinal x).mp (mem_reverse.mp hx))
  refine ⟨rounds, stateOf final, hrun, ?_, fun source => ?_⟩
  · have hmap : (stateOf final).blocks.map (·.key) = final.reverse := by
      rw [map_map]
      exact (map_congr_left hkeys).trans (map_id _)
    rw [hmap]
    exact nodup_reverse.mpr hnodup
  · constructor
    · intro hmem
      obtain ⟨x, hx, rfl⟩ := mem_map.mp hmem
      have hreach := (hfinal x).mp (mem_reverse.mp hx)
      rw [hkey x hreach]
      exact ⟨hsource x hreach, hreach⟩
    · rintro ⟨hmem, hreach⟩
      refine mem_map.mpr ⟨source.key, mem_reverse.mpr ((hfinal _).mpr hreach), ?_⟩
      exact source_unique haccept (hsource _ hreach) hmem (hkey _ hreach)

end Run

theorem activeBytes_le (P : BlockKey → Prop) :
    activeBytes L deserialize root P ≤ (root.files.map bytes).sum :=
  (filter_sublist.map bytes).sum_le_sum fun n _ => zero_le n

/-- Loading for a Flow gives the restriction of the whole registry to the blocks that can be
    reached from the Flow, when these are within the byte limit. -/
theorem loadForFlowFromRoot_restricts {resolved : ResolvedRegistry} {flowReference : String}
    {flow : FlowBlock}
    (hall : loadAllFromRoot L deserialize root limits = .ok resolved)
    (hflow : resolved.flowBlock L flowReference = some flow)
    (hbytes : activeBytes L deserialize root
      (Relation.ReflTransGen resolved.DependsOn (.flow, flow.identity.id)) ≤ maxActiveBytes) :
    ∃ rounds closure,
      (∀ fuel, rounds ≤ fuel → loadForFlowFromRoot L deserialize fuel root flowReference
        maxActiveBytes limits = .ok (some closure)) ∧
      closure.Restricts resolved
        (Relation.ReflTransGen resolved.DependsOn (.flow, flow.identity.id)) := by
  obtain ⟨sources, hread, hload⟩ := bind_eq_ok.mp hall
  rw [readAllBlocksWithInitialBytes, if_neg (not_lt_zero _)] at hread
  obtain ⟨whole, hinsert, hvalid, rfl⟩ := fromBlocks_eq_ok.mp hload
  have hchecked := checked_of_validateReferences hinsert hvalid
  obtain ⟨haccept, hholds⟩ := holds_insertAll hinsert
  obtain ⟨catalog, hcatalog, hdescribes⟩ := readCatalog_of_readBlocks
    (show empty.Holds ([].filterMap (accepted L)) from
      holds_empty) describes_empty (fun _ h => h) (fun _ h => h) hread hinsert
  rw [flowBlock, namedBlock_withCanonicalReferences] at hflow
  obtain ⟨found, hfound, rfl⟩ := Option.map_eq_some_iff.mp hflow
  obtain ⟨entry, hentry, hid⟩ := hdescribes.resolve hchecked.wellNamed hfound
  obtain ⟨rounds, active, hrun, hnodup, hactive⟩ :=
    run_loadQueued hchecked haccept hholds hdescribes (.flow, (FlowBlock.identity found).id)
      (get_of_namedBlock hchecked.wellNamed.id_eq hfound) hbytes
  obtain ⟨closure, hclosure, hrestricts⟩ :=
    fromBlocks_restrict hload (fun x y hx hxy => hx.tail hxy) hnodup hactive
  refine ⟨rounds, closure, fun fuel hfuel => ?_, hrestricts⟩
  unfold loadForFlowFromRoot
  rw [hcatalog]
  simp only [bind, Except.bind, RegistryCatalog.require, hentry, hid]
  rw [show ((RegistryBlockKind.flow, (identity .flow found).id) :
    BlockKey) = (.flow, (FlowBlock.identity found).id) from rfl, hrun fuel hfuel]
  simp only [hclosure]
  rfl

end Closure

section Sample

/-- The definitions of the small registry, each with its text. -/
def sampleDefinitions : List (RegistryFile × RegistryBlock) :=
  [(⟨"flows/after.yaml", "flow:\n  id: after\n  name: After\n  phase_refs: [Part]\n"⟩,
      .flow afterFlow),
    (⟨"flows/main.yaml",
        "flow:\n  id: main\n  name: Main\n  phase_refs: [Visit]\n  subflow_refs: [After]\n"⟩,
      .flow mainFlow),
    (⟨"instructions/brief.yaml",
        "instruction:\n  id: brief\n  name: Brief\n  prompt: Say hello.\n"⟩,
      .instruction briefInstruction),
    (⟨"phases/greet.yaml", "phase:\n  id: greet\n  name: Greet\n  instruction_refs: [Brief]\n" ++
        "  tool_refs: [Echo]\n  output:\n    type: boolean\n"⟩,
      .phase greetPhase),
    (⟨"phases/part.yaml", "phase:\n  id: part\n  name: Part\n  instruction_refs: [Brief]\n" ++
        "  tool_refs: []\n  output:\n    type: boolean\n"⟩,
      .phase partPhase),
    (⟨"phases/visit.yaml", "phase:\n  id: visit\n  name: Visit\n  instruction_refs: []\n" ++
        "  tool_refs: []\n  phase_refs: [Greet, part]\n  output:\n    type: boolean\n" ++
        "  result_from: Part\n  transitions:\n    - from_phase_ref: greet\n" ++
        "      to_phase_ref: Part\n      when:\n        path: []\n        equals:\n" ++
        "          type: boolean\n          value: true\n"⟩,
      .phase visitPhase),
    (⟨"tools/echo.yaml", "tool:\n  id: echo\n  name: Echo\n  tool_kind: predefined-command\n" ++
        "  command:\n    command_id: agent-echo\n    argv: [hello]\n" ++
        "  allowed_parameters: []\n"⟩,
      .tool echoTool),
    (⟨"tools/idle.yaml", "tool:\n  id: idle\n  name: Idle\n  tool_kind: predefined-command\n" ++
        "  command:\n    command_id: agent-echo\n    argv: [hello]\n" ++
        "  allowed_parameters: []\n"⟩,
      .tool idleTool)]

def sampleRoot : RegistryRoot := { path := "registry", files := sampleDefinitions.map Prod.fst }

/-- Reads the texts of the small registry. -/
def sampleDeserialize (sourceName source : String) : Except RegistryError RegistryBlock :=
  match sampleDefinitions.find? fun definition => definition.1.source = source with
  | some definition => .ok definition.2
  | none => .error (.parse sourceName "expected exactly one registry block")

def standardLimits : RegistryTraversalLimits :=
  { maxFileBytes := 128 * 1024, maxTotalBytes := 16 * 1024 * 1024 }

theorem loadForFlowFromRoot_restricts_main :
    ∃ resolved flow rounds closure,
      loadAllFromRoot scriptLibraries sampleDeserialize sampleRoot standardLimits = .ok resolved ∧
      resolved.flowBlock scriptLibraries "Main" = some flow ∧
      (∀ fuel, rounds ≤ fuel → loadForFlowFromRoot scriptLibraries sampleDeserialize fuel
        sampleRoot "Main" (1024 * 1024) standardLimits = .ok (some closure)) ∧
      closure.Restricts resolved
        (Relation.ReflTransGen resolved.DependsOn (.flow, flow.identity.id)) := by
  have hcheck : ((loadAllFromRoot scriptLibraries sampleDeserialize sampleRoot
      standardLimits).toOption.bind
        fun resolved => resolved.flowBlock scriptLibraries "Main").isSome = true := by
    decide +kernel
  obtain ⟨flow, hbind⟩ := Option.isSome_iff_exists.mp hcheck
  obtain ⟨resolved, hload, hflow⟩ := Option.bind_eq_some_iff.mp hbind
  have hall := toOption_eq_some.mp hload
  have htotal : (sampleRoot.files.map bytes).sum ≤ 1024 * 1024 := by
    decide +kernel
  obtain ⟨rounds, closure, hclosure⟩ := loadForFlowFromRoot_restricts hall hflow
    (Nat.le_trans (activeBytes_le _) htotal)
  exact ⟨resolved, flow, rounds, closure, hall, hflow, hclosure⟩

end Sample

end Watershed.Script
