/-
  The specification of `Workspace.write`.

  A successful mutation changes one document, uncommitted, and may add a new document that the
  store does not hold yet (`Wrote`). A failed one leaves everything beside the documents as
  the committed documents have it (`Failed`).
-/
import Watershed.Liquid.Writes

open List

namespace Watershed.Liquid

open Fallible (wp wp_bind wp_lift wp_pure)

/-! ## New documents -/

/-- A state with empty maps under these top-level keys. -/
def State.withMaps (s : State) (maps : List String) : State :=
  maps.foldl (fun s key => s.set key [] (some .map)) s

theorem State.node_withMaps_empty (maps : List String) (q : Path) :
    (State.empty.withMaps maps).node q =
      if q = [] ∨ ∃ key ∈ maps, q = [key] then some .map else none := by
  induction maps using List.reverseRecOn with
  | nil => simp [withMaps, empty]
  | append_singleton maps key ih =>
    rw [withMaps, foldl_append, foldl_cons, foldl_nil, ← withMaps]
    by_cases hq : q = [key]
    · subst hq
      rw [node_set_self, if_pos (.inr ⟨key, by simp, rfl⟩)]
    · by_cases hs : [key] <:+ q
      · rw [node_set_below _ _ _ _ hs hq, if_neg]
        rintro (rfl | ⟨key', -, rfl⟩)
        · simp at hs
        · simp only [suffix_cons_iff, List.cons.injEq, and_true] at hs hq
          rcases hs with rfl | hs
          · exact hq rfl
          · simp at hs
      · rw [node_set_frame _ _ _ _ hs, ih]
        simp only [mem_append, mem_singleton, or_and_right, exists_or, exists_eq_left, hq, or_false]

variable {maps : List String} {x title name : String} {random : Random} {n m : Nat}
    {s : State} {order : Order} {view : ViewId} {block : BlockId}

theorem names_withMaps_empty (h : x ∈ Names (State.empty.withMaps maps)) : x ∈ maps := by
  rcases h with ⟨q, hq, hx⟩ | ⟨v, hv⟩
  · rw [State.node_withMaps_empty] at hq
    split at hq
    · rename_i hq'
      rcases hq' with rfl | ⟨key, hk, rfl⟩
      · cases hx
      · rwa [mem_singleton.mp hx]
    · cases hq
  · rw [fieldOfNode, State.node_withMaps_empty, if_neg] at hv
    · cases hv
    · simp

section
variable {A : Automerge} {κ : Type} {E : Error → Ctx A κ → Prop}

/-- The root is a map, so creating the top-level maps cannot fail. -/
theorem wp_createMaps {Q : Unit → Ctx A κ → Prop} : ∀ {maps : List String} {c : Ctx A κ},
    (∀ d, A.state d = (A.state c.doc).withMaps maps → A.version d = A.version c.doc →
      Q () { c with doc := d }) → wp (createMaps maps) Q E c
  | [], c, hok => hok c.doc rfl rfl
  | key :: maps, c, hok => by
    unfold createMaps
    rw [wp_bind]
    refine wp_putObject (fun _ d hd hv => ?_) fun h => ?_
    · refine wp_createMaps fun d' hd' hv' => hok d' ?_ (hv'.trans hv)
      rw [hd', hd]
      rfl
    · rw [State.isMap_of_map (A.state c.doc).root] at h
      cases h

end

variable {P : Platform} {S : Store P.automerge} {ws ws' : Workspace P S} {A : Automerge}
  {parent : Option PageId} {μs : List PageStep} {d : Document} {p : PageId} {α κ : Type}

/-- A document that a mutation adds: the store has none under its identity, which is newly
    drawn, and it holds its empty maps, uncommitted. -/
structure NewDoc (ws ws' : Workspace P S) (maps : List String) (d : Document)
    (doc : P.automerge.AutoCommit) : Prop where
  unstored : S.chunks ws.store d = .ok []
  drawn : ∃ x, Drawn P.random ws'.drawn x ∧ (d = .area ⟨x⟩ ∨ d = .page ⟨x⟩)
  version : P.automerge.version doc = ⟨[], .empty⟩
  state : P.automerge.state doc = State.empty.withMaps maps
  pending : P.automerge.pendingOps doc ≠ 0

theorem newDocument_spec (hmaps : maps ≠ []) :
    wp (Workspace.newDocument maps)
      (fun doc ws' => ws' = ws ∧ P.automerge.version doc = ⟨[], .empty⟩ ∧
        P.automerge.state doc = State.empty.withMaps maps ∧ P.automerge.pendingOps doc ≠ 0)
      (fun _ _ => False) ws := by
  have hnew : P.automerge.state (P.automerge.new ws.device) = .empty := by
    rw [P.automerge.clean _ (P.automerge.pendingOps_new _), P.automerge.version_new]
  have hwp : wp (createMaps maps) (fun _ c => P.automerge.version c.doc = ⟨[], .empty⟩ ∧
      P.automerge.state c.doc = State.empty.withMaps maps) (fun _ _ => False)
      (⟨P.automerge.new ws.device, (), 0⟩ : Ctx P.automerge Unit) :=
    wp_createMaps fun d hd hv => ⟨hv.trans (P.automerge.version_new _), by rw [hd, hnew]⟩
  unfold wp Workspace.newDocument
  unfold wp at hwp
  rcases hrun : createMaps maps (⟨P.automerge.new ws.device, (), 0⟩ : Ctx P.automerge Unit) with
    ⟨e | u, c⟩
  · rw [hrun] at hwp
    exact hwp
  · rw [hrun] at hwp
    obtain ⟨hv, hs⟩ := hwp
    refine ⟨rfl, hv, hs, fun hp => ?_⟩
    -- with nothing pending the document would still be empty
    obtain ⟨key, keys, rfl⟩ := exists_cons_of_ne_nil hmaps
    have hclean := P.automerge.clean _ hp
    rw [hs, hv] at hclean
    have := congrArg (fun s => s.node [key]) hclean
    simp only [State.node_withMaps_empty] at this
    simp [State.empty] at this

/-! ## Areas and Pages -/

/-- `x` is an identity drawn from `n` on and before `m`. -/
def DrawnFrom (random : Random) (n m : Nat) (x : String) : Prop :=
  ∃ i bytes, n ≤ i ∧ i < m ∧ random i = some bytes ∧ x = hex bytes

theorem DrawnFrom.drawn (h : DrawnFrom random n m x) : Drawn random m x := by
  obtain ⟨i, bytes, -, h⟩ := h
  exact ⟨i, bytes, h⟩

/-- The store holds nothing under an identity drawn by this Workspace. -/
theorem FreshStore.unstored {store : S.State}
    (h : FreshStore P.random S store n) (hx : DrawnFrom P.random n m x) :
    S.chunks store (.area ⟨x⟩) = .ok [] ∧ S.chunks store (.page ⟨x⟩) = .ok [] := by
  obtain ⟨i, bytes, hi, -, hr, rfl⟩ := hx
  obtain ⟨h1, h2, -⟩ := h i bytes hi hr
  exact ⟨h1, h2⟩

/-- The document of a Workspace or of an area has nothing kept beside it. -/
theorem Coherent.other {l : Loaded A}
    (h : Coherent d l s) (hd : ∀ p, d ≠ .page p) (doc : A.AutoCommit) (t : State) :
    Coherent d { l with doc := doc } t := by
  obtain ⟨ho, hdb⟩ := h.page hd
  refine ⟨fun o h => ?_, fun b ix h => ?_, fun _ => ⟨ho, hdb⟩⟩
  · cases ho.symm.trans h
  · cases (hdb b).symm.trans h

namespace Workspace

/-- A mutation of the document of a Workspace or of an area. -/
theorem onDoc_spec {R : α → Nat → Nat → State → State → Prop} (h : Inv ws)
    (hd : ∀ p, d ≠ .page p) {body : DocM P.automerge Unit α}
    (hbody : ∀ c : Ctx P.automerge Unit, Meets body (fun a c' => Kept c c' ∧
        R a c.drawn c'.drawn c.state c'.state) c) :
    wp (onDoc d body)
      (fun a ws' => ∃ s t, DocWrote ws ws' d s t ∧ R a ws.drawn ws'.drawn s t)
      (fun _ ws' => Failed ws ws') ws := by
  unfold onDoc
  rw [wp_bind]
  refine (load_spec h d).mono (fun l ws₁ hl => ?_) fun e ws₁ he => ?_
  · obtain ⟨h₁, hbase, hdoc, -⟩ := hl
    obtain ⟨-, -, hc⟩ := h₁.loaded _ _ hdoc
    rw [wp_onLoaded]
    refine (hbody ⟨l.doc, (), ws₁.drawn⟩).mono (fun a c' hk => ?_) fun _ c' hk => ?_
    · refine ⟨_, _, (h₁.wrote_setDoc { l with doc := c'.doc } hdoc hk.1.version rfl hk.1.drawn
        (hc.other hd _ _)).trans_base hbase.base, ?_⟩
      rw [← hbase.drawn]
      exact hk.2
    · exact (h₁.failed_setDoc { l with doc := c'.doc } hdoc hk.version rfl hk.drawn
        (hc.other hd _ _)).trans_base hbase.base
  · rw [he.1]
    exact h.failed

end Workspace

/-- An area is added to the Workspace document. -/
def addedArea (id : AreaId) (name : String) (s t : State) : Prop :=
  ∃ sort, t = s.insertEntry ["areas"] id.asStr [("name", name), ("sort", sort)]

/-- A Page is added to an area's document. -/
def addedPage (id : PageId) (parent : Option PageId) (title : String) (s t : State) : Prop :=
  ∃ sort, t = s.insertEntry ["pages"] id.asStr ([("title", title), ("sort", sort)] ++
    (parent.map fun parent => ("parent", parent.asStr)).toList)

theorem addArea_spec {c : Ctx A κ} {id : AreaId} :
    Meets (addArea id name) (fun _ c' => Kept c c' ∧ addedArea id name c.state c'.state) c := by
  unfold Meets addArea
  simp only [wp_bind, wp_lift]
  refine ⟨fun sort _ => ?_, fun _ _ => Kept.refl c⟩
  refine wp_insert (fun _ d hd hv => ?_) fun _ => Kept.refl c
  exact ⟨⟨rfl, hv, le_rfl⟩, sort, hd⟩

theorem addPage_spec {c : Ctx A κ} :
    Meets (addPage random parent title)
      (fun id c' => Kept c c' ∧ DrawnFrom random c.drawn c'.drawn id.asStr ∧
        addedPage id parent title c.state c'.state) c := by
  unfold Meets addPage
  simp only [wp_bind, wp_state]
  split
  · exact Kept.refl c
  simp only [wp_bind, wp_lift]
  refine ⟨fun sort _ => ?_, fun _ _ => Kept.refl c⟩
  refine wp_newId (fun bytes hr => ?_) fun _ => ⟨rfl, rfl, Nat.le_succ _⟩
  refine wp_insert (fun _ d hd hv => ?_) fun _ => ⟨rfl, rfl, Nat.le_succ _⟩
  exact ⟨⟨rfl, hv, Nat.le_succ _⟩, ⟨c.drawn, bytes, le_rfl, Nat.lt_succ_self _, hr, rfl⟩, sort, hd⟩

/-- A Page has a new title in an area's document. -/
def titledPage (page : PageId) (title : String) (s t : State) : Prop :=
  t = s.set "title" [page.asStr, "pages"] (some (.scalar (.str title)))

/-! ## Every mutation -/

theorem removalSteps_isRow :
    ∀ μ ∈ removalSteps s order view block, μ.isRow = false := by
  unfold removalSteps
  split <;> simp [PageStep.isRow]

theorem splitSteps_isRow {at_ : Nat} {added : BlockId × ViewId}
    (h : SplitSteps order block view at_ added μs) : ∀ μ ∈ μs, μ.isRow = false := by
  rcases h with ⟨-, name, sort, rfl⟩ | ⟨-, cs, name, tail, sort, rfl⟩
  · split <;> simp [PageStep.isRow]
  · simp [PageStep.isRow]

/-- What the steps of a mutation leave: the order of the Views, and the rows of all databases or of
    all but one. -/
theorem Takes.frame {m : Mutation} {created : Option Created}
    {changed : List Changed} (h : Takes p s m μs created changed) :
    match m with
    | .addRow _ b _ | .removeRow _ b _ | .setCell _ b _ _ _ =>
      ∀ μ ∈ μs, μ.isView = false ∧ μ.footprint = blockPath b
    | .editText .. | .renameDatabase .. | .addField .. | .renameField .. | .removeField ..
    | .addOption .. => ∀ μ ∈ μs, μ.isView = false ∧ μ.isRow = false
    | _ => ∀ μ ∈ μs, μ.isRow = false := by
  cases h with
  | splitTextBlock hsteps => exact splitSteps_isRow hsteps
  | joinTextBlock => simpa [PageStep.isRow] using removalSteps_isRow
  | removeView => exact removalSteps_isRow
  | setCell hsteps =>
    rcases hsteps with rfl | rfl | ⟨v, cell, rfl⟩ <;> simp [PageStep.isView, PageStep.footprint]
  | _ => simp [PageStep.isView, PageStep.isRow, PageStep.footprint]

/-- What a successful mutation leaves in memory and reports. -/
inductive Wrote (ws ws' : Workspace P S) : Mutation → Written P.automerge → Prop
  | createArea {name : String} {id : AreaId} {s t : State} {doc : P.automerge.AutoCommit}
      (wrote : DocWrote ws ws' .workspace s t) (added : addedArea id name s t)
      (new : NewDoc ws ws' ["pages"] (.area id) doc) :
      Wrote ws ws' (.createArea name)
        ⟨some (.area id), [.areas], [.workspace, .area id], [(.area id, doc)]⟩
  | createPage {area : AreaId} {parent : Option PageId} {title : String} {id : PageId}
      {s t : State} {doc : P.automerge.AutoCommit}
      (wrote : DocWrote ws ws' (.area area) s t) (added : addedPage id parent title s t)
      (new : NewDoc ws ws' ["blocks", "views"] (.page id) doc) :
      Wrote ws ws' (.createPage area parent title)
        ⟨some (.page id), [.pages area], [.area area, .page id], [(.page id, doc)]⟩
  | renamePage {page : PageId} {title : String} {area : AreaId} {s t : State}
      (wrote : DocWrote ws ws' (.area area) s t) (titled : titledPage page title s t) :
      Wrote ws ws' (.renamePage page title) ⟨none, [.pages area], [.area area], []⟩
  | page {m : Mutation} {p : PageId} {s t : State} {μs : List PageStep}
      {created : Option Created} {changed : List Changed}
      (wrote : PageWrote ws ws' p s μs t) (takes : Takes p s m μs created changed) :
      Wrote ws ws' m ⟨created, changed, [.page p], []⟩

namespace Workspace

theorem newId_spec {ι : IdKind} :
    wp (newId : M P S (Id ι)) (fun id ws' => ws' = { ws with drawn := ws.drawn + 1 } ∧
        DrawnFrom P.random ws.drawn (ws.drawn + 1) id.asStr)
      (fun _ ws' => ws' = { ws with drawn := ws.drawn + 1 }) ws := by
  unfold newId
  simp only [wp_bind]
  unfold randomBytes wp
  dsimp only
  cases h : P.random ws.drawn with
  | none => rfl
  | some bytes => exact ⟨rfl, ws.drawn, bytes, le_rfl, Nat.lt_succ_self _, h, rfl⟩

/-- A Workspace that drew from the random source. -/
theorem inv_draw (h : Inv ws) (hn : ws.drawn ≤ n) : Inv { ws with drawn := n } :=
  ⟨h.loaded, h.fresh.mono hn⟩

theorem base_draw (hn : ws.drawn ≤ n) : Base ws { ws with drawn := n } := ⟨rfl, rfl, rfl, hn⟩

theorem createArea_spec (h : Inv ws) :
    wp (write (.createArea name)) (fun w ws' => Wrote ws ws' (.createArea name) w)
      (fun _ ws' => Failed ws ws') ws := by
  unfold write
  simp only [wp_bind]
  have hle : ws.drawn ≤ ws.drawn + 1 := Nat.le_succ _
  refine newId_spec.mono ?_ ?_
  · rintro id _ ⟨rfl, hid⟩
    refine (newDocument_spec (by simp)).mono ?_ fun _ _ h => h.elim
    rintro doc _ ⟨rfl, hv, hs, hp⟩
    refine (onDoc_spec (R := fun _ _ _ s t => addedArea id name s t) (inv_draw h hle) (by simp)
      fun c => addArea_spec).mono ?_ fun _ _ hf => hf.trans_base (base_draw hle)
    rintro - ws' ⟨s, t, hw, hadded⟩
    have hdrawn : ws.drawn + 1 ≤ ws'.drawn := hw.drawn
    refine .createArea (hw.trans_base (base_draw hle)) hadded ⟨(h.fresh.unstored hid).1,
      ⟨id.asStr, hid.drawn.mono hdrawn, .inl rfl⟩, hv, hs, hp⟩
  · rintro _ _ rfl
    exact (inv_draw h hle).failed.trans_base (base_draw hle)

theorem createPage_spec (h : Inv ws) {area : AreaId} :
    wp (write (.createPage area parent title))
      (fun w ws' => Wrote ws ws' (.createPage area parent title) w)
      (fun _ ws' => Failed ws ws') ws := by
  unfold write
  simp only [wp_bind]
  refine (onDoc_spec (R := fun id n m s t => DrawnFrom P.random n m id.asStr ∧
    addedPage id parent title s t) h (by simp) fun c => addPage_spec).mono_ok ?_
  rintro id ws₁ ⟨s, t, hw, hid, hadded⟩
  refine (newDocument_spec (by simp)).mono ?_ fun _ _ h => h.elim
  rintro doc _ ⟨rfl, hv, hs, hp⟩
  exact .createPage hw hadded ⟨(h.fresh.unstored hid).2, ⟨id.asStr, hid.drawn, .inr rfl⟩, hv, hs, hp⟩

/-- The areas without the Page are only loaded. -/
theorem renamePage_spec {page : PageId} : ∀ {areas : List Area}
    {ws : Workspace P S}, Inv ws → wp (renamePage page title areas)
      (fun w ws' => Wrote ws ws' (.renamePage page title) w) (fun _ ws' => Failed ws ws') ws
  | [], ws, h => h.failed
  | area :: areas, ws, h => by
    unfold renamePage onDoc
    simp only [wp_bind]
    refine (load_spec h _).mono (fun l ws₁ hl => ?_) fun e ws₁ he => ?_
    swap
    · rw [he.1]
      exact h.failed
    obtain ⟨h₁, hbase, hdoc, -⟩ := hl
    obtain ⟨hb, hp, hc⟩ := h₁.loaded _ _ hdoc
    have hother := hc.other (by simp)
    rw [wp_onLoaded]
    unfold renamePageHere
    simp only [wp_bind, wp_state]
    cases hlive : live l.state "pages" page.asStr with
    | none =>
      have hi := h₁.setDoc hb hp hc
      have hbase₁ : SameBase ws (ws₁.setDoc (.area area.id) (some l)) :=
        hbase.trans ⟨rfl, rfl, rfl, rfl⟩
      refine (renamePage_spec hi).mono ?_ fun _ _ hf => hf.trans_base hbase₁.base
      rintro w ws' (_ | _ | ⟨hw, ht⟩ | ⟨_, ⟨⟩⟩)
      exact .renamePage (hw.trans_base hbase₁.base) ht
    | some entry =>
      obtain ⟨rfl, hmap⟩ := live_eq_some.mp hlive
      simp only [wp_bind]
      refine wp_put (fun _ d hd hv => ?_) fun hm => ?_
      · exact .renamePage ((h₁.wrote_setDoc { l with doc := d } hdoc hv rfl le_rfl
          (hother _ _)).trans_base hbase.base) hd
      · rw [hmap.2.1] at hm
        cases hm

/-- A page mutation, from the specification of its body. -/
theorem page_spec {m : M P S α} {mutation : Mutation}
    {created : α → Option Created} {changed : α → List Changed}
    (h : WritesPage p (fun a s μs => Takes p s mutation μs (created a) (changed a)) m ws) :
    wp m (fun a ws' => Wrote ws ws' mutation ⟨created a, changed a, [.page p], []⟩)
      (fun _ ws' => Failed ws ws') ws := by
  refine h.mono_ok ?_
  rintro a ws' ⟨s, μs, t, hw, htakes⟩
  exact .page hw htakes

theorem write_spec (hd : Distinct P.random) (h : Inv ws) (mutation : Mutation) :
    wp (write mutation) (fun w ws' => Wrote ws ws' mutation w) (fun _ ws' => Failed ws ws') ws := by
  cases mutation
  case createArea name => exact createArea_spec h
  case createPage area parent title => exact createPage_spec h
  case renamePage page title =>
    unfold write
    rw [wp_bind]
    refine (doc_spec h .workspace).mono (fun s ws₁ hs => ?_) fun e ws₁ he => ?_
    · obtain ⟨h₁, hbase, -⟩ := hs
      refine (renamePage_spec h₁).mono ?_ fun _ _ hf => hf.trans_base hbase.base
      rintro w ws' (_ | _ | ⟨hw, ht⟩ | ⟨_, ⟨⟩⟩)
      exact .renamePage (hw.trans_base hbase.base) ht
    · rw [he.1]
      exact h.failed
  all_goals
    unfold write
    simp only [wp_bind, wp_pure, wp_lift]
  case addTextBlock p after text =>
    refine page_spec (onPage_spec hd h (fun c hc hf => ?_) fun _ _ _ h => h.frame)
    refine (addTextBlock_spec hd hc hf).mono_ok ?_
    rintro added c' ⟨name, sort, hdid⟩
    exact ⟨_, hdid, .addTextBlock⟩
  case splitTextBlock p block view at_ style =>
    refine page_spec (onPage_spec hd h (fun c hc hf => ?_) fun _ _ _ h => h.frame)
    refine (splitTextBlock_spec hd hc hf).mono_ok ?_
    rintro added c' ⟨μs, hdid, hsteps, shown, hview, hblock⟩
    rw [hc] at hsteps hview
    exact ⟨μs, hdid, .splitTextBlock hsteps hview hblock⟩
  case joinTextBlock p view =>
    refine page_spec (onPage_spec hd h (fun c hc hf => ?_) fun _ _ _ h => h.frame)
    refine (joinTextBlock_spec P.random hc).mono_ok ?_
    rintro ⟨_, _⟩ c' ⟨joining, above, cs, h1, h2, rfl, rfl, hdid⟩
    rw [hc] at h1 h2 hdid ⊢
    have htakes : Takes p _ (.joinTextBlock p view) (.text above.block cs :: _) none _ :=
      .joinTextBlock h1 h2
    refine ⟨_, hdid, ?_⟩
    cases hs : (Order.read c.state).shows joining.block view <;> simpa [hs] using htakes
  case setTextStyle p block style =>
    refine ⟨fun name _ => ?_, fun _ _ => h.failed⟩
    refine page_spec (onPage_spec hd h (fun c hc hf => ?_) fun _ _ _ h => h.frame)
    refine (setTextStyle_spec P.random).mono_ok ?_
    rintro - c' ⟨hdid, hcache⟩
    exact ⟨_, ⟨hdid, hcache⟩, .setTextStyle⟩
  case setSectionBoundary p view boundary =>
    refine page_spec (onPage_spec hd h (fun c hc hf => ?_) fun _ _ _ h => h.frame)
    refine (putBoundary_spec P.random).mono_ok ?_
    rintro - c' hdid
    exact ⟨_, hdid, .setSectionBoundary⟩
  case addDatabaseBlock p after name =>
    refine page_spec (onPage_spec hd h (fun c hc hf => ?_) fun _ _ _ h => h.frame)
    refine (addDatabaseBlock_spec hd hc hf).mono_ok ?_
    rintro added c' ⟨f, sort, sort', hdid⟩
    exact ⟨_, hdid, .addDatabaseBlock⟩
  case removeView p view =>
    refine page_spec (onPage_spec hd h (fun c hc hf => ?_) fun _ _ _ h => h.frame)
    refine (removeView_spec P.random hc).mono_ok ?_
    rintro _ c' ⟨block, h1, rfl, hdid⟩
    rw [hc] at hdid ⊢
    have htakes := Takes.removeView (p := p) h1
    refine ⟨_, hdid, ?_⟩
    cases hs : (Order.read c.state).shows block view <;> simpa [hs] using htakes
  case editText p block at_ delete insert =>
    refine page_spec (onDoc_page_spec hd h (fun c hf => ?_) fun _ _ _ h => h.frame)
    refine (editText_spec P.random).mono_ok ?_
    rintro - c' ⟨cs, hdid, -⟩
    exact ⟨_, hdid, .editText⟩
  case renameDatabase p block name =>
    refine page_spec (onDoc_page_spec hd h (fun c hf => ?_) fun _ _ _ h => h.frame)
    refine (Database.rename_spec P.random).mono_ok ?_
    rintro - c' hdid
    exact ⟨_, hdid.1, .renameDatabase⟩
  case addField p block place name kind =>
    refine page_spec (onDoc_page_spec hd h (fun c hf => ?_) fun _ _ _ h => h.frame)
    refine (Database.addField_spec hf).mono_ok ?_
    rintro field c' ⟨sort, hdid, -⟩
    exact ⟨_, hdid, .addField⟩
  case renameField p block field name =>
    refine page_spec (onDoc_page_spec hd h (fun c hf => ?_) fun _ _ _ h => h.frame)
    refine (Database.renameField_spec P.random).mono_ok ?_
    rintro - c' hdid
    exact ⟨_, hdid.1, .renameField⟩
  case removeField p block field =>
    refine page_spec (onDoc_page_spec hd h (fun c hf => ?_) fun _ _ _ h => h.frame)
    refine (Database.removeField_spec P.random).mono_ok ?_
    rintro - c' hdid
    exact ⟨_, hdid.1, .removeField⟩
  case addOption p block field name color =>
    refine page_spec (onDoc_page_spec hd h (fun c hf => ?_) fun _ _ _ h => h.frame)
    refine (Database.addOption_spec hf).mono_ok ?_
    rintro option c' ⟨sort, hdid, -⟩
    exact ⟨_, hdid, .addOption⟩
  case addRow p block place =>
    refine page_spec (onDatabase_spec hd h (fun c hix hf => ?_) fun _ _ _ h => h.frame)
    refine (Database.addRow_spec hix hf).mono_ok ?_
    rintro row c' ⟨sort, hdid⟩
    exact ⟨_, hdid.toDid, hdid.indexOk hix, .addRow⟩
  case removeRow p block row =>
    refine page_spec (onDatabase_spec hd h (fun c hix hf => ?_) fun _ _ _ h => h.frame)
    refine (Database.removeRow_spec P.random).mono_ok ?_
    rintro - c' hdid
    exact ⟨_, hdid.toDid, hdid.indexOk hix, .removeRow⟩
  case setCell p block row field value =>
    refine page_spec (onDatabase_spec hd h (fun c hix hf => ?_) fun _ _ _ h => h.frame)
    refine (Database.setCell_spec P.random hix).mono_ok ?_
    rintro - c' ⟨μs, hdid, hsteps, hix'⟩
    exact ⟨μs, hdid, hix', .setCell hsteps⟩

end Workspace

end Watershed.Liquid
