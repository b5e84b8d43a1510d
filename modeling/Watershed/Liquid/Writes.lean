/-
  What `Workspace.write` leaves in memory.

  `Takes` lists, for every mutation of a Page, the steps it takes and what it reports. A
  mutation that fails leaves everything beside the documents as the committed documents have
  it, so that rolling the documents back is enough (`Failed`).
-/
import Watershed.Liquid.Coherence

namespace Watershed.Liquid

open Fallible (wp wp_bind wp_lift)

/-! ## The steps of each mutation -/

namespace PageStep

/-- Whether a step is about a View. -/
def isView : PageStep → Bool
  | .newView .. | .boundary .. | .removeView .. => true
  | _ => false

/-- Whether a step is about the rows of a Database. -/
def isRow : PageStep → Bool
  | .newRow .. | .removeRow .. | .putCell .. | .clearCell .. => true
  | _ => false

theorem onOrder_of_not_isView {μ : PageStep} (h : μ.isView = false) (o : Order) :
    μ.onOrder o = o := by
  cases μ <;> first | rfl | simp [isView] at h

theorem onIndex_of_ne {μ : PageStep} {b : BlockId} {ix : Index}
    (h : μ.isRow = false ∨ μ.footprint ≠ blockPath b) : μ.onIndex b ix = ix := by
  rcases h with h | h
  · cases μ <;> first | rfl | simp [isRow] at h
  · have hne : ∀ b', μ.footprint = blockPath b' → b' ≠ b := by
      rintro b' hf rfl
      exact h hf
    cases μ <;> first | rfl | exact if_neg (hne _ rfl)

end PageStep

/-- The mutation takes these steps on a Page `p` that shows `s`, creates this and reports these
    changes. -/
inductive Takes (p : PageId) (s : State) :
    Mutation → List PageStep → Option Created → List Changed → Prop
  | addTextBlock {after : Option ViewId} {text : String} {b : BlockId} {v : ViewId}
      {name sort : String} :
      Takes p s (.addTextBlock p after text)
        [.newText b name text.toList, .newView after v b sort .text]
        (some (.block b v)) [.views p]
  | splitTextBlock {block : BlockId} {view : ViewId} {at_ : Nat} {style : TextStyle}
      {added : BlockId × ViewId} {μs : List PageStep} {shown : View}
      (steps : SplitSteps (Order.read s) block view at_ added μs)
      (shows : (Order.read s).view view = some shown) (of : shown.block = block) :
      Takes p s (.splitTextBlock p block view at_ style) μs (some (.block added.1 added.2))
        [.views p, .block p block]
  | joinTextBlock {view : ViewId} {joining above : View} {cs : List Char}
      (shows : (Order.read s).view view = some joining)
      (below : (Order.read s).above view = some above) :
      Takes p s (.joinTextBlock p view)
        (.text above.block cs :: removalSteps s (Order.read s) view joining.block) none
        (.views p :: .block p above.block ::
          if (Order.read s).shows joining.block view then [] else [.block p joining.block])
  | setTextStyle {block : BlockId} {style : TextStyle} {name : String} :
      Takes p s (.setTextStyle p block style) [.style block name] none [.block p block]
  | setSectionBoundary {view : ViewId} {x : Bool} :
      Takes p s (.setSectionBoundary p view x) [.boundary view x] none [.views p]
  | editText {block : BlockId} {at_ delete : Nat} {insert : String} {cs : List Char} :
      Takes p s (.editText p block at_ delete insert) [.text block cs] none [.block p block]
  | addDatabaseBlock {after : Option ViewId} {name : String} {b : BlockId} {v : ViewId}
      {f : FieldId} {sort sort' : String} :
      Takes p s (.addDatabaseBlock p after name)
        [.newDatabase b name f sort, .newView after v b sort' .database]
        (some (.block b v)) [.views p]
  | renameDatabase {block : BlockId} {name : String} :
      Takes p s (.renameDatabase p block name) [.databaseName block name] none [.block p block]
  | addField {block : BlockId} {place : Place FieldId} {name : String} {kind : FieldKind}
      {f : FieldId} {sort : String} :
      Takes p s (.addField p block place name kind) [.newField block f name kind sort]
        (some (.field f)) [.block p block]
  | renameField {block : BlockId} {f : FieldId} {name : String} :
      Takes p s (.renameField p block f name) [.fieldName block f name] none [.block p block]
  | removeField {block : BlockId} {f : FieldId} :
      Takes p s (.removeField p block f) [.removeField block f] none [.block p block]
  | addOption {block : BlockId} {f : FieldId} {name : String} {color : Fin 256} {o : OptionId}
      {sort : String} :
      Takes p s (.addOption p block f name color) [.newOption block f o name color sort]
        (some (.option o)) [.block p block]
  | addRow {block : BlockId} {place : Place RowId} {r : RowId} {sort : String} :
      Takes p s (.addRow p block place) [.newRow place block r sort] (some (.row r))
        [.block p block]
  | removeRow {block : BlockId} {r : RowId} :
      Takes p s (.removeRow p block r) [.removeRow block r] none [.block p block]
  | setCell {block : BlockId} {r : RowId} {f : FieldId} {value : Cell} {μs : List PageStep}
      (steps : Database.SetCellSteps block r f μs) :
      Takes p s (.setCell p block r f value) μs none [.block p block]
  | removeView {view : ViewId} {block : BlockId}
      (shows : string s (viewPath view) "block" = some block.asStr) :
      Takes p s (.removeView p view) (removalSteps s (Order.read s) view block) none
        (.views p :: if (Order.read s).shows block view then [] else [.block p block])

/-! ## Memory after a mutation -/

variable {P : Platform} {S : Store P.automerge} {ws ws' : Workspace P S} {p : PageId}

/-- Nothing but the documents in memory and the position in the random source differs. -/
structure Base (ws ws' : Workspace P S) : Prop where
  store : ws'.store = ws.store
  device : ws'.device = ws.device
  owner : ws'.owner = ws.owner
  drawn : ws.drawn ≤ ws'.drawn

theorem Base.refl (ws : Workspace P S) : Base ws ws := ⟨rfl, rfl, rfl, le_rfl⟩

variable {ws₁ : Workspace P S} {d : Document} {l : Loaded P.automerge} {n : Nat} {b : BlockId}

theorem Base.trans (h : Base ws ws₁) (h' : Base ws₁ ws') : Base ws ws' :=
  ⟨h'.store.trans h.store, h'.device.trans h.device, h'.owner.trans h.owner, h.drawn.trans h'.drawn⟩

theorem SameBase.base (h : SameBase ws ws') : Base ws ws' :=
  ⟨h.store, h.device, h.owner, h.drawn.ge⟩

/-- A mutation failed: nothing is committed, and what is kept beside the documents is as the
    committed documents have it. -/
structure Failed (ws ws' : Workspace P S) : Prop extends Base ws ws' where
  loaded : ∀ d l, ws'.docs d = some l → Backed S ws.store d l ∧
    Coherent d l (P.automerge.version l.doc).state

/-- The document `d` went from showing `s` to showing `t`, uncommitted. -/
structure DocWrote (ws ws' : Workspace P S) (d : Document) (s t : State) : Prop
    extends Base ws ws' where
  shown : shown S ws.store d = .ok s
  doc : ∃ l, ws'.docs d = some l ∧ l.state = t ∧ Backed S ws.store d l ∧ Coherent d l t
  others : ∀ d' l, d' ≠ d → ws'.docs d' = some l → Backed S ws.store d' l ∧
    P.automerge.pendingOps l.doc = 0 ∧ Coherent d' l l.state

/-- The Page `p` went from showing `s` to showing `t` by the steps `μs`, uncommitted. -/
structure PageWrote (ws ws' : Workspace P S) (p : PageId) (s : State) (μs : List PageStep)
    (t : State) : Prop extends DocWrote ws ws' (.page p) s t where
  run : PageRun s μs t
  fresh : Fresh P.random ws'.drawn t

theorem Inv.failed (h : Inv ws) : Failed ws ws := by
  refine ⟨Base.refl ws, fun d l hl => ?_⟩
  obtain ⟨hb, hp, hc⟩ := h.loaded d l hl
  exact ⟨hb, by rwa [← P.automerge.clean _ hp]⟩

theorem Failed.trans_base (hb : Base ws ws₁) (h : Failed ws₁ ws') : Failed ws ws' := by
  refine ⟨hb.trans h.toBase, ?_⟩
  rw [← hb.store]
  exact h.loaded

section SetDoc

variable (h : Inv ws) (l' : Loaded P.automerge) (hl : ws.docs d = some l)
  (hv : P.automerge.version l'.doc = P.automerge.version l.doc) (hchunks : l'.chunks = l.chunks)
  (hn : ws.drawn ≤ n)
include h hl hv hchunks hn

/-- A document changed by a failed mutation. -/
theorem Inv.failed_setDoc (hc : Coherent d l' l.state) :
    Failed ws { ws.setDoc d (some l') with drawn := n } := by
  obtain ⟨hb, hp, -⟩ := h.loaded d l hl
  refine ⟨⟨rfl, rfl, rfl, hn⟩, fun d' l'' hl'' => ?_⟩
  by_cases hd : d' = d
  · subst hd
    rw [Workspace.docs_setDoc_self] at hl''
    cases hl''
    obtain ⟨chunks, h1, h2, h3, h4⟩ := hb
    refine ⟨⟨chunks, h1, h2, hchunks.trans h3, by rwa [hv]⟩, ?_⟩
    rw [hv, ← P.automerge.clean _ hp]
    exact hc
  · rw [Workspace.docs_setDoc_ne _ _ hd] at hl''
    obtain ⟨hb', hp', hc'⟩ := h.loaded d' l'' hl''
    exact ⟨hb', by rwa [← P.automerge.clean _ hp']⟩

/-- A document changed by a mutation. -/
theorem Inv.wrote_setDoc (hc : Coherent d l' l'.state) :
    DocWrote ws { ws.setDoc d (some l') with drawn := n } d l.state l'.state := by
  obtain ⟨hb, hp, -⟩ := h.loaded _ l hl
  refine ⟨⟨rfl, rfl, rfl, hn⟩, hb.shown hp,
    ⟨l', Workspace.docs_setDoc_self _ _ _, rfl, ?_, hc⟩, fun d' l'' hd hl'' => ?_⟩
  · obtain ⟨chunks, h1, h2, h3, h4⟩ := hb
    exact ⟨chunks, h1, h2, hchunks.trans h3, by rwa [hv]⟩
  · rw [Workspace.docs_setDoc_ne _ _ hd] at hl''
    exact h.loaded d' l'' hl''

end SetDoc

theorem DocWrote.trans_base {s t : State}
    (hb : Base ws ws₁) (h : DocWrote ws₁ ws' d s t) : DocWrote ws ws' d s t := by
  obtain ⟨hb', h1, h2, h3⟩ := h
  rw [hb.store] at h1 h2 h3
  exact ⟨hb.trans hb', h1, h2, h3⟩

/-! ## Mutations of a loaded document -/

namespace PageRun

variable {s t : State} {μs : List PageStep}

/-- Steps that are not about Views leave the order. -/
theorem read_order_eq (h : PageRun s μs t) (hv : ∀ μ ∈ μs, μ.isView = false) :
    Order.read t = Order.read s := by
  rw [h.read_order]
  clear h
  induction μs with
  | nil => rfl
  | cons μ μs ih =>
    rw [List.foldl_cons, PageStep.onOrder_of_not_isView (hv μ List.mem_cons_self)]
    exact ih (List.forall_mem_cons.mp hv).2

/-- Steps that are not about the rows of `b` leave its index right. -/
theorem indexOk_of_ne {ix : Index} (hix : IndexOk s b ix) (h : PageRun s μs t)
    (hr : ∀ μ ∈ μs, μ.isRow = false ∨ μ.footprint ≠ blockPath b) : IndexOk t b ix := by
  have hfold : μs.foldl (fun ix μ => μ.onIndex b ix) ix = ix := by
    clear hix h
    induction μs with
    | nil => rfl
    | cons μ μs ih =>
      rw [List.foldl_cons, PageStep.onIndex_of_ne (hr μ List.mem_cons_self)]
      exact ih (List.forall_mem_cons.mp hr).2
  rw [← hfold]
  exact indexOk hix h

end PageRun

namespace Workspace

variable {α : Type} {R : α → State → List PageStep → Prop}

/-- The mutation `m` writes steps to the Page `p` that are related to its result, or fails. -/
abbrev WritesPage (p : PageId) (R : α → State → List PageStep → Prop) (m : M P S α)
    (ws : Workspace P S) : Prop :=
  wp m (fun a ws' => ∃ s μs t, PageWrote ws ws' p s μs t ∧ R a s μs) (fun _ ws' => Failed ws ws') ws

/-- A mutation that loads the Page `p` first. -/
theorem load_page_spec (h : Inv ws) {f : Loaded P.automerge → M P S α}
    (hf : ∀ l ws₁, Inv ws₁ → SameBase ws ws₁ → ws₁.docs (.page p) = some l →
      WritesPage p R (f l) ws₁) : WritesPage p R (load (.page p) >>= f) ws := by
  rw [WritesPage, wp_bind]
  refine (load_spec h (.page p)).mono (fun l ws₁ hl => ?_) fun e ws₁ he => ?_
  · obtain ⟨h₁, hbase, hdoc, -⟩ := hl
    refine (hf l ws₁ h₁ hbase hdoc).mono ?_ fun _ _ he => he.trans_base hbase.base
    rintro a ws' ⟨s, μs, t, hw, hR⟩
    exact ⟨s, μs, t, ⟨hw.toDocWrote.trans_base hbase.base, hw.run, hw.fresh⟩, hR⟩
  · rw [he.1]
    exact h.failed

variable (hd : Distinct P.random) (h : Inv ws)
include hd h

/-- A mutation of a loaded Page: `keep` puts back what is kept beside the document. -/
theorem onLoaded_page_spec (hdoc : ws.docs (.page p) = some l) {κ : Type} {cache : κ}
    {keep : κ → Loaded P.automerge → Loaded P.automerge} {body : DocM P.automerge κ α}
    (hkeep : ∀ x l, (keep x l).doc = l.doc ∧ (keep x l).chunks = l.chunks)
    (hbody : Fresh P.random ws.drawn l.state →
      wp body (fun a c' => ∃ μs, Did P.random ⟨l.doc, cache, ws.drawn⟩ c' μs ∧
          Coherent (.page p) (keep c'.cache { l with doc := c'.doc }) c'.state ∧
          R a l.state μs)
        (fun _ c' => Kept ⟨l.doc, cache, ws.drawn⟩ c') ⟨l.doc, cache, ws.drawn⟩)
    (hcache : ∀ doc, Coherent (.page p) (keep cache { l with doc := doc }) l.state) :
    WritesPage p R (onLoaded (.page p) l cache keep body) ws := by
  obtain ⟨hb, hp, -⟩ := h.loaded _ _ hdoc
  have hfresh := h.fresh.fresh (hb.shown hp)
  rw [WritesPage, wp_onLoaded]
  refine (hbody hfresh).mono (fun a c' hdid => ?_) fun _ c' hk => ?_
  · obtain ⟨μs, hdid, hc, hR⟩ := hdid
    obtain ⟨hdoc', hchunks'⟩ := hkeep c'.cache { l with doc := c'.doc }
    have hw := h.wrote_setDoc (keep c'.cache { l with doc := c'.doc }) hdoc
      (by rw [hdoc']; exact hdid.version) hchunks' hdid.drawn (by rwa [Loaded.state, hdoc'])
    simp only [Loaded.state, hdoc'] at hw
    exact ⟨_, μs, _, ⟨hw, hdid.run, hdid.fresh hd hfresh⟩, hR⟩
  · obtain ⟨hdoc', hchunks'⟩ := hkeep c'.cache { l with doc := c'.doc }
    refine h.failed_setDoc (keep c'.cache { l with doc := c'.doc }) hdoc
      (by rw [hdoc']; exact hk.version) hchunks' hk.drawn ?_
    rw [hk.cache]
    exact hcache _

/-- A mutation of a Page with its View order. -/
theorem onPage_spec {body : DocM P.automerge Order α}
    (hbody : ∀ c : Ctx P.automerge Order, c.Coherent → c.Fresh P.random →
      Meets body (fun a c' => ∃ μs, DidOrder P.random c c' μs ∧ R a c.state μs) c)
    (hrow : ∀ a s μs, R a s μs → ∀ μ ∈ μs, μ.isRow = false) :
    WritesPage p R (onPage p body) ws := by
  refine load_page_spec h fun l ws₁ h₁ _ hdoc => ?_
  obtain ⟨-, -, hc⟩ := h₁.loaded _ _ hdoc
  have horder := hc.withOrder.order _ rfl
  refine onLoaded_page_spec hd h₁ hdoc (fun _ _ => ⟨rfl, rfl⟩) (fun hf => ?_) fun _ =>
    ⟨hc.withOrder.order, hc.databases, hc.withOrder.page⟩
  refine (hbody ⟨l.doc, _, ws₁.drawn⟩ horder hf).mono_ok (fun a c' hdid => ?_)
  obtain ⟨μs, hdid, hR⟩ := hdid
  refine ⟨μs, hdid.toDid, ⟨?_, fun b ix hix => ?_, fun hne => absurd rfl (hne p)⟩, hR⟩
  · rintro o ⟨⟩
    exact hdid.coherent horder
  · exact hdid.run.indexOk_of_ne (hc.databases b ix hix) fun μ hμ => .inl (hrow a _ μs hR μ hμ)

/-- A mutation of a Page that needs nothing beside the document. -/
theorem onDoc_page_spec {body : DocM P.automerge Unit α}
    (hbody : ∀ c : Ctx P.automerge Unit, c.Fresh P.random →
      Meets body (fun a c' => ∃ μs, Did P.random c c' μs ∧ R a c.state μs) c)
    (hnot : ∀ a s μs, R a s μs → ∀ μ ∈ μs, μ.isView = false ∧ μ.isRow = false) :
    WritesPage p R (onDoc (.page p) body) ws := by
  refine load_page_spec h fun l ws₁ h₁ _ hdoc => ?_
  obtain ⟨-, -, hc⟩ := h₁.loaded _ _ hdoc
  refine onLoaded_page_spec hd h₁ hdoc (fun _ _ => ⟨rfl, rfl⟩) (fun hf => ?_) fun doc =>
    ⟨hc.order, hc.databases, hc.page⟩
  refine (hbody ⟨l.doc, (), ws₁.drawn⟩ hf).mono_ok (fun a c' hdid => ?_)
  obtain ⟨μs, hdid, hR⟩ := hdid
  have hnot := hnot a _ μs hR
  refine ⟨μs, hdid, ⟨fun o ho => ?_, fun b ix hix => ?_, fun hne => absurd rfl (hne p)⟩, hR⟩
  · exact (hc.order o ho).trans (hdid.run.read_order_eq fun μ hμ => (hnot μ hμ).1).symm
  · exact hdid.run.indexOk_of_ne (hc.databases b ix hix) fun μ hμ => .inl (hnot μ hμ).2

/-- A mutation of a Page with the row index of the Database Block `b`. -/
theorem onDatabase_spec {body : DocM P.automerge Index α}
    (hbody : ∀ c : Ctx P.automerge Index, IndexOk c.state b c.cache → c.Fresh P.random →
      Meets body (fun a c' => ∃ μs, Did P.random c c' μs ∧
        IndexOk c'.state b c'.cache ∧ R a c.state μs) c)
    (hnot : ∀ a s μs, R a s μs → ∀ μ ∈ μs, μ.isView = false ∧ μ.footprint = blockPath b) :
    WritesPage p R (onDatabase p b body) ws := by
  refine load_page_spec h fun l ws₁ h₁ _ hdoc => ?_
  obtain ⟨-, -, hc⟩ := h₁.loaded _ _ hdoc
  -- with an index that is right, cached or just read
  have hwith : ∀ ix, IndexOk l.state b ix →
      WritesPage p R (onLoaded (.page p) l ix (fun index loaded =>
        { loaded with databases := Function.update loaded.databases b (some index) }) body) ws₁ := by
    intro ix hix
    refine onLoaded_page_spec hd h₁ hdoc (fun _ _ => ⟨rfl, rfl⟩) (fun hf => ?_) fun doc => ?_
    · refine (hbody ⟨l.doc, ix, ws₁.drawn⟩ hix hf).mono_ok (fun a c' hdid => ?_)
      obtain ⟨μs, hdid, hix', hR⟩ := hdid
      have hnot := hnot a _ μs hR
      refine ⟨μs, hdid, Coherent.updateIndex (fun o ho => ?_) (fun b' hb' ix' h' => ?_) hix', hR⟩
      · exact (hc.order o ho).trans (hdid.run.read_order_eq fun μ hμ => (hnot μ hμ).1).symm
      · refine hdid.run.indexOk_of_ne (hc.databases b' ix' h') fun μ hμ => .inr fun hf => hb' ?_
        exact blockPath_inj (hf.symm.trans (hnot μ hμ).2)
    · exact Coherent.updateIndex hc.order (fun b' _ ix' => hc.databases b' ix') hix
  cases hix : l.databases b with
  | some ix => exact hwith ix (hc.databases b ix hix)
  | none =>
    rw [WritesPage, wp_bind, wp_lift]
    exact ⟨fun ix hread => hwith ix (Index.indexOk_read hread), fun _ _ => h₁.failed⟩

end Workspace

end Watershed.Liquid
