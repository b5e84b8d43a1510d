/-
  What a mutation reports is enough to know what to read again.

  A reader of one Block sees the Block's entry and whether the Page has Blocks at all
  (`SameBlock`). Every step of a mutation writes one Block or one View, and the mutation
  reports each of them (`Takes.reports`), so a reader of anything else sees no difference.
-/
import Watershed.Liquid.Runs

open List Option

namespace Watershed.Liquid

open Workspace

variable {s t : State} {b : BlockId}

/-! ## What a reader of one Block sees -/

/-- Two states show the same Block `b`. -/
structure SameBlock (b : BlockId) (s t : State) : Prop where
  blocks : s.node ["blocks"] = t.node ["blocks"]
  under : SameUnder (blockPath b) s t

variable {m : Path} {μs : List PageStep}

theorem SameUnder.child (h : SameUnder m s t) (k : String) :
    Liquid.child s m k = Liquid.child t m k :=
  child_congr h.node (h.below k).node

theorem SameUnder.string (h : SameUnder m s t) (k : String) :
    Liquid.string s m k = Liquid.string t m k :=
  string_congr h.node (h.below k).node

theorem SameUnder.map (h : SameUnder m s t) (k : String) :
    Database.map s m k = Database.map t m k := by
  unfold Database.map
  rw [h.child]

/-- A field reads the same, with its options. -/
theorem SameUnder.fieldOf (h : SameUnder m s t) (field : Entry) :
    Database.fieldOf s m field = Database.fieldOf t m field := by
  unfold Database.fieldOf
  rw [h.child]
  cases hc : Liquid.child t m field.id with
  | none => rfl
  | some p =>
    obtain ⟨-, rfl, -⟩ := child_eq_some.mp hc
    rw [bind_some, bind_some, (h.below _).child]
    cases ho : Liquid.child t (field.id :: m) "options" with
    | none => rfl
    | some q =>
      obtain ⟨-, rfl, -⟩ := child_eq_some.mp ho
      simp only [map_some, Database.options, ((h.below _).below _).sortedIn]

namespace SameBlock

variable (h : SameBlock b s t)
include h

theorem live : Liquid.live s "blocks" b.asStr = Liquid.live t "blocks" b.asStr := by
  ext p
  rw [live_eq_some, live_eq_some, State.isMap_congr h.blocks, State.isMap_congr h.under.node,
    (h.under.below "deleted").node]

theorem text : Liquid.text s b.asStr = Liquid.text t b.asStr := by
  unfold Liquid.text
  rw [h.live]
  refine bind_congr fun entry hl => ?_
  obtain ⟨rfl, -⟩ := live_eq_some.mp hl
  simp only [h.under.string, h.under.child]
  split
  · rfl
  · refine bind_congr fun p hc => ?_
    obtain ⟨-, rfl, -⟩ := child_eq_some.mp hc
    simp only [chars, (h.under.below "text").node]

theorem styleOf : Workspace.styleOf s b = Workspace.styleOf t b := by
  unfold Workspace.styleOf textBlock
  rw [h.live]
  cases hl : Liquid.live t "blocks" b.asStr with
  | none => rfl
  | some entry =>
    obtain ⟨rfl, -⟩ := live_eq_some.mp hl
    rw [filter_some, filter_some, h.under.string "kind"]
    split
    · rw [map_some, map_some, h.under.string "style"]
    · rfl

theorem entry : Database.entry s b = Database.entry t b := by
  unfold Database.entry
  rw [h.live]
  cases hl : Liquid.live t "blocks" b.asStr with
  | none => rfl
  | some entry =>
    obtain ⟨rfl, -⟩ := live_eq_some.mp hl
    simp only [h.under.string]

theorem read_database : Database.read s b = Database.read t b := by
  unfold Database.read
  rw [h.entry]
  cases he : Database.entry t b with
  | error e => rfl
  | ok p =>
    obtain ⟨-, rfl⟩ := Database.entry_eq_ok.mp he
    have hfields := h.under.below "fields"
    simp only [h.under.map, h.under.string]
    cases hm : Database.map t (blockPath b) "fields" with
    | error e => rfl
    | ok q =>
      obtain ⟨-, -, rfl⟩ := Database.map_eq_ok.mp hm
      simp only [bind, Except.bind, hfields.sortedIn, funext hfields.fieldOf]

theorem read_index : Index.read s b = Index.read t b := by
  unfold Index.read
  rw [h.entry]
  cases he : Database.entry t b with
  | error e => rfl
  | ok p =>
    obtain ⟨-, rfl⟩ := Database.entry_eq_ok.mp he
    simp only [bind, Except.bind, h.under.map]
    cases hf : Database.map t (blockPath b) "fields" with
    | error e => rfl
    | ok fields =>
      cases hr : Database.map t (blockPath b) "rows" with
      | error e => rfl
      | ok rows =>
        obtain ⟨-, -, rfl⟩ := Database.map_eq_ok.mp hf
        obtain ⟨-, -, rfl⟩ := Database.map_eq_ok.mp hr
        have hrows := h.under.below "rows"
        simp only [hrows.sortedIn, hrows.cells, (h.under.below "fields").kinds]

theorem rows (toLowercase : String → String) (ix : Index) (query : RowQuery) :
    Database.rows toLowercase s ix b query = Database.rows toLowercase t ix b query := by
  unfold Database.rows
  rw [h.read_database]

end SameBlock

/-- A run shows the same Block when no step writes it. -/
theorem PageRun.sameBlock (h : PageRun s μs t)
    (hb : ∀ μ ∈ μs, μ.footprint ≠ blockPath b) : SameBlock b t s :=
  ⟨h.node_top "blocks", h.sameUnder rfl hb⟩

/-! ## What is reported -/

/-- The mutation named the read as changed, or it is about what the mutation created. History
    grows with every mutation. -/
def Applied.Reports (applied : Applied) : Workspace.Read → Prop
  | .areas => .areas ∈ applied.changed
  | .pages area => .pages area ∈ applied.changed ∨ applied.created = some (.area area)
  | .views page _ _ | .viewCount page =>
    .views page ∈ applied.changed ∨ applied.created = some (.page page)
  | .text page block | .style page block | .database page block | .rows page block _ =>
    .block page block ∈ applied.changed ∨ applied.created = some (.page page) ∨
      (∃ view, applied.created = some (.block block view)) ∧ .views page ∈ applied.changed
  | .history _ _ => True

namespace PageStep

variable {μ : PageStep} {p : PageId} {created : Option Created} {changed : List Changed}

/-- A step is reported: on a View by the Page's Views, on a Block by the Block or, if it is
    new, by what was created. -/
structure Reported (μ : PageStep) (p : PageId) (created : Option Created)
    (changed : List Changed) : Prop where
  view : μ.isView = true → .views p ∈ changed
  block : ∀ b, μ.footprint = blockPath b → .block p b ∈ changed ∨
    (∃ v, created = some (.block b v)) ∧ .views p ∈ changed

theorem isView_of_footprint (h : μ.footprint = blockPath b) : μ.isView = false := by
  cases μ <;> first | rfl | simp [footprint] at h

theorem footprint_of_isView (h : μ.isView = true) (b : BlockId) : μ.footprint ≠ blockPath b := by
  intro hb
  rw [isView_of_footprint hb] at h
  cases h

theorem Reported.of_view (h : μ.isView = true) (hv : .views p ∈ changed) :
    μ.Reported p created changed :=
  ⟨fun _ => hv, fun b hb => absurd hb (footprint_of_isView h b)⟩

theorem Reported.of_block (h : μ.footprint = blockPath b) (hb : .block p b ∈ changed) :
    μ.Reported p created changed := by
  refine ⟨fun hv => absurd h (footprint_of_isView hv b), fun b' hb' => .inl ?_⟩
  rw [← blockPath_inj (h.symm.trans hb')]
  exact hb

theorem Reported.of_new {v : ViewId} (h : μ.footprint = blockPath b)
    (hc : created = some (.block b v)) (hv : .views p ∈ changed) :
    μ.Reported p created changed := by
  refine ⟨fun _ => hv, fun b' hb' => .inr ⟨⟨v, ?_⟩, hv⟩⟩
  rw [← blockPath_inj (h.symm.trans hb')]
  exact hc

end PageStep

section
variable {p : PageId} {created : Option Created} {changed : List Changed}
variable {view : ViewId} {block : BlockId}

/-- Removing a View reports it, and its Block when no other View shows it. -/
theorem reported_removalSteps (hviews : .views p ∈ changed)
    (hblock : (Order.read s).shows block view = false → .block p block ∈ changed) :
    ∀ μ ∈ removalSteps s (Order.read s) view block, μ.Reported p created changed := by
  refine forall_mem_cons.mpr ⟨.of_view rfl hviews, ?_⟩
  split
  · rename_i hgone
    refine forall_mem_singleton.mpr (.of_block rfl (hblock ?_))
    simpa using (Bool.and_eq_true_iff.mp hgone).1
  · exact forall_mem_nil _

/-- A split writes a new Block and Views, and shortens the Block it splits. -/
theorem reported_splitSteps {order : Order} {at_ : Nat} {added : BlockId × ViewId}
    (h : SplitSteps order block view at_ added μs) :
    ∀ μ ∈ μs, μ.Reported p (some (.block added.1 added.2)) [.views p, .block p block] := by
  have hviews : Changed.views p ∈ [Changed.views p, Changed.block p block] := by simp
  rcases h with ⟨-, name, sort, rfl⟩ | ⟨-, cs, name, tail, sort, rfl⟩
  · rw [forall_mem_append, forall_mem_cons, forall_mem_singleton]
    refine ⟨⟨.of_new rfl rfl hviews, .of_view rfl hviews⟩, ?_⟩
    split
    · rw [forall_mem_cons, forall_mem_singleton]
      exact ⟨.of_view rfl hviews, .of_view rfl hviews⟩
    · exact forall_mem_nil _
  · rw [forall_mem_cons, forall_mem_cons, forall_mem_singleton]
    exact ⟨.of_block rfl (by simp), .of_new rfl rfl hviews, .of_view rfl hviews⟩

/-- A mutation reports all its steps. -/
theorem Takes.reported {m : Mutation} (h : Takes p s m μs created changed) :
    ∀ μ ∈ μs, μ.Reported p created changed := by
  -- a mutation of one step on one Block reports that Block
  have hone : ∀ {created : Option Created} {ν : PageStep} {b : BlockId},
      ν.footprint = blockPath b → ∀ μ ∈ [ν], μ.Reported p created [.block p b] := fun hν =>
    forall_mem_singleton.mpr (.of_block hν mem_cons_self)
  -- a new Block with its View
  have hnew : ∀ {ν ν' : PageStep} {b : BlockId} {v : ViewId}, ν.footprint = blockPath b →
      ν'.isView = true → ∀ μ ∈ [ν, ν'], μ.Reported p (some (.block b v)) [.views p] := by
    intro ν ν' b v hν hν'
    rw [forall_mem_cons, forall_mem_singleton]
    exact ⟨.of_new hν rfl mem_cons_self, .of_view hν' mem_cons_self⟩
  cases h
  case addTextBlock => exact hnew rfl rfl
  case addDatabaseBlock => exact hnew rfl rfl
  case splitTextBlock hview hblock hsteps => exact reported_splitSteps hsteps
  case joinTextBlock view joining above cs hshows hbelow =>
    refine forall_mem_cons.mpr ⟨.of_block rfl (by simp), ?_⟩
    exact reported_removalSteps (by simp) fun hgone => by simp [hgone]
  case setSectionBoundary =>
    exact forall_mem_singleton.mpr (.of_view rfl mem_cons_self)
  case setCell hsteps =>
    rcases hsteps with rfl | rfl | ⟨v, cell, rfl⟩
    · simp
    · exact hone rfl
    · exact hone rfl
  case removeView hshows =>
    exact reported_removalSteps (by simp) fun hgone => by simp [hgone]
  all_goals exact hone rfl

end

/-! ## What is not reported -/

/-- The document that a read is about. -/
def Workspace.Read.document : Workspace.Read → Option Document
  | .areas => some .workspace
  | .pages area => some (.area area)
  | .views page _ _ | .viewCount page | .text page _ | .style page _ | .database page _
  | .rows page _ _ => some (.page page)
  | .history _ _ => none

variable {P : Platform} {S : Store P.automerge} {ws ws' : Workspace P S}
variable {store store' : S.State} {r : Workspace.Read} {applied : Applied}

theorem answer_of_shown {d : Document}
    (hr : r.document = some d) (h : shown S store' d = shown S store d) :
    answer S store' r = answer S store r := by
  cases r <;> cases hr <;> simp only [answer, h]

/-- A read of a Page answers as before when no step of the run is about it. -/
theorem PageRun.answer_eq {p : PageId} (h : PageRun s μs t) (hs : shown S store (.page p) = .ok s)
    (ht : shown S store' (.page p) = .ok t)
    (hreported : ∀ μ ∈ μs, μ.Reported p applied.created applied.changed)
    (hr : r.document = some (.page p)) (hnot : ¬ applied.Reports r) :
    answer S store' r = answer S store r := by
  have hviews : .views p ∉ applied.changed → Order.read t = Order.read s := by
    intro hv
    refine h.read_order_eq fun μ hμ => ?_
    rw [← Bool.not_eq_true]
    exact fun hview => hv ((hreported μ hμ).view hview)
  have hblock : ∀ b, ¬ (.block p b ∈ applied.changed ∨ applied.created = some (.page p) ∨
      (∃ v, applied.created = some (.block b v)) ∧ .views p ∈ applied.changed) →
      SameBlock b t s := by
    intro b hb
    refine h.sameBlock fun μ hμ hfoot => hb ?_
    rcases (hreported μ hμ).block b hfoot with hc | hc
    · exact .inl hc
    · exact .inr (.inr hc)
  cases r <;> cases hr <;> simp only [answer, hs, ht, Except.bind]
  case views start limit => rw [hviews fun hv => hnot (.inl hv)]
  case viewCount => rw [hviews fun hv => hnot (.inl hv)]
  case style b => rw [(hblock b hnot).styleOf]
  case text b => rw [(hblock b hnot).text]
  case database b => rw [(hblock b hnot).read_database]
  case rows b query =>
    have hsame := hblock b hnot
    simp only [hsame.read_index, hsame.rows]

/-- What a mutation does not report, the store shows as before. -/
theorem Effect.answer_eq {m : Mutation}
    {states : List (Document × State)} {action : Action P.automerge.ChangeHash}
    (h : Effect S store m applied.created applied.changed states)
    (hs : Stored S store store' states action) (hnot : ¬ applied.Reports r) :
    answer S store' r = answer S store r := by
  cases hr : r.document with
  | none =>
    cases r <;> cases hr
    exact absurd trivial hnot
  | some d =>
    by_cases hd : d ∈ states.map Prod.fst
    · revert h
      generalize hcreated : applied.created = created
      generalize hchanged : applied.changed = changed
      intro h
      cases h with
      | createArea | createPage =>
        exfalso
        simp only [map_cons, map_nil, mem_cons, not_mem_nil, or_false] at hd
        rcases hd with rfl | rfl <;> cases r <;> cases hr <;>
          exact hnot (by simp [Applied.Reports, hchanged, hcreated])
      | renamePage hshown htitled =>
        exfalso
        obtain rfl := mem_singleton.mp hd
        cases r <;> cases hr
        exact hnot (by simp [Applied.Reports, hchanged])
      | page hshown hrun htakes =>
        obtain rfl := mem_singleton.mp hd
        refine hrun.answer_eq hshown (hs.shown (by simp)) ?_ hr hnot
        rw [hcreated, hchanged]
        exact htakes.reported
    · exact answer_of_shown hr (shown_congr (hs.others d hd).1)

/-- A read whose answer an accepted request changes is one that the request reports, or is
    about what the request created. -/
theorem changed_complete (hd : Distinct P.random) (h : Reached ws) {request : Request}
    {applied : Applied} (ha : apply request ws = (.ok applied, ws'))
    (r : Workspace.Read) (hne : (read r ws').1 ≠ (read r ws).1) :
    applied.Reports r := by
  have hi := h.inv hd
  obtain ⟨states, action, hacc⟩ := (apply_spec hd hi request).of_ok ha
  by_contra hnot
  refine hne ?_
  rw [hacc.inv.read_eq, hi.read_eq]
  exact hacc.effect.answer_eq hacc.stored hnot

/-- Removing the only View of a Text Block changes what its text reads as. -/
theorem changed_complete_removeView :
    ∃ ws ws' : JournalWorkspace, ∃ applied, Reached ws ∧
      apply ⟨.person ⟨"me"⟩, .ui, .removeView (journalId 5) (journalId 8)⟩ ws = (.ok applied, ws') ∧
      (read (.text (journalId 5) (journalId 7)) ws').1 ≠
        (read (.text (journalId 5) (journalId 7)) ws).1 ∧
      applied.Reports (.text (journalId 5) (journalId 7)) := by
  let shownText (ws : JournalWorkspace) : Option String :=
    match (read (.text (journalId 5) (journalId 7)) ws).1 with
    | .ok (.text text) => text
    | _ => none
  let removed : M journalPlatform journalStore Applied :=
    apply ⟨.person ⟨"me"⟩, .ui, .removeView (journalId 5) (journalId 8)⟩
  obtain ⟨ws, hstarted, hrun⟩ := exists_started [.createArea "Work",
      .createPage (journalId 3) none "Notes", .addTextBlock (journalId 5) none "one"]
    (Q := fun ws => (removed ws).1.isOk = true ∧ shownText (removed ws).2 ≠ shownText ws)
    (by decide +kernel)
  have hreached := hstarted.reached distinct_journalPlatform
  rcases ha : removed ws with ⟨e | applied, ws'⟩
  · rw [ha] at hrun
    cases hrun.1
  · rw [ha] at hrun
    refine ⟨ws, ws', applied, hreached, ha, ?hne,
      changed_complete distinct_journalPlatform hreached ha _ ?hne⟩
    intro heq
    refine hrun.2 ?_
    simp only [shownText, heq]

end Watershed.Liquid
