/-
  The View order over whole runs.

  In a Workspace whose documents this code wrote, a cached order is the one the document
  gives, its sort keys are strictly increasing, and every live Block has exactly one View
  there; a new View is exactly where it was to go.
-/
import Watershed.Liquid.Runs
import Watershed.Liquid.ViewOrder

open List

namespace Watershed.Liquid

variable {P : Platform} {S : Store P.automerge} {ws ws' : Workspace P S}

/-! ## Pages in the store -/

variable {states : List (Document × State)} {p : PageId} {s : State} {store : S.State}

/-- What a Page shows after a commit: new contents, or what it showed. -/
theorem Stored.shown_eq {store store' : S.State}
    {action : Action P.automerge.ChangeHash} (h : Stored S store store' states action)
    {d : Document} (hs : Liquid.shown S store' d = .ok s) :
    (d, s) ∈ states ∨ Liquid.shown S store d = .ok s := by
  by_cases hd : d ∈ states.map Prod.fst
  · obtain ⟨⟨d', t⟩, hx, rfl⟩ := mem_map.mp hd
    rw [h.shown hx] at hs
    cases hs
    exact .inl hx
  · rw [shown_congr (h.others d hd).1] at hs
    exact .inr hs

/-- An empty store shows nothing. -/
theorem EmptyStore.shown_ne (h : EmptyStore S store) (d : Document) (s : State) :
    shown S store d ≠ .ok s := by
  unfold shown
  rw [h.chunks]
  simp

/-- A new Page has no Views and no Blocks. -/
theorem pageOk_new : PageOk ∅ (State.empty.withMaps ["blocks", "views"]) := by
  have hviews : Order.read (State.empty.withMaps ["blocks", "views"]) = ⟨[]⟩ := rfl
  refine ⟨by rw [hviews]; exact ⟨List.Pairwise.nil, by simp⟩, by rw [hviews]; simp, fun b hb => ?_⟩
  obtain ⟨p, hp⟩ := Option.isSome_iff_exists.mp hb
  obtain ⟨-, -, -, hdel⟩ := live_eq_some.mp hp
  cases hdel

variable {m : Mutation} {created : Option Created} {changed : List Changed} {Ψ : State → Prop}

/-- The effect of a mutation on a Page, as a property that its steps keep. -/
theorem Effect.page_rule (h : Effect S store m created changed states)
    (hnew : Ψ (State.empty.withMaps ["blocks", "views"]))
    (hrun : ∀ p s μs t, shown S store (.page p) = .ok s → PageRun s μs t →
      Takes p s m μs created changed → Ψ t) {t : State}
    (hx : (Document.page p, t) ∈ states) : Ψ t := by
  cases h
  case createArea => simp at hx
  case createPage =>
    simp only [mem_cons, Prod.mk.injEq, reduceCtorEq, false_and, not_mem_nil, or_false,
      false_or] at hx
    rw [hx.2]
    exact hnew
  case renamePage => simp at hx
  case page hs hr htakes =>
    simp only [mem_singleton, Prod.mk.injEq] at hx
    rw [hx.2]
    exact hrun _ _ _ _ hs hr htakes

/-- A property of Pages that new Pages have and the steps of every mutation keep holds of
    every Page of a run. -/
theorem Started.page_rule (hd : Distinct P.random)
    (hnew : Ψ (State.empty.withMaps ["blocks", "views"]))
    (hrun : ∀ p s m μs created changed t, Ψ s → PageRun s μs t →
      Takes p s m μs created changed → Ψ t) (h : Started ws)
    (hs : shown S ws.store (.page p) = .ok s) : Ψ s := by
  have hall := h.store_rule hd (Φ := fun store => ∀ p s, shown S store (.page p) = .ok s → Ψ s)
    ?_ ?_ ?_
  · exact hall p s hs
  · intro store store' hchunks _ ih p s hs
    rw [shown_congr (congrFun hchunks _)] at hs
    exact ih p s hs
  · intro owner store store' action hempty hstored p s hs
    rcases hstored.shown_eq hs with hx | hs
    · simp at hx
    · exact absurd hs (hempty.shown_ne _ _)
  · intro ws ws' request applied states action _ ih ha p s hs
    rcases ha.stored.shown_eq hs with hx | hs
    · exact ha.effect.page_rule hnew
        (fun p s μs t hs hr ht => hrun p s _ μs _ _ t (ih p s hs) hr ht) hx
    · exact ih p s hs

theorem Started.pageOk (hd : Distinct P.random) (h : Started ws)
    (hs : shown S ws.store (.page p) = .ok s) : PageOk ∅ s :=
  h.page_rule hd pageOk_new (fun _ _ _ _ _ _ _ hok hr ht => ht.pageOk hok hr) hs

/-! ## The order -/

theorem Order.window_eq (o : Order) (start limit : Nat) :
    o.window start limit = (o.views.drop start).take limit := by
  simp [window, views]

/-- A reader's windows are windows of the Views that the document gives. -/
theorem Inv.read_views (h : Inv ws) (hs : shown S ws.store (.page p) = .ok s) (start limit : Nat) :
    (Workspace.read (.views p start limit) ws).1 =
      .ok (.views (((Order.read s).views.drop start).take limit)) := by
  rw [h.read_eq, answer, hs, ← Order.window_eq]
  rfl

/-- A live Block is shown once. -/
theorem PageOk.count_block (h : PageOk ∅ s) {b : BlockId}
    (hb : (live s "blocks" b.asStr).isSome = true) :
    ((Order.read s).views.map View.block).count b = 1 := by
  rw [Order.views, map_map]
  refine count_eq_one_of_mem h.nodup ?_
  obtain ⟨x, hx, rfl⟩ := (h.shown b hb).resolve_left (Set.notMem_empty b)
  exact mem_map_of_mem hx

/-- A mutation that adds a View acts on the Page it names. -/
theorem Effect.of_addsView
    (h : Effect S store m created changed states) (hm : m.addsView = some p) :
    ∃ s t μs, Liquid.shown S store (.page p) = .ok s ∧ PageRun s μs t ∧
      Takes p s m μs created changed ∧ (Document.page p, t) ∈ states := by
  cases h
  case page hs hr ht =>
    obtain rfl := ht.page_eq hm
    exact ⟨_, _, _, hs, hr, ht, mem_singleton_self _⟩
  all_goals simp [Mutation.addsView] at hm

/-- The cached View order of every Page of a run is the order that the document gives, strictly
    increasing with distinct sort keys, and shows each live Block exactly once; and a request
    that adds a Block puts its View where it is to be, leaving the other Views in their order. -/
theorem cached_order_correct (hd : Distinct P.random) (h : Started ws) :
    (∀ p l o, ws.docs (.page p) = some l → l.order = some o →
      o = Order.read (P.automerge.state l.doc) ∧
      (o.placed.Pairwise fun a b =>
        toLex (a.sort, a.view.id.asStr) < toLex (b.sort, b.view.id.asStr)) ∧
      (o.placed.map Placed.sort).Nodup ∧
      ∀ b : BlockId, (live (P.automerge.state l.doc) "blocks" b.asStr).isSome = true →
        (o.views.map View.block).count b = 1) ∧
    ∀ request applied ws', Workspace.apply request ws = (.ok applied, ws') →
      ∀ p, request.mutation.addsView = some p →
        ∃ b v before after, applied.created = some (.block b v) ∧
          (∀ start limit, (Workspace.read (.views p start limit) ws).1 =
            .ok (.views ((before.drop start).take limit))) ∧
          (∀ start limit, (Workspace.read (.views p start limit) ws').1 =
            .ok (.views ((after.drop start).take limit))) ∧
          request.mutation.Puts b v before after := by
  have hi := h.inv hd
  constructor
  · intro p l o hl ho
    obtain ⟨hb, hp, hc⟩ := hi.loaded _ l hl
    have hok := h.pageOk hd (hb.shown hp)
    obtain rfl := hc.order o ho
    refine ⟨rfl, List.Pairwise.imp ?_ hok.strict.sorted, pairwise_map.mpr
      (List.Pairwise.imp ?_ hok.strict.sorted), fun b hb => hok.count_block hb⟩
    · exact fun {a b} hab => Prod.Lex.toLex_lt_toLex.mpr (.inl hab)
    · exact fun {a b} hab => ne_of_lt hab
  · intro request applied ws' ha p hp
    obtain ⟨states, action, hacc⟩ := (Workspace.apply_spec hd hi request).of_ok ha
    obtain ⟨s, t, μs, hs, hr, ht, hx⟩ := hacc.effect.of_addsView hp
    have hok := h.pageOk hd hs
    obtain ⟨b, v, hcreated, hputs⟩ := ht.puts hok hr (by rw [hp]; rfl)
    exact ⟨b, v, _, _, hcreated, hi.read_views hs, hacc.inv.read_views (hacc.stored.shown hx), hputs⟩

/-- A Text Block is added after the first one of a new Page. -/
theorem cached_order_correct_addTextBlock :
    ∃ ws ws' : JournalWorkspace, ∃ applied, Started ws ∧
      Workspace.apply ⟨.person ⟨"me"⟩, .ui, .addTextBlock (journalId 5) (some (journalId 8)) "two"⟩
        ws = (.ok applied, ws') ∧
      ∃ b v before after, applied.created = some (.block b v) ∧
        (∀ start limit, (Workspace.read (.views (journalId 5) start limit) ws').1 =
          .ok (.views ((after.drop start).take limit))) ∧
        InsertedAfter (some (journalId 8)) ⟨v, b, false, .text⟩ before after := by
  obtain ⟨ws, ws', applied, hstarted, hrun⟩ := exists_applied [.createArea "Work",
      .createPage (journalId 3) none "Notes", .addTextBlock (journalId 5) none "one"]
    ⟨.person ⟨"me"⟩, .ui, .addTextBlock (journalId 5) (some (journalId 8)) "two"⟩
    (by decide +kernel)
  obtain ⟨b, v, before, after, hcreated, -, hafter, hputs⟩ :=
    (cached_order_correct distinct_journalPlatform hstarted).2 _ _ _ hrun (journalId 5) rfl
  exact ⟨ws, ws', applied, hstarted, hrun, b, v, before, after, hcreated, hafter, hputs⟩

end Watershed.Liquid
